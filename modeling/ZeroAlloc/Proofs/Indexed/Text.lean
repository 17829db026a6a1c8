import ZeroAlloc.Proofs.Indexed.Attempt
import ZeroAlloc.Proofs.Lexis.Tiling
import ZeroAlloc.Proofs.Text.Position
set_option autoImplicit false

/-! # Text by offsets

Cutting a text, splitting it into tokens and finding the line and column of an offset, where the
place is a byte offset that has to be a boundary of the text. None of it fails (`tokens_eq_done`,
`position_append`). -/

namespace ZeroAlloc.Indexed

open Text (byteLength byteLength_append Position)

/-! ## Pieces of a text -/

/-- The text from an offset on. -/
def textFrom (cs : List Char) (start : Nat) : Attempt (List Char) :=
  if Text.isBoundary start cs then .done (Text.dropBytes start cs) else .fault .slice

/-- The text between two offsets. -/
def textBetween (cs : List Char) (start stop : Nat) : Attempt (List Char) :=
  if start ≤ stop && Text.isBoundary start cs && Text.isBoundary stop cs then
    .done (Text.sliceBytes cs start stop)
  else .fault .slice

theorem textFrom_append (pre post : List Char) :
    textFrom (pre ++ post) (byteLength pre) = .done post := by
  rw [textFrom, if_pos (Text.isBoundary_append pre post), Text.dropBytes_append]

/-- Inside a character there is no such cut. -/
example : textFrom ['é'] 1 = .fault .slice := by
  rfl

theorem textBetween_append (pre piece post : List Char) :
    textBetween (pre ++ (piece ++ post)) (byteLength pre) (byteLength pre + byteLength piece) =
      .done piece := by
  have hstart := Text.isBoundary_append pre (piece ++ post)
  have hstop := Text.isBoundary_append (pre ++ piece) post
  rw [List.append_assoc, byteLength_append] at hstop
  rw [textBetween, if_pos (by simp [hstart, hstop]), Text.sliceBytes_append]

/-! ## Tokens -/

/-- The place and class of a token. -/
structure RawToken where
  kind : LexemeKind
  start : Nat
  stop : Nat

/-- The tokens of a text from an offset on. -/
def scanFrom (rules : List Lexis.Rule) (cs : List Char) : (fuel offset : Nat) →
    Attempt (List RawToken)
  | 0, _ => .fault .stuck
  | fuel + 1, offset =>
    if offset < byteLength cs then do
      let rest ← textFrom cs offset
      let (kind, more) := Lexis.firstRule rules rest
      let stop := offset + byteLength (rest.take (more + 1))
      let tokens ← scanFrom rules cs fuel stop
      match kind with
      | some kind => pure (⟨kind, offset, stop⟩ :: tokens)
      | none => pure tokens
    else pure []

/-- A token with its text. -/
def RawToken.read (cs : List Char) (t : RawToken) : Attempt Token := do
  let text ← textBetween cs t.start t.stop
  pure ⟨⟨t.kind, String.ofList text⟩, t.start⟩

/-- The tokens of a text. -/
def tokens (rules : List Lexis.Rule) (cs : List Char) : Attempt (List Token) := do
  let raw ← scanFrom rules cs (cs.length + 1) 0
  raw.mapM (RawToken.read cs)

/-- The place and class of a token that has its text. -/
def RawToken.of (t : Token) : RawToken := ⟨t.kind, t.start, t.stop⟩

theorem RawToken.read_of {cs : List Char} {ts : List Token} (h : Lexis.Tiles 0 cs ts) {t : Token}
    (ht : t ∈ ts) : (RawToken.of t).read cs = .done t := by
  obtain ⟨pre, post, rfl, hstart⟩ := h.exists_split ht
  rw [Nat.zero_add] at hstart
  rw [read, of, Token.stop_eq, hstart, textBetween_append, Attempt.done_bind, String.ofList_toList]
  rw [← hstart]
  rfl

theorem scanFrom_append {rules : List Lexis.Rule} (pre post : List Char) {fuel : Nat}
    (hfuel : post.length < fuel) :
    scanFrom rules (pre ++ post) fuel (byteLength pre) =
      .done ((Lexis.tokensFrom rules (byteLength pre) post).map RawToken.of) := by
  induction fuel generalizing pre post with
  | zero => omega
  | succ fuel ih =>
    cases post with
    | nil =>
      rw [scanFrom, if_neg (by simp), Lexis.tokensFrom]
      rfl
    | cons c post =>
      have hinside : byteLength pre < byteLength (pre ++ c :: post) := by
        obtain ⟨n, hn, _⟩ := Text.byteLength_cons_eq_succ c post
        rw [byteLength_append, hn]
        omega
      rw [scanFrom, if_pos hinside, textFrom_append, Attempt.done_bind, Lexis.tokensFrom]
      cases hrule : Lexis.firstRule rules (c :: post) with
      | mk kind more =>
        dsimp only
        -- the rule covers `c` and `more` characters behind it
        have hcovered : (c :: post).take (more + 1) = c :: post.take more := rfl
        have hsplit : pre ++ c :: post = (pre ++ (c :: post.take more)) ++ post.drop more := by
          simp
        have hmore := ih (pre ++ (c :: post.take more)) (post.drop more)
          (by simp only [List.length_drop, List.length_cons] at hfuel ⊢; omega)
        rw [← hsplit, byteLength_append] at hmore
        rw [hcovered, hmore, Attempt.done_bind]
        cases kind with
        | none => rfl
        | some kind =>
          rw [List.map_cons, RawToken.of, Token.stop_eq, String.toList_ofList]
          rfl

/-- Splitting a text into tokens does not fail. -/
theorem tokens_eq_done (rules : List Lexis.Rule) (source : String) :
    tokens rules source.toList = .done (Lexis.tokenize rules source) := by
  have hscan := @scanFrom_append rules [] source.toList _ (Nat.lt_succ_self _)
  rw [List.nil_append, byteLength] at hscan
  have hread : ∀ t ∈ Lexis.tokenize rules source,
      (RawToken.read source.toList ∘ RawToken.of) t = .done t :=
    fun t ht => RawToken.read_of (Lexis.tiles_tokenize rules source) ht
  rw [tokens, hscan, Attempt.done_bind, List.mapM_map]
  refine (Attempt.mapM_eq_done hread).trans ?_
  rw [List.map_id']

/-! ## Lines and columns -/

/-- The offsets at which lines start, in a text that starts at an offset; its own start is not
counted. -/
def lineStartsFrom (offset : Nat) : List Char → List Nat
  | [] => []
  | c :: cs =>
    let next := offset + c.utf8Size
    if c = '\n' then next :: lineStartsFrom next cs else lineStartsFrom next cs

/-- The offsets at which the lines of a text start. -/
def lineStarts (cs : List Char) : List Nat :=
  0 :: lineStartsFrom 0 cs

/-- The line and column of an offset. -/
def position (cs : List Char) (offset : Nat) : Attempt Position := do
  let line ← decrement ((lineStarts cs).countP (· ≤ offset))
  match (lineStarts cs)[line]? with
  | none => .fault .index
  | some start =>
    let (start, offset) ← range start offset
    let column :=
      match textBetween cs start offset with
      | .done text => text.length
      | _ => offset - start
    pure ⟨line + 1, column + 1⟩

/-- The span of the bytes from `start` up to `stop`. -/
def span (cs : List Char) (start stop : Nat) : Attempt Text.Span := do
  let first ← position cs start
  let last ← position cs stop
  pure ⟨start, stop, first, last⟩

theorem lineStartsFrom_append (offset : Nat) (pre post : List Char) :
    lineStartsFrom offset (pre ++ post) =
      lineStartsFrom offset pre ++ lineStartsFrom (offset + byteLength pre) post := by
  induction pre generalizing offset with
  | nil => rfl
  | cons c pre ih =>
    rw [List.cons_append, lineStartsFrom, lineStartsFrom, ih, byteLength, ← Nat.add_assoc]
    split <;> rfl

/-- Lines start behind line feeds. -/
theorem bounds_of_mem_lineStartsFrom {offset start : Nat} {cs : List Char}
    (h : start ∈ lineStartsFrom offset cs) : offset < start ∧ start ≤ offset + byteLength cs := by
  induction cs generalizing offset with
  | nil => cases h
  | cons c cs ih =>
    have hsize := c.utf8Size_pos
    rw [byteLength]
    rw [lineStartsFrom] at h
    split at h
    · rcases List.mem_cons.1 h with rfl | h
      · omega
      · have := ih h
        omega
    · have := ih h
      omega

theorem length_lineStartsFrom (offset : Nat) (cs : List Char) :
    (lineStartsFrom offset cs).length = cs.count '\n' := by
  induction cs generalizing offset with
  | nil => rfl
  | cons c cs ih =>
    rw [lineStartsFrom, List.count_cons]
    split
    · rename_i hfeed
      simp [ih, hfeed]
    · rename_i hfeed
      simp [ih, hfeed]

/-- The last line of a text starts where its column counts from. -/
theorem exists_lastLine (pre : List Char) :
    ∃ head line, pre = head ++ line ∧ (lineStarts pre)[pre.count '\n']? = some (byteLength head) ∧
      line.length = (pre.reverse.takeWhile (· ≠ '\n')).length := by
  induction pre using List.reverseRecOn with
  | nil => exact ⟨[], [], rfl, rfl, rfl⟩
  | append_singleton pre c ih =>
    obtain ⟨head, line, hpre, hstart, hline⟩ := ih
    have hlength : (lineStarts pre).length = pre.count '\n' + 1 := by
      rw [lineStarts, List.length_cons, length_lineStartsFrom]
    have hstarts : lineStarts (pre ++ [c]) =
        lineStarts pre ++ lineStartsFrom (byteLength pre) [c] := by
      rw [lineStarts, lineStarts, lineStartsFrom_append, Nat.zero_add, List.cons_append]
    by_cases hfeed : c = '\n'
    · refine ⟨pre ++ [c], [], by simp, ?_, by simp [hfeed]⟩
      rw [hstarts, List.count_append, hfeed, List.count_singleton_self,
        List.getElem?_append_right (by omega), hlength, Nat.sub_self, byteLength_append]
      rfl
    · refine ⟨head, line ++ [c], by simp [hpre], ?_, by simp [hfeed, hline]⟩
      rw [hstarts, List.count_append, List.count_singleton, if_neg (by simpa using hfeed),
        Nat.add_zero, List.getElem?_append_left (by omega)]
      exact hstart

/-- At a boundary, finding the line and column does not fail. -/
theorem position_append (pre post : List Char) :
    position (pre ++ post) (byteLength pre) = .done (Position.behind pre) := by
  have hpre : (lineStarts (pre ++ post)).countP (· ≤ byteLength pre) = pre.count '\n' + 1 := by
    rw [lineStarts, lineStartsFrom_append, Nat.zero_add, ← List.cons_append, List.countP_append,
      List.countP_eq_length.2, List.countP_eq_zero.2, List.length_cons, length_lineStartsFrom]
    · intro start hstart
      have := bounds_of_mem_lineStartsFrom hstart
      simp only [decide_eq_true_eq]
      omega
    · intro start hstart
      rcases List.mem_cons.1 hstart with rfl | hstart
      · simp
      · have := bounds_of_mem_lineStartsFrom hstart
        simp only [decide_eq_true_eq]
        omega
  obtain ⟨head, line, hsplit, hstart, hline⟩ := exists_lastLine pre
  have hfound : (lineStarts (pre ++ post))[pre.count '\n']? = some (byteLength head) := by
    rw [lineStarts, lineStartsFrom_append, ← List.cons_append, List.getElem?_append_left]
    · exact hstart
    · rw [List.length_cons, length_lineStartsFrom]
      omega
  have hle : byteLength head ≤ byteLength pre := by
    rw [hsplit, byteLength_append]
    omega
  have htext : textBetween (pre ++ post) (byteLength head) (byteLength pre) = .done line := by
    rw [hsplit, byteLength_append, List.append_assoc]
    exact textBetween_append head line post
  rw [position, hpre, decrement_succ, Attempt.done_bind, hfound]
  simp only [range_eq_done hle, Attempt.done_bind, htext, Attempt.pure_eq_done]
  rw [Position.behind, hline]

/-- The span between two boundaries is found without failing. -/
theorem span_append (before piece behind : List Char) :
    span (before ++ (piece ++ behind)) (byteLength before) (byteLength (before ++ piece)) =
      .done (.of (before ++ (piece ++ behind)) (byteLength before)
        (byteLength (before ++ piece))) := by
  have hcuts := Text.Span.cutsOut_of before piece behind
  have hlast := position_append (before ++ piece) behind
  rw [List.append_assoc] at hlast
  rw [span, position_append, Attempt.done_bind, hlast, Attempt.done_bind, ← hcuts.first,
    ← hcuts.last]
  rfl

end ZeroAlloc.Indexed
