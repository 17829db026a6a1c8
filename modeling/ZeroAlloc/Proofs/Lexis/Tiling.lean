import ZeroAlloc.Lexis.CSharp
import ZeroAlloc.Lexis.Rule
import ZeroAlloc.Proofs.Text.Position
set_option autoImplicit false

/-! # Tokens and the rules that give them

Each token is what the first applicable rule covers at its place (`exists_rule_of_mem_tokensFrom`).
Between its tokens a text has stretches that the rules drop, and nothing else: `Tiles` says so, and
`tiles_tokenize` proves it of every list of rules. So the bytes from one token up to the end of a
later one are a piece of the text (`Tiles.exists_piece`). -/

namespace ZeroAlloc

open Text (byteLength byteLength_append utf8ByteSize_ofList)

/-- The bytes of a token are those of the characters of its text. -/
theorem Token.stop_eq (t : Token) : t.stop = t.start + byteLength t.text.toList := by
  rw [Token.stop, ← utf8ByteSize_ofList, String.ofList_toList]

namespace Lexis

/-! ## Rules that apply -/

theorem firstRule_of_extent {rule : Rule} {cs : List Char} {n : Nat} (h : rule.extent cs = n + 1)
    (rules : List Rule) : firstRule (rule :: rules) cs = (rule.kind, n) := by
  rw [firstRule, h]

theorem firstRule_of_extent_eq_zero {rule : Rule} {cs : List Char} (h : rule.extent cs = 0)
    (rules : List Rule) : firstRule (rule :: rules) cs = firstRule rules cs := by
  rw [firstRule, h]

/-- A class comes from a rule that applies, or there is none that does. -/
theorem exists_rule_of_firstRule {rules : List Rule} {cs : List Char} {kind : Option LexemeKind}
    {n : Nat} (h : firstRule rules cs = (kind, n)) :
    (∃ rule ∈ rules, rule.kind = kind ∧ rule.extent cs = n + 1) ∨
      kind = some .error ∧ n = 0 := by
  induction rules with
  | nil =>
    cases h
    exact .inr ⟨rfl, rfl⟩
  | cons rule rules ih =>
    rw [firstRule] at h
    split at h
    · obtain ⟨other, hother, hrule⟩ | herror := ih h
      · exact .inl ⟨other, List.mem_cons_of_mem _ hother, hrule⟩
      · exact .inr herror
    · rename_i hextent
      cases h
      exact .inl ⟨rule, List.mem_cons_self, rfl, hextent⟩

/-- A token is what its rule covers of the text from its place on. -/
theorem exists_rule_of_mem_tokensFrom {rules : List Rule} {start : Nat} {cs : List Char} {t : Token}
    (h : t ∈ tokensFrom rules start cs) :
    ∃ c rest n, c :: rest <:+ cs ∧ t.text = String.ofList (c :: rest.take n) ∧
      firstRule rules (c :: rest) = (some t.kind, n) := by
  fun_induction tokensFrom rules start cs with
  | case1 => cases h
  | case2 start c cs more covered _ kind hrule ih =>
    rcases List.mem_cons.1 h with rfl | h
    · exact ⟨c, cs, more, List.suffix_rfl, rfl, hrule⟩
    · obtain ⟨d, rest, n, hsuffix, htext, hfirst⟩ := ih h
      refine ⟨d, rest, n, hsuffix.trans ?_, htext, hfirst⟩
      exact (List.drop_suffix _ _).trans (List.suffix_cons c cs)
  | case3 start c cs more covered _ _ ih =>
    obtain ⟨d, rest, n, hsuffix, htext, hfirst⟩ := ih h
    refine ⟨d, rest, n, hsuffix.trans ?_, htext, hfirst⟩
    exact (List.drop_suffix _ _).trans (List.suffix_cons c cs)

/-- A token is malformed or has the class of one of the rules. -/
theorem kind_of_mem_tokensFrom {rules : List Rule} {start : Nat} {cs : List Char} {t : Token}
    (h : t ∈ tokensFrom rules start cs) :
    t.kind = .error ∨ ∃ rule ∈ rules, rule.kind = some t.kind := by
  obtain ⟨c, rest, n, -, -, hfirst⟩ := exists_rule_of_mem_tokensFrom h
  rcases exists_rule_of_firstRule hfirst with ⟨rule, hrule, hkind, -⟩ | ⟨herror, -⟩
  · exact .inr ⟨rule, hrule, hkind⟩
  · exact .inl (Option.some.inj herror)

/-- The lexis of C# has no line breaks. -/
theorem CSharp.isNewline_of_mem_tokenize {source : String} {t : Token}
    (h : t ∈ tokenize CSharp.rules source) : t.toLexeme.isNewline = false := by
  have hrules : ∀ rule ∈ CSharp.rules, rule.kind ≠ some .newline := by simp [CSharp.rules]
  have hkind : t.kind ≠ .newline := by
    intro hnewline
    rcases kind_of_mem_tokensFrom h with herror | ⟨rule, hrule, hkind⟩
    · rw [hnewline] at herror
      cases herror
    · exact hrules rule hrule (hkind.trans (congrArg some hnewline))
  simpa [Lexeme.isNewline] using hkind

/-! ## Tokens tile their text -/

/-- The tokens stand in this order in a text that starts at an offset. What stands before each of
them, and behind the last one, is dropped. -/
inductive Tiles : Nat → List Char → List Token → Prop where
  | dropped (start : Nat) (rest : List Char) : Tiles start rest []
  | token {start : Nat} {rest : List Char} {ts : List Token} (kind : LexemeKind)
      (gap covered : List Char) (nonempty : covered ≠ [])
      (more : Tiles (start + byteLength gap + byteLength covered) rest ts) :
      Tiles start (gap ++ (covered ++ rest))
        (⟨⟨kind, String.ofList covered⟩, start + byteLength gap⟩ :: ts)

namespace Tiles

/-- What is dropped in front of a text joins what is dropped before its first token. -/
theorem prepend {start : Nat} {rest : List Char} {ts : List Token} (gap : List Char)
    (h : Tiles (start + byteLength gap) rest ts) : Tiles start (gap ++ rest) ts := by
  cases h with
  | dropped => exact .dropped ..
  | token kind gap' covered nonempty more =>
    rw [← List.append_assoc, Nat.add_assoc, ← byteLength_append]
    refine .token kind (gap ++ gap') covered nonempty ?_
    rwa [byteLength_append, ← Nat.add_assoc]

end Tiles

/-- The tokens of a text tile it, whatever the rules are. -/
theorem tiles_tokensFrom (rules : List Rule) (start : Nat) (cs : List Char) :
    Tiles start cs (tokensFrom rules start cs) := by
  fun_induction tokensFrom rules start cs with
  | case1 start => exact .dropped ..
  | case2 start c cs more covered _ kind _ ih =>
    -- the rule covers `c` and `more` characters behind it, and the text goes on there
    have hcs : c :: cs = [] ++ (covered ++ cs.drop more) := by simp [covered]
    rw [hcs]
    exact .token kind [] covered (List.cons_ne_nil _ _) ih
  | case3 start c cs more covered _ _ ih =>
    have hcs : c :: cs = covered ++ cs.drop more := by simp [covered]
    rw [hcs]
    exact ih.prepend covered

theorem tiles_tokenize (rules : List Rule) (source : String) :
    Tiles 0 source.toList (tokenize rules source) :=
  tiles_tokensFrom rules 0 source.toList

/-! ## The order of tokens -/

namespace Tiles

variable {start : Nat} {cs : List Char} {ts : List Token}

theorem start_le (h : Tiles start cs ts) {t : Token} (ht : t ∈ ts) : start ≤ t.start := by
  induction h with
  | dropped => cases ht
  | token kind gap covered _ _ ih =>
    rcases List.mem_cons.1 ht with rfl | ht
    · exact Nat.le_add_right _ _
    · have := ih ht
      omega

/-- No token is empty. -/
theorem start_lt_stop (h : Tiles start cs ts) {t : Token} (ht : t ∈ ts) : t.start < t.stop := by
  induction h with
  | dropped => cases ht
  | token kind gap covered nonempty _ ih =>
    rcases List.mem_cons.1 ht with rfl | ht
    · rw [Token.stop_eq, String.toList_ofList]
      exact Nat.lt_add_of_pos_right (Nat.pos_of_ne_zero (mt Text.eq_nil_of_byteLength nonempty))
    · exact ih ht

theorem text_ne_empty (h : Tiles start cs ts) {t : Token} (ht : t ∈ ts) : t.text ≠ "" := by
  intro hempty
  have := h.start_lt_stop ht
  rw [Token.stop, hempty, String.utf8ByteSize_empty] at this
  omega

/-- Each token ends before the next one starts. -/
theorem pairwise_stop_le_start (h : Tiles start cs ts) :
    ts.Pairwise fun t u => t.stop ≤ u.start := by
  induction h with
  | dropped => exact .nil
  | token kind gap covered _ more ih =>
    refine .cons (fun u hu => ?_) ih
    rw [Token.stop_eq, String.toList_ofList]
    exact more.start_le hu

/-! ## Pieces of the text under tokens -/

/-- A token covers its own text at its own place. -/
theorem exists_split (h : Tiles start cs ts) {t : Token} (ht : t ∈ ts) :
    ∃ pre post, cs = pre ++ (t.text.toList ++ post) ∧ t.start = start + byteLength pre := by
  induction h with
  | dropped => cases ht
  | @token start rest ts kind gap covered _ _ ih =>
    rcases List.mem_cons.1 ht with rfl | ht
    · exact ⟨gap, rest, by simp, rfl⟩
    · obtain ⟨pre, post, rfl, hstart⟩ := ih ht
      refine ⟨gap ++ (covered ++ pre), post, by simp, ?_⟩
      rw [hstart, byteLength_append, byteLength_append]
      omega

/-- The bytes from the start of a token up to the end of the same or a later one are a piece of the
text, which ends with the later token. -/
theorem exists_piece (h : Tiles start cs ts) {i j : Nat} {t u : Token} (ht : ts[i]? = some t)
    (hu : ts[j]? = some u) (hij : i ≤ j) :
    ∃ pre inside post, cs = pre ++ ((inside ++ u.text.toList) ++ post) ∧
      t.start = start + byteLength pre ∧ u.start = t.start + byteLength inside := by
  induction h generalizing i j with
  | dropped => simp at ht
  | @token start rest ts kind gap covered _ more ih =>
    cases j with
    | zero =>
      obtain rfl : i = 0 := Nat.le_zero.1 hij
      cases ht
      cases hu
      exact ⟨gap, [], rest, by simp, rfl, rfl⟩
    | succ j =>
      cases i with
      | zero =>
        cases ht
        obtain ⟨pre, post, rfl, hstart⟩ := more.exists_split (List.mem_of_getElem? hu)
        refine ⟨gap, covered ++ pre, post, by simp, rfl, ?_⟩
        rw [hstart, byteLength_append, Nat.add_assoc]
      | succ i =>
        obtain ⟨pre, inside, post, rfl, hstart, hinside⟩ :=
          ih ht hu (Nat.le_of_succ_le_succ hij)
        refine ⟨gap ++ (covered ++ pre), inside, post, by simp, ?_, hinside⟩
        rw [hstart, byteLength_append, byteLength_append]
        omega

/-- The text from the start of a token up to the end of the same or a later one. -/
theorem exists_between (h : Tiles 0 cs ts) {i j : Nat} {t u : Token} (ht : ts[i]? = some t)
    (hu : ts[j]? = some u) (hij : i ≤ j) :
    ∃ before piece behind, piece ≠ [] ∧ cs = before ++ (piece ++ behind) ∧
      t.start = byteLength before ∧ u.stop = byteLength (before ++ piece) := by
  obtain ⟨before, inside, behind, hcs, hstart, hinside⟩ := h.exists_piece ht hu hij
  have hlong := h.start_lt_stop (List.mem_of_getElem? hu)
  rw [Nat.zero_add] at hstart
  refine ⟨before, inside ++ u.text.toList, behind, ?_, hcs, hstart, ?_⟩
  · intro hnil
    rw [Token.stop_eq, (List.append_eq_nil_iff.1 hnil).2, byteLength] at hlong
    omega
  · rw [Token.stop_eq, hinside, hstart, byteLength_append, byteLength_append]
    omega

end Tiles

end Lexis

end ZeroAlloc
