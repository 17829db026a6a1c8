import ZeroAlloc.Language
import ZeroAlloc.Proofs.Lexis.Coverage
import ZeroAlloc.Proofs.Lexis.LineEnds
set_option autoImplicit false

/-! # Tokens of texts with carriage returns

A text with carriage returns has the tokens of the same text without them: `tokenize_returned` pairs
them up, each with what it covers of either text. -/

namespace ZeroAlloc.Lexis

open Text (HasReturns byteLength byteLength_append withReturns withoutReturns
  withoutReturns_append withoutReturns_cons withoutReturns_return)

/-! ## Single tokens -/

/-- What lexemes of the class cover of a text with carriage returns. Only line breaks start with a
line feed; line ends are in literals and in malformed text alone, and a literal ends with no
carriage return. -/
structure CanCover (kind : LexemeKind) (piece : List Char) : Prop where
  ne_nil : piece ≠ []
  head?_ne_feed : kind ≠ .newline → piece.head? ≠ some '\n'
  getLast?_ne_return : kind ≠ .error → piece.getLast? ≠ some '\r'
  not_mem_return : kind ≠ .error → kind ≠ .str → '\r' ∉ piece
  not_mem_feed : kind ≠ .error → kind ≠ .str → kind ≠ .newline → '\n' ∉ piece
  mark : kind = .error → '\r' ∈ piece → ∃ c ∈ piece, c ∈ openingMarks

/-- The second token covers a piece of a text with carriage returns; the first one is the same token
of the text without them. -/
structure SameToken (cs : List Char) (t t' : Token) : Prop where
  kind : t'.kind = t.kind
  pieces : ∃ before piece behind, cs = before ++ (piece ++ behind) ∧ CanCover t.kind piece ∧
    t.start = byteLength (withoutReturns before) ∧ t'.start = byteLength before ∧
    t.text = String.ofList (withoutReturns piece) ∧ t'.text = String.ofList piece

/-! ## Rules -/

/-- What the rules of a language have in common that makes carriage returns at line ends blank. -/
structure PassOverReturns (rules : List Rule) : Prop where
  ignore : ∀ rule ∈ rules, rule.IgnoresReturns
  keep : ∀ rule ∈ rules, rule.KeepsToLines
  /-- A line feed is blank or a line break. -/
  feed : ∀ cs kind, (firstRule rules ('\n' :: cs)).1 = some kind → kind = .newline
  /-- A carriage return in front of it is dropped. -/
  skip : ∀ start cs, tokensFrom rules start ('\r' :: '\n' :: cs) =
    tokensFrom rules (start + 1) ('\n' :: cs)

/-- The first rule covers the same in both texts. -/
theorem firstRule_withoutReturns {rules : List Rule} (hrules : ∀ rule ∈ rules, rule.IgnoresReturns)
    {c : Char} (hc : c ≠ '\r') {cs : List Char} (hcs : HasReturns (c :: cs)) :
    firstRule rules (c :: withoutReturns cs) =
      Prod.map id (plainLength cs) (firstRule rules (c :: cs)) := by
  induction rules with
  | nil => rfl
  | cons rule rules ih =>
    have hextent := hrules rule List.mem_cons_self (c :: cs) hcs (by simpa using hc)
    rw [withoutReturns_cons hc] at hextent
    rw [firstRule, firstRule, hextent]
    cases rule.extent (c :: cs) with
    | zero => exact ih fun rule h => hrules rule (List.mem_cons_of_mem _ h)
    | succ n =>
      rw [plainLength_cons cs n hc]
      rfl

theorem canCover_of_firstRule {rules : List Rule} (hrules : PassOverReturns rules) {c : Char}
    (hc : c ≠ '\r') {cs : List Char} {kind : LexemeKind} {n : Nat}
    (h : firstRule rules (c :: cs) = (some kind, n)) : CanCover kind (c :: cs.take n) := by
  have hhead : kind ≠ .newline → (c :: cs.take n).head? ≠ some '\n' := by
    rintro hkind hhead
    obtain rfl : c = '\n' := by simpa using hhead
    exact hkind (hrules.feed cs kind (by rw [h]))
  obtain ⟨rule, hrule, hkind, hextent⟩ | ⟨herror, rfl⟩ := exists_rule_of_firstRule h
  · have hkeep := hrules.keep rule hrule
    have hcovered : Shape.ofExtent rule.extent (c :: cs) = some (n + 1) := by
      simp [Shape.ofExtent, hextent]
    have hlast (hreturn : '\r' ∉ c :: cs.take n) : (c :: cs.take n).getLast? ≠ some '\r' :=
      fun hlast => hreturn (List.mem_of_getLast? hlast)
    -- names, numbers and punctuation have neither of the two characters
    have hline (hstays : (Shape.ofExtent rule.extent).StaysOnLine) (herror : kind ≠ .error) :
        CanCover kind (c :: cs.take n) := by
      obtain ⟨hreturn, hfeed⟩ := hstays _ _ hcovered
      rw [List.take_succ_cons] at hreturn hfeed
      exact ⟨by simp, hhead, fun _ => hlast hreturn, fun _ _ => hreturn, fun _ _ _ => hfeed,
        fun h => absurd h herror⟩
    unfold Rule.KeepsToLines at hkeep
    rw [hkind] at hkeep
    cases kind with
    | ident => exact hline hkeep (by simp)
    | number => exact hline hkeep (by simp)
    | punct => exact hline hkeep (by simp)
    | str =>
      obtain ⟨init, d, htake, hd⟩ := hkeep _ _ hcovered
      rw [List.take_succ_cons] at htake
      exact ⟨by simp, hhead, fun _ => by simp [htake, hd], by simp, by simp, by simp⟩
    | newline =>
      rw [hkeep, Shape.one_cons] at hcovered
      split at hcovered
      · obtain rfl : n = 0 := by simpa using hcovered.symm
        have hreturn : '\r' ∉ c :: cs.take 0 := by simpa using Ne.symm hc
        exact ⟨by simp, hhead, fun _ => hlast hreturn, fun _ _ => hreturn, by simp, by simp⟩
      · cases hcovered
    | error => exact ⟨by simp, hhead, by simp, by simp, by simp, fun _ _ => hkeep _ _ hcovered⟩
  · cases herror
    exact ⟨by simp, hhead, by simp, by simp, by simp,
      fun _ hmem => absurd hmem (by simpa using Ne.symm hc)⟩

/-! ## All tokens -/

/-- The tokens of the two texts behind a place. -/
theorem tokensFrom_withoutReturns {rules : List Rule} (hrules : PassOverReturns rules)
    (before : List Char) {cs : List Char} (hcs : HasReturns cs) :
    List.Forall₂ (SameToken (before ++ cs))
      (tokensFrom rules (byteLength (withoutReturns before)) (withoutReturns cs))
      (tokensFrom rules (byteLength before) cs) := by
  induction hlength : cs.length using Nat.strong_induction_on generalizing before cs with
  | _ length ih =>
    subst hlength
    cases cs with
    | nil =>
      rw [Text.withoutReturns_nil, tokensFrom, tokensFrom]
      exact .nil
    | cons c cs =>
      by_cases hc : c = '\r'
      · subst hc
        obtain ⟨rest, rfl⟩ := exists_feed hcs
        have hrest := ih _ (by simp) (before ++ ['\r']) hcs.2 rfl
        have hbefore : withoutReturns (before ++ ['\r']) = withoutReturns before := by
          rw [withoutReturns_append]
          exact List.append_nil _
        have hreturn : byteLength ['\r'] = 1 := rfl
        rw [hbefore, byteLength_append, hreturn, List.append_assoc] at hrest
        rw [hrules.skip, withoutReturns_return]
        exact hrest
      · have hfirst := firstRule_withoutReturns hrules.ignore hc hcs
        rw [withoutReturns_cons hc, tokensFrom, tokensFrom, hfirst]
        rcases hrule : firstRule rules (c :: cs) with ⟨kind, n⟩
        dsimp only [Prod.map]
        have htake : c :: (withoutReturns cs).take (plainLength cs n) =
            withoutReturns (c :: cs.take n) := by
          have hsplit := withoutReturns_append (cs.take n) (cs.drop n)
          rw [List.take_append_drop] at hsplit
          rw [withoutReturns_cons hc, hsplit, plainLength, List.take_left]
        have hshorter : (cs.drop n).length < (c :: cs).length := by
          rw [List.length_drop, List.length_cons]
          omega
        have hrest := ih _ hshorter (before ++ c :: cs.take n) (hcs.2.drop n) rfl
        rw [List.append_assoc, List.cons_append, List.take_append_drop, withoutReturns_append,
          byteLength_append, byteLength_append, ← htake, ← drop_plainLength] at hrest
        cases kind with
        | none => exact hrest
        | some kind =>
          refine .cons ⟨rfl, before, c :: cs.take n, cs.drop n, ?_, ?_, rfl, rfl, ?_, rfl⟩ hrest
          · simp
          · exact canCover_of_firstRule hrules hc hrule
          · exact congrArg String.ofList htake

/-! ## Languages -/

theorem CSharp.firstRule_of_isBlank {c : Char} (h : Text.isBlank c = true) (cs : List Char) :
    firstRule rules (c :: cs) = (none, run Text.isBlank cs) := by
  have hrun : run Text.isBlank (c :: cs) = run Text.isBlank cs + 1 := by simp [run, h]
  exact firstRule_of_extent hrun _

theorem CSharp.passOverReturns : PassOverReturns CSharp.rules where
  ignore _ := CSharp.ignoresReturns_of_mem_rules
  keep _ := CSharp.keepsToLines_of_mem_rules
  feed cs kind h := by
    rw [CSharp.firstRule_of_isBlank (by decide)] at h
    cases h
  skip start cs := by
    have hrun : run Text.isBlank ('\n' :: cs) = run Text.isBlank cs + 1 := by
      simp [run, show Text.isBlank '\n' = true by decide]
    have hreturn (cs : List Char) : byteLength ('\r' :: cs) = 1 + byteLength cs :=
      byteLength_append ['\r'] cs
    rw [tokensFrom, tokensFrom, CSharp.firstRule_of_isBlank (by decide),
      CSharp.firstRule_of_isBlank (by decide), hrun]
    dsimp only
    rw [List.take_succ_cons, List.drop_succ_cons, hreturn, Nat.add_assoc]

theorem VisualBasic.firstRule_feed (cs : List Char) :
    firstRule rules ('\n' :: cs) = (some .newline, 0) := by
  have hremark : remark ('\n' :: cs) = 0 := by
    rcases cs with _ | ⟨_, _ | ⟨_, cs⟩⟩ <;> rfl
  rw [rules, firstRule_of_extent_eq_zero rfl, firstRule_of_extent_eq_zero rfl,
    firstRule_of_extent_eq_zero rfl, firstRule_of_extent_eq_zero hremark]
  exact firstRule_of_extent rfl _

theorem VisualBasic.passOverReturns : PassOverReturns VisualBasic.rules where
  ignore _ := VisualBasic.ignoresReturns_of_mem_rules
  keep _ := VisualBasic.keepsToLines_of_mem_rules
  feed cs kind h := by
    rw [VisualBasic.firstRule_feed] at h
    cases h
    rfl
  skip start cs := by
    have hfirst : firstRule rules ('\r' :: '\n' :: cs) = (none, 0) := rfl
    rw [tokensFrom, hfirst]
    rfl

/-- The tokens of a source text with carriage returns are those of the text without them. -/
theorem tokenize_returned (language : Language) {source : String} (h : '\r' ∉ source.toList) :
    List.Forall₂ (SameToken (withReturns source.toList)) (tokenize language.rules source)
      (tokenize language.rules (Text.returned source)) := by
  have hrules : PassOverReturns language.rules := by
    cases language with
    | csharp => exact CSharp.passOverReturns
    | visualBasic => exact VisualBasic.passOverReturns
  have htokens := tokensFrom_withoutReturns hrules [] (Text.hasReturns_withReturns h)
  rw [Text.withoutReturns_withReturns h] at htokens
  rw [tokenize, tokenize, Text.toList_returned]
  exact htokens

end ZeroAlloc.Lexis
