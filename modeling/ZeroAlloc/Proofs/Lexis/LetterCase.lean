import ZeroAlloc.Proofs.Lexis.Tiling
import ZeroAlloc.Proofs.Lexis.Shape
import ZeroAlloc.Proofs.Text.Case
set_option autoImplicit false

/-! # Letter case in the lexis of Visual Basic

No rule of Visual Basic tells the two cases of a letter of ASCII apart, so texts that differ in case
alone have the same tokens, up to case (`map_lowerToken_tokenize`). -/

namespace ZeroAlloc.Lexis

open Text (FoldsCase toLower_eq_iff)

/-- The extent does not depend on the case of letters. -/
def IgnoresCase (extent : List Char → Nat) : Prop :=
  ∀ cs, extent (cs.map Char.toLower) = extent cs

/-! ## Shapes -/

namespace Shape

/-- The shape does not depend on the case of letters. -/
def IgnoresCase (s : Shape) : Prop :=
  ∀ cs, s (cs.map Char.toLower) = s cs

namespace IgnoresCase

theorem one {p : Char → Bool} (hp : FoldsCase p) : (one p).IgnoresCase := by
  intro cs
  cases cs with
  | nil => rfl
  | cons c cs => rw [List.map_cons, one_cons, one_cons, hp.apply_toLower]

theorem run {p : Char → Bool} (hp : FoldsCase p) : (total (run p)).IgnoresCase := by
  intro cs
  simp [total, Lexis.run, List.takeWhile_map, Function.comp_def, hp.apply_toLower]

theorem notBefore {p : Char → Bool} (hp : FoldsCase p) : (notBefore p).IgnoresCase := by
  intro cs
  cases cs with
  | nil => rfl
  | cons c cs =>
    rw [List.map_cons, Shape.notBefore, Shape.notBefore, List.head?_cons, List.head?_cons,
      Option.any_some, Option.any_some, hp.apply_toLower]

theorem andThen {s t : Shape} (hs : s.IgnoresCase) (ht : t.IgnoresCase) :
    (s.andThen t).IgnoresCase := by
  intro cs
  rw [Shape.andThen, Shape.andThen, hs cs]
  simp only [← List.map_drop, ht _]

theorem orElse {s t : Shape} (hs : s.IgnoresCase) (ht : t.IgnoresCase) :
    (s.orElse t).IgnoresCase := by
  intro cs
  rw [Shape.orElse, Shape.orElse, hs cs, ht cs]

theorem extent {f : List Char → Nat} (h : (ofExtent f).IgnoresCase) : Lexis.IgnoresCase f := by
  have hextent (cs : List Char) : f cs = (ofExtent f cs).getD 0 := by
    rw [ofExtent]
    split
    · assumption
    · rfl
  intro cs
  rw [hextent, hextent, h cs]

theorem toTotal {f : List Char → Nat} (h : (ofExtent f).IgnoresCase) : (total f).IgnoresCase :=
  fun cs => congrArg some (h.extent cs)

end IgnoresCase

end Shape

open Shape

theorem ignoresCase_restOfLine : (total restOfLine).IgnoresCase :=
  .run (by decide)

theorem ignoresCase_doubledBody : Shape.IgnoresCase (doubledBody (· ≠ '\n')) := by
  intro cs
  have hquote (c : Char) : c.toLower = '"' ↔ c = '"' := toLower_eq_iff rfl
  have hfeed (c : Char) : c.toLower = '\n' ↔ c = '\n' := toLower_eq_iff rfl
  fun_induction doubledBody (· ≠ '\n') cs <;> simp_all [doubledBody]

theorem ignoresCase_wholePart : (ofExtent wholePart).IgnoresCase := by
  rw [ofExtent_wholePart]
  exact .andThen (.one (by decide)) (.run (by decide))

theorem ignoresCase_fractionPart : (ofExtent fractionPart).IgnoresCase := by
  rw [ofExtent_fractionPart]
  exact .andThen (.one (by decide)) ignoresCase_wholePart

theorem ignoresCase_ofExtent_run {p : Char → Bool} (hp : FoldsCase p) :
    (ofExtent (run p)).IgnoresCase := by
  rw [ofExtent_run]
  exact .andThen (.one hp) (.run hp)

theorem ignoresCase_sign : (ofExtent sign).IgnoresCase := by
  rw [ofExtent_sign]
  exact .one (by decide)

theorem ignoresCase_exponentPart : (ofExtent exponentPart).IgnoresCase := by
  rw [ofExtent_exponentPart]
  exact .andThen (.one (by decide))
    (.andThen ignoresCase_sign.toTotal (ignoresCase_ofExtent_run (by decide)))

theorem ignoresCase_decimalNumber : (ofExtent decimalNumber).IgnoresCase := by
  rw [ofExtent_decimalNumber]
  exact .andThen ignoresCase_wholePart
    (.andThen ignoresCase_fractionPart.toTotal ignoresCase_exponentPart.toTotal)

theorem ignoresCase_name : (ofExtent name).IgnoresCase := by
  rw [ofExtent_name]
  exact .andThen (.one (by decide)) (.run (by decide))

namespace VisualBasic

/-! ## Rules -/

theorem lineEnd_eq :
    lineEnd = orElse (one (· == '\n')) ((one (· == '\r')).andThen (one (· == '\n'))) := by
  funext cs
  rcases cs with _ | ⟨c, _ | ⟨d, cs⟩⟩
  · rfl
  · by_cases hfeed : c = '\n' <;> by_cases hreturn : c = '\r' <;>
      simp_all [lineEnd, orElse]
  · by_cases hfeed : c = '\n' <;> by_cases hreturn : c = '\r' <;> by_cases hd : d = '\n' <;>
      simp_all [lineEnd, orElse]

theorem ignoresCase_continuation : (ofExtent continuation).IgnoresCase := by
  have hend : lineEnd.IgnoresCase := by
    rw [lineEnd_eq]
    exact .orElse (.one (by decide)) (.andThen (.one (by decide)) (.one (by decide)))
  rw [ofExtent_continuation]
  exact .andThen (.one (by decide)) (.andThen (.run (by decide)) hend)

theorem ignoresCase_comment : (ofExtent comment).IgnoresCase := by
  rw [ofExtent_comment]
  exact .andThen (.one (by decide)) ignoresCase_restOfLine

theorem ignoresCase_remark : (ofExtent remark).IgnoresCase := by
  rw [ofExtent_remark]
  exact .andThen (.one (by decide)) (.andThen (.one (by decide)) (.andThen (.one (by decide))
    (.andThen (.notBefore (by decide)) ignoresCase_restOfLine)))

theorem ignoresCase_newline : (ofExtent newline).IgnoresCase := by
  rw [ofExtent_newline]
  exact .one (by decide)

theorem ignoresCase_date : (ofExtent date).IgnoresCase := by
  rw [ofExtent_date]
  exact .andThen (.one (by decide)) (.andThen (.one (by decide))
    (.andThen (.run (by decide)) (.one (by decide))))

theorem ignoresCase_directive : (ofExtent directive).IgnoresCase := by
  rw [ofExtent_directive]
  exact .andThen (.one (by decide)) ignoresCase_restOfLine

theorem ignoresCase_string : (ofExtent string).IgnoresCase := by
  rw [ofExtent_string]
  exact .andThen (.one (by decide))
    (.orElse (.andThen ignoresCase_doubledBody (.one (by decide))) ignoresCase_doubledBody)

theorem ignoresCase_brokenString : (ofExtent brokenString).IgnoresCase := by
  rw [ofExtent_brokenString]
  exact .andThen (.one (by decide)) ignoresCase_restOfLine

theorem ignoresCase_radixNumber {radix : Char} {digit : Char → Bool} (hdigit : FoldsCase digit) :
    (ofExtent (radixNumber radix digit)).IgnoresCase := by
  have hlower : FoldsCase Char.toLower := by decide
  have hradix : FoldsCase fun c : Char => c.toLower == radix :=
    fun n hn => congrArg (· == radix) (hlower n hn)
  rw [ofExtent_radixNumber]
  exact .andThen (.one (by decide)) (.andThen (.one hradix)
    (.andThen (ignoresCase_ofExtent_run hdigit) (.run (by decide))))

theorem ignoresCase_number : (ofExtent number).IgnoresCase := by
  have hsuffix : (ofExtent numberSuffix).IgnoresCase := by
    rw [ofExtent_numberSuffix]
    exact .orElse (.andThen (.one (by decide)) (.one (by decide))) (.one (by decide))
  rw [ofExtent_number]
  exact .andThen ignoresCase_decimalNumber hsuffix.toTotal

theorem ignoresCase_bracketedName : (ofExtent bracketedName).IgnoresCase := by
  rw [ofExtent_bracketedName]
  exact .andThen (.one (by decide)) (.andThen ignoresCase_name (.one (by decide)))

theorem ignoresCase_punctuation : (ofExtent punctuation).IgnoresCase := by
  rw [ofExtent_punctuation]
  exact .one (by decide)

/-- No rule tells the cases of a letter apart. -/
theorem ignoresCase_of_mem_rules {rule : Rule} (h : rule ∈ rules) : IgnoresCase rule.extent := by
  simp only [rules, List.mem_cons, List.not_mem_nil, or_false] at h
  rcases h with rfl | rfl | rfl | rfl | rfl | rfl | rfl | rfl | rfl | rfl | rfl | rfl | rfl | rfl |
    rfl | rfl
  · exact (ignoresCase_ofExtent_run (by decide)).extent
  · exact ignoresCase_continuation.extent
  · exact ignoresCase_comment.extent
  · exact ignoresCase_remark.extent
  · exact ignoresCase_newline.extent
  · exact ignoresCase_date.extent
  · exact ignoresCase_directive.extent
  · exact ignoresCase_string.extent
  · exact ignoresCase_brokenString.extent
  · exact (ignoresCase_radixNumber (by decide)).extent
  · exact (ignoresCase_radixNumber (by decide)).extent
  · exact (ignoresCase_radixNumber (by decide)).extent
  · exact ignoresCase_number.extent
  · exact ignoresCase_bracketedName.extent
  · exact ignoresCase_name.extent
  · exact ignoresCase_punctuation.extent

end VisualBasic

/-! ## Tokens -/

/-- The token with its text in lower case. -/
def lowerToken (t : Token) : Token :=
  ⟨⟨t.kind, Text.lowerAscii t.text⟩, t.start⟩

theorem firstRule_map_toLower {rules : List Rule}
    (hrules : ∀ rule ∈ rules, IgnoresCase rule.extent) (cs : List Char) :
    firstRule rules (cs.map Char.toLower) = firstRule rules cs := by
  induction rules with
  | nil => rfl
  | cons rule rules ih =>
    rw [firstRule, firstRule, hrules rule List.mem_cons_self cs,
      ih fun rule h => hrules rule (List.mem_cons_of_mem _ h)]

theorem tokensFrom_map_toLower {rules : List Rule}
    (hrules : ∀ rule ∈ rules, IgnoresCase rule.extent) (start : Nat) (cs : List Char) :
    tokensFrom rules start (cs.map Char.toLower) =
      (tokensFrom rules start cs).map lowerToken := by
  have hcovered (c : Char) (cs : List Char) (more : Nat) :
      c.toLower :: (cs.map Char.toLower).take more =
        (c :: cs.take more).map Char.toLower := by simp
  fun_induction tokensFrom rules start cs with
  | case1 => rw [List.map_nil, tokensFrom, List.map_nil]
  | case2 start c cs more covered _ kind hrule ih =>
    have hfirst := firstRule_map_toLower hrules (c :: cs)
    rw [List.map_cons, hrule] at hfirst
    rw [List.map_cons, tokensFrom, hfirst]
    dsimp only
    rw [hcovered, Text.byteLength_map_toLower, ← List.map_drop, ih, List.map_cons]
    have htoken : (⟨⟨kind, String.ofList
          (c.toLower :: (cs.take more).map Char.toLower)⟩, start⟩ : Token) =
        lowerToken ⟨⟨kind, String.ofList covered⟩, start⟩ := by
      simp [lowerToken, Text.lowerAscii, covered]
    rw [List.map_cons, htoken]
  | case3 start c cs more covered _ hrule ih =>
    have hfirst := firstRule_map_toLower hrules (c :: cs)
    rw [List.map_cons, hrule] at hfirst
    rw [List.map_cons, tokensFrom, hfirst]
    dsimp only
    rw [hcovered, Text.byteLength_map_toLower, ← List.map_drop, ih]

/-- Texts of Visual Basic that differ in case alone have the same tokens, up to case. -/
theorem map_lowerToken_tokenize {source source' : String}
    (h : Text.lowerAscii source = Text.lowerAscii source') :
    (tokenize VisualBasic.rules source).map lowerToken =
      (tokenize VisualBasic.rules source').map lowerToken := by
  have hrules : ∀ rule ∈ VisualBasic.rules, IgnoresCase rule.extent :=
    fun _ => VisualBasic.ignoresCase_of_mem_rules
  rw [tokenize, tokenize, ← tokensFrom_map_toLower hrules, ← tokensFrom_map_toLower hrules,
    Text.lowerAscii_eq_iff.1 h]

/-- Punctuation and line feeds have no case. -/
theorem lowerAscii_text_of_mem_tokenize {source : String} {t : Token}
    (h : t ∈ tokenize VisualBasic.rules source) (hkind : t.kind = .punct ∨ t.kind = .newline) :
    Text.lowerAscii t.text = t.text := by
  obtain ⟨c, rest, n, _, htext, hfirst⟩ := exists_rule_of_mem_tokensFrom h
  obtain ⟨rule, hrule, hrulekind, hextent⟩ | ⟨herror, _⟩ := exists_rule_of_firstRule hfirst
  · have hself : n = 0 ∧ c.toLower = c := by
      rcases hkind with hkind | hkind
      · have hpunct : ∀ rule ∈ VisualBasic.rules, rule.kind = some .punct →
            rule.extent = VisualBasic.punctuation := by simp [VisualBasic.rules]
        rw [hpunct rule hrule (by rw [hrulekind, hkind]), VisualBasic.punctuation] at hextent
        split at hextent
        · rename_i hmark
          have hmarks :
              ("\x7b\x7d[]().,:;?<>=+-*/\\^&!".toList.all fun c => c.toLower == c) = true := by
            decide
          have hsame := List.all_eq_true.1 hmarks c (List.contains_iff_mem.1 hmark)
          exact ⟨by omega, beq_iff_eq.1 hsame⟩
        · cases hextent
      · have hnewline : ∀ rule ∈ VisualBasic.rules, rule.kind = some .newline →
            rule.extent = VisualBasic.newline := by simp [VisualBasic.rules]
        rw [hnewline rule hrule (by rw [hrulekind, hkind])] at hextent
        by_cases hfeed : c = '\n'
        · subst hfeed
          exact ⟨Nat.succ.inj hextent.symm, rfl⟩
        · simp [VisualBasic.newline, hfeed] at hextent
    obtain ⟨rfl, hc⟩ := hself
    rw [htext, Text.lowerAscii]
    simp [hc]
  · rcases hkind with hkind | hkind <;> rw [hkind] at herror <;> cases herror

end ZeroAlloc.Lexis
