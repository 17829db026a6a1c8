import ZeroAlloc.Proofs.Lexis.Returned
import ZeroAlloc.Proofs.Respelling.Document
set_option autoImplicit false

/-! # Respelling with carriage returns

The lexemes of a text with carriage returns are those of the text without them, but the literals get
carriage returns too, and malformed text may have more of it. As no word has marks of literals or
comments, both rows can be respelled to one (`row_lexemes_returned`). -/

namespace ZeroAlloc

open Text (SameOffset byteLength byteLength_append returned returned_append returned_eq_self
  withReturns withoutReturns)

/-! ## Respellings of literals -/

theorem mem_withReturns_of_mem {c : Char} {cs : List Char} (h : c ∈ cs) : c ∈ withReturns cs := by
  induction cs with
  | nil => cases h
  | cons d cs ih =>
    by_cases hd : d = '\n'
    · subst hd
      rcases List.mem_cons.1 h with rfl | h
      · simp
      · simp [ih h]
    · rw [Text.withReturns_cons hd]
      rcases List.mem_cons.1 h with rfl | h
      · exact List.mem_cons_self
      · exact List.mem_cons_of_mem _ (ih h)

theorem holdsMark_iff {text : String} :
    holdsMark text = true ↔ ∃ c ∈ text.toList, c ∈ foreignMarks := by
  simp [holdsMark]

/-- Carriage returns go only where there is a mark. -/
theorem returned_eq_or_holdsMark (text : String) :
    returned text = text ∨ holdsMark text = true ∧ holdsMark (returned text) = true := by
  by_cases hfeed : '\n' ∈ text.toList
  · have hreturned : '\n' ∈ (returned text).toList := by
      rw [Text.toList_returned]
      exact mem_withReturns_of_mem hfeed
    exact .inr ⟨holdsMark_iff.2 ⟨'\n', hfeed, by decide⟩,
      holdsMark_iff.2 ⟨'\n', hreturned, by decide⟩⟩
  · exact .inl (returned_eq_self hfeed)

namespace Language

/-- Literals are respelled, and of malformed text with marks nothing is kept but a mark. -/
def literalRespelling (language : Language) (literal : String → String)
    (hliteral : ∀ text, literal text = text ∨
      holdsMark text = true ∧ holdsMark (literal text) = true) :
    Respelling language.dialect.canonicalName where
  name text := text
  literal := literal
  malformed text := if holdsMark text then "\"" else text
  canonical_name _ := rfl
  canonical_literal_or text := (hliteral text).imp_left fun h => by rw [h]
  canonical_malformed_or text := by
    by_cases hmark : holdsMark text = true
    · rw [if_pos hmark]
      exact .inr ⟨hmark, by decide⟩
    · rw [if_neg hmark]
      exact .inl rfl
  holdsMark_canonical := language.holdsMark_canonicalName

/-- Literals get carriage returns. -/
def withReturns (language : Language) : Respelling language.dialect.canonicalName :=
  language.literalRespelling returned returned_eq_or_holdsMark

/-- Literals stay as they are. -/
def asWritten (language : Language) : Respelling language.dialect.canonicalName :=
  language.literalRespelling (fun text => text) fun _ => .inl rfl

end Language

/-- Pieces of malformed text that differ in carriage returns are alike if they have a mark where
they have one of these. -/
theorem malformed_eq {cs : List Char} {text text' : String}
    (hmark : '\r' ∈ cs → ∃ c ∈ cs, c ∈ Lexis.openingMarks)
    (htext : text = String.ofList (withoutReturns cs)) (htext' : text' = String.ofList cs) :
    (if holdsMark text' then "\"" else text') = if holdsMark text then "\"" else text := by
  subst htext htext'
  by_cases hreturn : '\r' ∈ cs
  · obtain ⟨c, hc, hopening⟩ := hmark hreturn
    have hforeign : c ∈ foreignMarks ∧ c ≠ '\r' := by
      simp only [Lexis.openingMarks, List.mem_cons, List.not_mem_nil, or_false] at hopening
      rcases hopening with rfl | rfl | rfl <;> decide
    have hkept : c ∈ withoutReturns cs := List.mem_filter.2 ⟨hc, by simpa using hforeign.2⟩
    rw [if_pos (holdsMark_iff.2 ⟨c, by simpa using hc, hforeign.1⟩),
      if_pos (holdsMark_iff.2 ⟨c, by simpa using hkept, hforeign.1⟩)]
  · rw [Text.withoutReturns_eq_self hreturn]

namespace Lexis.SameToken

variable {cs : List Char} {t t' : Token}

/-- Respelled, the two tokens have one lexeme. -/
theorem apply_eq (language : Language) (hcs : '\r' ∉ cs)
    (h : SameToken (Text.withReturns cs) t t') :
    language.asWritten.apply t'.toLexeme = language.withReturns.apply t.toLexeme := by
  obtain ⟨hkind, before, piece, behind, hsplit, hcover, _, _, htext, htext'⟩ := h
  have hreturns : Text.HasReturns (piece ++ behind) := by
    have hall := Text.hasReturns_withReturns hcs
    rw [hsplit] at hall
    exact hall.of_append
  obtain ⟨⟨kind, text⟩, start⟩ := t
  obtain ⟨⟨kind', text'⟩, start'⟩ := t'
  obtain rfl : kind' = kind := hkind
  have hplain (herror : kind' ≠ .error) (hstr : kind' ≠ .str) : text' = text := by
    rw [show text' = _ from htext', show text = _ from htext,
      Text.withoutReturns_eq_self (hcover.not_mem_return herror hstr)]
  cases kind' with
  | ident => exact congrArg (Lexeme.mk .ident) (hplain (by simp) (by simp))
  | number => exact congrArg (Lexeme.mk .number) (hplain (by simp) (by simp))
  | punct => exact congrArg (Lexeme.mk .punct) (hplain (by simp) (by simp))
  | newline => exact congrArg (Lexeme.mk .newline) (hplain (by simp) (by simp))
  | str =>
    refine congrArg (Lexeme.mk .str) ?_
    change text' = returned text
    rw [show text' = _ from htext', show text = _ from htext, returned, String.toList_ofList,
      Text.withReturns_withoutReturns hreturns (hcover.head?_ne_feed (by simp))
        (hcover.getLast?_ne_return (by simp))]
  | error => exact congrArg (Lexeme.mk .error) (malformed_eq (hcover.mark rfl) htext htext')

theorem sameOffset_start (hcs : '\r' ∉ cs) (h : SameToken (Text.withReturns cs) t t')
    (hkind : t.kind ≠ .newline) : SameOffset cs t.start t'.start := by
  obtain ⟨_, before, piece, behind, hsplit, hcover, hstart, hstart', _⟩ := h
  have hreturns := Text.hasReturns_withReturns hcs
  rw [hsplit] at hreturns
  have hhead : (piece ++ behind).head? ≠ some '\n' := by
    have hfirst := hcover.head?_ne_feed hkind
    cases piece with
    | nil => exact absurd rfl hcover.ne_nil
    | cons c piece => exact hfirst
  rw [hstart, hstart']
  exact Text.sameOffset_of_append hcs hsplit (hreturns.getLast?_ne_return hhead)

theorem sameOffset_stop (hcs : '\r' ∉ cs) (h : SameToken (Text.withReturns cs) t t')
    (hkind : t.kind ≠ .error) : SameOffset cs t.stop t'.stop := by
  obtain ⟨_, before, piece, behind, hsplit, hcover, hstart, hstart', htext, htext'⟩ := h
  have hlast : (before ++ piece).getLast? ≠ some '\r' := by
    have hpiece := List.getLast?_eq_some_getLast hcover.ne_nil
    rw [List.getLast?_append, hpiece, Option.some_or, ← hpiece]
    exact hcover.getLast?_ne_return hkind
  rw [← List.append_assoc] at hsplit
  have hsame := Text.sameOffset_of_append hcs hsplit hlast
  rw [Text.withoutReturns_append, byteLength_append, byteLength_append] at hsame
  rw [Token.stop_eq, Token.stop_eq, hstart, hstart', htext, htext', String.toList_ofList,
    String.toList_ofList]
  exact hsame

/-- Names, numbers and punctuation stay on their line. -/
theorem not_mem_feed (h : SameToken cs t t') (herror : t.kind ≠ .error) (hstr : t.kind ≠ .str)
    (hnewline : t.kind ≠ .newline) : '\n' ∉ t.text.toList := by
  obtain ⟨_, before, piece, behind, _, hcover, _, _, htext, _⟩ := h
  rw [htext, String.toList_ofList]
  exact fun hmem => hcover.not_mem_feed herror hstr hnewline (List.mem_of_mem_filter hmem)

end Lexis.SameToken

/-! ## Rows -/

section Rows

variable (language : Language)

/-- Both rows of lexemes can be respelled to one. -/
theorem row_lexemes_returned {source : String} (h : '\r' ∉ source.toList) :
    language.asWritten.row (lexemes (Lexis.tokenize language.rules (returned source))) =
      language.withReturns.row (lexemes (Lexis.tokenize language.rules source)) := by
  have htokens := Lexis.tokenize_returned language h
  rw [Respelling.row, Respelling.row, lexemes, lexemes, List.map_map, List.map_map]
  exact (map_eq_of_forall₂ (htokens.imp fun t t' ht => (ht.apply_eq language h).symm)).symm

theorem apply_asWritten {l : Lexeme} (h : l.isError = false) : language.asWritten.apply l = l := by
  unfold Respelling.apply
  split
  · rfl
  · rfl
  · rfl
  · rename_i hkind
    simp [Lexeme.isError, hkind] at h
  · rfl
  · rfl

theorem row_asWritten {ls : List Lexeme} (h : ∀ l ∈ ls, l.isError = false) :
    language.asWritten.row ls = ls :=
  calc ls.map language.asWritten.apply
      = ls.map fun l => l := List.map_congr_left fun l hl => apply_asWritten language (h l hl)
    _ = ls := List.map_id' ls

/-- A lexeme that keeps to its line, or is a literal, gets the carriage returns of its text. -/
theorem text_apply_withReturns {l : Lexeme} (herror : l.isError = false)
    (hline : l.kind ≠ .str → '\n' ∉ l.text.toList) :
    (language.withReturns.apply l).text = returned l.text := by
  have hself (hkind : l.kind ≠ .str) : l.text = returned l.text :=
    (returned_eq_self (hline hkind)).symm
  unfold Respelling.apply
  split
  · rename_i hkind
    exact hself (by simp [hkind])
  · rename_i hkind
    exact hself (by simp [hkind])
  · rfl
  · rename_i hkind
    simp [Lexeme.isError, hkind] at herror
  · rename_i hkind
    exact hself (by simp [hkind])
  · rename_i hkind
    exact hself (by simp [hkind])

/-- Where all lexemes get the carriage returns of their texts, so does what they spell. -/
theorem spell_row_withReturns {parts : List Lexeme}
    (h : ∀ l ∈ parts, (language.withReturns.apply l).text = returned l.text) :
    ElementType.spell (language.withReturns.row parts) = returned (ElementType.spell parts) := by
  fun_induction ElementType.spell parts with
  | case1 => rfl
  | case2 l => exact h l List.mem_cons_self
  | case3 l next ls ih =>
    have hspaced : ElementType.spaced (language.withReturns.apply l)
        (language.withReturns.apply next) = ElementType.spaced l next := by
      simp [ElementType.spaced]
    have hblank (b : Bool) : returned (if b then " " else "") = if b then " " else "" := by
      cases b <;> rfl
    rw [Respelling.row_cons, Respelling.row_cons, ElementType.spell, hspaced,
      ← Respelling.row_cons, ih fun l hl => h l (List.mem_cons_of_mem _ hl),
      h l List.mem_cons_self, returned_append, returned_append, hblank]

end Rows

end ZeroAlloc
