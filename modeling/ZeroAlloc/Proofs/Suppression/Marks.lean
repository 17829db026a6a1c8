import ZeroAlloc.Compilation
import ZeroAlloc.Proofs.Lexis.Comment
import ZeroAlloc.Proofs.Text.Case
import ZeroAlloc.Suppression
set_option autoImplicit false

/-! # The marks of suppressions

Suppressions are looked for in the lines of a text, without its tokens. Each comes from a directive
behind a comment mark of either language (`exists_marks_of_mem_parse`). Where the lexer takes such a
mark for something else than a comment, it is one of the other language or stands inside a literal,
malformed text or a preprocessor directive, or in Visual Basic inside a name or number
(`Document.exists_mark_of_mem_parse`). So a string can silence a diagnostic
(`not_forall_mem_parse_isComment`). -/

namespace ZeroAlloc

open Text (byteLength byteLength_append)

namespace Suppression

/-! ## Comment marks -/

/-- The marks behind which directives are looked for. -/
inductive Mark where
  | slashes
  | opening
  | apostrophe
  | remark
  deriving DecidableEq

namespace Mark

/-- The language whose comments the mark opens. -/
def language : Mark → Language
  | slashes => .csharp
  | opening => .csharp
  | apostrophe => .visualBasic
  | remark => .visualBasic

/-- What follows the mark if it starts the characters, given those before it, nearest first. -/
def after? : Mark → (before cs : List Char) → Option (List Char)
  | slashes, _, cs => Suppression.after? "//" cs
  | opening, _, cs => Suppression.after? "/*" cs
  | apostrophe, _, cs => Suppression.after? "'" cs
  | remark, before, cs => afterRemark? before cs

end Mark

theorem eq_append_of_after? {start : String} {cs rest : List Char}
    (h : after? start cs = some rest) : cs = start.toList ++ rest := by
  rw [after?] at h
  split at h
  · rename_i hstart
    obtain ⟨tail, rfl⟩ := List.isPrefixOf_iff_prefix.1 hstart
    cases h
    rw [← String.length_toList, List.drop_left]
  · cases h

theorem suffix_of_after? {start : String} {cs rest : List Char} (h : after? start cs = some rest) :
    rest <:+ cs := ⟨start.toList, (eq_append_of_after? h).symm⟩

theorem suffix_of_directive? {cs rest : List Char} {directive : Directive}
    (h : directive? cs = some (directive, rest)) : rest <:+ cs := by
  obtain ⟨word, hword, h⟩ := Option.map_eq_some_iff.1 h
  have hsuffix := suffix_of_after? hword
  split at h
  · rename_i hfile
    cases h
    exact (suffix_of_after? hfile).trans hsuffix
  · split at h
    · rename_i hnext
      cases h
      exact (suffix_of_after? hnext).trans hsuffix
    · cases h
      exact hsuffix

theorem suffix_of_heading? {cs selector : List Char} {directive : Directive}
    (h : heading? cs = some (directive, selector)) : selector <:+ cs := by
  obtain ⟨rest, hrest, h⟩ := Option.bind_eq_some_iff.1 h
  obtain ⟨⟨directive, behind⟩, hbehind, h⟩ := Option.bind_eq_some_iff.1 h
  dsimp only at h
  split at h
  · cases h
    exact (List.dropWhile_suffix _).trans ((suffix_of_directive? hbehind).trans
      ((suffix_of_after? hrest).trans (List.dropWhile_suffix _)))
  · cases h

theorem exists_of_afterRemark? {before cs rest : List Char}
    (h : afterRemark? before cs = some rest) :
    ∃ r e m, cs = r :: e :: m :: rest ∧ [r, e, m].map Char.toLower = "rem".toList ∧
      rest.head?.any Text.isWordChar = false := by
  unfold afterRemark? at h
  split at h
  · rename_i r e m tail
    split at h
    · rename_i hword
      simp only [Bool.and_eq_true, beq_iff_eq, Bool.not_eq_true'] at hword
      cases h
      exact ⟨r, e, m, rfl, by simp [hword], hword.2⟩
    · cases h
  · cases h

/-! ## Lines -/

/-- A line stands in the text behind as many line feeds as there are lines before it. -/
theorem exists_of_getElem?_linesFrom {line cs l : List Char} {i : Nat} (hline : '\n' ∉ line)
    (h : (linesFrom line cs)[i]? = some l) :
    ∃ pre post, line.reverse ++ cs = pre ++ (l ++ post) ∧ pre.count '\n' = i := by
  fun_induction linesFrom line cs generalizing i with
  | case1 => cases h
  | case2 line _ =>
    obtain ⟨rfl, rfl⟩ : i = 0 ∧ l = line.reverse := by
      cases i with
      | zero => exact ⟨rfl, (Option.some.inj h).symm⟩
      | succ i => cases h
    exact ⟨[], [], by simp, rfl⟩
  | case3 line cs ih =>
    cases i with
    | zero =>
      obtain rfl := Option.some.inj h
      exact ⟨[], '\r' :: '\n' :: cs, rfl, rfl⟩
    | succ i =>
      obtain ⟨pre, post, hcs, hpre⟩ := ih List.not_mem_nil h
      refine ⟨line.reverse ++ '\r' :: '\n' :: pre, post, by simp [← hcs], ?_⟩
      simp [hpre, List.count_eq_zero.2 hline]
  | case4 line cs ih =>
    cases i with
    | zero =>
      obtain rfl := Option.some.inj h
      exact ⟨[], '\n' :: cs, rfl, rfl⟩
    | succ i =>
      obtain ⟨pre, post, hcs, hpre⟩ := ih List.not_mem_nil h
      refine ⟨line.reverse ++ '\n' :: pre, post, by simp [← hcs], ?_⟩
      simp [hpre, List.count_eq_zero.2 hline]
  | case5 line c cs _ hfeed ih =>
    have hc : '\n' ∉ c :: line := by
      simpa [List.mem_cons, hline] using fun h : '\n' = c => hfeed h.symm
    obtain ⟨pre, post, hcs, hpre⟩ := ih hc h
    exact ⟨pre, post, by simpa using hcs, hpre⟩

/-- A suppression comes from one of the lines. -/
theorem exists_line_of_mem_ofLines {file : String} {inHeader : Bool} {line : Nat}
    {ls : List (List Char)} {s : Suppression} (h : s ∈ ofLines file inHeader line ls) :
    ∃ i l header, ls[i]? = some l ∧ ofLine? file header (line + i) l = some s := by
  induction ls generalizing inHeader line with
  | nil => cases h
  | cons l ls ih =>
    rcases List.mem_append.1 h with h | h
    · exact ⟨0, l, _, rfl, Option.mem_toList.1 h⟩
    · obtain ⟨i, l, header, hi, hl⟩ := ih h
      exact ⟨i + 1, l, header, hi, by rwa [← Nat.add_assoc, Nat.add_right_comm]⟩

/-! ## Matches -/

/-- A form is found where it matches. -/
theorem exists_of_firstMatch? {form : List Char → List Char → Option Match} {before cs : List Char}
    {found : Match} (h : firstMatch? form before cs = some found) :
    ∃ mid behind, cs = mid ++ behind ∧ form (mid.reverse ++ before) behind = some found := by
  induction cs generalizing before with
  | nil => cases h
  | cons c cs ih =>
    rw [firstMatch?] at h
    split at h
    · rename_i hfound
      exact ⟨[], c :: cs, rfl, by rw [← h]; exact hfound⟩
    · obtain ⟨mid, behind, rfl, hform⟩ := ih h
      exact ⟨c :: mid, behind, rfl, by simpa using hform⟩

/-- The mark starts the characters, and behind it and the word of a directive stands the rule. A
block comment ends behind the rule. -/
def Mark.Directs (mark : Mark) (before cs rule : List Char) : Prop :=
  ∃ rest directive selector, mark.after? before cs = some rest ∧
    heading? rest = some (directive, selector) ∧ rule <+: selector ∧
      (mark = .opening → "*/".toList <:+: selector)

theorem selection_isPrefix (cs : List Char) : (selection cs).1 <+: cs := by
  rw [selection]
  split <;> exact List.takeWhile_prefix _

theorem infix_of_beforeCommentEnd? {cs content : List Char}
    (h : beforeCommentEnd? cs = some content) : "*/".toList <:+: cs := by
  fun_induction beforeCommentEnd? cs generalizing content with
  | case1 cs => exact ⟨[], cs, rfl⟩
  | case2 c cs _ ih =>
    obtain ⟨content, hcontent, -⟩ := Option.map_eq_some_iff.1 h
    exact List.infix_cons (ih hcontent)
  | case3 => cases h

theorem infix_of_enclosedReason? {cs reason : List Char} (h : enclosedReason? cs = some reason) :
    "*/".toList <:+: cs := by
  have hsuffix := List.dropWhile_suffix (l := cs) Text.isBlank
  unfold enclosedReason? at h
  split at h
  · rename_i content hdash
    obtain ⟨content, hcontent, -⟩ := Option.map_eq_some_iff.1 h
    rw [hdash] at hsuffix
    exact (infix_of_beforeCommentEnd? hcontent).trans
      ((List.suffix_cons _ _).trans hsuffix).isInfix
  · rename_i behind hend
    rw [hend] at hsuffix
    exact List.IsInfix.trans ⟨[], behind, rfl⟩ hsuffix.isInfix
  · cases h

/-- Behind the rule of a directive in a block comment stands the end of the comment. -/
theorem of_enclosedSelection? {cs rule reason : List Char} {n : Nat}
    (h : enclosedSelection? cs n = some (rule, reason)) :
    rule <+: cs ∧ "*/".toList <:+: cs := by
  induction n with
  | zero => cases h
  | succ n ih =>
    rw [enclosedSelection?] at h
    split at h
    · rename_i hreason
      cases h
      exact ⟨List.take_prefix _ _,
        (infix_of_enclosedReason? hreason).trans (List.drop_suffix _ _).isInfix⟩
    · exact ih h

theorem directs_of_lineComment? {before cs : List Char} {found : Match}
    (h : lineComment? before cs = some found) : Mark.slashes.Directs before cs found.rule := by
  obtain ⟨rest, hrest, h⟩ := Option.bind_eq_some_iff.1 h
  obtain ⟨⟨directive, selector⟩, hheading, rfl⟩ := Option.map_eq_some_iff.1 h
  exact ⟨rest, directive, selector, hrest, hheading, selection_isPrefix selector, nofun⟩

theorem directs_of_blockComment? {before cs : List Char} {found : Match}
    (h : blockComment? before cs = some found) : Mark.opening.Directs before cs found.rule := by
  obtain ⟨rest, hrest, h⟩ := Option.bind_eq_some_iff.1 h
  obtain ⟨⟨directive, selector⟩, hheading, h⟩ := Option.bind_eq_some_iff.1 h
  obtain ⟨⟨rule, reason⟩, hselection, rfl⟩ := Option.map_eq_some_iff.1 h
  obtain ⟨hrule, hend⟩ := of_enclosedSelection? hselection
  exact ⟨rest, directive, selector, hrest, hheading, hrule, fun _ => hend⟩

theorem directs_of_basicComment? {before cs : List Char} {found : Match}
    (h : basicComment? before cs = some found) :
    ∃ mark : Mark, mark.Directs before cs found.rule := by
  obtain ⟨rest, hrest, h⟩ := Option.bind_eq_some_iff.1 h
  obtain ⟨⟨directive, selector⟩, hheading, rfl⟩ := Option.map_eq_some_iff.1 h
  have hrule := selection_isPrefix selector
  split at hrest
  · rename_i hafter
    cases hrest
    exact ⟨.apostrophe, rest, directive, selector, hafter, hheading, hrule, nofun⟩
  · exact ⟨.remark, rest, directive, selector, hrest, hheading, hrule, nofun⟩

theorem of_ofMatch? {file : String} {header : Bool} {line : Nat} {found : Match} {s : Suppression}
    (h : ofMatch? file header line found = some s) :
    s.rule.toList = found.rule ∧ (s.line = line ∨ s.scope = .file ∧ s.line = 0) := by
  unfold ofMatch? at h
  dsimp only at h
  split at h
  · split at h
    · cases h
      exact ⟨String.toList_ofList, .inr ⟨rfl, rfl⟩⟩
    · cases h
  · cases h
    exact ⟨String.toList_ofList, .inl rfl⟩
  · split at h
    · cases h
      exact ⟨String.toList_ofList, .inl rfl⟩
    · cases h
      exact ⟨String.toList_ofList, .inl rfl⟩

/-- A suppression on a line comes from the directive behind a mark. -/
theorem exists_directs_of_ofLine? {file : String} {header : Bool} {line : Nat} {l : List Char}
    {s : Suppression} (h : ofLine? file header line l = some s) :
    ∃ (mark : Mark) (before behind : List Char), l = before ++ behind ∧
      mark.Directs before.reverse behind s.rule.toList ∧
        (s.line = line ∨ s.scope = .file ∧ s.line = 0) := by
  obtain ⟨form, hform, h⟩ := List.exists_of_findSome?_eq_some h
  obtain ⟨found, hfound, hresult⟩ := Option.bind_eq_some_iff.1 h
  obtain ⟨before, behind, rfl, hmatch⟩ := exists_of_firstMatch? hfound
  rw [List.append_nil] at hmatch
  obtain ⟨mark, hmark⟩ : ∃ mark : Mark, mark.Directs before.reverse behind found.rule := by
    simp only [List.mem_cons, List.not_mem_nil, or_false] at hform
    rcases hform with rfl | rfl | rfl
    · exact ⟨.slashes, directs_of_lineComment? hmatch⟩
    · exact ⟨.opening, directs_of_blockComment? hmatch⟩
    · exact directs_of_basicComment? hmatch
  obtain ⟨hrule, hnumber⟩ := of_ofMatch? hresult
  exact ⟨mark, before, behind, rfl, by rwa [hrule], hnumber⟩

/-! ## Places of marks -/

/-- A place of a text: its line before it and from there on, and the text around the line. -/
structure Spot where
  above : List Char
  before : List Char
  behind : List Char
  below : List Char

namespace Spot

/-- The offset of the place. -/
def offset (spot : Spot) : Nat :=
  byteLength (spot.above ++ spot.before)

/-- The directive of the suppression stands behind the mark, and the mark at the place. -/
structure Marks (spot : Spot) (source : String) (mark : Mark) (s : Suppression) : Prop where
  text : source.toList = spot.above ++ (spot.before ++ spot.behind ++ spot.below)
  line : (lines source)[spot.above.count '\n']? = some (spot.before ++ spot.behind)
  directs : mark.Directs spot.before.reverse spot.behind s.rule.toList
  /-- The suppression has the number of its line, unless it is one of the whole file. -/
  number : s.line = spot.above.count '\n' + 1 ∨ s.scope = .file ∧ s.line = 0

end Spot

/-- Each suppression of a text comes from a directive behind a mark. -/
theorem exists_marks_of_mem_parse {file source : String} {s : Suppression}
    (h : s ∈ parse file source) : ∃ (spot : Spot) (mark : Mark), spot.Marks source mark s := by
  obtain ⟨i, l, header, hi, hline⟩ := exists_line_of_mem_ofLines h
  obtain ⟨mark, before, behind, rfl, hdirects, hnumber⟩ := exists_directs_of_ofLine? hline
  obtain ⟨above, below, htext, rfl⟩ := exists_of_getElem?_linesFrom List.not_mem_nil hi
  refine ⟨⟨above, before, behind, below⟩, mark, ?_⟩
  exact { text := htext, line := hi, directs := hdirects, number := by rwa [Nat.add_comm] }

/-! ## Marks as the lexer takes them -/

theorem exists_commentBody {cs : List Char} (h : "*/".toList <:+: cs) :
    ∃ n, Lexis.commentBody cs = some n := by
  fun_induction Lexis.commentBody cs with
  | case1 cs => exact ⟨2, rfl⟩
  | case2 c cs hopen ih =>
    rcases List.infix_cons_iff.1 h with ⟨post, hpost⟩ | h
    · obtain ⟨rfl, rfl⟩ := List.cons_eq_cons.1 hpost
      exact absurd rfl (hopen post rfl)
    · obtain ⟨n, hn⟩ := ih h
      exact ⟨n + 1, by rw [hn]; rfl⟩
  | case3 => exact absurd (List.infix_nil.1 h) (by decide)

/-- What a piece is that holds a mark of the language: a comment, or the mark stands inside of
something that is not looked into for comments. -/
def Holds (language : Language) (p : Lexis.Piece) (offset : Nat) (mark : Mark) : Prop :=
  p.IsComment language ∨
    p.start < offset ∧ (p.kind = some .str ∨ p.kind = some .error ∨ p.IsDirective ∨
      mark = .remark ∧ (p.kind = some .ident ∨ p.kind = some .number))

section Holds

open Lexis (IsNext)

variable {kind : Option LexemeKind} {start : Nat} {inner outer rest before behind below rule :
  List Char} {mark : Mark}

theorem eq_r_or_R {c : Char} (h : c.toLower = 'r') : c = 'r' ∨ c = 'R' := by
  have hc := congrArg Char.toNat h
  rw [Text.toNat_toLower] at hc
  rw [← Char.toNat_inj, ← Char.toNat_inj]
  split at hc
  · exact .inr (Nat.add_right_cancel (m := 32) hc)
  · exact .inl hc

/-- The mark stands inside of the piece. -/
theorem Holds.of_inside {language : Language} (hinner : inner ≠ [])
    (h : Lexis.Piece.IsComment language ⟨kind, inner ++ outer, start⟩ ∨ kind = some .str ∨
      kind = some .error ∨ Lexis.Piece.IsDirective ⟨kind, inner ++ outer, start⟩ ∨
        mark = .remark ∧ (kind = some .ident ∨ kind = some .number)) :
    Holds language ⟨kind, inner ++ outer, start⟩ (start + byteLength inner) mark := by
  refine h.imp_right fun h => ⟨?_, h⟩
  exact Nat.lt_add_of_pos_right (Nat.pos_of_ne_zero (mt Text.eq_nil_of_byteLength hinner))

/-- The piece that holds a mark of C#, given where the mark stands in it. -/
theorem holds_of_csharp (hmark : mark.language = .csharp)
    (hnext : IsNext Language.csharp.patterns kind (inner ++ outer) rest) (houter : outer ≠ [])
    (htext : outer ++ rest = behind ++ below) (hdirects : mark.Directs before behind rule) :
    Holds .csharp ⟨kind, inner ++ outer, start⟩ (start + byteLength inner) mark := by
  obtain ⟨more, directive, selector, hafter, hheading, -, hclosed⟩ := hdirects
  obtain ⟨tail, htail⟩ : ∃ tail, behind = '/' :: tail := by
    cases mark with
    | slashes => exact ⟨_, eq_append_of_after? hafter⟩
    | opening => exact ⟨_, eq_append_of_after? hafter⟩
    | apostrophe | remark => cases hmark
  by_cases hinner : inner = []
  · subst hinner
    refine .inl ?_
    rw [List.nil_append] at hnext ⊢
    cases mark with
    | slashes =>
      rw [eq_append_of_after? hafter] at htext
      exact Lexis.CSharp.isComment_of_slashes hnext htext
    | opening =>
      rw [eq_append_of_after? hafter] at htext
      have hend := (hclosed rfl).trans (suffix_of_heading? hheading).isInfix
      obtain ⟨n, hn⟩ := exists_commentBody (hend.trans (List.infix_append' [] more below))
      exact Lexis.CSharp.isComment_of_opening hnext htext hn
    | apostrophe | remark => cases hmark
  · obtain ⟨c, outer, rfl⟩ := List.exists_cons_of_ne_nil houter
    rw [htail, List.cons_append, List.cons_append, List.cons_eq_cons] at htext
    obtain ⟨rfl, -⟩ := htext
    refine .of_inside hinner ((Lexis.CSharp.exists_holder_of_slash hinner hnext).imp_right ?_)
    exact Or.imp_right (Or.imp_right .inl)

/-- The piece that holds a mark of Visual Basic, given where the mark stands in it. -/
theorem holds_of_visualBasic (hmark : mark.language = .visualBasic)
    (hnext : IsNext Language.visualBasic.patterns kind (inner ++ outer) rest) (houter : outer ≠ [])
    (htext : outer ++ rest = behind ++ below) (hdirects : mark.Directs before behind rule) :
    Holds .visualBasic ⟨kind, inner ++ outer, start⟩ (start + byteLength inner) mark := by
  obtain ⟨more, directive, selector, hafter, hheading, -⟩ := hdirects
  obtain ⟨x, tail, htail, hx, hremark⟩ : ∃ x tail, behind = x :: tail ∧ x ∈ ['\'', 'r', 'R'] ∧
      (x ≠ '\'' → mark = .remark) := by
    cases mark with
    | apostrophe => exact ⟨'\'', more, eq_append_of_after? hafter, by decide, (absurd rfl ·)⟩
    | remark =>
      obtain ⟨r, e, m, hbehind, hword, -⟩ := exists_of_afterRemark? hafter
      exact ⟨r, _, hbehind, by simp [eq_r_or_R (List.cons.inj hword).1], fun _ => rfl⟩
    | slashes | opening => cases hmark
  by_cases hinner : inner = []
  · subst hinner
    refine .inl ?_
    rw [List.nil_append] at hnext ⊢
    cases mark with
    | apostrophe =>
      rw [eq_append_of_after? hafter] at htext
      exact Lexis.VisualBasic.isComment_of_apostrophe hnext houter htext
    | remark =>
      obtain ⟨r, e, m, hbehind, hword, hend⟩ := exists_of_afterRemark? hafter
      rw [hbehind] at htext
      refine Lexis.VisualBasic.isComment_of_remark hnext htext hword ?_
      -- the directive behind the word is on the line
      obtain ⟨c, more, rfl⟩ : ∃ c rest, more = c :: rest := by
        cases more with
        | nil => cases hheading
        | cons c more => exact ⟨c, more, rfl⟩
      exact hend
    | slashes | opening => cases hmark
  · obtain ⟨c, outer, rfl⟩ := List.exists_cons_of_ne_nil houter
    rw [htail, List.cons_append, List.cons_append, List.cons_eq_cons] at htext
    obtain ⟨rfl, -⟩ := htext
    refine .of_inside hinner
      ((Lexis.VisualBasic.exists_holder_of_mark hx (by simp) hnext).imp_right ?_)
    exact Or.imp_right (Or.imp_right (Or.imp_right (And.imp_left hremark)))

end Holds

end Suppression

namespace Document

/-- Each suppression of a text comes from a directive behind a mark, which lies in one of the pieces
of the text. If the mark is one of the language of the text, this piece is a comment, unless the
mark stands inside a literal, malformed text or a directive, or is a part of a name or number. -/
theorem exists_mark_of_mem_parse {language : Language} {path source : String} {s : Suppression}
    (h : s ∈ Suppression.parse path source) :
    ∃ (spot : Suppression.Spot) (mark : Suppression.Mark), spot.Marks source mark s ∧
      ∃ p ∈ (read language path source).pieces, p.start ≤ spot.offset ∧ spot.offset < p.stop ∧
        (mark.language = language → Suppression.Holds language p spot.offset mark) := by
  obtain ⟨spot, mark, hmarks⟩ := Suppression.exists_marks_of_mem_parse h
  have hcut : Lexis.Cut language.patterns 0 source.toList (read language path source).pieces :=
    (read language path source).cut_pieces
  have hbehind : spot.behind ≠ [] := by
    obtain ⟨rest, directive, selector, hafter, -⟩ := hmarks.directs
    rintro hnil
    rw [hnil] at hafter
    cases mark <;> cases hafter
  have htext : source.toList = (spot.above ++ spot.before) ++ (spot.behind ++ spot.below) := by
    simp [hmarks.text]
  have hinside : spot.offset < 0 + byteLength source.toList := by
    have := mt Text.eq_nil_of_byteLength hbehind
    rw [Suppression.Spot.offset, htext, byteLength_append (_ ++ _), byteLength_append spot.behind]
    omega
  obtain ⟨⟨kind, covered, start⟩, ⟨hp, hstart, hstop⟩, -⟩ :=
    hcut.existsUnique_piece (Nat.zero_le _) hinside
  refine ⟨spot, mark, hmarks, ⟨kind, covered, start⟩, hp, hstart, hstop, ?_⟩
  -- the mark splits the piece in two
  obtain ⟨pre, rest, hsource, hpre, -, hnext⟩ := hcut.exists_split hp
  dsimp only at hsource hpre hnext hstart
  rw [Nat.zero_add] at hpre
  rw [htext] at hsource
  obtain ⟨inner, hline, hrest⟩ := Text.exists_append_of_byteLength_le hsource.symm
    (by rw [← hpre]; exact hstart)
  have hoffset : spot.offset = start + byteLength inner := by
    rw [Suppression.Spot.offset, hline, byteLength_append, hpre]
  have hlt : byteLength inner < byteLength covered := by
    rw [hoffset] at hstop
    exact Nat.lt_of_add_lt_add_left hstop
  obtain ⟨outer, rfl, houter⟩ := Text.exists_append_of_byteLength_le hrest.symm hlt.le
  have hne : outer ≠ [] := by
    rintro rfl
    rw [List.append_nil] at hlt
    exact Nat.lt_irrefl _ hlt
  rw [hoffset]
  cases language with
  | csharp =>
    exact fun hmark =>
      Suppression.holds_of_csharp hmark hnext hne houter.symm hmarks.directs
  | visualBasic =>
    exact fun hmark =>
      Suppression.holds_of_visualBasic hmark hnext hne houter.symm hmarks.directs

/-- A suppression in a comment. -/
theorem exists_mark_ofComment :
    let source := "// emptycheck:ignore CA1825 - reason"
    let s : Suppression := ⟨"CA1825", "reason", "a.cs", 1, .nextLine⟩
    s ∈ Suppression.parse "a.cs" source ∧
      ∃ (spot : Suppression.Spot) (mark : Suppression.Mark), spot.Marks source mark s ∧
        ∃ p ∈ (read .csharp "a.cs" source).pieces, p.start ≤ spot.offset ∧ spot.offset < p.stop ∧
          (mark.language = .csharp → Suppression.Holds .csharp p spot.offset mark) := by
  have hmem : (⟨"CA1825", "reason", "a.cs", 1, .nextLine⟩ : Suppression) ∈
      Suppression.parse "a.cs" "// emptycheck:ignore CA1825 - reason" := by decide +kernel
  exact ⟨hmem, exists_mark_of_mem_parse hmem⟩

end Document

namespace Suppression

/-! ## Strings that silence -/

/-- A string that looks like a comment with a directive, and an empty array behind it. -/
def silencingString : String :=
  "class C \x7b void F() \x7b var s = \"// emptycheck:ignore CA1825 \"; " ++
    "var a = new int[] \x7b \x7d; \x7d \x7d"

/-- The directive in the string silences the diagnostic of the array. -/
example :
    let result := (Compilation.ofSources Config.standard [("a.cs", silencingString)]).result
    result.diagnostics = [] ∧ result.suppressed.length = 1 := by
  decide +kernel

/-- Suppressions need not come from comments. -/
theorem not_forall_mem_parse_isComment :
    ¬∀ (language : Language) (path source : String), ∀ s ∈ parse path source,
      ∃ (spot : Spot) (mark : Mark), spot.Marks source mark s ∧
        ∃ p ∈ (Document.read language path source).pieces, p.start ≤ spot.offset ∧
          spot.offset < p.stop ∧ p.IsComment language := by
  intro hclaim
  have hmem : (⟨"CA1825", "", "a.cs", 1, .line⟩ : Suppression) ∈ parse "a.cs" silencingString := by
    decide +kernel
  obtain ⟨-, -, -, p, hp, -, -, hkind, hopening⟩ := hclaim .csharp "a.cs" silencingString _ hmem
  -- there is no comment in the text: all that is dropped is blank space
  have hblank : ∀ p ∈ (Document.read .csharp "a.cs" silencingString).pieces, p.kind = none →
      '/' ∉ p.text := by
    decide +kernel
  refine hblank p hp hkind ?_
  rcases hopening with h | h
  · exact h.subset (by decide)
  · exact h.subset (by decide)

end Suppression

end ZeroAlloc
