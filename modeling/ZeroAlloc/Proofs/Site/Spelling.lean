import ZeroAlloc.Proofs.Site.Extent
set_option autoImplicit false

/-! # Types that are written again

A level without sizes is written as its brackets with commas in between, and reading levels that are
written so gives their ranks back (`arrayLevels_unsized`). A group can be read again without its
line breaks, whatever follows it. -/

namespace ZeroAlloc

/-! ## Groups without line breaks -/

theorem Lexeme.isNewline_of_isPunct {l : Lexeme} {p : String} (h : l.isPunct p = true) :
    l.isNewline = false := by
  simp only [isPunct, Bool.and_eq_true, decide_eq_true_eq] at h
  simp [isNewline, h.1]

theorem Lexeme.isNewline_of_isIdent {l : Lexeme} (h : l.isIdent = true) : l.isNewline = false := by
  simp only [isIdent, decide_eq_true_eq] at h
  simp [isNewline, h]

theorem withoutNewlines_append (ls more : List Lexeme) :
    withoutNewlines (ls ++ more) = withoutNewlines ls ++ withoutNewlines more :=
  List.filter_append ..

theorem withoutNewlines_cons {l : Lexeme} (h : l.isNewline = false) (ls : List Lexeme) :
    withoutNewlines (l :: ls) = l :: withoutNewlines ls :=
  List.filter_cons_of_pos (by simp [h])

theorem withoutNewlines_eq_self {ls : List Lexeme} (h : ∀ l ∈ ls, l.isNewline = false) :
    withoutNewlines ls = ls :=
  List.filter_eq_self.2 fun l hl => by rw [h l hl, Bool.not_false]

namespace BracketPair

variable {b : BracketPair}

theorem Nested.withoutNewlines {ls : List Lexeme} (h : b.Nested ls) :
    b.Nested (withoutNewlines ls) := by
  induction h with
  | nil => exact .nil
  | @plain l ls hopen hclose _ ih =>
    cases hline : l.isNewline with
    | true => rwa [ZeroAlloc.withoutNewlines, List.filter_cons_of_neg (by simp [hline])]
    | false =>
      rw [withoutNewlines_cons hline]
      exact .plain hopen hclose ih
  | group hopen _ hclose _ ihinside ih =>
    rw [withoutNewlines_cons (Lexeme.isNewline_of_isPunct hopen), withoutNewlines_append,
      withoutNewlines_cons (Lexeme.isNewline_of_isPunct hclose)]
    exact .group hopen ihinside hclose ih

theorem eq_cons_of_group {taken inside rest : List Lexeme}
    (h : b.group? (taken ++ rest) = some (inside, rest)) :
    ∃ opening close, opening.isPunct b.opening = true ∧ close.isPunct b.closing = true ∧
      taken = opening :: (inside ++ [close]) := by
  obtain ⟨opening, close, hopen, hclose, hls⟩ := eq_append_of_group h
  refine ⟨opening, close, hopen, hclose, ?_⟩
  have hrest : taken ++ rest = opening :: (inside ++ [close]) ++ rest := by
    rw [hls]
    simp
  exact List.append_cancel_right hrest

/-- A group is as long as its contents and its two brackets. -/
theorem take_of_group {taken inside rest : List Lexeme}
    (h : b.group? (taken ++ rest) = some (inside, rest)) :
    (taken ++ rest).take (inside.length + 2) = taken := by
  obtain ⟨opening, close, _, _, rfl⟩ := eq_cons_of_group h
  have hlength : inside.length + 2 = (opening :: (inside ++ [close])).length := by simp
  rw [hlength, List.take_left]

/-- A group can be read again in front of other lexemes, without its line breaks. -/
theorem group?_withoutNewlines (hne : b.opening ≠ b.closing) {taken inside rest : List Lexeme}
    (h : b.group? (taken ++ rest) = some (inside, rest)) (more : List Lexeme) :
    b.group? (ZeroAlloc.withoutNewlines taken ++ more) =
      some (ZeroAlloc.withoutNewlines inside, more) := by
  obtain ⟨opening, close, hopen, hclose, rfl⟩ := eq_cons_of_group h
  rw [withoutNewlines_cons (Lexeme.isNewline_of_isPunct hopen), withoutNewlines_append,
    withoutNewlines_cons (Lexeme.isNewline_of_isPunct hclose), List.cons_append, group?,
    if_pos hopen, untilClose_eq_some_iff hne]
  exact ⟨close, hclose, by simp [ZeroAlloc.withoutNewlines], (nested_of_group h).withoutNewlines⟩

/-! ## Levels without sizes -/

/-- A comma. -/
def comma : Lexeme := ⟨.punct, ","⟩

/-- A level without sizes, as it is written. -/
def unsized (b : BracketPair) (rank : Nat) : List Lexeme :=
  ⟨.punct, b.opening⟩ :: (List.replicate (rank - 1) comma ++ [⟨.punct, b.closing⟩])

theorem group?_unsized (hne : b.opening ≠ b.closing) (hopen : b.opening ≠ ",")
    (hclose : b.closing ≠ ",") (rank : Nat) (more : List Lexeme) :
    b.group? (b.unsized rank ++ more) = some (List.replicate (rank - 1) comma, more) := by
  have hpunct (p : String) : Lexeme.isPunct ⟨.punct, p⟩ p = true := by simp [Lexeme.isPunct]
  have hnested (n : Nat) : b.Nested (List.replicate n comma) := by
    induction n with
    | zero => exact .nil
    | succ n ih =>
      exact .plain (isPunct_eq_false hopen (hpunct ",")) (isPunct_eq_false hclose (hpunct ",")) ih
  rw [unsized, List.cons_append, group?, if_pos (hpunct _), untilClose_eq_some_iff hne]
  exact ⟨_, hpunct _, by simp, hnested _⟩

end BracketPair

theorem ArrayLevel.ofContents_commas (n : Nat) :
    ofContents (List.replicate n BracketPair.comma) = ⟨List.replicate (n + 1) none⟩ := by
  have hsplit : splitCommas 0 (List.replicate n BracketPair.comma) = List.replicate (n + 1) [] := by
    induction n with
    | zero => rfl
    | succ n ih =>
      rw [List.replicate_succ, List.replicate_succ, ← ih]
      rfl
  rw [ofContents, hsplit, List.map_replicate]
  rfl

/-- Levels without sizes are read with their ranks. -/
theorem arrayLevels_unsized {b : BracketPair} (hne : b.opening ≠ b.closing)
    (hopen : b.opening ≠ ",") (hclose : b.closing ≠ ",") {isLevel : List Lexeme → Bool}
    (hlevel : ∀ rank more, isLevel (b.unsized rank ++ more) = true) {ranks : List Nat}
    (hranks : ∀ rank ∈ ranks, 0 < rank) :
    arrayLevels b isLevel (ranks.flatMap b.unsized) =
      some (ranks.map fun rank => ⟨List.replicate rank none⟩, []) := by
  induction ranks with
  | nil =>
    rw [arrayLevels_eq]
    rfl
  | cons rank ranks ih =>
    have hstarts :
        startsWithPunct b.opening (b.unsized rank ++ ranks.flatMap b.unsized) = true := by
      simp [BracketPair.unsized, startsWithPunct_cons, Lexeme.isPunct]
    rw [List.flatMap_cons, arrayLevels_eq, hstarts, hlevel, Bool.and_self, if_pos rfl,
      BracketPair.group?_unsized hne hopen hclose, Option.bind_some,
      ih fun r hr => hranks r (List.mem_cons_of_mem _ hr), ArrayLevel.ofContents_commas,
      Nat.sub_add_cancel (hranks rank List.mem_cons_self)]
    rfl

/-! ## Element types -/

/-- A type that is resolved next to other lexemes is what it is without them. -/
theorem ElementType.readWith_of_resolved {t : ElementType} {ls : List Lexeme}
    (h : (t.readWith ls).resolved = true) : t.readWith ls = t := by
  unfold ElementType.readWith at h ⊢
  split
  · rename_i herror
    rw [if_pos herror] at h
    cases h
  · rfl

@[simp] theorem Site.element_shift (n : Nat) (s : Site) : (s.shift n).element = s.element := rfl

@[simp] theorem Site.element_markAttribute (sections : List (Nat × Nat)) (s : Site) :
    (s.markAttribute sections).element = s.element := by
  unfold markAttribute
  split <;> rfl

/-- The levels of an array type are read whatever follows them, if it is no further level. -/
theorem arrayLevels_append {b : BracketPair} (hne : b.opening ≠ b.closing)
    {ls rest : List Lexeme} {levels : List ArrayLevel} {more : List Lexeme}
    (h : arrayLevels b (fun _ => true) ls = some (levels, rest))
    (hmore : startsWithPunct b.opening (rest ++ more) = false) :
    arrayLevels b (fun _ => true) (ls ++ more) = some (levels, rest ++ more) := by
  have hstops : arrayLevels b (fun _ => true) (rest ++ more) = some ([], rest ++ more) := by
    rw [arrayLevels_eq, hmore]
    rfl
  fun_induction arrayLevels b (fun _ => true) ls generalizing levels with
  | case1 => cases h
  | case2 ls hlevel inside after hgroup ih =>
    obtain ⟨⟨inner, r⟩, hinner, he⟩ := Option.map_eq_some_iff.1 h
    cases he
    have hagain := BracketPair.group?_append hne hgroup more
    rw [arrayLevels_eq, startsWithPunct_of_group hagain, hagain, Option.bind_some, ih hinner]
    rfl
  | case3 =>
    cases h
    exact hstops

end ZeroAlloc
