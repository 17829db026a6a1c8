import ZeroAlloc.Proofs.Site.Pieces
import ZeroAlloc.Text.Case
set_option autoImplicit false

/-! # How written sites look

A creation expression starts with the word `new` and the type behind it, and the contents of an
initializer list are what stands between two brackets of the file (`Site.IsWrittenIn`). A written
site ends with the bracket of a group that starts within it, and if its element type is resolved, no
lexeme of it is malformed (`Site.IsWhole`). -/

namespace ZeroAlloc

/-! ## Initializer lists -/

/-- The list stands in the row, between two brackets of which the second one has the index `last`.
Line breaks do not count as contents. -/
def Initializer.StandsIn (i : Initializer) (ls : List Lexeme) (last : Nat) : Prop :=
  ∃ opening inside close rest, ls.drop i.opening = opening :: (inside ++ close :: rest) ∧
    last = i.opening + inside.length + 1 ∧ opening.opensGroup = true ∧
    close.closesGroup = true ∧ withoutNewlines inside = withoutNewlines i.contents

namespace Initializer.StandsIn

theorem withoutNewlines_withoutNewlines (ls : List Lexeme) :
    withoutNewlines (withoutNewlines ls) = withoutNewlines ls := by
  simp [withoutNewlines, List.filter_filter]

/-- A bracketed group behind some lexemes is a list. -/
theorem of_group {b : BracketPair} (hb : b = .parens ∨ b = .squares ∨ b = .braces)
    {passed list inside rest contents : List Lexeme} {position last : Nat}
    (hgroup : b.group? list = some (inside, rest)) (hposition : position = passed.length)
    (hlast : last = position + inside.length + 1)
    (hcontents : withoutNewlines inside = withoutNewlines contents) :
    StandsIn ⟨position, contents⟩ (passed ++ list) last := by
  obtain ⟨opening, close, hopening, hclose, rfl⟩ := BracketPair.eq_append_of_group hgroup
  refine ⟨opening, inside, close, rest, ?_, hlast, BracketPair.opensGroup hb hopening,
    BracketPair.closesGroup hb hclose, hcontents⟩
  rw [hposition, List.drop_left, List.cons_append]

/-- A bracketed group in the row, by the lengths of what follows its brackets. -/
theorem of_suffix {b : BracketPair} (hb : b = .parens ∨ b = .squares ∨ b = .braces)
    {ls list inside rest contents : List Lexeme} (hlist : list <:+ ls)
    (hgroup : b.group? list = some (inside, rest))
    (hcontents : withoutNewlines inside = withoutNewlines contents) :
    StandsIn ⟨ls.length - list.length, contents⟩ ls (ls.length - rest.length - 1) := by
  obtain ⟨passed, rfl⟩ := hlist
  refine of_group hb hgroup (by simp) ?_ hcontents
  obtain ⟨_, _, _, _, rfl⟩ := BracketPair.eq_append_of_group hgroup
  simp only [List.length_append, List.length_cons]
  omega

theorem shift {i : Initializer} {ls : List Lexeme} {last : Nat} (h : i.StandsIn ls last)
    (passed : List Lexeme) :
    StandsIn { i with opening := i.opening + passed.length } (passed ++ ls)
      (last + passed.length) := by
  obtain ⟨opening, inside, close, rest, hdrop, hlast, hrest⟩ := h
  refine ⟨opening, inside, close, rest, ?_, ?_, hrest⟩
  · rwa [Nat.add_comm, List.drop_length_add_append]
  · rw [hlast]
    dsimp only
    omega

/-- Every lexeme between the brackets is a line break or one of the contents. -/
theorem mem_or_isNewline {i : Initializer} {ls : List Lexeme} {last k : Nat} {l : Lexeme}
    (h : i.StandsIn ls last) (hopening : i.opening < k) (hlast : k < last)
    (hl : ls[k]? = some l) : l ∈ i.contents ∨ l.isNewline = true := by
  obtain ⟨opening, inside, close, rest, hdrop, rfl, -, -, hcontents⟩ := h
  obtain ⟨n, rfl⟩ : ∃ n, k = i.opening + (n + 1) := ⟨k - i.opening - 1, by omega⟩
  rw [← List.getElem?_drop, hdrop, List.getElem?_cons_succ,
    List.getElem?_append_left (by omega)] at hl
  by_cases hline : l.isNewline = true
  · exact .inr hline
  · have hmem : l ∈ withoutNewlines inside :=
      List.mem_filter.2 ⟨List.mem_of_getElem? hl, by simpa using hline⟩
    rw [hcontents] at hmem
    exact .inl (List.mem_filter.1 hmem).1

end Initializer.StandsIn

/-! ## Sites -/

/-- Between the word `new` of a creation expression and its brackets stands a type, which starts
with a name or a bracket. The word `global` is told by its text alone. -/
def Lexeme.StartsAllocation (l : Lexeme) : Prop :=
  l.isIdent = true ∨ l.opensGroup = true ∨ l.text = "global"

/-- The site is written in the row as its parts say. -/
structure Site.IsWrittenIn (s : Site) (ls : List Lexeme) : Prop where
  creation : s.origin = .explicit → ∃ new next rest, ls.drop s.first = new :: next :: rest ∧
    new.isIdent = true ∧ Text.lowerAscii new.text = "new" ∧ next.StartsAllocation
  initializer : s.origin.isCompilerGenerated = false →
    ∀ i, s.initializer = some i → i.StandsIn ls s.last

namespace Site.IsWrittenIn

variable {s : Site} {ls : List Lexeme}

/-- A creation expression at the start of the row. -/
theorem of_explicit {new next : Lexeme} {rest : List Lexeme}
    (hfirst : s.first = 0) (hnew : new.isIdent = true) (hword : Text.lowerAscii new.text = "new")
    (hnext : next.StartsAllocation)
    (hinitializer : ∀ i, s.initializer = some i → i.StandsIn (new :: next :: rest) s.last) :
    s.IsWrittenIn (new :: next :: rest) where
  creation _ := ⟨new, next, rest, by rw [hfirst, List.drop_zero], hnew, hword, hnext⟩
  initializer _ := hinitializer

/-- An initializer list on a declared array. -/
theorem of_isListOn {pairs : List BracketPair} {element : ElementType} {allocated : ArrayLevel}
    {inner : List ArrayLevel} (hpairs : ∀ b ∈ pairs, b = .parens ∨ b = .squares ∨ b = .braces)
    (h : IsListOn pairs element allocated inner ls s) : s.IsWrittenIn ls := by
  obtain ⟨passed, list, contents, elements, rest, b, hb, hgroup, -, helements⟩ := h
  refine ⟨by simp [ofList], ?_⟩
  rintro - i hi
  cases hi
  exact .of_group (hpairs b hb) hgroup rfl rfl helements

/-- Of a call, nothing is written. -/
theorem of_generated (hgenerated : s.origin.isCompilerGenerated = true) : s.IsWrittenIn ls where
  creation := by
    intro horigin
    simp [horigin, Origin.isCompilerGenerated] at hgenerated
  initializer := by simp [hgenerated]

theorem shift (h : s.IsWrittenIn ls) (passed : List Lexeme) :
    (s.shift passed.length).IsWrittenIn (passed ++ ls) where
  creation := by
    intro horigin
    obtain ⟨new, next, rest, hdrop, hnew⟩ := h.creation horigin
    refine ⟨new, next, rest, ?_, hnew⟩
    rwa [first_shift, Nat.add_comm, List.drop_length_add_append]
  initializer := by
    intro hwritten moved hmoved
    obtain ⟨i, hi, rfl⟩ := Option.map_eq_some_iff.1 hmoved
    exact (h.initializer hwritten i hi).shift passed

theorem markAttribute (h : s.IsWrittenIn ls) (sections : List (Nat × Nat)) :
    (s.markAttribute sections).IsWrittenIn ls := by
  unfold Site.markAttribute
  split
  · exact ⟨h.creation, h.initializer⟩
  · exact h

end Site.IsWrittenIn

/-- The sites of a file are written in its row if each is written in the row from its own place
on. -/
theorem isWrittenIn_of_mem_collected {recognise : List Lexeme → List Lexeme → List Site}
    {sections : List (Nat × Nat)} {ls : List Lexeme} {s : Site}
    (hwritten : ∀ before here, ∀ s ∈ recognise before here, s.IsWrittenIn here)
    (h : s ∈ ((atEachPlace (fun before here =>
      (recognise before here).map fun s => s.shift before.length) [] ls).map
        (Site.markAttribute sections)).mergeSort Site.comesBefore) :
    s.IsWrittenIn ls := by
  obtain ⟨passed, here, rfl, found, hfound, rfl⟩ := exists_found_of_mem_collected h
  exact ((hwritten _ _ found hfound).shift passed).markAttribute sections

/-! ## Groups in a row -/

/-- The bracket with the index `close` closes the group whose bracket has the index `opening`. -/
def BracketPair.Closes (b : BracketPair) (ls : List Lexeme) (opening close : Nat) : Prop :=
  ∃ inside rest, b.group? (ls.drop opening) = some (inside, rest) ∧
    close = opening + inside.length + 1

namespace BracketPair.Closes

variable {b : BracketPair} {ls list inside rest : List Lexeme} {opening close : Nat}

theorem lt (h : b.Closes ls opening close) : opening < close := by
  obtain ⟨inside, rest, -, rfl⟩ := h
  omega

/-- A group behind some lexemes. -/
theorem of_append {passed : List Lexeme} (hgroup : b.group? list = some (inside, rest))
    (hopening : opening = passed.length) (hclose : close = opening + inside.length + 1) :
    b.Closes (passed ++ list) opening close :=
  ⟨inside, rest, by rwa [hopening, List.drop_left], hclose⟩

/-- A group in the row, by the lengths of what follows its brackets. -/
theorem of_suffix (hlist : list <:+ ls) (hgroup : b.group? list = some (inside, rest)) :
    b.Closes ls (ls.length - list.length) (ls.length - rest.length - 1) := by
  obtain ⟨passed, rfl⟩ := hlist
  refine of_append hgroup (by simp) ?_
  obtain ⟨_, _, _, _, rfl⟩ := BracketPair.eq_append_of_group hgroup
  simp only [List.length_append, List.length_cons]
  omega

theorem shift (h : b.Closes ls opening close) (passed : List Lexeme) :
    b.Closes (passed ++ ls) (opening + passed.length) (close + passed.length) := by
  obtain ⟨inside, rest, hgroup, rfl⟩ := h
  refine ⟨inside, rest, ?_, by omega⟩
  rwa [Nat.add_comm opening, List.drop_length_add_append]

/-- The first lexeme of a group is its opening bracket. -/
theorem exists_opening (h : b.Closes ls opening close) :
    ∃ l, ls[opening]? = some l ∧ l.isPunct b.opening = true := by
  obtain ⟨inside, rest, hgroup, -⟩ := h
  obtain ⟨o, c, hopening, -, hdrop⟩ := BracketPair.eq_append_of_group hgroup
  refine ⟨o, ?_, hopening⟩
  rw [← Nat.add_zero opening, ← List.getElem?_drop, hdrop]
  rfl

/-- The last lexeme of a group is its closing bracket. -/
theorem exists_closing (h : b.Closes ls opening close) :
    ∃ l, ls[close]? = some l ∧ l.isPunct b.closing = true := by
  obtain ⟨inside, rest, hgroup, rfl⟩ := h
  obtain ⟨o, c, -, hclosing, hdrop⟩ := BracketPair.eq_append_of_group hgroup
  refine ⟨c, ?_, hclosing⟩
  rw [Nat.add_assoc, ← List.getElem?_drop, hdrop, List.cons_append, List.getElem?_cons_succ,
    List.getElem?_append_right (Nat.le_refl _), Nat.sub_self]
  rfl

end BracketPair.Closes

/-- A call that leaves out a parameter array ends with its argument list. -/
theorem Site.LiesIn.closes {s : Site} {ls : List Lexeme} (h : s.LiesIn ls)
    (hgenerated : s.origin.isCompilerGenerated = true) :
    BracketPair.parens.Closes ls (s.first + 1) s.last := by
  obtain ⟨inside, rest, hgroup, hlast⟩ := h.call hgenerated
  exact ⟨inside, rest, hgroup, by omega⟩

theorem Lexeme.isError_of_isPunct {l : Lexeme} {p : String} (h : l.isPunct p = true) :
    l.isError = false := by
  simp only [isPunct, Bool.and_eq_true, decide_eq_true_eq] at h
  simp [isError, h.1]

/-- A group without malformed contents has no malformed lexemes. -/
theorem BracketPair.isError_of_mem_group {b : BracketPair} {list inside rest : List Lexeme}
    (hgroup : b.group? list = some (inside, rest)) (hinside : ∀ l ∈ inside, l.isError = false)
    {k : Nat} {l : Lexeme} (hk : k < inside.length + 2) (hl : list[k]? = some l) :
    l.isError = false := by
  obtain ⟨opening, close, hopening, hclosing, rfl⟩ := BracketPair.eq_append_of_group hgroup
  have hrow : opening :: inside ++ close :: rest = (opening :: inside ++ [close]) ++ rest := by simp
  have hshort : k < (opening :: inside ++ [close]).length := by
    simp only [List.length_append, List.length_cons, List.length_nil]
    omega
  rw [hrow, List.getElem?_append_left hshort] at hl
  have hmem := List.mem_of_getElem? hl
  simp only [List.cons_append, List.mem_cons, List.mem_append, List.not_mem_nil, or_false] at hmem
  rcases hmem with rfl | hmem | rfl
  · exact Lexeme.isError_of_isPunct hopening
  · exact hinside l hmem
  · exact Lexeme.isError_of_isPunct hclosing

/-! ## Whole sites -/

/-- A type that is resolved was read next to sound lexemes. -/
theorem ElementType.isError_of_resolved {t : ElementType} {ls : List Lexeme}
    (h : (t.readWith ls).resolved = true) : ∀ l ∈ ls, l.isError = false := by
  unfold readWith at h
  split at h
  · cases h
  · rename_i hsound
    simpa using hsound

/-- The site is a whole expression of the row, where `isNew` tells the word that starts a creation
expression and `pairs` are the brackets that can end a written site. -/
structure Site.IsWhole (s : Site) (isNew : Lexeme → Bool) (pairs : List BracketPair)
    (ls : List Lexeme) : Prop where
  explicit : s.origin = .explicit → (∃ l, ls[s.first]? = some l ∧ isNew l = true) ∧
    ∃ b ∈ pairs, ∃ opening, s.first < opening ∧ b.Closes ls opening s.last
  implicit : s.origin = .implicitInitializer →
    (∃ b ∈ pairs, b.Closes ls s.first s.last) ∧ IsAssigned ls s.first
  /-- No lexeme of a written site with a resolved element type is malformed. -/
  sound : s.origin.isCompilerGenerated = false → s.element.resolved = true →
    ∀ k l, s.first ≤ k → k ≤ s.last → ls[k]? = some l → l.isError = false

namespace Site.IsWhole

variable {s : Site} {isNew : Lexeme → Bool} {pairs : List BracketPair} {ls : List Lexeme}

/-- Of a call, nothing is asked. -/
theorem of_generated (hgenerated : s.origin.isCompilerGenerated = true) :
    s.IsWhole isNew pairs ls where
  explicit := by
    intro horigin
    simp [horigin, Origin.isCompilerGenerated] at hgenerated
  implicit := by
    intro horigin
    simp [horigin, Origin.isCompilerGenerated] at hgenerated
  sound := by simp [hgenerated]

/-- A creation expression at the start of the row ends with the first bracket before `rest`; the
lexemes up to there were read with its type. -/
theorem of_explicit {new : Lexeme} {list inside rest : List Lexeme} {b : BracketPair}
    (horigin : s.origin = .explicit) (hfirst : s.first = 0)
    (hnew : isNew new = true) (hb : b ∈ pairs) (hlist : list <:+ ls)
    (hgroup : b.group? list = some (inside, rest))
    (hlast : s.last = (new :: ls).length - rest.length - 1)
    (helement : s.element.resolved = true →
      ∀ l ∈ (new :: ls).take ((new :: ls).length - rest.length), l.isError = false) :
    s.IsWhole isNew pairs (new :: ls) where
  explicit _ := by
    have hcloses := BracketPair.Closes.of_suffix (hlist.trans (List.suffix_cons new ls)) hgroup
    have hshort := hlist.length_le
    refine ⟨⟨new, by rw [hfirst]; rfl, hnew⟩, b, hb, _, ?_, hlast ▸ hcloses⟩
    rw [hfirst, List.length_cons]
    omega
  implicit := by simp [horigin]
  sound := by
    intro _ hresolved k l _ hk hl
    have hlength : rest.length < ls.length :=
      Nat.lt_of_lt_of_le (BracketPair.length_lt_of_group hgroup) hlist.length_le
    refine helement hresolved l (List.mem_of_getElem? (i := k) ?_)
    rw [List.getElem?_take_of_lt ?_, hl]
    simp only [List.length_cons] at hlast ⊢
    omega

/-- An initializer list, which was read with its type. -/
theorem of_isListOn {element : ElementType} {allocated : ArrayLevel} {inner : List ArrayLevel}
    (h : IsListOn pairs element allocated inner ls s) : s.IsWhole isNew pairs ls := by
  obtain ⟨passed, list, contents, elements, rest, b, hb, hgroup, hassigned, -⟩ := h
  refine ⟨by simp [ofList], fun _ => ⟨⟨b, hb, .of_append hgroup rfl rfl⟩, hassigned⟩, ?_⟩
  intro _ hresolved k l hfirst hlast hl
  simp only [ofList] at hresolved hfirst hlast
  rw [List.getElem?_append_right hfirst] at hl
  exact BracketPair.isError_of_mem_group hgroup (ElementType.isError_of_resolved hresolved)
    (by omega) hl

theorem shift (h : s.IsWhole isNew pairs ls) (passed : List Lexeme) :
    (s.shift passed.length).IsWhole isNew pairs (passed ++ ls) := by
  have hat (i : Nat) : (passed ++ ls)[i + passed.length]? = ls[i]? := by
    rw [List.getElem?_append_right (Nat.le_add_left _ _), Nat.add_sub_cancel]
  have hback {k n : Nat} (hk : n + passed.length ≤ k) : ∃ i, k = i + passed.length :=
    ⟨k - passed.length, by omega⟩
  refine ⟨fun horigin => ?_, fun horigin => ?_, fun hwritten hresolved k l hfirst hlast hl => ?_⟩
  · obtain ⟨⟨l, hl, hnew⟩, b, hb, opening, hopening, hcloses⟩ := h.explicit horigin
    exact ⟨⟨l, by rw [first_shift, hat, hl], hnew⟩, b, hb, _,
      Nat.add_lt_add_right hopening _, hcloses.shift passed⟩
  · obtain ⟨⟨b, hb, hcloses⟩, mark, hmark, ⟨l, hl, hequals⟩, hlines⟩ := h.implicit horigin
    refine ⟨⟨b, hb, hcloses.shift passed⟩, mark + passed.length, Nat.add_lt_add_right hmark _,
      ⟨l, by rw [hat, hl], hequals⟩, fun k l hafter hbefore hl => ?_⟩
    obtain ⟨i, rfl⟩ := hback (Nat.le_of_lt hafter)
    rw [hat] at hl
    exact hlines i l (Nat.lt_of_add_lt_add_right hafter) (Nat.lt_of_add_lt_add_right hbefore) hl
  · obtain ⟨i, rfl⟩ := hback hfirst
    rw [hat] at hl
    exact h.sound hwritten hresolved i l (Nat.le_of_add_le_add_right hfirst)
      (Nat.le_of_add_le_add_right hlast) hl

theorem markAttribute (h : s.IsWhole isNew pairs ls) (sections : List (Nat × Nat)) :
    (s.markAttribute sections).IsWhole isNew pairs ls := by
  unfold Site.markAttribute
  split
  · exact ⟨h.explicit, h.implicit, h.sound⟩
  · exact h

end Site.IsWhole

/-- The sites of a file are whole if each is whole in the row from its own place on. -/
theorem isWhole_of_mem_collected {recognise : List Lexeme → List Lexeme → List Site}
    {isNew : Lexeme → Bool} {pairs : List BracketPair} {sections : List (Nat × Nat)}
    {ls : List Lexeme} {s : Site}
    (hwhole : ∀ before here, ∀ s ∈ recognise before here, s.IsWhole isNew pairs here)
    (h : s ∈ ((atEachPlace (fun before here =>
      (recognise before here).map fun s => s.shift before.length) [] ls).map
        (Site.markAttribute sections)).mergeSort Site.comesBefore) :
    s.IsWhole isNew pairs ls := by
  obtain ⟨passed, here, rfl, found, hfound, rfl⟩ := exists_found_of_mem_collected h
  exact ((hwhole _ _ found hfound).shift passed).markAttribute sections

end ZeroAlloc
