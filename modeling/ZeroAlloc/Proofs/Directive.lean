import ZeroAlloc.Proofs.CSharp.Grammar
set_option autoImplicit false

/-! # Directives

An import directive names a namespace by words with points between them, and may give it another
name. Both languages read the words and points as one text (`DottedName.joined_row`). Directives are
found at their places in a file, and nothing is found at the places between them
(`atEachPlace_append_plain`). -/

namespace ZeroAlloc

/-! ## Lexemes -/

/-- The word with a text. -/
def Lexeme.word (w : String) : Lexeme := ⟨.ident, w⟩

@[simp] theorem Lexeme.isWord_word (w v : String) : (word w).isWord v = (w == v) := rfl

@[simp] theorem Lexeme.isIdent_word (w : String) : (word w).isIdent = true := rfl

theorem Lexeme.isPunct_of_isIdent {l : Lexeme} (h : l.isIdent = true) (p : String) :
    l.isPunct p = false :=
  have hstart : startsWithIdent [l] = true := h
  startsWithPunct_eq_false_of_startsWithIdent hstart p

@[simp] theorem Lexeme.isPunct_word (w p : String) : (word w).isPunct p = false :=
  isPunct_of_isIdent rfl p

theorem Lexeme.eq_punct {l : Lexeme} {p : String} (h : l.isPunct p = true) : l = punct p := by
  obtain ⟨kind, text⟩ := l
  simp only [isPunct, Bool.and_eq_true, decide_eq_true_eq] at h
  rw [h.1, h.2]
  rfl

theorem Lexeme.eq_word {l : Lexeme} {w : String} (h : l.isWord w = true) : l = word w := by
  obtain ⟨kind, text⟩ := l
  simp only [isWord, Bool.and_eq_true, decide_eq_true_eq] at h
  rw [h.1, h.2]
  rfl

/-! ## Places -/

section Places

variable {α : Type} {recognise : List Lexeme → List Lexeme → List α}

/-- A row at whose places nothing is recognised is passed over. -/
theorem atEachPlace_append_plain {ls : List Lexeme}
    (h : ∀ l ∈ ls, ∀ before behind, recognise before (l :: behind) = [])
    (before rest : List Lexeme) :
    atEachPlace recognise before (ls ++ rest) =
      atEachPlace recognise (ls.reverse ++ before) rest := by
  induction ls generalizing before with
  | nil => rfl
  | cons l ls ih =>
    rw [List.cons_append, atEachPlace, h l List.mem_cons_self, List.nil_append,
      ih fun m hm => h m (List.mem_cons_of_mem l hm)]
    simp

theorem atEachPlace_plain {ls : List Lexeme}
    (h : ∀ l ∈ ls, ∀ before behind, recognise before (l :: behind) = []) (before : List Lexeme) :
    atEachPlace recognise before ls = [] := by
  have hpassed := atEachPlace_append_plain h before []
  rw [List.append_nil] at hpassed
  exact hpassed

/-- Rows in which the same is recognised wherever they stand are read one after another. -/
theorem atEachPlace_flatMap {δ : Type} {row : δ → List Lexeme} {found : δ → List α}
    {ds : List δ} (h : ∀ d ∈ ds, ∀ before rest, atEachPlace recognise before (row d ++ rest) =
      found d ++ atEachPlace recognise ((row d).reverse ++ before) rest)
    (before rest : List Lexeme) :
    atEachPlace recognise before (ds.flatMap row ++ rest) =
      ds.flatMap found ++ atEachPlace recognise ((ds.flatMap row).reverse ++ before) rest := by
  induction ds generalizing before with
  | nil => rfl
  | cons d ds ih =>
    rw [List.flatMap_cons, List.append_assoc, h d List.mem_cons_self,
      ih fun e he => h e (List.mem_cons_of_mem d he), List.flatMap_cons, List.append_assoc,
      List.reverse_append, List.append_assoc]

theorem atEachPlace_eq_nil {before ls : List Lexeme}
    (h : ∀ passed here, ls = passed ++ here → recognise (passed.reverse ++ before) here = []) :
    atEachPlace recognise before ls = [] := by
  rw [List.eq_nil_iff_forall_not_mem]
  intro x hx
  obtain ⟨passed, here, hrow, hfound⟩ := exists_place_of_mem_atEachPlace hx
  rw [h passed here hrow] at hfound
  cases hfound

end Places

/-! ## Dotted names -/

theorem joined_append (ls more : List Lexeme) : joined (ls ++ more) = joined ls ++ joined more := by
  simp [joined]

/-- Words of a kind with points between them. -/
structure DottedName (isPart : Lexeme → Bool) where
  first : Lexeme
  more : List Lexeme
  isPart_of_mem : ∀ l ∈ first :: more, isPart l = true

namespace DottedName

variable {isPart : Lexeme → Bool} (n : DottedName isPart)

/-- The lexemes of the name. -/
def row : List Lexeme :=
  n.first :: n.more.flatMap fun l => [.punct ".", l]

/-- The text of the name. -/
def text : String :=
  n.first.text ++ String.join (n.more.map fun l => "." ++ l.text)

theorem joined_row : joined n.row = n.text := by
  have hmore : joined (n.more.flatMap fun l => [.punct ".", l]) =
      String.join (n.more.map fun l => "." ++ l.text) := by
    induction n.more with
    | nil => rfl
    | cons l more ih =>
      rw [List.flatMap_cons, joined_append, ih]
      simp [joined, Lexeme.punct]
  rw [row, text, ← hmore]
  simp [joined]

/-- The lexemes of a name are its words and points. -/
theorem mem_row {l : Lexeme} (h : l ∈ n.row) : isPart l = true ∨ l = .punct "." := by
  rcases List.mem_cons.1 h with rfl | h
  · exact .inl (n.isPart_of_mem _ List.mem_cons_self)
  · obtain ⟨word, hword, hl⟩ := List.mem_flatMap.1 h
    rcases List.mem_cons.1 hl with rfl | hl
    · exact .inr rfl
    · rw [List.mem_singleton.1 hl]
      exact .inl (n.isPart_of_mem _ (List.mem_cons_of_mem _ hword))

/-- A character that is no point and stands in no word stands nowhere in the text. -/
theorem not_mem_text {c : Char} (hpoint : c ≠ '.')
    (h : ∀ l ∈ n.first :: n.more, c ∉ l.text.toList) : c ∉ n.text.toList := by
  have hmore {more : List Lexeme} (hwords : ∀ l ∈ more, c ∉ l.text.toList) :
      c ∉ (String.join (more.map fun l => "." ++ l.text)).toList := by
    induction more with
    | nil => simp
    | cons l more ih =>
      have hl := hwords l List.mem_cons_self
      have hmore := ih fun m hm => hwords m (List.mem_cons_of_mem _ hm)
      simpa [hpoint, hl] using hmore
  rw [text, String.toList_append, List.mem_append, not_or]
  exact ⟨h _ List.mem_cons_self, hmore fun l hl => h l (List.mem_cons_of_mem _ hl)⟩

/-- Up to the first point, the text is the first word. -/
theorem takeWhile_text (h : '.' ∉ n.first.text.toList) :
    n.text.toList.takeWhile (· ≠ '.') = n.first.text.toList := by
  have hfirst : ∀ c ∈ n.first.text.toList, decide (c ≠ '.') = true := by
    intro c hc
    rw [decide_eq_true_eq]
    rintro rfl
    exact h hc
  have hmore :
      (String.join (n.more.map fun l => "." ++ l.text)).toList.takeWhile (· ≠ '.') = [] := by
    cases n.more with
    | nil => rfl
    | cons l more => simp
  rw [text, String.toList_append, List.takeWhile_append_of_pos hfirst, hmore, List.append_nil]

/-- A name is not taken for one that is given. -/
theorem splitAlias_row {tail : List Lexeme} (htail : startsWithPunct "=" tail = false) :
    splitAlias (n.row ++ tail) = (none, n.row ++ tail) := by
  obtain ⟨first, more, hpart⟩ := n
  cases more with
  | nil =>
    cases tail with
    | nil => rfl
    | cons mark tail =>
      have hmark : mark.isPunct "=" = false := htail
      simp [row, splitAlias, hmark]
  | cons l more => simp [row, splitAlias]

end DottedName

theorem splitAlias_alias {name : Lexeme} (h : name.isIdent = true) (rest : List Lexeme) :
    splitAlias (name :: .punct "=" :: rest) = (some name.text, rest) := by
  simp [splitAlias, h]

end ZeroAlloc
