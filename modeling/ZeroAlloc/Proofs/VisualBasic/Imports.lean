import ZeroAlloc.Proofs.Declaration
import ZeroAlloc.Proofs.Directive
import ZeroAlloc.Proofs.Text.Case
import ZeroAlloc.Proofs.VisualBasic.Behind
import ZeroAlloc.Proofs.VisualBasic.Spelling
set_option autoImplicit false

/-! # Import statements of Visual Basic

A statement at the start of a file imports what its clauses name, without the mark `Global.` and
with the names that they give; an XML namespace imports nothing. Clauses that a line break separates
from the comma before them are missed, with all behind them (`imports_statements`). -/

namespace ZeroAlloc.VisualBasic

/-! ## Clauses -/

/-- Whether the lexeme can be a word of a name: an identifier, and not the word `Imports`. -/
def isNamespaceWord (l : Lexeme) : Bool :=
  l.isIdent && !isKeyword l "imports" && !l.text.toList.contains '.'

/-- A clause that names a namespace. -/
structure NamespaceClause where
  /-- The name that the clause gives to the namespace. -/
  alias? : Option Lexeme
  isAlias : ∀ l ∈ alias?, isNamespaceWord l = true
  /-- The word `Global` in front of the name. -/
  root? : Option Lexeme
  isRoot : ∀ l ∈ root?, isKeyword l "global" = true
  name : DottedName isNamespaceWord
  isPlain : root? = none → isKeyword name.first "global" = false

namespace NamespaceClause

variable (c : NamespaceClause)

/-- The lexemes of the name, with its mark. -/
def path : List Lexeme :=
  (c.root?.toList.flatMap fun l => [l, .punct "."]) ++ c.name.row

/-- The lexemes of the clause. -/
def row : List Lexeme :=
  (c.alias?.toList.flatMap fun l => [l, .punct "="]) ++ c.path

end NamespaceClause

/-- A clause of an import statement. -/
inductive ImportClause where
  | named (c : NamespaceClause)
  /-- An XML namespace, in angle brackets. -/
  | xml (contents : List Lexeme)
      (isXml : ∀ l ∈ contents, l.isPunct ">" = false ∧ isKeyword l "imports" = false)

namespace ImportClause

/-- The lexemes of the clause. -/
def row : ImportClause → List Lexeme
  | named c => c.row
  | xml contents _ => .punct "<" :: (contents ++ [.punct ">"])

/-- What the clause imports if it starts at an index. -/
def import? (index : Nat) : ImportClause → Option Import
  | named c =>
    some {
      path := c.name.text
      aliasName := c.alias?.map Lexeme.text
      first := index
      last := index + c.row.length - 1 }
  | xml .. => none

end ImportClause

/-! ## Statements -/

/-- A further clause of a statement, which may start on a new line. -/
structure FurtherClause where
  /-- The line breaks between the comma and the clause. -/
  lines : List Lexeme
  isLine : ∀ l ∈ lines, l.isNewline = true
  clause : ImportClause

namespace FurtherClause

/-- The lexemes of the clause, with its comma. -/
def row (c : FurtherClause) : List Lexeme :=
  .punct "," :: (c.lines ++ c.clause.row)

/-- What clauses import that start at an index, one after another. -/
def importsFrom (index : Nat) : List FurtherClause → List Import
  | [] => []
  | c :: cs =>
    (c.clause.import? (index + c.lines.length + 1)).toList ++
      importsFrom (index + c.row.length) cs

end FurtherClause

/-- An import statement. -/
structure ImportStatement where
  /-- The line breaks and colons in front of the statement. -/
  breaks : List Lexeme
  isBreak : ∀ l ∈ breaks, l.isNewline = true ∨ l.isPunct ":" = true
  /-- The word `Imports`. -/
  word : Lexeme
  isImports : isKeyword word "imports" = true
  first : ImportClause
  more : List FurtherClause

namespace ImportStatement

/-- The lexemes of the statement. -/
def row (d : ImportStatement) : List Lexeme :=
  d.breaks ++ d.word :: (d.first.row ++ d.more.flatMap FurtherClause.row)

/-- The further clauses in front of the first one on a new line. -/
def onFirstLine (d : ImportStatement) : List FurtherClause :=
  d.more.takeWhile (·.lines.isEmpty)

/-- What statements import that start at an index, one after another, if of each one the first
clause and the given ones count. -/
def importsAt (clauses : ImportStatement → List FurtherClause) (index : Nat) :
    List ImportStatement → List Import
  | [] => []
  | d :: ds =>
    (d.first.import? (index + d.breaks.length + 1)).toList ++
      FurtherClause.importsFrom (index + d.breaks.length + 1 + d.first.row.length) (clauses d) ++
        importsAt clauses (index + d.row.length) ds

end ImportStatement

/-! ## Reading a clause -/

theorem isNamespaceWord_iff (l : Lexeme) :
    isNamespaceWord l = true ↔
      l.isIdent = true ∧ isKeyword l "imports" = false ∧ '.' ∉ l.text.toList := by
  simp [isNamespaceWord, and_assoc]

theorem withoutGlobal_root {l : Lexeme} (h : isKeyword l "global" = true) (name : String) :
    withoutGlobal (l.text ++ "." ++ name) = name := by
  have hword : Text.lowerAscii l.text = "global" := by
    simpa using (Bool.and_eq_true_iff.1 h).2
  have hlength : l.text.toList.length = 6 := by
    simpa using congrArg (·.toList.length) hword
  have hmark : (l.text ++ "." ++ name).toList = (l.text ++ ".").toList ++ name.toList := by simp
  have hwidth : "global.".length = (l.text ++ ".").toList.length := by
    simp only [String.toList_append, List.length_append, hlength]
    rfl
  rw [withoutGlobal]
  simp only [hmark, hwidth, List.take_left', List.drop_left', String.ofList_toList]
  rw [Text.lowerAscii_append, hword, if_pos (by decide)]

theorem withoutGlobal_eq_self {name : String}
    (h : (name.toList.takeWhile (· ≠ '.')).map Char.toLower ≠ "global".toList) :
    withoutGlobal name = name := by
  rw [withoutGlobal, if_neg]
  intro hmark
  -- the text would start with a word that reads `global`, and a point behind it
  have htaken :
      (name.toList.take "global.".length).map Char.toLower = "global".toList ++ ['.'] := by
    simpa using congrArg String.toList (beq_iff_eq.1 hmark)
  obtain ⟨word, point, htake, hword, hpoint⟩ := List.map_eq_append_iff.1 htaken
  obtain ⟨c, rfl, hc⟩ := List.map_eq_singleton_iff.1 hpoint
  obtain rfl : c = '.' := (Text.toLower_eq_iff (by decide)).1 hc
  have hplain : ∀ d ∈ word, decide (d ≠ '.') = true := by
    intro d hd
    rw [decide_eq_true_eq]
    rintro rfl
    have hmem : ('.' : Char).toLower ∈ "global".toList := hword ▸ List.mem_map_of_mem hd
    exact absurd hmem (by decide)
  have hname : name.toList = word ++ '.' :: name.toList.drop "global.".length := by
    rw [← List.singleton_append, ← List.append_assoc, ← htake, List.take_append_drop]
  rw [hname, List.takeWhile_append_of_pos hplain, List.takeWhile_cons_of_neg (by decide),
    List.append_nil] at h
  exact h hword

namespace NamespaceClause

variable (c : NamespaceClause)

theorem isNamePart_of_mem_path {l : Lexeme} (h : l ∈ c.path) : isNamePart l = true := by
  rcases List.mem_append.1 h with h | h
  · obtain ⟨root, hroot, hl⟩ := List.mem_flatMap.1 h
    have hident := (Bool.and_eq_true_iff.1 (c.isRoot root (Option.mem_toList.1 hroot))).1
    simp only [List.mem_cons, List.not_mem_nil, or_false] at hl
    rcases hl with rfl | rfl
    · simp [isNamePart, hident]
    · rfl
  · rcases c.name.mem_row h with hword | rfl
    · simp [isNamePart, ((isNamespaceWord_iff l).1 hword).1]
    · rfl

theorem path_ne_nil : c.path ≠ [] := by
  simp [path, DottedName.row]

/-- The mark is taken off the name, and a name without it is left as it is. -/
theorem withoutGlobal_path : withoutGlobal (joined c.path) = c.name.text := by
  rw [path, joined_append, c.name.joined_row]
  cases hroot : c.root? with
  | some root =>
    have hword : joined (([root] : List Lexeme).flatMap fun l => [l, .punct "."]) =
        root.text ++ "." := by
      simp [joined, Lexeme.punct]
    rw [Option.toList_some, hword]
    exact withoutGlobal_root (c.isRoot root hroot) _
  | none =>
    obtain ⟨hident, -, hpoint⟩ :=
      (isNamespaceWord_iff _).1 (c.name.isPart_of_mem _ List.mem_cons_self)
    have hplain := c.isPlain hroot
    rw [isKeyword, hident, Bool.true_and, beq_eq_false_iff_ne] at hplain
    have htext : joined ((none : Option Lexeme).toList.flatMap fun l => [l, .punct "."]) ++
        c.name.text = c.name.text := by
      simp [joined]
    rw [htext]
    refine withoutGlobal_eq_self fun hglobal => hplain ?_
    rw [c.name.takeWhile_text hpoint] at hglobal
    rw [← String.toList_inj, Text.toList_lowerAscii, hglobal]

/-- The row cannot go on with the name that ends in front of it. -/
structure Stops (ls : List Lexeme) : Prop where
  part : startsWithIdent ls = false ∧ startsWithPunct "." ls = false
  arguments : startsTypeArguments ls = false
  sign : startsWithPunct "=" ls = false

variable {rest : List Lexeme}

theorem startsWithIdent_row (rest : List Lexeme) : startsWithIdent (c.row ++ rest) = true := by
  unfold row path
  cases halias : c.alias? with
  | some name => exact ((isNamespaceWord_iff name).1 (c.isAlias name halias)).1
  | none =>
    cases hroot : c.root? with
    | some root => exact (Bool.and_eq_true_iff.1 (c.isRoot root hroot)).1
    | none => exact ((isNamespaceWord_iff _).1 (c.name.isPart_of_mem _ List.mem_cons_self)).1

theorem splitAlias_row (h : Stops rest) :
    splitAlias (c.row ++ rest) = (c.alias?.map Lexeme.text, c.path ++ rest) := by
  unfold row
  cases halias : c.alias? with
  | some name => exact splitAlias_alias ((isNamespaceWord_iff name).1 (c.isAlias name halias)).1 _
  | none =>
    unfold path
    cases c.root? with
    | some root => simp [splitAlias]
    | none => exact c.name.splitAlias_row h.sign

theorem takeWhile_path (h : Stops rest) :
    (c.path ++ rest).takeWhile isNamePart = c.path ∧
      (c.path ++ rest).dropWhile isNamePart = rest := by
  rw [List.takeWhile_append_of_pos fun l => c.isNamePart_of_mem_path,
    List.dropWhile_append_of_pos fun l => c.isNamePart_of_mem_path]
  cases rest with
  | nil => exact ⟨List.append_nil _, rfl⟩
  | cons l rest =>
    have hl : isNamePart l = false := Bool.or_eq_false_iff.2 h.part
    rw [List.takeWhile_cons_of_neg (by simp [hl]), List.dropWhile_cons_of_neg (by simp [hl])]
    exact ⟨List.append_nil _, rfl⟩

end NamespaceClause

namespace ImportClause

/-- A clause is read in front of a row with which it does not go on. -/
theorem importClause?_row (c : ImportClause) (index : Nat) {rest : List Lexeme}
    (h : NamespaceClause.Stops rest) :
    importClause? index (c.row ++ rest) = some (c.import? index, rest) := by
  cases c with
  | named c =>
    have hstart := startsWithPunct_eq_false_of_startsWithIdent (c.startsWithIdent_row rest) "<"
    obtain ⟨htake, hdrop⟩ := c.takeWhile_path h
    have harguments : typeArguments? rest = some ([], rest) :=
      if_neg (Bool.eq_false_iff.1 h.arguments)
    rw [row, importClause?, if_neg (Bool.eq_false_iff.1 hstart)]
    simp only [c.splitAlias_row h, htake, hdrop, harguments, Option.map_some, List.append_nil,
      c.withoutGlobal_path, List.length_append, Nat.add_sub_cancel]
    rw [if_neg (by simpa using c.path_ne_nil)]
    rfl
  | xml contents hxml =>
    have hopening : startsWithPunct "<" ((xml contents hxml).row ++ rest) = true := rfl
    have hdrop : ((xml contents hxml).row ++ rest).dropWhile (fun l => !l.isPunct ">") =
        .punct ">" :: rest := by
      rw [row, List.cons_append, List.append_assoc, List.dropWhile_cons_of_pos (by decide),
        List.dropWhile_append_of_pos fun l hl => by simp [(hxml l hl).1]]
      rfl
    rw [importClause?, if_pos hopening, hdrop]
    rfl

end ImportClause

/-! ## Reading a statement -/

/-- The row cannot go on with the statement that ends in front of it. -/
def EndsStatement (ls : List Lexeme) : Prop :=
  ∀ l ∈ ls.head?, l.isNewline = true ∨ l.isPunct ":" = true

instance (ls : List Lexeme) : Decidable (EndsStatement ls) :=
  inferInstanceAs (Decidable (∀ l ∈ ls.head?, l.isNewline = true ∨ l.isPunct ":" = true))

theorem EndsStatement.startsWithPunct_eq_false {ls : List Lexeme} (h : EndsStatement ls)
    {p : String} (hp : p ≠ ":") : startsWithPunct p ls = false := by
  cases ls with
  | nil => rfl
  | cons l ls =>
    rcases h l rfl with hline | hcolon
    · have hkind : l.kind = .newline := of_decide_eq_true hline
      simp [startsWithPunct_cons, Lexeme.isPunct, hkind]
    · exact BracketPair.isPunct_eq_false hp hcolon

theorem EndsStatement.stops {ls : List Lexeme} (h : EndsStatement ls) :
    NamespaceClause.Stops ls := by
  refine ⟨⟨?_, h.startsWithPunct_eq_false (by decide)⟩,
    startsTypeArguments_of_not_paren (h.startsWithPunct_eq_false (by decide)),
    h.startsWithPunct_eq_false (by decide)⟩
  cases ls with
  | nil => rfl
  | cons l ls =>
    rcases h l rfl with hline | hcolon
    · have hkind : l.kind = .newline := of_decide_eq_true hline
      simp [startsWithIdent, Lexeme.isIdent, hkind]
    · have hstart : startsWithPunct ":" (l :: ls) = true := hcolon
      exact startsWithIdent_eq_false hstart

theorem stops_of_comma (ls : List Lexeme) : NamespaceClause.Stops (.punct "," :: ls) :=
  ⟨⟨rfl, rfl⟩, rfl, rfl⟩

/-- No clause is read at a line break. -/
theorem importClauses_newline {l : Lexeme} (h : l.isNewline = true) (index : Nat)
    (ls : List Lexeme) : importClauses index (l :: ls) = [] := by
  obtain ⟨kind, text⟩ := l
  obtain rfl : kind = .newline := of_decide_eq_true h
  have hclause : importClause? index (⟨.newline, text⟩ :: ls) =
      some (none, ⟨.newline, text⟩ :: ls) := by
    have halias : splitAlias (⟨.newline, text⟩ :: ls) = (none, ⟨.newline, text⟩ :: ls) := by
      cases ls <;> rfl
    rw [importClause?, halias]
    rfl
  rw [importClauses_eq, hclause]
  rfl

/-- The clauses of a statement are read up to the first one on a new line. -/
theorem importClauses_clauses (first : ImportClause) (more : List FurtherClause) (index : Nat)
    {rest : List Lexeme} (h : EndsStatement rest) :
    importClauses index (first.row ++ (more.flatMap FurtherClause.row ++ rest)) =
      (first.import? index).toList ++ FurtherClause.importsFrom (index + first.row.length)
        (more.takeWhile (·.lines.isEmpty)) := by
  induction more generalizing first index with
  | nil =>
    have hcomma : startsWithPunct "," rest = false := h.startsWithPunct_eq_false (by decide)
    rw [List.flatMap_nil, List.nil_append, importClauses_eq,
      first.importClause?_row index h.stops]
    dsimp only
    rw [hcomma]
    rfl
  | cons c more ih =>
    obtain ⟨lines, hlines, clause⟩ := c
    have hread := first.importClause?_row index
      (stops_of_comma (lines ++ clause.row ++ (more.flatMap FurtherClause.row ++ rest)))
    have hrow : (FurtherClause.mk lines hlines clause :: more).flatMap FurtherClause.row ++ rest =
        .punct "," :: (lines ++ clause.row ++ (more.flatMap FurtherClause.row ++ rest)) := by
      simp [FurtherClause.row]
    have hwidth (tail : List Lexeme) :
        (first.row ++ Lexeme.punct "," :: tail).length - tail.length = first.row.length + 1 := by
      simp only [List.length_append, List.length_cons]
      omega
    rw [hrow, importClauses_eq, hread]
    simp only [startsWithPunct_cons, Lexeme.isPunct_punct, beq_self_eq_true, if_true,
      List.tail_cons, hwidth]
    cases lines with
    | nil =>
      have hnext : index + first.row.length + (FurtherClause.mk [] hlines clause).row.length =
          index + (first.row.length + 1) + clause.row.length := by
        simp only [FurtherClause.row, List.nil_append, List.length_cons]
        omega
      rw [List.takeWhile_cons_of_pos rfl, FurtherClause.importsFrom, hnext, List.nil_append, ih]
      rfl
    | cons l lines =>
      -- the reader looks for the clause at the line break, and leaves the statement there
      rw [List.takeWhile_cons_of_neg (by simp), List.cons_append, List.cons_append,
        importClauses_newline (hlines l List.mem_cons_self)]
      rfl

/-! ## Reading a file -/

theorem importsAt_eq_nil {l : Lexeme} (h : isKeyword l "imports" = false)
    (before behind : List Lexeme) : importsAt before (l :: behind) = [] := by
  have hword : startsWithKeyword "imports" (l :: behind) = false := h
  rw [importsAt, hword]
  rfl

theorem isKeyword_eq_false {l : Lexeme} (h : l.isIdent = false) (word : String) :
    isKeyword l word = false := by
  rw [isKeyword, h, Bool.false_and]

theorem isKeyword_of_isNewline {l : Lexeme} (h : l.isNewline = true) (word : String) :
    isKeyword l word = false := by
  have hkind : l.kind = .newline := of_decide_eq_true h
  exact isKeyword_eq_false (by simp [Lexeme.isIdent, hkind]) word

theorem isKeyword_of_isPunct {l : Lexeme} {p : String} (h : l.isPunct p = true) (word : String) :
    isKeyword l word = false := by
  rw [Lexeme.eq_punct h]
  rfl

/-- A word that reads one keyword reads no other. -/
theorem isKeyword_of_ne {l : Lexeme} {word other : String} (h : isKeyword l word = true)
    (hne : word ≠ other) : isKeyword l other = false := by
  simp only [isKeyword, Bool.and_eq_true, beq_iff_eq] at h
  simp [isKeyword, h.2, hne]

theorem NamespaceClause.isKeyword_of_mem_row (c : NamespaceClause) {l : Lexeme}
    (h : l ∈ c.row) : isKeyword l "imports" = false := by
  have hword {m : Lexeme} (hm : isNamespaceWord m = true) : isKeyword m "imports" = false :=
    ((isNamespaceWord_iff m).1 hm).2.1
  rcases List.mem_append.1 h with h | h
  · obtain ⟨name, hname, hl⟩ := List.mem_flatMap.1 h
    simp only [List.mem_cons, List.not_mem_nil, or_false] at hl
    rcases hl with rfl | rfl
    · exact hword (c.isAlias _ (Option.mem_toList.1 hname))
    · rfl
  · rcases List.mem_append.1 h with h | h
    · obtain ⟨root, hroot, hl⟩ := List.mem_flatMap.1 h
      simp only [List.mem_cons, List.not_mem_nil, or_false] at hl
      rcases hl with rfl | rfl
      · exact isKeyword_of_ne (c.isRoot _ (Option.mem_toList.1 hroot)) (by decide)
      · rfl
    · rcases c.name.mem_row h with hl | rfl
      · exact hword hl
      · rfl

theorem ImportClause.isKeyword_of_mem_row (c : ImportClause) {l : Lexeme} (h : l ∈ c.row) :
    isKeyword l "imports" = false := by
  cases c with
  | named c => exact c.isKeyword_of_mem_row h
  | xml contents hxml =>
    rcases List.mem_cons.1 h with rfl | h
    · rfl
    · rcases List.mem_append.1 h with h | h
      · exact (hxml l h).2
      · rw [List.mem_singleton.1 h]
        rfl

theorem FurtherClause.isKeyword_of_mem_row (c : FurtherClause) {l : Lexeme} (h : l ∈ c.row) :
    isKeyword l "imports" = false := by
  rcases List.mem_cons.1 h with rfl | h
  · rfl
  · rcases List.mem_append.1 h with h | h
    · exact isKeyword_of_isNewline (c.isLine l h) _
    · exact c.clause.isKeyword_of_mem_row h

namespace ImportStatement

variable (d : ImportStatement)

/-- A statement that starts where one can is read, and the file goes on behind it. -/
theorem atEachPlace_row {before : List Lexeme}
    (hstart : startsStatementAfter (d.breaks.reverse ++ before) = true) {rest : List Lexeme}
    (hrest : EndsStatement rest) :
    atEachPlace VisualBasic.importsAt before (d.row ++ rest) =
      (d.first.import? (before.length + d.breaks.length + 1)).toList ++
        FurtherClause.importsFrom (before.length + d.breaks.length + 1 + d.first.row.length)
          d.onFirstLine ++
          atEachPlace VisualBasic.importsAt (d.row.reverse ++ before) rest := by
  -- the clauses are read at the word `Imports`, and nothing at the other lexemes
  have hbreaks : ∀ l ∈ d.breaks, ∀ before behind,
      VisualBasic.importsAt before (l :: behind) = [] := by
    intro l hl before behind
    refine importsAt_eq_nil ?_ before behind
    rcases d.isBreak l hl with hline | hcolon
    · exact isKeyword_of_isNewline hline _
    · exact isKeyword_of_isPunct hcolon _
  have hclauses : ∀ l ∈ d.first.row ++ d.more.flatMap FurtherClause.row, ∀ before behind,
      VisualBasic.importsAt before (l :: behind) = [] := by
    intro l hl before behind
    refine importsAt_eq_nil ?_ before behind
    rcases List.mem_append.1 hl with hl | hl
    · exact d.first.isKeyword_of_mem_row hl
    · obtain ⟨c, -, hl⟩ := List.mem_flatMap.1 hl
      exact c.isKeyword_of_mem_row hl
  have hrow : d.row ++ rest = d.breaks ++ (d.word ::
      ((d.first.row ++ d.more.flatMap FurtherClause.row) ++ rest)) := by
    simp [row]
  have hword : startsWithKeyword "imports"
      (d.word :: ((d.first.row ++ d.more.flatMap FurtherClause.row) ++ rest)) = true :=
    d.isImports
  have hplace : (d.breaks.reverse ++ before).length = before.length + d.breaks.length := by
    rw [List.length_append, List.length_reverse, Nat.add_comm]
  rw [hrow, atEachPlace_append_plain hbreaks, atEachPlace, VisualBasic.importsAt, hword, hstart,
    Bool.true_and, if_pos rfl, List.tail_cons, List.append_assoc d.first.row, importClauses_clauses,
    hplace, ← List.append_assoc d.first.row, atEachPlace_append_plain hclauses]
  · simp [row, onFirstLine]
  · exact hrest

end ImportStatement

/-- A line break or a colon stands in front of each statement. -/
def Separated (ds : List ImportStatement) : Prop :=
  ∀ d ∈ ds, d.breaks ≠ []

instance (ds : List ImportStatement) : Decidable (Separated ds) :=
  inferInstanceAs (Decidable (∀ d ∈ ds, d.breaks ≠ []))

theorem startsStatementAfter_breaks (d : ImportStatement) (h : d.breaks ≠ [])
    (before : List Lexeme) : startsStatementAfter (d.breaks.reverse ++ before) = true := by
  obtain ⟨l, breaks, hbreaks⟩ := List.exists_cons_of_ne_nil (l := d.breaks.reverse) (by simpa)
  have hl := d.isBreak l (List.mem_reverse.1 (hbreaks ▸ List.mem_cons_self))
  rw [hbreaks, List.cons_append, startsStatementAfter]
  simpa using hl

theorem endsStatement_statements {ds : List ImportStatement} (h : Separated ds)
    {rest : List Lexeme} (hrest : EndsStatement rest) :
    EndsStatement (ds.flatMap ImportStatement.row ++ rest) := by
  cases ds with
  | nil => exact hrest
  | cons d ds =>
    obtain ⟨l, breaks, hbreaks⟩ := List.exists_cons_of_ne_nil (h d List.mem_cons_self)
    have hl := d.isBreak l (hbreaks ▸ List.mem_cons_self)
    rw [List.flatMap_cons, ImportStatement.row, hbreaks]
    intro m hm
    obtain rfl : l = m := Option.some.inj hm
    exact hl

/-- Statements are read one after another. -/
theorem exists_atEachPlace_statements (ds : List ImportStatement) {before : List Lexeme}
    (hstart : ∀ d ∈ ds.head?, startsStatementAfter (d.breaks.reverse ++ before) = true)
    (hseparated : Separated ds.tail) {rest : List Lexeme} (hrest : EndsStatement rest) :
    ∃ before', atEachPlace importsAt before (ds.flatMap ImportStatement.row ++ rest) =
      ImportStatement.importsAt ImportStatement.onFirstLine before.length ds ++
        atEachPlace importsAt before' rest := by
  induction ds generalizing before with
  | nil => exact ⟨before, rfl⟩
  | cons d ds ih =>
    have hseparated : Separated ds := hseparated
    have hnext : ∀ next ∈ ds.head?,
        startsStatementAfter (next.breaks.reverse ++ (d.row.reverse ++ before)) = true :=
      fun next hnext => startsStatementAfter_breaks next
        (hseparated next (List.mem_of_mem_head? hnext)) _
    obtain ⟨before', hmore⟩ := ih hnext fun e he => hseparated e (List.mem_of_mem_tail he)
    have hplace : (d.row.reverse ++ before).length = before.length + d.row.length := by
      rw [List.length_append, List.length_reverse, Nat.add_comm]
    refine ⟨before', ?_⟩
    rw [List.flatMap_cons, List.append_assoc,
      d.atEachPlace_row (hstart d rfl) (endsStatement_statements hseparated hrest), hmore, hplace,
      ImportStatement.importsAt, List.append_assoc _ _ (atEachPlace importsAt before' rest)]

/-- No statement imports anything. -/
def ImportsNothing (ls : List Lexeme) : Prop :=
  ∀ passed l behind, ls = passed ++ l :: behind → isKeyword l "imports" = true →
    startsStatementAfter passed.reverse = false

theorem importsNothing_of_forall {ls : List Lexeme}
    (h : ∀ l ∈ ls, isKeyword l "imports" = false) : ImportsNothing ls := by
  intro passed l behind hrow hword
  rw [h l (hrow ▸ List.mem_append_right passed List.mem_cons_self)] at hword
  cases hword

theorem importsAt_eq_nil_of_importsNothing {ls : List Lexeme} (h : ImportsNothing ls)
    (before : List Lexeme) : atEachPlace importsAt before ls = [] := by
  refine atEachPlace_eq_nil fun passed here hrow => ?_
  cases here with
  | nil => rfl
  | cons l here =>
    cases hword : isKeyword l "imports" with
    | false => exact importsAt_eq_nil hword _ _
    | true =>
      have hstart := h passed l here hrow hword
      cases hpassed : passed.reverse with
      | nil =>
        rw [hpassed] at hstart
        cases hstart
      | cons last front =>
        rw [hpassed] at hstart
        have hstart' : startsStatementAfter (last :: front ++ before) = false := hstart
        rw [importsAt, hstart', Bool.and_false]
        rfl

/-- The imports of a file that starts with import statements and goes on without any. -/
theorem imports_statements (ds : List ImportStatement) (hseparated : Separated ds.tail)
    {rest : List Lexeme} (hrest : EndsStatement rest) (hnothing : ImportsNothing rest) :
    imports (ds.flatMap ImportStatement.row ++ rest) =
      ImportStatement.importsAt ImportStatement.onFirstLine 0 ds := by
  have hstart : ∀ d ∈ ds.head?, startsStatementAfter (d.breaks.reverse ++ []) = true := by
    intro d _
    by_cases hbreaks : d.breaks = []
    · rw [hbreaks]
      rfl
    · exact startsStatementAfter_breaks d hbreaks []
  obtain ⟨before, himports⟩ := exists_atEachPlace_statements ds hstart hseparated hrest
  rw [importsAt_eq_nil_of_importsNothing hnothing, List.append_nil] at himports
  exact himports

end ZeroAlloc.VisualBasic
