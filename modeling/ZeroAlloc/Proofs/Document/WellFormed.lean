import ZeroAlloc.Document
import ZeroAlloc.Proofs.CSharp.Shape
import ZeroAlloc.Proofs.CSharp.Written
import ZeroAlloc.Proofs.Lexis.Tiling
import ZeroAlloc.Proofs.Text.Position
import ZeroAlloc.Proofs.VisualBasic.Shape
import ZeroAlloc.Proofs.VisualBasic.Written
set_option autoImplicit false

/-! # Sites in their documents

The span of a site is a piece of the source text, whatever the text is (`exists_siteText`). All that
a document says about its sites fits together (`wellFormed_read`): spans lie on the boundaries of
tokens, initializer lists lie in their sites, levels have dimensions, and the sites stand in the
order of their spans. -/

namespace ZeroAlloc

open Text (byteLength byteLength_append)

theorem Language.liesIn_of_mem_sites {language : Language} {ls : List Lexeme} {s : Site}
    (h : s ∈ language.sites ls) : s.LiesIn ls := by
  cases language with
  | csharp => exact CSharp.liesIn_of_mem_sites h
  | visualBasic => exact VisualBasic.liesIn_of_mem_sites h

theorem Language.isCutFrom_of_mem_sites {language : Language} {ls : List Lexeme} {s : Site}
    (h : s ∈ language.sites ls) : s.IsCutFrom ls ls := by
  cases language with
  | csharp => exact CSharp.isCutFrom_of_mem_sites h
  | visualBasic => exact VisualBasic.isCutFrom_of_mem_sites h

/-- Punctuation is spelled as it is asked for. -/
theorem Lexeme.text_of_isPunct {l : Lexeme} {p : String} (h : l.isPunct p = true) : l.text = p := by
  simp only [isPunct, Bool.and_eq_true, decide_eq_true_eq] at h
  exact h.2

namespace Document

/-- The text of a site in a document: what stands before it, its lexemes up to the last one, and
what stands behind it. -/
structure SiteText (doc : Document) (s : Site) where
  before : List Char
  inside : List Char
  last : List Char
  behind : List Char
  source : doc.source.toList = before ++ ((inside ++ last) ++ behind)
  start : (doc.siteSpan s).start = byteLength before
  stop : (doc.siteSpan s).stop = byteLength before + byteLength (inside ++ last)
  insertion : doc.insertionOffset s = byteLength (before ++ inside)
  closed : s.origin.isCompilerGenerated = true → last = [')']

/-- Every site of a document that was read from a source has a text there. -/
theorem exists_siteText {language : Language} {path source : String} {s : Site}
    (h : s ∈ (read language path source).sites) :
    Nonempty (SiteText (read language path source) s) := by
  have htiles := Lexis.tiles_tokenize language.rules source
  have hlies : s.LiesIn (lexemes (Lexis.tokenize language.rules source)) :=
    Language.liesIn_of_mem_sites h
  have hlast := hlies.last_lt_length
  rw [lexemes, List.length_map] at hlast
  have hfirst := Nat.lt_of_le_of_lt hlies.first_le_last hlast
  obtain ⟨before, inside, behind, hsource, hstart, hinside⟩ := htiles.exists_piece
    (List.getElem?_eq_getElem hfirst) (List.getElem?_eq_getElem hlast) hlies.first_le_last
  generalize hu : (Lexis.tokenize language.rules source)[s.last] = u at *
  have hlastStart : (read language path source).tokenStart s.last = u.start := by
    simp [tokenStart, read, hlast, hu]
  have hlastStop : (read language path source).tokenStop s.last = u.stop := by
    simp [tokenStop, read, hlast, hu]
  have hfirstStart : (read language path source).tokenStart s.first = byteLength before := by
    simp [tokenStart, read, hfirst, hstart]
  refine ⟨⟨before, inside, u.text.toList, behind, hsource, hfirstStart, ?_, ?_, ?_⟩⟩
  · change tokenStop _ _ = _
    rw [hlastStop, Token.stop_eq, hinside, hstart, byteLength_append]
    omega
  · rw [insertionOffset, hlastStart, hinside, hstart, byteLength_append]
    omega
  · intro hgenerated
    obtain ⟨close, hclose, hpunct⟩ := hlies.exists_close hgenerated
    obtain rfl : u.toLexeme = close := by simpa [lexemes, hlast, hu] using hclose
    rw [Lexeme.text_of_isPunct hpunct]
    rfl

end Document

/-! ## Sites of a row -/

theorem Language.isProper_of_mem_sites {language : Language} {ls : List Lexeme} {s : Site}
    (hls : ∀ l ∈ ls, l.text ≠ "") (h : s ∈ language.sites ls) : s.IsProper := by
  cases language with
  | csharp => exact CSharp.isProper_of_mem_sites hls h
  | visualBasic => exact VisualBasic.isProper_of_mem_sites hls h

theorem Language.pairwise_comesBefore_sites (language : Language) (ls : List Lexeme) :
    (language.sites ls).Pairwise fun s other => s.comesBefore other = true := by
  cases language with
  | csharp => exact Site.pairwise_mergeSort _
  | visualBasic => exact Site.pairwise_mergeSort _

namespace Document

/-! ## Spans of tokens -/

section Read

variable (language : Language) (path source : String)

/-- The tokens of a document tile its text. -/
theorem tiles_read : Lexis.Tiles 0 source.toList (read language path source).tokens.toList :=
  Lexis.tiles_tokenize language.rules source

variable {language path source}

theorem tokenStart_of_getElem? {i : Nat} {t : Token}
    (h : (read language path source).tokens.toList[i]? = some t) :
    (read language path source).tokenStart i = t.start := by
  rw [tokenStart, ← Array.getElem?_toList, h]
  rfl

theorem tokenStop_of_getElem? {i : Nat} {t : Token}
    (h : (read language path source).tokens.toList[i]? = some t) :
    (read language path source).tokenStop i = t.stop := by
  rw [tokenStop, ← Array.getElem?_toList, h]
  rfl

/-- Later tokens start later. -/
theorem tokenStart_lt {i j : Nat} (hij : i < j)
    (hj : j < (read language path source).tokens.toList.length) :
    (read language path source).tokenStart i < (read language path source).tokenStart j := by
  have htiles := tiles_read language path source
  have hi := Nat.lt_trans hij hj
  rw [tokenStart_of_getElem? (List.getElem?_eq_getElem hi),
    tokenStart_of_getElem? (List.getElem?_eq_getElem hj)]
  exact Nat.lt_of_lt_of_le (htiles.start_lt_stop (List.getElem_mem hi))
    (List.pairwise_iff_getElem.1 htiles.pairwise_stop_le_start i j hi hj hij)

theorem tokenStart_le {i j : Nat} (hij : i ≤ j)
    (hj : j < (read language path source).tokens.toList.length) :
    (read language path source).tokenStart i ≤ (read language path source).tokenStart j := by
  rcases Nat.eq_or_lt_of_le hij with rfl | hij
  · exact Nat.le_refl _
  · exact Nat.le_of_lt (tokenStart_lt hij hj)

theorem tokenStart_inj {i j : Nat} (hi : i < (read language path source).tokens.toList.length)
    (hj : j < (read language path source).tokens.toList.length)
    (h : (read language path source).tokenStart i = (read language path source).tokenStart j) :
    i = j := by
  rcases Nat.lt_trichotomy i j with hlt | heq | hlt
  · exact absurd h (Nat.ne_of_lt (tokenStart_lt hlt hj))
  · exact heq
  · exact absurd h.symm (Nat.ne_of_lt (tokenStart_lt hlt hi))

/-- Later tokens end later. -/
theorem tokenStop_le {i j : Nat} (hij : i ≤ j)
    (hj : j < (read language path source).tokens.toList.length) :
    (read language path source).tokenStop i ≤ (read language path source).tokenStop j := by
  rcases Nat.eq_or_lt_of_le hij with rfl | hij
  · exact Nat.le_refl _
  · have htiles := tiles_read language path source
    have hi := Nat.lt_trans hij hj
    rw [tokenStop_of_getElem? (List.getElem?_eq_getElem hi),
      tokenStop_of_getElem? (List.getElem?_eq_getElem hj)]
    exact Nat.le_trans (List.pairwise_iff_getElem.1 htiles.pairwise_stop_le_start i j hi hj hij)
      (Nat.le_of_lt (htiles.start_lt_stop (List.getElem_mem hj)))

/-- The span of a range of tokens holds a piece of the text, and the piece is not empty. -/
theorem exists_cutsOut_tokenSpan {i j : Nat} (hij : i ≤ j)
    (hj : j < (read language path source).tokens.toList.length) :
    ∃ before piece behind, piece ≠ [] ∧
      ((read language path source).tokenSpan i j).CutsOut source.toList before piece behind := by
  have ht := List.getElem?_eq_getElem (Nat.lt_of_le_of_lt hij hj)
  have hu := List.getElem?_eq_getElem hj
  obtain ⟨before, piece, behind, hpiece, hsource, hstart, hstop⟩ :=
    (tiles_read language path source).exists_between ht hu hij
  refine ⟨before, piece, behind, hpiece, ?_⟩
  have hspan : (read language path source).tokenSpan i j =
      .of source.toList (byteLength before) (byteLength (before ++ piece)) := by
    rw [tokenSpan, byteSpan, tokenStart_of_getElem? ht, tokenStop_of_getElem? hu, hstart, hstop]
    rfl
  rw [hspan, hsource]
  exact Text.Span.cutsOut_of before piece behind

end Read

/-! ## Sites of a document -/

/-- What a document says about one of its sites fits together. -/
structure WellFormed (doc : Document) (s : Site) : Prop where
  levels_ne_nil : s.levels ≠ []
  level : ∀ level ∈ s.levels, level.rank = level.sizes.length ∧ 1 ≤ level.rank ∧
    ∀ size, some size ∈ level.sizes → size ≠ []
  start_lt_stop : (doc.siteSpan s).start < (doc.siteSpan s).stop
  stop_le_size : (doc.siteSpan s).stop ≤ doc.source.utf8ByteSize
  tokens : ∃ t ∈ doc.tokens, ∃ u ∈ doc.tokens,
    (doc.siteSpan s).start = t.start ∧ (doc.siteSpan s).stop = u.stop
  cutsOut : ∃ before piece behind,
    (doc.siteSpan s).CutsOut doc.source.toList before piece behind
  initializer : ∀ i, s.initializer = some i →
    (doc.siteSpan s).contains (doc.initializerSpan s i) = true ∧
      ∃ before piece behind,
        (doc.initializerSpan s i).CutsOut doc.source.toList before piece behind
  implicit : s.origin = .implicitInitializer →
    (∃ i, s.initializer = some i ∧ doc.initializerSpan s i = doc.siteSpan s) ∧
      ∀ level ∈ s.levels, level.hasSizes = false
  /-- The initializer of a call is empty and stands in front of the call's closing bracket. -/
  paramArray : s.origin.isCompilerGenerated = true →
    (∃ i, s.initializer = some i ∧ i.contents = [] ∧
      doc.initializerSpan s i = doc.byteSpan (doc.insertionOffset s) (doc.insertionOffset s)) ∧
    doc.insertionOffset s + 1 = (doc.siteSpan s).stop ∧
    ∃ before behind, doc.source.toList = before ++ ')' :: behind ∧
      doc.insertionOffset s = byteLength before
  malformed : s.origin = .explicit →
    (s.malformed = true ↔ ∃ level ∈ s.inner, level.hasSizes = true)

section Read

variable {language : Language} {path source : String} {s : Site}

theorem last_lt_length_of_mem_sites (h : s ∈ (read language path source).sites) :
    s.last < (read language path source).tokens.toList.length := by
  simpa [lexemes, read] using (Language.liesIn_of_mem_sites h).last_lt_length

theorem isProper_of_mem_sites (h : s ∈ (read language path source).sites) : s.IsProper := by
  refine Language.isProper_of_mem_sites (fun l hl => ?_) h
  obtain ⟨t, ht, rfl⟩ := List.mem_map.1 hl
  exact (Lexis.tiles_tokenize language.rules source).text_ne_empty ht

/-- The initializer list of a site that the source writes down ends with the site. -/
theorem initializerSpan_of_written (doc : Document) (i : Initializer)
    (horigin : s.origin.isCompilerGenerated = false) :
    doc.initializerSpan s i = doc.tokenSpan i.opening s.last := by
  unfold initializerSpan
  split
  · simp_all [Origin.isCompilerGenerated]
  · rfl

/-- The initializer list of a call is empty, at the place where the call takes an argument. -/
theorem initializerSpan_of_generated (doc : Document) (i : Initializer)
    (horigin : s.origin.isCompilerGenerated = true) (hopening : i.opening = s.last) :
    doc.initializerSpan s i = doc.byteSpan (doc.insertionOffset s) (doc.insertionOffset s) := by
  unfold initializerSpan
  split
  · rw [hopening]
    rfl
  · rename_i hnot
    cases h : s.origin with
    | paramArray needsSeparator => exact absurd h (hnot needsSeparator)
    | _ => simp [h, Origin.isCompilerGenerated] at horigin

/-- The closing bracket of a call that leaves out a parameter array is the last byte of its span. -/
theorem exists_closing_bracket (h : s ∈ (read language path source).sites)
    (horigin : s.origin.isCompilerGenerated = true) :
    (read language path source).insertionOffset s + 1 =
        ((read language path source).siteSpan s).stop ∧
      ∃ before behind, source.toList = before ++ ')' :: behind ∧
        (read language path source).insertionOffset s = byteLength before := by
  obtain ⟨⟨before, inside, last, behind, hsource, _, hstop, hinsertion, hclosed⟩⟩ :=
    exists_siteText h
  obtain rfl := hclosed horigin
  refine ⟨?_, before ++ inside, behind, ?_, hinsertion⟩
  · have hbracket : byteLength [')'] = 1 := by decide
    rw [hinsertion, hstop, byteLength_append, byteLength_append, hbracket]
    omega
  · change source.toList = _ at hsource
    rw [hsource]
    simp

/-- The initializer list of a site lies in the site. -/
theorem initializerSpan_inside (h : s ∈ (read language path source).sites) {i : Initializer}
    (hi : s.initializer = some i) :
    ((read language path source).siteSpan s).contains
        ((read language path source).initializerSpan s i) = true ∧
      ∃ before piece behind, ((read language path source).initializerSpan s i).CutsOut
        source.toList before piece behind := by
  have hproper := isProper_of_mem_sites h
  have hlast := last_lt_length_of_mem_sites h
  obtain ⟨hopening, hclose⟩ := hproper.initializer i hi
  have hstart : (read language path source).tokenStart s.first ≤
      (read language path source).tokenStart i.opening :=
    tokenStart_le hopening (Nat.lt_of_le_of_lt hclose hlast)
  simp only [Text.Span.contains, Bool.and_eq_true, decide_eq_true_eq]
  cases horigin : s.origin.isCompilerGenerated with
  | false =>
    rw [initializerSpan_of_written _ i horigin]
    obtain ⟨before, piece, behind, _, hcuts⟩ := exists_cutsOut_tokenSpan hclose hlast
    exact ⟨⟨hstart, Nat.le_refl _⟩, before, piece, behind, hcuts⟩
  | true =>
    obtain ⟨j, hj, hopening, _⟩ := hproper.paramArray horigin
    obtain rfl : i = j := Option.some.inj (hi.symm.trans hj)
    obtain ⟨hinsertion, before, behind, hsource, hoffset⟩ := exists_closing_bracket h horigin
    rw [initializerSpan_of_generated _ i horigin hopening]
    refine ⟨⟨?_, ?_⟩, before, [], ')' :: behind, ?_⟩
    · rwa [hopening] at hstart
    · rw [← hinsertion]
      exact Nat.le_succ _
    · have hcuts := Text.Span.cutsOut_of before [] (')' :: behind)
      rw [List.append_nil, List.nil_append, ← hsource, ← hoffset] at hcuts
      exact hcuts

theorem wellFormed_of_mem_sites (h : s ∈ (read language path source).sites) :
    (read language path source).WellFormed s := by
  have hproper := isProper_of_mem_sites h
  have hlies := Language.liesIn_of_mem_sites h
  have hlast := last_lt_length_of_mem_sites h
  have hfirst := Nat.lt_of_le_of_lt hlies.first_le_last hlast
  obtain ⟨before, piece, behind, hpiece, hcuts⟩ :=
    exists_cutsOut_tokenSpan hlies.first_le_last hlast
  have hsize : source.utf8ByteSize = byteLength source.toList := by
    rw [← Text.utf8ByteSize_ofList, String.ofList_toList]
  constructor
  case levels_ne_nil => exact List.cons_ne_nil _ _
  case level =>
    intro level hlevel
    obtain ⟨hrank, hsize⟩ := hproper.levels level hlevel
    exact ⟨rfl, hrank, hsize⟩
  case start_lt_stop => exact hcuts.start_lt_stop hpiece
  case stop_le_size => exact Nat.le_trans hcuts.stop_le_byteLength (Nat.le_of_eq hsize.symm)
  case tokens =>
    refine ⟨_, Array.getElem_mem hfirst, _, Array.getElem_mem hlast, ?_, ?_⟩
    · exact tokenStart_of_getElem? (List.getElem?_eq_getElem hfirst)
    · exact tokenStop_of_getElem? (List.getElem?_eq_getElem hlast)
  case cutsOut => exact ⟨before, piece, behind, hcuts⟩
  case initializer => exact fun i hi => initializerSpan_inside h hi
  case implicit =>
    intro horigin
    obtain ⟨⟨i, hi, hopening⟩, hsizes⟩ := hproper.implicit horigin
    refine ⟨⟨i, hi, ?_⟩, hsizes⟩
    rw [initializerSpan_of_written _ i (by rw [horigin]; rfl), hopening]
    rfl
  case paramArray =>
    intro horigin
    obtain ⟨i, hi, hopening, hcontents⟩ := hproper.paramArray horigin
    exact ⟨⟨i, hi, hcontents, initializerSpan_of_generated _ i horigin hopening⟩,
      exists_closing_bracket h horigin⟩
  case malformed =>
    intro horigin
    rw [hproper.malformed horigin, List.any_eq_true]

/-- The order of sites by the indices of their tokens is that of their spans. -/
theorem pairwise_span_sites (language : Language) (path source : String) :
    (read language path source).sites.Pairwise fun s other =>
      ((read language path source).siteSpan s).Precedes
        ((read language path source).siteSpan other) := by
  refine (language.pairwise_comesBefore_sites _).imp_of_mem fun {s other} hs hother hbefore => ?_
  have hlies := Language.liesIn_of_mem_sites hother
  have hlast : other.last < (read language path source).tokens.toList.length :=
    last_lt_length_of_mem_sites hother
  simp only [Site.comesBefore, Bool.or_eq_true, Bool.and_eq_true, decide_eq_true_eq,
    beq_iff_eq] at hbefore
  rcases hbefore with hfirst | ⟨hfirst, hstop⟩
  · exact .inl (tokenStart_lt hfirst (Nat.lt_of_le_of_lt hlies.first_le_last hlast))
  · refine .inr ⟨?_, tokenStop_le hstop hlast⟩
    change tokenStart _ _ = tokenStart _ _
    rw [hfirst]

/-- Every site that is read from a source is well formed in its document, and the sites stand in the
order of their spans. -/
theorem wellFormed_read (language : Language) (path source : String) :
    (∀ s ∈ (read language path source).sites, (read language path source).WellFormed s) ∧
      (read language path source).sites.Pairwise fun s other =>
        ((read language path source).siteSpan s).Precedes
          ((read language path source).siteSpan other) :=
  ⟨fun _ h => wellFormed_of_mem_sites h, pairwise_span_sites language path source⟩

end Read

end Document

end ZeroAlloc
