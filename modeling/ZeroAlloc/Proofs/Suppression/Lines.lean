import Mathlib.Data.List.Forall2
import ZeroAlloc.Proofs.Document.WellFormed
import ZeroAlloc.Proofs.Suppression.Marks
set_option autoImplicit false

/-! # Lines of suppressions

Suppressions number the lines that they cut a text into; sites number them by the line feeds before
an offset. The two agree: a suppression of a text stands on a line of its own, and covers the sites
that start on this line, or on the line below (`exists_isWrittenAt_parse`). -/

namespace ZeroAlloc

/-! ## Two places of a text -/

namespace Text

/-- Whether the places behind two initial parts of a text lie on one line: no line feed stands
between them. -/
def OnOneLine (pre other : List Char) : Prop :=
  ∃ mid, '\n' ∉ mid ∧ (other = pre ++ mid ∨ pre = other ++ mid)

/-- Whether the place behind the other initial part lies on the line directly below: one line feed
stands between the two places. -/
def OnNextLine (pre other : List Char) : Prop :=
  ∃ upper lower, '\n' ∉ upper ∧ '\n' ∉ lower ∧ other = pre ++ (upper ++ '\n' :: lower)

variable {pre other cs : List Char}

theorem onOneLine_iff (hpre : pre <+: cs) (hother : other <+: cs) :
    OnOneLine pre other ↔ pre.count '\n' = other.count '\n' := by
  constructor
  · rintro ⟨mid, hmid, rfl | rfl⟩
    · rw [List.count_append, List.count_eq_zero.2 hmid, Nat.add_zero]
    · rw [List.count_append, List.count_eq_zero.2 hmid, Nat.add_zero]
  · intro hcount
    rcases List.prefix_or_prefix_of_prefix hpre hother with ⟨mid, rfl⟩ | ⟨mid, rfl⟩
    · rw [List.count_append] at hcount
      exact ⟨mid, List.count_eq_zero.1 (by omega), .inl rfl⟩
    · rw [List.count_append] at hcount
      exact ⟨mid, List.count_eq_zero.1 (by omega), .inr rfl⟩

theorem onNextLine_iff (hpre : pre <+: cs) (hother : other <+: cs) :
    OnNextLine pre other ↔ pre.count '\n' + 1 = other.count '\n' := by
  constructor
  · rintro ⟨upper, lower, hupper, hlower, rfl⟩
    rw [List.count_append, List.count_append, List.count_cons_self, List.count_eq_zero.2 hupper,
      List.count_eq_zero.2 hlower]
  · intro hcount
    rcases List.prefix_or_prefix_of_prefix hpre hother with ⟨mid, rfl⟩ | ⟨mid, rfl⟩
    · rw [List.count_append] at hcount
      have hmid : '\n' ∈ mid := List.count_pos_iff.1 (by omega)
      obtain ⟨upper, lower, rfl⟩ := List.append_of_mem hmid
      rw [List.count_append, List.count_cons_self] at hcount
      exact ⟨upper, lower, List.count_eq_zero.1 (by omega), List.count_eq_zero.1 (by omega), rfl⟩
    · rw [List.count_append] at hcount
      omega

end Text

namespace Suppression

/-! ## Suppressions of lines -/

theorem not_mem_of_mem_linesFrom {line cs l : List Char} (hline : '\n' ∉ line)
    (h : l ∈ linesFrom line cs) : '\n' ∉ l := by
  fun_induction linesFrom line cs with
  | case1 => cases h
  | case2 line _ =>
    rw [List.mem_singleton.1 h, List.mem_reverse]
    exact hline
  | case3 line cs ih | case4 line cs ih =>
    rcases List.mem_cons.1 h with rfl | h
    · rwa [List.mem_reverse]
    · exact ih List.not_mem_nil h
  | case5 line c cs _ hfeed ih =>
    exact ih (by simpa [List.mem_cons, hline] using fun h : '\n' = c => hfeed h.symm) h

/-- Each suppression comes from a line of its own, in the order of the lines. -/
theorem exists_forall₂_ofLines (file : String) (inHeader : Bool) (line : Nat)
    (ls : List (List Char)) :
    ∃ indices : List Nat, indices.Pairwise (· < ·) ∧
      List.Forall₂ (fun i s => ∃ l header, ls[i]? = some l ∧
        ofLine? file header (line + i) l = some s) indices (ofLines file inHeader line ls) := by
  induction ls generalizing inHeader line with
  | nil => exact ⟨[], .nil, .nil⟩
  | cons l ls ih =>
    obtain ⟨indices, hsorted, hlines⟩ := ih (inHeader && isCommentOrBlank (Text.trim l)) (line + 1)
    -- the lines below have moved down by one
    have hbelow : List.Forall₂ (fun i s => ∃ below header, (l :: ls)[i]? = some below ∧
        ofLine? file header (line + i) below = some s) (indices.map (· + 1))
          (ofLines file (inHeader && isCommentOrBlank (Text.trim l)) (line + 1) ls) := by
      rw [List.forall₂_map_left_iff]
      refine hlines.imp fun i s ⟨below, header, hi, hbelow⟩ => ⟨below, header, hi, ?_⟩
      rwa [Nat.add_comm i, ← Nat.add_assoc]
    have hsorted' : (indices.map (· + 1)).Pairwise (· < ·) :=
      List.pairwise_map.2 (hsorted.imp Nat.succ_lt_succ)
    rw [ofLines]
    cases hs : ofLine? file (inHeader && isCommentOrBlank (Text.trim l)) line l with
    | none => exact ⟨_, hsorted', hbelow⟩
    | some s =>
      refine ⟨0 :: indices.map (· + 1), List.pairwise_cons.2 ⟨by simp, hsorted'⟩, ?_⟩
      exact .cons ⟨l, _, rfl, hs⟩ hbelow

theorem place_of_ofMatch? {file : String} {header : Bool} {line : Nat} {found : Match}
    {s : Suppression} (h : ofMatch? file header line found = some s) :
    s.file = file ∧ s.line = if s.scope = .file then 0 else line := by
  unfold ofMatch? at h
  dsimp only at h
  split at h
  · split at h
    · cases h
      exact ⟨rfl, rfl⟩
    · cases h
  · cases h
    exact ⟨rfl, rfl⟩
  · split at h
    · cases h
      exact ⟨rfl, rfl⟩
    · cases h
      exact ⟨rfl, rfl⟩

theorem place_of_ofLine? {file : String} {header : Bool} {line : Nat} {l : List Char}
    {s : Suppression} (h : ofLine? file header line l = some s) :
    s.file = file ∧ s.line = if s.scope = .file then 0 else line := by
  obtain ⟨form, -, h⟩ := List.exists_of_findSome?_eq_some h
  obtain ⟨found, -, h⟩ := Option.bind_eq_some_iff.1 h
  exact place_of_ofMatch? h

/-! ## The sites that a suppression covers -/

theorem covers_iff_of_line {s : Suppression} {d : Diagnostic} (hscope : s.scope = .line)
    (hfile : d.file = s.file) : s.covers d = true ↔ s.namesRule = true ∧ d.line = s.line := by
  simp [covers, hscope, hfile]

theorem covers_iff_of_nextLine {s : Suppression} {d : Diagnostic} (hscope : s.scope = .nextLine)
    (hfile : d.file = s.file) :
    s.covers d = true ↔ s.namesRule = true ∧ d.line = s.line + 1 := by
  simp [covers, hscope, hfile]

/-- The suppression of a document is written behind a mark at the spot. It has the number of its
line, unless it is one of the whole file, and what it covers is told by where sites start. -/
structure IsWrittenAt (doc : Document) (spot : Spot) (s : Suppression) : Prop where
  marks : ∃ mark, spot.Marks doc.source mark s
  oneLine : '\n' ∉ spot.before ++ spot.behind
  file : s.file = doc.path
  number : s.line = if s.scope = .file then 0 else spot.above.count '\n' + 1
  line : s.scope = .line → ∀ (c : Compilation) (finding : Finding), finding.site ∈ doc.sites →
    (s.covers (c.diagnostic doc finding) = true ↔ s.namesRule = true ∧
      Text.OnOneLine (spot.above ++ spot.before)
        (Text.takeBytes (doc.siteSpan finding.site).start doc.source.toList))
  nextLine : s.scope = .nextLine → ∀ (c : Compilation) (finding : Finding),
    finding.site ∈ doc.sites →
      (s.covers (c.diagnostic doc finding) = true ↔ s.namesRule = true ∧
        Text.OnNextLine (spot.above ++ spot.before)
          (Text.takeBytes (doc.siteSpan finding.site).start doc.source.toList))

section Read

variable {language : Language} {path source : String}

/-- The line of a site counts the line feeds in front of its first byte. -/
theorem line_diagnostic {c : Compilation} {finding : Finding}
    (h : finding.site ∈ (Document.read language path source).sites) :
    Text.takeBytes ((Document.read language path source).siteSpan finding.site).start
        source.toList <+: source.toList ∧
      (c.diagnostic (Document.read language path source) finding).line =
        (Text.takeBytes ((Document.read language path source).siteSpan finding.site).start
          source.toList).count '\n' + 1 := by
  obtain ⟨before, piece, behind, hcuts⟩ := (Document.wellFormed_of_mem_sites h).cutsOut
  have htext : source.toList = before ++ (piece ++ behind) := hcuts.text
  rw [hcuts.start, htext, Text.takeBytes_append]
  exact ⟨List.prefix_append _ _, congrArg Text.Position.line hcuts.first⟩

/-- The suppression of a line covers what starts on this line or on the next one. -/
theorem exists_isWrittenAt {header : Bool} {i : Nat} {l : List Char} {s : Suppression}
    (hi : (lines source)[i]? = some l) (h : ofLine? path header (1 + i) l = some s) :
    ∃ spot : Spot, spot.above.count '\n' = i ∧
      IsWrittenAt (Document.read language path source) spot s := by
  obtain ⟨hfile, hline⟩ := place_of_ofLine? h
  obtain ⟨mark, before, behind, rfl, hdirects, hnumber⟩ := exists_directs_of_ofLine? h
  obtain ⟨above, below, htext, rfl⟩ := exists_of_getElem?_linesFrom List.not_mem_nil hi
  have hone : '\n' ∉ before ++ behind :=
    not_mem_of_mem_linesFrom List.not_mem_nil (List.mem_of_getElem? hi)
  have hpre : above ++ before <+: source.toList :=
    ⟨behind ++ below, by simpa using htext.symm⟩
  have hcount : (above ++ before).count '\n' = above.count '\n' := by
    rw [List.count_append, List.count_eq_zero.2 fun h => hone (List.mem_append_left _ h),
      Nat.add_zero]
  have hnotFile (hscope : s.scope ≠ .file) : s.line = (above ++ before).count '\n' + 1 := by
    rw [hline, if_neg hscope, hcount, Nat.add_comm]
  refine ⟨⟨above, before, behind, below⟩, rfl, ⟨mark, htext, hi, hdirects, ?_⟩, hone, hfile, ?_,
    fun hscope c finding hsite => ?_, fun hscope c finding hsite => ?_⟩
  · rwa [Nat.add_comm]
  · rw [hline, Nat.add_comm]
  · obtain ⟨hstart, hcounts⟩ := line_diagnostic (c := c) hsite
    refine (covers_iff_of_line hscope hfile.symm).trans (and_congr_right fun _ => ?_)
    refine Iff.trans ?_ (Text.onOneLine_iff hpre hstart).symm
    rw [hcounts, hnotFile (by rw [hscope]; decide)]
    omega
  · obtain ⟨hstart, hcounts⟩ := line_diagnostic (c := c) hsite
    refine (covers_iff_of_nextLine hscope hfile.symm).trans (and_congr_right fun _ => ?_)
    refine Iff.trans ?_ (Text.onNextLine_iff hpre hstart).symm
    rw [hcounts, hnotFile (by rw [hscope]; decide)]
    omega

end Read

/-- The suppressions of a text stand on different lines, in the order of these lines, and each
covers the sites of the text that start on its line or on the next one, as its scope says. -/
theorem exists_isWrittenAt_parse (language : Language) (path source : String) :
    ∃ spots : List Spot,
      spots.Pairwise (fun spot other => spot.above.count '\n' < other.above.count '\n') ∧
        List.Forall₂ (IsWrittenAt (Document.read language path source)) spots
          (parse path source) := by
  obtain ⟨indices, hsorted, hlines⟩ := exists_forall₂_ofLines path true 1 (lines source)
  have hspots : ∃ spots : List Spot, spots.map (·.above.count '\n') = indices ∧
      List.Forall₂ (IsWrittenAt (Document.read language path source)) spots
        (parse path source) := by
    rw [parse]
    generalize ofLines path true 1 (lines source) = suppressions at hlines ⊢
    clear hsorted
    induction hlines with
    | nil => exact ⟨[], rfl, .nil⟩
    | cons hline _ ih =>
      obtain ⟨l, header, hi, hs⟩ := hline
      obtain ⟨spot, rfl, hspot⟩ := exists_isWrittenAt hi hs
      obtain ⟨spots, rfl, hspots⟩ := ih
      exact ⟨spot :: spots, rfl, .cons hspot hspots⟩
  obtain ⟨spots, rfl, hspots⟩ := hspots
  exact ⟨spots, List.pairwise_map.1 hsorted, hspots⟩

end Suppression

end ZeroAlloc
