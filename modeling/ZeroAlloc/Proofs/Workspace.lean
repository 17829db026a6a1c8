import Mathlib.Data.List.Nodup
import ZeroAlloc.Command.Run
set_option autoImplicit false

/-! # Files and their paths

In a tree of files no two have the same path (`Place.eq_of_text_eq`), so fixed texts that are
written by path reach the file that they belong to: after fixes of distinct files each of these
holds its fixed text (`content?_foldl_applyFix_of_mem`), and every other file is as it was
(`content?_foldl_applyFix_of_forall`). -/

namespace ZeroAlloc

/-- The names on the way to the place can be names of files and directories. -/
def Place.IsNamed (p : Place) : Prop :=
  ∀ name ∈ p, name ≠ "" ∧ '/' ∉ name.toList

instance (p : Place) : Decidable p.IsNamed :=
  inferInstanceAs (Decidable (∀ name ∈ p, _))

/-- No two files are at one place, and all are at places with proper names. -/
structure Workspace.IsFileTree (w : Workspace) : Prop where
  distinct : (w.files.map Prod.fst).Nodup
  named : ∀ f ∈ w.files, Place.IsNamed f.1

/-! ## Paths of places -/

namespace Place

variable {p q : Place}

/-- The names between the slashes of a path. -/
theorem splitOn_text (hp : p.IsNamed) (hne : p ≠ []) :
    (String.intercalate "/" p).toList.splitOn '/' = p.map String.toList := by
  rw [String.toList_intercalate]
  refine List.splitOn_intercalate '/' ?_ (by simpa using hne)
  intro cs hcs
  obtain ⟨name, hname, rfl⟩ := List.mem_map.1 hcs
  exact (hp name hname).2

/-- Only the root has no names in its path. -/
theorem intercalate_ne_empty (hp : p.IsNamed) (hne : p ≠ []) : String.intercalate "/" p ≠ "" := by
  intro hempty
  have hsplit := splitOn_text hp hne
  rw [hempty] at hsplit
  obtain ⟨name, rest, rfl⟩ := List.exists_cons_of_ne_nil hne
  have hname : name.toList = [] := (List.cons.inj hsplit).1.symm
  exact (hp name List.mem_cons_self).1 (String.toList_eq_nil_iff.1 hname)

/-- The path of a place tells the place. -/
theorem eq_of_text_eq (hp : p.IsNamed) (hq : q.IsNamed) (h : p.text = q.text) : p = q := by
  have hnames : String.intercalate "/" p = String.intercalate "/" q := by
    have hlist := congrArg String.toList h
    rw [text, text, String.toList_append, String.toList_append] at hlist
    exact String.toList_inj.1 (List.append_cancel_left hlist)
  -- only the root has a path without names, which splitting does not tell from one empty name
  by_cases hnil : p = []
  · subst hnil
    by_contra hne
    exact intercalate_ne_empty hq (Ne.symm hne) hnames.symm
  · have hnil' : q ≠ [] := by
      rintro rfl
      exact intercalate_ne_empty hp hnil hnames
    have hsplit := splitOn_text hp hnil
    rw [hnames, splitOn_text hq hnil'] at hsplit
    exact (List.map_injective_iff.2 fun _ _ => String.toList_inj.1) hsplit.symm

end Place

namespace Workspace

variable {w : Workspace} {p : Place} {content : FileContent}

theorem IsFileTree.nodup_text (hw : w.IsFileTree) : (w.files.map fun f => f.1.text).Nodup := by
  have hdistinct := hw.distinct
  rw [List.Nodup, List.pairwise_map] at hdistinct ⊢
  refine hdistinct.imp_of_mem fun hf hg hne htext => hne ?_
  exact Place.eq_of_text_eq (hw.named _ hf) (hw.named _ hg) htext

/-! ## Contents -/

theorem mem_files_of_content? (h : w.content? p = some content) : (p, content) ∈ w.files := by
  obtain ⟨before, after, hfiles, -⟩ := List.lookup_eq_some_iff.1 h
  rw [hfiles]
  exact List.mem_append_right _ List.mem_cons_self

theorem IsFileTree.content?_of_mem (hw : w.IsFileTree) (h : (p, content) ∈ w.files) :
    w.content? p = some content := by
  obtain ⟨before, after, hfiles⟩ := List.append_of_mem h
  have hdistinct := hw.distinct
  rw [hfiles, List.map_append, List.map_cons] at hdistinct
  refine List.lookup_eq_some_iff.2 ⟨before, after, hfiles, fun f hf => ?_⟩
  have hne := (List.nodup_append.1 hdistinct).2.2 f.1 (List.mem_map_of_mem hf) p
    List.mem_cons_self
  simpa using hne.symm

/-! ## Fixes -/

theorem applyFix_of_isUnchanged {fix : FileFix} (h : fix.isUnchanged = true) :
    w.applyFix fix = w := by
  rw [applyFix, if_pos h]

/-- A fix goes into the file with its path. -/
theorem content?_applyFix {fix : FileFix} (h : fix.isUnchanged = false) (p : Place) :
    (w.applyFix fix).content? p = (w.content? p).map fun content =>
      if p.text = fix.path then .text fix.fixed else content := by
  rw [applyFix, if_neg (by simp [h]), content?, content?]
  dsimp only
  induction w.files with
  | nil => rfl
  | cons f files ih =>
    obtain ⟨q, content⟩ := f
    rw [List.map_cons]
    by_cases hq : p = q
    · subst hq
      by_cases hpath : p.text = fix.path
      · simp [hpath]
      · simp [hpath]
    · have hne : (p == q) = false := by simpa using hq
      by_cases hpath : q.text = fix.path
      · simpa [List.lookup_cons, hne, hpath] using ih
      · simpa [List.lookup_cons, hne, hpath] using ih

/-- What a fix leaves as it is. -/
structure IsSameTree (w other : Workspace) : Prop where
  current : other.current = w.current
  directories : other.directories = w.directories
  places : other.files.map Prod.fst = w.files.map Prod.fst

theorem isSameTree_applyFix (w : Workspace) (fix : FileFix) : w.IsSameTree (w.applyFix fix) := by
  cases h : fix.isUnchanged with
  | true =>
    rw [applyFix_of_isUnchanged h]
    exact ⟨rfl, rfl, rfl⟩
  | false =>
    rw [applyFix, if_neg (by simp [h])]
    refine ⟨rfl, rfl, ?_⟩
    rw [List.map_map]
    refine List.map_congr_left fun f _ => ?_
    dsimp only [Function.comp_apply]
    split <;> rfl

theorem isSameTree_foldl_applyFix (w : Workspace) (fixes : List FileFix) :
    w.IsSameTree (fixes.foldl applyFix w) := by
  induction fixes generalizing w with
  | nil => exact ⟨rfl, rfl, rfl⟩
  | cons fix fixes ih =>
    have hfirst := isSameTree_applyFix w fix
    have hrest := ih (w.applyFix fix)
    exact ⟨hrest.current.trans hfirst.current, hrest.directories.trans hfirst.directories,
      hrest.places.trans hfirst.places⟩

/-- A file is as it was if no fix that changes something has its path. -/
theorem content?_foldl_applyFix_of_forall {fixes : List FileFix}
    (h : ∀ fix ∈ fixes, fix.isUnchanged = false → p.text ≠ fix.path) :
    (fixes.foldl applyFix w).content? p = w.content? p := by
  induction fixes generalizing w with
  | nil => rfl
  | cons fix fixes ih =>
    rw [List.foldl_cons, ih fun fix' hfix' => h fix' (List.mem_cons_of_mem fix hfix')]
    cases hunchanged : fix.isUnchanged with
    | true => rw [applyFix_of_isUnchanged hunchanged]
    | false =>
      have hpath := h fix List.mem_cons_self hunchanged
      simp [content?_applyFix hunchanged, hpath]

/-- With fixes of distinct files, a file for which there is one holds its text. -/
theorem content?_foldl_applyFix_of_mem {fixes : List FileFix} {fix : FileFix}
    (hdistinct : (fixes.map FileFix.path).Nodup) (hfix : fix ∈ fixes)
    (hchanged : fix.isUnchanged = false) (hpath : p.text = fix.path)
    (hfile : w.content? p = some content) :
    (fixes.foldl applyFix w).content? p = some (.text fix.fixed) := by
  obtain ⟨before, after, rfl⟩ := List.append_of_mem hfix
  rw [List.map_append, List.map_cons] at hdistinct
  obtain ⟨-, hcons, hapart⟩ := List.nodup_append.1 hdistinct
  -- the fixes in front and behind are of other files
  have hbefore : ∀ earlier ∈ before, earlier.isUnchanged = false → p.text ≠ earlier.path := by
    intro earlier hearlier _ hsame
    exact hapart _ (List.mem_map_of_mem hearlier) _ List.mem_cons_self (hsame.symm.trans hpath)
  have hafter : ∀ later ∈ after, later.isUnchanged = false → p.text ≠ later.path := by
    intro later hlater _ hsame
    refine (List.nodup_cons.1 hcons).1 ?_
    rw [← hpath, hsame]
    exact List.mem_map_of_mem hlater
  rw [List.foldl_append, List.foldl_cons, content?_foldl_applyFix_of_forall hafter,
    content?_applyFix hchanged, content?_foldl_applyFix_of_forall hbefore, hfile, Option.map_some,
    if_pos hpath]

end Workspace

end ZeroAlloc
