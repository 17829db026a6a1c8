import ZeroAlloc.Text.Bytes
import ZeroAlloc.Text.Case
set_option autoImplicit false

/-! # Lower-case forms

The lower-case form of a text is taken character by character, so it goes through joining and
cutting. A character keeps its length, and one that is no letter is the lower-case form of nothing
but itself. -/

namespace ZeroAlloc.Text

/-! ## Characters -/

theorem toNat_toLower (c : Char) :
    c.toLower.toNat = if 65 ≤ c.toNat ∧ c.toNat ≤ 90 then c.toNat + 32 else c.toNat := by
  have hiff : c.val ≥ 'A'.val ∧ c.val ≤ 'Z'.val ↔ 65 ≤ c.toNat ∧ c.toNat ≤ 90 := Iff.rfl
  unfold Char.toLower
  by_cases hupper : c.val ≥ 'A'.val ∧ c.val ≤ 'Z'.val
  · rw [dif_pos hupper, if_pos (hiff.1 hupper)]
    have hlower : ('a'.val - 'A'.val).toNat = 32 := rfl
    have hsum : (c.val + ('a'.val - 'A'.val)).toNat = c.toNat + 32 := by
      have hZ : c.val.toNat ≤ 90 := (hiff.1 hupper).2
      rw [UInt32.toNat_add, hlower]
      exact Nat.mod_eq_of_lt (by omega)
    exact hsum
  · rw [dif_neg hupper, if_neg (mt hiff.2 hupper)]

theorem isAlpha_iff (c : Char) :
    c.isAlpha = true ↔ 65 ≤ c.toNat ∧ c.toNat ≤ 90 ∨ 97 ≤ c.toNat ∧ c.toNat ≤ 122 := by
  have hupper : c.isUpper = true ↔ 65 ≤ c.toNat ∧ c.toNat ≤ 90 :=
    decide_eq_true_iff (p := c.val ≥ 'A'.val ∧ c.val ≤ 'Z'.val)
  have hlower : c.isLower = true ↔ 97 ≤ c.toNat ∧ c.toNat ≤ 122 :=
    Bool.and_eq_true_iff.trans (and_congr (decide_eq_true_iff (p := c.val ≥ 'a'.val))
      (decide_eq_true_iff (p := c.val ≤ 'z'.val)))
  exact Bool.or_eq_true_iff.trans (or_congr hupper hlower)

theorem toLower_toLower (c : Char) : c.toLower.toLower = c.toLower := by
  rw [← Char.toNat_inj, toNat_toLower c.toLower, toNat_toLower c, if_neg]
  split <;> omega

theorem isAlpha_toLower (c : Char) : c.toLower.isAlpha = c.isAlpha := by
  rw [Bool.eq_iff_iff, isAlpha_iff, isAlpha_iff, toNat_toLower]
  split <;> omega

/-- Only a letter has another form. -/
theorem toLower_eq_self {c : Char} (h : c.isAlpha = false) : c.toLower = c := by
  rw [← Bool.not_eq_true, isAlpha_iff] at h
  rw [← Char.toNat_inj, toNat_toLower, if_neg (by omega)]

/-- What is no letter is the lower-case form of itself alone. -/
theorem toLower_eq_iff {c d : Char} (h : d.isAlpha = false) : c.toLower = d ↔ c = d := by
  constructor
  · rintro rfl
    rw [isAlpha_toLower] at h
    exact (toLower_eq_self h).symm
  · rintro rfl
    exact toLower_eq_self h

/-- The lower-case form of a character is as long as the character. -/
theorem utf8Size_toLower (c : Char) : c.toLower.utf8Size = c.utf8Size := by
  have hshort (d : Char) (h : d.toNat ≤ 127) : d.utf8Size = 1 :=
    Char.utf8Size_eq_one_iff.2 (UInt32.le_iff_toNat_le.2 h)
  by_cases hupper : 65 ≤ c.toNat ∧ c.toNat ≤ 90
  · rw [hshort c (by omega), hshort]
    rw [toNat_toLower, if_pos hupper]
    omega
  · congr 1
    rw [← Char.toNat_inj, toNat_toLower, if_neg hupper]

theorem byteLength_map_toLower (cs : List Char) :
    byteLength (cs.map Char.toLower) = byteLength cs := by
  induction cs with
  | nil => rfl
  | cons c cs ih => rw [List.map_cons, byteLength, byteLength, utf8Size_toLower, ih]

/-- The function has one value at both forms of each letter. -/
def FoldsCase {α : Type} (f : Char → α) : Prop :=
  ∀ n < 26, f (Char.ofNat (97 + n)) = f (Char.ofNat (65 + n))

instance {α : Type} [DecidableEq α] (f : Char → α) : Decidable (FoldsCase f) :=
  inferInstanceAs (Decidable (∀ n < 26, f (Char.ofNat (97 + n)) = f (Char.ofNat (65 + n))))

/-- Only letters have another form, so what holds of their two forms holds of those of all
characters. -/
theorem FoldsCase.apply_toLower {α : Type} {f : Char → α} (h : FoldsCase f) (c : Char) :
    f c.toLower = f c := by
  by_cases hupper : 65 ≤ c.toNat ∧ c.toNat ≤ 90
  · have hletter := h (c.toNat - 65) (by omega)
    have hlower : 97 + (c.toNat - 65) = c.toLower.toNat := by
      rw [toNat_toLower, if_pos hupper]
      omega
    rwa [hlower, Nat.add_sub_cancel' hupper.1, Char.ofNat_toNat, Char.ofNat_toNat] at hletter
  · congr 1
    rw [← Char.toNat_inj, toNat_toLower, if_neg hupper]

/-! ## Texts -/

@[simp] theorem toList_lowerAscii (s : String) :
    (lowerAscii s).toList = s.toList.map Char.toLower := by
  rw [lowerAscii, String.toList_ofList]

theorem lowerAscii_eq_iff {a b : String} :
    lowerAscii a = lowerAscii b ↔ a.toList.map Char.toLower = b.toList.map Char.toLower := by
  rw [← String.toList_inj, toList_lowerAscii, toList_lowerAscii]

@[simp] theorem lowerAscii_lowerAscii (s : String) : lowerAscii (lowerAscii s) = lowerAscii s := by
  rw [lowerAscii_eq_iff, toList_lowerAscii, List.map_map]
  exact List.map_congr_left fun c _ => toLower_toLower c

theorem lowerAscii_append (a b : String) : lowerAscii (a ++ b) = lowerAscii a ++ lowerAscii b := by
  simp [← String.toList_inj]

theorem lowerAscii_intercalate (separator : String) (parts : List String) :
    lowerAscii (separator.intercalate parts) =
      (lowerAscii separator).intercalate (parts.map lowerAscii) := by
  induction parts with
  | nil => rfl
  | cons part parts ih =>
    cases parts with
    | nil => simp
    | cons next parts =>
      rw [String.intercalate_cons_cons, lowerAscii_append, lowerAscii_append, ih]
      simp [String.intercalate_cons_cons]

end ZeroAlloc.Text
