import Mathlib.Data.List.Induction
import ZeroAlloc.Proofs.Text.Position
import ZeroAlloc.Suppression
set_option autoImplicit false

/-! # Line ends

A line ends with a line feed, and in many files there is a carriage return in front of it. Here
texts with such line ends are related to texts with plain ones: `withReturns` makes the one of the
other, `withoutReturns` undoes it, and `HasReturns` says of a piece of a text that it has carriage
returns at the ends of its lines and nowhere else. -/

namespace ZeroAlloc

namespace Text

/-- The text with a carriage return in front of each line feed. -/
def withReturns : List Char → List Char
  | [] => []
  | c :: cs => if c = '\n' then '\r' :: '\n' :: withReturns cs else c :: withReturns cs

/-- The source text with a carriage return in front of each line feed. -/
def returned (text : String) : String :=
  String.ofList (withReturns text.toList)

/-- The text without its carriage returns. -/
def withoutReturns (cs : List Char) : List Char :=
  cs.filter (· ≠ '\r')

/-- A carriage return stands in front of each line feed and nowhere else. A line feed that starts
the piece may have its own in front of the piece. -/
def HasReturns : List Char → Prop
  | [] => True
  | c :: cs => (c = '\r' ↔ cs.head? = some '\n') ∧ HasReturns cs

/-! ## Putting carriage returns in -/

@[simp] theorem withReturns_nil : withReturns [] = [] := rfl

@[simp] theorem withReturns_feed (cs : List Char) :
    withReturns ('\n' :: cs) = '\r' :: '\n' :: withReturns cs := rfl

theorem withReturns_cons {c : Char} (h : c ≠ '\n') (cs : List Char) :
    withReturns (c :: cs) = c :: withReturns cs := by
  simp [withReturns, h]

theorem withReturns_append (a b : List Char) :
    withReturns (a ++ b) = withReturns a ++ withReturns b := by
  induction a with
  | nil => rfl
  | cons c a ih =>
    by_cases hc : c = '\n'
    · simp [hc, ih]
    · simp [withReturns_cons hc, ih]

/-- In a text without line feeds there is nothing to put in. -/
theorem withReturns_eq_self {cs : List Char} (h : '\n' ∉ cs) : withReturns cs = cs := by
  induction cs with
  | nil => rfl
  | cons c cs ih =>
    rw [List.mem_cons, not_or] at h
    rw [withReturns_cons (Ne.symm h.1), ih h.2]

theorem returned_eq_self {text : String} (h : '\n' ∉ text.toList) : returned text = text := by
  rw [returned, withReturns_eq_self h, String.ofList_toList]

theorem toList_returned (text : String) : (returned text).toList = withReturns text.toList :=
  String.toList_ofList

theorem returned_append (a b : String) : returned (a ++ b) = returned a ++ returned b := by
  simp only [returned, String.toList_append, withReturns_append, String.ofList_append]

theorem head?_withReturns (cs : List Char) : (withReturns cs).head? ≠ some '\n' := by
  cases cs with
  | nil => simp
  | cons c cs =>
    by_cases hc : c = '\n'
    · simp [hc]
    · simp [withReturns_cons hc, hc]

theorem withReturns_ne_nil {cs : List Char} (h : cs ≠ []) : withReturns cs ≠ [] := by
  cases cs with
  | nil => exact absurd rfl h
  | cons c cs =>
    unfold withReturns
    split <;> exact List.cons_ne_nil _ _

theorem hasReturns_withReturns {cs : List Char} (h : '\r' ∉ cs) : HasReturns (withReturns cs) := by
  induction cs with
  | nil => trivial
  | cons c cs ih =>
    rw [List.mem_cons, not_or] at h
    have hhead := head?_withReturns cs
    by_cases hc : c = '\n'
    · simp [hc, HasReturns, hhead, ih h.2]
    · simp [withReturns_cons hc, HasReturns, hhead, Ne.symm h.1, ih h.2]

/-! ## Taking them out -/

@[simp] theorem withoutReturns_nil : withoutReturns [] = [] := rfl

@[simp] theorem withoutReturns_return (cs : List Char) :
    withoutReturns ('\r' :: cs) = withoutReturns cs := rfl

theorem withoutReturns_cons {c : Char} (h : c ≠ '\r') (cs : List Char) :
    withoutReturns (c :: cs) = c :: withoutReturns cs := by
  simp [withoutReturns, h]

theorem withoutReturns_append (a b : List Char) :
    withoutReturns (a ++ b) = withoutReturns a ++ withoutReturns b :=
  List.filter_append ..

theorem withoutReturns_eq_self {cs : List Char} (h : '\r' ∉ cs) : withoutReturns cs = cs := by
  refine List.filter_eq_self.2 fun c hc => ?_
  simpa using fun heq : c = '\r' => h (heq ▸ hc)

theorem withoutReturns_withReturns {cs : List Char} (h : '\r' ∉ cs) :
    withoutReturns (withReturns cs) = cs := by
  induction cs with
  | nil => rfl
  | cons c cs ih =>
    rw [List.mem_cons, not_or] at h
    by_cases hc : c = '\n'
    · rw [hc, withReturns_feed, withoutReturns_return, withoutReturns_cons (by decide), ih h.2]
    · rw [withReturns_cons hc, withoutReturns_cons (Ne.symm h.1), ih h.2]

theorem HasReturns.of_append {a b : List Char} (h : HasReturns (a ++ b)) : HasReturns b := by
  induction a with
  | nil => exact h
  | cons c a ih => exact ih h.2

theorem HasReturns.drop {cs : List Char} (h : HasReturns cs) (n : Nat) :
    HasReturns (cs.drop n) := by
  rw [← List.take_append_drop n cs] at h
  exact h.of_append

/-- What is not followed by a line feed ends with no carriage return. -/
theorem HasReturns.getLast?_ne_return {a b : List Char} (h : HasReturns (a ++ b))
    (hb : b.head? ≠ some '\n') : a.getLast? ≠ some '\r' := by
  intro hlast
  obtain ⟨init, rfl⟩ := List.getLast?_eq_some_iff.1 hlast
  rw [List.append_assoc] at h
  exact hb (h.of_append.1.1 rfl)

/-- A piece of a text with carriage returns is what they are put into, unless it parts one of them
from its line feed. -/
theorem withReturns_withoutReturns {a b : List Char} (h : HasReturns (a ++ b))
    (hfirst : a.head? ≠ some '\n') (hlast : a.getLast? ≠ some '\r') :
    withReturns (withoutReturns a) = a := by
  -- a piece that starts with a line feed gets back the one in front of it too
  suffices hall : withReturns (withoutReturns a) = if a.head? = some '\n' then '\r' :: a else a by
    rw [hall, if_neg hfirst]
  clear hfirst
  induction a with
  | nil => rfl
  | cons c a ih =>
    obtain ⟨hreturn, hmore⟩ := h
    have hrest : a.getLast? ≠ some '\r' := by
      intro hlast'
      simp [List.getLast?_cons, hlast'] at hlast
    have hnext : a.head? = some '\n' → c = '\r' := by
      cases a with
      | nil => simp
      | cons d a => exact hreturn.2
    by_cases hc : c = '\r'
    · have hfeed : a.head? = some '\n' := by
        cases a with
        | nil => simp [hc] at hlast
        | cons d a => exact hreturn.1 hc
      rw [hc, withoutReturns_return, ih hmore hrest, if_pos hfeed]
      rfl
    · rw [withoutReturns_cons hc]
      have hplain := ih hmore hrest
      rw [if_neg (mt hnext hc)] at hplain
      by_cases hfeed : c = '\n'
      · simp [hfeed, hplain]
      · simp [withReturns_cons hfeed, hfeed, hplain]

/-! ## Positions -/

/-- Behind corresponding pieces, line and column are the same. -/
theorem Position.behind_withReturns (pre : List Char) :
    Position.behind (withReturns pre) = Position.behind pre := by
  induction pre using List.reverseRecOn with
  | nil => rfl
  | append_singleton pre c ih =>
    rw [Position.behind, Position.behind, Position.mk.injEq] at ih
    rw [withReturns_append]
    by_cases hc : c = '\n'
    · simpa [Position.behind, hc] using ih.1
    · simpa [Position.behind, withReturns_cons hc, hc] using ih

/-- The second offset is where the first one is, in the text with carriage returns. -/
def SameOffset (cs : List Char) (offset offset' : Nat) : Prop :=
  ∃ pre post, cs = pre ++ post ∧ offset = byteLength pre ∧ offset' = byteLength (withReturns pre)

/-- Where the text with carriage returns is parted, but not within a line end, the text without them
is. -/
theorem sameOffset_of_append {cs a b : List Char} (h : '\r' ∉ cs) (hsplit : withReturns cs = a ++ b)
    (hlast : a.getLast? ≠ some '\r') :
    SameOffset cs (byteLength (withoutReturns a)) (byteLength a) := by
  have hreturns := hasReturns_withReturns h
  have hfirst : a.head? ≠ some '\n' := by
    intro hfeed
    have hhead := head?_withReturns cs
    rw [hsplit, List.head?_append, hfeed] at hhead
    exact hhead rfl
  rw [hsplit] at hreturns
  refine ⟨withoutReturns a, withoutReturns b, ?_, rfl, ?_⟩
  · rw [← withoutReturns_append, ← hsplit, withoutReturns_withReturns h]
  · rw [withReturns_withoutReturns hreturns hfirst hlast]

namespace SameOffset

variable {cs : List Char} {a a' b b' : Nat}

/-- Behind a piece of the text there is one corresponding offset. -/
theorem eq_byteLength {pre post : List Char} (h : SameOffset (pre ++ post) (byteLength pre) a') :
    a' = byteLength (withReturns pre) := by
  obtain ⟨p, q, hsplit, hlength, rfl⟩ := h
  obtain rfl : post = q := append_right_inj_of_byteLength hsplit hlength
  rw [List.append_cancel_right hsplit]

/-- A later offset is behind a further piece of the text. -/
theorem exists_between (h : SameOffset cs a a') (h' : SameOffset cs b b') (hle : a ≤ b) :
    ∃ pre mid post, cs = pre ++ (mid ++ post) ∧ a = byteLength pre ∧
      a' = byteLength (withReturns pre) ∧ b = a + byteLength mid ∧
      b' = a' + byteLength (withReturns mid) := by
  obtain ⟨pre, post, hcs, rfl, rfl⟩ := h
  obtain ⟨pre', post', hcs', rfl, rfl⟩ := h'
  obtain ⟨mid, rfl, rfl⟩ := exists_append_of_byteLength_le (hcs.symm.trans hcs') hle
  refine ⟨pre, mid, post', hcs, rfl, rfl, byteLength_append _ _, ?_⟩
  rw [withReturns_append, byteLength_append]

theorem le_of_le (h : SameOffset cs a a') (h' : SameOffset cs b b') (hle : a ≤ b) : a' ≤ b' := by
  obtain ⟨_, _, _, _, _, _, _, rfl⟩ := h.exists_between h' hle
  exact Nat.le_add_right _ _

theorem lt_of_lt (h : SameOffset cs a a') (h' : SameOffset cs b b') (hlt : a < b) : a' < b' := by
  obtain ⟨_, mid, _, _, _, _, rfl, rfl⟩ := h.exists_between h' (Nat.le_of_lt hlt)
  refine Nat.lt_add_of_pos_right (Nat.pos_of_ne_zero fun hzero => ?_)
  have hmid : mid ≠ [] := by
    rintro rfl
    exact Nat.lt_irrefl _ hlt
  exact withReturns_ne_nil hmid (eq_nil_of_byteLength hzero)

/-- Corresponding offsets are in one order. -/
theorem lt_iff_lt (h : SameOffset cs a a') (h' : SameOffset cs b b') : a < b ↔ a' < b' := by
  refine ⟨h.lt_of_lt h', fun hlt => ?_⟩
  by_contra hle
  have := h'.le_of_le h (Nat.le_of_not_lt hle)
  omega

end SameOffset

/-- Corresponding offsets have one position. -/
theorem SameOffset.positionAt_eq {cs : List Char} {offset offset' : Nat}
    (h : SameOffset cs offset offset') :
    positionAt (withReturns cs) offset' = positionAt cs offset := by
  obtain ⟨pre, post, rfl, rfl, rfl⟩ := h
  rw [withReturns_append, positionAt_append, positionAt_append, Position.behind_withReturns]

end Text

/-! ## Suppressions -/

namespace Suppression

open Text (withReturns withReturns_cons)

theorem linesFrom_cons {c : Char} (hreturn : c ≠ '\r') (hfeed : c ≠ '\n') (line cs : List Char) :
    linesFrom line (c :: cs) = linesFrom (c :: line) cs := by
  rw [linesFrom]
  · exact fun _ h => absurd h hreturn
  · exact hfeed

theorem linesFrom_withReturns (line : List Char) {cs : List Char} (h : '\r' ∉ cs) :
    linesFrom line (withReturns cs) = linesFrom line cs := by
  induction cs generalizing line with
  | nil => rfl
  | cons c cs ih =>
    rw [List.mem_cons, not_or] at h
    by_cases hc : c = '\n'
    · rw [hc, Text.withReturns_feed, linesFrom, linesFrom, ih [] h.2]
    · have hreturn := Ne.symm h.1
      rw [withReturns_cons hc, linesFrom_cons hreturn hc, linesFrom_cons hreturn hc,
        ih (c :: line) h.2]

/-- Suppressions are read alike from both texts. -/
theorem parse_returned (file : String) {source : String} (h : '\r' ∉ source.toList) :
    parse file (Text.returned source) = parse file source := by
  rw [parse, parse, lines, lines, Text.toList_returned, linesFrom_withReturns [] h]

end Suppression

end ZeroAlloc
