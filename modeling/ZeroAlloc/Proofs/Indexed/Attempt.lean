import Mathlib.Control.Basic
import ZeroAlloc.Place
set_option autoImplicit false

/-! # Operations that can fail

A reader that keeps its place as an index has operations that are defined for some arguments only:
the token with an index, the text between two offsets, one bracket less. `Attempt` tells such a
failure from finding nothing, so that it can be proved that no reader ever fails. -/

namespace ZeroAlloc.Indexed

/-- Why an operation fails. -/
inductive Fault where
  /-- There is no token with the index. -/
  | index
  /-- The text is cut past its end or inside a character. -/
  | slice
  /-- A range ends before it starts. -/
  | range
  /-- A number is counted down below zero. -/
  | depth
  /-- An array has no level. -/
  | level
  /-- A loop goes round more often than there are tokens for it. -/
  | stuck

/-- The outcome of a reader: what it found, that it found nothing, or that an operation failed. -/
inductive Attempt (α : Type) where
  | done (a : α)
  | absent
  | fault (cause : Fault)

namespace Attempt

variable {α β : Type}

/-- Go on with what was found. -/
protected def bind : Attempt α → (α → Attempt β) → Attempt β
  | done a, f => f a
  | absent, _ => absent
  | fault cause, _ => fault cause

instance : Monad Attempt where
  pure := done
  bind := Attempt.bind

@[simp] theorem pure_eq_done (a : α) : (pure a : Attempt α) = done a := rfl

@[simp] theorem done_bind (a : α) (f : α → Attempt β) : (done a >>= f) = f a := rfl

@[simp] theorem absent_bind (f : α → Attempt β) : (absent >>= f) = absent := rfl

instance : LawfulMonad Attempt :=
  LawfulMonad.mk' Attempt (fun x => by cases x <;> rfl) (fun _ _ => rfl)
    (fun x _ _ => by cases x <;> rfl)

/-- What is found, if anything. -/
def optional : Attempt α → Attempt (Option α)
  | done a => done (some a)
  | absent => done none
  | fault cause => fault cause

/-- What is found, as a list. -/
def toList : Attempt α → Attempt (List α)
  | done a => done [a]
  | absent => done []
  | fault cause => fault cause

/-! ## Attempts without faults -/

/-- An attempt that cannot fail. -/
def ofOption : Option α → Attempt α
  | some a => done a
  | none => absent

@[simp] theorem ofOption_some (a : α) : ofOption (some a) = done a := rfl

@[simp] theorem ofOption_none : ofOption (none : Option α) = absent := rfl

@[simp] theorem optional_ofOption (o : Option α) : (ofOption o).optional = done o := by
  cases o <;> rfl

@[simp] theorem toList_ofOption (o : Option α) : (ofOption o).toList = done o.toList := by
  cases o <;> rfl

/-- To go on without faults it is enough to do so from what can be found. -/
theorem bind_eq_ofOption {x : Attempt α} {o : Option α} {f : α → Attempt β} {g : α → Option β}
    (hx : x = ofOption o) (hf : ∀ a, o = some a → f a = ofOption (g a)) :
    x >>= f = ofOption (o.bind g) := by
  subst hx
  cases o with
  | none => rfl
  | some a => exact hf a rfl

theorem mapM_eq_done {f : α → Attempt β} {g : α → β} {xs : List α}
    (h : ∀ x ∈ xs, f x = done (g x)) : xs.mapM f = done (xs.map g) := by
  induction xs with
  | nil => rfl
  | cons x xs ih =>
    rw [List.mapM_cons, h x List.mem_cons_self, ih fun y hy => h y (List.mem_cons_of_mem x hy)]
    rfl

end Attempt

/-! ## Operations -/

/-- One less. -/
def decrement : Nat → Attempt Nat
  | 0 => .fault .depth
  | n + 1 => .done n

@[simp] theorem decrement_succ (n : Nat) : decrement (n + 1) = .done n := rfl

/-- The range of indices from `start` up to `stop`. -/
def range (start stop : Nat) : Attempt (Nat × Nat) :=
  if start ≤ stop then .done (start, stop) else .fault .range

theorem range_eq_done {start stop : Nat} (h : start ≤ stop) :
    range start stop = .done (start, stop) := if_pos h

/-- The level that an array type allocates. -/
def allocatedLevel {α : Type} : List α → Attempt α
  | [] => .fault .level
  | level :: _ => .done level

/-- The levels below it. -/
def innerLevels {α : Type} : List α → Attempt (List α)
  | [] => .fault .level
  | _ :: inner => .done inner

/-! ## Loops over all places -/

/-- What a reader finds at `count` places from the given one on, in order. -/
def collect {α : Type} (read : Nat → Attempt (List α)) (place : Nat) :
    (count : Nat) → Attempt (List α)
  | 0 => pure []
  | count + 1 => do
    let found ← read place
    let more ← collect read (place + 1) count
    pure (found ++ more)

/-- Reading at all places of a row, if what is read at an index is what is recognised at the
place. -/
theorem collect_eq_done {α β : Type} {read : Nat → Attempt (List β)}
    {recognise : List Lexeme → List Lexeme → List α} {place : α → β} {ls : List Lexeme}
    (h : ∀ i < ls.length,
      read i = .done ((recognise (ls.take i).reverse (ls.drop i)).map place)) :
    collect read 0 ls.length = .done ((atEachPlace recognise [] ls).map place) := by
  suffices hfrom : ∀ here passed, ls = passed ++ here →
      collect read passed.length here.length =
        .done ((atEachPlace recognise passed.reverse here).map place) by
    exact hfrom ls [] rfl
  intro here
  induction here with
  | nil =>
    intro passed _
    rfl
  | cons l here ih =>
    intro passed hls
    have hread := h passed.length (by simp [hls])
    have hmore := ih (passed ++ [l]) (by simp [hls])
    rw [hls, List.take_left, List.drop_left] at hread
    rw [List.length_append, List.length_singleton, List.reverse_concat] at hmore
    rw [List.length_cons, collect, hread, Attempt.done_bind, hmore, atEachPlace, List.map_append]
    rfl

end ZeroAlloc.Indexed
