set_option autoImplicit false

/-! # Byte offsets

Text is a list of characters, while positions in a file are counted in bytes of its UTF-8 form. An
offset is a *boundary* when a character starts or the text ends there; cutting a text at a boundary
loses nothing. -/

namespace ZeroAlloc.Text

/-- The number of bytes that the characters take. -/
def byteLength : List Char → Nat
  | [] => 0
  | c :: cs => c.utf8Size + byteLength cs

/-- Whether a character starts, or the text ends, `n` bytes into it. -/
def isBoundary : Nat → List Char → Bool
  | 0, _ => true
  | _ + 1, [] => false
  | n + 1, c :: cs => c.utf8Size ≤ n + 1 && isBoundary (n + 1 - c.utf8Size) cs

/-- The characters that start in the first `n` bytes. -/
def takeBytes : Nat → List Char → List Char
  | 0, _ => []
  | _ + 1, [] => []
  | n + 1, c :: cs => c :: takeBytes (n + 1 - c.utf8Size) cs

/-- The characters that start `n` bytes in or later. -/
def dropBytes : Nat → List Char → List Char
  | 0, cs => cs
  | _ + 1, [] => []
  | n + 1, c :: cs => dropBytes (n + 1 - c.utf8Size) cs

/-- The characters that start at or after `start` and before `stop`. -/
def sliceBytes (cs : List Char) (start stop : Nat) : List Char :=
  takeBytes (stop - start) (dropBytes start cs)

theorem takeBytes_append_dropBytes (n : Nat) (cs : List Char) :
    takeBytes n cs ++ dropBytes n cs = cs := by
  induction cs generalizing n with
  | nil => cases n <;> rfl
  | cons c cs ih =>
    cases n with
    | zero => rfl
    | succ n => simp [takeBytes, dropBytes, ih]

theorem byteLength_append (cs ds : List Char) :
    byteLength (cs ++ ds) = byteLength cs + byteLength ds := by
  induction cs with
  | nil => simp [byteLength]
  | cons c cs ih => simp [byteLength, ih, Nat.add_assoc]

/-- A cut at a boundary leaves exactly the bytes before it. -/
theorem byteLength_takeBytes {n : Nat} {cs : List Char} (h : isBoundary n cs = true) :
    byteLength (takeBytes n cs) = n := by
  induction cs generalizing n with
  | nil => cases n <;> simp_all [isBoundary, takeBytes, byteLength]
  | cons c cs ih =>
    cases n with
    | zero => rfl
    | succ n =>
      simp only [isBoundary, Bool.and_eq_true, decide_eq_true_eq] at h
      rw [takeBytes, byteLength, ih h.2]
      omega

end ZeroAlloc.Text
