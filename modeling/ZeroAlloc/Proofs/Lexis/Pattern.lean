import ZeroAlloc.Proofs.Lexis.Shape
set_option autoImplicit false

/-! # Patterns

The regular expressions that lexical rules stand for. `Pattern.before` tries the ways in which an
expression can cover the start of a text in the order of preference: the alternatives from left to
right, and as many repetitions as possible first, or as few. A way that does not lead on to what
stands behind the expression is given up for the next one, so that the first match need not be the
longest.

Most repetitions are of one class of characters and never have to be given up again, either because
what follows cannot start with such a character or because it can be empty (`many_one_before`). -/

namespace ZeroAlloc.Lexis

/-! ## More on shapes -/

namespace Shape

/-- The shape is there in every text. -/
def IsTotal (s : Shape) : Prop :=
  ∀ cs, (s cs).isSome = true

/-- The shape that covers nothing. -/
def nothing : Shape := fun _ => some 0

/-- The shape that is never there. -/
def never : Shape := fun _ => none

theorem andThen_assoc (s t u : Shape) : (s.andThen t).andThen u = s.andThen (t.andThen u) := by
  funext cs
  unfold andThen
  cases s cs with
  | none => rfl
  | some n =>
    cases ht : t (cs.drop n) with
    | none => simp [ht]
    | some m => simp [ht, List.drop_drop, Function.comp_def, Nat.add_assoc]

theorem andThen_nothing (s : Shape) : s.andThen nothing = s := by
  funext cs
  unfold andThen nothing
  cases s cs <;> simp

theorem isTotal_nothing : nothing.IsTotal := fun _ => rfl

theorem IsTotal.andThen {s t : Shape} (hs : s.IsTotal) (ht : t.IsTotal) :
    (s.andThen t).IsTotal := by
  intro cs
  obtain ⟨n, hn⟩ := Option.isSome_iff_exists.1 (hs cs)
  rw [Shape.andThen, hn, Option.bind_some, Option.isSome_map]
  exact ht _

theorem isTotal_total (extent : List Char → Nat) : (total extent).IsTotal := fun _ => rfl

/-- Of two shapes of which the second one is always there, the first one decides. -/
theorem orElse_eq_total_andThen {f : List Char → Nat} {s : Shape} (hs : s.IsTotal) :
    ((ofExtent f).andThen s).orElse s = (total f).andThen s := by
  funext cs
  rw [orElse, ofExtent_andThen, total_andThen]
  split
  · rename_i hzero
    cases h : s cs <;> simp [hzero, h]
  · obtain ⟨n, hn⟩ := Option.isSome_iff_exists.1 (hs (cs.drop (f cs)))
    simp [hn]

/-- A shape with an extent that may also be absent is there in every text. -/
theorem ofExtent_orElse_nothing (f : List Char → Nat) : (ofExtent f).orElse nothing = total f := by
  funext cs
  rw [orElse, ofExtent]
  split <;> simp_all [nothing, total]

theorem one_orElse_one (p q : Char → Bool) :
    (one p).orElse (one q) = one fun c => p c || q c := by
  funext cs
  rcases cs with _ | ⟨c, cs⟩
  · rfl
  · by_cases hp : p c = true <;> simp [orElse, hp]

/-- What may follow a shape is an alternative to the shape alone. -/
theorem andThen_orElse_nothing (s t : Shape) :
    s.andThen (t.orElse nothing) = (s.andThen t).orElse s := by
  funext cs
  rw [orElse, andThen, andThen]
  cases s cs with
  | none => rfl
  | some n => cases h : t (cs.drop n) <;> simp [orElse, nothing, h]

/-- Where only one of two shapes can be there, what follows cannot change which one it is. -/
theorem orElse_andThen {s t : Shape} (h : ∀ cs, s cs = none ∨ t cs = none) (u : Shape) :
    (s.orElse t).andThen u = (s.andThen u).orElse (t.andThen u) := by
  funext cs
  rcases h cs with hs | ht
  · simp [andThen, orElse, hs]
  · simp [andThen, orElse, ht]

end Shape

/-! ## Regular expressions -/

/-- A regular expression. -/
inductive Pattern where
  | empty
  /-- A character of a class. -/
  | one (p : Char → Bool)
  /-- The end of a word, behind a character of the word. -/
  | wordEnd
  | andThen (a b : Pattern)
  | orElse (a b : Pattern)
  /-- As many times as possible. -/
  | many (a : Pattern)
  /-- As few times as possible. -/
  | few (a : Pattern)

namespace Pattern

open Shape (IsTotal nothing never)

/-- At least once, and as many times as possible. -/
def plus (a : Pattern) : Pattern := a.andThen (many a)

/-- Once if possible. -/
def optional (a : Pattern) : Pattern := a.orElse empty

/-- A shape behind at most `n` rounds. Where both a further round and the shape lead on, `prefer`
says which of them counts. -/
def rounds (prefer : Option Nat → Option Nat → Option Nat) (round : Shape → Shape) (next : Shape) :
    (n : Nat) → Shape
  | 0 => next
  | n + 1 => fun cs => prefer (round (rounds prefer round next n) cs) (next cs)

/-- What the pattern and a shape behind it cover at the start of a text, in the first way that
covers both. A round of a repetition takes at least one character, so there are at most as many
rounds as characters. -/
def before : Pattern → Shape → Shape
  | empty, next => next
  | one p, next => (Shape.one p).andThen next
  | wordEnd, next => (Shape.notBefore Text.isWordChar).andThen next
  | andThen a b, next => a.before (b.before next)
  | orElse a b, next => (a.before next).orElse (b.before next)
  | many a, next => fun cs => rounds Option.or a.before next cs.length cs
  | few a, next => fun cs => rounds (fun more rest => rest.or more) a.before next cs.length cs

/-- What the pattern covers at the start of a text. -/
def shape (p : Pattern) : Shape := p.before nothing

@[simp] theorem empty_before (next : Shape) : empty.before next = next := rfl

@[simp] theorem one_before (p : Char → Bool) (next : Shape) :
    (one p).before next = (Shape.one p).andThen next := rfl

@[simp] theorem wordEnd_before (next : Shape) :
    wordEnd.before next = (Shape.notBefore Text.isWordChar).andThen next := rfl

@[simp] theorem andThen_before (a b : Pattern) (next : Shape) :
    (a.andThen b).before next = a.before (b.before next) := rfl

@[simp] theorem orElse_before (a b : Pattern) (next : Shape) :
    (a.orElse b).before next = (a.before next).orElse (b.before next) := rfl

@[simp] theorem optional_before (a : Pattern) (next : Shape) :
    (optional a).before next = (a.before next).orElse next := rfl

/-! ## Rounds -/

theorem rounds_succ (prefer : Option Nat → Option Nat → Option Nat) (round : Shape → Shape)
    (next : Shape) (n : Nat) (cs : List Char) :
    rounds prefer round next (n + 1) cs =
      prefer (round (rounds prefer round next n) cs) (next cs) := rfl

theorem rounds_never {prefer : Option Nat → Option Nat → Option Nat} (h : prefer none none = none)
    {round : Shape → Shape} (hround : round never = never) (n : Nat) :
    rounds prefer round never n = never := by
  induction n with
  | zero => rfl
  | succ n ih =>
    rw [rounds, ih, hround]
    funext cs
    exact h

/-- A pattern is not there where nothing can follow it. -/
theorem before_never (a : Pattern) : a.before never = never := by
  induction a with
  | empty => rfl
  | one p =>
    funext cs
    cases cs with
    | nil => rfl
    | cons c cs =>
      rw [one_before, Shape.one_andThen_cons]
      split <;> rfl
  | wordEnd =>
    funext cs
    rw [wordEnd_before, Shape.notBefore_andThen]
    split <;> rfl
  | andThen a b iha ihb => rw [andThen_before, ihb, iha]
  | orElse a b iha ihb =>
    rw [orElse_before, iha, ihb]
    rfl
  | many a ih =>
    funext cs
    exact congrFun (rounds_never rfl ih cs.length) cs
  | few a ih =>
    funext cs
    exact congrFun (rounds_never rfl ih cs.length) cs

/-- The pattern covers at least one character, so it only depends on what follows in shorter
texts. -/
def Advances (a : Pattern) : Prop :=
  ∀ (s t : Shape) (cs : List Char),
    (∀ rest : List Char, rest.length < cs.length → s rest = t rest) → a.before s cs = a.before t cs

theorem advances_one (p : Char → Bool) : (one p).Advances := by
  intro s t cs h
  cases cs with
  | nil => rfl
  | cons c cs => simp only [one_before, Shape.one_andThen_cons, h cs (by simp)]

theorem Advances.andThen {a b : Pattern} (ha : a.Advances) (hb : b.Advances) :
    (a.andThen b).Advances := fun s t cs h =>
  ha _ _ cs fun rest hrest => hb s t rest fun more hmore => h more (Nat.lt_trans hmore hrest)

theorem Advances.orElse {a b : Pattern} (ha : a.Advances) (hb : b.Advances) :
    (a.orElse b).Advances := by
  intro s t cs h
  rw [orElse_before, orElse_before, Shape.orElse, Shape.orElse, ha s t cs h, hb s t cs h]

/-- There is no round at the end of a text. -/
theorem Advances.before_nil {a : Pattern} (h : a.Advances) (s : Shape) : a.before s [] = none := by
  have hnever := h s never [] fun rest hrest => absurd hrest (Nat.not_lt_zero _)
  rw [hnever, before_never]
  rfl

section Rounds

variable {prefer : Option Nat → Option Nat → Option Nat} (hprefer : ∀ x, prefer none x = x)
  {a : Pattern} (ha : a.Advances) (next : Shape)

include hprefer ha

theorem rounds_nil (n : Nat) : rounds prefer a.before next n [] = next [] := by
  cases n with
  | zero => rfl
  | succ n => rw [rounds_succ, ha.before_nil, hprefer]

/-- All numbers of rounds that the length of a text allows come to the same. -/
theorem rounds_eq_rounds {m n : Nat} {cs : List Char} (hm : cs.length ≤ m) (hn : cs.length ≤ n) :
    rounds prefer a.before next m cs = rounds prefer a.before next n cs := by
  induction m generalizing n cs with
  | zero =>
    obtain rfl := List.length_eq_zero_iff.1 (Nat.le_zero.1 hm)
    rw [rounds_nil hprefer ha, rounds_nil hprefer ha]
  | succ m ih =>
    cases cs with
    | nil => rw [rounds_nil hprefer ha, rounds_nil hprefer ha]
    | cons c cs =>
      rw [List.length_cons] at hm hn
      obtain ⟨n, rfl⟩ := Nat.exists_eq_add_of_le' (Nat.le_trans (Nat.le_add_left 1 _) hn)
      rw [rounds_succ, rounds_succ, ha _ _ (c :: cs) fun rest hrest => ?_]
      rw [List.length_cons] at hrest
      exact ih (by omega) (by omega)

/-- One round more, or none. -/
theorem rounds_length (cs : List Char) :
    rounds prefer a.before next cs.length cs =
      prefer (a.before (fun rest => rounds prefer a.before next rest.length rest) cs)
        (next cs) := by
  rw [rounds_eq_rounds hprefer ha next (Nat.le_refl _) (Nat.le_succ cs.length), rounds_succ]
  congr 1
  exact ha _ _ cs fun rest hrest =>
    rounds_eq_rounds hprefer ha next (Nat.le_of_lt hrest) (Nat.le_refl _)

end Rounds

theorem many_before {a : Pattern} (ha : a.Advances) (next : Shape) :
    (many a).before next = (a.before ((many a).before next)).orElse next := by
  funext cs
  exact rounds_length (fun _ => Option.none_or) ha next cs

theorem few_before {a : Pattern} (ha : a.Advances) (next : Shape) :
    (few a).before next = next.orElse (a.before ((few a).before next)) := by
  funext cs
  exact rounds_length (fun _ => Option.or_none) ha next cs

/-! ## Repetitions of a class of characters -/

/-- A repetition of a class takes all characters of the class, unless what follows has to start with
one of them. -/
theorem many_one_before {p : Char → Bool} {next : Shape}
    (h : ∀ c cs, p c = true → next (c :: cs) = none ∨ (next (cs.drop (run p cs))).isSome = true) :
    (many (one p)).before next = (Shape.total (run p)).andThen next := by
  funext cs
  induction cs with
  | nil =>
    rw [many_before (advances_one p)]
    simp [Shape.orElse, run]
  | cons c cs ih =>
    rw [many_before (advances_one p), Shape.orElse, one_before, Shape.one_andThen_cons, ih]
    by_cases hc : p c = true
    · have hrun : run p (c :: cs) = 1 + run p cs := by simp [run, hc, Nat.add_comm]
      have hdrop : (c :: cs).drop (1 + run p cs) = cs.drop (run p cs) := by
        rw [Nat.add_comm, List.drop_succ_cons]
      rw [if_pos hc, Shape.total_andThen, Shape.total_andThen, hrun, hdrop]
      rcases h c cs hc with hnone | hsome
      · simp [hnone, Function.comp_def, Nat.add_assoc]
      · obtain ⟨n, hn⟩ := Option.isSome_iff_exists.1 hsome
        simp [hn, Nat.add_assoc]
    · simp [run, hc]

theorem many_one_before_of_isTotal {p : Char → Bool} {next : Shape} (h : next.IsTotal) :
    (many (one p)).before next = (Shape.total (run p)).andThen next :=
  many_one_before fun _ _ _ => .inr (h _)

theorem many_one_before_of_stops {p : Char → Bool} {next : Shape}
    (h : ∀ c cs, p c = true → next (c :: cs) = none) :
    (many (one p)).before next = (Shape.total (run p)).andThen next :=
  many_one_before fun c cs hc => .inl (h c cs hc)

/-- What may be there is there if it leads on at all. -/
theorem optional_before_of_isTotal {a : Pattern} {f : List Char → Nat} {next : Shape}
    (ha : a.before next = (Shape.ofExtent f).andThen next) (h : next.IsTotal) :
    (optional a).before next = (Shape.total f).andThen next := by
  rw [optional_before, ha]
  exact Shape.orElse_eq_total_andThen h

/-! ## The characters of a match -/

/-- All characters that the pattern can match satisfy `q`. -/
def IsWithin (q : Char → Prop) : Pattern → Prop
  | empty => True
  | one p => ∀ c, p c = true → q c
  | wordEnd => True
  | andThen a b => a.IsWithin q ∧ b.IsWithin q
  | orElse a b => a.IsWithin q ∧ b.IsWithin q
  | many a => a.IsWithin q
  | few a => a.IsWithin q

theorem isWithin_true (p : Pattern) : p.IsWithin fun _ => True := by
  induction p with
  | empty | wordEnd => trivial
  | one p => exact fun _ _ => trivial
  | andThen a b iha ihb | orElse a b iha ihb => exact ⟨iha, ihb⟩
  | many a ih | few a ih => exact ih

/-- Characters that satisfy `q` stand in front of what the next shape covers. -/
def Precedes (q : Char → Prop) (f : Shape → Shape) : Prop :=
  ∀ next cs n, f next cs = some n → ∃ covered rest m, cs = covered ++ rest ∧
    (∀ c ∈ covered, q c) ∧ next rest = some m ∧ n = covered.length + m

theorem precedes_rounds {q : Char → Prop} {prefer : Option Nat → Option Nat → Option Nat}
    (hprefer : ∀ x y n, prefer x y = some n → x = some n ∨ y = some n) {round : Shape → Shape}
    (hround : Precedes q round) (k : Nat) :
    Precedes q fun next => rounds prefer round next k := by
  intro next
  induction k with
  | zero => exact fun cs n h => ⟨[], cs, n, rfl, by simp, h, by simp⟩
  | succ k ih =>
    intro cs n h
    dsimp only at h
    rw [rounds_succ] at h
    rcases hprefer _ _ _ h with h | h
    · obtain ⟨covered, rest, m, rfl, hcovered, hm, rfl⟩ := hround _ _ _ h
      obtain ⟨more, rest, k, rfl, hmore, hk, rfl⟩ := ih rest m hm
      refine ⟨covered ++ more, rest, k, by simp, ?_, hk, by simp [Nat.add_assoc]⟩
      exact List.forall_mem_append.2 ⟨hcovered, hmore⟩
    · exact ⟨[], cs, n, rfl, by simp, h, by simp⟩

/-- What a pattern and the shape behind it cover starts with the characters of the pattern. -/
theorem IsWithin.precedes {q : Char → Prop} {p : Pattern} (h : p.IsWithin q) :
    Precedes q p.before := by
  induction p with
  | empty => exact fun next cs n hn => ⟨[], cs, n, rfl, by simp, hn, by simp⟩
  | one p =>
    rintro next (_ | ⟨c, cs⟩) n hn
    · cases hn
    · rw [one_before, Shape.one_andThen_cons] at hn
      split at hn
      · rename_i hc
        obtain ⟨m, hm, rfl⟩ := Option.map_eq_some_iff.1 hn
        exact ⟨[c], cs, m, rfl, by simpa using h c hc, hm, rfl⟩
      · cases hn
  | wordEnd =>
    intro next cs n hn
    rw [wordEnd_before, Shape.notBefore_andThen] at hn
    split at hn
    · cases hn
    · exact ⟨[], cs, n, rfl, by simp, hn, by simp⟩
  | andThen a b iha ihb =>
    intro next cs n hn
    obtain ⟨covered, rest, m, rfl, hcovered, hm, rfl⟩ := iha h.1 _ _ _ hn
    obtain ⟨more, rest, k, rfl, hmore, hk, rfl⟩ := ihb h.2 _ _ _ hm
    refine ⟨covered ++ more, rest, k, by simp, ?_, hk, by simp [Nat.add_assoc]⟩
    exact List.forall_mem_append.2 ⟨hcovered, hmore⟩
  | orElse a b iha ihb =>
    intro next cs n hn
    rcases Option.or_eq_some_iff.1 hn with hn | ⟨-, hn⟩
    · exact iha h.1 _ _ _ hn
    · exact ihb h.2 _ _ _ hn
  | many a ih =>
    intro next cs n hn
    refine precedes_rounds (fun x y m hm => ?_) (ih h) cs.length next cs n hn
    exact (Option.or_eq_some_iff.1 hm).imp_right And.right
  | few a ih =>
    intro next cs n hn
    refine precedes_rounds (fun x y m hm => ?_) (ih h) cs.length next cs n hn
    exact (Option.or_eq_some_iff.1 hm).symm.imp_left And.right

/-- What a pattern matches is an initial part of the text, made of its characters. -/
theorem IsWithin.exists_of_shape {q : Char → Prop} {p : Pattern} (h : p.IsWithin q)
    {cs : List Char} {n : Nat} (hn : p.shape cs = some n) :
    ∃ covered rest, cs = covered ++ rest ∧ (∀ c ∈ covered, q c) ∧ n = covered.length := by
  obtain ⟨covered, rest, m, hcs, hcovered, hm, rfl⟩ := h.precedes _ _ _ hn
  obtain rfl : 0 = m := Option.some.inj hm
  exact ⟨covered, rest, hcs, hcovered, rfl⟩

/-- A match that does not go beyond a part of the text is made of characters of this part. -/
theorem IsWithin.forall_mem {q : Char → Prop} {p : Pattern} (h : p.IsWithin q)
    {covered rest : List Char} (hn : p.shape (covered ++ rest) = some covered.length) :
    ∀ c ∈ covered, q c := by
  obtain ⟨covered', rest', hcs, hcovered, hlength⟩ := h.exists_of_shape hn
  rwa [(List.append_inj hcs hlength).1]

end Pattern

end ZeroAlloc.Lexis
