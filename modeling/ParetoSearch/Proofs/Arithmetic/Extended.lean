import Mathlib
import ParetoSearch.Binary64
import ParetoSearch.Normalizer
import ParetoSearch.Proofs.Arithmetic.Absorbing
import ParetoSearch.Proofs.Arithmetic.Exact

/-!
# Exact arithmetic with infinities

Doubles without their rounding: finite numbers are added and multiplied exactly and never
overflow, and around them stand the two infinities and the value that is not a number, with
the rules that the standard of floating point gives them.  What these three do to a rule of
the library is then seen apart from what rounding does.

There is one zero.  A quotient by it takes the sign of the dividend, as it does for the
zero without a sign.
-/

namespace ParetoSearch

inductive Extended (K : Type) where
  | nan
  | infinite (negative : Bool)
  | finite (x : K)

namespace Extended

variable {K : Type} [ExactScalar K]

def add : Extended K → Extended K → Extended K
  | .nan, _ | _, .nan => .nan
  | .infinite a, .infinite b => if a = b then .infinite a else .nan
  | .infinite a, .finite _ => .infinite a
  | .finite _, .infinite b => .infinite b
  | .finite x, .finite y => .finite (x + y)

def neg : Extended K → Extended K
  | .nan => .nan
  | .infinite a => .infinite (!a)
  | .finite x => .finite (-x)

/-- A finite number against an infinity: what is left of the sign, if the number has one. -/
def spread (a : Bool) (x : K) : Extended K :=
  if x = 0 then .nan else .infinite (a ^^ decide (x < 0))

def mul : Extended K → Extended K → Extended K
  | .nan, _ | _, .nan => .nan
  | .infinite a, .infinite b => .infinite (a ^^ b)
  | .infinite a, .finite x | .finite x, .infinite a => spread a x
  | .finite x, .finite y => .finite (x * y)

def div : Extended K → Extended K → Extended K
  | .nan, _ | _, .nan => .nan
  | .infinite _, .infinite _ => .nan
  | .infinite a, .finite y => .infinite (a ^^ decide (y < 0))
  | .finite _, .infinite _ => .finite 0
  | .finite x, .finite y => if y = 0 then spread false x else .finite (x / y)

def equal : Extended K → Extended K → Bool
  | .infinite a, .infinite b => a == b
  | .finite x, .finite y => decide (x = y)
  | _, _ => false

def less : Extended K → Extended K → Bool
  | .infinite a, .infinite b => a && !b
  | .infinite a, .finite _ => a
  | .finite _, .infinite b => !b
  | .finite x, .finite y => decide (x < y)
  | _, _ => false

/-- A function of finite numbers that has no value elsewhere. -/
def onFinite (f : K → Extended K) : Extended K → Extended K
  | .finite x => f x
  | _ => .nan

def abs : Extended K → Extended K
  | .nan => .nan
  | .infinite _ => .infinite false
  | .finite x => .finite |x|

def sqrt : Extended K → Extended K
  | .infinite false => .infinite false
  | .finite x => if x < 0 then .nan else .finite (ExactScalar.sqrt x)
  | _ => .nan

def exp : Extended K → Extended K
  | .nan => .nan
  | .infinite negative => if negative then .finite 0 else .infinite false
  | .finite x => .finite (ExactScalar.exp x)

end Extended

/-- What is not finite has no power.  For what is not a number that is the rule but at the
exponent zero, and no search takes a power of an infinity. -/
instance Extended.toScalar (K : Type) [ExactScalar K] : Scalar (Extended K) where
  zero := .finite 0
  one := .finite 1
  natCast n := .finite n
  intCast n := .finite n
  add := add
  sub x y := add x (neg y)
  mul := mul
  div := div
  neg := neg
  beq := equal
  lt x y := less x y = true
  le x y := (less x y || equal x y) = true
  decidableLT _ _ := inferInstanceAs (Decidable (_ = true))
  decidableLE _ _ := inferInstanceAs (Decidable (_ = true))
  abs := abs
  sqrt := sqrt
  exp := exp
  sin := onFinite fun x => .finite (ExactScalar.sin x)
  pow x y := onFinite (fun x => onFinite (fun y => .finite (ExactScalar.pow x y)) y) x
  pi := .finite ExactScalar.pi
  floor
    | .finite x => ⌊x⌋
    | _ => -Binary64.wordLimit
  unset := .nan

namespace Extended

open Scalar

variable {K : Type} [ExactScalar K]

/-! ## Finite numbers -/

theorem natCast_eq (n : Nat) : (n : Extended K) = finite (n : K) := rfl

theorem zero_eq : (0 : Extended K) = finite 0 := rfl

theorem one_eq : (1 : Extended K) = finite 1 := rfl

theorem finite_add (x y : K) : finite x + finite y = finite (x + y) := rfl

theorem finite_sub (x y : K) : finite x - finite y = finite (x - y) :=
  congrArg finite (sub_eq_add_neg x y).symm

theorem finite_mul (x y : K) : finite x * finite y = finite (x * y) := rfl

theorem finite_div (x : K) {y : K} (hy : y ≠ 0) : finite x / finite y = finite (x / y) := if_neg hy

theorem zero_div_zero : (finite 0 / finite 0 : Extended K) = nan := (if_pos rfl).trans (if_pos rfl)

theorem two_eq_finite : (two : Extended K) = finite two := rfl

theorem ratio_eq_finite (a : Nat) {b : Nat} (hb : b ≠ 0) :
    (ratio a b : Extended K) = finite (ratio a b) :=
  finite_div _ (Nat.cast_ne_zero.mpr hb)

theorem half_eq_finite : (half : Extended K) = finite half :=
  ratio_eq_finite 1 (Nat.succ_ne_zero 1)

theorem finite_lt_finite {x y : K} : finite x < finite y ↔ x < y := decide_eq_true_iff

theorem finite_le_finite {x y : K} : finite x ≤ finite y ↔ x ≤ y := by
  change (decide (x < y) || decide (x = y)) = true ↔ _
  rw [Bool.or_eq_true, decide_eq_true_eq, decide_eq_true_eq, le_iff_lt_or_eq]

theorem isFinite_finite (x : K) : isFinite (finite x) = true := decide_eq_true (add_neg_cancel x)

/-- Between zero and one there is nothing but finite numbers. -/
theorem exists_finite {r : Extended K} (h0 : 0 ≤ r) (h1 : r < 1) :
    ∃ x, r = finite x ∧ 0 ≤ x ∧ x < 1 := by
  cases r with
  | nan => cases h0
  | infinite negative =>
    cases negative with
    | true => cases h0
    | false => cases h1
  | finite x => exact ⟨x, rfl, finite_le_finite.mp h0, finite_lt_finite.mp h1⟩

theorem power_finite {x p : K} (hx : 0 ≤ x) (hp : 0 < p) :
    power (finite x) (finite p) = finite (power x p) := by
  have htwo : (finite p == (two : Extended K)) = (p == two) := rfl
  have hhalf : (finite p == (half : Extended K)) = (p == half) := by
    rw [half_eq_finite]
    rfl
  have hone : (finite p == (1 : Extended K)) = (p == 1) := rfl
  have hinverse : (p == -1) = false := decide_eq_false (by linarith)
  have hinverse' : (finite p == (-1 : Extended K)) = false := hinverse
  simp only [power, htwo, hhalf, hone, hinverse, hinverse', Bool.false_eq_true, if_false]
  split_ifs
  · rfl
  · exact if_neg (not_lt.mpr hx)
  · rfl
  · rfl

theorem clip_finite {x l u : K} (hl : l ≤ x) (hu : x ≤ u) :
    clip (finite x) (finite l) (finite u) = finite x := by
  have hraised : greater (finite x) (finite l) = finite x := by
    rw [greater, decide_eq_true (finite_le_finite.mpr hl), Bool.true_or, if_pos rfl]
  rw [clip, hraised, lesser, decide_eq_true (finite_le_finite.mpr hu), Bool.true_or, if_pos rfl]

/-! ## What is not a number -/

@[simp] theorem neg_nan : -(nan : Extended K) = nan := rfl

@[simp] theorem nan_add (x : Extended K) : nan + x = nan := rfl

@[simp] theorem add_nan (x : Extended K) : x + nan = nan := by cases x <;> rfl

@[simp] theorem nan_sub (x : Extended K) : nan - x = nan := rfl

@[simp] theorem sub_nan (x : Extended K) : x - nan = nan := by cases x <;> rfl

@[simp] theorem nan_mul (x : Extended K) : nan * x = nan := rfl

@[simp] theorem mul_nan (x : Extended K) : x * nan = nan := by cases x <;> rfl

@[simp] theorem nan_div (x : Extended K) : nan / x = nan := rfl

@[simp] theorem div_nan (x : Extended K) : x / nan = nan := by cases x <;> rfl

@[simp] theorem exp_nan : Scalar.exp (nan : Extended K) = nan := rfl

@[simp] theorem not_nan_lt (x : Extended K) : ¬ nan < x := Bool.false_ne_true

@[simp] theorem not_lt_nan (x : Extended K) : ¬ x < nan := by
  cases x <;> exact Bool.false_ne_true

@[simp] theorem not_nan_le (x : Extended K) : ¬ nan ≤ x := Bool.false_ne_true

@[simp] theorem not_le_nan (x : Extended K) : ¬ x ≤ nan := by
  cases x <;> exact Bool.false_ne_true

@[simp] theorem nan_beq (x : Extended K) : (nan == x) = false := rfl

@[simp] theorem not_highest_le_finite (x : K) : ¬ infinite false ≤ finite x := Bool.false_ne_true

@[simp] theorem not_finite_le_lowest (x : K) : ¬ finite x ≤ infinite true := Bool.false_ne_true

@[simp] theorem isNumber_infinite (a : Bool) : isNumber (infinite a : Extended K) = true :=
  beq_self_eq_true a

@[simp] theorem isNumber_finite (x : K) : isNumber (finite x) = true := decide_eq_true rfl

@[simp] theorem greater_nan_left (x : Extended K) : greater nan x = nan := by
  simp [greater, isNumber]

@[simp] theorem greater_nan_right (x : Extended K) : greater x nan = nan := by
  cases x <;> simp [greater]

@[simp] theorem lesser_nan_left (x : Extended K) : lesser nan x = nan := by
  simp [lesser, isNumber]

@[simp] theorem lesser_nan_right (x : Extended K) : lesser x nan = nan := by
  cases x <;> simp [lesser]

theorem clip_nan (l u : Extended K) : clip nan l u = nan := by
  rw [clip, greater_nan_left, lesser_nan_left]

@[simp] theorem power_nan (p : Extended K) : power nan p = nan := by
  unfold power
  split_ifs
  · exact nan_mul nan
  · rfl
  · exact div_nan 1
  · rfl
  · rfl

theorem absorbs_add : Absorbs (α := Extended K) (· + ·) (· = nan) :=
  ⟨fun _ y h => h ▸ nan_add y, fun x _ h => h ▸ add_nan x⟩

theorem absorbs_sub : Absorbs (α := Extended K) (· - ·) (· = nan) :=
  ⟨fun _ y h => h ▸ nan_sub y, fun x _ h => h ▸ sub_nan x⟩

theorem absorbs_mul : Absorbs (α := Extended K) (· * ·) (· = nan) :=
  ⟨fun _ y h => h ▸ nan_mul y, fun x _ h => h ▸ mul_nan x⟩

theorem absorbs_greater : Absorbs (α := Extended K) greater (· = nan) :=
  ⟨fun _ y h => h ▸ greater_nan_left y, fun x _ h => h ▸ greater_nan_right x⟩

theorem absorbs_lesser : Absorbs (α := Extended K) lesser (· = nan) :=
  ⟨fun _ y h => h ▸ lesser_nan_left y, fun x _ h => h ▸ lesser_nan_right x⟩

/-! ## On a scale with an infinite bound -/

theorem absorbs_greatest :
    Absorbs (α := Extended K) greater fun x => x = nan ∨ x = infinite false := by
  constructor
  · rintro x y (rfl | rfl)
    · exact Or.inl (greater_nan_left y)
    · cases y with
      | nan => exact Or.inl (greater_nan_right _)
      | infinite b => cases b <;> exact Or.inr rfl
      | finite y => exact Or.inr rfl
  · rintro x y (rfl | rfl)
    · exact Or.inl (greater_nan_right x)
    · cases x with
      | nan => exact Or.inl (greater_nan_left _)
      | infinite b => cases b <;> exact Or.inr rfl
      | finite x => exact Or.inr (by simp [greater])

theorem absorbs_least :
    Absorbs (α := Extended K) lesser fun x => x = nan ∨ x = infinite true := by
  constructor
  · rintro x y (rfl | rfl)
    · exact Or.inl (lesser_nan_left y)
    · cases y with
      | nan => exact Or.inl (lesser_nan_right _)
      | infinite b => cases b <;> exact Or.inr rfl
      | finite y => exact Or.inr rfl
  · rintro x y (rfl | rfl)
    · exact Or.inl (lesser_nan_right x)
    · cases x with
      | nan => exact Or.inl (lesser_nan_left _)
      | infinite b => cases b <;> exact Or.inr rfl
      | finite x => exact Or.inr (by simp [lesser])

theorem greater_eq_or (x y : Extended K) : greater x y = x ∨ greater x y = y :=
  ite_eq_or_eq _ _ _

/-- Shifted and scaled to the bounds of its column, what is not finite is not a number. -/
theorem scaled_eq_nan {first x : Extended K} {rest : List (Extended K)} (hx : x ∈ first :: rest)
    (hinfinite : isFinite x = false) :
    (x - rest.foldl lesser first) / Normalizer.spanOf (rest.foldl lesser first)
      (rest.foldl greater first) = nan := by
  by_cases hnan : nan ∈ first :: rest
  · rw [absorbs_lesser.foldl ⟨nan, hnan, rfl⟩, sub_nan, nan_div]
  · cases x with
    | nan => exact absurd hx hnan
    | finite x => exact absurd (hinfinite.symm.trans (isFinite_finite x)) Bool.false_ne_true
    | infinite negative =>
      cases negative with
      | true =>
        rcases absorbs_least.foldl ⟨_, hx, Or.inr rfl⟩ with h | h
        · rw [h, sub_nan, nan_div]
        · rw [h]
          exact nan_div _
      | false =>
        have hgreatest : rest.foldl greater first = infinite false := by
          refine (absorbs_greatest.foldl ⟨_, hx, Or.inr rfl⟩).resolve_left fun h => hnan ?_
          exact h ▸ foldl_mem_cons greater_eq_or first rest
        rw [hgreatest]
        cases rest.foldl lesser first with
        | nan | finite y => rfl
        | infinite b => cases b <;> rfl

end Extended
end ParetoSearch
