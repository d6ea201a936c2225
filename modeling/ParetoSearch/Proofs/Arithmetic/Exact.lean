import Mathlib.Algebra.Order.BigOperators.Group.List
import Mathlib.Algebra.Order.Floor.Ring
import Mathlib.Analysis.Real.Sqrt
import Mathlib.Analysis.SpecialFunctions.Pow.Real
import Mathlib.Analysis.SpecialFunctions.Trigonometric.Basic
import ParetoSearch.Container

/-!
# Arithmetic without rounding

An exact number is an element of an ordered field in which every number has a
floor and every number that is not negative has a root.  The operations of
`Scalar` are then those of the field, and each rule of the library reads as the
formula it is written as.

The remaining operations (`exp`, `pow`, ...) are left open: what is proved about
exact numbers without a further hypothesis holds whatever they are.  The reals
are the instance that is meant.
-/

namespace ParetoSearch

class ExactScalar (α : Type) extends Field α, LinearOrder α, IsStrictOrderedRing α,
    FloorRing α where
  sqrt : α → α
  exp : α → α
  sin : α → α
  pow : α → α → α
  pi : α
  unset : α
  sqrt_nonneg : ∀ x, 0 ≤ sqrt x
  sqrt_mul_self : ∀ x, 0 ≤ x → sqrt x * sqrt x = x

instance ExactScalar.toScalar (α : Type) [ExactScalar α] : Scalar α where
  beq x y := decide (x = y)
  decidableLT := inferInstance
  decidableLE := inferInstance
  abs x := |x|
  sqrt := ExactScalar.sqrt
  exp := ExactScalar.exp
  sin := ExactScalar.sin
  pow := ExactScalar.pow
  pi := ExactScalar.pi
  floor x := ⌊x⌋
  unset := ExactScalar.unset

noncomputable instance : ExactScalar ℝ where
  sqrt := Real.sqrt
  exp := Real.exp
  sin := Real.sin
  pow x y := x ^ y
  pi := Real.pi
  unset := 0
  sqrt_nonneg := Real.sqrt_nonneg
  sqrt_mul_self _ := Real.mul_self_sqrt

variable {α : Type} [ExactScalar α]

namespace Scalar

@[simp] theorem beq_iff (x y : α) : (x == y) = true ↔ x = y := decide_eq_true_iff

@[simp] theorem isNumber_eq_true (x : α) : isNumber x = true := by
  simp [isNumber]

@[simp] theorem isFinite_eq_true (x : α) : isFinite x = true := by
  simp [isFinite]

theorem two_eq : (two : α) = 2 := Nat.cast_ofNat

theorem half_eq : (half : α) = 1 / 2 := by
  rw [half, ratio, Nat.cast_one, Nat.cast_ofNat]

theorem le_of_sqrt_le {x t : α} (hx : 0 ≤ x) (h : sqrt x ≤ t) : x ≤ t * t := by
  have hroot : 0 ≤ sqrt x := ExactScalar.sqrt_nonneg x
  calc x = sqrt x * sqrt x := (ExactScalar.sqrt_mul_self x hx).symm
    _ ≤ t * t := mul_self_le_mul_self hroot h

theorem sqrt_lt_sqrt {x y : α} (hx : 0 ≤ x) (h : x < y) : sqrt x < sqrt y := by
  by_contra hle
  have hback : y ≤ sqrt x * sqrt x := le_of_sqrt_le (hx.trans h.le) (not_lt.mp hle)
  have hroot : sqrt x * sqrt x = x := ExactScalar.sqrt_mul_self x hx
  exact h.not_ge (hroot ▸ hback)

theorem sqrt_zero : sqrt (0 : α) = 0 :=
  mul_self_eq_zero.mp (ExactScalar.sqrt_mul_self 0 le_rfl)

/-- Where the exponent is positive, the exact operations are powers like any other. -/
theorem power_eq_rpow (x : ℝ) {p : ℝ} (hp : 0 < p) : power x p = x ^ p := by
  unfold power
  simp only [beq_iff, half_eq, two_eq]
  split_ifs with h2 h1 hneg hone
  · rw [h2, Real.rpow_two, sq]
  · rw [h1, ← Real.sqrt_eq_rpow]
    rfl
  · linarith
  · rw [hone, Real.rpow_one]
  · rfl

end Scalar

namespace Vector

theorem leftSum_eq_sum (xs : List α) : leftSum xs = xs.sum := List.sum_eq_foldl.symm

/-- A vector is at least as long as each of its entries. -/
theorem abs_le_of_norm_le {xs : List α} {t : α} (h : norm xs ≤ t) {x : α} (hx : x ∈ xs) :
    |x| ≤ t := by
  have ht : 0 ≤ t := le_trans (ExactScalar.sqrt_nonneg _) h
  have hsquares : ∀ y ∈ xs.map fun x => x * x, 0 ≤ y := by
    intro y hy
    obtain ⟨z, -, rfl⟩ := List.mem_map.mp hy
    exact mul_self_nonneg z
  have hone : x * x ≤ (xs.map fun x => x * x).sum :=
    List.single_le_sum hsquares _ (List.mem_map_of_mem hx)
  have hsum : (xs.map fun x => x * x).sum ≤ t * t := by
    rw [norm, leftSum_eq_sum] at h
    exact Scalar.le_of_sqrt_le (List.sum_nonneg hsquares) h
  exact abs_le_of_sq_le_sq (by rw [sq, sq]; exact le_trans hone hsum) ht

theorem norm_le_zero_iff {xs : List α} : norm xs ≤ 0 ↔ ∀ x ∈ xs, x = 0 := by
  constructor
  · intro h x hx
    exact abs_nonpos_iff.mp (abs_le_of_norm_le h hx)
  · intro h
    have hsquares : (xs.map fun x => x * x).sum = 0 := by
      refine List.sum_eq_zero fun y hy => ?_
      obtain ⟨x, hx, rfl⟩ := List.mem_map.mp hy
      rw [h x hx, mul_zero]
    rw [norm, leftSum_eq_sum, hsquares, Scalar.sqrt_zero]

/-- Only equal vectors have no distance. -/
theorem norm_sub_le_zero_iff {a b : List α} (h : a.length = b.length) :
    norm ((a.zip b).map fun p => p.1 - p.2) ≤ 0 ↔ a = b := by
  rw [norm_le_zero_iff]
  constructor
  · intro hzero
    rw [← List.forall₂_eq_eq_eq, List.forall₂_iff_zip]
    refine ⟨h, fun {x y} hxy => ?_⟩
    exact sub_eq_zero.mp (hzero _ (List.mem_map_of_mem hxy))
  · rintro rfl x hx
    obtain ⟨p, hp, rfl⟩ := List.mem_map.mp hx
    rw [List.zip_eq_zipWith, List.zipWith_self] at hp
    obtain ⟨y, -, rfl⟩ := List.mem_map.mp hp
    exact sub_self y

end Vector
end ParetoSearch
