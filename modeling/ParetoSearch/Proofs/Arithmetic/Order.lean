import Mathlib
import ParetoSearch.Proofs.Arithmetic.Signs
import ParetoSearch.Proofs.Arithmetic.Symmetry

/-!
# The order of doubles

What a comparison may count on, infinities and values that are not numbers included:
of `x < y`, `y < x` and `x == y` at most one holds, `x ≤ y` excludes `y < x`, and for two
numbers one of the three holds.  A value that is not a number satisfies none of them, so
the last law is the only one that asks for numbers.

On doubles all of this is one fact, `compare_swap`: what the library compares two
unpacked doubles to is turned round with them.
-/

namespace ParetoSearch

/-- The laws that let a preference be turned round. -/
class OrderlyScalar (α : Type) [Scalar α] : Prop extends SymmetricScalar α where
  lt_asymm : ∀ {x y : α}, x < y → ¬ y < x
  not_lt_of_le : ∀ {x y : α}, x ≤ y → ¬ y < x
  not_lt_of_beq : ∀ {x y : α}, (x == y) = true → ¬ x < y
  lt_or_lt : ∀ {x y : α}, Scalar.isNumber x = true → Scalar.isNumber y = true →
    (x == y) = false → x < y ∨ y < x

namespace Doubles

open Float.Model Float.Model.UnpackedFloat

theorem sign_compare_swap (s t : Sign) : compare s t = (compare t s).swap := by
  cases s <;> cases t <;> rfl

theorem size_compare_swap (e e' : Int) (m m' : Nat) :
    (compare e e').then (compare m m') = ((compare e' e).then (compare m' m)).swap := by
  rw [Ordering.swap_then, Std.OrientedOrd.eq_swap (a := e), Std.OrientedOrd.eq_swap (a := m)]

theorem compare_swap (u v : UnpackedFloat) : u.compare v = (v.compare u).map Ordering.swap := by
  cases u with
  | notANumber => cases v <;> rfl
  | infinity s =>
    cases v with
    | infinity t => exact congrArg some (sign_compare_swap s t)
    | notANumber => cases s <;> rfl
    | zero t | finite t m e h => cases s <;> cases t <;> rfl
  | zero s =>
    cases v with
    | notANumber | zero t => rfl
    | infinity t | finite t m e h => cases t <;> rfl
  | finite s m e h =>
    cases v with
    | notANumber => cases s <;> rfl
    | infinity t | zero t => cases s <;> cases t <;> rfl
    | finite t m' e' h' =>
      cases s <;> cases t
      case positive.positive => exact congrArg some (size_compare_swap e e' m m')
      case negative.negative =>
        exact congrArg some (congrArg Ordering.swap (size_compare_swap e e' m m'))
      all_goals rfl

theorem compare_isSome {u v : UnpackedFloat} (hu : u ≠ .notANumber) (hv : v ≠ .notANumber) :
    ∃ o, u.compare v = some o := by
  cases u with
  | notANumber => exact absurd rfl hu
  | infinity s => cases v <;> first | exact absurd rfl hv | (cases s <;> exact ⟨_, rfl⟩)
  | zero s =>
    cases v with
    | notANumber => exact absurd rfl hv
    | zero t => exact ⟨_, rfl⟩
    | infinity t | finite t m e h => cases t <;> exact ⟨_, rfl⟩
  | finite s m e h =>
    cases v with
    | notANumber => exact absurd rfl hv
    | infinity t | zero t | finite t m' e' h' => cases s <;> cases t <;> exact ⟨_, rfl⟩

theorem le_iff_compare (x y : Float) :
    x ≤ y ↔ ∃ o, x.toModel.unpack.compare y.toModel.unpack = some o ∧ o.isLE = true := by
  change decide (x.toModel ≤ y.toModel) = true ↔ _
  rw [decide_eq_true_iff]
  change (x.toModel.unpack.compare y.toModel.unpack).any (·.isLE) = true ↔ _
  rw [Option.any_eq_true]

theorem unpack_ne_of_number {x : Float} (h : (x == x) = true) :
    x.toModel.unpack ≠ .notANumber := by
  intro hu
  rw [beq_iff_compare, hu] at h
  cases h

theorem lt_iff_compare_gt (x y : Float) :
    y < x ↔ x.toModel.unpack.compare y.toModel.unpack = some .gt := by
  rw [lt_iff_compare, compare_swap y.toModel.unpack]
  rcases x.toModel.unpack.compare y.toModel.unpack with _ | _ | _ | _ <;> simp

theorem lt_of_not_le {x y : Float} (hx : Scalar.isNumber x = true)
    (hy : Scalar.isNumber y = true) (h : ¬ x ≤ y) : y < x := by
  obtain ⟨o, ho⟩ := compare_isSome (unpack_ne_of_number hx) (unpack_ne_of_number hy)
  rw [lt_iff_compare_gt, ho]
  cases o with
  | gt => rfl
  | lt | eq => exact absurd ((le_iff_compare x y).mpr ⟨_, ho, rfl⟩) h

end Doubles

instance : OrderlyScalar Float where
  lt_asymm {x y} h := by
    rw [Doubles.lt_iff_compare] at h
    rw [Doubles.lt_iff_compare_gt, h]
    rintro ⟨⟩
  not_lt_of_le {x y} h := by
    obtain ⟨o, ho, hle⟩ := (Doubles.le_iff_compare x y).mp h
    rw [Doubles.lt_iff_compare_gt, ho]
    rintro ⟨⟩
    cases hle
  not_lt_of_beq {x y} h := by
    rw [Doubles.beq_iff_compare] at h
    rw [Doubles.lt_iff_compare, h]
    rintro ⟨⟩
  lt_or_lt {x y} hx hy hne := by
    obtain ⟨o, ho⟩ :=
      Doubles.compare_isSome (Doubles.unpack_ne_of_number hx) (Doubles.unpack_ne_of_number hy)
    rw [← Bool.not_eq_true, Doubles.beq_iff_compare, ho] at hne
    rw [Doubles.lt_iff_compare, Doubles.lt_iff_compare_gt, ho]
    cases o with
    | lt => exact Or.inl rfl
    | gt => exact Or.inr rfl
    | eq => exact absurd rfl hne

end ParetoSearch
