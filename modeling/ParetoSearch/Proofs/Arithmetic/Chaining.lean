import ParetoSearch.Proofs.Arithmetic.Order
import ParetoSearch.Proofs.Dominance

/-!
# Doubles in a line

Apart from the one that is not a number, doubles lie in a line: the infinities at its ends,
both zeros at one place, and finite ones by sign, exponent and mantissa (`position`).  A
comparison reads off that line (`compare_eq_position`), so comparisons chain.  Among numbers
more is true: where one lies below another, every third number lies on one side or the other.
-/

namespace ParetoSearch

/-- The laws that let preferences by a number follow each other. -/
class ChainedScalar (α : Type) [Scalar α] : Prop extends OrderlyScalar α, ChainedOrder α where
  lt_or_lt_of_lt : ∀ {x z : α}, x < z → ∀ {y : α}, Scalar.isNumber y = true → x < y ∨ y < z

namespace Doubles

open Float.Model Float.Model.UnpackedFloat

/-- Where an unpacked double lies, if it is a number. -/
def position : UnpackedFloat → Option (ℤ ×ₗ ℤ ×ₗ ℤ)
  | .notANumber => none
  | .infinity .positive => some (toLex (2, toLex (0, 0)))
  | .infinity .negative => some (toLex (-2, toLex (0, 0)))
  | .zero _ => some (toLex (0, toLex (0, 0)))
  | .finite .positive m e _ => some (toLex (1, toLex (e, (m : ℤ))))
  | .finite .negative m e _ => some (toLex (-1, toLex (-e, -(m : ℤ))))

theorem compare_natCast (m n : ℕ) : compare (m : ℤ) n = compare m n := by
  simp [compare, compareOfLessAndEq]

theorem compare_neg (x y : ℤ) : compare (-x) (-y) = compare y x := by
  simp [compare, compareOfLessAndEq, eq_comm]

theorem compare_eq_position (u v : UnpackedFloat) :
    u.compare v = (position u).bind fun p => (position v).map (compare p) := by
  cases u with
  | notANumber => cases v <;> rfl
  | infinity s =>
    cases v with
    | notANumber => cases s <;> rfl
    | infinity t => cases s <;> cases t <;> rfl
    | zero t => cases s <;> rfl
    | finite t m e h => cases s <;> cases t <;> rfl
  | zero s =>
    cases v with
    | notANumber | zero t => rfl
    | infinity t | finite t m e h => cases t <;> rfl
  | finite s m e hm =>
    cases v with
    | notANumber | zero t => cases s <;> rfl
    | infinity t => cases s <;> cases t <;> rfl
    | finite t m' e' hm' =>
      cases s <;> cases t
      case positive.positive =>
        change some ((compare e e').then (compare m m')) =
          some ((compare e e').then (compare (m : ℤ) m'))
        rw [compare_natCast]
      case negative.negative =>
        change some ((compare e e').then (compare m m')).swap =
          some ((compare (-e) (-e')).then (compare (-(m : ℤ)) (-m')))
        rw [← size_compare_swap, compare_neg, compare_neg, compare_natCast]
      all_goals rfl

theorem position_eq_some {u : UnpackedFloat} (h : u ≠ .notANumber) : ∃ p, position u = some p := by
  cases u with
  | notANumber => exact absurd rfl h
  | infinity s | finite s m e hm => cases s <;> exact ⟨_, rfl⟩
  | zero s => exact ⟨_, rfl⟩

theorem compare_eq_some {u v : UnpackedFloat} {o : Ordering} (h : u.compare v = some o) :
    ∃ p q, position u = some p ∧ position v = some q ∧ compare p q = o := by
  rw [compare_eq_position, Option.bind_eq_some_iff] at h
  obtain ⟨p, hp, h⟩ := h
  obtain ⟨q, hq, rfl⟩ := Option.map_eq_some_iff.mp h
  exact ⟨p, q, hp, hq, rfl⟩

theorem lt_iff_position {x y : Float} :
    x < y ↔ ∃ p q, position x.toModel.unpack = some p ∧ position y.toModel.unpack = some q ∧
      p < q := by
  rw [lt_iff_compare]
  constructor
  · intro h
    obtain ⟨p, q, hp, hq, hlt⟩ := compare_eq_some h
    exact ⟨p, q, hp, hq, compare_lt_iff_lt.mp hlt⟩
  · rintro ⟨p, q, hp, hq, hlt⟩
    rw [compare_eq_position, hp, hq]
    exact congrArg some (compare_lt_iff_lt.mpr hlt)

theorem le_iff_position {x y : Float} :
    x ≤ y ↔ ∃ p q, position x.toModel.unpack = some p ∧ position y.toModel.unpack = some q ∧
      p ≤ q := by
  rw [le_iff_compare]
  constructor
  · rintro ⟨o, ho, hle⟩
    obtain ⟨p, q, hp, hq, rfl⟩ := compare_eq_some ho
    exact ⟨p, q, hp, hq, compare_le_iff_le.mp (Ordering.isLE_iff_ne_gt.mp hle)⟩
  · rintro ⟨p, q, hp, hq, hle⟩
    refine ⟨compare p q, ?_, Ordering.isLE_iff_ne_gt.mpr (compare_le_iff_le.mpr hle)⟩
    rw [compare_eq_position, hp, hq]
    rfl

end Doubles

instance : ChainedScalar Float where
  toOrderlyScalar := inferInstance
  le_trans h h' := by
    obtain ⟨p, q, hp, hq, hle⟩ := Doubles.le_iff_position.mp h
    obtain ⟨q', r, hq', hr, hle'⟩ := Doubles.le_iff_position.mp h'
    obtain rfl := Option.some.inj (hq.symm.trans hq')
    exact Doubles.le_iff_position.mpr ⟨p, r, hp, hr, hle.trans hle'⟩
  lt_of_lt_of_le h h' := by
    obtain ⟨p, q, hp, hq, hlt⟩ := Doubles.lt_iff_position.mp h
    obtain ⟨q', r, hq', hr, hle⟩ := Doubles.le_iff_position.mp h'
    obtain rfl := Option.some.inj (hq.symm.trans hq')
    exact Doubles.lt_iff_position.mpr ⟨p, r, hp, hr, hlt.trans_le hle⟩
  lt_or_lt_of_lt h y hy := by
    obtain ⟨p, r, hp, hr, hlt⟩ := Doubles.lt_iff_position.mp h
    obtain ⟨q, hq⟩ := Doubles.position_eq_some (Doubles.unpack_ne_of_number hy)
    rcases lt_or_ge p q with hpq | hqp
    · exact Or.inl (Doubles.lt_iff_position.mpr ⟨p, q, hp, hq, hpq⟩)
    · exact Or.inr (Doubles.lt_iff_position.mpr ⟨q, r, hq, hr, hqp.trans_lt hlt⟩)

end ParetoSearch
