import Mathlib
import ParetoSearch.Binary64

/-!
# Symmetry in the arithmetic of doubles

Two laws hold of all doubles, infinities and values that are not numbers
included: whether two of them are equal does not depend on their order, and
neither does the square of their difference.

The first is the library's.  The second is not the law of a ring.  A difference
taken the other way round is rounded the other way round as well, so the two
differences agree up to their sign, and a product with itself forgets the sign.
The proof follows the sign through rounding and packing, neither of which looks at
it; `abs` is what says "up to the sign".
-/

namespace ParetoSearch

/-- The laws that make a comparison of two solutions indifferent to their order.
They ask nothing of the order itself. -/
class SymmetricScalar (α : Type) [Scalar α] : Prop where
  beq_comm : ∀ x y : α, (x == y) = (y == x)
  sub_mul_self_comm : ∀ x y : α, (x - y) * (x - y) = (y - x) * (y - x)

namespace Doubles

open Float.Model Float.Model.UnpackedFloat

/-! ## Differences up to their sign -/

theorem abs_round (spec : Format) (s t : Sign) (m : Nat) (e : Int) :
    (UnpackedFloat.round spec s m e).abs = (UnpackedFloat.round spec t m e).abs := by
  simp only [UnpackedFloat.round, roundWithAccuracy]
  split <;> rfl

theorem abs_normalize_neg (spec : Format) (k e : Int) (z : Sign) :
    (UnpackedFloat.normalize spec (-k) e z).abs = (UnpackedFloat.normalize spec k e z).abs := by
  unfold UnpackedFloat.normalize
  rcases Int.lt_trichotomy k 0 with h | rfl | h
  · have hn : 0 < -k := by omega
    rw [Int.compare_eq_gt.mpr hn, Int.compare_eq_lt.mpr h]
    exact abs_round spec _ _ _ _
  · rfl
  · have hn : -k < 0 := by omega
    rw [Int.compare_eq_lt.mpr hn, Int.compare_eq_gt.mpr h, Int.neg_neg]
    exact abs_round spec _ _ _ _

theorem abs_sub_comm (spec : Format) (u v : UnpackedFloat) :
    (UnpackedFloat.sub spec u v).abs = (UnpackedFloat.sub spec v u).abs := by
  cases u with
  | notANumber => cases v <;> rfl
  | infinity s =>
    cases v with
    | infinity t => cases s <;> cases t <;> rfl
    | notANumber | zero t | finite t m e h => rfl
  | zero s =>
    cases v with
    | zero t => cases s <;> cases t <;> rfl
    | notANumber | infinity t | finite t m e h => rfl
  | finite s m e h =>
    cases v with
    | notANumber | infinity t | zero t => rfl
    | finite t m' e' h' =>
      simp only [UnpackedFloat.sub]
      rw [Int.min_comm e' e, ← Int.neg_sub, abs_normalize_neg]

/-! ## Through the packed form

A result is packed into a word before the next operation unpacks it.  The sign
has a bit of its own there. -/

theorem abs_unpack_packComponents (spec : Format) (s t : Sign)
    (e : BitVec spec.exponentBits) (m : BitVec spec.mantissaBitsWithoutImplicit) :
    (UnpackedFloat.unpack spec (packComponents spec s e m)).abs =
      (UnpackedFloat.unpack spec (packComponents spec t e m)).abs := by
  simp only [UnpackedFloat.unpack, unpackMantissa_packComponents, unpackExponent_packComponents]
  split
  · split <;> rfl
  · split
    · split <;> rfl
    · rfl

theorem abs_unpack_pack {u v : UnpackedFloat} (spec : Format) (h : u.abs = v.abs) :
    (UnpackedFloat.unpack spec (UnpackedFloat.pack spec u)).abs =
      (UnpackedFloat.unpack spec (UnpackedFloat.pack spec v)).abs := by
  cases u <;> cases v <;> simp only [UnpackedFloat.abs, reduceCtorEq] at h
  case infinity.infinity s t => exact abs_unpack_packComponents spec s t _ _
  case notANumber.notANumber => rfl
  case zero.zero s t => exact abs_unpack_packComponents spec s t _ _
  case finite.finite s m e hm t m' e' hm' =>
    obtain ⟨-, rfl, rfl⟩ := UnpackedFloat.finite.inj h
    simp only [UnpackedFloat.pack]
    split
    · exact abs_unpack_packComponents spec s t _ _
    · split <;> exact abs_unpack_packComponents spec s t _ _

theorem mul_self_congr {u v : UnpackedFloat} (spec : Format) (h : u.abs = v.abs) :
    UnpackedFloat.mul spec u u = UnpackedFloat.mul spec v v := by
  have square (s : Sign) : s * s = .positive := by cases s <;> rfl
  cases u <;> cases v <;> simp only [UnpackedFloat.abs, reduceCtorEq] at h
  case infinity.infinity => simp only [UnpackedFloat.mul, square]
  case notANumber.notANumber => rfl
  case zero.zero => simp only [UnpackedFloat.mul, square]
  case finite.finite =>
    obtain ⟨-, rfl, rfl⟩ := UnpackedFloat.finite.inj h
    simp only [UnpackedFloat.mul, square]

theorem sub_mul_self_comm (x y : Float) : (x - y) * (x - y) = (y - x) * (y - x) := by
  have hsub := abs_sub_comm Format.binary64 x.toModel.unpack y.toModel.unpack
  have hsquare := mul_self_congr Format.binary64 (abs_unpack_pack Format.binary64 hsub)
  exact congrArg (fun u => Float.ofModel (Float.Model.pack u)) hsquare

end Doubles

instance : SymmetricScalar Float where
  beq_comm _ _ := BEq.comm
  sub_mul_self_comm := Doubles.sub_mul_self_comm

end ParetoSearch
