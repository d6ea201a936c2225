import ParetoSearch.Proofs.Arithmetic.Special

/-!
# When a distance is a number

A finite entry less a number is a number, though perhaps an infinite one; its square has no
sign, and such squares have a sum and the sum has a root.  So a finite vector has a distance
from any point made of numbers, overflow included (`isNumber_norm`, `isNumber_sub`).  From a
point with an entry that is not a number nothing has a distance.  Either way the vectors of
one box are alike in this, because they share its corner (`distance_dichotomy`).
-/

namespace ParetoSearch
namespace Doubles

open Float.Model Float.Model.UnpackedFloat

/-! ## Differences -/

theorem unpack_isFinite {x : Float} (h : Scalar.isFinite x = true) :
    x.toModel.unpack.isFinite = true := by
  by_contra hnot
  have hself := sub_self_of_not_finite Format.binary64 (Bool.not_eq_true _ ▸ hnot)
  have hdiff : (x - x).toModel = Float.Model.pack
      (UnpackedFloat.sub Format.binary64 x.toModel.unpack x.toModel.unpack) := rfl
  have hnumber : Scalar.isNumber (x - x) = false := not_number_of_pack (hself ▸ hdiff)
  have hne : (x - x == 0) = false := beq_of_not_number hnumber 0
  rw [Scalar.isFinite, hne] at h
  cases h

theorem isNumber_of_isFinite {x : Float} (h : Scalar.isFinite x = true) :
    Scalar.isNumber x = true := by
  refine isNumber_of_unpack fun hnot => ?_
  have hfinite := unpack_isFinite h
  rw [hnot] at hfinite
  cases hfinite

theorem sub_ne_notANumber {u v : UnpackedFloat} (spec : Format) (hu : u.isFinite = true)
    (hv : v ≠ .notANumber) : UnpackedFloat.sub spec u v ≠ .notANumber := by
  cases u with
  | notANumber | infinity s => cases hu
  | zero s =>
    cases v with
    | notANumber => exact absurd rfl hv
    | zero t => cases s <;> cases t <;> nofun
    | infinity t | finite t m e h => nofun
  | finite s m e hm =>
    cases v with
    | notANumber => exact absurd rfl hv
    | infinity t | zero t => nofun
    | finite t m' e' hm' => exact normalize_ne_notANumber spec _ _ _

theorem isNumber_sub {x y : Float} (hx : Scalar.isFinite x = true)
    (hy : Scalar.isNumber y = true) : Scalar.isNumber (x - y) = true :=
  isNumber_of_unpack <| unpack_pack_ne_notANumber <|
    sub_ne_notANumber Format.binary64 (unpack_isFinite hx) (unpack_ne_of_number hy)

theorem sub_not_number_right (x : Float) {y : Float} (hy : Scalar.isNumber y = false) :
    Scalar.isNumber (x - y) = false := by
  have hdiff : (x - y).toModel =
      Float.Model.pack (UnpackedFloat.sub Format.binary64 x.toModel.unpack .notANumber) :=
    unpack_of_not_number hy ▸ rfl
  refine not_number_of_pack (hdiff.trans ?_)
  cases x.toModel.unpack <;> rfl

/-! ## Squares and roots -/

theorem abs_mul_self (spec : Format) (u : UnpackedFloat) :
    (UnpackedFloat.mul spec u u).abs = UnpackedFloat.mul spec u u := by
  cases u with
  | notANumber => rfl
  | infinity s | zero s => cases s <;> rfl
  | finite s m e hm =>
    have hsquare : s * s = .positive := by cases s <;> rfl
    simp only [UnpackedFloat.mul, hsquare, roundWithAccuracy]
    split <;> rfl

theorem unsigned_mul_self (x : Float) : Unsigned (x * x) :=
  abs_unpack_pack_self Format.binary64 (abs_mul_self Format.binary64 x.toModel.unpack)

theorem isNumber_mul_self {x : Float} (hx : Scalar.isNumber x = true) :
    Scalar.isNumber (x * x) = true := by
  refine isNumber_of_unpack (unpack_pack_ne_notANumber ?_)
  have hnumber := unpack_ne_of_number hx
  cases hu : x.toModel.unpack with
  | notANumber => exact absurd hu hnumber
  | infinity s | zero s => nofun
  | finite s m e hm => exact roundWithAccuracy_ne_notANumber _ _ _ _ _

theorem Unsigned.isNumber_sqrt {x : Float} (hx : Unsigned x) (hnumber : Scalar.isNumber x = true) :
    Scalar.isNumber x.sqrt = true := by
  refine isNumber_of_unpack (unpack_pack_ne_notANumber ?_)
  have hne := unpack_ne_of_number hnumber
  unfold Unsigned at hx
  cases hu : x.toModel.unpack with
  | notANumber => exact absurd hu hne
  | infinity s => rw [hu] at hx; cases s <;> cases hx; nofun
  | zero s => nofun
  | finite s m e hm =>
    rw [hu] at hx
    cases s <;> cases hx
    exact roundWithAccuracy_ne_notANumber _ _ _ _ _

theorem isNumber_norm {xs : List Float} (h : ∀ x ∈ xs, Scalar.isNumber x = true) :
    Scalar.isNumber (Vector.norm xs) = true := by
  have hsum : Unsigned (Vector.leftSum (xs.map fun x => x * x)) ∧
      Scalar.isNumber (Vector.leftSum (xs.map fun x => x * x)) = true := by
    refine Vector.leftSum_induction (P := fun x => Unsigned x ∧ Scalar.isNumber x = true)
      ⟨unsigned_zero, rfl⟩ (fun x y hx hy => ?_) fun x hx => ?_
    · exact ⟨hx.1.add hy.1, hx.1.isNumber_add hy.1 hx.2 hy.2⟩
    · obtain ⟨y, hy, rfl⟩ := List.mem_map.mp hx
      exact ⟨unsigned_mul_self y, isNumber_mul_self (h y hy)⟩
  exact hsum.1.isNumber_sqrt hsum.2

/-! ## Distances from one point -/

/-- Either every finite vector has a distance from a point, or no vector of its length has. -/
theorem distance_dichotomy (point : List Float) :
    (∀ f : List Float, f.all Scalar.isFinite = true →
      Scalar.isNumber (Vector.norm (f.zipWith (· - ·) point)) = true) ∨
    ∀ f : List Float, f.length = point.length →
      Scalar.isNumber (Vector.norm (f.zipWith (· - ·) point)) = false := by
  by_cases hpoint : ∀ y ∈ point, Scalar.isNumber y = true
  · refine Or.inl fun f hf => isNumber_norm fun d hd => ?_
    rw [← List.map_uncurry_zip_eq_zipWith] at hd
    obtain ⟨⟨x, y⟩, hp, rfl⟩ := List.mem_map.mp hd
    have hmem := List.of_mem_zip hp
    exact isNumber_sub (List.all_eq_true.mp hf x hmem.1) (hpoint y hmem.2)
  · simp only [not_forall] at hpoint
    obtain ⟨y, hy, hnot⟩ := hpoint
    obtain ⟨k, hk, rfl⟩ := List.mem_iff_getElem.mp hy
    refine Or.inr fun f hf => ?_
    have hkf : k < f.length := hf ▸ hk
    refine norm_not_number ⟨f[k] - point[k], ?_, ?_⟩
    · exact List.mem_iff_getElem.mpr ⟨k, by simp [hkf, hk], List.getElem_zipWith⟩
    · exact sub_not_number_right _ (Bool.not_eq_true _ ▸ hnot)

end Doubles
end ParetoSearch
