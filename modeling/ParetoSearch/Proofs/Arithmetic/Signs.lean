import Mathlib
import ParetoSearch.Binary64
import ParetoSearch.Vector

/-!
# Sums without a sign

A violation is a sum of sizes.  On doubles such a sum is rounded at every step and may
overflow, and it is not a number where a size is not one, but it never gets a sign: a
size has none, and a sum of two numbers without one has none either.  So a violation
that is a number equals zero or lies above it, and one that is not a number compares
with nothing.

That a sum keeps what its terms have is proved of every property that addition keeps,
whatever the numbers are.
-/

namespace ParetoSearch

/-! ## What addition keeps, a sum keeps -/

namespace Vector

variable {α : Type} [Scalar α] {P : α → Prop}

theorem leftSum_induction (hzero : P 0) (hadd : ∀ x y, P x → P y → P (x + y)) {xs : List α}
    (h : ∀ x ∈ xs, P x) : P (leftSum xs) :=
  List.foldlRecOn xs _ hzero fun sum hsum x hx => hadd sum x hsum (h x hx)

theorem laneSums_induction (hadd : ∀ x y, P x → P y → P (x + y)) {lanes xs : List α}
    (hlanes : ∀ x ∈ lanes, P x) (h : ∀ x ∈ xs, P x) :
    (∀ x ∈ (laneSums lanes xs).1, P x) ∧ ∀ x ∈ (laneSums lanes xs).2, P x := by
  fun_induction laneSums lanes xs with
  | case1 lanes a b c d e f g i rest ih =>
    have hblock : ∀ x ∈ [a, b, c, d, e, f, g, i], P x := fun x hx =>
      h x (List.mem_append_left rest hx)
    have hrest : ∀ x ∈ rest, P x := fun x hx =>
      h x (List.mem_append_right [a, b, c, d, e, f, g, i] hx)
    refine ih (fun x hx => ?_) hrest
    obtain ⟨k, hk, rfl⟩ := List.mem_iff_getElem.mp hx
    rw [List.getElem_zipWith]
    exact hadd _ _ (hlanes _ (List.getElem_mem _)) (hblock _ (List.getElem_mem _))
  | case2 lanes rest => exact ⟨hlanes, h⟩

theorem joinLanes_induction (hzero : P 0) (hadd : ∀ x y, P x → P y → P (x + y)) {lanes : List α}
    (h : ∀ x ∈ lanes, P x) : P (joinLanes lanes) := by
  unfold joinLanes
  split
  case h_1 a b c d e f g i =>
    simp only [List.forall_mem_cons] at h
    obtain ⟨ha, hb, hc, hd, he, hf, hg, hi, -⟩ := h
    exact hadd _ _ (hadd _ _ (hadd _ _ ha hb) (hadd _ _ hc hd))
      (hadd _ _ (hadd _ _ he hf) (hadd _ _ hg hi))
  case h_2 => exact leftSum_induction hzero hadd h

theorem blockSum_induction (hzero : P 0) (hadd : ∀ x y, P x → P y → P (x + y)) {xs : List α}
    (h : ∀ x ∈ xs, P x) : P (blockSum xs) := by
  unfold blockSum
  split
  · exact leftSum_induction hzero hadd h
  · have hfirst : ∀ x ∈ xs.take 8, P x := fun x hx => h x (List.mem_of_mem_take hx)
    have hlater : ∀ x ∈ xs.drop 8, P x := fun x hx => h x (List.mem_of_mem_drop hx)
    obtain ⟨hlanes, hrest⟩ := laneSums_induction hadd hfirst hlater
    exact List.foldlRecOn _ _ (joinLanes_induction hzero hadd hlanes) fun sum hsum x hx =>
      hadd sum x hsum (hrest x hx)

theorem halvingSum_induction (hzero : P 0) (hadd : ∀ x y, P x → P y → P (x + y)) (fuel : Nat)
    {xs : List α} (h : ∀ x ∈ xs, P x) : P (halvingSum fuel xs) := by
  induction fuel generalizing xs with
  | zero => exact blockSum_induction hzero hadd h
  | succ fuel ih =>
    rw [halvingSum]
    split
    · exact blockSum_induction hzero hadd h
    · exact hadd _ _ (ih fun x hx => h x (List.mem_of_mem_take hx))
        (ih fun x hx => h x (List.mem_of_mem_drop hx))

theorem total_induction (hzero : P 0) (hadd : ∀ x y, P x → P y → P (x + y)) {xs : List α}
    (h : ∀ x ∈ xs, P x) : P (total xs) := halvingSum_induction hzero hadd xs.length h

end Vector

/-! ## Doubles without a sign -/

namespace Doubles

open Float.Model Float.Model.UnpackedFloat

/-- What is its own size: a number without a sign, or what is not a number. -/
def Unsigned (x : Float) : Prop := x.toModel.unpack.abs = x.toModel.unpack

theorem abs_normalize_of_nonneg (spec : Format) {k : Int} (hk : 0 ≤ k) (e : Int) :
    (UnpackedFloat.normalize spec k e .positive).abs =
      UnpackedFloat.normalize spec k e .positive := by
  unfold UnpackedFloat.normalize
  rcases hk.eq_or_lt with rfl | hpos
  · rfl
  · rw [Int.compare_eq_gt.mpr hpos]
    simp only [UnpackedFloat.round, roundWithAccuracy]
    split <;> rfl

theorem abs_add {u v : UnpackedFloat} (spec : Format) (hu : u.abs = u) (hv : v.abs = v) :
    (UnpackedFloat.add spec u v).abs = UnpackedFloat.add spec u v := by
  cases u with
  | notANumber => cases v <;> rfl
  | infinity s =>
    cases s <;> cases hu
    cases v with
    | infinity t => cases t <;> cases hv; rfl
    | notANumber | zero t | finite t m e h => rfl
  | zero s =>
    cases s <;> cases hu
    cases v with
    | zero t => cases t <;> cases hv; rfl
    | notANumber => rfl
    | infinity t | finite t m e h => exact hv
  | finite s m e hm =>
    cases v with
    | notANumber => rfl
    | infinity t => exact hv
    | zero t => exact hu
    | finite t m' e' hm' =>
      cases s <;> cases hu
      cases t <;> cases hv
      refine abs_normalize_of_nonneg spec ?_ _
      exact add_nonneg (Int.natCast_nonneg _) (Int.natCast_nonneg _)

theorem abs_unpack_packComponents_positive (spec : Format) (e : BitVec spec.exponentBits)
    (m : BitVec spec.mantissaBitsWithoutImplicit) :
    (UnpackedFloat.unpack spec (packComponents spec .positive e m)).abs =
      UnpackedFloat.unpack spec (packComponents spec .positive e m) := by
  have hsign : Sign.ofBitVec (Sign.toBitVec .positive) = .positive := rfl
  simp only [UnpackedFloat.unpack, unpackMantissa_packComponents, unpackExponent_packComponents,
    unpackSign_packComponents, hsign]
  split
  · split <;> rfl
  · split
    · split <;> rfl
    · rfl

theorem abs_unpack_pack_self {u : UnpackedFloat} (spec : Format) (hu : u.abs = u) :
    (UnpackedFloat.unpack spec (UnpackedFloat.pack spec u)).abs =
      UnpackedFloat.unpack spec (UnpackedFloat.pack spec u) := by
  cases u with
  | notANumber => exact abs_unpack_packComponents_positive spec _ _
  | infinity s =>
    cases s <;> cases hu
    exact abs_unpack_packComponents_positive spec _ _
  | zero s =>
    cases s <;> cases hu
    exact abs_unpack_packComponents_positive spec _ _
  | finite s m e hm =>
    cases s <;> cases hu
    simp only [UnpackedFloat.pack]
    split
    · exact abs_unpack_packComponents_positive spec _ _
    · split <;> exact abs_unpack_packComponents_positive spec _ _

theorem unsigned_zero : Unsigned 0 := rfl

theorem unsigned_abs (x : Float) : Unsigned x.abs := by
  have hself : x.toModel.unpack.abs.abs = x.toModel.unpack.abs := by
    cases x.toModel.unpack <;> rfl
  exact abs_unpack_pack_self Format.binary64 hself

theorem Unsigned.add {x y : Float} (hx : Unsigned x) (hy : Unsigned y) : Unsigned (x + y) :=
  abs_unpack_pack_self Format.binary64 (abs_add Format.binary64 hx hy)

/-! ## Against zero -/

theorem lt_iff_compare (x y : Float) :
    x < y ↔ x.toModel.unpack.compare y.toModel.unpack = some .lt := by
  change decide (x.toModel < y.toModel) = true ↔ _
  rw [decide_eq_true_iff]
  exact beq_iff_eq

theorem beq_iff_compare (x y : Float) :
    (x == y) = true ↔ x.toModel.unpack.compare y.toModel.unpack = some .eq := by
  change (x.toModel.unpack.compare y.toModel.unpack == some Ordering.eq) = true ↔ _
  exact beq_iff_eq

theorem unpack_of_not_number {x : Float} (h : (x == x) = false) :
    x.toModel.unpack = .notANumber := by
  rw [← Bool.not_eq_true, beq_iff_compare] at h
  cases hu : x.toModel.unpack with
  | notANumber => rfl
  | zero s => rw [hu] at h; exact absurd rfl h
  | infinity s => rw [hu] at h; cases s <;> exact absurd rfl h
  | finite s m e hm =>
    rw [hu] at h
    cases s <;> simp [UnpackedFloat.compare] at h

theorem compare_of_not_number {x : Float} (h : (x == x) = false) (y : Float) :
    x.toModel.unpack.compare y.toModel.unpack = none ∧
      y.toModel.unpack.compare x.toModel.unpack = none := by
  rw [unpack_of_not_number h]
  cases y.toModel.unpack <;> exact ⟨rfl, rfl⟩

theorem beq_of_not_number {x : Float} (h : (x == x) = false) (y : Float) : (x == y) = false := by
  rw [← Bool.not_eq_true, beq_iff_compare, (compare_of_not_number h y).1]
  rintro ⟨⟩

theorem not_lt_of_not_number {x : Float} (h : (x == x) = false) (y : Float) :
    ¬ x < y ∧ ¬ y < x := by
  rw [lt_iff_compare, lt_iff_compare, (compare_of_not_number h y).1, (compare_of_not_number h y).2]
  exact ⟨nofun, nofun⟩

/-- What equals zero is one of the two zeros. -/
theorem unpack_of_beq_zero {z : Float} (hz : (z == 0) = true) :
    ∃ s, z.toModel.unpack = .zero s := by
  rw [beq_iff_compare] at hz
  change z.toModel.unpack.compare (.zero .positive) = some .eq at hz
  cases hu : z.toModel.unpack with
  | zero s => exact ⟨s, rfl⟩
  | notANumber => rw [hu] at hz; cases hz
  | infinity s => rw [hu] at hz; cases s <;> cases hz
  | finite s m e hm => rw [hu] at hz; cases s <;> cases hz

/-- Nothing tells the two zeros apart. -/
theorem beq_of_beq_zero (x : Float) {z : Float} (hz : (z == 0) = true) :
    (x == z) = (x == 0) := by
  obtain ⟨s, hs⟩ := unpack_of_beq_zero hz
  rw [Bool.eq_iff_iff, beq_iff_compare, beq_iff_compare, hs]
  change x.toModel.unpack.compare (.zero s) = _ ↔ x.toModel.unpack.compare (.zero .positive) = _
  cases x.toModel.unpack with
  | notANumber | zero t => rfl
  | infinity t | finite t m e h => cases t <;> rfl

/-- A number without a sign that does not equal zero lies above it. -/
theorem Unsigned.zero_lt {x z : Float} (hx : Unsigned x) (hnumber : (x == x) = true)
    (hne : (x == 0) = false) (hz : (z == 0) = true) : z < x := by
  obtain ⟨s, hs⟩ := unpack_of_beq_zero hz
  rw [← Bool.not_eq_true, beq_iff_compare] at hne
  change x.toModel.unpack.compare (.zero .positive) ≠ some .eq at hne
  rw [beq_iff_compare] at hnumber
  rw [lt_iff_compare, hs]
  unfold Unsigned at hx
  cases hu : x.toModel.unpack with
  | zero t => rw [hu] at hne; exact absurd rfl hne
  | notANumber => rw [hu] at hnumber; cases hnumber
  | infinity t => rw [hu] at hx; cases t <;> cases hx; rfl
  | finite t m e hm => rw [hu] at hx; cases t <;> cases hx; rfl

theorem Unsigned.not_lt_zero {x z : Float} (hx : Unsigned x) (hz : (z == 0) = true) :
    ¬ x < z := by
  obtain ⟨s, hs⟩ := unpack_of_beq_zero hz
  rw [lt_iff_compare, hs]
  unfold Unsigned at hx
  cases hu : x.toModel.unpack with
  | zero t => rintro ⟨⟩
  | notANumber => rintro ⟨⟩
  | infinity t => rw [hu] at hx; cases t <;> cases hx; rintro ⟨⟩
  | finite t m e hm => rw [hu] at hx; cases t <;> cases hx; rintro ⟨⟩

end Doubles
end ParetoSearch
