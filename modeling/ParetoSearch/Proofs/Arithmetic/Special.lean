import Mathlib
import ParetoSearch.Proofs.Arithmetic.Absorbing
import ParetoSearch.Proofs.Arithmetic.Order

/-!
# Zeros, infinities and what is not a number

The distance of a vector from an equal one decides whether an archive takes it for the
same.  On doubles that distance is not always zero.  A finite entry less an equal one is a
zero, of either sign, and zeros stay zeros under products, sums and roots.  An infinity less
itself is not a number, and neither is anything computed from it
(`norm_beq_zero`, `norm_not_number`).

The other fact here is that sizes add up to a number: only infinities of opposite signs
have no sum.
-/

namespace ParetoSearch

namespace Doubles

open Float.Model Float.Model.UnpackedFloat

/-! ## Special values packed and unpacked -/

theorem unpack_pack_zero (s : Sign) : (Float.Model.pack (.zero s)).unpack = .zero s := by
  cases s <;> with_unfolding_all rfl

theorem unpack_pack_infinity (s : Sign) :
    (Float.Model.pack (.infinity s)).unpack = .infinity s := by
  cases s <;> with_unfolding_all rfl

theorem unpack_pack_notANumber :
    (Float.Model.pack .notANumber).unpack = .notANumber := by with_unfolding_all rfl

theorem unpack_packComponents_ne {e : BitVec Format.binary64.exponentBits} (s : Sign)
    (m : BitVec Format.binary64.mantissaBitsWithoutImplicit) (he : e ≠ -1#_) :
    UnpackedFloat.unpack Format.binary64 (packComponents Format.binary64 s e m) ≠
      .notANumber := by
  simp only [UnpackedFloat.unpack, unpackMantissa_packComponents, unpackExponent_packComponents,
    if_neg he]
  split
  · split <;> nofun
  · nofun

theorem unpack_pack_ne_notANumber {u : UnpackedFloat} (h : u ≠ .notANumber) :
    (Float.Model.pack u).unpack ≠ .notANumber := by
  cases u with
  | notANumber => exact absurd rfl h
  | infinity s => rw [unpack_pack_infinity]; nofun
  | zero s => rw [unpack_pack_zero]; nofun
  | finite s m e hm =>
    change UnpackedFloat.unpack Format.binary64 (UnpackedFloat.pack Format.binary64 _) ≠ _
    simp only [UnpackedFloat.pack]
    split
    case isTrue => exact (unpack_pack_infinity s).trans_ne nofun
    case isFalse hsmall =>
      split
      · refine unpack_packComponents_ne s _ fun hexponent => hsmall ?_
        have hvalue := congrArg BitVec.toNat hexponent
        rw [BitVec.toNat_ofNat] at hvalue
        change _ % 2 ^ 11 = 2047 at hvalue
        change 2 ^ 11 ≤ _
        omega
      · exact unpack_packComponents_ne s _ (by decide)

/-! ## Zeros -/

theorem beq_zero_of_unpack {z : Float} {s : Sign} (h : z.toModel.unpack = .zero s) :
    (z == 0) = true := by
  rw [beq_iff_compare, h]
  rfl

theorem beq_zero_of_pack {z : Float} {s : Sign} (h : z.toModel = Float.Model.pack (.zero s)) :
    (z == 0) = true := beq_zero_of_unpack (h ▸ unpack_pack_zero s)

theorem add_beq_zero {x y : Float} (hx : (x == 0) = true) (hy : (y == 0) = true) :
    (x + y == 0) = true := by
  obtain ⟨s, hs⟩ := unpack_of_beq_zero hx
  obtain ⟨t, ht⟩ := unpack_of_beq_zero hy
  have hsum : (x + y).toModel =
      Float.Model.pack (UnpackedFloat.add Format.binary64 (.zero s) (.zero t)) := hs ▸ ht ▸ rfl
  cases s <;> cases t <;> exact beq_zero_of_pack hsum

theorem mul_self_beq_zero {x : Float} (hx : (x == 0) = true) : (x * x == 0) = true := by
  obtain ⟨s, hs⟩ := unpack_of_beq_zero hx
  have hsquare : (x * x).toModel =
      Float.Model.pack (UnpackedFloat.mul Format.binary64 (.zero s) (.zero s)) := hs ▸ rfl
  exact beq_zero_of_pack hsquare

theorem sqrt_beq_zero {x : Float} (hx : (x == 0) = true) : (x.sqrt == 0) = true := by
  obtain ⟨s, hs⟩ := unpack_of_beq_zero hx
  have hroot : x.sqrt.toModel =
      Float.Model.pack (UnpackedFloat.sqrt Format.binary64 (.zero s)) := hs ▸ rfl
  exact beq_zero_of_pack hroot

theorem le_of_beq_zero {z t : Float} (hz : (z == 0) = true) (ht : 0 ≤ t) : z ≤ t := by
  obtain ⟨s, hs⟩ := unpack_of_beq_zero hz
  rw [le_iff_compare] at ht ⊢
  change ∃ o, (UnpackedFloat.zero .positive).compare t.toModel.unpack = some o ∧ _ at ht
  rw [hs]
  cases hu : t.toModel.unpack with
  | notANumber | zero r => rw [hu] at ht; exact ht
  | infinity r | finite r m e h => rw [hu] at ht; cases r <;> exact ht

theorem norm_beq_zero {xs : List Float} (h : ∀ x ∈ xs, (x == 0) = true) :
    (Vector.norm xs == 0) = true := by
  refine sqrt_beq_zero (Vector.leftSum_induction (P := fun x => (x == 0) = true) rfl
    (fun _ _ => add_beq_zero) fun x hx => ?_)
  obtain ⟨y, hy, rfl⟩ := List.mem_map.mp hx
  exact mul_self_beq_zero (h y hy)

/-! ## What is not a number -/

theorem isNumber_of_unpack {x : Float} (h : x.toModel.unpack ≠ .notANumber) :
    Scalar.isNumber x = true := by
  by_contra hnot
  exact h (unpack_of_not_number (Bool.not_eq_true _ ▸ hnot))

theorem not_number_of_pack {x : Float} (h : x.toModel = Float.Model.pack .notANumber) :
    Scalar.isNumber x = false := by
  by_contra hnot
  exact unpack_ne_of_number (Bool.not_eq_false _ ▸ hnot) (h ▸ unpack_pack_notANumber)

section

variable {x y : Float}

theorem add_not_number_left (y : Float) (hx : Scalar.isNumber x = false) :
    Scalar.isNumber (x + y) = false := by
  have hsum : (x + y).toModel =
      Float.Model.pack (UnpackedFloat.add Format.binary64 .notANumber y.toModel.unpack) :=
    unpack_of_not_number hx ▸ rfl
  exact not_number_of_pack hsum

theorem add_not_number_right (x : Float) (hy : Scalar.isNumber y = false) :
    Scalar.isNumber (x + y) = false := by
  have hsum : (x + y).toModel =
      Float.Model.pack (UnpackedFloat.add Format.binary64 x.toModel.unpack .notANumber) :=
    unpack_of_not_number hy ▸ rfl
  refine not_number_of_pack (hsum.trans ?_)
  cases x.toModel.unpack <;> rfl

theorem mul_self_not_number (hx : Scalar.isNumber x = false) :
    Scalar.isNumber (x * x) = false := by
  have hsquare : (x * x).toModel =
      Float.Model.pack (UnpackedFloat.mul Format.binary64 .notANumber .notANumber) :=
    unpack_of_not_number hx ▸ rfl
  exact not_number_of_pack hsquare

theorem sqrt_not_number (hx : Scalar.isNumber x = false) : Scalar.isNumber x.sqrt = false := by
  have hroot : x.sqrt.toModel =
      Float.Model.pack (UnpackedFloat.sqrt Format.binary64 .notANumber) :=
    unpack_of_not_number hx ▸ rfl
  exact not_number_of_pack hroot

theorem not_le_of_not_number (hx : Scalar.isNumber x = false) (t : Float) : ¬ x ≤ t := by
  rw [le_iff_compare, (compare_of_not_number hx t).1]
  rintro ⟨o, ⟨⟩, -⟩

end

theorem norm_not_number {xs : List Float} (h : ∃ x ∈ xs, Scalar.isNumber x = false) :
    Scalar.isNumber (Vector.norm xs) = false := by
  obtain ⟨x, hx, hnot⟩ := h
  have hadd : Absorbs (· + ·) fun x : Float => Scalar.isNumber x = false :=
    ⟨fun _ y => add_not_number_left y, fun x _ => add_not_number_right x⟩
  have hsquare : x * x ∈ 0 :: xs.map fun x => x * x :=
    List.mem_cons_of_mem _ (List.mem_map_of_mem hx)
  exact sqrt_not_number (hadd.foldl ⟨x * x, hsquare, mul_self_not_number hnot⟩)

/-! ## Differences of equals -/

theorem eq_or_zero_of_compare {u v : UnpackedFloat} (h : u.compare v = some .eq) :
    u = v ∨ ∃ s t, u = .zero s ∧ v = .zero t := by
  cases u with
  | notANumber => cases v <;> cases h
  | infinity s =>
    cases v with
    | notANumber => cases s <;> cases h
    | infinity t => cases s <;> cases t <;> first | exact Or.inl rfl | cases h
    | zero t | finite t m e hm => cases s <;> cases h
  | zero s =>
    cases v with
    | zero t => exact Or.inr ⟨s, t, rfl, rfl⟩
    | notANumber => cases h
    | infinity t | finite t m e hm => cases t <;> cases h
  | finite s m e hm =>
    cases v with
    | notANumber => cases s <;> cases h
    | infinity t | zero t => cases s <;> cases t <;> cases h
    | finite t m' e' hm' =>
      cases s <;> cases t <;>
        simp only [UnpackedFloat.compare, Option.some.injEq, Ordering.swap_eq_eq,
          Ordering.then_eq_eq, compare_eq_iff_eq, reduceCtorEq] at h
      all_goals
        obtain ⟨rfl, rfl⟩ := h
        exact Or.inl rfl

theorem sub_self_of_finite {u : UnpackedFloat} (spec : Format) (h : u.isFinite = true) :
    ∃ s, UnpackedFloat.sub spec u u = .zero s := by
  cases u with
  | notANumber | infinity s => cases h
  | zero s => exact ⟨.positive, by cases s <;> rfl⟩
  | finite s m e hm =>
    refine ⟨.positive, ?_⟩
    simp only [UnpackedFloat.sub, Int.sub_self]
    rfl

theorem sub_self_of_not_finite {u : UnpackedFloat} (spec : Format) (h : u.isFinite = false) :
    UnpackedFloat.sub spec u u = .notANumber := by
  cases u with
  | notANumber => rfl
  | infinity s => cases s <;> rfl
  | zero s | finite s m e hm => cases h

/-- A double less itself is a zero or not a number. -/
theorem sub_self_cases (x : Float) : (x - x == 0) = true ∨ Scalar.isNumber (x - x) = false := by
  have hdiff : (x - x).toModel = Float.Model.pack
      (UnpackedFloat.sub Format.binary64 x.toModel.unpack x.toModel.unpack) := rfl
  cases hfinite : x.toModel.unpack.isFinite with
  | true =>
    obtain ⟨s, hs⟩ := sub_self_of_finite Format.binary64 hfinite
    exact Or.inl (beq_zero_of_pack (hs ▸ hdiff))
  | false =>
    exact Or.inr (not_number_of_pack (sub_self_of_not_finite Format.binary64 hfinite ▸ hdiff))

theorem sub_self_not_number {x : Float} (h : Scalar.isFinite x = false) :
    Scalar.isNumber (x - x) = false := by
  rcases sub_self_cases x with hzero | hnot
  · exact absurd (h.symm.trans hzero) Bool.false_ne_true
  · exact hnot

theorem sub_beq_zero {x y : Float} (hfinite : Scalar.isFinite x = true) (h : (x == y) = true) :
    (x - y == 0) = true := by
  rcases eq_or_zero_of_compare ((beq_iff_compare x y).mp h) with heq | ⟨s, t, hs, ht⟩
  · have hself : (x - y).toModel = (x - x).toModel := by
      change Float.Model.pack (UnpackedFloat.sub _ _ y.toModel.unpack) = _
      rw [← heq]
      rfl
    have hsame : x - y = x - x := congrArg Float.ofModel hself
    rw [hsame]
    exact hfinite
  · have hdiff : (x - y).toModel =
        Float.Model.pack (UnpackedFloat.sub Format.binary64 (.zero s) (.zero t)) :=
      hs ▸ ht ▸ rfl
    cases s <;> cases t <;> exact beq_zero_of_pack hdiff

/-! ## Sums of sizes -/

theorem roundWithAccuracy_ne_notANumber (spec : Format) (s : Sign) (m : Nat) (e : Int)
    (a : Accuracy) : roundWithAccuracy spec s m e a ≠ .notANumber := by
  simp only [roundWithAccuracy]
  split <;> rintro ⟨⟩

theorem normalize_ne_notANumber (spec : Format) (k e : Int) (z : Sign) :
    UnpackedFloat.normalize spec k e z ≠ .notANumber := by
  unfold UnpackedFloat.normalize
  split
  · exact roundWithAccuracy_ne_notANumber _ _ _ _ _
  · rintro ⟨⟩
  · exact roundWithAccuracy_ne_notANumber _ _ _ _ _

theorem add_ne_notANumber {u v : UnpackedFloat} (spec : Format) (hu : u.abs = u) (hv : v.abs = v)
    (hun : u ≠ .notANumber) (hvn : v ≠ .notANumber) :
    UnpackedFloat.add spec u v ≠ .notANumber := by
  cases u with
  | notANumber => exact absurd rfl hun
  | infinity s =>
    cases s <;> cases hu
    cases v with
    | notANumber => exact absurd rfl hvn
    | infinity t => cases t <;> cases hv; nofun
    | zero t | finite t m e h => nofun
  | zero s =>
    cases v with
    | notANumber => exact absurd rfl hvn
    | zero t => cases s <;> cases t <;> nofun
    | infinity t | finite t m e h => nofun
  | finite s m e hm =>
    cases v with
    | notANumber => exact absurd rfl hvn
    | infinity t | zero t => nofun
    | finite t m' e' hm' => exact normalize_ne_notANumber spec _ _ _

theorem Unsigned.isNumber_add {x y : Float} (hx : Unsigned x) (hy : Unsigned y)
    (hxn : Scalar.isNumber x = true) (hyn : Scalar.isNumber y = true) :
    Scalar.isNumber (x + y) = true :=
  isNumber_of_unpack <| unpack_pack_ne_notANumber <| add_ne_notANumber Format.binary64 hx hy
    (unpack_ne_of_number hxn) (unpack_ne_of_number hyn)

theorem isNumber_abs {x : Float} (h : Scalar.isNumber x = true) :
    Scalar.isNumber x.abs = true := by
  have habs : x.toModel.unpack.abs ≠ .notANumber := by
    have hx := unpack_ne_of_number h
    cases hu : x.toModel.unpack with
    | notANumber => exact absurd hu hx
    | infinity s | zero s | finite s m e hm => nofun
  exact isNumber_of_unpack (unpack_pack_ne_notANumber habs)

end Doubles
end ParetoSearch
