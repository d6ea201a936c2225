import ParetoSearch.Proofs.Arithmetic.Sums
import ParetoSearch.Proofs.Indicator.Covering

/-!
# Distances between fronts

Three indicators measure how far each vector of one front is from the nearest vector of
another one.  They differ in which front is looked at from which, and in how the distances
are put together: by a power mean or by the greatest.  Either way the value is zero exactly
when all distances are (`Gauges`), and all are zero exactly when the one front is part of the
other (`Distance.nearestAll_eq_zero_iff`).  The scale of the reference front keeps vectors
apart that are apart, so this holds on the scale as it does off it.
-/

namespace ParetoSearch

variable {X Y α : Type} [ExactScalar α]

/-! ## The nearest vector -/

namespace Distance

theorem euclidean_eq_norm (a b : List α) :
    euclidean a b = Vector.norm ((a.zip b).map fun p => p.1 - p.2) := by
  rw [euclidean, Vector.norm, Vector.total_eq_sum, Vector.leftSum_eq_sum, List.map_map,
    List.map_zip_eq_zipWith]
  rfl

theorem euclidean_nonneg (a b : List α) : 0 ≤ euclidean a b := ExactScalar.sqrt_nonneg _

variable {source target : List (List α)} {width : Nat}

theorem nearest_le_iff {d : List α → List α → α} {a : List α} {t : α} (hne : target ≠ []) :
    nearest d a target ≤ t ↔ ∃ b ∈ target, d a b ≤ t := by
  obtain ⟨b, rest, rfl⟩ := List.exists_cons_of_ne_nil hne
  rw [nearest, ← List.foldl_map, Scalar.foldl_lesser_le_iff, ← List.map_cons]
  simp only [List.mem_map, exists_exists_and_eq_and]

theorem nearest_nonneg (a : List α) (hne : target ≠ []) : 0 ≤ nearest euclidean a target := by
  obtain ⟨b, -, hb⟩ := (nearest_le_iff (d := euclidean) (a := a) hne).mp le_rfl
  exact (euclidean_nonneg a b).trans hb

theorem nearest_eq_zero_iff {a : List α} (hne : target ≠ [])
    (htarget : ∀ b ∈ target, b.length = width) (ha : a.length = width) :
    nearest euclidean a target = 0 ↔ a ∈ target := by
  rw [← (nearest_nonneg a hne).ge_iff_eq', nearest_le_iff hne]
  constructor
  · rintro ⟨b, hb, hle⟩
    rw [euclidean_eq_norm, Vector.norm_sub_le_zero_iff (ha.trans (htarget b hb).symm)] at hle
    exact hle ▸ hb
  · intro ha
    refine ⟨a, ha, ?_⟩
    rw [euclidean_eq_norm, Vector.norm_sub_le_zero_iff rfl]

theorem nearestAll_nonneg (hne : target ≠ []) : ∀ x ∈ nearestAll source target, 0 ≤ x :=
  List.forall_mem_map.mpr fun a _ => nearest_nonneg a hne

/-- No vector is at a distance from the others exactly when all are among them. -/
theorem nearestAll_eq_zero_iff (hne : target ≠ []) (hsource : ∀ a ∈ source, a.length = width)
    (htarget : ∀ b ∈ target, b.length = width) :
    (∀ x ∈ nearestAll source target, x = 0) ↔ source ⊆ target := by
  rw [nearestAll, List.forall_mem_map]
  exact forall₂_congr fun a ha => nearest_eq_zero_iff hne htarget (hsource a ha)

end Distance

/-! ## Putting distances together -/

/-- A size for a list of distances, zero only where all of them are. -/
structure Gauges (v : α) (distances : List α) : Prop where
  nonneg : 0 ≤ v
  eq_zero_iff : v = 0 ↔ ∀ d ∈ distances, d = 0

theorem Indicator.extreme_gauges {distances : List α} (hne : distances ≠ [])
    (hnonneg : ∀ d ∈ distances, 0 ≤ d) :
    Gauges (extreme Scalar.greater distances) distances := by
  have hall := (extreme_greater_le_iff hne).mp (le_refl (extreme Scalar.greater distances))
  obtain ⟨d, hd⟩ := List.exists_mem_of_ne_nil distances hne
  have hsize : 0 ≤ extreme Scalar.greater distances := (hnonneg d hd).trans (hall d hd)
  refine ⟨hsize, ?_⟩
  rw [← hsize.ge_iff_eq', extreme_greater_le_iff hne]
  exact forall₂_congr fun d hd => (hnonneg d hd).ge_iff_eq'

theorem Indicator.powerMean_gauges {p : ℝ} (hp : 0 < p) {distances : List ℝ}
    (hne : distances ≠ []) (hnonneg : ∀ d ∈ distances, 0 ≤ d) :
    ∃ v, powerMean p distances = .ok v ∧ Gauges v distances := by
  have hpowers : distances.map (fun d => Scalar.power d p) = distances.map (· ^ p) :=
    List.map_congr_left fun d _ => Scalar.power_eq_rpow d hp
  have hterms : ∀ x ∈ distances.map (· ^ p), 0 ≤ x :=
    List.forall_mem_map.mpr fun d hd => Real.rpow_nonneg (hnonneg d hd) p
  have hsum : 0 ≤ (distances.map (· ^ p)).sum := List.sum_nonneg hterms
  have hcount : (0 : ℝ) < distances.length := Nat.cast_pos.mpr (List.length_pos_iff.mpr hne)
  refine ⟨(distances.map (· ^ p)).sum ^ (1 / p) / distances.length, ?_, ?_, ?_⟩
  · rw [powerMean, if_neg (by simpa using hp.ne'), hpowers, Vector.total_eq_sum]
    rfl
  · exact div_nonneg (Real.rpow_nonneg hsum _) hcount.le
  · rw [div_eq_zero_iff, or_iff_left hcount.ne', Real.rpow_eq_zero hsum (one_div_pos.mpr hp).ne']
    constructor
    · intro hzero d hd
      have hpower : d ^ p = 0 := List.all_zero_of_le_zero_le_of_sum_eq_zero hterms hzero
        (List.mem_map_of_mem hd)
      exact (Real.rpow_eq_zero (hnonneg d hd) hp.ne').mp hpower
    · intro hzero
      refine List.sum_eq_zero (List.forall_mem_map.mpr fun d hd => ?_)
      rw [hzero d hd, Real.zero_rpow hp.ne']

/-! ## The indicators in a frame -/

namespace Indicator

section

variable (normalize : Bool) {front : List (List α)} {width : Nat} (hne : front ≠ [])
  (hfront : ∀ row ∈ front, row.length = width) {A : PointSet X α} (hA : A.Uniform width)

include hne hfront hA

theorem onFront_unreached (hAne : A.counting = [])
    (rule : List (List α) → Except (Fault α) α) :
    onFront (Frame.ofFront normalize front) A rule = .ok .unreached := by
  refine onFront_nil ?_ rule
  rw [Frame.front_ofFront normalize hne hfront hA, hAne]
  rfl

/-- A rule that looks from one front at another is zero when all it looks from is there. -/
theorem onFront_gauges (hAne : A.counting ≠ []) {source target : List (List α)}
    (hsource : ∀ row ∈ source, row.length = width)
    (htarget : ∀ row ∈ target, row.length = width) (htargetne : target ≠ [])
    {rule : List (List α) → Except (Fault α) α}
    (hrule : ∃ v, rule ((nondominated A.counting).map (Frame.onScale normalize front)) = .ok v ∧
      Gauges v (Distance.nearestAll (source.map (Frame.onScale normalize front))
        (target.map (Frame.onScale normalize front)))) :
    ∃ v, onFront (Frame.ofFront normalize front) A rule = .ok (.measured v) ∧ 0 ≤ v ∧
      (v = 0 ↔ source ⊆ target) := by
  obtain ⟨v, hv, hgauges⟩ := hrule
  have hown := nondominated_ne_nil hA.length_of_counting hAne
  refine ⟨v, onFront_eq (Frame.front_ofFront normalize hne hfront hA) (by simpa using hown) hv,
    hgauges.nonneg, ?_⟩
  rw [hgauges.eq_zero_iff, Distance.nearestAll_eq_zero_iff (by simpa using htargetne)
    (Frame.length_map_onScale normalize hne hfront hsource)
    (Frame.length_map_onScale normalize hne hfront htarget),
    Frame.map_onScale_subset_iff normalize hne hfront hsource htarget]

theorem evaluate_worstGap (hAne : A.counting ≠ []) :
    ∃ v, (worstGap (Frame.ofFront normalize front)).evaluate A = .ok (.measured v) ∧ 0 ≤ v ∧
      (v = 0 ↔ front ⊆ nondominated A.counting) := by
  have hlength := length_of_mem_nondominated hA.length_of_counting
  have hown := nondominated_ne_nil hA.length_of_counting hAne
  refine onFront_gauges normalize hne hfront hA hAne hfront hlength hown ⟨_, rfl, ?_⟩
  rw [Frame.reference_ofFront]
  exact extreme_gauges (by simpa [Distance.nearestAll] using hne)
    (Distance.nearestAll_nonneg (by simpa using hown))

end

variable (normalize : Bool) {front : List (List ℝ)} {width : Nat} (hne : front ≠ [])
  (hfront : ∀ row ∈ front, row.length = width) {A : PointSet X ℝ} (hA : A.Uniform width)
  (hAne : A.counting ≠ []) {p : ℝ} (hp : 0 < p)

include hne hfront hA hAne hp

theorem evaluate_generational :
    ∃ v, (generational (Frame.ofFront normalize front) (some p)).evaluate A =
        .ok (.measured v) ∧ 0 ≤ v ∧ (v = 0 ↔ nondominated A.counting ⊆ front) := by
  have hlength := length_of_mem_nondominated hA.length_of_counting
  have hown := nondominated_ne_nil hA.length_of_counting hAne
  refine onFront_gauges normalize hne hfront hA hAne hlength hfront hne ?_
  rw [Frame.reference_ofFront]
  exact powerMean_gauges hp (by simpa [Distance.nearestAll] using hown)
    (Distance.nearestAll_nonneg (by simpa using hne))

theorem evaluate_inverted :
    ∃ v, (inverted (Frame.ofFront normalize front) (some p)).evaluate A =
        .ok (.measured v) ∧ 0 ≤ v ∧ (v = 0 ↔ front ⊆ nondominated A.counting) := by
  have hlength := length_of_mem_nondominated hA.length_of_counting
  have hown := nondominated_ne_nil hA.length_of_counting hAne
  refine onFront_gauges normalize hne hfront hA hAne hfront hlength hown ?_
  rw [Frame.reference_ofFront]
  exact powerMean_gauges hp (by simpa [Distance.nearestAll] using hne)
    (Distance.nearestAll_nonneg (by simpa using hown))

end Indicator

/-- Off any scale it makes no difference which of two fronts is the reference. -/
theorem Indicator.evaluate_inverted_swap {R : PointSet Y α} {A : PointSet X α} {width : Nat}
    (hR : R.Uniform width) (hA : A.Uniform width) (hRne : R.counting ≠ [])
    (hAne : A.counting ≠ []) (power : Option α) :
    (inverted (Frame.ofFront false (nondominated A.counting)) power).evaluate R =
      (generational (Frame.ofFront false (nondominated R.counting)) power).evaluate A := by
  have hRown := nondominated_ne_nil hR.length_of_counting hRne
  have hAown := nondominated_ne_nil hA.length_of_counting hAne
  have hRlength := length_of_mem_nondominated hR.length_of_counting
  have hAlength := length_of_mem_nondominated hA.length_of_counting
  have hRfront := Frame.front_ofFront false hAown hAlength hR
  have hAfront := Frame.front_ofFront false hRown hRlength hA
  rw [evaluate, evaluate, onFront_of_ne_nil hRfront (by simpa using hRown),
    onFront_of_ne_nil hAfront (by simpa using hAown), Frame.reference_ofFront,
    Frame.reference_ofFront]
  rfl

/-- The indicators of distance are never negative, and they are out of reach exactly where a
set has no vector that counts.  The distances from a set are zero when its front is part of
the reference front, and those from the reference, be it their mean or the greatest of them,
when the reference front is part of that of the set.  Off any scale the mean distance from a
set to the reference is that from the reference to the set with the parts exchanged. -/
theorem distances_eq_zero_iff {width : Nat} {R : PointSet Y ℝ} (hR : R.Uniform width)
    (hRne : R.counting ≠ []) {power : Argument ℝ} {p : ℝ} (hpower : power.optional 1 = some p)
    (hp : 0 < p) (normalize : Argument Bool) :
    ∃ front gd igd worst, R.front = .ok front ∧
      IndicatorKind.generational.build
        { reference := .given R, power := power, normalize := normalize } = .ok gd ∧
      IndicatorKind.inverted.build
        { reference := .given R, power := power, normalize := normalize } = .ok igd ∧
      IndicatorKind.worstGap.build { reference := .given R, normalize := normalize } = .ok worst ∧
      ∀ A : PointSet X ℝ, A.Uniform width →
        (A.counting = [] → gd.evaluate A = .ok .unreached ∧ igd.evaluate A = .ok .unreached ∧
          worst.evaluate A = .ok .unreached) ∧
        (A.counting ≠ [] → ∃ own x y z, A.front = .ok own ∧
          gd.evaluate A = .ok (.measured x) ∧ igd.evaluate A = .ok (.measured y) ∧
          worst.evaluate A = .ok (.measured z) ∧ 0 ≤ x ∧ 0 ≤ y ∧ 0 ≤ z ∧
          (x = 0 ↔ own ⊆ front) ∧ (y = 0 ↔ front ⊆ own) ∧ (z = 0 ↔ front ⊆ own) ∧
          (normalize.isOn = false → ∃ back, IndicatorKind.inverted.build
              { reference := .given A, power := power, normalize := normalize } = .ok back ∧
            back.evaluate R = .ok (.measured x))) := by
  have hne := nondominated_ne_nil hR.length_of_counting hRne
  have hfront := length_of_mem_nondominated hR.length_of_counting
  refine ⟨nondominated R.counting, _, _, _, hR.front_eq, IndicatorKind.build_ok rfl rfl rfl hR hRne,
    IndicatorKind.build_ok rfl rfl rfl hR hRne, IndicatorKind.build_ok rfl rfl rfl hR hRne,
    fun A hA => ⟨fun hempty => ?_, fun hAne => ?_⟩⟩
  · have hunreached := Indicator.onFront_unreached normalize.isOn hne hfront hA hempty
    exact ⟨hunreached _, hunreached _, hunreached _⟩
  · obtain ⟨x, hx, hx0, hxiff⟩ :=
      Indicator.evaluate_generational normalize.isOn hne hfront hA hAne hp
    obtain ⟨y, hy, hy0, hyiff⟩ := Indicator.evaluate_inverted normalize.isOn hne hfront hA hAne hp
    obtain ⟨z, hz, hz0, hziff⟩ := Indicator.evaluate_worstGap normalize.isOn hne hfront hA hAne
    simp only [IndicatorKind.inFrame, hpower]
    refine ⟨nondominated A.counting, x, y, z, hA.front_eq, hx, hy, hz, hx0, hy0, hz0, hxiff, hyiff,
      hziff, fun hoff => ⟨_, IndicatorKind.build_ok rfl rfl rfl hA hAne, ?_⟩⟩
    simp only [IndicatorKind.inFrame, hpower]
    rw [hoff] at hx ⊢
    rw [Indicator.evaluate_inverted_swap hR hA hRne hAne, hx]

/-- The second vector is dominated, the third repeats the first, and the last solution is not
feasible. -/
noncomputable def lopsided : PointSet Unit ℝ :=
  .solutions [⟨(), [-1, 1], [], []⟩, ⟨(), [0, 1], [], []⟩, ⟨(), [-1, 1], [], []⟩,
    ⟨(), [1, -1], [1], []⟩]

noncomputable def barred : PointSet Unit ℝ := .solutions [⟨(), [1, -1], [1], []⟩]

theorem lopsided_counting : lopsided.counting = [[-1, 1], [0, 1], [-1, 1]] := by
  simp [lopsided, PointSet.counting_solutions]

theorem distances_eq_zero_iff_lopsided :
    staggered.Uniform 2 ∧ lopsided.Uniform 2 ∧ barred.Uniform 2 ∧
      ∃ gd igd back y,
        IndicatorKind.generational.build
          { reference := .given staggered, power := .given 3, normalize := .given false } =
            .ok gd ∧
        IndicatorKind.inverted.build
          { reference := .given staggered, power := .given 3, normalize := .given false } =
            .ok igd ∧
        IndicatorKind.inverted.build
          { reference := .given lopsided, power := .given 3, normalize := .given false } =
            .ok back ∧
        gd.evaluate barred = .ok .unreached ∧ gd.evaluate lopsided = .ok (.measured 0) ∧
        back.evaluate staggered = .ok (.measured 0) ∧
        igd.evaluate lopsided = .ok (.measured y) ∧ 0 < y := by
  have hstaggered : staggered.Uniform 2 := ⟨4, rfl, rfl⟩
  have hlopsided : lopsided.Uniform 2 := by simp [lopsided, PointSet.Uniform]
  have hbarred : barred.Uniform 2 := by simp [barred, PointSet.Uniform]
  have hpower : (Argument.given (3 : ℝ)).optional 1 = some 3 := rfl
  obtain ⟨front, gd, igd, worst, hfront, hgd, higd, -, hall⟩ :=
    distances_eq_zero_iff (X := Unit) hstaggered (by simp [staggered_counting]) hpower
      three_pos (.given false)
  obtain ⟨hunreached, -, -⟩ :=
    (hall barred hbarred).1 (by simp [barred, PointSet.counting_solutions])
  obtain ⟨own, x, y, z, hown, hx, hy, -, -, hy0, -, hxiff, hyiff, -, hback⟩ :=
    (hall lopsided hlopsided).2 (by simp [lopsided_counting])
  obtain ⟨back, hbuild, hswap⟩ := hback rfl
  have hfrontvalue : front = [[-1, 1], [1, -1], [-1, 1]] := by
    rw [hstaggered.front_eq, staggered_counting] at hfront
    rw [← Except.ok.inj hfront]
    norm_num [nondominated, dominatedBy, dominates, nowhereWorse, somewhereBetter]
  have hownvalue : own = [[-1, 1], [-1, 1]] := by
    rw [hlopsided.front_eq, lopsided_counting] at hown
    rw [← Except.ok.inj hown]
    norm_num [nondominated, dominatedBy, dominates, nowhereWorse, somewhereBetter]
  have hxzero : x = 0 := hxiff.mpr (by simp [hfrontvalue, hownvalue])
  have hyzero : y ≠ 0 := fun hzero => by
    have hsubset := hyiff.mp hzero
    norm_num [hfrontvalue, hownvalue] at hsubset
  exact ⟨hstaggered, hlopsided, hbarred, gd, igd, back, y, hgd, higd, hbuild, hunreached,
    hxzero ▸ hx, hxzero ▸ hswap, hy, hy0.lt_of_ne' hyzero⟩

end ParetoSearch
