import ParetoSearch.Proofs.Hypervolume
import ParetoSearch.Proofs.Indicator.Frames

/-!
# Volume up to a reference point

With a reference point of its own, the hypervolume of a set is the volume of the union of the
boxes between its vectors and that point (`hypervolume_eq_volume`).

The indicator leaves out what does not count, then what is dominated, and then what is not
strictly inside the point.  A dominated vector has its box within that of a vector of the
front, also when that one lies outside: then neither box has a volume.  A vector on the rim
has a box without a volume.
-/

namespace ParetoSearch

open MeasureTheory (ae_eq_empty measureReal_congr measure_biUnion_null_iff
  union_ae_eq_left_of_ae_eq_empty)

variable {X Y : Type}

/-! ## Inside the reference point -/

theorem Indicator.inside_iff {α : Type} [ExactScalar α] {point row : List α}
    (h : row.length = point.length) : inside point row = true ↔ List.Forall₂ (· < ·) row point := by
  induction row generalizing point with
  | nil =>
    obtain rfl := List.length_eq_zero_iff.mp h.symm
    simp [inside]
  | cons x rest ih =>
    obtain ⟨r, rs, rfl⟩ := List.exists_cons_of_length_eq_add_one h.symm
    rw [List.forall₂_cons, ← ih (Nat.succ.inj h)]
    simp [inside]

namespace Hypervolume

variable {width : Nat} {point : List ℝ} {rows : List (List ℝ)}

/-- A box that is not strictly inside in some coordinate is flat. -/
theorem volume_box_eq_zero {row : List ℝ} (hrow : row.length = width)
    (hpoint : point.length = width) (h : Indicator.inside point row = false) :
    MeasureTheory.volume (Set.Icc (corner width row) (corner width point)) = 0 := by
  rw [← Bool.not_eq_true, Indicator.inside_iff (hrow.trans hpoint.symm), List.forall₂_iff_get,
    not_and] at h
  have hflat := h (hrow.trans hpoint.symm)
  push Not at hflat
  obtain ⟨k, hkrow, hkpoint, hle⟩ := hflat
  rw [Real.volume_Icc_pi]
  refine Finset.prod_eq_zero (Finset.mem_univ ⟨k, hrow ▸ hkrow⟩) (ENNReal.ofReal_eq_zero.mpr ?_)
  rw [corner, corner, entries_of_lt hkrow, entries_of_lt hkpoint]
  exact sub_nonpos.mpr hle

theorem reach_nondominated (hrows : ∀ row ∈ rows, row.length = width) :
    reach width point (nondominated rows) = reach width point rows :=
  Set.Subset.antisymm
    (reach_mono fun row hrow => ⟨row, (mem_nondominated.mp hrow).1, List.forall₂_refl row⟩)
    (reach_mono fun _ hrow => exists_nondominated_le hrows hrow)

theorem volume_reach_eq_zero (hrows : ∀ row ∈ rows, row.length = width)
    (hpoint : point.length = width) (hflat : ∀ row ∈ rows, Indicator.inside point row = false) :
    MeasureTheory.volume (reach width point rows) = 0 :=
  (measure_biUnion_null_iff (List.finite_toSet rows).countable).mpr fun row hrow =>
    volume_box_eq_zero (hrows row hrow) hpoint (hflat row hrow)

theorem reach_filter_union (p : List ℝ → Bool) :
    reach width point (rows.filter p) ∪ reach width point (rows.filter fun row => !p row) =
      reach width point rows := by
  ext f
  rw [Set.mem_union, mem_reach, mem_reach, mem_reach, ← exists_or]
  refine exists_congr fun row => ?_
  rw [← or_and_right, List.mem_filter, List.mem_filter, ← and_or_left]
  simp

theorem volume_reach_inside (hrows : ∀ row ∈ rows, row.length = width)
    (hpoint : point.length = width) :
    MeasureTheory.volume.real (reach width point (rows.filter (Indicator.inside point))) =
      MeasureTheory.volume.real (reach width point rows) := by
  have hflat : MeasureTheory.volume
      (reach width point (rows.filter fun row => !Indicator.inside point row)) = 0 :=
    volume_reach_eq_zero (fun row hrow => hrows row (List.mem_of_mem_filter hrow)) hpoint
      fun row hrow => by simpa using List.of_mem_filter hrow
  have hrest := union_ae_eq_left_of_ae_eq_empty
    (s := reach width point (rows.filter (Indicator.inside point))) (ae_eq_empty.mpr hflat)
  rw [← measureReal_congr hrest, reach_filter_union]

/-- Only a row that is nowhere beyond the point has a box. -/
theorem reach_eq_iUnion_below (hrows : ∀ row ∈ rows, row.length = width)
    (hpoint : point.length = width) :
    reach width point rows = ⋃ row ∈ {row ∈ rows | List.Forall₂ (· ≤ ·) row point},
      Set.Icc (corner width row) (corner width point) := by
  ext f
  simp only [mem_reach, Set.mem_iUnion, Set.mem_ofPred_eq, exists_prop, and_assoc]
  refine exists_congr fun row => and_congr_right fun hrow => Iff.symm ?_
  refine and_iff_right_of_imp fun hf => ?_
  have hlength := (hrows row hrow).trans hpoint.symm
  refine List.forall₂_iff_get.mpr ⟨hlength, fun k hkrow hkpoint => ?_⟩
  have hle := (hf.1.trans hf.2) ⟨k, hpoint ▸ hkpoint⟩
  rwa [corner, corner, entries_of_lt hkrow, entries_of_lt hkpoint] at hle

end Hypervolume

/-- What is left out on the way to the slabs has no volume of its own. -/
theorem Indicator.evaluate_hypervolume {width : Nat} (hpos : 0 < width) {point : List ℝ}
    (hpoint : point.length = width) {A : PointSet X ℝ} (hA : A.Uniform width) :
    (hypervolume (.ofPoint point) point).evaluate A =
      .ok (.measured (MeasureTheory.volume.real (Hypervolume.reach width point A.counting))) := by
  have hrows := hA.length_of_counting
  have hfront : (Frame.ofPoint point).front A = .ok (nondominated A.counting) :=
    Frame.front_eq (f := Frame.ofPoint point) hpoint hA
  have hkept := length_of_mem_nondominated hrows
  have hinside : ∀ row ∈ (nondominated A.counting).filter (inside point),
      List.Forall₂ (· ≤ ·) row point := by
    intro row hrow
    obtain ⟨hrow, hin⟩ := List.mem_filter.mp hrow
    exact ((inside_iff ((hkept row hrow).trans hpoint.symm)).mp hin).imp fun _ _ => le_of_lt
  have hpointne : point.isEmpty = false :=
    List.isEmpty_eq_false_iff.mpr (List.ne_nil_of_length_pos (hpoint ▸ hpos))
  rw [← Hypervolume.reach_nondominated hrows, ← Hypervolume.volume_reach_inside hkept hpoint,
    Hypervolume.volume_reach hpoint hinside, evaluate, hfront, ok_bind, boundedVolume, hpointne]
  rfl

/-- With an explicit reference point the hypervolume of a set is the volume of the union of the
boxes from its vectors to that point, dominated vectors and vectors on the rim included; a
vector beyond the point has no box.  A set is no smaller than one whose vectors are all weakly
dominated by its own. -/
theorem hypervolume_eq_volume {width : Nat} (hpos : 0 < width) {point : List ℝ}
    (hpoint : point.length = width) (reference : Argument (PointSet Y ℝ)) :
    ∃ i, IndicatorKind.hypervolume.build
        { reference := reference, referencePoint := .given (.vector point) } = .ok i ∧
      ∀ A : PointSet X ℝ, A.Uniform width →
        ∃ v, i.evaluate A = .ok (.measured v) ∧
          v = MeasureTheory.volume.real (⋃ p ∈ {p ∈ A.counting | List.Forall₂ (· ≤ ·) p point},
            Set.Icc (Hypervolume.corner width p) (Hypervolume.corner width point)) ∧
          ∀ B : PointSet X ℝ, B.Uniform width →
            (∀ a ∈ A.counting, ∃ b ∈ B.counting, List.Forall₂ (· ≤ ·) b a) →
              ∃ w, i.evaluate B = .ok (.measured w) ∧ v ≤ w := by
  refine ⟨.hypervolume (.ofPoint point) point, rfl, fun A hA => ?_⟩
  refine ⟨_, Indicator.evaluate_hypervolume hpos hpoint hA, ?_, fun B hB hbelow => ?_⟩
  · rw [Hypervolume.reach_eq_iUnion_below hA.length_of_counting hpoint]
  · refine ⟨_, Indicator.evaluate_hypervolume hpos hpoint hB, ?_⟩
    exact MeasureTheory.measureReal_mono (Hypervolume.reach_mono hbelow)
      (Hypervolume.isCompact_reach _ _ _).measure_ne_top

/-- The second vector is dominated, the fourth is on the rim of the point, the fifth beyond it,
and the last solution is not feasible. -/
noncomputable def terrace : PointSet Unit ℝ :=
  .solutions (([[1, 3], [2, 3], [3, 1], [4, 0], [0, 5]].map fun row =>
    ⟨(), row.map Nat.cast, [], []⟩) ++ [⟨(), [0, 0], [1], []⟩])

noncomputable def slope : PointSet Unit ℝ :=
  .points (Tensor.ofRows ([[1, 1], [4, 0], [0, 5]].map (List.map Nat.cast)))

theorem terrace_counting : terrace.counting = [[1, 3], [2, 3], [3, 1], [4, 0], [0, 5]] := by
  simp [terrace, PointSet.counting_solutions]

theorem slope_counting : slope.counting = [[1, 1], [4, 0], [0, 5]] := by
  rw [slope, PointSet.counting_points, PointSet.pointRows_ofRows (by decide : 0 < 2) (by simp)]
  simp

/-- A slab with a section of one unit, and one with a section of three. -/
theorem volume_steps : Hypervolume.volume [4, (4 : ℝ)] [[1, 3], [3, 1]] = 5 := by
  have hsorted : Hypervolume.byFirst [(1, [3]), (3, [(1 : ℝ)])] = [(1, [3]), (3, [1])] := by
    norm_num [Hypervolume.byFirst, Hypervolume.place]
  have hleft : Hypervolume.volume [4] [[(3 : ℝ)]] = 4 - 3 := rfl
  have hright : Hypervolume.volume [4] [[1], [(3 : ℝ)]] = 4 - Scalar.lesser 1 3 := rfl
  calc Hypervolume.volume [4, (4 : ℝ)] [[1, 3], [3, 1]]
      = Hypervolume.slabs (Hypervolume.volume [4]) 4 []
          (Hypervolume.byFirst [(1, [3]), (3, [(1 : ℝ)])]) := rfl
    _ = 5 := by
        rw [hsorted, Hypervolume.slabs_cons_cons, Hypervolume.slabs_singleton, hleft, hright,
          Scalar.lesser_eq_min]
        norm_num

theorem hypervolume_eq_volume_terrace :
    terrace.Uniform 2 ∧ slope.Uniform 2 ∧
      ∃ i w, IndicatorKind.hypervolume.build (X := Unit) (α := ℝ)
          { referencePoint := .given (.vector [4, 4]) } = .ok i ∧
        i.evaluate terrace = .ok (.measured 5) ∧ i.evaluate slope = .ok (.measured w) ∧ 5 ≤ w ∧
        MeasureTheory.volume.real (⋃ p ∈ {p ∈ terrace.counting | List.Forall₂ (· ≤ ·) p [4, 4]},
          Set.Icc (Hypervolume.corner 2 p) (Hypervolume.corner 2 [4, 4])) = 5 := by
  have hterrace : terrace.Uniform 2 := by simp [terrace, PointSet.Uniform]
  have hslope : slope.Uniform 2 := ⟨3, rfl, rfl⟩
  obtain ⟨i, hbuild, hall⟩ := hypervolume_eq_volume (X := Unit) (by decide : 0 < 2)
    (rfl : [4, (4 : ℝ)].length = 2) (.leftOut : Argument (PointSet Unit ℝ))
  obtain ⟨v, hv, harea, hbelow⟩ := hall terrace hterrace
  obtain ⟨w, hw, hle⟩ := hbelow slope hslope (by norm_num [terrace_counting, slope_counting])
  have hvalue : i.evaluate terrace = .ok (.measured 5) := by
    obtain rfl : Indicator.hypervolume (.ofPoint [4, 4]) [4, 4] = i := Except.ok.inj hbuild
    have hfront : nondominated terrace.counting = [[1, 3], [3, 1], [4, 0], [0, 5]] := by
      rw [terrace_counting]
      norm_num [nondominated, dominatedBy, dominates, nowhereWorse, somewhereBetter]
    have hinside : [[1, 3], [3, 1], [4, 0], [0, 5]].filter (Indicator.inside [4, (4 : ℝ)]) =
        [[1, 3], [3, 1]] := by
      norm_num [Indicator.inside]
    rw [Indicator.evaluate, Frame.front_eq (f := Frame.ofPoint [4, (4 : ℝ)]) rfl hterrace, hfront]
    simp [Frame.scale, Frame.ofPoint, Indicator.boundedVolume, hinside, volume_steps, ok_bind]
  obtain rfl : v = 5 := by
    rw [hvalue] at hv
    cases hv
    rfl
  exact ⟨hterrace, hslope, i, w, hbuild, hvalue, hw, hle, harea.symm⟩

end ParetoSearch
