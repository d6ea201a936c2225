import ParetoSearch.Proofs.Fitness.Recomputed
import ParetoSearch.Proofs.Indicator.Volume

/-!
# Gains as volumes of unions

The volume scheme computes its matrix from clipped products, one for each row and one for
each corner of two rows.  Entry by entry these come to volumes, in the sense of Lebesgue, of
unions of boxes (`volumeMatrix_unions`): over a dominated row a row loses the difference of
their boxes, and over any other row it gains what the other box adds to its own.

Two boxes up to one point share the box from their corner.  Clipping each side makes this hold
also where a row lies beyond the point in some coordinates: its box is then empty, and so is
what it shares, and both products have a factor zero.
-/

namespace ParetoSearch

open MeasureTheory (measureReal_union_add_inter)

namespace Hypervolume

/-- The volume of the union of the boxes up to a point from the rows that are nowhere beyond
it. -/
noncomputable def unionVolume (width : Nat) (point : List ℝ) (rows : List (List ℝ)) : ℝ :=
  MeasureTheory.volume.real (⋃ p ∈ {p ∈ rows | List.Forall₂ (· ≤ ·) p point},
    Set.Icc (corner width p) (corner width point))

section

variable {width : Nat} {point a b : List ℝ} {rows rows' : List (List ℝ)}

theorem unionVolume_eq_reach (hrows : ∀ row ∈ rows, row.length = width)
    (hpoint : point.length = width) :
    unionVolume width point rows = MeasureTheory.volume.real (reach width point rows) := by
  rw [unionVolume, reach_eq_iUnion_below hrows hpoint]

theorem unionVolume_mono (hrows : ∀ row ∈ rows, row.length = width)
    (hrows' : ∀ row ∈ rows', row.length = width) (hpoint : point.length = width)
    (hbelow : ∀ row ∈ rows, ∃ row' ∈ rows', List.Forall₂ (· ≤ ·) row' row) :
    unionVolume width point rows ≤ unionVolume width point rows' := by
  rw [unionVolume_eq_reach hrows hpoint, unionVolume_eq_reach hrows' hpoint]
  exact MeasureTheory.measureReal_mono (reach_mono hbelow)
    (isCompact_reach width point rows').measure_ne_top

theorem reach_pair : reach width point [a, b] =
    Set.Icc (corner width a) (corner width point) ∪
      Set.Icc (corner width b) (corner width point) := by
  ext f
  rw [mem_reach_cons, mem_reach_cons, Set.mem_union]
  exact or_congr_right (or_iff_left (by simp [reach]))

theorem corner_zipWith_greater (h : a.length = b.length) :
    corner width (a.zipWith Scalar.greater b) = corner width a ⊔ corner width b := by
  funext k
  rw [Pi.sup_apply, corner, entries_zipWith (by rw [Scalar.greater_eq_max, max_self]) h,
    Scalar.greater_eq_max]
  rfl

/-- The clipped product is the volume of the box, also where there is no box. -/
theorem volume_box (ha : a.length = width) (hpoint : point.length = width) :
    MeasureTheory.volume.real (Set.Icc (corner width a) (corner width point)) =
      Scheme.volume point a := by
  have hsides : Scheme.sides point a = width := by
    rw [Scheme.sides, ha, hpoint, ite_self]
  have hroom : ∀ k : Fin width, max (corner width point k - corner width a k) 0 =
      Scheme.room point a k := by
    intro k
    have hplace : (if width = 1 then 0 else (k : Nat)) = k := by
      split <;> omega
    rw [Scheme.room, ha, hpoint, hplace]
    rfl
  rw [MeasureTheory.measureReal_def, Real.volume_Icc_pi, ENNReal.toReal_prod,
    Scheme.volume_eq_prod (Or.inl (hpoint.trans ha.symm)), hsides, Finset.prod_range]
  exact Finset.prod_congr rfl fun k _ => ENNReal.toReal_ofReal'.trans (hroom k)

theorem unionVolume_singleton (ha : a.length = width) (hpoint : point.length = width) :
    unionVolume width point [a] = Scheme.volume point a := by
  have hbox : reach width point [a] = Set.Icc (corner width a) (corner width point) := by
    simp [reach]
  rw [unionVolume_eq_reach (by simpa using ha) hpoint, hbox, volume_box ha hpoint]

/-- What two boxes share counts once. -/
theorem unionVolume_pair (ha : a.length = width) (hb : b.length = width)
    (hpoint : point.length = width) :
    unionVolume width point [a, b] = Scheme.volume point a + Scheme.volume point b -
      Scheme.volume point (a.zipWith Scalar.greater b) := by
  have hcorner : (a.zipWith Scalar.greater b).length = width := by
    rw [List.length_zipWith, ha, hb, min_self]
  have hshared : Set.Icc (corner width a) (corner width point) ∩
      Set.Icc (corner width b) (corner width point) =
        Set.Icc (corner width (a.zipWith Scalar.greater b)) (corner width point) := by
    rw [Set.Icc_inter_Icc, inf_idem, corner_zipWith_greater (ha.trans hb.symm)]
  have hfinite (row : List ℝ) :
      MeasureTheory.volume (Set.Icc (corner width row) (corner width point)) ≠ ⊤ :=
    isCompact_Icc.measure_ne_top
  rw [unionVolume_eq_reach (by simp [ha, hb]) hpoint, reach_pair, ← volume_box ha hpoint,
    ← volume_box hb hpoint, ← volume_box hcorner hpoint, ← hshared]
  exact eq_sub_of_add_eq
    (measureReal_union_add_inter measurableSet_Icc (hfinite a) (hfinite b))

end

end Hypervolume

open Hypervolume (unionVolume)

namespace Scheme

section

variable {width : Nat} {point a b : List ℝ}

theorem gainBelow_eq_unions (ha : a.length = width) (hb : b.length = width)
    (hpoint : point.length = width) : gainBelow point a b =
      if dominates a b then unionVolume width point [b] - unionVolume width point [a]
      else unionVolume width point [a, b] - unionVolume width point [a] := by
  rw [Hypervolume.unionVolume_singleton ha hpoint, Hypervolume.unionVolume_singleton hb hpoint,
    Hypervolume.unionVolume_pair ha hb hpoint]
  rfl

end

end Scheme

/-- From where the volume scheme that is built from arguments measures. -/
def SchemeArguments.anchor {α : Type} [Scalar α] (a : SchemeArguments α) : Scheme.Anchor α :=
  Scheme.anchorOf a.normalize.isOn (a.rho.optional SchemeKind.standardRho)
    (a.referencePoint.value?.map Tensor.entries)

/-- Over a row that it dominates a row gains the difference of their boxes, which is no gain;
over any other row it gains what the union of their boxes has more than its own.  Boxes reach
up to the reference point, and a row that lies beyond it in some coordinate has none. -/
theorem volumeMatrix_unions {arguments : SchemeArguments ℝ} {s : Scheme ℝ}
    (hbuild : SchemeKind.hypervolume.build arguments = .ok s) {width : Nat}
    {rows : List (List ℝ)} (hrows : ∀ row ∈ rows, row.length = width) {point : List ℝ}
    (hpoint : arguments.anchor.resolve rows = .ok point) (hwidth : point.length = width) :
    ∃ matrix, s.matrix rows = .ok matrix ∧ matrix.length = rows.length ∧
      (∀ row ∈ matrix, row.length = rows.length) ∧
      ∀ i (hi : i < rows.length) j (hj : j < rows.length),
        let x := (matrix.getD i []).getD j 0
        (dominates rows[i] rows[j] = true →
          x = unionVolume width point [rows[j]] - unionVolume width point [rows[i]] ∧ x ≤ 0) ∧
        (dominates rows[i] rows[j] = false →
          x = unionVolume width point [rows[i], rows[j]] - unionVolume width point [rows[i]] ∧
            0 ≤ x) ∧
        (i = j → x = 0) := by
  have hmatrix : s.matrix rows = .ok (rows.map fun a => rows.map (Scheme.gainBelow point a)) := by
    rw [(SchemeKind.build_ok hbuild).1]
    exact Scheme.volumeMatrix_eq hpoint (Or.inl hwidth) hrows
  refine ⟨_, hmatrix, by simp, by simp, fun i hi j hj => ?_⟩
  have hlength : ∀ k (hk : k < rows.length), rows[k].length = width := fun k hk =>
    hrows _ (List.getElem_mem hk)
  have hentry : ((rows.map fun a => rows.map (Scheme.gainBelow point a)).getD i []).getD j 0 =
      Scheme.gainBelow point rows[i] rows[j] := by
    simp [hi, hj]
  have hunions := Scheme.gainBelow_eq_unions (hlength i hi) (hlength j hj) hwidth
  have hsingle : ∀ {a b : List ℝ}, a.length = width → b.length = width →
      List.Forall₂ (· ≤ ·) a b →
        unionVolume width point [b] ≤ unionVolume width point [a] := fun ha hb hle =>
    Hypervolume.unionVolume_mono (by simpa using hb) (by simpa using ha) hwidth (by simpa using hle)
  simp only [hentry]
  refine ⟨fun hdominates => ?_, fun hnot => ?_, ?_⟩
  · rw [hunions, if_pos hdominates]
    have hle := forall₂_le_of_dominates ((hlength i hi).trans (hlength j hj).symm) hdominates
    exact ⟨rfl, sub_nonpos.mpr (hsingle (hlength i hi) (hlength j hj) hle)⟩
  · rw [hunions, if_neg (Bool.eq_false_iff.mp hnot)]
    refine ⟨rfl, sub_nonneg.mpr ?_⟩
    refine Hypervolume.unionVolume_mono (by simp [hlength i hi]) ?_ hwidth ?_
    · simp [hlength i hi, hlength j hj]
    · simp
  · rintro rfl
    have hself : unionVolume width point [rows[i], rows[i]] =
        unionVolume width point [rows[i]] := by simp [unionVolume]
    rw [hunions, not_dominates_self, if_neg Bool.false_ne_true, hself, sub_self]

/-- The second row is dominated by the first, and the third lies beyond four in one objective. -/
noncomputable def overhanging : List (List ℝ) :=
  [[1, 1], [2, 2], [5, 0]].map (List.map Nat.cast)

theorem volumeMatrix_unions_overhanging :
    ∃ s, SchemeKind.hypervolume.build (Tracker.rawVolumes (.given (.vector [4, 4]))) = .ok s ∧
      (∀ row ∈ overhanging, row.length = 2) ∧
      s.matrix overhanging = .ok [[0, -5, 0], [5, 0, 0], [9, 4, 0]] ∧
      unionVolume 2 [4, 4] [[2, 2]] - unionVolume 2 [4, 4] [[1, 1]] = -5 ∧
      unionVolume 2 [4, 4] [[5, 0], [2, 2]] - unionVolume 2 [4, 4] [[5, 0]] = 4 := by
  have hbuild := Tracker.rawVolumes_build (.given (.vector [4, 4]))
  have hrows : ∀ row ∈ overhanging, row.length = 2 := by simp [overhanging]
  have hpoint : (Tracker.rawVolumes (.given (.vector [4, 4]))).anchor.resolve overhanging =
      .ok [4, 4] := rfl
  obtain ⟨matrix, hmatrix, -, -, hentries⟩ := volumeMatrix_unions hbuild hrows hpoint rfl
  have hcomputed : Scheme.volumeMatrix (.point [4, 4]) overhanging =
      .ok [[0, -5, 0], [5, 0, 0], [9, 4, 0]] := by
    norm_num [overhanging, Scheme.volumeMatrix, Scheme.Anchor.resolve, Scheme.boxVolume,
      Vector.pairUp, Vector.product, Scheme.volumeGain, Scalar.greater_eq_max, dominates,
      nowhereWorse, somewhereBetter, pure, Except.pure, bind, Except.bind]
  obtain rfl : [[0, -5, 0], [5, 0, 0], [9, 4, (0 : ℝ)]] = matrix :=
    Except.ok.inj (hcomputed.symm.trans hmatrix)
  have hfirst := (hentries 0 (by decide) 1 (by decide)).1 (by
    norm_num [overhanging, dominates, nowhereWorse, somewhereBetter])
  have hthird := (hentries 2 (by decide) 1 (by decide)).2.1 (by
    norm_num [overhanging, dominates, nowhereWorse, somewhereBetter])
  exact ⟨_, hbuild, hrows, hmatrix, by simpa [overhanging] using hfirst.1.symm,
    by simpa [overhanging] using hthird.1.symm⟩

end ParetoSearch
