import Mathlib.MeasureTheory.Measure.Lebesgue.Basic
import Mathlib.MeasureTheory.Measure.Real
import ParetoSearch.Hypervolume
import ParetoSearch.Proofs.Arithmetic.Extremes
import ParetoSearch.Proofs.Dominance

/-!
# Slabs measure a union of boxes

The slabs come to the volume, in the sense of Lebesgue, of all that lies between one of the
rows and the reference point (`Hypervolume.volume_reach`).

From left to right each slab takes a product off what is left to be swept, its width times
the section of the boxes entered so far (`swept_cons_cons`); its right edge is the left edge
of what remains.  The sections are unions of boxes with one coordinate less, and what has
been swept from the first row on is the whole union.
-/

namespace ParetoSearch
namespace Hypervolume

open MeasureTheory (Measure measureReal_prod_prod measureReal_union measure_ne_top_of_subset)

/-! ## The order of the slabs -/

section

variable {α : Type} [ExactScalar α] {p q : α × List α} {points : List (α × List α)}

theorem mem_place : q ∈ place p points ↔ q = p ∨ q ∈ points := by
  induction points with
  | nil => simp [place]
  | cons first rest ih =>
    rw [place]
    split
    · exact List.mem_cons
    · rw [List.mem_cons, ih, List.mem_cons, or_left_comm]

theorem pairwise_place (h : points.Pairwise fun p q => p.1 ≤ q.1) :
    (place p points).Pairwise fun p q => p.1 ≤ q.1 := by
  induction points with
  | nil => exact List.pairwise_singleton _ p
  | cons first rest ih =>
    have hfirst := (List.pairwise_cons.mp h).1
    rw [place]
    split
    case isTrue hlt =>
      refine List.pairwise_cons.mpr ⟨List.forall_mem_cons.mpr ⟨hlt.le, fun q hq => ?_⟩, h⟩
      exact hlt.le.trans (hfirst q hq)
    case isFalse hle =>
      refine List.pairwise_cons.mpr ⟨fun q hq => ?_, ih h.of_cons⟩
      rcases mem_place.mp hq with rfl | hq
      · exact not_lt.mp hle
      · exact hfirst q hq

theorem mem_byFirst : q ∈ byFirst points ↔ q ∈ points := by
  have hplaced : ∀ sorted : List (α × List α),
      q ∈ points.foldl (fun sorted p => place p sorted) sorted ↔ q ∈ points ∨ q ∈ sorted := by
    induction points with
    | nil => simp
    | cons p rest ih =>
      intro sorted
      rw [List.foldl_cons, ih, mem_place, List.mem_cons, or_assoc, or_left_comm]
  rw [byFirst, hplaced, or_iff_left List.not_mem_nil]

theorem pairwise_byFirst (points : List (α × List α)) :
    (byFirst points).Pairwise fun p q => p.1 ≤ q.1 :=
  List.foldlRecOn points _ List.Pairwise.nil fun _ h _ _ => pairwise_place h

omit [ExactScalar α] in
/-- A row that is split is a first coordinate and the rest. -/
theorem mem_filterMap_split {rows : List (List α)} :
    q ∈ rows.filterMap split ↔ q.1 :: q.2 ∈ rows := by
  rw [List.mem_filterMap]
  constructor
  · rintro ⟨row, hrow, hsplit⟩
    cases row with
    | nil => cases hsplit
    | cons x rest => exact Option.some.inj hsplit ▸ hrow
  · exact fun h => ⟨q.1 :: q.2, h, rfl⟩

omit [ExactScalar α] in
theorem mem_filterMap_head? {rows : List (List α)} (hrows : ∀ row ∈ rows, row.length = 1) {y : α} :
    y ∈ rows.filterMap List.head? ↔ [y] ∈ rows := by
  rw [List.mem_filterMap]
  constructor
  · rintro ⟨row, hrow, hhead⟩
    obtain ⟨z, rfl⟩ := List.length_eq_one_iff.mp (hrows row hrow)
    exact Option.some.inj hhead ▸ hrow
  · exact fun h => ⟨[y], h, rfl⟩

/-! ## One slab -/

section

variable {slice : List (List α) → α} {reference x y : α} {seen : List (List α)} {rest : List α}
  {others : List (α × List α)}

theorem slabs_singleton :
    slabs slice reference seen [(x, rest)] = (reference - x) * slice (rest :: seen) := by
  simp only [slabs]
  split
  case isTrue heq => rw [(Scalar.beq_iff _ _).mp heq, sub_self, zero_mul]
  case isFalse => exact add_zero _

theorem slabs_cons_cons {rest' : List α} :
    slabs slice reference seen ((x, rest) :: (y, rest') :: others) =
      (y - x) * slice (rest :: seen) +
        slabs slice reference (rest :: seen) ((y, rest') :: others) := by
  rw [slabs]
  split
  case isTrue heq => rw [(Scalar.beq_iff _ _).mp heq, sub_self, zero_mul, zero_add]
  case isFalse => rfl

end

end

/-! ## Regions -/

/-- A row as a point of space. -/
def corner (width : Nat) (row : List ℝ) : Fin width → ℝ := fun k => entries row k

/-- What lies between one of the rows and the reference point. -/
def reach (width : Nat) (point : List ℝ) (rows : List (List ℝ)) : Set (Fin width → ℝ) :=
  ⋃ row ∈ rows, Set.Icc (corner width row) (corner width point)

/-- What is left to be swept, with the sections entered so far. -/
def swept (width : Nat) (r : ℝ) (rs : List ℝ) (seen : List (List ℝ))
    (others : List (ℝ × List ℝ)) : Set (ℝ × (Fin width → ℝ)) :=
  ⋃ q ∈ others, Set.Icc q.1 r ×ˢ reach width rs (q.2 :: seen)

section

variable {width : Nat} {point : List ℝ} {rows rows' : List (List ℝ)} {f : Fin width → ℝ}

theorem corner_le_corner {a b : List ℝ} (h : List.Forall₂ (· ≤ ·) a b) :
    corner width a ≤ corner width b := fun k =>
  (forall₂_le_iff_entries_le h.length_eq).mp h k

theorem mem_reach :
    f ∈ reach width point rows ↔
      ∃ row ∈ rows, f ∈ Set.Icc (corner width row) (corner width point) := by
  simp only [reach, Set.mem_iUnion, exists_prop]

theorem mem_reach_cons {row : List ℝ} :
    f ∈ reach width point (row :: rows) ↔
      f ∈ Set.Icc (corner width row) (corner width point) ∨ f ∈ reach width point rows := by
  simp only [mem_reach, List.exists_mem_cons_iff]

theorem isCompact_reach (width : Nat) (point : List ℝ) (rows : List (List ℝ)) :
    IsCompact (reach width point rows) :=
  (List.finite_toSet rows).isCompact_biUnion fun _ _ => isCompact_Icc

theorem reach_mono (h : ∀ row ∈ rows, ∃ row' ∈ rows', List.Forall₂ (· ≤ ·) row' row) :
    reach width point rows ⊆ reach width point rows' := by
  intro f hf
  obtain ⟨row, hrow, hlower, hupper⟩ := mem_reach.mp hf
  obtain ⟨row', hrow', hle⟩ := h row hrow
  exact mem_reach.mpr ⟨row', hrow', (corner_le_corner hle).trans hlower, hupper⟩

theorem mem_swept {r : ℝ} {rs : List ℝ} {seen : List (List ℝ)} {others : List (ℝ × List ℝ)}
    {z : ℝ × (Fin width → ℝ)} :
    z ∈ swept width r rs seen others ↔
      ∃ q ∈ others, z.1 ∈ Set.Icc q.1 r ∧ z.2 ∈ reach width rs (q.2 :: seen) := by
  simp only [swept, Set.mem_iUnion, exists_prop, Set.mem_prod]

theorem isCompact_swept (width : Nat) (r : ℝ) (rs : List ℝ) (seen : List (List ℝ))
    (others : List (ℝ × List ℝ)) : IsCompact (swept width r rs seen others) :=
  (List.finite_toSet others).isCompact_biUnion fun _ _ =>
    isCompact_Icc.prod (isCompact_reach _ _ _)

end

/-! ## One slab after another -/

section

variable {width : Nat} {r x y : ℝ} {rs rest rest' : List ℝ} {seen : List (List ℝ)}
  {others : List (ℝ × List ℝ)}

/-- What lies left of the second row is behind the first one alone. -/
theorem swept_cons_cons (hxy : x ≤ y) (hyr : y ≤ r) (hothers : ∀ q ∈ others, y ≤ q.1) :
    swept width r rs seen ((x, rest) :: (y, rest') :: others) =
      Set.Ico x y ×ˢ reach width rs (rest :: seen) ∪
        swept width r rs (rest :: seen) ((y, rest') :: others) := by
  have hbehind : ∀ q ∈ (y, rest') :: others, y ≤ q.1 := List.forall_mem_cons.mpr ⟨le_rfl, hothers⟩
  ext ⟨t, f⟩
  rw [Set.mem_union, Set.mem_prod, mem_swept, mem_swept]
  constructor
  · rintro ⟨q, hq, ⟨hlower, hupper⟩, hf⟩
    rcases List.mem_cons.mp hq with rfl | hq
    · rcases lt_or_ge t y with hty | hty
      · exact Or.inl ⟨⟨hlower, hty⟩, hf⟩
      · exact Or.inr ⟨(y, rest'), List.mem_cons_self, ⟨hty, hupper⟩,
          mem_reach_cons.mpr (Or.inr hf)⟩
    · refine Or.inr ⟨q, hq, ⟨hlower, hupper⟩, ?_⟩
      rw [mem_reach_cons] at hf ⊢
      exact hf.imp_right fun hseen => mem_reach_cons.mpr (Or.inr hseen)
  · rintro (⟨⟨hlower, hupper⟩, hf⟩ | ⟨q, hq, ⟨hlower, hupper⟩, hf⟩)
    · exact ⟨(x, rest), List.mem_cons_self, ⟨hlower, hupper.le.trans hyr⟩, hf⟩
    · -- The first row's box reaches over all that is behind it.
      rcases mem_reach_cons.mp hf with hbox | hf
      · exact ⟨q, List.mem_cons_of_mem _ hq, ⟨hlower, hupper⟩, mem_reach_cons.mpr (Or.inl hbox)⟩
      · have hxt : x ≤ t := hxy.trans ((hbehind q hq).trans hlower)
        exact ⟨(x, rest), List.mem_cons_self, ⟨hxt, hupper⟩, hf⟩

theorem volume_swept_singleton (hxr : x ≤ r) :
    MeasureTheory.volume.real (swept width r rs seen [(x, rest)]) =
      (r - x) * MeasureTheory.volume.real (reach width rs (rest :: seen)) := by
  have hlast : swept width r rs seen [(x, rest)] =
      Set.Icc x r ×ˢ reach width rs (rest :: seen) := by simp [swept]
  rw [hlast, Measure.volume_eq_prod, measureReal_prod_prod, Real.volume_real_Icc_of_le hxr]

theorem volume_swept_cons_cons (hxy : x ≤ y) (hyr : y ≤ r) (hothers : ∀ q ∈ others, y ≤ q.1) :
    MeasureTheory.volume.real (swept width r rs seen ((x, rest) :: (y, rest') :: others)) =
      (y - x) * MeasureTheory.volume.real (reach width rs (rest :: seen)) +
        MeasureTheory.volume.real (swept width r rs (rest :: seen) ((y, rest') :: others)) := by
  have hbehind : ∀ q ∈ (y, rest') :: others, y ≤ q.1 := List.forall_mem_cons.mpr ⟨le_rfl, hothers⟩
  have hdisjoint : Disjoint (Set.Ico x y ×ˢ reach width rs (rest :: seen))
      (swept width r rs (rest :: seen) ((y, rest') :: others)) := by
    refine Set.disjoint_left.mpr fun z hz hswept => ?_
    obtain ⟨q, hq, hlower, -⟩ := mem_swept.mp hswept
    exact hz.1.2.not_ge ((hbehind q hq).trans hlower.1)
  have hbounded : Set.Ico x y ×ˢ reach width rs (rest :: seen) ⊆
      Set.Icc x y ×ˢ reach width rs (rest :: seen) := Set.prod_mono_left Set.Ico_subset_Icc_self
  rw [swept_cons_cons hxy hyr hothers,
    measureReal_union hdisjoint (isCompact_swept _ _ _ _ _).measurableSet
      (measure_ne_top_of_subset hbounded
        (isCompact_Icc.prod (isCompact_reach _ _ _)).measure_ne_top)
      (isCompact_swept _ _ _ _ _).measure_ne_top,
    Measure.volume_eq_prod, measureReal_prod_prod, Real.volume_real_Ico_of_le hxy]

/-- The slabs measure what is left to be swept, when the slice measures sections. -/
theorem volume_swept {slice : List (List ℝ) → ℝ}
    (hslice : ∀ rows : List (List ℝ), (∀ row ∈ rows, List.Forall₂ (· ≤ ·) row rs) →
      MeasureTheory.volume.real (reach width rs rows) = slice rows)
    (hseen : ∀ row ∈ seen, List.Forall₂ (· ≤ ·) row rs)
    (hothers : ∀ q ∈ others, q.1 ≤ r ∧ List.Forall₂ (· ≤ ·) q.2 rs)
    (hsorted : others.Pairwise fun p q => p.1 ≤ q.1) :
    MeasureTheory.volume.real (swept width r rs seen others) = slabs slice r seen others := by
  induction others generalizing seen with
  | nil => simp [swept, slabs]
  | cons q others ih =>
    obtain ⟨x, rest⟩ := q
    rw [List.forall_mem_cons] at hothers
    obtain ⟨⟨hxr, hrest⟩, hothers⟩ := hothers
    have hentered : ∀ row ∈ rest :: seen, List.Forall₂ (· ≤ ·) row rs :=
      List.forall_mem_cons.mpr ⟨hrest, hseen⟩
    cases others with
    | nil =>
      rw [volume_swept_singleton hxr, hslice _ hentered]
      exact slabs_singleton.symm
    | cons next others =>
      obtain ⟨y, rest'⟩ := next
      rw [List.pairwise_cons] at hsorted
      have hxy : x ≤ y := hsorted.1 _ List.mem_cons_self
      have hyr : y ≤ r := (hothers _ List.mem_cons_self).1
      rw [volume_swept_cons_cons hxy hyr (List.pairwise_cons.mp hsorted.2).1, hslice _ hentered,
        ih hentered hothers hsorted.2]
      exact slabs_cons_cons.symm

end

/-! ## One coordinate less -/

section

variable {width : Nat} {r : ℝ} {rs : List ℝ}

/-- The box of a row is that of its first coordinate and that of the rest. -/
theorem box_cons (x : ℝ) (rest : List ℝ) :
    Set.Icc (corner (width + 1) (x :: rest)) (corner (width + 1) (r :: rs)) =
      Set.preimage (MeasurableEquiv.piFinSuccAbove (fun _ : Fin (width + 1) => ℝ) 0)
        (Set.Icc x r ×ˢ Set.Icc (corner width rest) (corner width rs)) := by
  ext f
  simp only [Set.mem_Icc, Pi.le_def, Fin.forall_fin_succ, Set.mem_preimage, Set.mem_prod]
  exact and_and_and_comm

theorem reach_cons_eq_preimage {rows : List (List ℝ)} (hrows : ∀ row ∈ rows, row ≠ []) :
    reach (width + 1) (r :: rs) rows =
      Set.preimage (MeasurableEquiv.piFinSuccAbove (fun _ : Fin (width + 1) => ℝ) 0)
        (swept width r rs [] (byFirst (rows.filterMap split))) := by
  ext f
  rw [mem_reach, Set.mem_preimage, mem_swept]
  constructor
  · rintro ⟨row, hrow, hf⟩
    obtain ⟨x, rest, rfl⟩ := List.exists_cons_of_ne_nil (hrows row hrow)
    rw [box_cons] at hf
    exact ⟨(x, rest), mem_byFirst.mpr (mem_filterMap_split.mpr hrow), hf.1,
      mem_reach_cons.mpr (Or.inl hf.2)⟩
  · rintro ⟨q, hq, hx, hrest⟩
    refine ⟨q.1 :: q.2, mem_filterMap_split.mp (mem_byFirst.mp hq), ?_⟩
    rw [box_cons]
    exact ⟨hx, (mem_reach_cons.mp hrest).resolve_right (by simp [reach])⟩

theorem mem_box_singleton {y : ℝ} {f : Fin 1 → ℝ} :
    f ∈ Set.Icc (corner 1 [y]) (corner 1 [r]) ↔ y ≤ f 0 ∧ f 0 ≤ r := by
  simp [Pi.le_def, corner, entries]

/-- With one coordinate, the union is from the least of them on. -/
theorem reach_singleton {rows : List (List ℝ)} (hne : rows ≠ [])
    (hrows : ∀ row ∈ rows, List.Forall₂ (· ≤ ·) row [r]) :
    ∃ x ≤ r, Scalar.least? (rows.filterMap List.head?) = some x ∧
      reach 1 [r] rows = Set.Icc (corner 1 [x]) (corner 1 [r]) := by
  have hlength : ∀ row ∈ rows, row.length = 1 := fun row hrow => (hrows row hrow).length_eq
  obtain ⟨row, hrow⟩ := List.exists_mem_of_ne_nil rows hne
  obtain ⟨y, rfl⟩ := List.length_eq_one_iff.mp (hlength row hrow)
  obtain ⟨x, xs, hheads⟩ :=
    List.exists_cons_of_ne_nil (List.ne_nil_of_mem ((mem_filterMap_head? hlength).mpr hrow))
  have hleast : ∀ t, xs.foldl Scalar.lesser x ≤ t ↔ ∃ y, [y] ∈ rows ∧ y ≤ t := by
    intro t
    simp only [Scalar.foldl_lesser_le_iff, ← hheads, mem_filterMap_head? hlength]
  refine ⟨xs.foldl Scalar.lesser x, ?_, by rw [hheads]; rfl, ?_⟩
  · have hyr : y ≤ r := by simpa using hrows [y] hrow
    exact (hleast r).mpr ⟨y, hrow, hyr⟩
  · ext f
    rw [mem_reach, mem_box_singleton, hleast]
    constructor
    · rintro ⟨row, hrow, hf⟩
      obtain ⟨z, rfl⟩ := List.length_eq_one_iff.mp (hlength row hrow)
      rw [mem_box_singleton] at hf
      exact ⟨⟨z, hrow, hf.1⟩, hf.2⟩
    · rintro ⟨⟨z, hz, hlower⟩, hupper⟩
      exact ⟨[z], hz, mem_box_singleton.mpr ⟨hlower, hupper⟩⟩

end

theorem volume_cons_cons (r r' : ℝ) (rs : List ℝ) (rows : List (List ℝ)) :
    volume (r :: r' :: rs) rows =
      slabs (volume (r' :: rs)) r [] (byFirst (rows.filterMap split)) := by
  cases rows <;> rfl

/-- The slabs come to the volume of all that lies between one of the rows and the reference
point. -/
theorem volume_reach {width : Nat} {point : List ℝ} {rows : List (List ℝ)}
    (hpoint : point.length = width) (hrows : ∀ row ∈ rows, List.Forall₂ (· ≤ ·) row point) :
    MeasureTheory.volume.real (reach width point rows) = volume point rows := by
  obtain rfl := hpoint
  induction point generalizing rows with
  | nil =>
    cases rows with
    | nil => simp [reach, volume]
    | cons row rest =>
      have hspace : reach 0 [] (row :: rest) = Set.Icc (corner 0 row) (corner 0 []) := by
        ext f
        simp only [mem_reach_cons, Set.mem_Icc, Pi.le_def, IsEmpty.forall_iff, and_self, true_or]
      rw [List.length_nil, hspace, MeasureTheory.measureReal_def, Real.volume_Icc_pi]
      simp [volume]
  | cons r rs ih =>
    cases rs with
    | nil =>
      rcases eq_or_ne rows [] with rfl | hne
      · simp [reach, volume]
      · obtain ⟨x, hxr, hleast, hreach⟩ := reach_singleton hne hrows
        have hle : corner 1 [x] ≤ corner 1 [r] := corner_le_corner (.cons hxr .nil)
        rw [List.length_singleton, hreach, MeasureTheory.measureReal_def,
          Real.volume_Icc_pi_toReal hle]
        simp [volume, hleast, corner, entries]
    | cons r' rs =>
      -- Every section is a union of boxes below the point's other coordinates.
      have hsections : ∀ q ∈ byFirst (rows.filterMap split),
          q.1 ≤ r ∧ List.Forall₂ (· ≤ ·) q.2 (r' :: rs) := fun q hq =>
        List.forall₂_cons.mp (hrows _ (mem_filterMap_split.mp (mem_byFirst.mp hq)))
      have hne : ∀ row ∈ rows, row ≠ [] := fun row hrow hnil => by
        cases hnil ▸ hrows row hrow
      rw [List.length_cons, reach_cons_eq_preimage hne,
        (MeasureTheory.volume_preserving_piFinSuccAbove _ 0).measureReal_preimage
          (isCompact_swept _ _ _ _ _).measurableSet.nullMeasurableSet, volume_cons_cons]
      exact volume_swept (fun _ hbelow => ih hbelow) (by simp) hsections
        (pairwise_byFirst _)

end Hypervolume
end ParetoSearch
