import ParetoSearch.Proofs.Fitness.Preference
import ParetoSearch.Proofs.Indicator.Fronts

/-!
# Frames of reference

An indicator with a reference set reads every front on the scale of that set.  The scale
never turns two vectors round (`Frame.onScale_mono`), so it does not matter whether vectors
are left out before or after it is applied.
-/

namespace ParetoSearch

variable {X α : Type} [ExactScalar α]

/-! ## Fronts in exact arithmetic -/

section

variable {rows : List (List α)} {width : Nat}

/-- Every row has one below it that is not left out. -/
theorem exists_nondominated_le (hrows : ∀ row ∈ rows, row.length = width) {b : List α}
    (hb : b ∈ rows) : ∃ a ∈ nondominated rows, List.Forall₂ (· ≤ ·) a b := by
  by_cases hin : b ∈ nondominated rows
  · exact ⟨b, hin, List.forall₂_refl b⟩
  · obtain ⟨a, ha, hab⟩ := exists_nondominated_dominates hrows hb hin
    have hlength : a.length = b.length :=
      (length_of_mem_nondominated hrows a ha).trans (hrows b hb).symm
    exact ⟨a, ha, forall₂_le_of_dominates hlength hab⟩

theorem nondominated_ne_nil (hrows : ∀ row ∈ rows, row.length = width) (hne : rows ≠ []) :
    nondominated rows ≠ [] := by
  obtain ⟨b, hb⟩ := List.exists_mem_of_ne_nil rows hne
  obtain ⟨a, ha, -⟩ := exists_nondominated_le hrows hb
  exact List.ne_nil_of_mem ha

end

/-! ## Solutions that count -/

namespace Solution

variable (x : X) (objectives : List α) (attributes : List (String × α))

@[simp] theorem feasible_unconstrained :
    (⟨x, objectives, [], attributes⟩ : Solution X α).feasible = true :=
  (Scalar.beq_iff _ _).mpr rfl

@[simp] theorem feasible_singleton_iff (c : α) :
    (⟨x, objectives, [c], attributes⟩ : Solution X α).feasible = true ↔ c = 0 := by
  have hviolation : (⟨x, objectives, [c], attributes⟩ : Solution X α).violation = |c| := by
    simp [violation, Vector.total, Vector.halvingSum, Vector.blockSum, Vector.leftSum, Scalar.abs]
  rw [feasible, hviolation, Scalar.beq_iff, abs_eq_zero]

end Solution

/-! ## The scale of a front -/

namespace Normalizer

variable {rows : List (List α)} {width : Nat}

theorem length_scaleRow (hne : rows ≠ []) (hrows : ∀ row ∈ rows, row.length = width)
    {row : List α} (hrow : row.length = width) : ((ofRows rows).scaleRow row).length = width := by
  obtain ⟨hminimum, hspan⟩ := length_ofRows hne hrows
  simp only [scaleRow, List.length_zipWith, hminimum, hspan, hrow, min_self]

theorem entries_scaleRow_mono (hne : rows ≠ []) (hrows : ∀ row ∈ rows, row.length = width)
    {a b : List α} (ha : a.length = width) (hb : b.length = width) (hle : entries a ≤ entries b) :
    entries ((ofRows rows).scaleRow a) ≤ entries ((ofRows rows).scaleRow b) := by
  rcases hle.eq_or_lt with heq | hlt
  · rw [(entries_inj (ha.trans hb.symm)).mp heq]
  · exact (entries_scaleRow_lt hne hrows ha hb hlt).le

/-- Vectors that are apart are apart on any scale. -/
theorem scaleRow_inj (hne : rows ≠ []) (hrows : ∀ row ∈ rows, row.length = width)
    {a b : List α} (ha : a.length = width) (hb : b.length = width) :
    (ofRows rows).scaleRow a = (ofRows rows).scaleRow b ↔ a = b := by
  refine ⟨fun heq => (entries_inj (ha.trans hb.symm)).mp (funext fun k => ?_), congrArg _⟩
  by_cases hk : k < width
  · have hscaled := congrFun (congrArg entries heq) k
    have hspan : entries (ofRows rows).span k ≠ 0 := by
      rw [entries_span hne hrows hk]
      exact (spanOf_pos _ _).ne'
    rw [entries_scaleRow hne hrows ha, entries_scaleRow hne hrows hb,
      div_left_inj' hspan] at hscaled
    exact sub_left_injective hscaled
  · rw [entries_of_le (ha ▸ not_lt.mp hk), entries_of_le (hb ▸ not_lt.mp hk)]

end Normalizer

namespace Frame

theorem scale_nil (f : Frame α) : f.scale [] = [] := by
  rw [scale]
  split <;> rfl

/-- The front of a set as wide as the frame. -/
theorem front_eq {f : Frame α} {width : Nat} (hwidth : f.width = width) {set : PointSet X α}
    (hset : set.Uniform width) : f.front set = .ok (f.scale (nondominated set.counting)) := by
  rw [front, hset.front_eq, ok_bind]
  cases hfound : nondominated set.counting with
  | nil => rw [scale_nil]; rfl
  | cons row rest =>
    have hrow : row ∈ nondominated set.counting := hfound ▸ List.mem_cons_self
    have hlength : row.length = f.width :=
      (length_of_mem_nondominated hset.length_of_counting row hrow).trans hwidth.symm
    simp only [hlength, ne_eq, not_true_eq_false, if_false]
    rfl

/-- A row on the scale of a front, if there is to be one. -/
def onScale (normalize : Bool) (front : List (List α)) : List α → List α :=
  if normalize then (Normalizer.ofRows front).scaleRow else id

section

variable (normalize : Bool) {front : List (List α)} {width : Nat}

theorem scale_ofFront (rows : List (List α)) :
    (ofFront normalize front).scale rows = rows.map (onScale normalize front) := by
  cases normalize with
  | true => rfl
  | false => exact (List.map_id rows).symm

theorem reference_ofFront :
    (ofFront normalize front).reference = front.map (onScale normalize front) := by
  rw [← scale_ofFront]
  cases normalize <;> rfl

variable (hne : front ≠ []) (hfront : ∀ row ∈ front, row.length = width)

include hne hfront

theorem length_onScale {row : List α} (hrow : row.length = width) :
    (onScale normalize front row).length = width := by
  unfold onScale
  split
  · exact Normalizer.length_scaleRow hne hfront hrow
  · exact hrow

theorem length_map_onScale {rows : List (List α)} (hrows : ∀ row ∈ rows, row.length = width) :
    ∀ row ∈ rows.map (onScale normalize front), row.length = width :=
  List.forall_mem_map.mpr fun row hrow => length_onScale normalize hne hfront (hrows row hrow)

theorem onScale_mono {a b : List α} (ha : a.length = width) (hb : b.length = width)
    (hle : List.Forall₂ (· ≤ ·) a b) :
    List.Forall₂ (· ≤ ·) (onScale normalize front a) (onScale normalize front b) := by
  unfold onScale
  split
  · rw [forall₂_le_iff_entries_le (ha.trans hb.symm)] at hle
    rw [forall₂_le_iff_entries_le ((Normalizer.length_scaleRow hne hfront ha).trans
      (Normalizer.length_scaleRow hne hfront hb).symm)]
    exact Normalizer.entries_scaleRow_mono hne hfront ha hb hle
  · exact hle

theorem onScale_inj {a b : List α} (ha : a.length = width) (hb : b.length = width) :
    onScale normalize front a = onScale normalize front b ↔ a = b := by
  unfold onScale
  split
  · exact Normalizer.scaleRow_inj hne hfront ha hb
  · rfl

theorem map_onScale_subset_iff {rows rows' : List (List α)}
    (hrows : ∀ row ∈ rows, row.length = width) (hrows' : ∀ row ∈ rows', row.length = width) :
    rows.map (onScale normalize front) ⊆ rows'.map (onScale normalize front) ↔ rows ⊆ rows' := by
  refine ⟨fun h a ha => ?_, List.map_subset _⟩
  obtain ⟨b, hb, heq⟩ := List.mem_map.mp (h (List.mem_map_of_mem ha))
  exact (onScale_inj normalize hne hfront (hrows' b hb) (hrows a ha)).mp heq ▸ hb

theorem width_ofFront : (ofFront normalize front).width = width := by
  obtain ⟨row, rest, rfl⟩ := List.exists_cons_of_ne_nil hne
  rw [Frame.width, reference_ofFront, List.map_cons, List.headD_cons]
  exact length_onScale normalize hne hfront (hfront row List.mem_cons_self)

/-- The front of a set in a frame, of rows as wide as the reference. -/
theorem front_ofFront {set : PointSet X α} (hset : set.Uniform width) :
    (ofFront normalize front).front set =
      .ok ((nondominated set.counting).map (onScale normalize front)) := by
  rw [front_eq (width_ofFront normalize hne hfront) hset, scale_ofFront]

end

theorem ofSet?_eq {set : PointSet X α} {width : Nat} (hset : set.Uniform width)
    (hne : set.counting ≠ []) (label : String) (normalize : Bool) :
    ofSet? label normalize set = .ok (ofFront normalize (nondominated set.counting)) := by
  have hfront : (nondominated set.counting).isEmpty = false := by
    rw [List.isEmpty_eq_false_iff]
    exact nondominated_ne_nil hset.length_of_counting hne
  rw [ofSet?, hset.front_eq, ok_bind, hfront]
  rfl

end Frame

/-- What a rule makes of a front that has a vector. -/
theorem Indicator.onFront_of_ne_nil {frame : Frame α} {set : PointSet X α} {rows : List (List α)}
    (hfront : frame.front set = .ok rows) (hne : rows ≠ [])
    (rule : List (List α) → Except (Fault α) α) :
    onFront frame set rule = do return .measured (← rule rows) := by
  have hempty : rows.isEmpty = false := List.isEmpty_eq_false_iff.mpr hne
  rw [onFront, hfront, ok_bind, hempty]
  rfl

theorem Indicator.onFront_eq {frame : Frame α} {set : PointSet X α} {rows : List (List α)}
    {rule : List (List α) → Except (Fault α) α} {v : α} (hfront : frame.front set = .ok rows)
    (hne : rows ≠ []) (hrule : rule rows = .ok v) :
    onFront frame set rule = .ok (.measured v) := by
  rw [onFront_of_ne_nil hfront hne, hrule]
  rfl

theorem Indicator.onFront_nil {frame : Frame α} {set : PointSet X α}
    (hfront : frame.front set = .ok []) (rule : List (List α) → Except (Fault α) α) :
    onFront frame set rule = .ok .unreached := by
  rw [onFront, hfront]
  rfl

/-! ## Indicators in a frame -/

namespace IndicatorKind

/-- The indicator of a kind in the frame of a set; spacing needs none. -/
def inFrame (kind : IndicatorKind) (power : Argument α) (frame : Frame α) : Indicator α :=
  match kind with
  | .hypervolume => .hypervolume frame (List.replicate frame.width 1)
  | .generational => .generational frame (power.optional 1)
  | .inverted => .inverted frame (power.optional 1)
  | .epsilon => .epsilon frame
  | .worstGap => .worstGap frame
  | .spacing => .spacing

/-- Every kind that takes a reference set puts itself into the frame of that set. -/
theorem build_eq {kind : IndicatorKind} {a : IndicatorArguments X α} {set : PointSet X α}
    (hset : a.reference = .given set) (hpoint : a.referencePoint.value? = none)
    (htakes : kind.refuses a = false) :
    kind.build a = (Frame.ofSet? kind.label a.normalize.isOn set).map (kind.inFrame a.power) := by
  have htakes' : ¬ kind.refuses a = true := Bool.eq_false_iff.mp htakes
  have hframe : kind.frame? a = Frame.ofSet? kind.label a.normalize.isOn set := by
    rw [frame?, hset]
  cases kind with
  | hypervolume =>
    have hnormalize : a.normalize = .leftOut := by
      cases hgiven : a.normalize with
      | leftOut => rfl
      | nothing | given _ => simp [refuses, hgiven, Argument.mentioned] at htakes
    rw [build, if_neg htakes', hnormalize]
    cases hgiven : a.referencePoint with
    | given point => simp [hgiven, Argument.value?] at hpoint
    | leftOut | nothing =>
      simp only [hypervolume?, hgiven, hset]
      rfl
  | generational | inverted | epsilon | worstGap =>
    rw [build, if_neg htakes']
    simp only [hframe]
    rfl
  | spacing => simp [refuses, hset, Argument.mentioned] at htakes

theorem build_ok {kind : IndicatorKind} {a : IndicatorArguments X α} {set : PointSet X α}
    (hset : a.reference = .given set) (hpoint : a.referencePoint.value? = none)
    (htakes : kind.refuses a = false) {width : Nat} (hwidth : set.Uniform width)
    (hne : set.counting ≠ []) :
    kind.build a = .ok (kind.inFrame a.power
      (Frame.ofFront a.normalize.isOn (nondominated set.counting))) := by
  rw [build_eq hset hpoint htakes, Frame.ofSet?_eq hwidth hne]
  rfl

end IndicatorKind

end ParetoSearch
