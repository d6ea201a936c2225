import ParetoSearch.Proofs.Indicator.Covering
import ParetoSearch.Proofs.Rescaling

/-!
# Indicators in other units

An indicator that scales by its reference set has the same value in any units, when the set
that it measures and the reference set change theirs together (`indicators_unit_free`).

The front of a set changes as the set does, because dominance does not notice units.  The
bounds come from the front of the reference set, and on their scale the front of either set is
where it was before: the frame is another one, but what it shows is the same
(`Frame.front_rescaled`).  Vectors of the measured set may lie far outside the bounds, so an
objective in which the reference front has no range must keep its unit.
-/

namespace ParetoSearch

variable {X Y α : Type} [ExactScalar α]

theorem Frame.ofSet?_of_front {set : PointSet X α} {front : List (List α)}
    (hfront : set.front = .ok front) (hne : front ≠ []) (label : String) (normalize : Bool) :
    ofSet? label normalize set = .ok (ofFront normalize front) := by
  rw [ofSet?, hfront, ok_bind, if_neg (by simpa using hne)]

/-! ## Sets in other units -/

/-- The second set is the first one in other units: vector by vector, with the same ones
counting. -/
def Rescaling.Carries (u : Rescaling α) (A B : PointSet X α) : Prop :=
  B.items = A.items.map fun item => (item.1, u.row item.2)

theorem Rescaling.Carries.counting {u : Rescaling α} {A B : PointSet X α} (h : u.Carries A B) :
    B.counting = A.counting.map u.row := by
  rw [PointSet.counting, h, List.filterMap_map, PointSet.counting, List.map_filterMap]
  refine List.filterMap_congr fun item _ => ?_
  cases hcounts : item.1 <;> simp [hcounts]

namespace Frame

variable {u : Rescaling α} {front : List (List α)} {width : Nat}

/-- Whether every objective in which some rows have no range keeps its unit. -/
def Keeps (u : Rescaling α) (width : Nat) (rows : List (List α)) : Prop :=
  ∀ k < width, ∀ b ∈ rows, (∀ c ∈ rows, entries c k = entries b k) → u.factor k = 1

section

variable (hne : front ≠ []) (hfront : ∀ row ∈ front, row.length = width)
  (hkept : Keeps u width front)

include hne hfront hkept

theorem map_onScale_row {rows : List (List α)} (hrows : ∀ row ∈ rows, row.length = width) :
    (rows.map u.row).map (onScale true (front.map u.row)) = rows.map (onScale true front) := by
  rw [List.map_map]
  exact List.map_congr_left fun row hrow => u.scaleRow_row hne hfront hkept (hrows row hrow)

theorem reference_rescaled :
    (ofFront true (front.map u.row)).reference = (ofFront true front).reference := by
  rw [reference_ofFront, reference_ofFront, map_onScale_row hne hfront hkept hfront]

theorem front_rescaled {A B : PointSet X α} (hA : A.Uniform width) (hB : B.Uniform width)
    (hcarries : u.Carries A B) :
    (ofFront true (front.map u.row)).front B = (ofFront true front).front A := by
  have hne' : front.map u.row ≠ [] := by simpa using hne
  have hfront' : ∀ row ∈ front.map u.row, row.length = width := by simpa using hfront
  rw [front_ofFront true hne' hfront' hB, front_ofFront true hne hfront hA, hcarries.counting,
    u.nondominated_map_row hA.length_of_counting,
    map_onScale_row hne hfront hkept (length_of_mem_nondominated hA.length_of_counting)]

end

end Frame

/-! ## Values -/

namespace Indicator

theorem aggregate_ok {power : Option α} {p : α} (hpower : power = some p) (hp : p ≠ 0)
    (distances : List α) : ∃ v, aggregate power distances = .ok v := by
  subst hpower
  exact ⟨_, if_neg (by simpa using hp)⟩

theorem onFront_ok {frame : Frame α} {set : PointSet X α} {rows : List (List α)}
    {rule : List (List α) → Except (Fault α) α} (hfront : frame.front set = .ok rows)
    (hrule : rows ≠ [] → ∃ v, rule rows = .ok v) : ∃ v, onFront frame set rule = .ok v := by
  by_cases hne : rows = []
  · exact ⟨.unreached, onFront_nil (hne ▸ hfront) rule⟩
  · obtain ⟨v, hv⟩ := hrule hne
    exact ⟨.measured v, onFront_eq hfront hne hv⟩

end Indicator

namespace IndicatorKind

/-- Frames that show the same give the same values. -/
theorem evaluate_inFrame_congr {kind : IndicatorKind} (htakes : kind ≠ .spacing)
    (power : Argument α) {f g : Frame α} (hreference : g.reference = f.reference)
    {A B : PointSet X α} (hfront : g.front B = f.front A) :
    (kind.inFrame power g).evaluate B = (kind.inFrame power f).evaluate A := by
  have hwidth : g.width = f.width := by rw [Frame.width, Frame.width, hreference]
  cases kind with
  | hypervolume => simp only [inFrame, Indicator.evaluate, hfront, hwidth]
  | generational | inverted | epsilon | worstGap =>
    simp only [inFrame, Indicator.evaluate, Indicator.onFront, hfront, hreference]
  | spacing => exact absurd rfl htakes

/-- With a power that is not zero every set has a value. -/
theorem evaluate_inFrame_ok {kind : IndicatorKind} (htakes : kind ≠ .spacing)
    {power : Argument α} {p : α} (hpower : power.optional 1 = some p) (hp : p ≠ 0)
    (normalize : Bool) {front : List (List α)} {width : Nat} (hpos : 0 < width)
    (hne : front ≠ []) (hlength : ∀ row ∈ front, row.length = width) {A : PointSet X α}
    (hA : A.Uniform width) :
    ∃ v, (kind.inFrame power (Frame.ofFront normalize front)).evaluate A = .ok v := by
  have hfront := Frame.front_ofFront normalize hne hlength hA
  cases kind with
  | hypervolume =>
    have hpoint : (List.replicate (Frame.ofFront normalize front).width (1 : α)).isEmpty =
        false := by
      rw [Frame.width_ofFront normalize hne hlength, List.isEmpty_replicate]
      simpa using hpos.ne'
    rw [inFrame, Indicator.evaluate, hfront, ok_bind, Indicator.boundedVolume, hpoint]
    exact ⟨_, rfl⟩
  | generational | inverted =>
    exact Indicator.onFront_ok hfront fun _ => Indicator.aggregate_ok hpower hp _
  | epsilon =>
    refine Indicator.onFront_ok hfront fun hsome => ?_
    rw [Frame.reference_ofFront]
    obtain ⟨v, hv, -⟩ := Indicator.coverShift_le_iff
      (Frame.length_map_onScale normalize hne hlength
        (length_of_mem_nondominated hA.length_of_counting))
      (Frame.length_map_onScale normalize hne hlength hlength) hpos hsome (by simpa using hne)
    exact ⟨v, hv⟩
  | worstGap => exact Indicator.onFront_ok hfront fun _ => ⟨_, rfl⟩
  | spacing => exact absurd rfl htakes

end IndicatorKind

/-- An indicator that scales by its reference set answers the same when both sets are given in
other units, be it with a fault for want of a reference.  An objective in which the reference
front has no range keeps its unit.  No divisor of the scale is zero, and a set has a value
unless the power of a mean of distances is zero. -/
theorem indicators_unit_free {kind : IndicatorKind} {arguments : IndicatorArguments Y α}
    (hon : arguments.normalize.isOn = true) (hpoint : arguments.referencePoint.value? = none)
    {R R' : PointSet Y α}
    (htakes : kind.refuses { arguments with reference := .given R } = false)
    {width : Nat} (hR : R.Uniform width) (hR' : R'.Uniform width) {u : Rescaling α}
    (hcarries : u.Carries R R') {front : List (List α)} (hfront : R.front = .ok front)
    (hkept : ∀ k < width, ∀ b ∈ front, (∀ c ∈ front, entries c k = entries b k) → u.factor k = 1)
    {A A' : PointSet X α} (hA : A.Uniform width) (hA' : A'.Uniform width)
    (hcarries' : u.Carries A A') :
    let answer := do (← kind.build { arguments with reference := .given R }).evaluate A
    (do (← kind.build { arguments with reference := .given R' }).evaluate A') = answer ∧
      (∀ x ∈ (Normalizer.ofRows front).span, 0 < x) ∧
      (∀ x ∈ (Normalizer.ofRows (front.map u.row)).span, 0 < x) ∧
      (0 < width → front ≠ [] → ∀ p, arguments.power.optional 1 = some p → p ≠ 0 →
        ∃ v, answer = .ok v) := by
  intro answer
  have hkind : kind ≠ .spacing := by
    rintro rfl
    simp [IndicatorKind.refuses, Argument.mentioned] at htakes
  have hbuild : kind.build { arguments with reference := .given R } =
      (Frame.ofSet? kind.label true R).map (kind.inFrame arguments.power) :=
    hon ▸ IndicatorKind.build_eq rfl hpoint htakes
  have hbuild' : kind.build { arguments with reference := .given R' } =
      (Frame.ofSet? kind.label true R').map (kind.inFrame arguments.power) :=
    hon ▸ IndicatorKind.build_eq rfl hpoint (by cases kind <;> exact htakes)
  have hlength : ∀ row ∈ front, row.length = width := by
    rw [hR.front_eq] at hfront
    cases hfront
    exact length_of_mem_nondominated hR.length_of_counting
  have hfront' : R'.front = .ok (front.map u.row) := by
    rw [hR.front_eq] at hfront
    cases hfront
    rw [hR'.front_eq, hcarries.counting, u.nondominated_map_row hR.length_of_counting]
  refine ⟨?_, Normalizer.span_pos _, Normalizer.span_pos _, fun hpos hne p hpower hp => ?_⟩
  · by_cases hne : front = []
    · subst hne
      simp only [answer, hbuild, hbuild', Frame.ofSet?, hfront, hfront']
      rfl
    · have hset := Frame.ofSet?_of_front hfront hne kind.label true
      have hset' := Frame.ofSet?_of_front hfront' (by simpa using hne) kind.label true
      simp only [answer, hbuild, hbuild', hset, hset', Except.map, ok_bind]
      exact IndicatorKind.evaluate_inFrame_congr hkind arguments.power
        (Frame.reference_rescaled hne hlength hkept)
        (Frame.front_rescaled hne hlength hkept hA hA' hcarries')
  · simp only [answer, hbuild, Frame.ofSet?_of_front hfront hne, Except.map, ok_bind]
    exact IndicatorKind.evaluate_inFrame_ok hkind hpower hp true hpos hne hlength hA

/-- The last row is dominated, and the others are level in the third objective. -/
noncomputable def ledge : PointSet Unit ℝ :=
  .points (Tensor.ofRows ([[0, 2, 5], [2, 0, 5], [2, 2, 5]].map (List.map Nat.cast)))

/-- Far outside the bounds of the ledge, with one that does not count. -/
noncomputable def afield : PointSet Unit ℝ :=
  .solutions [⟨(), [-10, 3, 8].map Int.cast, [], []⟩, ⟨(), [0, 0, 0], [1], []⟩,
    ⟨(), [3, -1, 4].map Int.cast, [], []⟩]

noncomputable def ledgeMoved : PointSet Unit ℝ :=
  .points (Tensor.ofRows ([[1, 5, 12], [5, -1, 12], [5, 5, 12]].map (List.map Int.cast)))

noncomputable def afieldMoved : PointSet Unit ℝ :=
  .solutions [⟨(), [-19, 8, 15].map Int.cast, [], []⟩, ⟨(), [1, -1, 7].map Int.cast, [1], []⟩,
    ⟨(), [7, -4, 11].map Int.cast, [], []⟩]

/-- The third objective keeps its unit and is moved only. -/
noncomputable def twiceAndThrice : Rescaling ℝ where
  factor k := if k = 0 then (2 : ℕ) else if k = 1 then (3 : ℕ) else 1
  offset k := if k = 0 then 1 else if k = 1 then -1 else (7 : ℕ)
  factor_pos k := by split_ifs <;> norm_num

theorem indicators_unit_free_ledge :
    ledge.Uniform 3 ∧ ledgeMoved.Uniform 3 ∧ afield.Uniform 3 ∧ afieldMoved.Uniform 3 ∧
      twiceAndThrice.Carries ledge ledgeMoved ∧ twiceAndThrice.Carries afield afieldMoved ∧
      ∃ v, (IndicatorKind.inverted.build { reference := .given ledge } >>=
          fun i => i.evaluate afield) = .ok v ∧
        (IndicatorKind.inverted.build { reference := .given ledgeMoved } >>=
          fun i => i.evaluate afieldMoved) = .ok v := by
  have hledge : ledge.Uniform 3 := ⟨3, rfl, rfl⟩
  have hledge' : ledgeMoved.Uniform 3 := ⟨3, rfl, rfl⟩
  have hafield : afield.Uniform 3 := by simp [afield, PointSet.Uniform]
  have hafield' : afieldMoved.Uniform 3 := by simp [afieldMoved, PointSet.Uniform]
  have hcarries : twiceAndThrice.Carries ledge ledgeMoved := by
    simp only [Rescaling.Carries, ledge, ledgeMoved, PointSet.items]
    rw [PointSet.pointRows_ofRows (by decide : 0 < 3) (by simp),
      PointSet.pointRows_ofRows (by decide : 0 < 3) (by simp)]
    norm_num [Rescaling.row, Rescaling.value, twiceAndThrice]
  have hcarries' : twiceAndThrice.Carries afield afieldMoved := by
    norm_num [Rescaling.Carries, afield, afieldMoved, PointSet.items, Rescaling.row,
      Rescaling.value, twiceAndThrice]
    rfl
  have hfront : ledge.front = .ok [[0, 2, 5], [2, 0, 5]] := by
    rw [ledge, PointSet.front_ofRows (by decide : 0 < 3) (by simp)]
    norm_num [nondominated, dominatedBy, dominates, nowhereWorse, somewhereBetter]
  have hkept : ∀ k < 3, ∀ b ∈ [[0, 2, 5], [2, 0, (5 : ℝ)]],
      (∀ c ∈ [[0, 2, 5], [2, 0, (5 : ℝ)]], entries c k = entries b k) →
        twiceAndThrice.factor k = 1 := by
    intro k hk b _ hflat
    have hlevel : entries [0, 2, (5 : ℝ)] k = entries [2, 0, (5 : ℝ)] k :=
      (hflat _ (by simp)).trans (hflat _ (by simp)).symm
    interval_cases k
    · norm_num [entries] at hlevel
    · norm_num [entries] at hlevel
    · rfl
  have hon : ({} : IndicatorArguments Unit ℝ).normalize.isOn = true := rfl
  have htakes : IndicatorKind.inverted.refuses
      ({ reference := .given ledge } : IndicatorArguments Unit ℝ) = false := rfl
  obtain ⟨hsame, -, -, hvalue⟩ := indicators_unit_free hon rfl htakes hledge hledge' hcarries
    hfront hkept hafield hafield' hcarries'
  obtain ⟨v, hv⟩ := hvalue (by decide) (by simp) 1 rfl one_ne_zero
  exact ⟨hledge, hledge', hafield, hafield', hcarries, hcarries', v, hv, hsame.trans hv⟩

end ParetoSearch
