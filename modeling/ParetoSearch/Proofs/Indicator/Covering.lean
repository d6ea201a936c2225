import ParetoSearch.Proofs.Indicator.Frames

/-!
# Covering a reference set

A vector covers another one at a shift when it is nowhere larger than the other one moved by
that amount.  The additive indicator is the least shift at which every vector of the
reference set is covered by one of the set that is measured (`cover_isLeast`).

It takes the greatest over the reference of the least over the set of the greatest over the
objectives, and of either set it looks at the front alone.  Each extreme is read as what it
says of an arbitrary shift (`coverShift_le_iff`), and that leaving vectors out changes
nothing is then a fact about covering: what covers a vector covers every larger one, and
what is smaller than a vector covers all that it covers (`covered_nondominated_iff`).
-/

namespace ParetoSearch

variable {X Y α : Type} [ExactScalar α]

namespace Indicator

/-! ## Extremes -/

section

variable {xs : List α} {t : α}

theorem extreme_lesser_le_iff (hne : xs ≠ []) :
    extreme Scalar.lesser xs ≤ t ↔ ∃ x ∈ xs, x ≤ t := by
  obtain ⟨x, rest, rfl⟩ := List.exists_cons_of_ne_nil hne
  exact Scalar.foldl_lesser_le_iff

theorem extreme_greater_le_iff (hne : xs ≠ []) :
    extreme Scalar.greater xs ≤ t ↔ ∀ x ∈ xs, x ≤ t := by
  obtain ⟨x, rest, rfl⟩ := List.exists_cons_of_ne_nil hne
  exact Scalar.foldl_greater_le_iff

end

/-! ## Covering -/

/-- Nowhere larger than another vector that is moved by a shift. -/
def Covers (t : α) (a r : List α) : Prop := List.Forall₂ (fun x y => x ≤ y + t) a r

section

variable {t : α} {a b r s : List α} {width : Nat}

theorem covers_iff (ha : a.length = width) (hr : r.length = width) :
    Covers t a r ↔ ∀ k < width, entries a k ≤ entries r k + t := by
  rw [Covers, List.forall₂_iff_get, and_iff_right (ha.trans hr.symm)]
  constructor
  · intro h k hk
    rw [entries_of_lt (ha ▸ hk), entries_of_lt (hr ▸ hk)]
    exact h k (ha ▸ hk) (hr ▸ hk)
  · intro h k hka hkr
    have hk := h k (ha ▸ hka)
    rwa [entries_of_lt hka, entries_of_lt hkr] at hk

theorem Covers.trans_le (h : Covers t a r) (hrs : List.Forall₂ (· ≤ ·) r s) : Covers t a s := by
  induction h generalizing s with
  | nil => cases hrs; exact .nil
  | cons hxy _ ih =>
    cases hrs with
    | cons hyz htail => exact .cons (hxy.trans (add_le_add_left hyz t)) (ih htail)

theorem Covers.le_trans (hba : List.Forall₂ (· ≤ ·) b a) (h : Covers t a r) : Covers t b r := by
  induction h generalizing b with
  | nil => cases hba; exact .nil
  | cons hxy _ ih =>
    cases hba with
    | cons hzx htail => exact .cons (hzx.trans hxy) (ih htail)

theorem covers_zero_self (a : List α) : Covers 0 a a :=
  List.forall₂_same.mpr fun x _ => (add_zero x).ge

theorem shift_le_iff (ha : a.length = width) (hr : r.length = width) (hpos : 0 < width) :
    Scheme.shift a r ≤ t ↔ Covers t a r := by
  obtain ⟨⟨k, hk, hshift⟩, hall⟩ := Scheme.shift_spec ha hr hpos
  rw [covers_iff ha hr]
  constructor
  · intro hle j hj
    linarith [hall j hj]
  · intro hcovers
    linarith [hcovers k hk]

theorem shift_eq (ha : a.length = width) (hr : r.length = width) (hpos : 0 < width) :
    shift a r = .ok (Scheme.shift a r) := by
  have hlength : (a.zipWith (· - ·) r).length = width := by
    rw [List.length_zipWith, ha, hr, min_self]
  obtain ⟨x, xs, hzip⟩ := List.exists_cons_of_length_pos (hlength ▸ hpos)
  simp only [shift, Scheme.shift, hzip, Scalar.greatest?, Option.getD_some]

end

/-! ## The least shift -/

section

variable {front reference : List (List α)} {width : Nat}

theorem coverShift_le_iff (hfront : ∀ a ∈ front, a.length = width)
    (hreference : ∀ r ∈ reference, r.length = width) (hpos : 0 < width) (hne : front ≠ [])
    (hne' : reference ≠ []) :
    ∃ v, coverShift front reference = .ok v ∧
      ∀ t, v ≤ t ↔ ∀ r ∈ reference, ∃ a ∈ front, Covers t a r := by
  have hshifts : reference.mapM (fun r => do
      return extreme Scalar.lesser (← front.mapM fun a => shift a r)) =
        .ok (reference.map fun r =>
          extreme Scalar.lesser (front.map fun a => Scheme.shift a r)) := by
    refine mapM_ok fun r hr => ?_
    rw [mapM_ok fun a ha => shift_eq (hfront a ha) (hreference r hr) hpos]
    rfl
  refine ⟨_, by rw [coverShift, hshifts]; rfl, fun t => ?_⟩
  rw [extreme_greater_le_iff (by simpa using hne'), List.forall_mem_map]
  refine forall₂_congr fun r hr => ?_
  rw [extreme_lesser_le_iff (by simpa using hne)]
  simp only [List.mem_map, exists_exists_and_eq_and]
  exact exists_congr fun a => and_congr_right fun ha =>
    shift_le_iff (hfront a ha) (hreference r hr) hpos

/-- Vectors that are left out of either set neither cover nor ask for more. -/
theorem covered_nondominated_iff {rows rows' : List (List α)} {scale : List α → List α}
    (hrows : ∀ r ∈ rows, r.length = width) (hrows' : ∀ a ∈ rows', a.length = width)
    (hscale : ∀ {a b : List α}, a.length = width → b.length = width →
      List.Forall₂ (· ≤ ·) a b → List.Forall₂ (· ≤ ·) (scale a) (scale b)) (t : α) :
    (∀ r ∈ nondominated rows, ∃ a ∈ nondominated rows', Covers t (scale a) (scale r)) ↔
      ∀ r ∈ rows, ∃ a ∈ rows', Covers t (scale a) (scale r) := by
  constructor
  · intro h r hr
    obtain ⟨s, hs, hsr⟩ := exists_nondominated_le hrows hr
    obtain ⟨a, ha, hcovers⟩ := h s hs
    exact ⟨a, (mem_nondominated.mp ha).1,
      hcovers.trans_le (hscale (length_of_mem_nondominated hrows s hs) (hrows r hr) hsr)⟩
  · intro h r hr
    obtain ⟨a, ha, hcovers⟩ := h r (mem_nondominated.mp hr).1
    obtain ⟨b, hb, hba⟩ := exists_nondominated_le hrows' ha
    have hlength := length_of_mem_nondominated hrows' b hb
    exact ⟨b, hb, hcovers.le_trans (hscale hlength (hrows' a ha) hba)⟩

/-- No set is covered by itself at a shift below zero. -/
theorem nonneg_of_self_covered {rows : List (List α)} (hrows : ∀ r ∈ rows, r.length = width)
    (hpos : 0 < width) (hne : rows ≠ []) {t : α}
    (h : ∀ r ∈ rows, ∃ a ∈ rows, Covers t a r) : 0 ≤ t := by
  -- Nothing lies further down in the first objective than this vector.
  obtain ⟨r, hr, hleast⟩ := Set.exists_min_image {r | r ∈ rows} (fun r => entries r 0)
    (List.finite_toSet rows) (List.exists_mem_of_ne_nil rows hne)
  obtain ⟨a, ha, hcovers⟩ := h r hr
  have hfirst := (covers_iff (hrows a ha) (hrows r hr)).mp hcovers 0 hpos
  linarith [hleast a ha]

end

/-- A set with a vector that counts, measured in the frame of another one. -/
theorem evaluate_epsilon (normalize : Bool) {reference : List (List α)} {width : Nat}
    (hpos : 0 < width) (hreference : ∀ r ∈ reference, r.length = width) (hne : reference ≠ [])
    {A : PointSet X α} (hA : A.Uniform width) (hAne : A.counting ≠ []) :
    ∃ v, (epsilon (Frame.ofFront normalize (nondominated reference))).evaluate A =
        .ok (.measured v) ∧
      ∀ t, v ≤ t ↔ ∀ r ∈ reference, ∃ a ∈ A.counting,
        Covers t (Frame.onScale normalize (nondominated reference) a)
          (Frame.onScale normalize (nondominated reference) r) := by
  have hAlength := hA.length_of_counting
  have hkept := length_of_mem_nondominated hreference
  have hkeptne := nondominated_ne_nil hreference hne
  have hfront := Frame.front_ofFront normalize hkeptne hkept hA
  have hsome := nondominated_ne_nil hAlength hAne
  obtain ⟨v, hshift, hiff⟩ := coverShift_le_iff
    (Frame.length_map_onScale normalize hkeptne hkept (length_of_mem_nondominated hAlength))
    (Frame.length_map_onScale normalize hkeptne hkept hkept) hpos
    (by simpa using hsome) (by simpa using hkeptne)
  refine ⟨v, ?_, fun t => ?_⟩
  · refine onFront_eq hfront (by simpa using hsome) ?_
    rw [Frame.reference_ofFront]
    exact hshift
  · rw [hiff, List.forall_mem_map, ← covered_nondominated_iff hreference hAlength
      fun ha hb => Frame.onScale_mono normalize hkeptne hkept ha hb]
    simp only [List.mem_map, exists_exists_and_eq_and]

/-- In its own frame the reference set is at zero. -/
theorem evaluate_epsilon_self (normalize : Bool) {width : Nat} (hpos : 0 < width)
    {R : PointSet X α} (hR : R.Uniform width) (hne : R.counting ≠ []) :
    (epsilon (Frame.ofFront normalize (nondominated R.counting))).evaluate R =
      .ok (.measured 0) := by
  have hlength := hR.length_of_counting
  have hkept := length_of_mem_nondominated hlength
  have hscaled := Frame.length_map_onScale normalize (nondominated_ne_nil hlength hne) hkept hlength
  obtain ⟨v, hv, hiff⟩ := evaluate_epsilon normalize hpos hlength hne hR hne
  have hupper : v ≤ 0 := (hiff 0).mpr fun r hr => ⟨r, hr, covers_zero_self _⟩
  have hlower : 0 ≤ v := by
    refine nonneg_of_self_covered hscaled hpos (by simpa using hne) ?_
    rw [List.forall_mem_map]
    simp only [List.mem_map, exists_exists_and_eq_and]
    exact (hiff v).mp le_rfl
  rw [hv, hupper.antisymm hlower]

end Indicator

/-- The additive indicator of a set is the least shift at which each vector of the reference
set is covered by one of the set, dominated vectors of both included, on the scale of the
front of the reference set unless that is switched off.  The reference set itself is at
zero, and a set is no further off than one whose vectors are all weakly dominated by its
own. -/
theorem cover_isLeast {width : Nat} (hpos : 0 < width) {R : PointSet Y α} (hR : R.Uniform width)
    (hRne : R.counting ≠ []) (normalize : Argument Bool) :
    ∃ front i, R.front = .ok front ∧
      IndicatorKind.epsilon.build { reference := .given R, normalize := normalize } = .ok i ∧
      i.evaluate R = .ok (.measured 0) ∧
      ∀ A : PointSet X α, A.Uniform width → A.counting ≠ [] →
        let scale := if normalize.isOn then (Normalizer.ofRows front).scaleRow else id
        ∃ v, i.evaluate A = .ok (.measured v) ∧
          IsLeast {t | ∀ r ∈ R.counting, ∃ a ∈ A.counting,
            List.Forall₂ (fun x y => x ≤ y + t) (scale a) (scale r)} v ∧
          ∀ B : PointSet X α, B.Uniform width →
            (∀ a ∈ A.counting, ∃ b ∈ B.counting, List.Forall₂ (· ≤ ·) b a) →
              ∃ w, i.evaluate B = .ok (.measured w) ∧ w ≤ v := by
  have hlength := hR.length_of_counting
  have hkept := length_of_mem_nondominated hlength
  refine ⟨nondominated R.counting,
    .epsilon (Frame.ofFront normalize.isOn (nondominated R.counting)), hR.front_eq, ?_,
    Indicator.evaluate_epsilon_self _ hpos hR hRne, ?_⟩
  · have hframe : IndicatorKind.epsilon.frame? { reference := .given R, normalize := normalize } =
        .ok (Frame.ofFront normalize.isOn (nondominated R.counting)) :=
      Frame.ofSet?_eq hR hRne _ _
    rw [IndicatorKind.build, if_neg (by simp [IndicatorKind.refuses, Argument.mentioned])]
    simp only [hframe]
    rfl
  · intro A hA hAne scale
    obtain ⟨v, hv, hiff⟩ := Indicator.evaluate_epsilon _ hpos hlength hRne hA hAne
    refine ⟨v, hv, ⟨(hiff v).mp le_rfl, fun t ht => (hiff t).mpr ht⟩, fun B hB hbelow => ?_⟩
    -- What the set covers, the vectors below it cover at the same shift.
    have hBne : B.counting ≠ [] := by
      obtain ⟨a, ha⟩ := List.exists_mem_of_ne_nil _ hAne
      obtain ⟨b, hb, -⟩ := hbelow a ha
      exact List.ne_nil_of_mem hb
    obtain ⟨w, hw, hiff'⟩ := Indicator.evaluate_epsilon _ hpos hlength hRne hB hBne
    refine ⟨w, hw, (hiff' v).mpr fun r hr => ?_⟩
    obtain ⟨a, ha, hcovers⟩ := (hiff v).mp le_rfl r hr
    obtain ⟨b, hb, hba⟩ := hbelow a ha
    have hscale := Frame.onScale_mono normalize.isOn (nondominated_ne_nil hlength hRne) hkept
      (hB.length_of_counting b hb) (hA.length_of_counting a ha) hba
    exact ⟨b, hb, hcovers.le_trans hscale⟩

/-- The third row is dominated, and the last repeats the first. -/
noncomputable def staggered : PointSet Unit ℝ :=
  .points (Tensor.ofRows [[-1, 1], [1, -1], [1, 1], [-1, 1]])

/-- The second vector is dominated, and the last solution is not feasible. -/
noncomputable def shifted : PointSet Unit ℝ :=
  .solutions [⟨(), [0, 0], [], []⟩, ⟨(), [0, 1], [], []⟩, ⟨(), [-1, -1], [1], []⟩]

noncomputable def lowered : PointSet Unit ℝ := .solutions [⟨(), [-1, 0], [], []⟩]

theorem staggered_counting : staggered.counting = [[-1, 1], [1, -1], [1, 1], [-1, 1]] := by
  rw [staggered, PointSet.counting_points, PointSet.pointRows_ofRows (by decide : 0 < 2) (by simp)]

theorem shifted_counting : shifted.counting = [[0, 0], [0, 1]] := by
  simp [shifted, PointSet.counting_solutions]

theorem lowered_counting : lowered.counting = [[-1, 0]] := by
  simp [lowered, PointSet.counting_solutions]

theorem cover_isLeast_staggered :
    staggered.Uniform 2 ∧ shifted.Uniform 2 ∧ lowered.Uniform 2 ∧
      ∃ i v w, IndicatorKind.epsilon.build { reference := .given staggered } = .ok i ∧
        i.evaluate staggered = .ok (.measured 0) ∧
        i.evaluate shifted = .ok (.measured v) ∧ i.evaluate lowered = .ok (.measured w) ∧
        w ≤ v ∧ v = 1 / 2 := by
  have hstaggered : staggered.Uniform 2 := ⟨4, rfl, rfl⟩
  have hshifted : shifted.Uniform 2 := by simp [shifted, PointSet.Uniform]
  have hlowered : lowered.Uniform 2 := by simp [lowered, PointSet.Uniform]
  obtain ⟨front, i, hfront, hbuild, hself, hall⟩ := cover_isLeast (X := Unit) (by decide)
    hstaggered (by simp [staggered_counting]) .leftOut
  obtain ⟨v, hv, hleast, hbelow⟩ := hall shifted hshifted (by simp [shifted_counting])
  obtain ⟨w, hw, hle⟩ := hbelow lowered hlowered (by norm_num [shifted_counting, lowered_counting])
  refine ⟨hstaggered, hshifted, hlowered, i, v, w, hbuild, hself, hv, hw, hle, ?_⟩
  have hvalue : front = [[-1, 1], [1, -1], [-1, 1]] := by
    rw [hstaggered.front_eq, staggered_counting] at hfront
    rw [← Except.ok.inj hfront]
    norm_num [nondominated, dominatedBy, dominates, nowhereWorse, somewhereBetter]
  have hscale : Normalizer.ofRows front = ⟨[-1, -1], [2, 2]⟩ := by
    rw [hvalue]
    norm_num [Normalizer.ofRows, Vector.columnFold, Scalar.lesser_eq_min, Scalar.greater_eq_max,
      Normalizer.spanOf]
  refine hleast.unique ?_
  have hon : (Argument.leftOut : Argument Bool).isOn = true := rfl
  simp only [staggered_counting, shifted_counting, hscale, hon]
  constructor
  · norm_num [Normalizer.scaleRow]
  · intro t ht
    have hcovered := ht [-1, 1] (by simp)
    norm_num [Normalizer.scaleRow] at hcovered
    rcases hcovered with h | h
    · exact h.1
    · exact h.1

end ParetoSearch
