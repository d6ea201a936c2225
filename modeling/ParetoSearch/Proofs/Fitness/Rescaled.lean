import ParetoSearch.Proofs.Fitness.Recomputed
import ParetoSearch.Proofs.Rescaling

/-!
# Fitness in other units

A scheme that scales sees a population on the scale of its own bounds, and there units make no
difference: the prepared rows are the same in any of them (`Scheme.prepare_row`).  All that is
tracked comes from the prepared rows, and a removal reads nothing but what is tracked.  So an
evaluation and the removals after it end with the same tracker in any units
(`Tracker.evaluate_removeEach_rescaled`).

Neither step divides by zero.  An objective without range is divided by one, and so is a matrix
of zeros; any other matrix is divided by its largest entry in size, which leaves entries of
size one at most, and with them what one member can do to another.
-/

namespace ParetoSearch

variable {X α : Type}

/-! ## Trackers read no store -/

namespace Tracker

variable [Inhabited X] [Scalar α]

theorem evaluate_congr {s : Scheme α} {t first : Tracker α} {store next : Store X α}
    {members : List Ref} (h : t.evaluate s store members = .ok (first, next)) {other : Store X α}
    (hsame : (rows other members >>= s.assess) = (rows store members >>= s.assess)) :
    ∃ next', t.evaluate s other members = .ok (first, next') := by
  unfold evaluate at h ⊢
  split
  case isTrue hempty =>
    rw [if_pos hempty] at h
    cases h
    exact ⟨other, rfl⟩
  case isFalse hne =>
    rw [if_neg hne, ← bind_assoc, ← hsame] at h
    rw [← bind_assoc]
    obtain ⟨p, hassess, h⟩ := of_bind_ok h
    cases h
    rw [hassess]
    exact ⟨_, rfl⟩

theorem remove_congr {t t' : Tracker α} {store next : Store X α} {members rest : List Ref}
    {index : Int} (h : t.remove store members index = .ok (t', next, rest)) (other : Store X α) :
    ∃ next', t.remove other members index = .ok (t', next', rest) := by
  unfold remove at h ⊢
  cases hassessment : t.assessment with
  | none => simp [hassessment] at h
  | some a =>
    simp only [hassessment] at h ⊢
    split at h
    case isTrue => cases h
    case isFalse hsize =>
      rw [if_neg hsize]
      split at h
      · cases h
      · cases h
        exact ⟨_, rfl⟩

end Tracker

variable [ExactScalar α]

namespace Tracker

variable [Inhabited X]

theorem removeEach_congr {t t' : Tracker α} {store next : Store X α} {members rest : List Ref}
    {indices : List Int} (h : t.removeEach store members indices = .ok (t', next, rest))
    (other : Store X α) : ∃ next', t.removeEach other members indices = .ok (t', next', rest) := by
  induction indices generalizing t store other members with
  | nil =>
    cases h
    exact ⟨other, rfl⟩
  | cons index indices ih =>
    obtain ⟨⟨t, store, members⟩, hremove, h⟩ := of_bind_ok h
    obtain ⟨other, hother⟩ := remove_congr hremove other
    obtain ⟨next', hrest⟩ := ih h other
    exact ⟨next', by rw [removeEach, hother]; exact hrest⟩

theorem scale_pos_of_evaluate {s : Scheme α} {t first : Tracker α} {store next : Store X α}
    {members : List Ref} (hne : members ≠ [])
    (h : t.evaluate s store members = .ok (first, next)) : 0 < first.scale := by
  rw [evaluate, if_neg (by simpa using hne)] at h
  obtain ⟨rows, -, h⟩ := of_bind_ok h
  obtain ⟨p, hassess, h⟩ := of_bind_ok h
  cases h
  rw [s.assess_eq_measure?] at hassess
  cases hmeasure : s.measure? rows with
  | error e =>
    rw [hmeasure] at hassess
    cases hassess
  | ok matrix =>
    rw [hmeasure] at hassess
    cases hassess
    exact s.scaleOf_pos matrix

end Tracker

/-! ## What one member can do to another -/

namespace Scheme

variable {s : Scheme α}

/-- No entry is larger than the scale of its matrix, nor is the zero that stands for an entry
where there is none. -/
theorem abs_le_scaleOf (hnormalize : s.normalize = true) (matrix : List (List α)) (j i : Nat) :
    |(matrix.getD j []).getD i 0| ≤ s.scaleOf matrix := by
  rw [List.getD_eq_getElem?_getD, List.getD_eq_getElem?_getD]
  cases hentry : (matrix[j]?.getD [])[i]? with
  | none =>
    rw [Option.getD_none, abs_zero]
    exact (s.scaleOf_pos matrix).le
  | some x =>
    rw [Option.getD_some]
    have hmem : |x| ∈ matrix.flatten.map Scalar.abs := by
      refine List.mem_map_of_mem (List.mem_flatten.mpr ?_)
      cases hrow : matrix[j]? with
      | none => simp [hrow] at hentry
      | some row =>
        rw [hrow] at hentry
        exact ⟨row, List.mem_of_getElem? hrow, List.mem_of_getElem? hentry⟩
    obtain ⟨g, -, hgreatest, hall⟩ := Scalar.greatest?_spec (List.ne_nil_of_mem hmem)
    rw [scaleOf, if_pos hnormalize, hgreatest]
    simp only
    split
    case isTrue => exact hall _ hmem
    case isFalse hnot => exact (hall _ hmem).trans ((not_lt.mp hnot).trans zero_le_one)

/-- A matrix on its own scale has entries between minus one and one. -/
theorem effect_between (hnormalize : s.normalize = true) (hkappa : 0 < s.kappa)
    (hexp : Monotone (Scalar.exp : α → α)) (matrix : List (List α)) (j i : Nat) :
    Scalar.exp (-1 / s.kappa) ≤ s.effect matrix j i ∧
      s.effect matrix j i ≤ Scalar.exp (1 / s.kappa) := by
  have hscale := s.scaleOf_pos matrix
  obtain ⟨hlower, hupper⟩ := abs_le.mp (abs_le_scaleOf hnormalize matrix j i)
  rw [effect, ← div_div]
  refine ⟨hexp (div_le_div_of_nonneg_right ?_ hkappa.le),
    hexp (div_le_div_of_nonneg_right ?_ hkappa.le)⟩
  · rw [le_div_iff₀ hscale]
    linarith
  · rw [div_le_iff₀ hscale]
    linarith

end Scheme

namespace Assessment

theorem among_square (effect : Nat → Nat → α) (places : List Nat) :
    (among effect places).Square places.length :=
  ⟨List.length_map _, by simp [among], List.length_map _⟩

theorem getD_among {effect : Nat → Nat → α} {places : List Nat} (hnodup : places.Nodup)
    {j i : Nat} (hj : j < places.length) (hi : i < places.length) (hji : j ≠ i) :
    ((among effect places).contributions.getD j []).getD i 0 = effect places[j] places[i] := by
  have hne : places[j] ≠ places[i] := fun h => hji (hnodup.getElem_inj_iff.mp h)
  simp [among, toOthers, hj, hi, hne]

end Assessment

/-! ## One population in two units -/

namespace Scheme

theorem prepare_row {s : Scheme α} (hnormalize : s.normalize = true) (u : Rescaling α)
    {rows : List (List α)} {width : Nat} (hrows : ∀ row ∈ rows, row.length = width) :
    s.prepare (rows.map u.row) = s.prepare rows := by
  rw [prepare, prepare, if_pos hnormalize, if_pos hnormalize, List.isEmpty_map,
    Normalizer.scaleRows, Normalizer.scaleRows, List.map_map]
  have hscaled : rows.map ((Normalizer.ofRows (rows.map u.row)).scaleRow ∘ u.row) =
      rows.map (Normalizer.ofRows rows).scaleRow :=
    List.map_congr_left fun row hrow => u.scaleRow_row_of_mem hrows hrow
  rw [hscaled]

end Scheme

namespace Tracker

variable [Inhabited X] {kind : SchemeKind} {arguments : SchemeArguments α} {s : Scheme α}

/-- With scaling, units make no difference: the same population in other units is evaluated to
the same tracker, scale and fitness and all, and any removals keep the two the same.  No
divisor is zero, and no member does less to another one than the exponential of minus one, or
more than that of one, over the pressure of selection. -/
theorem evaluate_removeEach_rescaled (hbuild : kind.build arguments = .ok s)
    (hon : arguments.normalize.isOn = true) (hexp : Monotone (Scalar.exp : α → α))
    {width : Nat} (hfits : kind.Fits arguments width) (u : Rescaling α)
    {store other : Store X α} {members : List Ref} (hstored : ∀ r ∈ members, r.index < store.size)
    (hstored' : ∀ r ∈ members, r.index < other.size)
    (hwidth : ∀ r ∈ members, (store.look r).objectives.length = width)
    (hother : ∀ r ∈ members, (other.look r).objectives = u.row (store.look r).objectives)
    (t : Tracker α) :
    ∃ first next next',
      t.evaluate s store members = .ok (first, next) ∧
      t.evaluate s other members = .ok (first, next') ∧
      (∀ x ∈ (Normalizer.ofRows (members.map fun r => (store.look r).objectives)).span, 0 < x) ∧
      (∀ x ∈ (Normalizer.ofRows (members.map fun r => (other.look r).objectives)).span, 0 < x) ∧
      (members ≠ [] → 0 < first.scale * s.kappa) ∧
      ∀ indices, ValidIndices members.length indices →
        let survivors := dropEach members indices
        ∃ tracker final final' fitness assessment,
          first.removeEach next members indices = .ok (tracker, final, survivors) ∧
          first.removeEach next' members indices = .ok (tracker, final', survivors) ∧
          tracker.Shows final survivors fitness ∧ tracker.Shows final' survivors fitness ∧
          tracker.assessment = some assessment ∧ assessment.Square survivors.length ∧
          ∀ j < survivors.length, ∀ i < survivors.length, j ≠ i →
            Scalar.exp (-1 / s.kappa) ≤ (assessment.contributions.getD j []).getD i 0 ∧
              (assessment.contributions.getD j []).getD i 0 ≤ Scalar.exp (1 / s.kappa) := by
  have hnormalize : s.normalize = true := (SchemeKind.build_ok hbuild).2.1.trans hon
  have hkappa : 0 < s.kappa := not_le.mp (SchemeKind.build_ok hbuild).2.2
  have hwidth' : ∀ r ∈ members, (other.look r).objectives.length = width := fun r hr => by
    rw [hother r hr, u.length_row, hwidth r hr]
  have hrows : ∀ row ∈ members.map (fun r => (store.look r).objectives), row.length = width :=
    List.forall_mem_map.mpr hwidth
  have hsame : (rows other members >>= s.assess) = (rows store members >>= s.assess) := by
    have hmap : (members.map fun r => (other.look r).objectives) =
        (members.map fun r => (store.look r).objectives).map u.row := by
      rw [List.map_map]
      exact List.map_congr_left hother
    have hrows' : ∀ row ∈ (members.map fun r => (store.look r).objectives).map u.row,
        row.length = width := by simpa using hwidth
    rw [rows, rows, hmap, Vector.stack_ok hrows', Vector.stack_ok hrows, ok_bind, ok_bind,
      Scheme.assess, Scheme.assess, Scheme.prepare_row hnormalize u hrows]
  obtain ⟨⟨first, next⟩, hevaluate⟩ := evaluate_total t hbuild hfits hwidth
  obtain ⟨next', hevaluate'⟩ := evaluate_congr hevaluate hsame
  refine ⟨first, next, next', hevaluate, hevaluate', Normalizer.span_pos _, Normalizer.span_pos _,
    fun hne => mul_pos (scale_pos_of_evaluate hne hevaluate) hkappa, fun indices hvalid => ?_⟩
  obtain ⟨matrix, -, hshared, hfirst⟩ := follows_of_evaluate hbuild hstored hwidth hevaluate
  obtain ⟨matrix', -, hshared', hfirst'⟩ := follows_of_evaluate hbuild hstored' hwidth' hevaluate'
  obtain ⟨tracker, final, hremove, hlast⟩ := hfirst.removeEach hshared hvalid
  obtain ⟨tracker', final', hremove', hlast'⟩ := hfirst'.removeEach hshared' hvalid
  -- The second run removes from the same tracker, so it ends with the same one.
  obtain ⟨final'', hagain⟩ := removeEach_congr hremove next'
  obtain ⟨rfl, rfl⟩ : tracker' = tracker ∧ final' = final'' := by
    rw [hremove'] at hagain
    cases hagain
    exact ⟨rfl, rfl⟩
  have hlength : (dropEach members indices).length =
      (dropEach (List.range members.length) indices).length := hlast.length_eq
  refine ⟨tracker', final, final', _, _, hremove, hremove', hlast.shows, ?_, hlast.assessment_eq,
    hlength ▸ Assessment.among_square _ _, fun j hj i hi hji => ?_⟩
  · have hfitness := hlast'.shows.tracked.symm.trans hlast.shows.tracked
    exact Except.ok.inj hfitness ▸ hlast'.shows
  · rw [Assessment.getD_among hlast.nodup (hlength ▸ hj) (hlength ▸ hi) hji]
    exact Scheme.effect_between hnormalize hkappa hexp matrix _ _

/-- Solutions with these objectives. -/
noncomputable def stored (rows : List (List ℝ)) : Store Unit ℝ :=
  .ofList (rows.map fun row => ⟨(), row, [], []⟩)

/-- The second objective has no range. -/
noncomputable def level : List (List ℝ) := [[0, 5], [1, 5], [3, 5]].map (List.map Nat.cast)

/-- Half the unit in the first objective, and three times the unit in all others, with the same
offset in each. -/
noncomputable def halfAndTriple : Rescaling ℝ where
  factor k := if k = 0 then (1 / 2 : ℚ) else (3 : ℕ)
  offset _ := (-7 : ℤ)
  factor_pos k := by split <;> norm_num

/-- The last of three goes, in either units. -/
theorem evaluate_removeEach_rescaled_level :
    ∃ s first next next' tracker final final' fitness,
      SchemeKind.hypervolume.build { kappa := .given (1 : ℝ) } = .ok s ∧
      Tracker.start.evaluate s (stored level) [⟨0⟩, ⟨1⟩, ⟨2⟩] = .ok (first, next) ∧
      Tracker.start.evaluate s (stored (level.map halfAndTriple.row)) [⟨0⟩, ⟨1⟩, ⟨2⟩] =
        .ok (first, next') ∧
      0 < first.scale * s.kappa ∧
      first.removeEach next [⟨0⟩, ⟨1⟩, ⟨2⟩] [-1] = .ok (tracker, final, [⟨0⟩, ⟨1⟩]) ∧
      first.removeEach next' [⟨0⟩, ⟨1⟩, ⟨2⟩] [-1] = .ok (tracker, final', [⟨0⟩, ⟨1⟩]) ∧
      tracker.Shows final [⟨0⟩, ⟨1⟩] fitness ∧ tracker.Shows final' [⟨0⟩, ⟨1⟩] fitness := by
  have hbuild : SchemeKind.hypervolume.build { kappa := .given (1 : ℝ) } =
      .ok ⟨Scheme.volumeMatrix (.uniform (some SchemeKind.standardRho)), 1, true⟩ := by
    have hpositive : ¬ (1 : ℝ) ≤ 0 := by norm_num
    simp only [SchemeKind.build, Argument.required, ok_bind, Scheme.hypervolume?,
      Scheme.kappaChecked, if_neg hpositive]
    rfl
  have hfits : SchemeKind.hypervolume.Fits ({ kappa := .given 1 } : SchemeArguments ℝ) 2 :=
    fun _ h => by cases h
  have hstored : ∀ r ∈ ([⟨0⟩, ⟨1⟩, ⟨2⟩] : List Ref), r.index < (stored level).size := by decide
  have hstored' : ∀ r ∈ ([⟨0⟩, ⟨1⟩, ⟨2⟩] : List Ref),
      r.index < (stored (level.map halfAndTriple.row)).size := by decide
  obtain ⟨first, next, next', hevaluate, hevaluate', -, -, hscale, hremovals⟩ :=
    evaluate_removeEach_rescaled hbuild rfl Real.exp_monotone hfits halfAndTriple hstored hstored'
      (by simp only [List.forall_mem_cons]; exact ⟨rfl, rfl, rfl, List.forall_mem_nil _⟩)
      (by simp only [List.forall_mem_cons]; exact ⟨rfl, rfl, rfl, List.forall_mem_nil _⟩) .start
  obtain ⟨tracker, final, final', fitness, -, hremove, hremove', hshows, hshows', -⟩ :=
    hremovals [-1] (by decide)
  exact ⟨_, first, next, next', tracker, final, final', fitness, hbuild, hevaluate, hevaluate',
    hscale (by simp), hremove, hremove', hshows, hshows'⟩

end Tracker
end ParetoSearch
