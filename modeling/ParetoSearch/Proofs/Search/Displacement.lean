import ParetoSearch.Proofs.Fitness.Spoilt
import ParetoSearch.Proofs.Search.Frame

/-!
# Parents displaced

Truncation looks for the member of least fitness by a scan that moves on only where a
later member is worse.  Where no fitness is a number no member is worse than another, so
the scan stays at the first, and adding to a fitness that is not a number does not make it
one.  Truncation then takes off the front of the population whatever stands there.

Parents stand before offspring.  With one infinite objective among parents and offspring a
generation therefore keeps its last offspring and no parent that stands before them, be it
the only member with finite objectives (`iterate_keeps_last_of_infinite`).
-/

namespace ParetoSearch

open Extended

variable {X σ K : Type} [ExactScalar K]

namespace Tracker

section

variable [Inhabited X] {store : Store X (Extended K)}

theorem keepWorse_of_nan {worst p : Ref × Nat}
    (hworst : (store.look worst.1).fitness? = some nan)
    (hp : (store.look p.1).fitness? = some nan) : keepWorse store worst p = .ok worst := by
  have hcompare : compareFitness true (store.look worst.1) (store.look p.1) = .ok .gt := by
    simp [compareFitness, hworst, hp]
  rw [keepWorse, hcompare]
  rfl

theorem worstPlace_of_nan {members : List Ref}
    (h : ∀ r ∈ members, (store.look r).fitness? = some nan) : worstPlace store members = .ok 0 := by
  cases members with
  | nil => rfl
  | cons first rest =>
    rw [List.forall_mem_cons] at h
    have hscan : ∀ later : List (Ref × Nat), (∀ p ∈ later, p.1 ∈ rest) →
        later.foldlM (keepWorse store) (first, 0) = .ok (first, 0) := by
      intro later hlater
      induction later with
      | nil => rfl
      | cons p later ih =>
        rw [List.forall_mem_cons] at hlater
        rw [List.foldlM_cons, keepWorse_of_nan h.1 (h.2 p.1 hlater.1), ok_bind]
        exact ih hlater.2
    rw [worstPlace_cons, hscan _ fun p hp => List.fst_mem_of_mem_zipIdx hp]
    rfl

end

end Tracker

theorem Assessment.erase_of_nan {a : Assessment (Extended K)} (h : ∀ x ∈ a.fitness, x = nan)
    (i : Nat) : ∀ x ∈ (a.erase i).fitness, x = nan := by
  intro x hx
  have hsum : x ∈ a.fitness.zipWith (· + ·) (a.contributions.getD i []) :=
    List.mem_of_mem_eraseIdx hx
  obtain ⟨k, hk, rfl⟩ := List.mem_iff_getElem.mp hsum
  rw [List.getElem_zipWith, h _ (List.getElem_mem _), nan_add]

namespace Machine

/-- What the tracker answers, and what was written into the members last, is not a number
for any of them. -/
structure Spoilt (m : Machine σ (Extended K)) : Prop where
  stored : m.Stored
  written : ∃ a store, m.tracker.assessment = some a ∧ a.Square m.population.length ∧
    m.world.store = Tracker.annotate store m.population a.fitness ∧ ∀ x ∈ a.fitness, x = nan

variable {s : Search σ (Extended K)} {m : Machine σ (Extended K)}

theorem Spoilt.shown (h : m.Spoilt) :
    ∀ r ∈ m.population, (m.world.look r).fitness? = some nan := by
  obtain ⟨hstored, a, store, -, hsquare, hstore, hnan⟩ := h
  intro r hr
  rw [World.look, hstore]
  refine Tracker.fitness?_annotate_const (fun q hq => ?_) hsquare.length_fitness hnan r hr
  rw [← Written.size_eq hstore]
  exact hstored q hq

theorem Spoilt.removeWorst (h : m.Spoilt) (hne : m.population ≠ []) :
    ∃ next : Machine σ (Extended K), removeWorst.run.run m = (.ok (), next) ∧
      next.population = m.population.drop 1 ∧ next.Spoilt := by
  have hfirst : Tracker.worstPlace m.world.store m.population = .ok 0 :=
    Tracker.worstPlace_of_nan h.shown
  obtain ⟨hstored, a, store, ha, hsquare, -, hnan⟩ := h
  have hpos : 0 < m.population.length := List.length_pos_iff.mpr hne
  have hremove : m.tracker.remove m.world.store m.population (0 : Nat) = _ :=
    Tracker.remove_eq ha hsquare hpos
  rw [List.eraseIdx_zero, ← List.drop_one] at hremove
  have hlength : (m.population.drop 1).length = m.population.length - 1 := List.length_drop
  let next : Machine σ (Extended K) := { m with
    tracker := ⟨some (a.erase 0), m.tracker.scale⟩, population := m.population.drop 1
    world := { m.world with
      store := Tracker.annotate m.world.store (m.population.drop 1) (a.erase 0).fitness } }
  have hsize : next.world.store.size = m.world.store.size := Written.size_eq rfl
  refine ⟨next, ?_, rfl, fun r hr => ?_, a.erase 0, m.world.store, rfl,
    hlength ▸ hsquare.erase hpos, rfl, Assessment.erase_of_nan hnan 0⟩
  · rw [Machine.removeWorst, Work.run_bind (Work.run_get m), Work.run_bind (Work.run_lift hfirst m),
      Work.run_bind (Work.run_lift hremove m)]
    rfl
  · rw [hsize]
    exact hstored r (List.mem_of_mem_drop hr)

theorem Spoilt.truncate (h : m.Spoilt) {n : Nat} (hn : n ≤ m.population.length) :
    ∃ next : Machine σ (Extended K), (truncate n).run.run m = (.ok (), next) ∧
      next.population = m.population.drop n ∧ next.Spoilt := by
  induction n generalizing m with
  | zero => exact ⟨m, rfl, rfl, h⟩
  | succ n ih =>
    have hne : m.population ≠ [] := List.ne_nil_of_length_pos (by omega)
    obtain ⟨middle, hremove, hmiddle, hspoilt⟩ := h.removeWorst hne
    have hleft : n ≤ middle.population.length := by
      rw [hmiddle, List.length_drop]
      omega
    obtain ⟨next, htruncate, hnext, hlast⟩ := ih hspoilt hleft
    refine ⟨next, ?_, ?_, hlast⟩
    · rw [Machine.truncate, Work.run_bind hremove]
      exact htruncate
    · rw [hnext, hmiddle, List.drop_drop, Nat.add_comm]

variable {kind : SchemeKind} {arguments : SchemeArguments (Extended K)} {width : Nat}

theorem assess_spoils (hbuild : kind.build arguments = .ok s.scheme)
    (hnormalize : arguments.normalize.isOn = true) (hpoint : arguments.referencePoint = .leftOut)
    (hfits : kind.Fits arguments width) (hstored : m.Stored)
    (hwidth : ∀ r ∈ m.population, (m.world.look r).objectives.length = width)
    (hothers : 2 ≤ m.population.length)
    (hinfinite : ∃ r ∈ m.population, ∃ x ∈ (m.world.look r).objectives,
      Scalar.isFinite x = false) :
    ∃ next : Machine σ (Extended K), (assess s).run.run m = (.ok (), next) ∧
      next.population = m.population ∧ next.Spoilt := by
  obtain ⟨r, hr, hx⟩ := hinfinite
  let rows := m.population.map fun r => (m.world.look r).objectives
  have hrows : ∀ row ∈ rows, row.length = width := List.forall_mem_map.mpr hwidth
  have hcount : rows.length = m.population.length := List.length_map _
  obtain ⟨a, scale, hassess, hnan⟩ := SchemeKind.assess_of_infinite hbuild hnormalize hpoint hfits
    hrows (hcount ▸ hothers) (List.mem_map_of_mem hr) hx
  have hsquare := Scheme.assess_square (SchemeKind.square hbuild) hassess
  have hstack : Tracker.rows m.world.store m.population = .ok rows := Vector.stack_ok hrows
  have hevaluate : m.tracker.evaluate s.scheme m.world.store m.population =
      .ok (⟨some a, scale⟩, Tracker.annotate m.world.store m.population a.fitness) := by
    have hempty : m.population.isEmpty = false :=
      List.isEmpty_eq_false_iff.mpr (List.ne_nil_of_mem hr)
    rw [Tracker.evaluate, hempty, hstack, ok_bind, hassess]
    rfl
  let next : Machine σ (Extended K) := { m with
    tracker := ⟨some a, scale⟩
    world := { m.world with
      store := Tracker.annotate m.world.store m.population a.fitness } }
  have hsize : next.world.store.size = m.world.store.size := Written.size_eq rfl
  refine ⟨next, ?_, rfl, fun q hq => ?_, a, m.world.store, rfl, hcount ▸ hsquare, rfl, hnan⟩
  · rw [assess, Work.run_bind (Work.run_get m), Work.run_bind (Work.run_lift hevaluate m)]
    rfl
  · rw [hsize]
    exact hstored q hq

/-- Truncation takes the front off a population with an infinite objective. -/
theorem settle_of_infinite (hbuild : kind.build arguments = .ok s.scheme)
    (hnormalize : arguments.normalize.isOn = true) (hpoint : arguments.referencePoint = .leftOut)
    (hfits : kind.Fits arguments width) (hstored : m.Stored)
    (hwidth : ∀ r ∈ m.population, (m.world.look r).objectives.length = width)
    (hothers : 2 ≤ m.population.length)
    (hinfinite : ∃ r ∈ m.population, ∃ x ∈ (m.world.look r).objectives,
      Scalar.isFinite x = false) (size : Nat) :
    ∃ final : Machine σ (Extended K), (settle s size).run.run m = (.ok (), final) ∧
      final.population = m.population.drop (m.population.length - size) ∧
      ∀ r ∈ final.population, (final.world.look r).fitness? = some nan := by
  obtain ⟨start, hassess, hstart, hspoilt⟩ :=
    assess_spoils hbuild hnormalize hpoint hfits hstored hwidth hothers hinfinite
  have hcount : m.population.length - size ≤ start.population.length := by
    rw [hstart]
    exact Nat.sub_le _ _
  obtain ⟨last, htruncate, hlast, hfinal⟩ := hspoilt.truncate hcount
  refine ⟨{ last with generations := last.generations + 1 }, ?_, hstart ▸ hlast, hfinal.shown⟩
  rw [settle, Work.run_bind hassess, Work.run_bind (Work.run_get start), hstart,
    Work.run_bind htruncate]
  rfl

/-- As soon as an objective of a parent or of an offspring is infinite, a generation removes
the members that stand first, as many as there are offspring, whatever their objectives.
No fitness is a number afterwards. -/
theorem iterate_keeps_last_of_infinite (s : Search σ (Extended K))
    (hbuild : kind.build arguments = .ok s.scheme)
    (hnormalize : arguments.normalize.isOn = true) (hpoint : arguments.referencePoint = .leftOut)
    {m merged : Machine σ (Extended K)} {offspring : List Ref}
    (hmerge : (merge s).run.run m = (.ok offspring, merged)) (hstored : merged.Stored)
    (hwidth : ∀ r ∈ merged.population, (merged.world.look r).objectives.length = width)
    (hfits : kind.Fits arguments width)
    (hinfinite : ∃ r ∈ merged.population, ∃ x ∈ (merged.world.look r).objectives,
      Scalar.isFinite x = false) :
    ∃ final : Machine σ (Extended K), (iterate s).run.run m = (.ok (), final) ∧
      final.population = merged.population.drop offspring.length ∧
      ∀ r ∈ final.population, (final.world.look r).fitness? = some nan := by
  obtain ⟨hjoined, henough, hnone⟩ := merge_joins hmerge
  have hlength : merged.population.length = m.population.length + offspring.length := by
    rw [hjoined, List.length_append]
  have hothers : 2 ≤ merged.population.length := by
    cases hparents : m.population with
    | nil =>
      obtain ⟨r, hr, -⟩ := hinfinite
      rw [hjoined, hparents, hnone hparents] at hr
      cases hr
    | cons first rest =>
      rw [hparents, List.length_cons] at henough hlength
      omega
  obtain ⟨final, hsettle, hfinal⟩ := settle_of_infinite hbuild hnormalize hpoint hfits hstored
    hwidth hothers hinfinite m.population.length
  have hremoved : merged.population.length - m.population.length = offspring.length := by omega
  refine ⟨final, ?_, hremoved ▸ hfinal⟩
  rw [iterate_run, Work.run_bind hmerge]
  exact hsettle

/-- A search by differences, with everything left to the standard, whose only child has an
infinite objective. -/
noncomputable def penalised : Search Unit (Extended ℝ) :=
  { founders := return [], measure := fun _ => return, arity := 1
    select := fun population => return population.take 1
    evolve := fun _ => do return [← World.insert ⟨default, [infinite false], [], []⟩]
    scheme := ⟨Scheme.epsilonMatrix, SchemeKind.standardKappa, true⟩, close := return }

noncomputable def childless : Machine Unit (Extended ℝ) :=
  { Machine.start ⟨.ofList [⟨default, [finite 0], [], []⟩], {}, ()⟩ none with
    population := [⟨0⟩], ready := true }

noncomputable def withChild : Machine Unit (Extended ℝ) :=
  { childless with
    world :=
      ⟨.ofList [⟨default, [finite 0], [], []⟩, ⟨default, [infinite false], [], []⟩], {}, ()⟩
    population := [⟨0⟩, ⟨1⟩], evaluations := 1 }

theorem penalised_build :
    SchemeKind.epsilon.build ({} : SchemeArguments (Extended ℝ)) = .ok penalised.scheme := by
  have hkappa : (SchemeKind.standardKappa : Extended ℝ) = finite (1 / 20) := by
    rw [SchemeKind.standardKappa, Scalar.ratio, natCast_eq, natCast_eq,
      finite_div _ (by norm_num)]
    norm_num
  have hpositive : ¬ (SchemeKind.standardKappa : Extended ℝ) ≤ 0 := by
    rw [hkappa, zero_eq, finite_le_finite]
    norm_num
  simp only [SchemeKind.build, Argument.required, ok_bind, Argument.mentioned, Bool.or_self,
    Bool.false_eq_true, if_false, Scheme.epsilon?, Scheme.kappaChecked, if_neg hpositive]
  rfl

theorem penalised_merge : (merge penalised).run.run childless = (.ok [⟨1⟩], withChild) :=
  merge_run (m := childless) rfl (breed_of_family (by decide) rfl (by decide))

theorem withChild_infinite : ∃ r ∈ withChild.population,
    ∃ x ∈ (withChild.world.look r).objectives, Scalar.isFinite x = false :=
  ⟨⟨1⟩, by simp [withChild], infinite false, List.mem_singleton_self _, rfl⟩

theorem iterate_keeps_last_of_infinite_penalised :
    ∃ final : Machine Unit (Extended ℝ), (iterate penalised).run.run childless = (.ok (), final) ∧
      final.population = [⟨1⟩] ∧
      ∀ r ∈ final.population, (final.world.look r).fitness? = some nan :=
  iterate_keeps_last_of_infinite penalised penalised_build rfl rfl penalised_merge
    (show ∀ r ∈ withChild.population, r.index < withChild.world.store.size by decide)
    (show ∀ r ∈ _, _ = 1 by decide) (by simp [SchemeKind.Fits]) withChild_infinite

/-- The parent has finite objectives and dominates its child, and the child stays. -/
theorem finite_parent_displaced :
    (merge penalised).run.run childless = (.ok [⟨1⟩], withChild) ∧
      (∀ x ∈ (withChild.world.look ⟨0⟩).objectives, Scalar.isFinite x = true) ∧
      dominates (withChild.world.look ⟨0⟩).objectives (withChild.world.look ⟨1⟩).objectives =
        true ∧
      ∃ final : Machine Unit (Extended ℝ),
        (iterate penalised).run.run childless = (.ok (), final) ∧ final.population = [⟨1⟩] := by
  refine ⟨penalised_merge, List.forall_mem_singleton.mpr (isFinite_finite 0), rfl, ?_⟩
  obtain ⟨final, hsettle, hfinal, -⟩ := settle_of_infinite (m := withChild) penalised_build rfl rfl
    (by simp [SchemeKind.Fits])
    (show ∀ r ∈ withChild.population, r.index < withChild.world.store.size by decide)
    (show ∀ r ∈ _, _ = 1 by decide) (by decide) withChild_infinite 1
  refine ⟨final, ?_, hfinal⟩
  rw [iterate_run, Work.run_bind penalised_merge]
  exact hsettle

end Machine
end ParetoSearch
