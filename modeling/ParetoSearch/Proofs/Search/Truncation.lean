import Mathlib
import ParetoSearch.Proofs.Fitness.Upkeep
import ParetoSearch.Proofs.Search.Generation

/-!
# Truncation

A generation ends with an evaluation of parents and offspring together and the removal
of the worst, one by one, until the size is as before.  The search finds the worst by a
scan over the fitness written into the solutions, and repairs that fitness after each
removal.  It keeps the members that one would keep by adding up the frozen effects anew
before each removal and deleting the first member of least fitness
(`assess_truncate_population`).
-/

namespace ParetoSearch

variable {X σ α : Type} [ExactScalar α]

/-! ## The scan for the worst member -/

theorem compareFitness_of_fitness {a b : Solution X α} {x y : α} (ha : a.fitness? = some x)
    (hb : b.fitness? = some y) : compareFitness true a b = .ok (cmp y x) := by
  rw [compareFitness, ha, hb]
  rcases lt_trichotomy y x with hlt | rfl | hgt
  · rw [hlt.cmp_eq_lt]
    simp [hlt, hlt.ne']
  · simp
  · rw [hgt.cmp_eq_gt]
    simp [hgt.ne, hgt.not_gt]

namespace Tracker

variable [Inhabited X]

theorem keepWorse_of_fitness {store : Store X α} {worst p : Ref × Nat} {x y : α}
    (hworst : (store.look worst.1).fitness? = some x) (hp : (store.look p.1).fitness? = some y) :
    keepWorse store worst p = .ok (if y < x then (p.1, p.2 + 1) else worst) := by
  rw [keepWorse, compareFitness_of_fitness hworst hp, ok_bind]
  by_cases hlt : y < x
  · rw [hlt.cmp_eq_lt, if_pos hlt]
    rfl
  · have hnot : cmp y x ≠ .lt := fun h => hlt ((cmp_eq_lt_iff y x).mp h)
    rw [if_neg hlt]
    cases hcmp : cmp y x with
    | lt => exact absurd hcmp hnot
    | eq | gt => rfl

theorem foldlM_keepWorse {ι : Type} [DecidableEq ι] {store : Store X α} {member : ι → Ref}
    {f : ι → α} {p : ι} {rest : List ι} (hnodup : (p :: rest).Nodup)
    (hfitness : ∀ i ∈ p :: rest, (store.look (member i)).fitness? = some (f i)) :
    ∃ worst, (p :: rest).argmin f = some worst ∧
      (rest.map member).zipIdx.foldlM (keepWorse store) (member p, 0) =
        .ok (member worst, (p :: rest).idxOf worst) := by
  induction rest using List.reverseRecOn with
  | nil => exact ⟨p, List.argmin_singleton, by simp [pure, Except.pure]⟩
  | append_singleton rest q ih =>
    rw [← List.cons_append] at hnodup hfitness ⊢
    obtain ⟨hfront, -, hq⟩ := List.nodup_append.mp hnodup
    obtain ⟨worst, hworst, hscan⟩ := ih hfront fun i hi => hfitness i (List.mem_append_left _ hi)
    have hmem : worst ∈ p :: rest := List.argmin_mem hworst
    have hnot : q ∉ p :: rest := fun hmem => hq q hmem q (by simp) rfl
    have hstep : keepWorse store (member worst, (p :: rest).idxOf worst) (member q, rest.length) =
        .ok (if f q < f worst then (member q, rest.length + 1)
          else (member worst, (p :: rest).idxOf worst)) :=
      keepWorse_of_fitness (hfitness worst (List.mem_append_left _ hmem)) (hfitness q (by simp))
    have hlast : ((rest ++ [q]).map member).zipIdx.foldlM (keepWorse store) (member p, 0) =
        .ok (if f q < f worst then (member q, rest.length + 1)
          else (member worst, (p :: rest).idxOf worst)) := by
      rw [List.map_append, List.zipIdx_append, List.foldlM_append, hscan, ok_bind]
      simpa using hstep
    rw [List.argmin_concat, hworst, hlast]
    by_cases hlt : f q < f worst
    · refine ⟨q, by simp [hlt], ?_⟩
      rw [if_pos hlt, List.idxOf_append_of_notMem hnot]
      simp
    · refine ⟨worst, by simp [hlt], ?_⟩
      rw [if_neg hlt, List.idxOf_append_of_mem hmem]

/-- The scan finds the first member of least fitness. -/
theorem worstPlace_eq {ι : Type} [DecidableEq ι] {store : Store X α} {member : ι → Ref}
    {f : ι → α} {places : List ι} (hnodup : places.Nodup)
    (hfitness : ∀ i ∈ places, (store.look (member i)).fitness? = some (f i)) {worst : ι}
    (hworst : places.argmin f = some worst) :
    worstPlace store (places.map member) = .ok (places.idxOf worst) := by
  cases places with
  | nil => cases hworst
  | cons p rest =>
    obtain ⟨found, hfound, hscan⟩ := foldlM_keepWorse hnodup hfitness
    have hsame : found = worst := Option.some.inj (hfound.symm.trans hworst)
    rw [List.map_cons, worstPlace_cons, hscan, ok_bind, hsame]
    rfl

end Tracker

/-! ## Truncation from scratch -/

/-- So many times, add up anew what the members at the places that are left do to each
other, and delete the first of least fitness. -/
def cull (effect : Nat → Nat → α) : Nat → List Nat → List Nat
  | 0, places => places
  | n + 1, places =>
    match places.argmin (standing effect places) with
    | none => places
    | some worst => cull effect n (places.erase worst)

theorem cull_succ (effect : Nat → Nat → α) (n : Nat) {places : List Nat} {worst : Nat}
    (hworst : places.argmin (standing effect places) = some worst) :
    cull effect (n + 1) places = cull effect n (places.erase worst) := by
  rw [cull, hworst]

theorem length_cull (effect : Nat → Nat → α) (n : Nat) (places : List Nat) :
    (cull effect n places).length = places.length - n := by
  induction n generalizing places with
  | zero => rfl
  | succ n ih =>
    rw [cull]
    cases hworst : places.argmin (standing effect places) with
    | none =>
      rw [List.argmin_eq_none.mp hworst]
      simp
    | some worst =>
      have hmem : worst ∈ places := List.argmin_mem hworst
      simp only [ih, List.length_erase_of_mem hmem]
      omega

/-! ## Runs of the machine -/

namespace Machine

variable {effect : Nat → Nat → α} {members : List Ref} {places : List Nat} {m : Machine σ α}

/-- The tracker, the store and the population of a machine follow the members left at
some places. -/
def Follows (effect : Nat → Nat → α) (members : List Ref) (places : List Nat)
    (m : Machine σ α) : Prop :=
  m.tracker.Follows effect members places m.world.store m.population

theorem removeWorst_run (h : m.Follows effect members places)
    (hshared : SharedAlike effect members)
    {worst : Nat} (hworst : places.argmin (standing effect places) = some worst) :
    ∃ next : Machine σ α, removeWorst.run.run m = (.ok (), next) ∧
      next.Follows effect members (places.erase worst) := by
  have hfound : Tracker.worstPlace m.world.store m.population = .ok (places.idxOf worst) := by
    rw [h.population_eq]
    exact Tracker.worstPlace_eq h.nodup h.fitness_eq hworst
  have hlt : places.idxOf worst < m.population.length := by
    rw [h.length_eq]
    exact List.idxOf_lt_length_of_mem (List.argmin_mem hworst)
  obtain ⟨tracker, store, hremove, hfollows⟩ := h.remove hshared (Vector.position?_natCast hlt)
  rw [List.eraseIdx_idxOf_eq_erase worst places] at hfollows
  refine ⟨{ m with tracker := tracker, population := _, world := { m.world with store := store } },
    ?_, hfollows⟩
  rw [removeWorst, Work.run_bind (Work.run_get m), Work.run_bind (Work.run_lift hfound m),
    Work.run_bind (Work.run_lift hremove m)]
  rfl

theorem truncate_run {n : Nat} (hn : n ≤ places.length) (h : m.Follows effect members places)
    (hshared : SharedAlike effect members) :
    ∃ next : Machine σ α, (truncate n).run.run m = (.ok (), next) ∧
      next.Follows effect members (cull effect n places) := by
  induction n generalizing m places with
  | zero => exact ⟨m, rfl, h⟩
  | succ n ih =>
    obtain ⟨worst, hworst⟩ : ∃ worst, places.argmin (standing effect places) = some worst := by
      refine Option.ne_none_iff_exists'.mp fun hnone => ?_
      rw [List.argmin_eq_none.mp hnone] at hn
      simp at hn
    have hmem : worst ∈ places := List.argmin_mem hworst
    have hleft : n ≤ (places.erase worst).length := by
      rw [List.length_erase_of_mem hmem]
      omega
    obtain ⟨middle, hremove, hmiddle⟩ := removeWorst_run h hshared hworst
    obtain ⟨next, htruncate, hnext⟩ := ih hleft hmiddle
    refine ⟨next, ?_, by rwa [cull_succ effect n hworst]⟩
    rw [truncate, Work.run_bind hremove]
    exact htruncate

theorem assess_run (s : Search σ α) (m : Machine σ α)
    (hstored : ∀ r ∈ m.population, r.index < m.world.store.size) {width : Nat}
    (hwidth : ∀ r ∈ m.population, (m.world.look r).objectives.length = width)
    {matrix : List (List α)}
    (hmatrix : m.population ≠ [] →
      s.scheme.measure? (m.population.map fun r => (m.world.look r).objectives) = .ok matrix ∧
        matrix.length = m.population.length ∧ ∀ row ∈ matrix, row.length = m.population.length)
    (hshared : SharedAlike (s.scheme.effect matrix) m.population) :
    ∃ next : Machine σ α, (assess s).run.run m = (.ok (), next) ∧
      next.population = m.population ∧
      next.Follows (s.scheme.effect matrix) m.population (List.range m.population.length) := by
  obtain ⟨tracker, store, hevaluate, hfollows⟩ := m.tracker.evaluate_follows s.scheme
    m.world.store m.population hstored hwidth hmatrix hshared
  refine ⟨{ m with tracker := tracker, world := { m.world with store := store } }, ?_, rfl,
    hfollows⟩
  rw [assess, Work.run_bind (Work.run_get m), Work.run_bind (Work.run_lift hevaluate m)]
  rfl

/-- The second half of a generation follows the deletions from scratch. -/
theorem settle_run (s : Search σ α) (m : Machine σ α)
    (hstored : ∀ r ∈ m.population, r.index < m.world.store.size) {width : Nat}
    (hwidth : ∀ r ∈ m.population, (m.world.look r).objectives.length = width)
    {matrix : List (List α)}
    (hmatrix : m.population ≠ [] →
      s.scheme.measure? (m.population.map fun r => (m.world.look r).objectives) = .ok matrix ∧
        matrix.length = m.population.length ∧ ∀ row ∈ matrix, row.length = m.population.length)
    (hshared : SharedAlike (s.scheme.effect matrix) m.population) (size : Nat) :
    ∃ final : Machine σ α, (settle s size).run.run m = (.ok (), final) ∧
      final.Follows (s.scheme.effect matrix) m.population
        (cull (s.scheme.effect matrix) (m.population.length - size)
          (List.range m.population.length)) := by
  obtain ⟨start, hassess, hstart, hfollows⟩ := assess_run s m hstored hwidth hmatrix hshared
  have hcount : m.population.length - size ≤ (List.range m.population.length).length := by simp
  obtain ⟨last, htruncate, hlast⟩ := truncate_run hcount hfollows hshared
  refine ⟨{ last with generations := last.generations + 1 }, ?_, hlast⟩
  rw [settle, Work.run_bind hassess, Work.run_bind (Work.run_get start), hstart,
    Work.run_bind htruncate]
  rfl

/-- Evaluating a population and removing the worst members until `size` are left keeps,
in their order, the members that adding up the frozen effects anew before each removal
keeps.  A solution may be a member twice. -/
theorem assess_truncate_population {kind : SchemeKind} {arguments : SchemeArguments α}
    (s : Search σ α) (hbuild : kind.build arguments = .ok s.scheme) (m : Machine σ α)
    (hstored : ∀ r ∈ m.population, r.index < m.world.store.size) {width : Nat}
    (hwidth : ∀ r ∈ m.population, (m.world.look r).objectives.length = width)
    (hfits : kind.Fits arguments width) {size : Nat} (hsize : size ≤ m.population.length) :
    ∃ (matrix : List (List α)) (final : Machine σ α),
      (m.population ≠ [] →
        s.scheme.measure? (m.population.map fun r => (m.world.look r).objectives) = .ok matrix) ∧
      (do
        assess s
        truncate ((← get).population.length - size)).run.run m = (.ok (), final) ∧
      final.population =
        (cull (s.scheme.effect matrix) (m.population.length - size)
          (List.range m.population.length)).filterMap (m.population[·]?) ∧
      final.population.length = size := by
  obtain ⟨matrix, hmatrix, hshared⟩ := SchemeKind.measured hbuild hfits hwidth
  obtain ⟨start, hassess, hstart, hfollows⟩ := assess_run s m hstored hwidth hmatrix hshared
  have hcount : m.population.length - size ≤ (List.range m.population.length).length := by simp
  obtain ⟨final, htruncate, hfinal⟩ := truncate_run hcount hfollows hshared
  have hplaces : ∀ i ∈ cull (s.scheme.effect matrix) (m.population.length - size)
      (List.range m.population.length), i < m.population.length := hfinal.lt
  refine ⟨matrix, final, fun h => (hmatrix h).1, ?_, ?_, ?_⟩
  · rw [Work.run_bind hassess, Work.run_bind (Work.run_get start), hstart]
    exact htruncate
  · rw [filterMap_eq_map_atPlace hplaces]
    exact hfinal.population_eq
  · rw [hfinal.length_eq, length_cull, List.length_range]
    omega

/-- A search that measures its population by differences and does nothing else. -/
noncomputable def bystander : Search Unit ℝ :=
  { founders := return [], measure := fun _ => return, arity := 0, select := fun _ => return []
    evolve := fun _ => return [], scheme := ⟨Scheme.epsilonMatrix, 1, false⟩, close := return }

/-- Three members, the first and the last of which are one solution. -/
noncomputable def crowded : Machine Unit ℝ :=
  { Machine.start ⟨.ofList [⟨default, [0, 1], [], []⟩, ⟨default, [1, 0], [], []⟩], {}, ()⟩ none with
    population := [⟨0⟩, ⟨1⟩, ⟨0⟩] }

/-- The first of the two members that tie leaves, and so does the first of the two that
are left. -/
theorem assess_truncate_population_crowded :
    ∃ final : Machine Unit ℝ,
      (do
        assess bystander
        truncate ((← get).population.length - 1)).run.run crowded = (.ok (), final) ∧
      final.population = [⟨0⟩] := by
  have hrows : (crowded.population.map fun r => (crowded.world.look r).objectives) =
      [[0, 1], [1, 0], [0, 1]] := rfl
  have hwidth : ∀ r ∈ crowded.population, (crowded.world.look r).objectives.length = 2 := by
    decide
  have hmatrix : bystander.scheme.measure? [[0, 1], [1, 0], [0, 1]] =
      .ok [[0, 1, 0], [1, 0, 1], [0, 1, 0]] := by
    norm_num [bystander, Scheme.measure?, Scheme.prepare, Scheme.epsilonMatrix,
      Scalar.greatest?, Scalar.greater, pure, Except.pure, bind, Except.bind]
  have hbuild : SchemeKind.epsilon.build (⟨.given 1, .given false, .leftOut, .leftOut⟩ :
      SchemeArguments ℝ) = .ok bystander.scheme :=
    SchemeKind.epsilon_build (by norm_num) false
  obtain ⟨matrix, final, hmeasure, hrun, hpopulation, -⟩ :=
    assess_truncate_population bystander hbuild crowded (by decide) hwidth
      (by simp [SchemeKind.Fits]) (show 1 ≤ crowded.population.length by decide)
  have hsame : [[0, 1, 0], [1, 0, 1], [0, 1, 0]] = matrix := by
    have hfrozen := hmeasure (by simp [crowded])
    rw [hrows, hmatrix] at hfrozen
    exact Except.ok.inj hfrozen
  rw [← hsame] at hpopulation
  have heffect : ∀ j i, bystander.scheme.effect [[0, 1, 0], [1, 0, 1], [0, 1, 0]] j i =
      Real.exp (-([[0, 1, 0], [1, 0, 1], [0, 1, 0]].getD j [] |>.getD i 0)) := by
    intro j i
    simp [Scheme.effect, Scheme.scaleOf, bystander, Scalar.exp, ExactScalar.exp]
  have hfirst : [0, 1, 2].argmin (standing
      (bystander.scheme.effect [[0, 1, 0], [1, 0, 1], [0, 1, 0]]) [0, 1, 2]) = some 0 := by
    rw [List.argmin_eq_some_iff]
    simp [standing, heffect, add_comm]
  have hsecond : [1, 2].argmin (standing
      (bystander.scheme.effect [[0, 1, 0], [1, 0, 1], [0, 1, 0]]) [1, 2]) = some 1 := by
    rw [List.argmin_eq_some_iff]
    simp [standing, heffect]
  have hcull : cull (bystander.scheme.effect [[0, 1, 0], [1, 0, 1], [0, 1, 0]]) 2 [0, 1, 2] =
      [2] := by
    rw [cull_succ _ _ hfirst]
    exact cull_succ _ _ hsecond
  exact ⟨final, hrun, hpopulation.trans (congrArg (List.filterMap _) hcull)⟩

end Machine
end ParetoSearch
