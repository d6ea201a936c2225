import ParetoSearch.Proofs.Fitness.Reordered
import ParetoSearch.Proofs.Search.Truncation

/-!
# Truncation in any order

The scan for the worst member keeps the earlier of two equals, so truncation depends on the order
of the population where fitness ties.  This is all that it depends on.  As long as one member
alone has the least fitness at each removal, that member goes in any order, and what is left is
again the same population in two orders (`cull_perm`).

The members need not be told which order they stand in to have their fitness: that part holds
with ties as well (`Machine.assess_truncate_reordered`).
-/

namespace ParetoSearch

variable {σ α : Type} [ExactScalar α]

/-! ## Deletions from scratch -/

theorem argmin_of_least {ι : Type} {f : ι → α} {places : List ι} {worst : ι}
    (hworst : worst ∈ places) (hleast : ∀ i ∈ places, i ≠ worst → f worst < f i) :
    places.argmin f = some worst := by
  obtain ⟨found, hfound⟩ : ∃ found, places.argmin f = some found :=
    Option.ne_none_iff_exists'.mp fun hnone => by
      rw [List.argmin_eq_none.mp hnone] at hworst
      exact List.not_mem_nil hworst
  have hle : f found ≤ f worst := List.le_of_mem_argmin hworst hfound
  have hsame : found = worst := by
    by_contra hne
    exact (hleast found (List.argmin_mem hfound) hne).not_ge hle
  rw [hfound, hsame]

/-- One place alone has the least fitness. -/
def SoleLeast (effect : Nat → Nat → α) (places : List Nat) : Prop :=
  ∃ worst ∈ places, ∀ i ∈ places, i ≠ worst →
    standing effect places worst < standing effect places i

/-- Without ties for the least fitness, deletions leave the same places in any order. -/
theorem cull_perm {effect : Nat → Nat → α} (n : Nat) {places others : List Nat}
    (h : others.Perm places) (hsole : ∀ k < n, SoleLeast effect (cull effect k places)) :
    (cull effect n others).Perm (cull effect n places) := by
  induction n generalizing places others with
  | zero => exact h
  | succ n ih =>
    obtain ⟨worst, hworst, hleast⟩ := hsole 0 n.succ_pos
    have hfirst : places.argmin (standing effect places) = some worst :=
      argmin_of_least hworst hleast
    -- Fitness is a sum, so that the same place has the least fitness in the other order.
    have hstanding : standing effect others = standing effect places :=
      funext fun i => standing_perm h i
    have hfirst' : others.argmin (standing effect others) = some worst := by
      rw [hstanding]
      exact argmin_of_least (h.mem_iff.mpr hworst) fun i hi => hleast i (h.mem_iff.mp hi)
    rw [cull_succ effect n hfirst, cull_succ effect n hfirst']
    refine ih (h.erase worst) fun k hk => ?_
    rw [← cull_succ effect k hfirst]
    exact hsole (k + 1) (Nat.succ_lt_succ hk)

/-! ## Runs of the machine -/

namespace Machine

variable {s : Search σ α} {m : Machine σ α}

/-- One member alone has the least fitness. -/
def SoleWorst (m : Machine σ α) : Prop :=
  ∃ worst ∈ m.population, ∀ r ∈ m.population, r ≠ worst →
    ∃ x y, (m.world.look worst).fitness? = some x ∧ (m.world.look r).fitness? = some y ∧ x < y

/-- The tracker and the members show a fitness for each member. -/
def Rates (m : Machine σ α) (fitness : Ref → α) : Prop :=
  m.tracker.Shows m.world.store m.population (m.population.map fitness)

theorem assess_ok_iff {first : Machine σ α} : (assess s).run.run m = (.ok (), first) ↔
    ∃ tracker store, m.tracker.evaluate s.scheme m.world.store m.population = .ok (tracker, store) ∧
      first = { m with tracker := tracker, world := { m.world with store := store } } := by
  cases hevaluate : m.tracker.evaluate s.scheme m.world.store m.population with
  | error e =>
    have hrun : (assess s).run.run m = (.error e, m) := by
      rw [assess, Work.run_bind (Work.run_get m), hevaluate]
      rfl
    rw [hrun]
    constructor
    · intro h
      cases h
    · rintro ⟨_, _, h, _⟩
      cases h
  | ok p =>
    have hrun : (assess s).run.run m =
        (.ok (), { m with tracker := p.1, world := { m.world with store := p.2 } }) := by
      rw [assess, Work.run_bind (Work.run_get m), hevaluate]
      rfl
    rw [hrun]
    constructor
    · intro h
      cases h
      exact ⟨p.1, p.2, rfl, rfl⟩
    · rintro ⟨tracker, store, hp, rfl⟩
      cases hp
      rfl

theorem assess_total_iff {kind : SchemeKind} {arguments : SchemeArguments α}
    (hbuild : kind.build arguments = .ok s.scheme) {width : Nat}
    (hwidth : ∀ r ∈ m.population, (m.world.look r).objectives.length = width) :
    (∃ first, (assess s).run.run m = (.ok (), first)) ↔
      (m.population ≠ [] → kind.Fits arguments width) := by
  constructor
  · rintro ⟨first, hfirst⟩ hne
    obtain ⟨tracker, store, hevaluate, -⟩ := assess_ok_iff.mp hfirst
    exact Tracker.fits_of_evaluate hbuild hwidth hne hevaluate
  · intro hfits
    obtain ⟨⟨tracker, store⟩, hevaluate⟩ :
        ∃ p, m.tracker.evaluate s.scheme m.world.store m.population = .ok p := by
      by_cases hne : m.population = []
      · rw [hne]
        exact ⟨_, rfl⟩
      · exact Tracker.evaluate_total m.tracker hbuild (hfits hne) hwidth
    exact ⟨_, assess_ok_iff.mpr ⟨tracker, store, hevaluate, rfl⟩⟩

theorem soleWorst_iff {effect : Nat → Nat → α} {members : List Ref} {places : List Nat}
    (hnodup : members.Nodup) (h : m.Follows effect members places) :
    m.SoleWorst ↔ SoleLeast effect places := by
  have hmem : ∀ i ∈ places, atPlace members i ∈ m.population := fun i hi => by
    rw [h.population_eq]
    exact List.mem_map_of_mem hi
  constructor
  · rintro ⟨worst, hworst, hleast⟩
    rw [h.population_eq, List.mem_map] at hworst
    obtain ⟨p, hp, rfl⟩ := hworst
    refine ⟨p, hp, fun i hi hip => ?_⟩
    have hne : atPlace members i ≠ atPlace members p := fun hsame =>
      hip (atPlace_inj hnodup (h.lt i hi) (h.lt p hp) hsame)
    obtain ⟨x, y, hx, hy, hlt⟩ := hleast _ (hmem i hi) hne
    have hxp : x = standing effect places p := Option.some.inj (hx.symm.trans (h.fitness_eq p hp))
    have hyi : y = standing effect places i := Option.some.inj (hy.symm.trans (h.fitness_eq i hi))
    rwa [← hxp, ← hyi]
  · rintro ⟨p, hp, hleast⟩
    refine ⟨atPlace members p, hmem p hp, fun r hr hne => ?_⟩
    rw [h.population_eq, List.mem_map] at hr
    obtain ⟨i, hi, rfl⟩ := hr
    have hip : i ≠ p := fun hsame => hne (congrArg (atPlace members) hsame)
    exact ⟨_, _, h.fitness_eq p hp, h.fitness_eq i hi, hleast i hi hip⟩

/-- Two machines that follow the same effect, at the same places in two orders, still do so
after the same number of removals, if the one of them never has to choose between equals. -/
theorem truncate_reordered {effect : Nat → Nat → α} {members : List Ref} (hnodup : members.Nodup)
    {places order : List Nat} (horder : order.Perm places) {first first' : Machine σ α}
    (hfirst : first.Follows effect members places) (hfirst' : first'.Follows effect members order)
    {n : Nat} (hn : n ≤ places.length)
    (hsole : ∀ k < n, ∀ middle, (truncate k).run.run first = (.ok (), middle) →
      middle.SoleWorst) :
    ∃ (final final' : Machine σ α) (left left' : List Nat),
      (truncate n).run.run first = (.ok (), final) ∧
      (truncate n).run.run first' = (.ok (), final') ∧
      left.length = places.length - n ∧ left'.Perm left ∧
      final.Follows effect members left ∧ final'.Follows effect members left' := by
  have hshared : SharedAlike effect members := sharedAlike_of_nodup hnodup
  -- Each state on the way is known, so that it can be asked who is worst there.
  have hdecided : ∀ k < n, SoleLeast effect (cull effect k places) := fun k hk => by
    obtain ⟨middle, hrun, hmiddle⟩ := truncate_run (hk.le.trans hn) hfirst hshared
    exact (soleWorst_iff hnodup hmiddle).mp (hsole k hk middle hrun)
  obtain ⟨final, hrun, hfinal⟩ := truncate_run hn hfirst hshared
  obtain ⟨final', hrun', hfinal'⟩ := truncate_run (horder.length_eq ▸ hn) hfirst' hshared
  exact ⟨final, final', _, _, hrun, hrun', length_cull effect n places,
    cull_perm n horder hdecided, hfinal, hfinal'⟩

theorem Follows.rates {effect : Nat → Nat → α} {store : Store (Tensor α) α} {places : List Nat}
    (h : m.Follows effect store.refs places) :
    m.Rates fun r => standing effect places r.index := Tracker.Follows.shows_refs h

theorem Follows.rates_of_perm {effect : Nat → Nat → α} {store : Store (Tensor α) α}
    {places order : List Nat} (h : m.Follows effect store.refs order) (horder : order.Perm places) :
    m.Rates fun r => standing effect places r.index := by
  have hrates := h.rates
  simpa only [standing_perm horder] using hrates

/-- A population is evaluated in any order or in none, and every member has the same fitness in
any.  If at each removal one member alone has the least fitness, the same members are left in
any order, with the same fitness. -/
theorem assess_truncate_reordered {kind : SchemeKind} {arguments : SchemeArguments α}
    (s : Search σ α) (hbuild : kind.build arguments = .ok s.scheme) (m : Machine σ α)
    (hnodup : m.population.Nodup) (hstored : ∀ r ∈ m.population, r.index < m.world.store.size)
    {width : Nat} (hwidth : ∀ r ∈ m.population, (m.world.look r).objectives.length = width)
    {order : List Ref} (horder : order.Perm m.population) :
    ((∃ first, (assess s).run.run m = (.ok (), first)) ↔
      (m.population ≠ [] → kind.Fits arguments width)) ∧
    ∀ first, (assess s).run.run m = (.ok (), first) →
      ∃ (first' : Machine σ α) (fitness : Ref → α),
        (assess s).run.run { m with population := order } = (.ok (), first') ∧
        first.population = m.population ∧ first.Rates fitness ∧
        first'.population = order ∧ first'.Rates fitness ∧
        ∀ size, (∀ k < m.population.length - size, ∀ middle,
            (truncate k).run.run first = (.ok (), middle) → middle.SoleWorst) →
          ∃ (final final' : Machine σ α) (fitness : Ref → α),
            (truncate (m.population.length - size)).run.run first = (.ok (), final) ∧
            (truncate (order.length - size)).run.run first' = (.ok (), final') ∧
            final.population.length = min size m.population.length ∧
            final'.population.Perm final.population ∧
            final.Rates fitness ∧ final'.Rates fitness := by
  refine ⟨assess_total_iff hbuild hwidth, fun first hfirst => ?_⟩
  obtain ⟨tracker, store, hevaluate, rfl⟩ := assess_ok_iff.mp hfirst
  obtain ⟨effect, tracker', store', hevaluate', hfollows, hfollows'⟩ :=
    Tracker.evaluate_reordered hbuild hnodup hstored hwidth horder hevaluate
  let first : Machine σ α := { m with tracker := tracker, world := { m.world with store := store } }
  let first' : Machine σ α := { m with
    population := order, tracker := tracker', world := { m.world with store := store' } }
  have hfirst : first.Follows effect m.world.store.refs (m.population.map Ref.index) := hfollows
  have hfirst' : first'.Follows effect m.world.store.refs (order.map Ref.index) := hfollows'
  have hplaces : (order.map Ref.index).Perm (m.population.map Ref.index) := horder.map Ref.index
  refine ⟨first', _, assess_ok_iff.mpr ⟨tracker', store', hevaluate', rfl⟩, rfl, hfirst.rates, rfl,
    hfirst'.rates_of_perm hplaces, fun size hsole => ?_⟩
  obtain ⟨final, final', left, left', hrun, hrun', hlength, hleft, hfinal, hfinal'⟩ :=
    truncate_reordered m.world.store.nodup_refs hplaces hfirst hfirst'
      (n := m.population.length - size) (by rw [List.length_map]; omega) hsole
  refine ⟨final, final', _, hrun, by rwa [horder.length_eq], ?_, ?_, hfinal.rates,
    hfinal'.rates_of_perm hleft⟩
  · rw [hfinal.length_eq, hlength, List.length_map]
    omega
  · rw [hfinal.population_eq, hfinal'.population_eq]
    exact hleft.map (atPlace m.world.store.refs)

theorem bystander_build : SchemeKind.epsilon.build (⟨.given 1, .given false, .leftOut, .leftOut⟩ :
    SchemeArguments ℝ) = .ok bystander.scheme := SchemeKind.epsilon_build (by norm_num) false

theorem bystander_effect (matrix : List (List ℝ)) (j i : Nat) :
    bystander.scheme.effect matrix j i = Real.exp (-((matrix.getD j []).getD i 0)) := by
  simp [Scheme.effect, Scheme.scaleOf, bystander, Scalar.exp, ExactScalar.exp]

/-- Three members, the last of which the second one dominates. -/
noncomputable def trio : Machine Unit ℝ :=
  { Machine.start ⟨.ofList ([[0, 3], [1, 1], [2, 2]].map fun row =>
      ⟨default, row.map Nat.cast, [], []⟩), {}, ()⟩ none with
    population := [⟨0⟩, ⟨1⟩, ⟨2⟩] }

/-- The last goes first and the first one second, whoever stands where. -/
theorem assess_truncate_reordered_trio :
    ∃ first first' final final' : Machine Unit ℝ,
      (assess bystander).run.run trio = (.ok (), first) ∧
      (assess bystander).run.run { trio with population := [⟨1⟩, ⟨2⟩, ⟨0⟩] } = (.ok (), first') ∧
      (truncate 2).run.run first = (.ok (), final) ∧
      (truncate 2).run.run first' = (.ok (), final') ∧
      final'.population.Perm final.population ∧ final.population.length = 1 := by
  have hrows : (trio.population.map fun r => (trio.world.look r).objectives) =
      [[0, 3], [1, 1], [2, 2]] := by
    change [[0, 3], [1, 1], [2, 2]].map (List.map (Nat.cast : ℕ → ℝ)) = _
    simp
  have hstored : ∀ r ∈ trio.population, r.index < trio.world.store.size := by decide
  have hwidth : ∀ r ∈ trio.population, (trio.world.look r).objectives.length = 2 := by decide
  let matrix : List (List ℝ) := [[0, 2, 1], [1, 0, -1], [2, 1, 0]]
  have hmatrix : bystander.scheme.measure? [[0, 3], [1, 1], [2, 2]] = .ok matrix := by
    norm_num [bystander, Scheme.measure?, Scheme.prepare, Scheme.epsilonMatrix,
      Scalar.greatest?, Scalar.greater, pure, Except.pure, bind, Except.bind, matrix]
  have hlast : ∀ i ∈ [0, 1, 2], i ≠ 2 →
      standing (bystander.scheme.effect matrix) [0, 1, 2] 2 <
        standing (bystander.scheme.effect matrix) [0, 1, 2] i := by
    have hlt : Real.exp (-2) < Real.exp 1 := Real.exp_lt_exp.mpr (by norm_num)
    have hsum : Real.exp (-2) + Real.exp (-1) < Real.exp (-1) + Real.exp 1 := by linarith
    have hsmall : (-2 : ℝ) < 1 := by norm_num
    simpa [standing, bystander_effect, matrix] using And.intro hsmall hsum
  have htwo : SoleLeast (bystander.scheme.effect matrix) [0, 1] := by
    refine ⟨0, by simp, ?_⟩
    simp [standing, bystander_effect, matrix]
  have hcull : cull (bystander.scheme.effect matrix) 1 [0, 1, 2] = [0, 1] :=
    cull_succ _ 0 (argmin_of_least (by simp) hlast)
  have hnodup : trio.population.Nodup := by decide
  have hshared : SharedAlike (bystander.scheme.effect matrix) trio.population :=
    sharedAlike_of_nodup hnodup
  obtain ⟨first, hfirst, -, hfollows⟩ := assess_run bystander trio hstored hwidth
    (fun _ => ⟨hrows.symm ▸ hmatrix, rfl, by decide⟩) hshared
  have hsole : ∀ k < 2, ∀ middle, (truncate k).run.run first = (.ok (), middle) →
      middle.SoleWorst := by
    intro k hk middle hmiddle
    obtain ⟨next, hnext, hleft⟩ :=
      truncate_run (n := k) (by rw [List.length_range]; exact (hk.trans (by decide)).le) hfollows
        hshared
    obtain rfl : middle = next := by
      rw [hmiddle] at hnext
      cases hnext
      rfl
    refine (soleWorst_iff hnodup hleft).mpr ?_
    interval_cases k
    · exact ⟨2, by decide, hlast⟩
    · change SoleLeast _ (cull _ 1 [0, 1, 2])
      rwa [hcull]
  have horder : [⟨1⟩, ⟨2⟩, ⟨0⟩].Perm trio.population := by decide
  obtain ⟨first', -, hfirst', -, -, -, -, htruncate⟩ := (assess_truncate_reordered bystander
    bystander_build trio hnodup hstored hwidth horder).2 first hfirst
  obtain ⟨final, final', -, hrun, hrun', hlength, hperm, -⟩ := htruncate 1 hsole
  exact ⟨first, first', final, final', hfirst, hfirst', hrun, hrun', hperm, hlength⟩

end Machine
end ParetoSearch
