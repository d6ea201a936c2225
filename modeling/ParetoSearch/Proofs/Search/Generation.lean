import ParetoSearch.Proofs.Search.Breeding

/-!
# Generations in two halves

A generation first merges offspring into the population and then settles it: fitness is
assigned and the worst are removed.  The first half runs the collaborators and leaves
fitness alone; the second half runs none of them.  Setting up is cut in the same way.

What the first half does is reduced to what the collaborators do on the world of the
run, family by family.
-/

namespace ParetoSearch

variable {σ α : Type}

/-- Every family has so many children. -/
def Search.Brings (s : Search σ α) (k : Nat) : Prop :=
  ∀ parents w, (s.evolve parents).Ends w (fun children _ => children.length = k) fun _ _ => True

namespace Machine

variable [Scalar α] {s : Search σ α} {m : Machine σ α}

/-- The first half of a generation; the answer is the offspring. -/
def merge (s : Search σ α) : Work (Machine σ α) α (List Ref) := do
  if !(← get).ready then Work.fail .iterateBeforeStart
  let size := (← get).population.length
  let offspring ← breed s size
  take s offspring offspring
  join offspring
  return offspring

/-- The second half of a generation. -/
def settle (s : Search σ α) (size : Nat) : Work (Machine σ α) α Unit := do
  assess s
  truncate ((← get).population.length - size)
  modify fun m => { m with generations := m.generations + 1 }

/-- The first half of setting up; the answer is the starting population. -/
def found (s : Search σ α) : Work (Machine σ α) α (List Ref) := do
  if (← get).ready then Work.fail .alreadyStarted
  let solutions ← outside s.founders
  let world := (← get).world
  take s solutions (solutions.filter fun r => !(world.look r).evaluated)
  join solutions
  return solutions

/-- The second half of setting up. -/
def launch (s : Search σ α) : Work (Machine σ α) α Unit := do
  assess s
  modify fun m => { m with ready := true }

theorem iterate_run (s : Search σ α) (m : Machine σ α) :
    (iterate s).run.run m = (merge s >>= fun _ => settle s m.population.length).run.run m := by
  simp only [iterate, merge, settle, bind_assoc]
  rw [Work.run_bind (Work.run_get m), Work.run_bind (Work.run_get m)]
  cases hready : m.ready with
  | false => rfl
  | true =>
    simp only [Bool.not_true, Bool.false_eq_true, if_false, bind_assoc, pure_bind]
    rw [Work.run_bind (Work.run_get m), Work.run_bind (Work.run_get m)]

/-- Offspring are taken in once they are bred. -/
theorem merge_run (hready : m.ready = true) {offspring : List Ref} {bred : Machine σ α}
    (hbreed : (breed s m.population.length).run.run m = (.ok offspring, bred)) :
    (merge s).run.run m = (do
      take s offspring offspring
      join offspring
      return offspring : Work (Machine σ α) α (List Ref)).run.run bred := by
  have hgo : ¬ (!m.ready) = true := by simp [hready]
  rw [merge, Work.run_bind (Work.run_get m), if_neg hgo]
  beta_reduce
  rw [Work.run_bind (Work.run_get m), Work.run_bind hbreed]

theorem setUp_run (s : Search σ α) (m : Machine σ α) :
    (setUp s).run.run m = (found s >>= fun _ => launch s).run.run m := by
  simp only [setUp, found, launch, bind_assoc]
  rw [Work.run_bind (Work.run_get m), Work.run_bind (Work.run_get m)]
  cases hready : m.ready with
  | true => rfl
  | false => simp only [Bool.false_eq_true, if_false, bind_assoc, pure_bind]

/-! ## What the first half does -/

/-- The archive after solutions were offered to it. -/
def enrolled (archive : Option (Container Ref α)) (world : World σ α) (solutions : List Ref) :
    Option (Container Ref α) :=
  archive.map fun a => (a.addAll world.look solutions).1

theorem enrol_ends (solutions : List Ref) :
    (enrol solutions).Ends m
      (fun _ t => t = { m with archive := enrolled m.archive m.world solutions })
      fun e t => t = { m with archive := enrolled m.archive m.world solutions } ∧
        ∃ a, m.archive = some a ∧ (a.addAll m.world.look solutions).2 = .error e := by
  obtain ⟨world, population, tracker, archive, evaluations, generations, ready⟩ := m
  rw [enrol, Work.ends_get_bind]
  cases archive with
  | none => exact Work.ends_pure.mpr rfl
  | some a =>
    simp only [enrolled, Option.map_some]
    cases hadd : a.addAll world.look solutions with
    | mk c answer =>
      cases answer with
      | ok added => exact Work.ends_of_run rfl rfl
      | error e => exact Work.ends_of_fault rfl ⟨rfl, a, rfl, by rw [hadd]⟩

/-- Solutions that were measured, counted, offered to the archive and joined to the
population. -/
def joined (m : Machine σ α) (world : World σ α) (solutions : List Ref) : Machine σ α :=
  { m with
    world := world, population := m.population ++ solutions
    evaluations := m.evaluations + solutions.length
    archive := enrolled m.archive world solutions }

/-- A machine that no solution has joined since. -/
structure Stalled (m t : Machine σ α) : Prop where
  population_eq : t.population = m.population
  tracker_eq : t.tracker = m.tracker
  generations_eq : t.generations = m.generations
  ready_eq : t.ready = m.ready

/-- Why solutions did not join: a collaborator failed, or the archive did, which keeps
those that it took before. -/
def Refused (m : Machine σ α) (G : List Ref → World σ α → Prop) (F : Fault α → World σ α → Prop)
    (e : Fault α) (t : Machine σ α) : Prop :=
  (F e t.world ∧ t.archive = m.archive) ∨
    ∃ solutions a, G solutions t.world ∧ m.archive = some a ∧
      (a.addAll t.world.look solutions).2 = .error e ∧
      t.archive = enrolled m.archive t.world solutions

section

variable {G : List Ref → World σ α → Prop} {F : Fault α → World σ α → Prop}

omit s in
theorem Refused.mono {G' : List Ref → World σ α → Prop} {F' : Fault α → World σ α → Prop}
    {e : Fault α} {t : Machine σ α} (h : m.Refused G F e t)
    (hG : ∀ solutions, G solutions t.world → G' solutions t.world)
    (hF : F e t.world → F' e t.world) : m.Refused G' F' e t := by
  rcases h with ⟨hfault, harchive⟩ | ⟨solutions, a, hsolutions, hrest⟩
  · exact Or.inl ⟨hF hfault, harchive⟩
  · exact Or.inr ⟨solutions, a, hG solutions hsolutions, hrest⟩

theorem take_join_ends {solutions pending : List Ref}
    (hmeasure : (s.measure pending).Ends m.world (fun _ => G solutions) F) :
    (take s solutions pending >>= fun _ => join solutions).Ends m
      (fun _ t => ∃ world, G solutions world ∧ t = m.joined world solutions)
      fun e t => m.Stalled t ∧ m.Refused G F e t := by
  rw [take, bind_assoc]
  refine Work.Ends.bind
    (P := fun _ t => ∃ world, t = { m with world := world } ∧ G solutions world) ?_ ?_
  · refine (outside_ends hmeasure).mono (fun _ _ h => h) ?_
    rintro e t ⟨world, rfl, hfault⟩
    exact ⟨⟨rfl, rfl, rfl, rfl⟩, Or.inl ⟨hfault, rfl⟩⟩
  · rintro ⟨⟩ t ⟨world, rfl, hG⟩
    rw [bind_assoc]
    refine Work.Ends.bind (P := fun _ t => t = { m with
      world := world, evaluations := m.evaluations + solutions.length })
      (Work.ends_modify.mpr rfl) ?_
    rintro ⟨⟩ t rfl
    refine ((enrol_ends solutions).mono (fun _ _ h => h) ?_).bind ?_
    · rintro e t ⟨rfl, a, ha, hadd⟩
      exact ⟨⟨rfl, rfl, rfl, rfl⟩, Or.inr ⟨solutions, a, hG, ha, hadd, rfl⟩⟩
    · rintro ⟨⟩ t rfl
      exact Work.ends_modify.mpr ⟨world, hG, rfl⟩

theorem merge_ends {P : List Ref → World σ α → Prop} (hready : m.ready = true)
    (hstart : P [] m.world)
    (hfamily : ∀ offspring world, P offspring world → offspring.length < m.population.length →
      (family s m.population).Ends world
        (fun children world => P (offspring ++ children) world) F)
    (hendless : families (family s) m.population.length ([], m) = none → F .endless m.world)
    (hmeasure : ∀ offspring world, P offspring world → m.population.length ≤ offspring.length →
      (s.measure offspring).Ends world (fun _ => G offspring) F) :
    (merge s).Ends m
      (fun offspring t => ∃ world, G offspring world ∧ t = m.joined world offspring)
      fun e t => m.Stalled t ∧ m.Refused G F e t := by
  rw [merge, Work.ends_get_bind, hready]
  simp only [Bool.not_true, Bool.false_eq_true, if_false]
  rw [Work.ends_get_bind]
  refine ((breed_ends hfamily hstart hendless).mono (fun _ _ h => h) ?_).bind ?_
  · rintro e t ⟨world, rfl, hfault⟩
    exact ⟨⟨rfl, rfl, rfl, rfl⟩, Or.inl ⟨hfault, rfl⟩⟩
  · rintro offspring t ⟨world, rfl, hbred, hlength⟩
    have htake := take_join_ends (m := { m with world := world })
      (hmeasure offspring world hbred hlength)
    rw [← bind_assoc]
    refine (htake.mono (fun _ _ h => h) ?_).bind ?_
    · rintro e t ⟨⟨hpopulation, htracker, hgenerations, hsame⟩, hrefused⟩
      exact ⟨⟨hpopulation, htracker, hgenerations, hsame⟩, hrefused⟩
    · rintro ⟨⟩ t ⟨world', hG, rfl⟩
      exact Work.ends_pure.mpr ⟨world', hG, rfl⟩

theorem found_ends {P : List Ref → World σ α → Prop} (hready : m.ready = false)
    (hfounders : s.founders.Ends m.world P F)
    (hmeasure : ∀ founders world, P founders world →
      (s.measure (founders.filter fun r => !(world.look r).evaluated)).Ends world
        (fun _ => G founders) F) :
    (found s).Ends m
      (fun founders t => ∃ world, G founders world ∧ t = m.joined world founders)
      fun e t => m.Stalled t ∧ m.Refused G F e t := by
  rw [found, Work.ends_get_bind, hready]
  simp only [Bool.false_eq_true, if_false]
  refine ((outside_ends hfounders).mono (fun _ _ h => h) ?_).bind ?_
  · rintro e t ⟨world, rfl, hfault⟩
    exact ⟨⟨rfl, rfl, rfl, rfl⟩, Or.inl ⟨hfault, rfl⟩⟩
  · rintro founders t ⟨world, rfl, hP⟩
    have htake := take_join_ends (m := { m with world := world }) (hmeasure founders world hP)
    rw [Work.ends_get_bind, ← bind_assoc]
    refine (htake.mono (fun _ _ h => h) ?_).bind ?_
    · rintro e t ⟨⟨hpopulation, htracker, hgenerations, hsame⟩, hrefused⟩
      exact ⟨⟨hpopulation, htracker, hgenerations, hsame⟩, hrefused⟩
    · rintro ⟨⟩ t ⟨world', hG, rfl⟩
      exact Work.ends_pure.mpr ⟨world', hG, rfl⟩

theorem merge_not_ready (hready : m.ready = false) :
    (merge s).run.run m = (.error .iterateBeforeStart, m) := by
  rw [merge, Work.run_bind (Work.run_get m), hready]
  rfl

/-- Where every family has `k` children, offspring come in the least multiple of `k` that
is enough. -/
theorem merge_length {k : Nat} (hk : 0 < k) (hbrings : s.Brings k)
    {offspring : List Ref} {merged : Machine σ α}
    (hmerge : (merge s).run.run m = (.ok offspring, merged)) :
    offspring.length = k * ((m.population.length + k - 1) / k) := by
  cases hready : m.ready with
  | false =>
    rw [merge_not_ready hready] at hmerge
    cases hmerge
  | true =>
    -- All families but the last were not enough.
    have hends := merge_ends (s := s) (F := fun _ _ => True)
      (P := fun offspring _ => ∃ c, offspring.length = k * c ∧
        (c = 0 ∨ k * (c - 1) < m.population.length))
      (G := fun offspring _ => offspring.length = k * ((m.population.length + k - 1) / k))
      hready ⟨0, rfl, Or.inl rfl⟩ ?_ (fun _ => trivial) ?_
    · obtain ⟨world, hlength, -⟩ := hends.of_ok hmerge
      exact hlength
    · rintro offspring w ⟨c, hlength, -⟩ hshort
      rw [family]
      refine (Work.ends_trivial (s.select m.population) w).bind fun parents w' _ => ?_
      refine (hbrings parents w').mono (fun children _ hchildren => ?_) fun _ _ h => h
      refine ⟨c + 1, ?_, Or.inr ?_⟩
      · rw [List.length_append, hlength, hchildren, Nat.mul_succ]
      · rw [Nat.add_sub_cancel, ← hlength]
        exact hshort
    · rintro offspring w ⟨c, hlength, hlast⟩ henough
      have hceil : (m.population.length + k - 1) / k = c := by
        rw [hlength] at henough
        rcases hlast with rfl | hlast
        · rw [Nat.mul_zero, Nat.le_zero] at henough
          rw [henough]
          exact Nat.div_eq_of_lt (by omega)
        · cases c with
          | zero => omega
          | succ d =>
            rw [Nat.add_sub_cancel] at hlast
            rw [Nat.mul_succ] at henough
            refine Nat.div_eq_of_lt_le ?_ ?_
            · rw [Nat.succ_mul, Nat.mul_comm]
              omega
            · rw [Nat.succ_mul, Nat.succ_mul, Nat.mul_comm]
              omega
      rw [hceil]
      exact (Work.ends_trivial _ w).mono (fun _ _ _ => hlength) fun _ _ _ => trivial

/-- Offspring come after their parents and are as many at least; without parents there are
none. -/
theorem merge_joins {offspring : List Ref} {merged : Machine σ α}
    (h : (merge s).run.run m = (.ok offspring, merged)) :
    merged.population = m.population ++ offspring ∧ m.population.length ≤ offspring.length ∧
      (m.population = [] → offspring = []) := by
  cases hready : m.ready with
  | false =>
    rw [merge_not_ready hready] at h
    cases h
  | true =>
    have hends := merge_ends (F := fun _ _ => True)
      (P := fun offspring _ => m.population = [] → offspring = [])
      (G := fun offspring _ => m.population.length ≤ offspring.length ∧
        (m.population = [] → offspring = [])) (s := s) hready (fun _ => rfl)
      (fun _ _ _ hshort => (Work.ends_trivial _ _).mono
        (fun _ _ _ hnone => by simp [hnone] at hshort) fun _ _ h => h)
      (fun _ => trivial)
      fun _ _ hnone henough => (Work.ends_trivial _ _).mono (fun _ _ _ => ⟨henough, hnone⟩)
        fun _ _ h => h
    obtain ⟨world, hcount, rfl⟩ := hends.of_ok h
    exact ⟨rfl, hcount⟩

theorem found_ready (hready : m.ready = true) :
    (found s).run.run m = (.error .alreadyStarted, m) := by
  rw [found, Work.run_bind (Work.run_get m), hready]
  rfl

/-- A generation is its two halves on a machine that is set up, and fails at once on
another. -/
theorem iterate_halves {P : List Ref → Machine σ α → Prop} {Q : Unit → Machine σ α → Prop}
    {F : Fault α → Machine σ α → Prop} (hnew : m.ready = false → F .iterateBeforeStart m)
    (hmerge : m.ready = true → (merge s).Ends m P F)
    (hsettle : ∀ offspring t, P offspring t → (settle s m.population.length).Ends t Q F) :
    (iterate s).Ends m Q F := by
  rw [Work.ends_congr (iterate_run s m)]
  cases hready : m.ready with
  | false => exact (Work.ends_of_fault (merge_not_ready hready) (hnew hready)).bind hsettle
  | true => exact (hmerge hready).bind hsettle

theorem setUp_halves {P : List Ref → Machine σ α → Prop} {Q : Unit → Machine σ α → Prop}
    {F : Fault α → Machine σ α → Prop} (hagain : m.ready = true → F .alreadyStarted m)
    (hfound : m.ready = false → (found s).Ends m P F)
    (hlaunch : ∀ founders t, P founders t → (launch s).Ends t Q F) : (setUp s).Ends m Q F := by
  rw [Work.ends_congr (setUp_run s m)]
  cases hready : m.ready with
  | true => exact (Work.ends_of_fault (found_ready hready) (hagain hready)).bind hlaunch
  | false => exact (hfound hready).bind hlaunch

end

end Machine
end ParetoSearch
