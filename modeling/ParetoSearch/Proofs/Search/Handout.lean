import ParetoSearch.Proofs.Archive.Session
import ParetoSearch.Proofs.Search.Frame
import ParetoSearch.Proofs.Search.Truncation

/-!
# What becomes of an outcome

An outcome is made of references, and the run goes on with the solutions behind them.
Nothing that an outcome shows of these changes, however often the search iterates
later, and whether it succeeds (`Machine.outcome_onward`).  What the members carry as
their fitness does: it is the fitness of the outcome until the next generation is
completed, and from then on the fitness of a later one (`Machine.outcome_overwritten`).
-/

namespace ParetoSearch

variable {σ α : Type} [Scalar α]

namespace Machine

variable {s : Search σ α} {m t : Machine σ α}

/-! ## Outcomes of tidy machines -/

/-- Members are different solutions, and the store has them and those in the archive. -/
structure Housed (m : Machine σ α) : Prop where
  nodup : m.population.Nodup
  stored : m.Stored
  archived : ∀ a, m.archive = some a → ∀ r ∈ a.members, r.index < m.world.store.size

/-- Moreover, members show the fitness that is tracked, unless more have joined since. -/
structure Tidy (m : Machine σ α) : Prop extends m.Housed where
  shown : ∀ fitness, m.tracker.fitness? = .ok fitness →
    fitness.length < m.population.length ∨
      m.population.map (fun r => (m.world.look r).fitness?) = fitness.map some

/-- An outcome is taken from a machine. -/
structure Gives (m : Machine σ α) (o : Outcome α) : Prop where
  fitness_eq : m.tracker.fitness? = .ok o.fitness
  length_eq : o.fitness.length = o.population.length
  population_eq : o.population = m.population
  archive_eq : o.archive = m.archive
  generations_eq : o.generations = m.generations
  evaluations_eq : o.evaluations = m.evaluations

theorem outcome_ends : (outcome : Work (Machine σ α) α (Outcome α)).Ends m
    (fun o t => t = m ∧ m.ready = true ∧ m.Gives o) fun _ t => t = m := by
  rw [outcome, Work.ends_get_bind]
  cases hready : m.ready with
  | false => exact rfl
  | true =>
    simp only [Bool.not_true, Bool.false_eq_true, if_false]
    refine Work.Ends.bind (P := fun fitness t => t = m ∧ m.tracker.fitness? = .ok fitness) ?_ ?_
    · exact Work.ends_lift (fun fitness h => ⟨rfl, h⟩) fun _ _ => rfl
    · rintro fitness t ⟨rfl, hfitness⟩
      refine Work.ends_lift (fun o ho => ?_) fun _ _ => rfl
      unfold Outcome.ofFitness? at ho
      split at ho
      case isTrue => cases ho
      case isFalse hlength =>
        cases ho
        exact ⟨rfl, trivial, hfitness, not_not.mp hlength, rfl, rfl, rfl, rfl⟩

/-- What an outcome of a tidy machine says of fitness, its members show. -/
theorem Tidy.shows {o : Outcome α} (h : m.Tidy) (ho : m.Gives o) :
    o.population.map (fun r => (m.world.look r).fitness?) = o.fitness.map some := by
  rcases h.shown o.fitness ho.fitness_eq with hshort | hshown
  · rw [ho.length_eq, ho.population_eq] at hshort
    exact absurd hshort (Nat.lt_irrefl _)
  · rw [ho.population_eq]
    exact hshown

/-! ## Tidy machines stay tidy -/

theorem Tidy.of_extends (h : m.Tidy) (hworld : m.world.Extends t.world)
    (hpopulation : t.population = m.population) (htracker : t.tracker = m.tracker)
    (harchive : ∀ a, t.archive = some a → ∀ r ∈ a.members, r.index < t.world.store.size) :
    t.Tidy := by
  refine ⟨⟨hpopulation ▸ h.nodup, ?_, harchive⟩, ?_⟩
  · intro r hr
    rw [hpopulation] at hr
    exact Nat.lt_of_lt_of_le (h.stored r hr) hworld.size_le
  · have hlooks : t.population.map (fun r => (t.world.look r).fitness?) =
        m.population.map fun r => (m.world.look r).fitness? := by
      rw [hpopulation]
      refine List.map_congr_left fun r hr => ?_
      rw [hworld.look_eq (h.stored r hr)]
    rw [hlooks, htracker, hpopulation]
    exact h.shown

theorem Tidy.archived_extends (h : m.Tidy) {w : World σ α} (hworld : m.world.Extends w)
    (a : Container Ref α) (ha : m.archive = some a) : ∀ r ∈ a.members, r.index < w.store.size :=
  fun r hr => Nat.lt_of_lt_of_le (h.archived a ha r hr) hworld.size_le

theorem Tidy.archived_enrolled (h : m.Tidy) {w : World σ α} (hworld : m.world.Extends w)
    {solutions : List Ref} (hsolutions : ∀ r ∈ solutions, r.index < w.store.size)
    (a : Container Ref α) (ha : enrolled m.archive w solutions = some a) :
    ∀ r ∈ a.members, r.index < w.store.size := by
  obtain ⟨kept, hkept, rfl⟩ := Option.map_eq_some_iff.mp ha
  intro r hr
  rcases Container.mem_of_addAll hr with hold | hnew
  · exact h.archived_extends hworld kept hkept r hold
  · exact hsolutions r hnew

theorem Tidy.joined (h : m.Tidy) {w : World σ α} (hworld : m.world.Extends w)
    {offspring : List Ref} (hfresh : m.world.Fresh w offspring) : (m.joined w offspring).Tidy := by
  refine ⟨⟨?_, ?_, h.archived_enrolled hworld hfresh.stored⟩, ?_⟩
  · change (m.population ++ offspring).Nodup
    rw [List.nodup_append]
    refine ⟨h.nodup, hfresh.nodup, fun r hr q hq hrq => ?_⟩
    subst hrq
    exact absurd (h.stored r hr) (Nat.not_lt_of_le (hfresh.new r hq))
  · intro r hr
    rcases List.mem_append.mp hr with hold | hnew
    · exact Nat.lt_of_lt_of_le (h.stored r hold) hworld.size_le
    · exact hfresh.stored r hnew
  · intro fitness hfitness
    change fitness.length < (m.population ++ offspring).length ∨
      (m.population ++ offspring).map (fun r => (w.look r).fitness?) = fitness.map some
    have hlength : fitness.length ≤ m.population.length := by
      rcases h.shown fitness hfitness with hshort | hshown
      · exact Nat.le_of_lt hshort
      · have hcount := congrArg List.length hshown
        rw [List.length_map, List.length_map] at hcount
        exact Nat.le_of_eq hcount.symm
    cases offspring with
    | nil =>
      rw [List.append_nil]
      have hsame : m.population.map (fun r => (w.look r).fitness?) =
          m.population.map fun r => (m.world.look r).fitness? := by
        refine List.map_congr_left fun r hr => ?_
        rw [hworld.look_eq (h.stored r hr)]
      rw [hsame]
      exact h.shown fitness hfitness
    | cons first rest =>
      left
      rw [List.length_append, List.length_cons]
      omega

theorem Tidy.refits (h : m.Tidy) (hrefits : m.Refits t) (hwritten : t.Written) : t.Tidy := by
  have hnodup := h.nodup.sublist hrefits.sublist
  refine ⟨⟨hnodup, hrefits.stored h.stored, ?_⟩, ?_⟩
  · intro a ha
    rw [hrefits.archive_eq] at ha
    rw [hrefits.annotated.size_eq]
    exact h.archived a ha
  · intro fitness hfitness
    obtain ⟨written, hanswer, -, hshown⟩ := hwritten.shows (hrefits.stored h.stored) hnodup
    obtain rfl := Except.ok.inj (hanswer.symm.trans hfitness)
    exact Or.inr hshown

/-- A generation keeps a machine tidy; only one that is completed changes solutions that
were there, and of those the annotations. -/
theorem iterate_ends (hs : s.Gentle) (hsquare : s.scheme.Square) (h : m.Tidy) :
    (iterate s).Ends m
      (fun _ t => t.Tidy ∧ m.world.Keeps t.world ∧ t.generations = m.generations + 1)
      fun _ t => t.Tidy ∧ m.world.Extends t.world ∧ t.generations = m.generations := by
  refine iterate_halves (fun _ => ⟨h, .refl _, rfl⟩)
    (fun hready => (merge_gentle hs hready).mono (fun _ _ h => h) ?_) ?_
  · rintro e t ⟨hstalled, hrefused⟩
    obtain ⟨hworld, harchive⟩ : m.world.Extends t.world ∧
        ∀ a, t.archive = some a → ∀ r ∈ a.members, r.index < t.world.store.size := by
      rcases hrefused with ⟨hworld, harchive⟩ | ⟨solutions, a, ⟨hworld, hfresh⟩, -, -, harchive⟩
      · exact ⟨hworld, by rw [harchive]; exact h.archived_extends hworld⟩
      · exact ⟨hworld, by rw [harchive]; exact h.archived_enrolled hworld hfresh.stored⟩
    exact ⟨h.of_extends hworld hstalled.population_eq hstalled.tracker_eq harchive, hworld,
      hstalled.generations_eq⟩
  · rintro offspring _ ⟨world, ⟨hworld, hfresh⟩, rfl⟩
    have hjoined := h.joined hworld hfresh
    have hsize : m.population.length ≤ (m.joined world offspring).population.length := by
      change m.population.length ≤ (m.population ++ offspring).length
      rw [List.length_append]
      exact Nat.le_add_right _ _
    refine (settle_ends hsquare hjoined.stored hsize).mono ?_ ?_
    · rintro ⟨⟩ _ ⟨u, rfl, hrefits, hwritten, -⟩
      obtain ⟨⟨hnodup, hstored, harchived⟩, hshown⟩ := hjoined.refits hrefits hwritten
      exact ⟨⟨⟨hnodup, hstored, harchived⟩, hshown⟩, hworld.keeps.trans hrefits.annotated.keeps,
        congrArg (· + 1) hrefits.generations_eq⟩
    · rintro e _ ⟨rfl, -⟩
      exact ⟨hjoined, hworld, rfl⟩

/-! ## Later on -/

/-- What a machine comes to while it is told to iterate, which may fail, and while others
add solutions and leave those that are there. -/
inductive Onward (s : Search σ α) (m : Machine σ α) : Machine σ α → Prop where
  | here : Onward s m m
  | attempt {t : Machine σ α} (h : Onward s m t) : Onward s m ((iterate s).run.run t).2
  | aside {t : Machine σ α} {world : World σ α} (h : Onward s m t)
    (hworld : t.world.Extends world) : Onward s m { t with world := world }

theorem setUp_tidy (hsquare : s.scheme.Square) {before start : Machine σ α}
    (hsetUp : (setUp s).run.run before = (.ok (), start)) (hhoused : start.Housed) :
    start.Tidy := by
  rw [setUp_run] at hsetUp
  cases hfound : (found s).run.run before with
  | mk answer joined =>
    cases answer with
    | error e =>
      rw [ExceptT.run_bind, StateT.run_bind, hfound] at hsetUp
      cases hsetUp
    | ok founders =>
      rw [Work.run_bind hfound] at hsetUp
      obtain ⟨u, rfl, -, -, hwritten⟩ := (launch_ends hsquare).of_ok hsetUp
      refine ⟨hhoused, fun fitness hfitness => ?_⟩
      obtain ⟨written, hanswer, -, hshown⟩ := hwritten.shows hhoused.stored hhoused.nodup
      obtain rfl := Except.ok.inj (hanswer.symm.trans hfitness)
      exact Or.inr hshown

/-- What `iterate_ends` says of one attempt, for any number of them. -/
structure Since (m t : Machine σ α) : Prop where
  tidy : t.Tidy
  keeps : m.world.Keeps t.world
  generations_le : m.generations ≤ t.generations
  extends_of_eq : t.generations = m.generations → m.world.Extends t.world

theorem Onward.since (hs : s.Gentle) (hsquare : s.scheme.Square) (hm : m.Tidy)
    (h : Onward s m t) : m.Since t := by
  induction h with
  | here => exact ⟨hm, .refl _, Nat.le_refl _, fun _ => .refl _⟩
  | @attempt t _ ih =>
    have hends : (iterate s).Ends t (fun _ u => m.Since u) fun _ u => m.Since u := by
      refine (iterate_ends hs hsquare ih.tidy).mono ?_ ?_
      · rintro ⟨⟩ u ⟨htidy, hkeeps, hnext⟩
        refine ⟨htidy, ih.keeps.trans hkeeps, ?_, fun hsame => ?_⟩
        · rw [hnext]
          exact Nat.le_succ_of_le ih.generations_le
        · exact absurd ih.generations_le (by omega)
      · rintro e u ⟨htidy, hworld, hsame⟩
        refine ⟨htidy, ih.keeps.trans hworld.keeps, hsame ▸ ih.generations_le, fun heq => ?_⟩
        exact (ih.extends_of_eq (hsame.symm.trans heq)).trans hworld
    exact hends.state
  | @aside t world _ hworld ih =>
    refine ⟨ih.tidy.of_extends hworld rfl rfl ?_, ih.keeps.trans hworld.keeps,
      ih.generations_le, fun heq => (ih.extends_of_eq heq).trans hworld⟩
    exact ih.tidy.archived_extends hworld

/-- What generations and the observer keep, a run keeps.  The observer is told outcomes of
machines on the way. -/
theorem proceed_keeps {I : Machine σ α → Prop} {F : Fault α → Machine σ α → Prop}
    {observer : Option (Observer σ α)} (hF : ∀ e t, I t → F e t)
    (hiterate : ∀ t, I t → (iterate s).Ends t (fun _ u => I u) F)
    (hobserver : ∀ f, observer = some f → ∀ (t : Machine σ α) (o : Outcome α) (i : Nat),
      I t → t.Gives o → (f o i).Ends t.world (fun _ w => I { t with world := w })
        fun e w => F e { t with world := w })
    (n i : Nat) (h : I t) : (proceed s observer n i).Ends t (fun _ u => I u) F := by
  induction n generalizing i t with
  | zero => exact h
  | succ n ih =>
    have hstops : (stops observer i).Ends t (fun _ u => I u) F := by
      cases observer with
      | none => exact h
      | some f =>
        rw [stops]
        refine (outcome_ends.mono (fun _ _ h => h) ?_).bind ?_
        · rintro e u rfl
          exact hF e u h
        · rintro o u ⟨rfl, -, hgives⟩
          refine (outside_ends (hobserver f rfl u o i h hgives)).mono ?_ ?_
          · rintro answer _ ⟨world, rfl, hworld⟩
            exact hworld
          · rintro e _ ⟨world, rfl, hworld⟩
            exact hworld
    rw [proceed]
    refine hstops.bind fun stop u hu => ?_
    cases stop with
    | true => exact hu
    | false => exact (hiterate u hu).bind fun _ v hv => ih (i + 1) hv

/-- Where there is nothing to keep yet, setting up must bring it about. -/
theorem run_keeps {I : Machine σ α → Prop} {F : Fault α → Machine σ α → Prop}
    {observer : Option (Observer σ α)} {generations : Int} (hF : ∀ e t, I t → F e t)
    (hsetUp : t.ready = false → (setUp s).Ends t (fun _ u => I u) F)
    (hiterate : ∀ t, I t → (iterate s).Ends t (fun _ u => I u) F)
    (hobserver : ∀ f, observer = some f → ∀ (t : Machine σ α) (o : Outcome α) (i : Nat),
      I t → t.Gives o → (f o i).Ends t.world (fun _ w => I { t with world := w })
        fun e w => F e { t with world := w })
    (hnegative : F (.generationsNegative generations) t) (h : t.ready = true → I t) :
    (run s generations observer).Ends t (fun o u => I u ∧ u.Gives o) F := by
  rw [run]
  split
  case isTrue => exact hnegative
  case isFalse =>
    beta_reduce
    rw [Work.ends_get_bind]
    have hrest : ∀ u, I u → (proceed s observer generations.toNat 0 >>= fun _ => outcome).Ends u
        (fun o v => I v ∧ v.Gives o) F := by
      intro u hu
      refine (proceed_keeps hF hiterate hobserver generations.toNat 0 hu).bind fun _ v hv => ?_
      refine outcome_ends.mono ?_ ?_
      · rintro o _ ⟨rfl, -, hgives⟩
        exact ⟨hv, hgives⟩
      · rintro e _ rfl
        exact hF e _ hv
    cases hready : t.ready with
    | true => exact hrest t (h hready)
    | false => exact (hsetUp hready).bind fun _ u hu => hrest u hu

/-- A run only goes onward. -/
theorem run_onward {observer : Option (Observer σ α)} {generations : Int}
    (hobserver : ∀ f, observer = some f → ∀ (t : Machine σ α) (o : Outcome α) (i : Nat),
      Onward s m t → t.Gives o →
        (f o i).Ends t.world (fun _ w => t.world.Extends w) fun _ w => t.world.Extends w)
    (h : Onward s m t) (hready : t.ready = true) :
    (run s generations observer).Ends t (fun o u => Onward s m u ∧ u.Gives o)
      fun _ u => Onward s m u := by
  refine run_keeps (fun _ _ h => h) (fun hnew => ?_) (fun u hu => Work.ends_of_state hu.attempt)
    ?_ h fun _ => h
  · rw [hready] at hnew
    cases hnew
  · intro f hf u o i hu hgives
    exact (hobserver f hf u o i hu hgives).mono (fun _ _ hw => hu.aside hw)
      fun _ _ hw => hu.aside hw

/-- An outcome keeps what it shows but for the fitness that its members carry, which is
its own until a further generation is completed.  Only the latest outcome shows its own
for certain. -/
theorem outcome_onward (hs : s.Gentle) (hsquare : s.scheme.Square) {before start : Machine σ α}
    (hsetUp : (setUp s).run.run before = (.ok (), start)) (hhoused : start.Housed)
    {m later : Machine σ α} (hm : Onward s start m) (hlater : Onward s m later)
    {o : Outcome α} (ho : outcome.run.run m = (.ok o, m)) :
    o.population.map (fun r => (m.world.look r).fitness?) = o.fitness.map some ∧
    (∀ r, (r ∈ o.population ∨ ∃ a, o.archive = some a ∧ r ∈ a.members) →
      (later.world.look r).SameData (m.world.look r)) ∧
    o.objectives later.world.store = o.objectives m.world.store ∧
    o.front later.world.store = o.front m.world.store ∧
    (later.generations = m.generations →
      o.population.map (fun r => (later.world.look r).fitness?) = o.fitness.map some) ∧
    ∀ latest, outcome.run.run later = (.ok latest, later) →
      latest.population.map (fun r => (later.world.look r).fitness?) = latest.fitness.map some := by
  have htidy := (hm.since hs hsquare (setUp_tidy hsquare hsetUp hhoused)).tidy
  have hsince := hlater.since hs hsquare htidy
  obtain ⟨-, -, hgives⟩ := outcome_ends.of_ok ho
  have hmembers : ∀ r ∈ o.population, r.index < m.world.store.size := by
    rw [hgives.population_eq]
    exact htidy.stored
  have hdata : ∀ r, (r ∈ o.population ∨ ∃ a, o.archive = some a ∧ r ∈ a.members) →
      (later.world.look r).SameData (m.world.look r) := by
    rintro r (hr | ⟨a, ha, hr⟩)
    · exact hsince.keeps.same r (hmembers r hr)
    · rw [hgives.archive_eq] at ha
      exact hsince.keeps.same r (htidy.archived a ha r hr)
  have hrows : o.objectives later.world.store = o.objectives m.world.store := by
    have hmap : o.population.map (fun r => (later.world.store.look r).objectives) =
        o.population.map fun r => (m.world.store.look r).objectives :=
      List.map_congr_left fun r hr => (hdata r (Or.inl hr)).objectives_eq
    rw [Outcome.objectives, Outcome.objectives, hmap]
  refine ⟨htidy.shows hgives, hdata, hrows, by rw [Outcome.front, Outcome.front, hrows], ?_, ?_⟩
  · intro hsame
    rw [← htidy.shows hgives]
    refine List.map_congr_left fun r hr => ?_
    rw [(hsince.extends_of_eq hsame).look_eq (hmembers r hr)]
  · intro latest hlatest
    obtain ⟨-, -, hnow⟩ := outcome_ends.of_ok hlatest
    exact hsince.tidy.shows hnow

/-! ## An outcome that is overwritten -/

/-- A search on one objective, whose offspring are copies of all members. -/
noncomputable def cloning : Search Unit ℝ :=
  { founders := [⟨default, [0], [], []⟩, ⟨default, [1], [], []⟩].mapM World.insert
    measure := fun _ => return
    arity := 2
    select := fun population => return population
    evolve := fun parents => do
      let w ← get
      (parents.map fun r => { w.look r with attributes := [] }).mapM World.insert
    scheme := ⟨Scheme.epsilonMatrix, 1, false⟩
    close := return }

theorem cloning_gentle : cloning.Gentle where
  select_touches _ w := .refl [] w
  evolve_ends _ w := (World.insert_mapM_ends _ w).mono
    (fun _ _ h => ⟨h.1, h.2.1⟩) fun _ _ h => h.elim
  measure_touches solutions w := .refl solutions w

theorem cloning_square : cloning.scheme.Square := fun _ _ h => Scheme.table_square h

/-- What the two founders do to each other. -/
noncomputable def foundersEffect : Nat → Nat → ℝ := cloning.scheme.effect [[0, -1], [1, 0]]

/-- The two founders, with their fitness. -/
noncomputable def cloned : Machine Unit ℝ :=
  { Machine.start (.start ()) none with
    world := ⟨.ofList
      [⟨default, [0], [], [(fitnessName, standing foundersEffect [0, 1] 0)]⟩,
        ⟨default, [1], [], [(fitnessName, standing foundersEffect [0, 1] 1)]⟩], {}, ()⟩
    population := [⟨0⟩, ⟨1⟩]
    tracker := ⟨some (.among foundersEffect [0, 1]), 1⟩
    evaluations := 2
    ready := true }

theorem setUp_cloning : (setUp cloning).run.run (.start (.start ()) none) = (.ok (), cloned) := by
  obtain ⟨founded, hfound, hfounded⟩ : ∃ founded : Machine Unit ℝ,
      (found cloning).run.run (.start (.start ()) none) = (.ok [⟨0⟩, ⟨1⟩], founded) ∧
      founded = { Machine.start ⟨.ofList [⟨default, [0], [], []⟩, ⟨default, [1], [], []⟩], {}, ()⟩
        none with population := [⟨0⟩, ⟨1⟩], evaluations := 2 } := ⟨_, rfl, rfl⟩
  subst hfounded
  have hmeasure : cloning.scheme.measure? [[0], [1]] = .ok [[0, -1], [1, 0]] := by
    norm_num [cloning, Scheme.measure?, Scheme.prepare, Scheme.epsilonMatrix,
      Scalar.greatest?, pure, Except.pure, bind, Except.bind]
  have hassess := cloning.scheme.assess_eq (n := 2) hmeasure rfl (by simp)
  have hevaluate : Tracker.start.evaluate cloning.scheme
      (.ofList [⟨default, [0], [], []⟩, ⟨default, [1], [], []⟩] : Store (Tensor ℝ) ℝ) [⟨0⟩, ⟨1⟩] =
      .ok (cloned.tracker, cloned.world.store) := by
    have hrows : Tracker.rows
        (.ofList [⟨default, [0], [], []⟩, ⟨default, [1], [], []⟩] : Store (Tensor ℝ) ℝ)
        [⟨0⟩, ⟨1⟩] = .ok [[0], [1]] := rfl
    rw [Tracker.evaluate, hrows, ok_bind, hassess]
    rfl
  rw [setUp_run, Work.run_bind hfound, launch, assess, bind_assoc, Work.run_bind (Work.run_get _),
    bind_assoc]
  exact (Work.run_bind (Work.run_lift hevaluate _) _).trans rfl

/-- What founders and copies do to each other. -/
noncomputable def copiesEffect : Nat → Nat → ℝ :=
  cloning.scheme.effect [[0, -1, 0, -1], [1, 0, 1, 0], [0, -1, 0, -1], [1, 0, 1, 0]]

theorem cull_copies : cull copiesEffect 2 [0, 1, 2, 3] = [0, 2] := by
  have heffect : ∀ j i, copiesEffect j i = Real.exp
      (-([[0, -1, 0, -1], [1, 0, 1, 0], [0, -1, 0, -1], [1, 0, 1, 0]].getD j [] |>.getD i 0)) := by
    intro j i
    simp [copiesEffect, cloning, Scheme.effect, Scheme.scaleOf, Scalar.exp, ExactScalar.exp]
  have hlow : Real.exp (-1) < 1 := Real.exp_lt_one_iff.mpr (by norm_num)
  have hhigh : 1 < Real.exp 1 := Real.one_lt_exp_iff.mpr one_pos
  have hfirst : [0, 1, 2, 3].argmin (standing copiesEffect [0, 1, 2, 3]) = some 1 := by
    rw [List.argmin_eq_some_iff]
    simp [standing, heffect]
    refine ⟨⟨?_, ?_, ?_, ?_⟩, ?_⟩ <;> linarith
  have hsecond : [0, 2, 3].argmin (standing copiesEffect [0, 2, 3]) = some 3 := by
    rw [List.argmin_eq_some_iff]
    simp [standing, heffect]
    constructor <;> linarith
  rw [cull_succ _ _ hfirst]
  exact cull_succ _ _ hsecond

theorem iterate_cloning : ∃ final : Machine Unit ℝ,
    (iterate cloning).run.run cloned = (.ok (), final) ∧
    final.Follows copiesEffect [⟨0⟩, ⟨1⟩, ⟨2⟩, ⟨3⟩] [0, 2] := by
  obtain ⟨merged, hmerge, hpopulation, hstored, hrows⟩ : ∃ merged : Machine Unit ℝ,
      (merge cloning).run.run cloned = (.ok [⟨2⟩, ⟨3⟩], merged) ∧
      merged.population = [⟨0⟩, ⟨1⟩, ⟨2⟩, ⟨3⟩] ∧ merged.world.store.size = 4 ∧
      (merged.population.map fun r => (merged.world.look r).objectives) = [[0], [1], [0], [1]] :=
    ⟨_, merge_run (m := cloned) rfl (breed_of_family (by decide) rfl (by decide)), rfl, rfl, rfl⟩
  have hmeasure : cloning.scheme.measure? [[0], [1], [0], [1]] =
      .ok [[0, -1, 0, -1], [1, 0, 1, 0], [0, -1, 0, -1], [1, 0, 1, 0]] := by
    norm_num [cloning, Scheme.measure?, Scheme.prepare, Scheme.epsilonMatrix,
      Scalar.greatest?, pure, Except.pure, bind, Except.bind]
  have hplaces : ∀ r ∈ merged.population, r.index < merged.world.store.size := by
    rw [hpopulation, hstored]
    decide
  have hwidth : ∀ r ∈ merged.population, (merged.world.look r).objectives.length = 1 := by
    have hwidths : ∀ row ∈ merged.population.map fun r => (merged.world.look r).objectives,
        row.length = 1 := by
      rw [hrows]
      simp
    exact List.forall_mem_map.mp hwidths
  have hshared : SharedAlike copiesEffect merged.population :=
    sharedAlike_of_nodup (by rw [hpopulation]; decide)
  obtain ⟨final, hsettle, hfinal⟩ := settle_run cloning merged hplaces hwidth
    (by rw [hrows]; exact fun _ => ⟨hmeasure, by simp [hpopulation], by simp [hpopulation]⟩)
    hshared 2
  rw [hpopulation] at hfinal
  refine ⟨final, ?_, ?_⟩
  · rw [iterate_run, Work.run_bind hmerge]
    exact hsettle
  · rw [← cull_copies]
    exact hfinal

theorem outcome_onward_cloning : ∃ (later : Machine Unit ℝ) (o : Outcome ℝ),
    outcome.run.run cloned = (.ok o, cloned) ∧
    (iterate cloning).run.run cloned = (.ok (), later) ∧
    o.objectives later.world.store = .ok [[0], [1]] := by
  obtain ⟨later, hiterate, -⟩ := iterate_cloning
  have hhoused : cloned.Housed := ⟨by decide, by unfold Stored; decide, fun a ha => by cases ha⟩
  have hlater : Onward cloning cloned later := by
    have hattempt := (Onward.here (s := cloning) (m := cloned)).attempt
    rwa [hiterate] at hattempt
  obtain ⟨-, -, hobjectives, -⟩ := outcome_onward cloning_gentle cloning_square setUp_cloning
    hhoused .here hlater (o := ⟨[⟨0⟩, ⟨1⟩], [_, _], none, 0, 2⟩) rfl
  exact ⟨later, _, rfl, hiterate, hobjectives⟩

/-- The first member stays, and what it is told to be worth is no longer what the outcome
says. -/
theorem outcome_overwritten : ∃ (start later : Machine Unit ℝ) (o : Outcome ℝ),
    (setUp cloning).run.run (.start (.start ()) none) = (.ok (), start) ∧
    outcome.run.run start = (.ok o, start) ∧
    (iterate cloning).run.run start = (.ok (), later) ∧
    o.population.map (fun r => (later.world.look r).fitness?) ≠ o.fitness.map some := by
  obtain ⟨later, hiterate, hfollows⟩ := iterate_cloning
  let o : Outcome ℝ := ⟨[⟨0⟩, ⟨1⟩],
    [standing foundersEffect [0, 1] 0, standing foundersEffect [0, 1] 1], none, 0, 2⟩
  refine ⟨cloned, later, o, setUp_cloning, rfl, hiterate, fun hsame => ?_⟩
  have hlater : (later.world.look ⟨0⟩).fitness? = some (standing copiesEffect [0, 2] 0) :=
    hfollows.fitness_eq 0 (by decide)
  have hfirst : (later.world.look ⟨0⟩).fitness? = some (standing foundersEffect [0, 1] 0) :=
    (List.cons.inj hsame).1
  have hafter : standing copiesEffect [0, 2] 0 = -1 := by
    simp [standing, copiesEffect, cloning, Scheme.effect, Scheme.scaleOf, Scalar.exp,
      ExactScalar.exp]
  have hbefore : standing foundersEffect [0, 1] 0 = -Real.exp (-1) := by
    simp [standing, foundersEffect, cloning, Scheme.effect, Scheme.scaleOf, Scalar.exp,
      ExactScalar.exp]
  have hequal := Option.some.inj (hlater.symm.trans hfirst)
  have hlow : Real.exp (-1) < 1 := Real.exp_lt_one_iff.mpr (by norm_num)
  rw [hafter, hbefore] at hequal
  linarith

end Machine
end ParetoSearch
