import ParetoSearch.Proofs.Arithmetic.Extended
import ParetoSearch.Proofs.Search.Accounts

/-!
# When measuring fails

A generation measures its offspring before it counts, archives or joins any of them, and
a search that is set up does so with its founders.  So where measuring fails, whichever
solution it fails at, the machine is as before the call apart from its world, and in the
world no member and no archived solution has changed (`Machine.measure_fails`).  As before
the call does not mean without members: an earlier attempt to set the search up may have
failed later than that, and then its founders are there (`Machine.setUp_fails_inhabited`).

This is so in every state that calls can lead to (`Machine.Reached`), calls that failed
among them.  What is needed of such a state is that the store has the members and the
archived solutions (`Machine.Lodged`), which makes them different from all offspring.
-/

namespace ParetoSearch

variable {σ α : Type} [Scalar α]

/-- The store has not shrunk, and it has the solutions. -/
structure World.Lodges (w w' : World σ α) (solutions : List Ref) : Prop where
  size_le : w.store.size ≤ w'.store.size
  stored : ∀ r ∈ solutions, r.index < w'.store.size

omit [Scalar α] in
theorem World.Lodges.mono {w w' w'' : World σ α} {solutions : List Ref}
    (h : w.Lodges w' solutions) (hsize : w'.store.size ≤ w''.store.size) :
    w.Lodges w'' solutions :=
  ⟨Nat.le_trans h.size_le hsize, fun r hr => Nat.lt_of_lt_of_le (h.stored r hr) hsize⟩

/-- From some size of the store on, founders are in the store. -/
def Search.Lodges (s : Search σ α) (size : Nat) : Prop :=
  ∀ w, size ≤ w.store.size → s.founders.Ends w (fun founders w' => w.Lodges w' founders)
    fun _ w' => w.store.size ≤ w'.store.size

/-- Sampling adds one solution that is still to be measured, unless it fails. -/
theorem Initialization.sample_adds (i : Initialization σ α) (w : World σ α) :
    i.sample.Ends w
      (fun r w' => r = ⟨w.store.size⟩ ∧ ∃ blank x sources, i.problem.newSolution = .ok blank ∧
        w' = { w with
          store := (w.store.insert { blank with decision := x }).1, sources := sources })
      fun _ w' => ∃ sources, w' = { w with sources := sources } := by
  rw [sample]
  refine Work.Ends.bind (P := fun blank w' => w' = w ∧ i.problem.newSolution = .ok blank)
    (Work.ends_lift (fun _ hblank => ⟨rfl, hblank⟩) fun _ _ => ⟨w.sources, rfl⟩) ?_
  intro blank w' hsame
  rw [hsame.1]
  refine ((Work.ends_within (Work.ends_trivial i.sampler w.sources)).mono (fun _ _ h => h) ?_).bind
    ?_
  · intro e _ hend
    obtain ⟨sources, rfl, -⟩ := hend
    exact ⟨sources, rfl⟩
  · intro decision _ hend
    obtain ⟨sources, rfl, -⟩ := hend
    split
    case isTrue => exact ⟨sources, rfl⟩
    case isFalse =>
      exact Work.ends_of_run rfl ⟨rfl, blank, decision, sources, hsame.2, rfl⟩

/-- The usual founders are in the store if those that are brought along are. -/
theorem Assembly.search_lodges {a : Assembly σ α} {size : Nat}
    (h : ∀ r ∈ a.initialization.injected, r.index < size) : a.search.Lodges size := by
  intro w hsize
  show a.initialization.populate.Ends w _ _
  rw [Initialization.populate]
  refine Work.Ends.bind (P := fun sampled w' => w.Lodges w' sampled) ?_ ?_
  · refine Work.ends_mapM ⟨Nat.le_refl _, fun r hr => absurd hr List.not_mem_nil⟩ ?_
    intro _ _ sampled v hv
    refine (a.initialization.sample_adds v).mono ?_ ?_
    · intro r _ hend
      obtain ⟨rfl, blank, x, sources, -, rfl⟩ := hend
      let sampled : Solution (Tensor α) α := { blank with decision := x }
      have hgrown : (v.store.insert sampled).1.size = v.store.size + 1 := Array.size_push _
      have hnext : v.store.size ≤ (v.store.insert sampled).1.size := hgrown ▸ Nat.le_succ _
      refine ⟨Nat.le_trans hv.size_le hnext, ?_⟩
      rw [List.forall_mem_append, List.forall_mem_singleton]
      exact ⟨fun q hq => Nat.lt_of_lt_of_le (hv.stored q hq) hnext, hgrown ▸ Nat.lt_succ_self _⟩
    · intro e _ hend
      obtain ⟨sources, rfl⟩ := hend
      exact hv.size_le
  · intro sampled w' hw'
    refine Work.ends_pure.mpr ⟨hw'.size_le, ?_⟩
    rw [List.forall_mem_append]
    exact ⟨fun r hr => Nat.lt_of_lt_of_le (h r hr) (Nat.le_trans hsize hw'.size_le), hw'.stored⟩

namespace Machine

variable {s : Search σ α} {m t : Machine σ α} {size : Nat}

/-! ## Members that are in the store -/

/-- The store has at least a size, and has the members and those in the archive. -/
structure Lodged (size : Nat) (m : Machine σ α) : Prop where
  size_le : size ≤ m.world.store.size
  stored : m.Stored
  archived : ∀ a, m.archive = some a → ∀ r ∈ a.members, r.index < m.world.store.size

namespace Lodged

theorem grown (h : m.Lodged size) {w : World σ α} (hw : m.world.store.size ≤ w.store.size) :
    Lodged size { m with world := w } where
  size_le := Nat.le_trans h.size_le hw
  stored r hr := Nat.lt_of_lt_of_le (h.stored r hr) hw
  archived a ha r hr := Nat.lt_of_lt_of_le (h.archived a ha r hr) hw

theorem enrolled (h : m.Lodged size) {w : World σ α} {solutions : List Ref}
    (hsolutions : ∀ r ∈ solutions, r.index < m.world.store.size) :
    Lodged size { m with archive := enrolled m.archive w solutions } where
  size_le := h.size_le
  stored := h.stored
  archived := by
    intro a ha r hr
    obtain ⟨kept, hkept, rfl⟩ := Option.map_eq_some_iff.mp ha
    rcases Container.mem_of_addAll hr with hold | hnew
    · exact h.archived kept hkept r hold
    · exact hsolutions r hnew

theorem joined (h : m.Lodged size) {w : World σ α} {solutions : List Ref}
    (hw : m.world.Lodges w solutions) : (m.joined w solutions).Lodged size := by
  obtain ⟨hsize, hstored, harchived⟩ := (h.grown hw.size_le).enrolled (w := w) hw.stored
  refine ⟨hsize, fun r hr => ?_, harchived⟩
  rcases List.mem_append.mp hr with hold | hnew
  · exact hstored r hold
  · exact hw.stored r hnew

theorem refits (h : m.Lodged size) (hrefits : m.Refits t) : t.Lodged size where
  size_le := hrefits.annotated.size_eq ▸ h.size_le
  stored := hrefits.stored h.stored
  archived a ha r hr := by
    rw [hrefits.archive_eq] at ha
    rw [hrefits.annotated.size_eq]
    exact h.archived a ha r hr

/-- Solutions that did not join may be in the archive. -/
theorem refused (h : m.Lodged size) {e : Fault α} (hstalled : m.Stalled t)
    (hrefused : m.Refused (fun solutions w => m.world.Lodges w solutions)
      (fun _ w => m.world.store.size ≤ w.store.size) e t) : t.Lodged size := by
  have hmembers : m.world.store.size ≤ t.world.store.size → t.Stored := by
    intro hw r hr
    rw [hstalled.population_eq] at hr
    exact Nat.lt_of_lt_of_le (h.stored r hr) hw
  rcases hrefused with ⟨hw, harchive⟩ | ⟨solutions, a, hw, -, -, harchive⟩
  · obtain ⟨hsize, -, harchived⟩ := h.grown hw
    exact ⟨hsize, hmembers hw, fun a ha => harchived a (harchive ▸ ha)⟩
  · obtain ⟨hsize, -, harchived⟩ := (h.grown hw.size_le).enrolled (w := t.world) hw.stored
    exact ⟨hsize, hmembers hw.size_le, fun a ha => harchived a (harchive ▸ ha)⟩

end Lodged

theorem iterate_lodged (hs : s.Gentle) (h : m.Lodged size) :
    (iterate s).Ends m (fun _ t => t.Lodged size) fun _ t => t.Lodged size := by
  refine iterate_halves (fun _ => h)
    (fun hready => (merge_gentle hs hready).mono (fun _ _ h => h) ?_) ?_
  · intro e t hend
    obtain ⟨hstalled, hrefused⟩ := hend
    exact h.refused hstalled (hrefused.mono
      (fun _ hG => ⟨hG.1.size_le, hG.2.stored⟩) fun hworld => hworld.size_le)
  · intro offspring _ hend
    obtain ⟨world, ⟨hworld, hfresh⟩, rfl⟩ := hend
    have hjoined := h.joined ⟨hworld.size_le, hfresh.stored⟩
    refine (settle_refits s _ _).mono ?_ fun _ _ hrefits => hjoined.refits hrefits
    intro _ _ hend
    obtain ⟨u, rfl, hrefits⟩ := hend
    obtain ⟨hsize, hstored, harchived⟩ := hjoined.refits hrefits
    exact ⟨hsize, hstored, harchived⟩

theorem setUp_lodged (hs : s.Gentle) (hfounders : s.Lodges size) (h : m.Lodged size) :
    (setUp s).Ends m (fun _ t => t.Lodged size) fun _ t => t.Lodged size := by
  have hmeasured : ∀ founders w, m.world.Lodges w founders →
      (s.measure (founders.filter fun r => !(w.look r).evaluated)).Ends w
        (fun _ w' => m.world.Lodges w' founders) fun _ w' =>
          m.world.store.size ≤ w'.store.size := fun founders w hw =>
    (hs.measure_touches _ w).mono (fun _ _ hw' => hw.mono hw'.size_le)
      fun _ _ hw' => Nat.le_trans hw.size_le hw'.size_le
  refine setUp_halves (fun _ => h) (fun hready =>
    (found_ends hready (hfounders m.world h.size_le) hmeasured).mono (fun _ _ h => h) ?_) ?_
  · intro e t hend
    obtain ⟨hstalled, hrefused⟩ := hend
    exact h.refused hstalled hrefused
  · intro founders _ hend
    obtain ⟨world, hworld, rfl⟩ := hend
    have hjoined := h.joined hworld
    refine (launch_refits s _).mono ?_ ?_
    · intro _ _ hend
      obtain ⟨u, rfl, hrefits⟩ := hend
      obtain ⟨hsize, hstored, harchived⟩ := hjoined.refits hrefits
      exact ⟨hsize, hstored, harchived⟩
    · intro e _ hsame
      subst hsame
      exact hjoined

/-! ## Reachable states -/

/-- The store does not shrink while an observer is told of a generation. -/
def Act.Grows : Act σ α → Prop
  | .run _ (some f) => ∀ o i w, (f o i).Ends w (fun _ w' => w.store.size ≤ w'.store.size)
      fun _ w' => w.store.size ≤ w'.store.size
  | _ => True

/-- What calls, whether they fail or not, make of a machine. -/
inductive Reached (s : Search σ α) (origin : Machine σ α) : Machine σ α → Prop where
  | origin : Reached s origin origin
  | call {m : Machine σ α} (h : Reached s origin m) (act : Act σ α) (hact : act.Grows) :
    Reached s origin ((act.perform s).run.run m).2

/-- What setting up, generations and the observer keep, a call keeps. -/
theorem perform_keeps {I : Machine σ α → Prop} {act : Act σ α}
    (hsetUp : ∀ t, I t → (setUp s).Ends t (fun _ u => I u) fun _ u => I u)
    (hiterate : ∀ t, I t → (iterate s).Ends t (fun _ u => I u) fun _ u => I u)
    (hobserver : ∀ generations f, act = .run generations (some f) →
      ∀ (t : Machine σ α) (o : Outcome α) (i : Nat), I t →
        (f o i).Ends t.world (fun _ w => I { t with world := w })
          fun _ w => I { t with world := w })
    (h : I m) : (act.perform s).Ends m (fun _ t => I t) fun _ t => I t := by
  cases act with
  | setUp => exact hsetUp m h
  | iterate => exact hiterate m h
  | step =>
    show (step s).Ends m _ _
    rw [step, Work.ends_get_bind]
    split
    · exact hiterate m h
    · exact hsetUp m h
  | run generations observer =>
    have hrun : (Machine.run s generations observer).Ends m (fun o t => I t ∧ t.Gives o)
        fun _ t => I t :=
      run_keeps (fun _ _ h => h) (fun _ => hsetUp m h) hiterate
        (fun f hf t o i ht _ => hobserver generations f (by rw [hf]) t o i ht) h fun _ => h
    exact hrun.bind fun _ _ ht => ht.1

/-- A machine that is set up stays so. -/
theorem iterate_ready (h : m.ready = true) :
    (iterate s).Ends m (fun _ t => t.ready = true) fun _ t => t.ready = true := by
  have hmerge := merge_ends (s := s) (P := fun _ _ => True) (G := fun _ _ => True)
    (F := fun _ _ => True) h trivial (fun _ _ _ _ => Work.ends_trivial _ _)
    (fun _ => trivial) fun _ _ _ _ => Work.ends_trivial _ _
  refine iterate_halves (fun _ => h) (fun _ => hmerge.mono (fun _ _ h => h) ?_) ?_
  · intro e t hend
    obtain ⟨hstalled, -⟩ := hend
    exact hstalled.ready_eq.trans h
  · intro offspring _ hend
    obtain ⟨world, -, rfl⟩ := hend
    refine (settle_refits s _ _).mono ?_ fun _ _ hrefits => hrefits.ready_eq.trans h
    intro _ _ hend
    obtain ⟨u, rfl, hrefits⟩ := hend
    exact hrefits.ready_eq.trans h

theorem setUp_ready :
    (setUp s).Ends m (fun _ t => t.ready = true) fun _ t => t.ready = m.ready := by
  refine setUp_halves (fun _ => rfl) (fun hready => (found_ends (P := fun _ _ => True)
    (G := fun _ _ => True) (F := fun _ _ => True) hready (Work.ends_trivial _ _)
      fun _ _ _ => Work.ends_trivial _ _).mono (fun _ _ h => h) ?_) ?_
  · intro e t hend
    obtain ⟨hstalled, -⟩ := hend
    exact hstalled.ready_eq
  · intro founders _ hend
    obtain ⟨world, -, rfl⟩ := hend
    refine (launch_refits s _).mono ?_ ?_
    · intro _ _ hend
      obtain ⟨u, rfl, -⟩ := hend
      rfl
    · intro e _ hsame
      subst hsame
      rfl

theorem perform_ready (h : m.ready = true) (act : Act σ α) :
    (act.perform s).Ends m (fun _ t => t.ready = true) fun _ t => t.ready = true := by
  refine perform_keeps (fun t ht => ?_) (fun t ht => iterate_ready ht) ?_ h
  · exact setUp_ready.mono (fun _ _ h => h) fun _ _ h => h.trans ht
  · exact fun _ f _ t o i ht => (Work.ends_trivial (f o i) t.world).mono (fun _ _ _ => ht)
      fun _ _ _ => ht

theorem run_run {generations : Int} (hnegative : ¬ generations < 0)
    (observer : Option (Observer σ α)) (m : Machine σ α) :
    (run s generations observer).run.run m =
      ((if m.ready then pure () else setUp s) >>= fun _ =>
        proceed s observer generations.toNat 0 >>= fun _ => outcome).run.run m := by
  rw [run, if_neg hnegative]
  beta_reduce
  rw [Work.run_bind (Work.run_get m)]
  cases m.ready <;> rfl

/-- A call on a machine that is not set up sets it up, or changes nothing, or is an attempt
to set it up. -/
theorem perform_of_not_ready (h : m.ready = false) (act : Act σ α) :
    let t := ((act.perform s).run.run m).2
    t.ready = true ∨ t = m ∨ t = ((setUp s).run.run m).2 := by
  cases act with
  | setUp => exact Or.inr (Or.inr rfl)
  | iterate =>
    refine Or.inr (Or.inl ?_)
    rw [Act.perform, iterate_run, Work.run_bind_fault (merge_not_ready h)]
  | step =>
    refine Or.inr (Or.inr ?_)
    rw [Act.perform, step, Work.run_bind (Work.run_get m), h]
    rfl
  | run generations observer =>
    by_cases hnegative : generations < 0
    · refine Or.inr (Or.inl ?_)
      rw [Act.perform, run, if_pos hnegative]
      rfl
    · have hstate : ∀ t, (((Act.run generations observer).perform s).run.run t).2 =
          (((if t.ready then pure () else setUp s) >>= fun _ =>
            proceed s observer generations.toNat 0 >>= fun _ => outcome).run.run t).2 := by
        intro t
        rw [← run_run hnegative, Act.perform, ExceptT.run_bind, StateT.run_bind]
        rcases (run s generations observer).run.run t with ⟨e | o, u⟩ <;> rfl
      cases hsetUp : (setUp s).run.run m with
      | mk answer u =>
        cases answer with
        | error e =>
          refine Or.inr (Or.inr ?_)
          rw [hstate, h]
          simp only [Bool.false_eq_true, if_false]
          rw [Work.run_bind_fault hsetUp]
        | ok done =>
          -- From here on it is a run of the machine that is set up.
          have hu : u.ready = true := setUp_ready.of_ok hsetUp
          have hready := (perform_ready (s := s) hu (.run generations observer)).state
          refine Or.inl ?_
          rw [hstate, hu] at hready
          rw [hstate, h]
          simp only [Bool.false_eq_true, if_false]
          rw [Work.run_bind hsetUp]
          exact hready

/-! ## Attempts that fail while measuring -/

/-- Where offspring cannot be measured, only the world is not as before. -/
theorem iterate_of_measure_error (hready : m.ready = true) {offspring : List Ref}
    {bred : Machine σ α} {e : Fault α} {w : World σ α}
    (hbreed : (breed s m.population.length).run.run m = (.ok offspring, bred))
    (hmeasure : (s.measure offspring).run.run bred.world = (.error e, w)) :
    (merge s).run.run m = (.error e, { m with world := w }) ∧
      (iterate s).run.run m = (.error e, { m with world := w }) := by
  obtain ⟨world, rfl⟩ := breed_world hbreed
  have hmerge : (merge s).run.run m = (.error e, { m with world := w }) := by
    rw [merge_run hready hbreed, take, bind_assoc]
    exact Work.run_bind_fault (outside_run (m := { m with world := world }) hmeasure) _
  refine ⟨hmerge, ?_⟩
  rw [iterate_run]
  exact Work.run_bind_fault hmerge _

/-- Where founders are not made, or cannot be measured, only the world is not as before. -/
theorem setUp_of_founders_error (hready : m.ready = false) {e : Fault α} {w : World σ α}
    (hfounders : s.founders.run.run m.world = (.error e, w)) :
    (setUp s).run.run m = (.error e, { m with world := w }) := by
  have hnew : ¬ m.ready = true := by simp [hready]
  rw [setUp, Work.run_bind (Work.run_get m), if_neg hnew]
  exact Work.run_bind_fault (outside_run hfounders) _

theorem setUp_of_measure_error (hready : m.ready = false) {founders : List Ref} {e : Fault α}
    {v w : World σ α} (hfounders : s.founders.run.run m.world = (.ok founders, v))
    (hmeasure : (s.measure (founders.filter fun r => !(v.look r).evaluated)).run.run v =
      (.error e, w)) :
    (setUp s).run.run m = (.error e, { m with world := w }) := by
  have hnew : ¬ m.ready = true := by simp [hready]
  rw [setUp, Work.run_bind (Work.run_get m), if_neg hnew]
  beta_reduce
  rw [Work.run_bind (outside_run hfounders), Work.run_bind (Work.run_get _)]
  simp only [take, bind_assoc]
  exact Work.run_bind_fault (outside_run (m := { m with world := v }) hmeasure) _

/-- Setting up got through with measuring its founders, and failed all the same. -/
def Derailed (s : Search σ α) (m : Machine σ α) : Prop :=
  m.ready = false ∧ ∃ founders v w e t, s.founders.run.run m.world = (.ok founders, v) ∧
    (s.measure (founders.filter fun r => !(v.look r).evaluated)).run.run v = (.ok (), w) ∧
    (setUp s).run.run m = (.error e, t)

/-- After an attempt to set up, a new machine is set up, or as new, or the attempt failed
late. -/
theorem setUp_new_or_derailed (w : World σ α) (archive : Option (Container Ref α)) :
    let t := ((setUp s).run.run (start w archive)).2
    t.ready = true ∨ (∃ v, t = start v archive) ∨ Derailed s (start w archive) := by
  cases hfounders : s.founders.run.run w with
  | mk found v =>
    cases found with
    | error e =>
      rw [setUp_of_founders_error (m := start w archive) rfl hfounders]
      exact Or.inr (Or.inl ⟨v, rfl⟩)
    | ok founders =>
      cases hmeasure : (s.measure (founders.filter fun r => !(v.look r).evaluated)).run.run v with
      | mk measured v' =>
        cases measured with
        | error e =>
          rw [setUp_of_measure_error (m := start w archive) rfl hfounders hmeasure]
          exact Or.inr (Or.inl ⟨v', rfl⟩)
        | ok done =>
          cases hsetUp : (setUp s).run.run (start w archive) with
          | mk answer t =>
            cases answer with
            | ok done => exact Or.inl (setUp_ready.of_ok hsetUp)
            | error e =>
              exact Or.inr (Or.inr ⟨rfl, founders, v, v', e, t, hfounders, hmeasure, hsetUp⟩)

/-- A machine that is not set up is as new, unless setting up has failed late once. -/
theorem Reached.new_or_derailed {world : World σ α} {archive : Option (Container Ref α)}
    (h : Reached s (start world archive) m) (hready : m.ready = false) :
    (∃ w, m = start w archive) ∨ ∃ u, Reached s (start world archive) u ∧ Derailed s u ∧
      Reached s ((setUp s).run.run u).2 m := by
  induction h with
  | origin => exact Or.inl ⟨world, rfl⟩
  | @call m h act hact ih =>
    have hbefore : m.ready = false := by
      by_contra hset
      have hstill := (perform_ready (s := s) (Bool.of_not_eq_false hset) act).state
      rw [hready] at hstill
      cases hstill
    rcases ih hbefore with ⟨w, rfl⟩ | ⟨u, hu, hderailed, hlater⟩
    · rcases perform_of_not_ready (s := s) hbefore act with hset | hsame | hattempt
      · rw [hready] at hset
        cases hset
      · exact Or.inl ⟨w, hsame⟩
      · rw [hattempt] at hready ⊢
        rcases setUp_new_or_derailed (s := s) w archive with hset | hnew | hderailed
        · rw [hready] at hset
          cases hset
        · exact Or.inl hnew
        · exact Or.inr ⟨_, h, hderailed, .origin⟩
    · exact Or.inr ⟨u, hu, hderailed, hlater.call act hact⟩

theorem Reached.lodged (hs : s.Gentle) (hfounders : s.Lodges size) {origin : Machine σ α}
    (horigin : origin.Lodged size) (h : Reached s origin m) : m.Lodged size := by
  induction h with
  | origin => exact horigin
  | call _ act hact ih =>
    refine (perform_keeps (fun t ht => setUp_lodged hs hfounders ht)
      (fun t ht => iterate_lodged hs ht) ?_ ih).state
    rintro generations f rfl t o i ht
    exact (hact o i t.world).mono (fun _ _ hw => ht.grown hw) fun _ _ hw => ht.grown hw

/-- What is handed out does not depend on the world. -/
theorem outcome_world (m : Machine σ α) (w : World σ α) :
    (outcome.run.run { m with world := w }).1 = (outcome.run.run m).1 := by
  obtain ⟨world, population, tracker, archive, evaluations, generations, ready⟩ := m
  cases ready with
  | false => rfl
  | true =>
    simp only [outcome]
    rw [Work.run_bind (Work.run_get _), Work.run_bind (Work.run_get _)]
    cases hfitness : tracker.fitness? with
    | error e => rfl
    | ok fitness => rfl

/-- Where measuring fails, at whichever solution and in whatever way, a generation leaves
population, tracker, archive and counters as they were, members and archived solutions
with all that they carry, and so the outcome.  Setting up leaves what it finds: no member
and no evaluation and the archive of the start, or else what an attempt left that failed
after it had measured its founders. -/
theorem measure_fails (hs : s.Gentle) {world : World σ α} {archive : Option (Container Ref α)}
    (hfounders : s.Lodges world.store.size)
    (harchive : ∀ a, archive = some a → ∀ r ∈ a.members, r.index < world.store.size)
    (hm : Reached s (start world archive) m) :
    (∀ offspring bred e w, m.ready = true →
      (breed s m.population.length).run.run m = (.ok offspring, bred) →
      (s.measure offspring).run.run bred.world = (.error e, w) →
        (iterate s).run.run m = (.error e, { m with world := w }) ∧
        (∀ r, (r ∈ m.population ∨ ∃ a, m.archive = some a ∧ r ∈ a.members) →
          w.look r = m.world.look r) ∧
        (outcome.run.run { m with world := w }).1 = (outcome.run.run m).1 ∧
        ∀ o, (outcome.run.run m).1 = .ok o →
          o.objectives w.store = o.objectives m.world.store ∧
            o.front w.store = o.front m.world.store) ∧
    ∀ founders v e w, m.ready = false → s.founders.run.run m.world = (.ok founders, v) →
      (s.measure (founders.filter fun r => !(v.look r).evaluated)).run.run v = (.error e, w) →
        (setUp s).run.run m = (.error e, { m with world := w }) ∧
        (m.population = [] ∧ m.archive = archive ∧ m.evaluations = 0 ∧ m.generations = 0 ∨
          ∃ u, Reached s (start world archive) u ∧ Derailed s u ∧
            Reached s ((setUp s).run.run u).2 m) := by
  have hlodged : m.Lodged world.store.size := hm.lodged hs hfounders
    ⟨Nat.le_refl _, fun r hr => absurd hr List.not_mem_nil, harchive⟩
  constructor
  · intro offspring bred e w hready hbreed hmeasure
    obtain ⟨hmerge, hiterate⟩ := iterate_of_measure_error hready hbreed hmeasure
    have hworld : m.world.Extends w := by
      obtain ⟨-, ⟨hworld, -⟩ | ⟨_, _, ⟨hworld, -⟩, -⟩⟩ := (merge_gentle hs hready).of_error hmerge
      · exact hworld
      · exact hworld
    have hsame : ∀ r, (r ∈ m.population ∨ ∃ a, m.archive = some a ∧ r ∈ a.members) →
        w.look r = m.world.look r := by
      rintro r (hr | ⟨a, ha, hr⟩)
      · exact hworld.look_eq (hlodged.stored r hr)
      · exact hworld.look_eq (hlodged.archived a ha r hr)
    refine ⟨hiterate, hsame, outcome_world m w, fun o ho => ?_⟩
    obtain ⟨-, -, hgives⟩ := outcome_ends.of_ok (Prod.ext ho rfl)
    have hrows : o.objectives w.store = o.objectives m.world.store := by
      have hmap : o.population.map (fun r => (w.store.look r).objectives) =
          o.population.map fun r => (m.world.store.look r).objectives := by
        refine List.map_congr_left fun r hr => ?_
        rw [hgives.population_eq] at hr
        exact congrArg Solution.objectives (hsame r (Or.inl hr))
      rw [Outcome.objectives, Outcome.objectives, hmap]
    exact ⟨hrows, by rw [Outcome.front, Outcome.front, hrows]⟩
  · intro founders v e w hready hfounders hmeasure
    refine ⟨setUp_of_measure_error hready hfounders hmeasure, ?_⟩
    rcases hm.new_or_derailed hready with ⟨w', rfl⟩ | hderailed
    · exact Or.inl ⟨rfl, rfl, rfl, rfl⟩
    · exact Or.inr hderailed

/-- Solutions are measured one by one, as zero in each objective, and the one at some place
cannot be. -/
def measureBut (place : Nat) (solutions : List Ref) : Work (World Unit α) α Unit :=
  solutions.forM fun r =>
    if r.index = place then Work.fail .evaluationFailed
    else do
      World.count fun t => { t with evaluations := t.evaluations + 1 }
      World.update r fun x => .ok { x with objectives := x.objectives.map fun _ => 0 }

theorem measureBut_touches (place : Nat) (solutions : List Ref) :
    (measureBut place solutions : Work (World Unit α) α Unit).Touches solutions := by
  refine Work.touches_forM fun r hr => ?_
  split
  · exact Work.touches_lift _
  · exact Work.touches_bind (Work.touches_count _) fun _ => Work.touches_update hr _

/-- Copies of two founders, of which the second cannot be measured. -/
noncomputable def faltering : Search Unit ℝ := { cloning with measure := measureBut 3 }

theorem faltering_gentle : faltering.Gentle where
  select_touches := cloning_gentle.select_touches
  evolve_ends := cloning_gentle.evolve_ends
  measure_touches := measureBut_touches 3

theorem faltering_lodges (size : Nat) : faltering.Lodges size := fun w _ =>
  (World.insert_mapM_ends _ w).mono (fun _ _ h => ⟨h.1.size_le, h.2.1.stored⟩) fun _ _ h => h.elim

/-- Founders come measured, and so nothing is asked of the problem. -/
theorem setUp_faltering :
    (setUp faltering).run.run (.start (.start ()) none) = (.ok (), cloned) := by
  let brought : World Unit ℝ := ⟨.ofList [⟨default, [0], [], []⟩, ⟨default, [1], [], []⟩], {}, ()⟩
  let founded : Machine Unit ℝ :=
    { Machine.start brought none with population := [⟨0⟩, ⟨1⟩], evaluations := 2 }
  have hcloning : (found cloning).run.run (.start (.start ()) none) =
      (.ok [⟨0⟩, ⟨1⟩], founded) := rfl
  have hlaunch : (launch cloning).run.run founded = (.ok (), cloned) := by
    have hsetUp := setUp_cloning
    rwa [setUp_run, Work.run_bind hcloning] at hsetUp
  have hfaltering : (found faltering).run.run (.start (.start ()) none) =
      (.ok [⟨0⟩, ⟨1⟩], founded) := by
    have hfounders : faltering.founders.run.run (.start ()) = (.ok [⟨0⟩, ⟨1⟩], brought) := rfl
    have hpending : ([⟨0⟩, ⟨1⟩] : List Ref).filter (fun r => !(brought.look r).evaluated) = [] := by
      simp [brought, World.look, Store.look, Store.ofList, Solution.evaluated]
    have hnew : ¬ (start (World.start ()) none : Machine Unit ℝ).ready = true :=
      Bool.false_ne_true
    rw [found, Work.run_bind (Work.run_get _), if_neg hnew]
    beta_reduce
    rw [Work.run_bind (outside_run hfounders), Work.run_bind (Work.run_get _)]
    show ((take faltering [⟨0⟩, ⟨1⟩] (List.filter (fun r => !(brought.look r).evaluated)
      [⟨0⟩, ⟨1⟩])) >>= _).run.run _ = _
    rw [hpending]
    rfl
  rw [setUp_run, Work.run_bind hfaltering]
  exact hlaunch

/-- A search on founders that are given, whose offspring are copies of all members. -/
noncomputable def copying (founders : List (Solution (Tensor (Extended ℝ)) (Extended ℝ)))
    (measure : List Ref → Work (World Unit (Extended ℝ)) (Extended ℝ) Unit) :
    Search Unit (Extended ℝ) where
  founders := founders.mapM World.insert
  measure := measure
  arity := 2
  select := fun population => return population
  evolve := fun parents => do
    let w ← get
    (parents.map fun r => { w.look r with attributes := [] }).mapM World.insert
  scheme := ⟨Scheme.epsilonMatrix, 1, false⟩
  close := return

section

variable {founders : List (Solution (Tensor (Extended ℝ)) (Extended ℝ))}
  {measure : List Ref → Work (World Unit (Extended ℝ)) (Extended ℝ) Unit}

theorem copying_gentle (hmeasure : ∀ solutions, (measure solutions).Touches solutions) :
    (copying founders measure).Gentle where
  select_touches _ w := .refl [] w
  evolve_ends _ w := (World.insert_mapM_ends _ w).mono
    (fun _ _ h => ⟨h.1, h.2.1⟩) fun _ _ h => h.elim
  measure_touches := hmeasure

theorem copying_lodges (size : Nat) : (copying founders measure).Lodges size := fun w _ =>
  (World.insert_mapM_ends _ w).mono (fun _ _ h => ⟨h.1.size_le, h.2.1.stored⟩) fun _ _ h => h.elim

end

/-- Two founders, of which the second cannot be measured. -/
noncomputable def stillborn : Search Unit (Extended ℝ) :=
  copying [.unevaluated default 1 0, .unevaluated default 1 0] (measureBut 1)

/-- Both times the first of two solutions has been measured when the second fails. -/
theorem measure_fails_second :
    (∃ w, (iterate faltering).run.run cloned =
        (.error .evaluationFailed, { cloned with world := w }) ∧
      w.tally.evaluations = cloned.world.tally.evaluations + 1 ∧
      w.store.size = cloned.world.store.size + 2 ∧
      ∀ r ∈ cloned.population, w.look r = cloned.world.look r) ∧
    ∃ w, (setUp stillborn).run.run (start (.start ()) none) =
        (.error .evaluationFailed, start w none) ∧
      w.tally.evaluations = 1 ∧ w.store.size = 2 := by
  constructor
  · have hreached : Reached faltering (start (.start ()) none) cloned := by
      have horigin : Reached faltering (start (.start ()) none) (start (.start ()) none) := .origin
      have hcall := horigin.call .setUp trivial
      rwa [Act.perform, setUp_faltering] at hcall
    obtain ⟨hmeasure, -⟩ := measure_fails faltering_gentle (faltering_lodges _)
      (fun a ha => by cases ha) hreached
    have hbreed : (breed faltering 2).run.run cloned = (.ok [⟨2⟩, ⟨3⟩], _) :=
      breed_of_family (Nat.succ_pos 1) rfl (Nat.le_refl 2)
    obtain ⟨hiterate, hsame, -⟩ := hmeasure [⟨2⟩, ⟨3⟩] _ .evaluationFailed _ rfl hbreed rfl
    exact ⟨_, hiterate, rfl, rfl, fun r hr => hsame r (Or.inl hr)⟩
  · have horigin : Reached stillborn (start (.start ()) none) (start (.start ()) none) := .origin
    obtain ⟨-, hmeasure⟩ := measure_fails (copying_gentle (measureBut_touches 1)) (copying_lodges _)
      (fun a ha => by cases ha) horigin
    obtain ⟨hsetUp, -⟩ := hmeasure [⟨0⟩, ⟨1⟩] _ .evaluationFailed _ rfl rfl rfl
    exact ⟨_, hsetUp, rfl, rfl⟩

/-- Founders with one objective and with two, and the third solution cannot be measured. -/
noncomputable def mismatched : Search Unit (Extended ℝ) :=
  copying [.unevaluated default 1 0, .unevaluated default 2 0] (measureBut 2)

/-- Objectives that differ in number have no fitness, and so the first attempt fails once its
founders are measured.  When measuring fails in the second, the machine has members and
evaluations. -/
theorem setUp_fails_inhabited : mismatched.Gentle ∧ ∃ m v w,
    (setUp mismatched).run.run (start (.start ()) none) = (.error .shapeMismatch, m) ∧
    mismatched.founders.run.run m.world = (.ok [⟨2⟩, ⟨3⟩], v) ∧
    (mismatched.measure [⟨2⟩, ⟨3⟩]).run.run v = (.error .evaluationFailed, w) ∧
    (setUp mismatched).run.run m = (.error .evaluationFailed, { m with world := w }) ∧
    m.ready = false ∧ m.population = [⟨0⟩, ⟨1⟩] ∧ m.evaluations = 2 :=
  ⟨copying_gentle (measureBut_touches 2), _, _, _, rfl, rfl, rfl, rfl, rfl, rfl, rfl⟩

end Machine
end ParetoSearch
