import ParetoSearch.Proofs.Search.Generation
import ParetoSearch.Proofs.Fitness.Upkeep

/-!
# What a search leaves alone

Solutions are shared, so whoever holds a reference sees what the run does to the
solution behind it.  The second half of a generation writes fitness and nothing else:
decisions, objectives and constraints stay (`Machine.settle_ends`).  It ends with the
tracker's fitness written into the members that are left (`Machine.Written`), which is
also why no removal fails.
-/

namespace ParetoSearch

variable {X σ α : Type}

/-! ## Worlds that grow -/

namespace World

/-- There may be new solutions, and old ones are what they were, but those in a list. -/
structure ExtendsBut (changed : List Ref) (w w' : World σ α) : Prop where
  size_le : w.store.size ≤ w'.store.size
  look_eq : ∀ r, r.index < w.store.size → r ∉ changed → w'.look r = w.look r

/-- Old solutions are what they were. -/
abbrev Extends (w w' : World σ α) : Prop := ExtendsBut [] w w'

/-- Old solutions are what they were apart from their annotations. -/
structure Keeps (w w' : World σ α) : Prop where
  size_le : w.store.size ≤ w'.store.size
  same : ∀ r, r.index < w.store.size → (w'.look r).SameData (w.look r)

variable {w w' w'' : World σ α}

theorem ExtendsBut.of_store_eq (changed : List Ref) (h : w'.store = w.store) :
    w.ExtendsBut changed w' :=
  ⟨Nat.le_of_eq (by rw [h]), fun _ _ _ => by rw [look, look, h]⟩

theorem ExtendsBut.refl (changed : List Ref) (w : World σ α) : w.ExtendsBut changed w :=
  .of_store_eq changed rfl

theorem ExtendsBut.trans {changed : List Ref} (h : w.ExtendsBut changed w')
    (h' : w'.ExtendsBut changed w'') : w.ExtendsBut changed w'' := by
  refine ⟨Nat.le_trans h.size_le h'.size_le, fun r hr hold => ?_⟩
  rw [h'.look_eq r (Nat.lt_of_lt_of_le hr h.size_le) hold, h.look_eq r hr hold]

theorem ExtendsBut.mono {changed more : List Ref} (h : w.ExtendsBut changed w')
    (hmore : ∀ r ∈ changed, r ∈ more) : w.ExtendsBut more w' :=
  ⟨h.size_le, fun r hr hold => h.look_eq r hr fun hmem => hold (hmore r hmem)⟩

theorem Extends.refl (w : World σ α) : w.Extends w := ExtendsBut.refl [] w

theorem Extends.look_eq (h : w.Extends w') {r : Ref} (hr : r.index < w.store.size) :
    w'.look r = w.look r := ExtendsBut.look_eq h r hr List.not_mem_nil

theorem Extends.trans (h : w.Extends w') (h' : w'.Extends w'') : w.Extends w'' :=
  ExtendsBut.trans h h'

/-- Changes to solutions that are new since then do not count. -/
theorem Extends.trans_but {changed : List Ref} (h : w.Extends w') (h' : w'.ExtendsBut changed w'')
    (hnew : ∀ r ∈ changed, w.store.size ≤ r.index) : w.Extends w'' := by
  refine ⟨Nat.le_trans h.size_le h'.size_le, fun r hr _ => ?_⟩
  have hold : r ∉ changed := fun hmem => Nat.not_lt_of_le (hnew r hmem) hr
  rw [h'.look_eq r (Nat.lt_of_lt_of_le hr h.size_le) hold, h.look_eq hr]

theorem Extends.keeps (h : w.Extends w') : w.Keeps w' :=
  ⟨h.size_le, fun r hr => by rw [h.look_eq hr]; exact .refl _⟩

theorem Keeps.refl (w : World σ α) : w.Keeps w := (Extends.refl w).keeps

theorem Keeps.trans (h : w.Keeps w') (h' : w'.Keeps w'') : w.Keeps w'' :=
  ⟨Nat.le_trans h.size_le h'.size_le, fun r hr =>
    (h'.same r (Nat.lt_of_lt_of_le hr h.size_le)).trans (h.same r hr)⟩

/-- Reached by writing fitness into solutions. -/
inductive Annotated (w : World σ α) : World σ α → Prop where
  | refl : Annotated w w
  | write {w' : World σ α} (r : Ref) (value : α) (h : Annotated w w') :
    Annotated w { w' with store := w'.store.setFitness r value }

namespace Annotated

theorem annotate (w : World σ α) (members : List Ref) (fitness : List α) :
    w.Annotated { w with store := Tracker.annotate w.store members fitness } :=
  Tracker.annotate_induction (P := fun store => w.Annotated { w with store := store }) members
    fitness .refl fun _ r value h => .write r value h

theorem trans (h : w.Annotated w') (h' : w'.Annotated w'') : w.Annotated w'' := by
  induction h' with
  | refl => exact h
  | write r value _ ih => exact .write r value ih

theorem size_eq (h : w.Annotated w') : w'.store.size = w.store.size := by
  induction h with
  | refl => rfl
  | write r value _ ih => exact (Store.size_setFitness _ r value).trans ih

theorem tally_eq (h : w.Annotated w') : w'.tally = w.tally := by
  induction h with
  | refl => rfl
  | write r value _ ih => exact ih

theorem sameData (h : w.Annotated w') (q : Ref) : (w'.look q).SameData (w.look q) := by
  induction h with
  | refl => exact .refl _
  | write r value _ ih => exact (Store.sameData_setFitness _ r q value).trans ih

theorem keeps (h : w.Annotated w') : w.Keeps w' :=
  ⟨Nat.le_of_eq h.size_eq.symm, fun r _ => h.sameData r⟩

end Annotated

end World

/-! ## The first half of a generation -/

namespace World

/-- Solutions that were not there before. -/
structure New (w w' : World σ α) (children : List Ref) : Prop where
  new : ∀ r ∈ children, w.store.size ≤ r.index
  stored : ∀ r ∈ children, r.index < w'.store.size

/-- Different solutions that were not there before. -/
structure Fresh (w w' : World σ α) (children : List Ref) : Prop extends w.New w' children where
  nodup : children.Nodup

theorem New.nil (w w' : World σ α) : w.New w' [] :=
  ⟨fun _ hr => absurd hr List.not_mem_nil, fun _ hr => absurd hr List.not_mem_nil⟩

theorem New.append {w w' w'' : World σ α} {older newer : List Ref} (holder : w.New w' older)
    (hsize : w.store.size ≤ w'.store.size) (hsize' : w'.store.size ≤ w''.store.size)
    (hnewer : w'.New w'' newer) : w.New w'' (older ++ newer) := by
  constructor
  · intro r hr
    rcases List.mem_append.mp hr with hr | hr
    · exact holder.new r hr
    · exact Nat.le_trans hsize (hnewer.new r hr)
  · intro r hr
    rcases List.mem_append.mp hr with hr | hr
    · exact Nat.lt_of_lt_of_le (holder.stored r hr) hsize'
    · exact hnewer.stored r hr

theorem New.mono {w w' v v' : World σ α} {children : List Ref} (h : w'.New v children)
    (hsize : w.store.size ≤ w'.store.size) (hsize' : v.store.size ≤ v'.store.size) :
    w.New v' children :=
  ⟨fun r hr => Nat.le_trans hsize (h.new r hr),
    fun r hr => Nat.lt_of_lt_of_le (h.stored r hr) hsize'⟩

theorem Fresh.nil (w w' : World σ α) : w.Fresh w' [] := ⟨.nil w w', List.nodup_nil⟩

theorem Fresh.append {w w' w'' : World σ α} {older newer : List Ref} (holder : w.Fresh w' older)
    (hsize : w.store.size ≤ w'.store.size) (hsize' : w'.store.size ≤ w''.store.size)
    (hnewer : w'.Fresh w'' newer) : w.Fresh w'' (older ++ newer) := by
  refine ⟨holder.toNew.append hsize hsize' hnewer.toNew, ?_⟩
  rw [List.nodup_append]
  refine ⟨holder.nodup, hnewer.nodup, fun r hr q hq hrq => ?_⟩
  subst hrq
  exact absurd (holder.stored r hr) (Nat.not_lt_of_le (hnewer.new r hq))

theorem look_insert_of_lt {w : World σ α} (x : Solution (Tensor α) α) {r : Ref}
    (hr : r.index < w.store.size) : (w.store.insert x).1.look r = w.look r := by
  simp only [look, Store.look, Store.insert]
  unfold Store.size at hr
  rw [Array.getD_eq_getD_getElem?, Array.getD_eq_getD_getElem?, Array.getElem?_push_lt hr,
    Array.getElem?_eq_getElem hr]

theorem look_insert_self (w : World σ α) (x : Solution (Tensor α) α) :
    (w.store.insert x).1.look ⟨w.store.size⟩ = x := by
  simp [Store.look, Store.insert, Store.size, Array.getD_eq_getD_getElem?]

theorem insert_extends (w : World σ α) (x : Solution (Tensor α) α) :
    w.Extends { w with store := (w.store.insert x).1 } := by
  refine ⟨?_, fun r hr _ => look_insert_of_lt x hr⟩
  simp [Store.size, Store.insert]

theorem insert_mapM_ends (xs : List (Solution (Tensor α) α)) (w : World σ α) :
    (xs.mapM insert).Ends w (fun children w' => w.Extends w' ∧ w.Fresh w' children ∧
      children.map w'.look = xs) fun _ _ => False := by
  induction xs generalizing w with
  | nil => exact ⟨.refl w, .nil w w, rfl⟩
  | cons x rest ih =>
    have hsize : (w.store.insert x).1.size = w.store.size + 1 := Array.size_push _
    have hfirst : w.Fresh { w with store := (w.store.insert x).1 } [⟨w.store.size⟩] := by
      refine ⟨⟨?_, ?_⟩, List.nodup_singleton _⟩ <;> simp [hsize]
    rw [List.mapM_cons]
    refine Work.Ends.bind (P := fun r w' => r = ⟨w.store.size⟩ ∧
      w' = { w with store := (w.store.insert x).1 }) ⟨rfl, rfl⟩ ?_
    rintro _ _ ⟨rfl, rfl⟩
    refine (ih _).bind ?_
    rintro children w' ⟨hext, hfresh, hlooks⟩
    refine Work.ends_pure.mpr ⟨(insert_extends w x).trans hext, ?_, ?_⟩
    · exact hfirst.append (insert_extends w x).size_le hext.size_le hfresh
    · rw [List.map_cons, hlooks, hext.look_eq (hfirst.stored _ (List.mem_singleton_self _))]
      exact congrArg (· :: rest) (look_insert_self w x)

end World

/-- Work that changes no solution but those in a list. -/
def Work.Touches {β : Type} (changed : List Ref) (work : Work (World σ α) α β) : Prop :=
  ∀ w, work.Ends w (fun _ w' => w.ExtendsBut changed w') fun _ w' => w.ExtendsBut changed w'

/-- A search whose parts leave the solutions that are there as they are: measuring changes
what it measures, and offspring are fresh. -/
structure Search.Gentle (s : Search σ α) : Prop where
  select_touches : ∀ population, (s.select population).Touches []
  evolve_ends : ∀ parents w, (s.evolve parents).Ends w
    (fun children w' => w.Extends w' ∧ w.Fresh w' children) fun _ w' => w.Extends w'
  measure_touches : ∀ solutions, (s.measure solutions).Touches solutions

namespace Machine

variable [Scalar α] {s : Search σ α} {m : Machine σ α}

omit [Scalar α] in
theorem family_ends (hs : s.Gentle) (population : List Ref) (w : World σ α) :
    (family s population).Ends w (fun children w' => w.Extends w' ∧ w.Fresh w' children)
      fun _ w' => w.Extends w' := by
  rw [family]
  refine (hs.select_touches population w).bind fun parents w' hselect => ?_
  refine (hs.evolve_ends parents w').mono ?_ ?_
  · rintro children w'' ⟨hevolve, hfresh⟩
    exact ⟨hselect.trans hevolve, hfresh.toNew.mono hselect.size_le (Nat.le_refl _), hfresh.nodup⟩
  · intro e w'' hevolve
    exact hselect.trans hevolve

/-- Until they join, offspring are the only solutions that change. -/
theorem merge_gentle (hs : s.Gentle) (hready : m.ready = true) :
    (merge s).Ends m
      (fun offspring t => ∃ world, (m.world.Extends world ∧ m.world.Fresh world offspring) ∧
        t = m.joined world offspring)
      fun e t => m.Stalled t ∧
        m.Refused (fun offspring w => m.world.Extends w ∧ m.world.Fresh w offspring)
          (fun _ w => m.world.Extends w) e t := by
  refine merge_ends (P := fun offspring w => m.world.Extends w ∧ m.world.Fresh w offspring)
    hready ⟨.refl _, .nil _ _⟩ ?_ (fun _ => .refl _) ?_
  · rintro offspring w ⟨hsofar, hfresh⟩ -
    refine (family_ends hs m.population w).mono ?_ fun _ _ h => hsofar.trans h
    rintro children w' ⟨hfamily, hchildren⟩
    exact ⟨hsofar.trans hfamily, hfresh.append hsofar.size_le hfamily.size_le hchildren⟩
  · rintro offspring w ⟨hsofar, hfresh⟩ -
    refine (hs.measure_touches offspring w).mono ?_ fun _ _ h => hsofar.trans_but h hfresh.new
    intro _ w' hmeasure
    exact ⟨hsofar.trans_but hmeasure hfresh.new,
      hfresh.toNew.mono (Nat.le_refl _) hmeasure.size_le, hfresh.nodup⟩

end Machine

/-! ## The second half of a generation -/

namespace Machine

variable [Scalar α]

/-- Every member is behind a reference of the store. -/
def Stored (m : Machine σ α) : Prop := ∀ r ∈ m.population, r.index < m.world.store.size

/-- The members show what the tracker answers, as it was written into them last. -/
def Written (m : Machine σ α) : Prop :=
  ∃ a store, m.tracker.assessment = some a ∧ a.Square m.population.length ∧
    m.world.store = Tracker.annotate store m.population a.fitness

/-- Members may have left, and annotations may have changed. -/
structure Refits (m t : Machine σ α) : Prop where
  annotated : m.world.Annotated t.world
  sublist : t.population.Sublist m.population
  archive_eq : t.archive = m.archive
  evaluations_eq : t.evaluations = m.evaluations
  generations_eq : t.generations = m.generations
  ready_eq : t.ready = m.ready

variable {s : Search σ α} {m t u : Machine σ α}

theorem Refits.refl (m : Machine σ α) : m.Refits m :=
  ⟨.refl, List.Sublist.refl _, rfl, rfl, rfl, rfl⟩

theorem Refits.trans (h : m.Refits t) (h' : t.Refits u) : m.Refits u :=
  ⟨h.annotated.trans h'.annotated, h'.sublist.trans h.sublist,
    h'.archive_eq.trans h.archive_eq, h'.evaluations_eq.trans h.evaluations_eq,
    h'.generations_eq.trans h.generations_eq, h'.ready_eq.trans h.ready_eq⟩

theorem Refits.stored (h : m.Refits t) (hm : m.Stored) : t.Stored := by
  intro r hr
  rw [h.annotated.size_eq]
  exact hm r (h.sublist.subset hr)

namespace Written

theorem size_eq {store : Store (Tensor α) α} {fitness : List α}
    (h : m.world.store = Tracker.annotate store m.population fitness) :
    m.world.store.size = store.size := by
  rw [h]
  exact Tracker.annotate_induction (P := fun s => s.size = store.size) _ _ rfl
    fun s r value hs => (s.size_setFitness r value).trans hs

/-- Every member has a fitness, also where one solution is a member twice. -/
theorem rated (h : m.Written) (hstored : m.Stored) :
    ∀ r ∈ m.population, ((m.world.look r).fitness?).isSome := by
  obtain ⟨a, store, -, hsquare, hstore⟩ := h
  intro r hr
  rw [World.look, hstore]
  refine Tracker.isSome_annotate (fun q hq => ?_) hsquare.length_fitness r hr
  rw [← size_eq hstore]
  exact hstored q hq

/-- Members that are different solutions show the fitness of their places. -/
theorem shows (h : m.Written) (hstored : m.Stored) (hnodup : m.population.Nodup) :
    ∃ fitness, m.tracker.fitness? = .ok fitness ∧ fitness.length = m.population.length ∧
      m.population.map (fun r => (m.world.look r).fitness?) = fitness.map some := by
  obtain ⟨a, store, ha, hsquare, hstore⟩ := h
  have hlength := hsquare.length_fitness
  refine ⟨a.fitness, by rw [Tracker.fitness?, ha], hlength, ?_⟩
  let places := m.population.zip a.fitness
  have hmembers : places.map Prod.fst = m.population :=
    List.map_fst_zip (Nat.le_of_eq hlength.symm)
  have hfitness : places.map Prod.snd = a.fitness := List.map_snd_zip (Nat.le_of_eq hlength)
  have hshown : ∀ p ∈ places, (m.world.look p.1).fitness? = some p.2 := by
    intro p hp
    rw [World.look, hstore]
    nth_rewrite 1 [← hmembers]
    rw [← hfitness]
    refine Tracker.fitness?_annotate (fun q hq => ?_) (fun q hq q' hq' hsame => ?_) p hp
    · rw [← size_eq hstore]
      exact hstored q.1 (List.of_mem_zip hq).1
    · have hinj : ∀ p ∈ places, ∀ q ∈ places, p.1 = q.1 → p = q :=
        List.inj_on_of_nodup_map (hmembers ▸ hnodup)
      rw [hinj q hq q' hq' hsame]
  calc m.population.map (fun r => (m.world.look r).fitness?)
      = places.map (fun p => (m.world.look p.1).fitness?) := by
        rw [← hmembers, List.map_map]
        rfl
    _ = places.map (fun p => some p.2) := List.map_congr_left hshown
    _ = a.fitness.map some := by
        rw [← hfitness, List.map_map]
        rfl

end Written

/-! Of whatever happens after the first half this much is true: members leave and
annotations change. -/

theorem assess_refits (s : Search σ α) (m : Machine σ α) :
    (assess s).Ends m (fun _ t => m.Refits t) fun _ t => t = m := by
  rw [assess, Work.ends_get_bind]
  refine Work.Ends.bind (P := fun p t => t = m ∧
    m.tracker.evaluate s.scheme m.world.store m.population = .ok p) ?_ ?_
  · exact Work.ends_lift (fun p hp => ⟨rfl, hp⟩) fun _ _ => rfl
  · rintro ⟨tracker, store⟩ t ⟨rfl, hevaluate⟩
    obtain ⟨fitness, rfl⟩ := Tracker.evaluate_annotates hevaluate
    exact Work.ends_set.mpr
      ⟨World.Annotated.annotate _ _ _, List.Sublist.refl _, rfl, rfl, rfl, rfl⟩

theorem removeWorst_refits (m : Machine σ α) :
    (removeWorst : Work (Machine σ α) α Unit).Ends m (fun _ t => m.Refits t) fun _ t => t = m := by
  rw [removeWorst, Work.ends_get_bind]
  refine Work.Ends.bind (P := fun _ t => t = m)
    (Work.ends_lift (fun _ _ => rfl) fun _ _ => rfl) ?_
  rintro i t rfl
  refine Work.Ends.bind (P := fun p u => u = t ∧
    t.tracker.remove t.world.store t.population i = .ok p) ?_ ?_
  · exact Work.ends_lift (fun p hp => ⟨rfl, hp⟩) fun _ _ => rfl
  · rintro ⟨tracker, store, population⟩ u ⟨rfl, hremove⟩
    obtain ⟨hsub, fitness, rfl⟩ := Tracker.remove_annotates hremove
    exact Work.ends_set.mpr ⟨World.Annotated.annotate _ _ _, hsub, rfl, rfl, rfl, rfl⟩

theorem truncate_refits (n : Nat) (m : Machine σ α) :
    (truncate n : Work (Machine σ α) α Unit).Ends m (fun _ t => m.Refits t)
      fun _ t => m.Refits t := by
  induction n generalizing m with
  | zero => exact .refl m
  | succ n ih =>
    rw [truncate]
    refine ((removeWorst_refits m).mono (fun _ _ h => h) ?_).bind fun _ t ht => ?_
    · rintro e t rfl
      exact .refl t
    · exact (ih t).mono (fun _ _ h => ht.trans h) fun _ _ h => ht.trans h

theorem settle_refits (s : Search σ α) (size : Nat) (m : Machine σ α) :
    (settle s size).Ends m
      (fun _ t => ∃ u : Machine σ α, t = { u with generations := u.generations + 1 } ∧ m.Refits u)
      fun _ t => m.Refits t := by
  rw [settle]
  refine ((assess_refits s m).mono (fun _ _ h => h) ?_).bind fun _ t ht => ?_
  · rintro e t rfl
    exact .refl t
  · rw [Work.ends_get_bind]
    refine ((truncate_refits _ t).mono (fun _ _ h => ht.trans h) fun _ _ h => ht.trans h).bind ?_
    exact fun _ u hu => Work.ends_modify.mpr ⟨u, rfl, hu⟩

theorem launch_refits (s : Search σ α) (m : Machine σ α) :
    (launch s).Ends m
      (fun _ t => ∃ u : Machine σ α, t = { u with ready := true } ∧ m.Refits u)
      fun _ t => t = m := by
  rw [launch]
  exact (assess_refits s m).bind fun _ u hu => Work.ends_modify.mpr ⟨u, rfl, hu⟩

theorem assess_ends (hsquare : s.scheme.Square) : (assess s).Ends m
    (fun _ t => m.Refits t ∧ t.population = m.population ∧ t.Written)
    fun e t => t = m ∧ m.tracker.evaluate s.scheme m.world.store m.population = .error e := by
  rw [assess, Work.ends_get_bind]
  refine Work.Ends.bind (P := fun p t => t = m ∧
    m.tracker.evaluate s.scheme m.world.store m.population = .ok p) ?_ ?_
  · exact Work.ends_lift (fun p hp => ⟨rfl, hp⟩) fun e he => ⟨rfl, he⟩
  · rintro ⟨tracker, store⟩ t ⟨rfl, hevaluate⟩
    obtain ⟨a, ha, hlength, hstore⟩ := Tracker.evaluate_ok hsquare hevaluate
    subst hstore
    rw [Work.ends_set]
    refine ⟨⟨?_, List.Sublist.refl _, rfl, rfl, rfl, rfl⟩, rfl, a, _, ha, hlength, rfl⟩
    exact World.Annotated.annotate _ _ _

theorem removeWorst_ends (hwritten : m.Written) (hstored : m.Stored) (hne : m.population ≠ []) :
    (removeWorst : Work (Machine σ α) α Unit).Ends m
      (fun _ t => m.Refits t ∧ t.Written ∧ t.population.length + 1 = m.population.length)
      fun _ _ => False := by
  obtain ⟨i, hi, hworst⟩ := Tracker.worstPlace_ok hne (hwritten.rated hstored)
  obtain ⟨a, store, ha, hsquare, -⟩ := hwritten
  have hremove : m.tracker.remove m.world.store m.population i = _ :=
    Tracker.remove_eq ha hsquare hi
  have hrest := List.length_eraseIdx_of_lt hi
  let store' := Tracker.annotate m.world.store (m.population.eraseIdx i) (a.erase i).fitness
  have hrun : (removeWorst : Work (Machine σ α) α Unit).run.run m = (.ok (), { m with
      tracker := ⟨some (a.erase i), m.tracker.scale⟩, population := m.population.eraseIdx i,
      world := { m.world with store := store' } }) := by
    rw [removeWorst, Work.run_bind (Work.run_get m), Work.run_bind (Work.run_lift hworst m),
      Work.run_bind (Work.run_lift hremove m)]
    rfl
  refine Work.ends_of_run hrun ⟨⟨?_, List.eraseIdx_sublist _ _, rfl, rfl, rfl, rfl⟩, ?_, ?_⟩
  · exact World.Annotated.annotate _ _ _
  · exact ⟨a.erase i, _, rfl, hrest ▸ hsquare.erase hi, rfl⟩
  · change (m.population.eraseIdx i).length + 1 = m.population.length
    omega

theorem truncate_ends {n : Nat} (hn : n ≤ m.population.length) (hwritten : m.Written)
    (hstored : m.Stored) : (truncate n : Work (Machine σ α) α Unit).Ends m
      (fun _ t => m.Refits t ∧ t.Written ∧ t.population.length + n = m.population.length)
      fun _ _ => False := by
  induction n generalizing m with
  | zero => exact ⟨.refl m, hwritten, rfl⟩
  | succ n ih =>
    have hne : m.population ≠ [] := List.ne_nil_of_length_pos (Nat.lt_of_lt_of_le n.succ_pos hn)
    rw [truncate]
    refine (removeWorst_ends hwritten hstored hne).bind ?_
    rintro ⟨⟩ t ⟨hrefits, hstill, hlength⟩
    refine (ih (by omega) hstill (hrefits.stored hstored)).mono ?_ fun _ _ h => h
    rintro ⟨⟩ u ⟨hlater, hlast, hleft⟩
    exact ⟨hrefits.trans hlater, hlast, by omega⟩

/-- Once fitness is assigned, nothing fails. -/
theorem settle_ends (hsquare : s.scheme.Square) (hstored : m.Stored) {size : Nat}
    (hsize : size ≤ m.population.length) : (settle s size).Ends m
      (fun _ t => ∃ u : Machine σ α, t = { u with generations := u.generations + 1 } ∧
        m.Refits u ∧ u.Written ∧ u.population.length = size)
      fun e t => t = m ∧
        m.tracker.evaluate s.scheme m.world.store m.population = .error e := by
  rw [settle]
  refine (assess_ends hsquare).bind ?_
  rintro ⟨⟩ t ⟨hrefits, hsame, hwritten⟩
  rw [Work.ends_get_bind]
  refine ((truncate_ends (Nat.sub_le _ size) hwritten (hrefits.stored hstored)).mono
    (fun _ _ h => h) fun _ _ h => h.elim).bind ?_
  rintro ⟨⟩ u ⟨hlater, hlast, hlength⟩
  rw [Work.ends_modify]
  refine ⟨u, rfl, hrefits.trans hlater, hlast, ?_⟩
  rw [hsame] at hlength
  omega

theorem launch_ends (hsquare : s.scheme.Square) : (launch s).Ends m
    (fun _ t => ∃ u : Machine σ α, t = { u with ready := true } ∧ m.Refits u ∧
      u.population = m.population ∧ u.Written)
    fun e t => t = m ∧ m.tracker.evaluate s.scheme m.world.store m.population = .error e := by
  rw [launch]
  refine (assess_ends hsquare).bind ?_
  rintro ⟨⟩ u ⟨hrefits, hpopulation, hwritten⟩
  rw [Work.ends_modify]
  exact ⟨u, rfl, hrefits, hpopulation, hwritten⟩

end Machine
end ParetoSearch
