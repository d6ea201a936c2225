import ParetoSearch.Proofs.Arithmetic.Extended
import ParetoSearch.Proofs.Problem.Batch
import ParetoSearch.Proofs.Search.Failure

/-!
# How often a problem is asked

A run on functions asks each of them once for every solution that it makes, and counts as
many evaluations, but for the first individual.  That one is measured before there is a
problem, and is brought along as a founder.  A founder is known to be measured by its
objectives, which are all numbers, and so one whose answer holds something else is measured
a second time, and the second time is not counted (`Request.run_calls`).

The bill of a problem is kept from batch to batch (`World.Billed`): a batch of new solutions
is measured as a whole, and nothing else asks.
-/

namespace ParetoSearch

variable {σ α : Type}

/-! ## Solutions that are added -/

namespace World

/-- Solutions were added, and nothing else has changed but for the sources. -/
structure Adds (w w' : World σ α) (solutions : List Ref) : Prop where
  tally_eq : w'.tally = w.tally
  old : w.Extends w'
  mem_iff : ∀ r, r ∈ solutions ↔ w.store.size ≤ r.index ∧ r.index < w'.store.size
  size_eq : w'.store.size = w.store.size + solutions.length

variable {w w' w'' : World σ α}

theorem Adds.nil (htally : w'.tally = w.tally) (hstore : w'.store = w.store) : w.Adds w' [] where
  tally_eq := htally
  old := .of_store_eq [] hstore
  mem_iff r := by
    rw [hstore]
    simp
  size_eq := by rw [hstore, List.length_nil, Nat.add_zero]

theorem Adds.append {older newer : List Ref} (h : w.Adds w' older) (h' : w'.Adds w'' newer) :
    w.Adds w'' (older ++ newer) where
  tally_eq := h'.tally_eq.trans h.tally_eq
  old := h.old.trans h'.old
  mem_iff r := by
    have hsize := h.size_eq
    have hsize' := h'.size_eq
    rw [List.mem_append, h.mem_iff, h'.mem_iff]
    omega
  size_eq := by rw [h'.size_eq, h.size_eq, List.length_append, Nat.add_assoc]

theorem Adds.insert (w : World σ α) (x : Solution (Tensor α) α) (sources : σ) :
    w.Adds { w with store := (w.store.insert x).1, sources := sources } [⟨w.store.size⟩] where
  tally_eq := rfl
  old := (insert_extends w x).trans (.of_store_eq [] rfl)
  mem_iff r := by
    have hsize : (w.store.insert x).1.size = w.store.size + 1 := Array.size_push _
    rw [List.mem_singleton, hsize, Ref.mk.injEq]
    omega
  size_eq := Array.size_push _

theorem drawn_adds {β : Type} (work : Work σ α β) (w : World σ α) :
    (drawn work).Ends w (fun _ w' => w.Adds w' []) fun _ _ => True := by
  refine (Work.ends_within (Work.ends_trivial work w.sources)).mono ?_ fun _ _ _ => trivial
  intro x _ hend
  obtain ⟨sources, rfl, -⟩ := hend
  exact .nil rfl rfl

theorem insert_mapM_adds (xs : List (Solution (Tensor α) α)) (w : World σ α) :
    (xs.mapM World.insert).Ends w (fun refs w' => w.Adds w' refs) fun _ _ => True :=
  Work.ends_mapM (.nil rfl rfl) fun x _ _ v hv =>
    Work.ends_of_run rfl (hv.append (.insert v x v.sources))

end World

namespace World

/-- Nothing was asked or made, and solutions have changed in their annotations at most. -/
structure Marked (w w' : World σ α) : Prop where
  tally_eq : w'.tally = w.tally
  size_eq : w'.store.size = w.store.size
  sameData : ∀ r, (w'.look r).SameData (w.look r)

theorem Annotated.marked {w w' : World σ α} (h : w.Annotated w') : w.Marked w' :=
  ⟨h.tally_eq, h.size_eq, h.sameData⟩

end World

/-! ## The bill -/

namespace FunctionProblem

/-- A solution holds what the functions answer for its decision. -/
structure Answered (p : FunctionProblem α) (x : Solution (Tensor α) α) : Prop where
  objectives_eq : x.objectives = p.objectives.values x.decision
  constraints_eq : ∀ rule, p.constraints = some rule → x.constraints = rule.values x.decision

variable {p : FunctionProblem α}

theorem answered_measured (p : FunctionProblem α) (x : Solution (Tensor α) α) :
    p.Answered (p.measured x) := by
  cases h : p.constraints with
  | none =>
    rw [measured_of_none h]
    refine ⟨rfl, fun rule hrule => ?_⟩
    rw [h] at hrule
    cases hrule
  | some rule =>
    rw [measured_of_some h]
    refine ⟨rfl, fun rule' hrule => ?_⟩
    rw [h] at hrule
    cases hrule
    rfl

theorem Answered.of_sameData {x y : Solution (Tensor α) α} (h : p.Answered x)
    (hxy : y.SameData x) : p.Answered y := by
  refine ⟨?_, fun rule hrule => ?_⟩
  · rw [hxy.objectives_eq, hxy.decision_eq]
    exact h.objectives_eq
  · rw [hxy.constraints_eq, hxy.decision_eq]
    exact h.constraints_eq rule hrule

end FunctionProblem

theorem Problem.evaluateAll_completes (p : Problem α) (batch : List Ref) (w : World σ α) :
    (p.evaluateAll batch).Ends w (fun _ t => p.Completes batch w t) fun _ _ => True := by
  obtain ⟨p, oneByOne⟩ := p
  cases oneByOne with
  | true => exact (p.singly_ends batch w).mono (fun _ _ h => h) fun _ _ _ => trivial
  | false => exact (p.batchwise_ends batch w).mono (fun _ _ h => h.1) fun _ _ _ => trivial

/-- Since an earlier world so many solutions were made, which hold what they were measured
to be, and the problem was asked so often. -/
structure World.Billed (p : FunctionProblem α) (w w' : World σ α) (made calls : Nat) : Prop where
  objectives_eq : w'.tally.objectives = w.tally.objectives + calls
  constraints_eq : w'.tally.constraints = w.tally.constraints + calls * p.toll
  size_eq : w'.store.size = w.store.size + made
  answered : ∀ r, w.store.size ≤ r.index → r.index < w'.store.size → p.Answered (w'.look r)

namespace World.Billed

variable {p : FunctionProblem α} {w v u t : World σ α} {made calls : Nat}

theorem marked (h : w.Billed p v made calls) (hvu : v.Marked u) : w.Billed p u made calls where
  objectives_eq := hvu.tally_eq ▸ h.objectives_eq
  constraints_eq := hvu.tally_eq ▸ h.constraints_eq
  size_eq := hvu.size_eq.trans h.size_eq
  answered r hold hr := (h.answered r hold (hvu.size_eq ▸ hr)).of_sameData (hvu.sameData r)

/-- Measuring is on the bill, and of what was added everything must be measured. -/
theorem batch (h : w.Billed p v made calls) {solutions pending : List Ref}
    (hadds : v.Adds u solutions) (hcompletes : p.Completes pending u t)
    (hpending : ∀ r ∈ solutions, r ∈ pending) :
    w.Billed p t (made + solutions.length) (calls + pending.length) := by
  obtain ⟨k, ht⟩ := hcompletes.eq_store
  have htally : t.tally = u.tally.plus pending.length (pending.length * p.toll) k :=
    congrArg World.tally ht
  have hsize : t.store.size = u.store.size := hcompletes.changed.size_eq
  refine ⟨?_, ?_, ?_, ?_⟩
  · rw [htally, hadds.tally_eq]
    show v.tally.objectives + pending.length = _
    rw [h.objectives_eq, Nat.add_assoc]
  · rw [htally, hadds.tally_eq]
    show v.tally.constraints + pending.length * p.toll = _
    rw [h.constraints_eq, Nat.add_mul, Nat.add_assoc]
  · rw [hsize, hadds.size_eq, h.size_eq, Nat.add_assoc]
  · intro r hold hr
    rw [hsize] at hr
    have hlook := hcompletes.changed.look_eq r
    change t.look r = _ at hlook
    rw [hlook]
    split
    case isTrue => exact p.answered_measured _
    case isFalse hrest =>
      have hv : r.index < v.store.size := by
        by_contra hnew
        exact hrest ⟨hpending r ((hadds.mem_iff r).mpr ⟨Nat.le_of_not_lt hnew, hr⟩), hr⟩
      have hkept : u.store.look r = v.look r := hadds.old.look_eq hv
      rw [hkept]
      exact h.answered r hold hv

end World.Billed

/-! ## What is built -/

theorem FunctionProblem.of_make_ok {objectives : Response α} {constraints : Option (Response α)}
    {n m k workers : Int} {name : String} {p : FunctionProblem α}
    (h : make? objectives n m constraints k workers name = .ok p) :
    p.objectives = objectives ∧ p.constraints = constraints := by
  unfold make? at h
  iterate 4
    split at h
    · cases h
  cases h
  exact ⟨rfl, rfl⟩

theorem Initialization.injected_of_make_ok {problem : FunctionProblem α} {size : Int}
    {sampler : Sampler σ α} {injected : List Ref} {i : Initialization σ α}
    (h : make? problem size sampler injected = .ok i) : i.injected = injected := by
  unfold make? at h
  iterate 2
    split at h
    · cases h
  cases h
  rfl

theorem Solution.vectorOf_ok {part : Part} {t : Tensor α} {entries : List α}
    (h : vectorOf? part t = .ok entries) : entries = t.entries := by
  unfold vectorOf? at h
  split at h
  · cases h
  · cases h
    rfl

theorem Solution.of_ofTensors_ok {x f : Tensor α} {c : Option (Tensor α)}
    {first : Solution (Tensor α) α} (h : ofTensors? x f c = .ok first) :
    first.decision = x ∧ first.objectives = f.entries ∧
      ∀ y, c = some y → first.constraints = y.entries := by
  obtain ⟨objectives, hobjectives, h⟩ := of_bind_ok h
  obtain ⟨violations, hviolations, h⟩ := of_bind_ok h
  cases h
  refine ⟨rfl, vectorOf_ok hobjectives, ?_⟩
  intro y hsame
  subst hsame
  obtain ⟨entries, hentries, h⟩ := of_bind_ok hviolations
  cases h
  exact vectorOf_ok hentries

/-! ## Searches that are put together -/

theorem Vector.of_count_ok {n : Int} {k : Nat}
    (h : (Vector.count? n : Except (Fault α) Nat) = .ok k) : k = n.toNat := by
  unfold Vector.count? at h
  split at h
  · cases h
    rfl
  · cases h

variable [Scalar α]

namespace Assembly

variable (a : Assembly σ α)

theorem select_adds (population : List Ref) (w : World σ α) :
    (a.select population).Ends w (fun _ w' => w.Adds w' []) fun _ _ => True :=
  Work.ends_get_bind.mpr (World.drawn_adds _ w)

theorem evolve_adds (parents : List Ref) (w : World σ α) :
    (a.evolve parents).Ends w (fun children w' => w.Adds w' children) fun _ _ => True := by
  rw [evolve, Work.ends_get_bind]
  refine (World.drawn_adds _ w).bind fun children w' hw' => ?_
  exact (World.insert_mapM_adds children w').mono (fun _ _ h => hw'.append h) fun _ _ h => h

end Assembly

/-- Blank solutions have an objective, which is not measured. -/
theorem Solution.blank_pending (hunset : Scalar.isNumber (Scalar.unset : α) = false)
    {n objectives constraints : Int} {blank : Solution (Tensor α) α}
    (h : Solution.blank? n objectives constraints = .ok blank) : blank.evaluated = false := by
  unfold blank? at h
  split at h
  case isTrue => cases h
  case isFalse hpositive =>
    obtain ⟨dimension, -, h⟩ := of_bind_ok h
    obtain ⟨m, hobjectives, h⟩ := of_bind_ok h
    obtain ⟨k, -, h⟩ := of_bind_ok h
    cases h
    have hm : m = objectives.toNat := Vector.of_count_ok hobjectives
    have hsome : m ≠ 0 := by omega
    simp [evaluated, unevaluated, hunset, hsome]

/-- Whoever is brought along comes first, and the others are not measured yet. -/
theorem Initialization.populate_adds (hunset : Scalar.isNumber (Scalar.unset : α) = false)
    (i : Initialization σ α) (w : World σ α) :
    i.populate.Ends w
      (fun founders w' => ∃ sampled, founders = i.injected ++ sampled ∧ w.Adds w' sampled ∧
        ∀ r ∈ sampled, (w'.look r).evaluated = false)
      fun _ _ => True := by
  rw [populate]
  refine Work.Ends.bind (P := fun sampled w' => w.Adds w' sampled ∧
    ∀ r ∈ sampled, (w'.look r).evaluated = false) ?_ ?_
  · refine Work.ends_mapM ⟨.nil rfl rfl, fun r hr => absurd hr List.not_mem_nil⟩ ?_
    intro _ _ sampled v hv
    refine (i.sample_adds v).mono ?_ fun _ _ _ => trivial
    intro r _ hend
    obtain ⟨rfl, blank, x, sources, hblank, rfl⟩ := hend
    obtain ⟨hadds, hpending⟩ := hv
    have hone := World.Adds.insert v { blank with decision := x } sources
    refine ⟨hadds.append hone, ?_⟩
    rw [List.forall_mem_append, List.forall_mem_singleton]
    constructor
    · intro q hq
      rw [hone.old.look_eq ((hadds.mem_iff q).mp hq).2]
      exact hpending q hq
    · have hlook := World.look_insert_self v { blank with decision := x }
      have hunmeasured : blank.evaluated = false := Solution.blank_pending hunset hblank
      rw [World.look, hlook]
      exact hunmeasured
  · intro sampled w' hw'
    exact Work.ends_pure.mpr ⟨sampled, rfl, hw'⟩

/-! ## Machines -/

namespace Machine

variable {a : Assembly σ α} {m : Machine σ α} {w : World σ α} {extra : Nat}

theorem family_adds (population : List Ref) (w : World σ α) :
    (family a.search population).Ends w (fun children w' => w.Adds w' children)
      fun _ _ => True := by
  rw [family]
  refine (a.select_adds population w).bind fun parents w' hselect => ?_
  exact (a.evolve_adds parents w').mono (fun _ _ h => hselect.append h) fun _ _ h => h

/-- A generation measures what it adds, and counts as many. -/
theorem iterate_bills
    (h : w.Billed a.problem.toFunctionProblem m.world m.evaluations (m.evaluations + extra)) :
    (iterate a.search).Ends m
      (fun _ t => w.Billed a.problem.toFunctionProblem t.world t.evaluations
        (t.evaluations + extra))
      fun _ _ => True := by
  refine iterate_halves (P := fun offspring t => ∃ world,
    w.Billed a.problem.toFunctionProblem world (m.evaluations + offspring.length)
      (m.evaluations + offspring.length + extra) ∧ t = m.joined world offspring)
    (fun _ => trivial) (fun hready => ?_) ?_
  · refine (merge_ends (P := fun offspring u => m.world.Adds u offspring)
      (F := fun _ _ => True) hready (.nil rfl rfl) ?_ (fun _ => trivial) ?_).mono
      (fun _ _ h => h) fun _ _ _ => trivial
    · intro offspring u hadds _
      exact (family_adds m.population u).mono (fun _ _ h => hadds.append h) fun _ _ h => h
    · intro offspring u hadds _
      refine (a.problem.evaluateAll_completes offspring u).mono ?_ fun _ _ h => h
      intro _ t hcompletes
      have hbilled := h.batch hadds hcompletes fun _ hr => hr
      rwa [Nat.add_right_comm] at hbilled
  · intro offspring _ hend
    obtain ⟨world, hbilled, rfl⟩ := hend
    refine (settle_refits a.search _ _).mono ?_ fun _ _ _ => trivial
    intro _ _ hend
    obtain ⟨u, rfl, hrefits⟩ := hend
    have hevaluations : u.evaluations = m.evaluations + offspring.length :=
      hrefits.evaluations_eq
    rw [hevaluations]
    exact hbilled.marked hrefits.annotated.marked

/-- One founder is brought along, and is the only one so far. -/
theorem setUp_bills (hunset : Scalar.isNumber (Scalar.unset : α) = false)
    (hready : m.ready = false) (hevaluations : m.evaluations = 0) {first : Ref}
    (hinjected : a.initialization.injected = [first])
    (h : w.Billed a.problem.toFunctionProblem m.world 1 1)
    (hfirst : first.index < m.world.store.size)
    (hextra : extra = if (m.world.look first).evaluated then 0 else 1) :
    (setUp a.search).Ends m
      (fun _ t => w.Billed a.problem.toFunctionProblem t.world t.evaluations
        (t.evaluations + extra))
      fun _ _ => True := by
  refine setUp_halves (P := fun founders t => ∃ world,
    w.Billed a.problem.toFunctionProblem world founders.length (founders.length + extra) ∧
      t = m.joined world founders) (fun _ => trivial) (fun _ => ?_) ?_
  · refine (found_ends (P := fun founders u => ∃ sampled, founders = first :: sampled ∧
      m.world.Adds u sampled ∧ ∀ r ∈ sampled, (u.look r).evaluated = false)
      (F := fun _ _ => True) hready ?_ ?_).mono (fun _ _ h => h) fun _ _ _ => trivial
    · have hpopulate := a.initialization.populate_adds hunset m.world
      rwa [hinjected] at hpopulate
    · intro _ u hend
      obtain ⟨sampled, rfl, hadds, hunmeasured⟩ := hend
      have hpending : ((first :: sampled).filter fun r => !(u.look r).evaluated) =
          (if (m.world.look first).evaluated then [] else [first]) ++ sampled := by
        have hall : (sampled.filter fun r => !(u.look r).evaluated) = sampled :=
          List.filter_eq_self.mpr fun r hr => by rw [hunmeasured r hr]; rfl
        rw [List.filter_cons, hadds.old.look_eq hfirst, hall]
        cases (m.world.look first).evaluated <;> rfl
      have hcalls : 1 + ((if (m.world.look first).evaluated then [] else [first]) ++
          sampled).length = (first :: sampled).length + extra := by
        rw [hextra, List.length_append, List.length_cons]
        split <;> simp <;> omega
      rw [hpending]
      refine (a.problem.evaluateAll_completes _ u).mono ?_ fun _ _ h => h
      intro _ t hcompletes
      have hbilled := h.batch hadds hcompletes fun r hr => List.mem_append_right _ hr
      rw [hcalls, Nat.add_comm 1] at hbilled
      exact hbilled
  · intro founders _ hend
    obtain ⟨world, hbilled, rfl⟩ := hend
    refine (launch_refits a.search _).mono ?_ fun _ _ _ => trivial
    intro _ _ hend
    obtain ⟨u, rfl, hrefits⟩ := hend
    have hcount : u.evaluations = founders.length := by
      rw [hrefits.evaluations_eq]
      show m.evaluations + founders.length = _
      rw [hevaluations, Nat.zero_add]
    rw [hcount]
    exact hbilled.marked hrefits.annotated.marked

end Machine

/-! ## Whole runs -/

namespace Request

variable (q : Request σ α)

theorem firstViolations_ends (x : Tensor α) (w : World σ α) :
    (q.firstViolations x).Ends w
      (fun c t => t = { w with
          tally := w.tally.plus 0 (if q.constraints.isSome then 1 else 0) 0 } ∧
        ∀ rule, q.constraints = some rule → ∃ y, rule x = .ok y ∧ c = some y.atLeastVector)
      fun _ _ => True := by
  rw [firstViolations]
  cases q.constraints with
  | none => exact Work.ends_pure.mpr ⟨rfl, fun rule hrule => by cases hrule⟩
  | some rule =>
    refine ((FunctionProblem.callConstraints_calls rule x w).mono (fun _ _ h => h)
      fun _ _ _ => trivial).bind ?_
    intro y t hend
    obtain ⟨hy, rfl⟩ := hend
    refine Work.ends_pure.mpr ⟨rfl, fun rule' hrule => ?_⟩
    cases hrule
    exact ⟨y, hy, rfl⟩

/-- A search on the functions of a request, with a first individual that was measured. -/
structure Prepares (w : World σ α) (a : Assembly σ α) (f : Tensor α) (v : World σ α) : Prop where
  objectives_eq : a.problem.objectives = q.objectives
  constraints_eq : a.problem.constraints = q.constraints
  batchwise : a.problem.oneByOne = false
  injected_eq : a.initialization.injected = [⟨w.store.size⟩]
  first_eq : (v.look ⟨w.store.size⟩).objectives = f.entries
  billed : w.Billed a.problem.toFunctionProblem v 1 1

theorem prepare_ends (w : World σ α) :
    q.prepare.Ends w
      (fun prepared v => ∃ a x f sources, prepared.1 = a.search ∧
        q.sampler.run.run w.sources = (.ok x, sources) ∧ q.objectives x = .ok f ∧
        q.Prepares w a f v)
      fun _ _ => True := by
  rw [prepare]
  refine Work.ends_lift_bind (fun scheme _ => ?_) fun _ _ => trivial
  refine ((Work.ends_within (Work.ends_self q.sampler w.sources)).mono (fun _ _ h => h)
    fun _ _ _ => trivial).bind ?_
  intro x _ hend
  obtain ⟨sources, rfl, hx⟩ := hend
  refine Work.Ends.bind (P := fun _ t => t = { w with
    sources := sources, tally := w.tally.plus 1 0 0 }) (Work.ends_modify.mpr rfl) ?_
  intro _ _ hsame
  subst hsame
  refine Work.ends_lift_bind (fun f hf => ?_) fun _ _ => trivial
  refine (q.firstViolations_ends x _).bind ?_
  intro c _ hend
  obtain ⟨rfl, hc⟩ := hend
  refine Work.ends_lift_bind (fun n _ => ?_) fun _ _ => trivial
  refine Work.ends_lift_bind (fun problem hproblem => ?_) fun _ _ => trivial
  refine Work.ends_lift_bind (fun first hfirst => ?_) fun _ _ => trivial
  obtain ⟨hobjectives, hconstraints⟩ := FunctionProblem.of_make_ok hproblem
  obtain ⟨hdecision, hvalues, hviolations⟩ := Solution.of_ofTensors_ok hfirst
  rw [Tensor.entries_atLeastVector] at hvalues
  refine Work.Ends.bind (P := fun r t => r = ⟨w.store.size⟩ ∧ t = { w with
    store := (w.store.insert first).1, sources := sources
    tally := w.tally.plus 1 problem.toll 0 }) ?_ ?_
  · refine Work.ends_of_run rfl ⟨rfl, ?_⟩
    rw [FunctionProblem.toll, hconstraints]
    rfl
  intro _ _ hend
  obtain ⟨rfl, rfl⟩ := hend
  refine Work.ends_lift_bind (fun initialization hinitialization => ?_) fun _ _ => trivial
  refine Work.ends_lift_bind (fun policy _ => ?_) fun _ _ => trivial
  refine Work.ends_pure.mpr ⟨_, x, f, sources, rfl, hx, hf, hobjectives, hconstraints, rfl,
    Initialization.injected_of_make_ok hinitialization, ?_, ?_⟩
  · rw [World.look, World.look_insert_self]
    exact hvalues
  · have hsize : (w.store.insert first).1.size = w.store.size + 1 := Array.size_push _
    refine ⟨rfl, ?_, hsize, fun r hold hr => ?_⟩
    · rw [Nat.one_mul]
      rfl
    · obtain rfl : r = ⟨w.store.size⟩ := by
        rw [hsize] at hr
        rw [Ref.mk.injEq]
        omega
      rw [World.look, World.look_insert_self]
      refine ⟨?_, fun rule hrule => ?_⟩
      · rw [hdecision, hvalues, hobjectives, Response.values_of_ok hf]
      · obtain ⟨y, hy, rfl⟩ := hc rule (hconstraints ▸ hrule)
        rw [hdecision, hviolations _ rfl, Response.values_of_ok hy, Tensor.entries_atLeastVector]

section

variable {q : Request σ α} {w v : World σ α} {a : Assembly σ α} {f : Tensor α}

theorem Prepares.setUp_bills (hunset : Scalar.isNumber (Scalar.unset : α) = false)
    (h : q.Prepares w a f v) (archive : Option (Container Ref α)) :
    (Machine.setUp a.search).Ends (.start v archive)
      (fun _ t => w.Billed a.problem.toFunctionProblem t.world t.evaluations
        (t.evaluations + if f.entries.all Scalar.isNumber then 0 else 1))
      fun _ _ => True := by
  refine Machine.setUp_bills hunset rfl rfl h.injected_eq h.billed ?_ ?_
  · show w.store.size < v.store.size
    rw [h.billed.size_eq]
    exact Nat.lt_succ_self _
  · rw [Solution.evaluated]
    show _ = if (v.look ⟨w.store.size⟩).objectives.all Scalar.isNumber then 0 else 1
    rw [h.first_eq]

theorem Prepares.run_bills (hunset : Scalar.isNumber (Scalar.unset : α) = false)
    (hobserver : ∀ f, q.observer = some f → ∀ o i w, (f o i).Ends w (fun _ w' => w.Marked w')
      fun _ _ => True)
    (h : q.Prepares w a f v) (archive : Option (Container Ref α)) :
    (Machine.run a.search q.generations q.observer).Ends (.start v archive)
      (fun o t => ∃ made : Nat, o.evaluations = made ∧
        w.Billed a.problem.toFunctionProblem t.world made
          (made + if f.entries.all Scalar.isNumber then 0 else 1))
      fun _ _ => True := by
  refine (Machine.run_keeps (F := fun _ _ => True) (fun _ _ _ => trivial)
    (fun _ => h.setUp_bills hunset archive) (fun _ ht => Machine.iterate_bills ht) ?_ trivial
    fun hready => ?_).mono ?_ fun _ _ h => h
  · intro observer hf t o i ht _
    exact (hobserver observer hf o i t.world).mono (fun _ _ hu => ht.marked hu) fun _ _ h => h
  · cases hready
  · intro o t hend
    obtain ⟨ht, hgives⟩ := hend
    exact ⟨t.evaluations, hgives.evaluations_eq, ht⟩

end

/-- As many evaluations are counted as solutions were made, and each function that there is
was asked as often, or once more where what the first individual was measured to be is not
all numbers.  Every solution that was made holds what the functions answer. -/
theorem run_calls (hunset : Scalar.isNumber (Scalar.unset : α) = false)
    (hobserver : ∀ f, q.observer = some f → ∀ o i w, (f o i).Ends w (fun _ w' => w.Marked w')
      fun _ _ => True)
    {w w' : World σ α} {o : Outcome α} (hrun : q.run.run.run w = (.ok o, w')) :
    ∃ x f sources, ∃ made : Nat,
      q.sampler.run.run w.sources = (.ok x, sources) ∧ q.objectives x = .ok f ∧
      o.evaluations = made ∧ w'.store.size = w.store.size + made ∧
      (let calls := made + if f.entries.all Scalar.isNumber then 0 else 1
      w'.tally.objectives = w.tally.objectives + calls ∧
      w'.tally.constraints = w.tally.constraints + if q.constraints.isSome then calls else 0) ∧
      ∀ r, w.store.size ≤ r.index → r.index < w'.store.size →
        (w'.look r).objectives = q.objectives.values (w'.look r).decision ∧
        ∀ rule, q.constraints = some rule →
          (w'.look r).constraints = rule.values (w'.look r).decision := by
  have hends : q.run.Ends w
      (fun o t => ∃ a x f sources v, ∃ made : Nat,
        q.sampler.run.run w.sources = (.ok x, sources) ∧ q.objectives x = .ok f ∧
        q.Prepares w a f v ∧ o.evaluations = made ∧
        w.Billed a.problem.toFunctionProblem t made
          (made + if f.entries.all Scalar.isNumber then 0 else 1))
      fun _ _ => True := by
    rw [run]
    refine (q.prepare_ends w).bind ?_
    rintro ⟨s, policy⟩ v ⟨a, x, f, sources, rfl, hx, hf, hv⟩
    have hmachine := hv.run_bills hunset hobserver (some (.empty policy))
    rw [Work.ends_get_bind]
    cases hanswer : (Machine.run a.search q.generations q.observer).run.run
        (.start v (some (.empty policy))) with
    | mk answer m =>
      have hclose : a.search.close = pure () := by
        show a.problem.close = pure ()
        rw [Problem.close, hv.batchwise]
        rfl
      simp only [hclose, pure_bind]
      refine Work.Ends.bind (P := fun _ t => t = m.world) (Work.ends_set.mpr rfl) ?_
      intro _ _ hsame
      subst hsame
      refine Work.ends_lift (fun o ho => ?_) fun _ _ => trivial
      rw [ho] at hanswer
      obtain ⟨made, hmade, hbilled⟩ := hmachine.of_ok hanswer
      exact ⟨a, x, f, sources, v, made, hx, hf, hv, hmade, hbilled⟩
  obtain ⟨a, x, f, sources, v, made, hx, hf, hv, hmade, hbilled⟩ := hends.of_ok hrun
  refine ⟨x, f, sources, made, hx, hf, hmade, hbilled.size_eq, ⟨hbilled.objectives_eq, ?_⟩, ?_⟩
  · rw [hbilled.constraints_eq, FunctionProblem.toll, hv.constraints_eq]
    rw [mul_ite, Nat.mul_one, Nat.mul_zero]
  · intro r hold hr
    obtain ⟨hobjectives, hconstraints⟩ := hbilled.answered r hold hr
    rw [hv.objectives_eq] at hobjectives
    rw [hv.constraints_eq] at hconstraints
    exact ⟨hobjectives, hconstraints⟩

/-- A population of one, of which every answer is the same number, or not a number. -/
noncomputable def lone (y : Extended ℝ) : Request Unit (Extended ℝ) where
  sampler := Work.lift (.ok (.vector [0]))
  objectives _ := .ok (.scalar y)
  constraints := some fun _ => .ok (.scalar 0)
  variation := ⟨none, fun x => return x⟩
  size := 1
  generations := 0
  workers := 1
  indicator := "epsilon"
  kappa := .given (.finite 1)
  epsilon := none
  dice := ⟨fun n _ => (List.replicate n 0, ())⟩
  observer := some fun _ _ => return true

theorem unit_build : SchemeKind.epsilon.build ({ kappa := .given (.finite 1) } :
    SchemeArguments (Extended ℝ)) = .ok ⟨Scheme.epsilonMatrix, .finite 1, true⟩ := by
  have hpositive : ¬ (Extended.finite (1 : ℝ)) ≤ 0 := by
    rw [Extended.zero_eq, Extended.finite_le_finite]
    norm_num
  exact if_neg hpositive

theorem lone_scheme (y : Extended ℝ) :
    (lone y).scheme? = .ok ⟨Scheme.epsilonMatrix, .finite 1, true⟩ := by
  let arguments : SchemeArguments (Extended ℝ) := { kappa := .given (.finite 1) }
  have hname : (SchemeRegistry.standard.complete .fitnessIndicator "epsilon" :
      Except (Fault (Extended ℝ)) (String × SchemeKind)) = .ok ("epsilon", .epsilon) := rfl
  have hget : SchemeRegistry.get SchemeRegistry.standard "epsilon" arguments =
      .ok ⟨.epsilon, ⟨Scheme.epsilonMatrix, .finite 1, true⟩, none⟩ := by
    rw [SchemeRegistry.get, hname, ok_bind]
    show (SchemeKind.epsilon.build arguments >>= _) = _
    rw [unit_build]
    rfl
  show (SchemeRegistry.get SchemeRegistry.standard "epsilon" arguments >>=
    fun built => pure built.scheme) = _
  rw [hget]
  rfl

/-- A population of two for one generation, told of it. -/
noncomputable def pair : Request Unit (Extended ℝ) :=
  { lone (.finite 0) with size := 2, generations := 1, observer := some fun _ _ => return false }

/-- What the pair is made with, once the first of it is measured. -/
noncomputable def paired : Assembly Unit (Extended ℝ) :=
  let problem : FunctionProblem (Extended ℝ) :=
    ⟨pair.objectives, pair.constraints, 1, 1, 1, "problem"⟩
  { problem := ⟨problem, false⟩
    initialization := ⟨problem, 2, pair.sampler, [⟨0⟩]⟩
    variation := pair.variation
    scheme := ⟨Scheme.epsilonMatrix, .finite 1, true⟩
    selection := none
    dice := pair.dice }

/-- The first of the pair alone. -/
noncomputable def firstborn : World Unit (Extended ℝ) where
  store := .ofList [⟨.vector [0], [.finite 0], [0], []⟩]
  tally := { objectives := 1, constraints := 1 }
  sources := ()

theorem pair_prepare :
    pair.prepare.run.run (.start ()) = (.ok (paired.search, .standard), firstborn) := by
  have hscheme : pair.scheme? = .ok ⟨Scheme.epsilonMatrix, .finite 1, true⟩ :=
    lone_scheme (.finite 0)
  rw [prepare, Work.run_bind (Work.run_lift hscheme _)]
  rfl

theorem paired_sound : paired.Sound ⟨1, 1, 1⟩ where
  problem_sound := by
    refine ⟨fun x _ => ⟨.scalar (.finite 0), rfl, rfl, rfl⟩, fun rule h x _ => ?_⟩
    cases h
    exact ⟨.scalar 0, rfl, rfl, rfl⟩
  initialization_sound :=
    { newSolution_ok := ⟨_, rfl, ⟨rfl, rfl⟩, rfl, rfl⟩
      variableCount_eq := rfl
      sampler_ends := fun _ => show (Tensor.vector [(0 : Extended ℝ)]).IsVector 1 from ⟨rfl, rfl⟩
      injected_le := Nat.succ_le_succ (Nat.zero_le 1) }
  variation_sound :=
    { crossover_ends := fun cross h => by cases h
      mutation_ends := fun x s hx => hx }
  dice_lands := by
    intro bound n s hbound
    refine ⟨List.length_replicate, fun u hu => ?_⟩
    have hzero : u * (bound : Extended ℝ) = .finite 0 := by
      rw [List.eq_of_mem_replicate hu, Extended.zero_eq, Extended.natCast_eq,
        Extended.finite_mul, zero_mul]
    have hfloor : Scalar.floor (Extended.finite (0 : ℝ)) = 0 := Int.floor_zero
    rw [hzero, hfloor]
    exact ⟨le_refl 0, Int.natCast_pos.mpr hbound⟩
  rounds_pos := Nat.two_pos
  compare_ok := fun x y _ _ hx hy => compareFitness_ok hx hy true

theorem paired_sane : paired.Sane ⟨1, 1, 1⟩ firstborn := by
  refine ⟨⟨rfl, fun r hr => ?_⟩, fun r hr => ?_⟩
  · obtain ⟨i⟩ := r
    obtain rfl : i = 0 := Nat.lt_one_iff.mp hr
    exact ⟨⟨rfl, rfl⟩, rfl, rfl⟩
  · obtain rfl : r = ⟨0⟩ := List.mem_singleton.mp hr
    exact Nat.one_pos

/-- The machine of the pair is set up, told of a generation, and runs it. -/
theorem run_paired : ∃ o m, (Machine.run paired.search pair.generations pair.observer).run.run
    (.start firstborn (some (.empty .standard))) = (.ok o, m) ∧ o.generations = 1 := by
  have hreliable := Assembly.search_reliable paired_sound
  have hfits : SchemeKind.epsilon.Fits
      ({ kappa := .given (.finite 1) } : SchemeArguments (Extended ℝ)) 1 := by
    simp [SchemeKind.Fits]
  have harchive := Machine.admitting_empty (paired.Sane ⟨1, 1, 1⟩) 1 firstborn
  obtain ⟨⟨⟩, founded, hsetUp, hpast, hready, -, hnone⟩ :=
    ((Machine.setUp_ends hreliable unit_build hfits paired_sane harchive ⟨[], .nothing⟩).mono
      (fun _ _ h => h) fun _ _ h => Bool.false_ne_true h.1).run fun _ _ => id
  obtain ⟨told, htold⟩ :=
    (hpast.steady hreliable unit_build hfits paired_sane harchive hready).outcome_run
  have hstops : (Machine.stops pair.observer 0).run.run founded = (.ok false, founded) :=
    Work.run_bind htold _
  obtain ⟨⟨⟩, m, hiterate, hlater, hgo, -, hone⟩ :=
    ((Machine.generation_ends hreliable unit_build hfits paired_sane harchive hpast).mono
      (fun _ _ h => h) fun _ _ h => Bool.false_ne_true (h.1.symm.trans hready)).run fun _ _ => id
  obtain ⟨o, houtcome⟩ :=
    (hlater.steady hreliable unit_build hfits paired_sane harchive hgo).outcome_run
  obtain ⟨-, -, hgives⟩ := Machine.outcome_ends.of_ok houtcome
  refine ⟨o, m, ?_, by rw [hgives.generations_eq, hone, hnone]; rfl⟩
  have hproceed : (Machine.proceed paired.search pair.observer 1 0).run.run founded =
      (.ok (), m) := by
    rw [Machine.proceed, Work.run_bind hstops, if_neg Bool.false_ne_true, Work.run_bind hiterate]
    rfl
  rw [Machine.run_run (by decide)]
  exact (Work.run_bind hsetUp _).trans ((Work.run_bind hproceed _).trans houtcome)

/-- Both are measured once, and so are the children that they have. -/
theorem run_calls_pair : ∃ o w, pair.run.run.run (.start ()) = (.ok o, w) ∧
    o.generations = 1 ∧ o.evaluations = w.tally.objectives ∧
    o.evaluations = w.tally.constraints ∧ o.evaluations = w.store.size := by
  obtain ⟨o, m, hmachine, hone⟩ := run_paired
  have hrun : pair.run.run.run (.start ()) = (.ok o, m.world) := by
    rw [run, Work.run_bind pair_prepare, Work.run_bind (Work.run_get _), hmachine]
    rfl
  have hobserver : ∀ f, pair.observer = some f → ∀ o i w, (f o i).Ends w
      (fun _ w' => w.Marked w') fun _ _ => True := by
    intro f hf o i w
    cases hf
    exact Work.ends_pure.mpr ⟨rfl, rfl, fun _ => .refl _⟩
  obtain ⟨x, f, sources, made, -, hf, hmade, hsize, ⟨hobjectives, hconstraints⟩, -⟩ :=
    run_calls pair rfl hobserver hrun
  cases hf
  have hnumber : ([.finite 0] : List (Extended ℝ)).all Scalar.isNumber = true := by simp
  refine ⟨o, m.world, hrun, hone, ?_, ?_, ?_⟩
  · rw [hmade, hobjectives]
    simp [Tensor.scalar, hnumber, World.start]
  · rw [hmade, hconstraints]
    simp [Tensor.scalar, hnumber, World.start, pair, lone]
  · rw [hmade, hsize]
    simp [World.start, Store.empty, Store.size]

/-- The only individual there is has no objective that is a number. -/
theorem lone_measured_twice : ∃ o w, (lone .nan).run.run.run (.start ()) = (.ok o, w) ∧
    o.evaluations = 1 ∧ w.store.size = 1 ∧ w.tally.objectives = 2 ∧ w.tally.constraints = 2 := by
  rw [run, prepare, bind_assoc, Work.run_bind (Work.run_lift (lone_scheme _) _)]
  exact ⟨_, _, rfl, rfl, rfl, rfl, rfl⟩

end Request
end ParetoSearch
