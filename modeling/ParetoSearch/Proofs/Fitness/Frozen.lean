import ParetoSearch.Proofs.Arithmetic.Exact
import ParetoSearch.Proofs.Store
import ParetoSearch.Proofs.Work

/-!
# Fitness among the survivors

Evaluation freezes what each member does to each other, and a removal only takes off
the fitness of the others what the removed member did to them.  In exact arithmetic
nothing is lost by this: after any removals the fitness of a survivor is what adding
up the frozen effects of the other survivors would give
(`evaluate_removeEach_standing`).

Members are named by their places at evaluation, because indices shift with every
removal.  `Tracker.Follows` says of a tracker, a store and a population that all three
are those of the members left at some places; evaluation makes it true of all places
and a removal keeps it.  A solution may be a member twice.  It then shows the fitness
written last, and the invariant asks of such places that they do and suffer the same.
-/

namespace ParetoSearch

variable {X α : Type} [ExactScalar α]

/-! ## Fitness from scratch -/

/-- Minus what the other members at some places do to the one at a place. -/
def standing (effect : Nat → Nat → α) (places : List Nat) (i : Nat) : α :=
  -((places.filter (· ≠ i)).map (effect · i)).sum

/-- What one place does to another, nothing to itself. -/
def toOthers (effect : Nat → Nat → α) (j i : Nat) : α := if j = i then 0 else effect j i

theorem standing_eq (effect : Nat → Nat → α) (places : List Nat) (i : Nat) :
    standing effect places i = -(places.map (toOthers effect · i)).sum := by
  rw [standing, neg_inj]
  induction places with
  | nil => rfl
  | cons j rest ih =>
    by_cases hj : j = i
    · rw [List.filter_cons_of_neg (by simpa using hj), List.map_cons, List.sum_cons, ih, toOthers,
        if_pos hj, zero_add]
    · rw [List.filter_cons_of_pos (by simpa using hj), List.map_cons, List.sum_cons,
        List.map_cons, List.sum_cons, ih, toOthers, if_neg hj]

theorem standing_perm {effect : Nat → Nat → α} {places others : List Nat}
    (h : places.Perm others) (i : Nat) : standing effect places i = standing effect others i := by
  rw [standing_eq, standing_eq, (h.map (toOthers effect · i)).sum_eq]

/-- Without one of the members, the others lack what it did to them. -/
theorem standing_eraseIdx (effect : Nat → Nat → α) {places : List Nat} {k : Nat}
    (hk : k < places.length) (i : Nat) :
    standing effect (places.eraseIdx k) i =
      standing effect places i + toOthers effect places[k] i := by
  rw [standing_perm (List.getElem_cons_eraseIdx_perm hk).symm, standing_eq, standing_eq,
    List.map_cons, List.sum_cons]
  ring

/-- Places that do and suffer the same among the first `n`. -/
structure Alike (effect : Nat → Nat → α) (n i j : Nat) : Prop where
  mutual_eq : effect i j = effect j i
  suffers_eq : ∀ k < n, effect k i = effect k j

omit [ExactScalar α] in
theorem Alike.refl (effect : Nat → Nat → α) (n i : Nat) : Alike effect n i i :=
  ⟨rfl, fun _ _ => rfl⟩

/-- What a place suffers from one other place, and from the rest. -/
theorem standing_of_mem (effect : Nat → Nat → α) {places : List Nat} (hnodup : places.Nodup)
    {i j : Nat} (hij : j ≠ i) (hj : j ∈ places) :
    standing effect places i =
      -(effect j i + (((places.erase i).erase j).map (effect · i)).sum) := by
  have hothers : places.filter (· ≠ i) = places.erase i := by
    rw [hnodup.erase_eq_filter]
    refine List.filter_congr fun k _ => ?_
    by_cases hk : k = i <;> simp [hk]
  have hperm : (places.erase i).Perm (j :: (places.erase i).erase j) :=
    List.perm_cons_erase ((List.mem_erase_of_ne hij).mpr hj)
  rw [standing, hothers, (hperm.map (effect · i)).sum_eq, List.map_cons, List.sum_cons]

theorem Alike.standing_eq {effect : Nat → Nat → α} {n i j : Nat} (h : Alike effect n i j)
    {places : List Nat} (hnodup : places.Nodup) (hplaces : ∀ k ∈ places, k < n)
    (hi : i ∈ places) (hj : j ∈ places) :
    standing effect places i = standing effect places j := by
  rcases eq_or_ne i j with rfl | hij
  · rfl
  -- The two do the same to each other, and the others the same to both.
  have hrest : ((places.erase i).erase j).map (effect · i) =
      ((places.erase i).erase j).map (effect · j) := by
    refine List.map_congr_left fun k hk => ?_
    exact h.suffers_eq k (hplaces k (List.mem_of_mem_erase (List.mem_of_mem_erase hk)))
  rw [standing_of_mem effect hnodup hij.symm hj, standing_of_mem effect hnodup hij hi, hrest,
    h.mutual_eq, List.erase_comm]

/-- The assessment of the members at some places, made from scratch. -/
def Assessment.among (effect : Nat → Nat → α) (places : List Nat) : Assessment α where
  contributions := places.map fun j => places.map fun i => toOthers effect j i
  fitness := places.map (standing effect places)

namespace Vector

theorem columnFold_add_map {ι κ : Type} (f : ι → κ → α) (row : ι) (rows : List ι)
    (columns : List κ) :
    columnFold (· + ·) ((row :: rows).map fun j => columns.map (f j)) =
      columns.map fun i => ((row :: rows).map (f · i)).sum := by
  rw [List.map_cons, columnFold]
  generalize hfirst : f row = first
  have hsum : ∀ i, ((row :: rows).map (f · i)).sum = first i + (rows.map (f · i)).sum := by
    intro i
    rw [List.map_cons, List.sum_cons, hfirst]
  simp only [hsum]
  clear hsum hfirst
  induction rows generalizing first with
  | nil => simp
  | cons j rest ih =>
    rw [List.map_cons, List.foldl_cons, List.zipWith_map, List.zipWith_self]
    rw [ih fun i => first i + f j i]
    simp only [List.map_cons, List.sum_cons, add_assoc]

end Vector

namespace Assessment

theorem ofContributions_among (effect : Nat → Nat → α) (places : List Nat) :
    ofContributions (among effect places).contributions = among effect places := by
  cases places with
  | nil => rfl
  | cons i rest =>
    have hsums : (Vector.columnFold (· + ·) (among effect (i :: rest)).contributions).map (- ·) =
        (i :: rest).map (standing effect (i :: rest)) := by
      rw [among, Vector.columnFold_add_map, List.map_map]
      exact List.map_congr_left fun k _ => (standing_eq effect _ k).symm
    rw [ofContributions, hsums]
    rfl

theorem size_among (effect : Nat → Nat → α) (places : List Nat) :
    (among effect places).size = places.length := List.length_map _

/-- Repairing an assessment is making it anew without the member. -/
theorem erase_among (effect : Nat → Nat → α) {places : List Nat} {k : Nat}
    (hk : k < places.length) :
    (among effect places).erase k = among effect (places.eraseIdx k) := by
  have hcontributions : ((places.map fun j => places.map fun i => toOthers effect j i).eraseIdx
      k).map (fun row => row.eraseIdx k) = (places.eraseIdx k).map fun j =>
        (places.eraseIdx k).map fun i => toOthers effect j i := by
    rw [List.eraseIdx_map, List.map_map]
    exact List.map_congr_left fun j _ => List.eraseIdx_map _ _ _
  have hfitness : ((places.map (standing effect places)).zipWith (· + ·)
      ((places.map fun j => places.map fun i => toOthers effect j i).getD k [])).eraseIdx k =
        (places.eraseIdx k).map (standing effect (places.eraseIdx k)) := by
    rw [List.getD_eq_getElem?_getD, List.getElem?_map, List.getElem?_eq_getElem hk,
      Option.map_some, Option.getD_some, List.zipWith_map, List.zipWith_self, List.eraseIdx_map]
    exact List.map_congr_left fun i _ => (standing_eraseIdx effect hk i).symm
  rw [erase, among, among, hcontributions, hfitness]

end Assessment

/-! ## What evaluation freezes -/

namespace Scheme

/-- The indicator matrix of a population, from its objectives on the scale it sets. -/
def measure? {α : Type} [Scalar α] (s : Scheme α) (rows : List (List α)) :
    Except (Fault α) (List (List α)) := do
  s.matrix (← s.prepare rows)

/-- What row `j` does to row `i` under a matrix. -/
def effect (s : Scheme α) (matrix : List (List α)) (j i : Nat) : α :=
  Scalar.exp (-((matrix.getD j []).getD i 0) / (s.scaleOf matrix * s.kappa))

theorem contributions_eq (s : Scheme α) {matrix : List (List α)} {n : Nat}
    (hrows : matrix.length = n) (hcolumns : ∀ row ∈ matrix, row.length = n) :
    s.contributions (s.scaleOf matrix) matrix =
      (Assessment.among (s.effect matrix) (List.range n)).contributions := by
  refine List.ext_getElem (by simp [contributions, Assessment.among, hrows]) fun j hj _ => ?_
  have hj : j < matrix.length := by simpa [contributions] using hj
  have hrow : matrix[j].length = n := hcolumns _ (List.getElem_mem hj)
  refine List.ext_getElem (by simp [contributions, Assessment.among, hrow]) fun i hi _ => ?_
  have hi : i < matrix[j].length := by simpa [contributions] using hi
  simp [contributions, Assessment.among, toOthers, effect, hj, hi]

theorem assess_eq_measure? {α : Type} [Scalar α] (s : Scheme α) (rows : List (List α)) :
    s.assess rows = (s.measure? rows).map fun matrix =>
      (.ofContributions (s.contributions (s.scaleOf matrix) matrix), s.scaleOf matrix) := by
  unfold assess measure?
  cases s.prepare rows with
  | error e => rfl
  | ok prepared => cases s.matrix prepared <;> rfl

theorem assess_eq (s : Scheme α) {rows matrix : List (List α)} {n : Nat}
    (hmeasure : s.measure? rows = .ok matrix) (hrows : matrix.length = n)
    (hcolumns : ∀ row ∈ matrix, row.length = n) :
    s.assess rows = .ok (.among (s.effect matrix) (List.range n), s.scaleOf matrix) := by
  rw [assess_eq_measure?, hmeasure, Except.map, s.contributions_eq hrows hcolumns,
    Assessment.ofContributions_among]

end Scheme

/-! ## Trackers that follow their population -/

/-- The member at a place. -/
def atPlace (members : List Ref) (i : Nat) : Ref := members.getD i ⟨0⟩

theorem map_atPlace_range (members : List Ref) :
    (List.range members.length).map (atPlace members) = members := by
  refine List.ext_getElem (by simp) fun i hi _ => ?_
  have hi : i < members.length := by simpa using hi
  simp [atPlace, hi]

theorem filterMap_eq_map_atPlace {members : List Ref} {places : List Nat}
    (h : ∀ i ∈ places, i < members.length) :
    places.filterMap (members[·]?) = places.map (atPlace members) := by
  rw [← List.filterMap_eq_map]
  refine List.filterMap_congr fun i hi => ?_
  simp [atPlace, h i hi]

theorem atPlace_mem {members : List Ref} {i : Nat} (hi : i < members.length) :
    atPlace members i ∈ members := by
  have hat : atPlace members i = members[i] := by simp [atPlace, hi]
  rw [hat]
  exact List.getElem_mem hi

/-- Places that hold one solution do and suffer the same. -/
def SharedAlike (effect : Nat → Nat → α) (members : List Ref) : Prop :=
  ∀ i < members.length, ∀ j < members.length,
    atPlace members i = atPlace members j → Alike effect members.length i j

omit [ExactScalar α] in
theorem sharedAlike_of_nodup {effect : Nat → Nat → α} {members : List Ref}
    (hnodup : members.Nodup) : SharedAlike effect members := by
  intro i hi j hj hsame
  have hij : i = j := by
    simpa [atPlace, hi, hj, hnodup.getElem_inj_iff] using hsame
  rw [hij]
  exact .refl effect members.length j

theorem Vector.position?_lt {index : Int} {size k : Nat} (h : position? index size = some k) :
    k < size := by
  unfold position? at h
  simp only [Option.ite_none_right_eq_some, Option.some.injEq] at h
  omega

theorem Vector.position?_eq {index : Int} {size : Nat} (hlower : -(size : Int) ≤ index)
    (hupper : index < size) : position? index size = some (index % size).toNat := by
  have hmod : index % size = if index < 0 then index + size else index := by
    split
    case isTrue hneg =>
      rw [← Int.add_emod_right, Int.emod_eq_of_lt (by omega) (by omega)]
    case isFalse hpos => exact Int.emod_eq_of_lt (by omega) hupper
  unfold position?
  rw [hmod, if_pos]
  split <;> omega

theorem Vector.position?_natCast {k size : Nat} (hk : k < size) :
    position? (k : Int) size = some k := by
  rw [Vector.position?_eq (by omega) (by omega)]
  rw [Int.emod_eq_of_lt (by omega) (by omega), Int.toNat_natCast]

omit [ExactScalar α] in
/-- Rows of one width go together. -/
theorem Vector.stack_ok {β : Type} {rows : List (List β)} {width : Nat}
    (h : ∀ row ∈ rows, row.length = width) :
    (stack rows : Except (Fault α) (List (List β))) = .ok rows := by
  cases rows with
  | nil => rfl
  | cons row rest =>
    rw [List.forall_mem_cons] at h
    rw [stack, if_pos]
    rw [List.all_eq_true]
    intro r hr
    rw [decide_eq_true_eq, h.1, h.2 r hr]

namespace Tracker

variable [Inhabited X]

/-- The tracker, the store and the population are those of the members left at some
places. -/
structure Follows (effect : Nat → Nat → α) (members : List Ref) (places : List Nat)
    (t : Tracker α) (store : Store X α) (population : List Ref) : Prop where
  assessment_eq : t.assessment = some (.among effect places)
  population_eq : population = places.map (atPlace members)
  fitness_eq : ∀ i ∈ places,
    (store.look (atPlace members i)).fitness? = some (standing effect places i)
  stored : ∀ i ∈ places, (atPlace members i).index < store.size
  nodup : places.Nodup
  lt : ∀ i ∈ places, i < members.length

namespace Follows

variable {effect : Nat → Nat → α} {members : List Ref} {places : List Nat} {t : Tracker α}
  {store : Store X α} {population : List Ref}

theorem length_eq (h : Follows effect members places t store population) :
    population.length = places.length := by
  rw [h.population_eq, List.length_map]

theorem fitness?_eq (h : Follows effect members places t store population) :
    t.fitness? = .ok (places.map (standing effect places)) := by
  rw [fitness?, h.assessment_eq]
  rfl

/-- Fitness that is written into the members shows, even where two places share a
member. -/
theorem annotated (hstored : ∀ i ∈ places, (atPlace members i).index < store.size)
    (hnodup : places.Nodup) (hlt : ∀ i ∈ places, i < members.length)
    (hshared : SharedAlike effect members) (scale : α) :
    Follows effect members places ⟨some (.among effect places), scale⟩
      (annotate store (places.map (atPlace members)) (places.map (standing effect places)))
      (places.map (atPlace members)) := by
  refine ⟨rfl, rfl, fitness?_annotate hstored fun i hi j hj hsame => ?_, fun i hi => ?_, hnodup,
    hlt⟩
  · exact (hshared i (hlt i hi) j (hlt j hj) hsame).standing_eq hnodup hlt hi hj
  · rw [size_annotate]
    exact hstored i hi

theorem remove (h : Follows effect members places t store population)
    (hshared : SharedAlike effect members)
    {index : Int} {k : Nat} (hk : Vector.position? index population.length = some k) :
    ∃ tracker next, t.remove store population index = .ok (tracker, next, population.eraseIdx k) ∧
      Follows effect members (places.eraseIdx k) tracker next (population.eraseIdx k) := by
  have hlt : k < places.length := h.length_eq ▸ Vector.position?_lt hk
  have hsize : (Assessment.among effect places).size = population.length := by
    rw [Assessment.size_among, h.length_eq]
  have hrest : population.eraseIdx k = (places.eraseIdx k).map (atPlace members) := by
    rw [h.population_eq, List.eraseIdx_map]
  have hsub : ∀ i ∈ places.eraseIdx k, i ∈ places := fun i hi => List.mem_of_mem_eraseIdx hi
  have hnext := annotated (fun i hi => h.stored i (hsub i hi)) (h.nodup.eraseIdx k)
    (fun i hi => h.lt i (hsub i hi)) hshared t.scale
  refine ⟨_, _, ?_, hrest ▸ hnext⟩
  rw [Tracker.remove, h.assessment_eq]
  simp only [hsize, ne_eq, not_true_eq_false, if_false, hk, Assessment.erase_among effect hlt]
  rw [hrest]
  rfl

end Follows

/-- Evaluation freezes the effects, and follows all places. -/
theorem evaluate_follows (s : Scheme α) (t : Tracker α) (store : Store X α) (members : List Ref)
    (hstored : ∀ r ∈ members, r.index < store.size) {width : Nat}
    (hwidth : ∀ r ∈ members, (store.look r).objectives.length = width)
    {matrix : List (List α)}
    (hmatrix : members ≠ [] →
      s.measure? (members.map fun r => (store.look r).objectives) = .ok matrix ∧
        matrix.length = members.length ∧ ∀ row ∈ matrix, row.length = members.length)
    (hshared : SharedAlike (s.effect matrix) members) :
    ∃ tracker next, t.evaluate s store members = .ok (tracker, next) ∧
      Follows (s.effect matrix) members (List.range members.length) tracker next members := by
  rcases eq_or_ne members [] with rfl | hne
  · exact ⟨_, _, rfl, rfl, rfl, by simp, by simp, List.nodup_nil, by simp⟩
  · obtain ⟨hmeasure, hrows, hcolumns⟩ := hmatrix hne
    have hstack : rows store members = .ok (members.map fun r => (store.look r).objectives) :=
      Vector.stack_ok fun row hrow => by
        obtain ⟨r, hr, rfl⟩ := List.mem_map.mp hrow
        exact hwidth r hr
    have hat : ∀ i ∈ List.range members.length, (atPlace members i).index < store.size :=
      fun i hi => hstored _ (atPlace_mem (List.mem_range.mp hi))
    have hfollows := Follows.annotated hat List.nodup_range
      (fun i hi => List.mem_range.mp hi) hshared (s.scaleOf matrix)
    rw [map_atPlace_range] at hfollows
    refine ⟨_, _, ?_, hfollows⟩
    rw [evaluate, if_neg (by simpa using hne), hstack, ok_bind,
      s.assess_eq hmeasure hrows hcolumns, ok_bind]
    rfl

/-! ## Removals one after another -/

/-- Remove the member at each index in turn. -/
def removeEach (t : Tracker α) (store : Store X α) (members : List Ref) :
    List Int → Except (Fault α) (Tracker α × Store X α × List Ref)
  | [] => .ok (t, store, members)
  | index :: rest => do
    let (t, store, members) ← t.remove store members index
    t.removeEach store members rest

end Tracker

/-- Whether each index points into what the ones before it leave of so many entries,
from the front or, if it is negative, from the back. -/
def ValidIndices : Nat → List Int → Prop
  | _, [] => True
  | size, index :: rest => -(size : Int) ≤ index ∧ index < size ∧ ValidIndices (size - 1) rest

instance ValidIndices.decidable : ∀ size indices, Decidable (ValidIndices size indices)
  | _, [] => isTrue trivial
  | size, index :: rest =>
    have := ValidIndices.decidable (size - 1) rest
    inferInstanceAs (Decidable (-(size : Int) ≤ index ∧ index < size ∧
      ValidIndices (size - 1) rest))

/-- What is left when the entries at indices are taken out one after another. -/
def dropEach {ι : Type} : List ι → List Int → List ι
  | xs, [] => xs
  | xs, index :: rest => dropEach (xs.eraseIdx (index % xs.length).toNat) rest

theorem dropEach_map {ι κ : Type} (f : ι → κ) (xs : List ι) (indices : List Int) :
    dropEach (xs.map f) indices = (dropEach xs indices).map f := by
  induction indices generalizing xs with
  | nil => rfl
  | cons index rest ih => rw [dropEach, dropEach, ← ih, List.length_map, List.eraseIdx_map]

theorem mem_of_mem_dropEach {ι : Type} {x : ι} {xs : List ι} {indices : List Int}
    (hx : x ∈ dropEach xs indices) : x ∈ xs := by
  induction indices generalizing xs with
  | nil => exact hx
  | cons index rest ih => exact List.mem_of_mem_eraseIdx (ih hx)

namespace Tracker

variable [Inhabited X]

theorem Follows.removeEach {effect : Nat → Nat → α} {members : List Ref} {places : List Nat}
    {t : Tracker α} {store : Store X α} {population : List Ref}
    (h : Follows effect members places t store population)
    (hshared : SharedAlike effect members)
    {indices : List Int} (hvalid : ValidIndices population.length indices) :
    ∃ tracker next, t.removeEach store population indices =
        .ok (tracker, next, dropEach population indices) ∧
      Follows effect members (dropEach places indices) tracker next
        (dropEach population indices) := by
  induction indices generalizing t store population places with
  | nil => exact ⟨t, store, rfl, h⟩
  | cons index rest ih =>
    obtain ⟨hlower, hupper, hrest⟩ := hvalid
    have hk := Vector.position?_eq hlower hupper
    obtain ⟨tracker, next, hremove, hfollows⟩ := h.remove hshared hk
    rw [← List.length_eraseIdx_of_lt (Vector.position?_lt hk)] at hrest
    obtain ⟨last, final, hlast, hall⟩ := ih hfollows hrest
    refine ⟨last, final, ?_, ?_⟩
    · rw [Tracker.removeEach, hremove]
      exact hlast
    · rw [dropEach, ← h.length_eq]
      exact hall

/-- However members are removed after an evaluation, the tracker and the members show
for each survivor, in the order of the population, minus the sum of what the other
survivors do to it, as frozen at the evaluation. -/
theorem evaluate_removeEach_standing (s : Scheme α) (t : Tracker α) (store : Store X α)
    (members : List Ref) (hnodup : members.Nodup) (hstored : ∀ r ∈ members, r.index < store.size)
    {width : Nat} (hwidth : ∀ r ∈ members, (store.look r).objectives.length = width)
    {matrix : List (List α)}
    (hmatrix : members ≠ [] →
      s.measure? (members.map fun r => (store.look r).objectives) = .ok matrix ∧
        matrix.length = members.length ∧ ∀ row ∈ matrix, row.length = members.length)
    (indices : List Int) (hvalid : ValidIndices members.length indices) :
    let places := dropEach (List.range members.length) indices
    let survivors := dropEach members indices
    ∃ tracker final,
      (do
        let (tracker, next) ← t.evaluate s store members
        tracker.removeEach next members indices) = .ok (tracker, final, survivors) ∧
      survivors = places.filterMap (members[·]?) ∧
      tracker.fitness? = .ok (places.map (standing (s.effect matrix) places)) ∧
      survivors.map (fun r => (final.look r).fitness?) =
        places.map fun i => some (standing (s.effect matrix) places i) := by
  intro places survivors
  have hshared : SharedAlike (s.effect matrix) members := sharedAlike_of_nodup hnodup
  obtain ⟨first, next, hevaluate, hfirst⟩ :=
    evaluate_follows s t store members hstored hwidth hmatrix hshared
  obtain ⟨last, final, hremove, hlast⟩ := hfirst.removeEach hshared hvalid
  have hsurvivors : survivors = places.map (atPlace members) := by
    rw [← dropEach_map, map_atPlace_range]
  have hplaces : ∀ i ∈ places, i < members.length := fun i hi =>
    List.mem_range.mp (mem_of_mem_dropEach hi)
  refine ⟨last, final, ?_, ?_, hlast.fitness?_eq, ?_⟩
  · rw [hevaluate]
    exact hremove
  · rw [hsurvivors, filterMap_eq_map_atPlace hplaces]
  · rw [hsurvivors, List.map_map]
    exact List.map_congr_left hlast.fitness_eq

/-- Four solutions, from the best in the first objective to the best in the second. -/
noncomputable def ladder : Store Unit ℝ :=
  .ofList ([[0, 3], [1, 2], [2, 1], [4, 0]].map fun row => ⟨(), row.map Nat.cast, [], []⟩)

/-- The second of four leaves, and then the second of the three that are left. -/
theorem evaluate_removeEach_standing_outer :
    ∃ tracker final,
      (do
        let (tracker, next) ←
          Tracker.start.evaluate ⟨Scheme.epsilonMatrix, 1, false⟩ ladder ladder.refs
        tracker.removeEach next ladder.refs [-3, 1]) = .ok (tracker, final, [⟨0⟩, ⟨3⟩]) ∧
      tracker.fitness? = .ok [-Real.exp (-4), -Real.exp (-3)] := by
  have hwidth : ∀ r ∈ ladder.refs, (ladder.look r).objectives.length = 2 := by decide
  have hrows : (ladder.refs.map fun r => (ladder.look r).objectives) =
      [[0, 3], [1, 2], [2, 1], [4, 0]] := by
    change [[0, 3], [1, 2], [2, 1], [4, 0]].map (List.map (Nat.cast : ℕ → ℝ)) = _
    simp
  have hmatrix : (⟨Scheme.epsilonMatrix, 1, false⟩ : Scheme ℝ).measure?
      (ladder.refs.map fun r => (ladder.look r).objectives) =
        .ok [[0, 1, 2, 3], [1, 0, 1, 2], [2, 1, 0, 1], [4, 3, 2, 0]] := by
    rw [hrows]
    norm_num [Scheme.measure?, Scheme.prepare, Scheme.epsilonMatrix, Scalar.greatest?,
      Scalar.greater, pure, Except.pure, bind, Except.bind]
  obtain ⟨tracker, final, hrun, -, hfitness, -⟩ := evaluate_removeEach_standing
    ⟨Scheme.epsilonMatrix, 1, false⟩ Tracker.start ladder ladder.refs (by decide) (by decide) hwidth
    (fun _ => ⟨hmatrix, rfl, by decide⟩) [-3, 1] (by decide)
  refine ⟨tracker, final, hrun, hfitness.trans ?_⟩
  change Except.ok (List.map (standing _ [0, 3]) [0, 3]) = _
  simp [standing, Scheme.effect, Scheme.scaleOf, Scalar.exp, ExactScalar.exp]

end Tracker
end ParetoSearch
