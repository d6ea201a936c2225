import ParetoSearch.Fitness.Tracked
import ParetoSearch.Proofs.Archive.Session
import ParetoSearch.Proofs.Fitness.Upkeep

/-!
# Populations that change behind the tracker

A tracker is made for the members of one population, and knows of them only how many they
are.  Populations are changed by others too, and a removal may be asked of any.  So the
tracker refuses a population of another size, and whatever it refuses it leaves everything
as it was (`Bench.remove_answers`).  Another population of the right size it cannot tell
from its own, and then it writes one solution's fitness into another
(`Bench.drift_unnoticed`).
-/

namespace ParetoSearch

variable {X α : Type} [Scalar α]

/-! ## Histories -/

/-- Populations over one store, and one tracker. -/
structure Bench (X α : Type) [Scalar α] where
  store : Store X α
  populations : List (Container Ref α)
  tracker : Tracker α
  /-- Whom the last evaluation saw, if there was one, without those that were removed
  through the tracker since.  This is for the record only. -/
  due : Option (List Ref)

/-- What happens to solutions, populations and the tracker.  A population is named by the
place at which it came up. -/
inductive Move (X α : Type) [Scalar α] where
  | evaluate (place : Nat)
  | remove (place : Nat) (index : Int)
  /-- A population is changed without the tracker. -/
  | call (place : Nat) (call : Call Ref)
  | bring (population : Container Ref α)
  /-- Solutions are changed, or new ones made. -/
  | rewrite (store : Store X α)

namespace Bench

def start (store : Store X α) : Bench X α := ⟨store, [], .start, none⟩

/-- A population as the tracker is given it. -/
def tracked (b : Bench X α) (population : Container Ref α) : Tracked X α :=
  ⟨b.store, population, b.tracker⟩

/-- What was done to the population at a place. -/
def put (b : Bench X α) (place : Nat) (t : Tracked X α) (due : Option (List Ref)) : Bench X α :=
  ⟨t.store, b.populations.set place t.population, t.tracker, due⟩

variable [Inhabited X]

def evaluate (scheme : Scheme α) (b : Bench X α) (place : Nat) (population : Container Ref α) :
    Bench X α :=
  let (t, answer) := (b.tracked population).evaluate scheme
  b.put place t (match answer with
    | .ok () => some population.members
    | .error _ => b.due)

def remove (b : Bench X α) (place : Nat) (population : Container Ref α) (index : Int) :
    Bench X α :=
  let (t, answer) := (b.tracked population).remove index
  b.put place t (match answer with
    | .ok () => b.due.map fun members => dropEach members [index]
    | .error _ => b.due)

/-- Nothing happens to a population that there is not. -/
def after (scheme : Scheme α) (b : Bench X α) : Move X α → Bench X α
  | .evaluate place =>
    match b.populations[place]? with
    | some population => b.evaluate scheme place population
    | none => b
  | .remove place index =>
    match b.populations[place]? with
    | some population => b.remove place population index
    | none => b
  | .call place call =>
    { b with populations := b.populations.modify place fun c => c.after b.store.look call }
  | .bring population => { b with populations := b.populations ++ [population] }
  | .rewrite store => { b with store := store }

def run (scheme : Scheme α) (b : Bench X α) (moves : List (Move X α)) : Bench X α :=
  moves.foldl (after scheme) b

end Bench

/-! ## One removal -/

namespace Tracked

variable [Inhabited X] {t : Tracked X α} {index : Int}

theorem remove_unevaluated (h : t.tracker.assessment = none) :
    t.remove index = (t, .error .removalBeforeEvaluation) := by
  rw [remove, Tracker.remove, h]
  rfl

theorem remove_resized {a : Assessment α} (h : t.tracker.assessment = some a)
    (hsize : a.size ≠ t.population.size) :
    t.remove index = (t, .error (.populationChanged t.population.size a.size)) := by
  rw [remove, Tracker.remove, h]
  simp only [Container.size] at hsize
  simp only [if_pos hsize]
  rfl

theorem remove_outside {a : Assessment α} (h : t.tracker.assessment = some a)
    (hsize : a.size = t.population.size)
    (hindex : Vector.position? index t.population.size = none) :
    t.remove index = (t, .error (.outOfBounds index t.population.size)) := by
  rw [remove, Tracker.remove, h]
  simp only [Container.size] at hsize hindex
  simp only [if_neg (not_not.mpr hsize), hindex]
  rfl

theorem remove_inside {a : Assessment α} (h : t.tracker.assessment = some a)
    (hsize : a.size = t.population.size) {i : Nat}
    (hindex : Vector.position? index t.population.size = some i) :
    t.remove index =
      (⟨Tracker.annotate t.store (t.population.members.eraseIdx i) (a.erase i).fitness,
        { t.population with members := t.population.members.eraseIdx i },
        ⟨some (a.erase i), t.tracker.scale⟩⟩, .ok ()) := by
  rw [remove, Tracker.remove, h]
  simp only [Container.size] at hsize hindex
  simp only [if_neg (not_not.mpr hsize), hindex]
  rfl

theorem evaluate_cases (scheme : Scheme α) (t : Tracked X α) :
    (∃ e, t.evaluate scheme = (t, .error e)) ∨
      ∃ tracker store, t.tracker.evaluate scheme t.store t.population.members =
          .ok (tracker, store) ∧
        t.evaluate scheme = ({ t with tracker := tracker, store := store }, .ok ()) := by
  rw [evaluate]
  cases t.tracker.evaluate scheme t.store t.population.members with
  | error e => exact Or.inl ⟨e, rfl⟩
  | ok p => exact Or.inr ⟨p.1, p.2, rfl, rfl⟩

end Tracked

theorem Vector.position?_eq_none {index : Int} {size : Nat}
    (h : ¬ (-(size : Int) ≤ index ∧ index < size)) : position? index size = none := by
  unfold position?
  rw [if_neg]
  split <;> omega

namespace Bench

/-- The tracker is due so many members. -/
def Expects (b : Bench X α) (n : Nat) : Prop := ∃ members, b.due = some members ∧ members.length = n

/-- The tracker has a row, a column and a fitness for each member it is due. -/
inductive InStep (b : Bench X α) : Prop where
  | never (hdue : b.due = none) (hassessed : b.tracker.assessment = none)
  | since (members : List Ref) (a : Assessment α) (hdue : b.due = some members)
      (hassessed : b.tracker.assessment = some a) (hsquare : a.Square members.length)

theorem InStep.of_eq {b c : Bench X α} (h : b.InStep) (hdue : c.due = b.due)
    (htracker : c.tracker = b.tracker) : c.InStep := by
  cases h with
  | never hnone hassessed => exact .never (hdue.trans hnone) (htracker ▸ hassessed)
  | since members a hmembers hassessed hsquare =>
    exact .since members a (hdue.trans hmembers) (htracker ▸ hassessed) hsquare

variable [Inhabited X] {scheme : Scheme α} {b : Bench X α} {population : Container Ref α}
  {index : Int}

/-- All that a removal can do. -/
inductive Removal (b : Bench X α) (population : Container Ref α) (index : Int) :
    Tracked X α × Except (Fault α) Unit → Prop where
  | resized (e : Fault α) (he : e.category = .state) (hsize : ¬ b.Expects population.size) :
      Removal b population index (b.tracked population, .error e)
  | outside (hsize : b.Expects population.size)
      (hindex : ¬ (-(population.size : Int) ≤ index ∧ index < population.size)) :
      Removal b population index
        (b.tracked population, .error (.outOfBounds index population.size))
  | inside (members : List Ref) (a : Assessment α) (hdue : b.due = some members)
      (hassessed : b.tracker.assessment = some a) (hsquare : a.Square members.length)
      (hsize : members.length = population.size)
      (hindex : -(population.size : Int) ≤ index ∧ index < population.size) :
      Removal b population index
        (⟨Tracker.annotate b.store (dropEach population.members [index])
            (a.erase (index % population.size).toNat).fitness,
          { population with members := dropEach population.members [index] },
          ⟨some (a.erase (index % population.size).toNat), b.tracker.scale⟩⟩, .ok ())

theorem InStep.removal (h : b.InStep) (population : Container Ref α) (index : Int) :
    b.Removal population index ((b.tracked population).remove index) := by
  cases h with
  | never hdue hassessed =>
    have hsize : ¬ b.Expects population.size := by
      rintro ⟨members, hmembers, -⟩
      rw [hdue] at hmembers
      cases hmembers
    rw [Tracked.remove_unevaluated hassessed]
    exact .resized _ rfl hsize
  | since members a hdue hassessed hsquare =>
    have hdueSize : a.size = members.length := hsquare.length_contributions
    by_cases hsize : members.length = population.size
    · have hexpects : b.Expects population.size := ⟨members, hdue, hsize⟩
      by_cases hindex : -(population.size : Int) ≤ index ∧ index < population.size
      · rw [Tracked.remove_inside hassessed (hdueSize.trans hsize)
          (Vector.position?_eq hindex.1 hindex.2)]
        exact .inside members a hdue hassessed hsquare hsize hindex
      · rw [Tracked.remove_outside hassessed (hdueSize.trans hsize)
          (Vector.position?_eq_none hindex)]
        exact .outside hexpects hindex
    · have hexpects : ¬ b.Expects population.size := by
        rintro ⟨other, hother, hlength⟩
        rw [hdue] at hother
        cases hother
        exact hsize hlength
      rw [Tracked.remove_resized hassessed (hdueSize ▸ hsize)]
      exact .resized _ rfl hexpects

/-! ## Whole histories -/

theorem InStep.remove (h : b.InStep) (place : Nat) (population : Container Ref α) (index : Int) :
    (b.remove place population index).InStep := by
  have hremoval := h.removal population index
  rw [Bench.remove]
  generalize (b.tracked population).remove index = r at hremoval ⊢
  cases hremoval with
  | resized | outside => exact h.of_eq rfl rfl
  | inside members a hdue hassessed hsquare hsize hindex =>
    have hlt : (index % population.size).toNat < members.length := by
      rw [hsize]
      exact Vector.position?_lt (Vector.position?_eq hindex.1 hindex.2)
    have hlength : (dropEach members [index]).length = members.length - 1 := by
      rw [dropEach, dropEach, hsize, List.length_eraseIdx_of_lt hlt, hsize]
    refine .since (dropEach members [index]) _ ?_ rfl ?_
    · exact congrArg (Option.map fun members => dropEach members [index]) hdue
    · rw [hlength]
      exact hsquare.erase hlt

theorem InStep.evaluate (hs : scheme.Square) (h : b.InStep) (place : Nat)
    (population : Container Ref α) : (b.evaluate scheme place population).InStep := by
  rw [Bench.evaluate]
  rcases (b.tracked population).evaluate_cases scheme with ⟨e, heval⟩ | ⟨tracker, store, hok, heval⟩
  · rw [heval]
    exact h.of_eq rfl rfl
  · rw [heval]
    obtain ⟨a, hassessed, hsquare, -⟩ := Tracker.evaluate_ok hs hok
    exact .since population.members a rfl hassessed hsquare

/-- What is done to populations and solutions without the tracker does not change whom it is
due. -/
theorem InStep.after (hs : scheme.Square) (h : b.InStep) (move : Move X α) :
    (b.after scheme move).InStep := by
  cases move with
  | evaluate place =>
    rw [Bench.after]
    split
    · exact h.evaluate hs place _
    · exact h
  | remove place index =>
    rw [Bench.after]
    split
    · exact h.remove place _ index
    · exact h
  | call | bring | rewrite => exact h.of_eq rfl rfl

theorem run_inStep (hs : scheme.Square) (store : Store X α) (moves : List (Move X α)) :
    (run scheme (start store) moves).InStep :=
  List.foldlRecOn _ _ (InStep.never rfl rfl) fun _ h move _ => h.after hs move

/-- A removal is refused with a state error exactly where the population has another size
than the members the tracker is due, and nothing is changed by a refusal.  A removal that
goes through takes the population for those members: the survivors get, in order, the
fitness that theirs would have. -/
theorem remove_answers (hs : scheme.Square) (store : Store X α) (moves : List (Move X α))
    (population : Container Ref α) (index : Int) :
    let b := run scheme (start store) moves
    let r := (b.tracked population).remove index
    ((∃ e, r.2 = .error e ∧ e.category = .state) ↔ ¬ b.Expects population.size) ∧
    ((∃ e, r.2 = .error e ∧ e.category = .index) ↔ b.Expects population.size ∧
      ¬ (-(population.size : Int) ≤ index ∧ index < population.size)) ∧
    (∀ e, r.2 = .error e → r.1 = b.tracked population ∧
      (e.category = .state ∨ e.category = .index)) ∧
    (r.2 = .ok () → ∃ members fitness, b.due = some members ∧
      members.length = population.size ∧
      r.1.population = { population with members := dropEach population.members [index] } ∧
      r.1.tracker = ((b.tracked { population with members := members }).remove index).1.tracker ∧
      r.1.tracker.fitness? = .ok fitness ∧
      r.1.store = Tracker.annotate b.store r.1.population.members fitness) := by
  intro b r
  have hremoval : b.Removal population index r :=
    (run_inStep hs store moves).removal population index
  clear_value r
  cases hremoval with
  | resized e he hsize =>
    refine ⟨⟨fun _ => hsize, fun _ => ⟨e, rfl, he⟩⟩, ⟨?_, fun h => absurd h.1 hsize⟩, ?_, nofun⟩
    · rintro ⟨e', he', hcategory⟩
      cases he'
      rw [he] at hcategory
      cases hcategory
    · intro e' he'
      cases he'
      exact ⟨rfl, Or.inl he⟩
  | outside hsize hindex =>
    refine ⟨⟨?_, fun h => absurd hsize h⟩, ⟨fun _ => ⟨hsize, hindex⟩, fun _ => ⟨_, rfl, rfl⟩⟩,
      ?_, nofun⟩
    · rintro ⟨e, he, hcategory⟩
      cases he
      cases hcategory
    · intro e he
      cases he
      exact ⟨rfl, Or.inr rfl⟩
  | inside members a hdue hassessed hsquare hsize hindex =>
    refine ⟨⟨nofun, fun h => absurd ⟨members, hdue, hsize⟩ h⟩, ⟨nofun, fun h => absurd hindex h.2⟩,
      nofun, fun _ => ⟨members, _, hdue, hsize, rfl, ?_, rfl, rfl⟩⟩
    have hplace : Vector.position? index members.length = some (index % population.size).toNat := by
      rw [hsize]
      exact Vector.position?_eq hindex.1 hindex.2
    have hdueRemove := Tracked.remove_inside
      (t := b.tracked { population with members := members }) hassessed
      hsquare.length_contributions hplace
    rw [hdueRemove]
    rfl


/-- The first three of four solutions are evaluated, and then the first of them leaves the
population and the fourth solution comes in. -/
def exchange : List (Move Unit ℝ) :=
  [.bring ⟨.unrestricted, [⟨0⟩, ⟨1⟩, ⟨2⟩]⟩, .evaluate 0, .call 0 (.removeAt 0),
    .call 0 (.add (.solution ⟨3⟩))]

/-- Solutions, their population and the tracker after the first few of these moves. -/
noncomputable def exchanged (n : Nat) : Bench Unit ℝ :=
  run ⟨Scheme.epsilonMatrix, 1, false⟩ (start Tracker.ladder) (exchange.take n)

/-- Between the two changes of the population the size is wrong, and after both of them it
is right again. -/
theorem remove_answers_exchanged :
    (exchanged 3).populations.map Container.members = [[⟨1⟩, ⟨2⟩]] ∧
    (∃ e, (((exchanged 3).tracked ⟨.unrestricted, [⟨1⟩, ⟨2⟩]⟩).remove 0).2 = .error e ∧
      e.category = .state) ∧
    (exchanged 4).populations.map Container.members = [[⟨1⟩, ⟨2⟩, ⟨3⟩]] ∧
    (∃ e, (((exchanged 4).tracked ⟨.unrestricted, [⟨1⟩, ⟨2⟩, ⟨3⟩]⟩).remove 3).2 = .error e ∧
      e.category = .index) ∧
    ∃ members, (exchanged 4).due = some members ∧
      (((exchanged 4).tracked ⟨.unrestricted, [⟨1⟩, ⟨2⟩, ⟨3⟩]⟩).remove 0).1.tracker =
        (((exchanged 4).tracked ⟨.unrestricted, members⟩).remove 0).1.tracker := by
  have hs : (⟨Scheme.epsilonMatrix, 1, false⟩ : Scheme ℝ).Square :=
    fun _ _ h => Scheme.table_square h
  refine ⟨rfl, ?_, rfl, ?_, ?_⟩
  · refine (remove_answers hs Tracker.ladder (exchange.take 3) _ 0).1.mpr ?_
    rintro ⟨members, hdue, hlength⟩
    cases hdue
    exact absurd hlength (by decide)
  · exact (remove_answers hs Tracker.ladder (exchange.take 4) _ 3).2.1.mpr
      ⟨⟨[⟨0⟩, ⟨1⟩, ⟨2⟩], rfl, rfl⟩, by decide⟩
  · obtain ⟨members, fitness, hdue, -, -, htracker, -⟩ :=
      (remove_answers hs Tracker.ladder (exchange.take 4) ⟨.unrestricted, [⟨1⟩, ⟨2⟩, ⟨3⟩]⟩ 0).2.2.2
        rfl
    exact ⟨members, hdue, htracker⟩

/-- The members are not those that the tracker is due, and yet one is removed: the third
solution gets the fitness that the second would have, and the fourth that of the third. -/
theorem drift_unnoticed :
    let drifted := (exchanged 4).tracked ⟨.unrestricted, [⟨1⟩, ⟨2⟩, ⟨3⟩]⟩
    let faithful := (exchanged 4).tracked ⟨.unrestricted, [⟨0⟩, ⟨1⟩, ⟨2⟩]⟩
    (exchanged 4).populations[0]? = some drifted.population ∧
      (exchanged 4).due = some faithful.population.members ∧
      drifted.population.members ≠ faithful.population.members ∧
      (drifted.remove 0).2 = .ok () ∧
      (drifted.remove 0).1.members.map Prod.fst = [⟨2⟩, ⟨3⟩] ∧
      (faithful.remove 0).1.members.map Prod.fst = [⟨1⟩, ⟨2⟩] ∧
      (drifted.remove 0).1.members.map Prod.snd = (faithful.remove 0).1.members.map Prod.snd :=
  ⟨rfl, rfl, by decide, rfl, rfl, rfl, rfl⟩

end Bench
end ParetoSearch
