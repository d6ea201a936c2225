import Mathlib.Data.List.Basic
import Mathlib.Data.List.Induction
import ParetoSearch.Fitness.Tracker

/-!
# Writing fitness into solutions

What is behind a reference after fitness was written through it, and through
others.  Decisions, objectives and constraints stay (`Store.sameData_setFitness`).  A
population may hold a reference twice, and then the last write shows
(`fitness?_annotate`); the values written for one reference have to agree if each
member is to show its own.
-/

namespace ParetoSearch

variable {X α : Type}

namespace Solution

theorem lookup_replaceAttribute (name : String) (value : α) (attributes : List (String × α)) :
    (replaceAttribute name value attributes).lookup name = some value := by
  induction attributes with
  | nil => simp [replaceAttribute]
  | cons p rest ih =>
    rw [replaceAttribute]
    split
    case isTrue h => simp [h]
    case isFalse h =>
      rw [List.lookup_cons, beq_false_of_ne (Ne.symm h)]
      exact ih

@[simp] theorem fitness?_setFitness (s : Solution X α) (value : α) :
    (s.setFitness value).fitness? = some value :=
  lookup_replaceAttribute fitnessName value s.attributes

/-- Two solutions that differ in their annotations at most. -/
structure SameData (a b : Solution X α) : Prop where
  decision_eq : a.decision = b.decision
  objectives_eq : a.objectives = b.objectives
  constraints_eq : a.constraints = b.constraints

theorem SameData.refl (a : Solution X α) : a.SameData a := ⟨rfl, rfl, rfl⟩

theorem SameData.trans {a b c : Solution X α} (hab : a.SameData b) (hbc : b.SameData c) :
    a.SameData c :=
  ⟨hab.decision_eq.trans hbc.decision_eq, hab.objectives_eq.trans hbc.objectives_eq,
    hab.constraints_eq.trans hbc.constraints_eq⟩

end Solution

namespace Store

@[simp] theorem size_put (store : Store X α) (r : Ref) (x : Solution X α) :
    (store.put r x).size = store.size := Array.size_setIfInBounds

theorem put_put (store : Store X α) (r : Ref) (x y : Solution X α) :
    (store.put r x).put r y = store.put r y :=
  congrArg Store.mk (Array.setIfInBounds_setIfInBounds ..)

theorem put_of_size_le {store : Store X α} {r : Ref} (hr : store.size ≤ r.index)
    (x : Solution X α) : store.put r x = store := by
  unfold size at hr
  rw [put, Array.setIfInBounds, dif_neg (Nat.not_lt_of_le hr)]

variable [Inhabited X] {store : Store X α}

@[simp] theorem size_setFitness (store : Store X α) (r : Ref) (value : α) :
    (store.setFitness r value).size = store.size := size_put store r _

theorem look_put_self {r : Ref} (hr : r.index < store.size) (x : Solution X α) :
    (store.put r x).look r = x := by
  simp only [put, look]
  rw [Array.getD_eq_getD_getElem?, Array.getElem?_setIfInBounds_self_of_lt hr, Option.getD_some]

theorem look_put_of_ne {r q : Ref} (hqr : q ≠ r) (x : Solution X α) :
    (store.put r x).look q = store.look q := by
  have hindex : r.index ≠ q.index := fun h => hqr (by cases q; cases r; simp_all)
  simp only [put, look]
  rw [Array.getD_eq_getD_getElem?, Array.getElem?_setIfInBounds_ne hindex,
    ← Array.getD_eq_getD_getElem?]

/-- A reference to nothing shows the same whatever is put behind it. -/
theorem look_put (store : Store X α) (r q : Ref) (x : Solution X α) :
    (store.put r x).look q = if q = r ∧ q.index < store.size then x else store.look q := by
  split
  case isTrue h => rw [← h.1, look_put_self h.2]
  case isFalse h =>
    by_cases hqr : q = r
    · rw [← hqr, put_of_size_le (Nat.le_of_not_lt fun hq => h ⟨hqr, hq⟩)]
    · exact look_put_of_ne hqr x

/-- Of two changes in a row the second sees the first, where there is something to see. -/
theorem put_look_put (store : Store X α) (r : Ref) (x : Solution X α)
    (change : Solution X α → Solution X α) :
    (store.put r x).put r (change ((store.put r x).look r)) = store.put r (change x) := by
  by_cases hr : r.index < store.size
  · rw [look_put_self hr, put_put]
  · rw [put_put, put_of_size_le (Nat.le_of_not_lt hr), put_of_size_le (Nat.le_of_not_lt hr)]

theorem ext_look {store other : Store X α} (hsize : other.size = store.size)
    (hlook : ∀ r, other.look r = store.look r) : other = store := by
  refine congrArg Store.mk (Array.ext hsize fun i hi hi' => ?_)
  have hat := hlook ⟨i⟩
  simp only [look] at hat
  rwa [Array.getD_eq_getD_getElem?, Array.getD_eq_getD_getElem?, Array.getElem?_eq_getElem hi,
    Array.getElem?_eq_getElem hi'] at hat

theorem look_setFitness_self {r : Ref} (hr : r.index < store.size) (value : α) :
    (store.setFitness r value).look r = (store.look r).setFitness value :=
  look_put_self hr _

theorem look_setFitness_of_ne {r q : Ref} (hqr : q ≠ r) (value : α) :
    (store.setFitness r value).look q = store.look q :=
  look_put_of_ne hqr _

theorem sameData_setFitness (store : Store X α) (r q : Ref) (value : α) :
    ((store.setFitness r value).look q).SameData (store.look q) := by
  rw [setFitness, look_put]
  split
  case isTrue h =>
    rw [h.1]
    exact ⟨rfl, rfl, rfl⟩
  case isFalse => exact .refl _

end Store

namespace Tracker

variable [Inhabited X] {ι : Type} {member : ι → Ref} {value : ι → α}

theorem annotate_map (store : Store X α) (places : List ι) :
    annotate store (places.map member) (places.map value) =
      places.foldl (fun s i => s.setFitness (member i) (value i)) store := by
  rw [annotate, List.zip_map', List.foldl_map]

theorem size_annotate (store : Store X α) (places : List ι) :
    (annotate store (places.map member) (places.map value)).size = store.size := by
  rw [annotate_map]
  induction places generalizing store with
  | nil => rfl
  | cons i rest ih => rw [List.foldl_cons, ih, Store.size_setFitness]

/-- Each member shows the fitness of its place, where places with one member have one
fitness. -/
theorem fitness?_annotate {store : Store X α} {places : List ι}
    (hin : ∀ i ∈ places, (member i).index < store.size)
    (hsame : ∀ i ∈ places, ∀ j ∈ places, member i = member j → value i = value j) :
    ∀ i ∈ places, ((annotate store (places.map member) (places.map value)).look
      (member i)).fitness? = some (value i) := by
  -- The last write to a reference is the one that shows.
  induction places using List.reverseRecOn with
  | nil => simp
  | append_singleton earlier last ih =>
    intro i hi
    have hstep : annotate store ((earlier ++ [last]).map member) ((earlier ++ [last]).map value) =
        (annotate store (earlier.map member) (earlier.map value)).setFitness (member last)
          (value last) := by
      rw [annotate_map, annotate_map, List.foldl_append]
      rfl
    rw [hstep]
    by_cases hlast : member i = member last
    · rw [hlast, Store.look_setFitness_self, Solution.fitness?_setFitness,
        hsame i hi last (by simp) hlast]
      rw [size_annotate]
      exact hin last (by simp)
    · rw [Store.look_setFitness_of_ne hlast]
      have hearlier : i ∈ earlier := by
        rcases List.mem_append.mp hi with hi | hi
        · exact hi
        · exact absurd (congrArg member (List.mem_singleton.mp hi)) hlast
      exact ih (fun j hj => hin j (List.mem_append_left _ hj))
        (fun j hj k hk => hsame j (List.mem_append_left _ hj) k (List.mem_append_left _ hk)) i
        hearlier

/-- Where the same is written into all members, all show it. -/
theorem fitness?_annotate_const {store : Store X α} {members : List Ref} {fitness : List α}
    {x : α} (hstored : ∀ r ∈ members, r.index < store.size)
    (hlength : fitness.length = members.length) (hall : ∀ y ∈ fitness, y = x) :
    ∀ r ∈ members, ((annotate store members fitness).look r).fitness? = some x := by
  have hfitness : fitness = members.map fun _ => x := by
    rw [List.map_const', ← hlength]
    exact List.eq_replicate_of_mem hall
  have hwritten : ∀ r ∈ members,
      ((annotate store (members.map id) (members.map fun _ => x)).look (id r)).fitness? = some x :=
    fitness?_annotate hstored fun _ _ _ _ _ => rfl
  rw [List.map_id] at hwritten
  rwa [hfitness]

end Tracker
end ParetoSearch
