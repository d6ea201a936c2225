import ParetoSearch.Fitness.Scheme
import ParetoSearch.Store
import ParetoSearch.Comparator

/-!
# Tracked fitness

Evaluating a population freezes the contributions of its members to each other.
Removing a member adds what it did to the others back to their fitness, and no
other number changes, so a removal costs one row.

The tracker knows its population by size alone: whoever holds the members must
pass the ones that were evaluated.
-/

namespace ParetoSearch

/-- Frozen contributions, row by who acts and column by who is acted on, and the
fitness of each member. -/
structure Assessment (α : Type) where
  contributions : List (List α)
  fitness : List α

namespace Assessment

variable {α : Type} [Scalar α]

def ofContributions (contributions : List (List α)) : Assessment α :=
  ⟨contributions, (Vector.columnFold (· + ·) contributions).map (- ·)⟩

def size (a : Assessment α) : Nat := a.contributions.length

/-- Without the member at a place. -/
def erase (a : Assessment α) (i : Nat) : Assessment α :=
  { contributions := (a.contributions.eraseIdx i).map fun row => row.eraseIdx i
    fitness := (a.fitness.zipWith (· + ·) (a.contributions.getD i [])).eraseIdx i }

end Assessment

/-- An assessment with the scale it was made at. -/
def Scheme.assess {α : Type} [Scalar α] (s : Scheme α) (rows : List (List α)) :
    Except (Fault α) (Assessment α × α) := do
  let matrix ← s.matrix (← s.prepare rows)
  let scale := s.scaleOf matrix
  return (.ofContributions (s.contributions scale matrix), scale)

/-- What is known of the population last evaluated. -/
structure Tracker (α : Type) where
  assessment : Option (Assessment α)
  scale : α

namespace Tracker

variable {X α : Type} [Inhabited X] [Scalar α]

def start : Tracker α := ⟨none, 1⟩

def fitness? (t : Tracker α) : Except (Fault α) (List α) :=
  match t.assessment with
  | none => .error .fitnessNotEvaluated
  | some a => .ok a.fitness

/-- Write each member's fitness into its solution. -/
def annotate (store : Store X α) (members : List Ref) (fitness : List α) : Store X α :=
  (members.zip fitness).foldl (fun s p => s.setFitness p.1 p.2) store

def rows (store : Store X α) (members : List Ref) : Except (Fault α) (List (List α)) :=
  Vector.stack (members.map fun r => (store.look r).objectives)

/-- Assign fitness to every member.  An empty population keeps the scale of the
last one. -/
def evaluate (scheme : Scheme α) (t : Tracker α) (store : Store X α) (members : List Ref) :
    Except (Fault α) (Tracker α × Store X α) :=
  if members.isEmpty then .ok (⟨some ⟨[], []⟩, t.scale⟩, store)
  else do
    let (a, scale) ← scheme.assess (← rows store members)
    return (⟨some a, scale⟩, annotate store members a.fitness)

/-- Remove the member at an index and repair the fitness of the others. -/
def remove (t : Tracker α) (store : Store X α) (members : List Ref) (index : Int) :
    Except (Fault α) (Tracker α × Store X α × List Ref) :=
  match t.assessment with
  | none => .error .removalBeforeEvaluation
  | some a =>
    if a.size ≠ members.length then .error (.populationChanged members.length a.size)
    else match Vector.position? index members.length with
      | none => .error (.outOfBounds index members.length)
      | some i =>
        let rest := members.eraseIdx i
        let left := a.erase i
        .ok (⟨some left, t.scale⟩, annotate store rest left.fitness, rest)

/-- The first member that no earlier or later one falls short of, by a scan that
keeps the earlier of two equals. -/
def worstPlace (store : Store X α) (members : List Ref) : Except (Fault α) Nat :=
  match members with
  | [] => .ok 0
  | m :: rest => do
    let worst ← rest.zipIdx.foldlM (fun (worst : Ref × Nat) p => do
      match ← compareFitness true (store.look worst.1) (store.look p.1) with
      | .lt => return (p.1, p.2 + 1)
      | _ => return worst) (m, 0)
    return worst.2

end Tracker
end ParetoSearch
