import ParetoSearch.Solution

/-!
# The store of solutions

Solutions are shared: a population, an archive and an earlier result may hold
the same one, and a change made through one of them shows in all.  They
therefore hold references into a store.
-/

namespace ParetoSearch

structure Ref where
  index : Nat
  deriving DecidableEq, Repr

/-- The reference at an index among `size` of them; a negative one counts from the
end. -/
def Ref.at? {α : Type} (size : Nat) (index : Int) : Except (Fault α) Ref :=
  match Vector.position? index size with
  | none => .error .noPosition
  | some i => .ok ⟨i⟩

structure Store (X α : Type) where
  solutions : Array (Solution X α)

namespace Store

variable {X α : Type}

def empty : Store X α := ⟨#[]⟩

def ofList (solutions : List (Solution X α)) : Store X α := ⟨solutions.toArray⟩

def size (s : Store X α) : Nat := s.solutions.size

def refs (s : Store X α) : List Ref := (List.range s.size).map Ref.mk

variable [Inhabited X]

/-- What is behind a reference; a reference to nothing shows a solution without
objectives. -/
def look (s : Store X α) (r : Ref) : Solution X α :=
  s.solutions.getD r.index ⟨default, [], [], []⟩

def insert (s : Store X α) (x : Solution X α) : Store X α × Ref :=
  (⟨s.solutions.push x⟩, ⟨s.size⟩)

def put (s : Store X α) (r : Ref) (x : Solution X α) : Store X α :=
  ⟨s.solutions.setIfInBounds r.index x⟩

def setFitness (s : Store X α) (r : Ref) (value : α) : Store X α :=
  s.put r ((s.look r).setFitness value)

end Store
end ParetoSearch
