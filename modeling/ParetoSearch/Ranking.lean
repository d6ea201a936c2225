import ParetoSearch.Dominance

/-!
# Ranks

Rows are sorted into fronts.  Each row starts with the number of rows that
dominate it; a round gives the next rank to the rows whose number is down to
zero and takes their dominance off the others.
-/

namespace ParetoSearch

variable {β : Type} [LT β] [LE β] [DecidableLT β] [DecidableLE β]

/-- A row that has no rank yet, with its place and how many unranked rows
dominate it. -/
structure Unranked (β : Type) where
  place : Nat
  row : List β
  dominators : Nat

namespace Unranked

def start (rows : List (List β)) : List (Unranked β) :=
  rows.zipIdx.map fun (row, i) => ⟨i, row, (rows.filter fun a => dominates a row).length⟩

def isFree (u : Unranked β) : Bool := u.dominators == 0

/-- Take the dominance of a ranked front off a row. -/
def release (front : List (Unranked β)) (u : Unranked β) : Unranked β :=
  { u with dominators := u.dominators - (front.filter fun f => dominates f.row u.row).length }

/-- One rank a round; every round ranks a row, so as many rounds as rows are
enough. -/
def peel : Nat → Nat → List (Unranked β) → List (Nat × Nat)
  | 0, _, _ => []
  | fuel + 1, rank, rows =>
    let front := rows.filter isFree
    let rest := (rows.filter fun u => !u.isFree).map (release front)
    front.map (fun u => (u.place, rank)) ++ peel fuel (rank + 1) rest

end Unranked

/-- The rank of every row, zero for the rows that none dominates. -/
def ranks (rows : List (List β)) : List Nat :=
  let ranked := Unranked.peel rows.length 0 (Unranked.start rows)
  (List.range rows.length).map fun i => (ranked.lookup i).getD 0

end ParetoSearch
