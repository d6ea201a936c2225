import ParetoSearch.Tensor

/-!
# Pareto dominance

One vector dominates another when it is nowhere worse and somewhere better.
Better is smaller.  A comparison with a value that is not a number fails, so
such an entry neither dominates nor is dominated.
-/

namespace ParetoSearch

section

variable {α β : Type} [LT β] [LE β] [DecidableLT β] [DecidableLE β]

/-- Nowhere worse and somewhere better over matched entries. -/
@[specialize] def dominatesPaired (pairs : List (β × β)) : Bool :=
  pairs.all (fun p => decide (p.1 ≤ p.2)) && pairs.any (fun p => decide (p.1 < p.2))

@[specialize] def nowhereWorse : List β → List β → Bool
  | x :: xs, y :: ys => decide (x ≤ y) && nowhereWorse xs ys
  | _, _ => true

@[specialize] def somewhereBetter : List β → List β → Bool
  | x :: xs, y :: ys => decide (x < y) || somewhereBetter xs ys
  | _, _ => false

/-- Dominance between vectors of one length. -/
@[specialize] def dominates (a b : List β) : Bool := nowhereWorse a b && somewhereBetter a b

/-- Dominance between vectors whose lengths may not fit together. -/
def dominates? (a b : List β) : Except (Fault α) Bool :=
  return dominatesPaired (← Vector.pairUp a b)

def Tensor.dominates? (a b : Tensor β) : Except (Fault α) Bool :=
  return dominatesPaired (← Tensor.pairUp a b).entries

/-- Who dominates whom among rows of one width. -/
def dominanceMatrix (rows : List (List β)) : List (List Bool) :=
  rows.map fun a => rows.map fun b => dominates a b

@[specialize] def dominatedBy (rows : List (List β)) (b : List β) : Bool :=
  rows.any fun a => dominates a b

/-- Marks the rows that no row dominates; equal rows do not exclude each other. -/
@[specialize] def nondominatedMask (rows : List (List β)) : List Bool :=
  rows.map fun b => !dominatedBy rows b

@[specialize] def nondominated (rows : List (List β)) : List (List β) :=
  rows.filter fun b => !dominatedBy rows b

/-- Who dominates whom among the parts of what has two lengths at least.  With
further lengths, the vectors along the second are compared place by place. -/
def Tensor.dominanceMatrix? (t : Tensor β) : Except (Fault α) (Tensor Bool) :=
  match t.shape with
  | [n, m] => .ok ⟨[n, n], (dominanceMatrix (Tensor.chunks n m t.entries)).flatten⟩
  | n :: m :: inner =>
    let parts := t.parts.map fun p => Tensor.lanes m inner p.entries
    .ok ⟨n :: n :: inner, parts.flatMap fun a => parts.flatMap fun b => a.zipWith dominates b⟩
  | _ => .error .noPosition

/-- Marks what no part dominates, place by place where there are further
lengths. -/
def Tensor.nondominatedMask? (t : Tensor β) : Except (Fault α) (Tensor Bool) :=
  match t.shape with
  | [n, m] => .ok (.vector (nondominatedMask (Tensor.chunks n m t.entries)))
  | n :: m :: inner =>
    let parts := t.parts.map fun p => Tensor.lanes m inner p.entries
    let free (b : List (List β)) : List Bool :=
      parts.foldl (fun marks a => marks.zipWith (· && !·) (a.zipWith dominates b))
        (b.map fun _ => true)
    .ok ⟨n :: inner, parts.flatMap free⟩
  | _ => .error .noPosition

end

end ParetoSearch
