import ParetoSearch.BoxGrid
import ParetoSearch.Solution

/-!
# Comparators

A comparator says of two solutions which one is preferred, or neither.  The
answer is an `Ordering`: `.lt` for the first, `.gt` for the second.  These
relations are partial, so nothing is ever sorted by them.
-/

namespace ParetoSearch

/-- Preference by boxes, or by violation first and boxes among equals. -/
structure BoxComparator (α : Type) [Scalar α] where
  boxes : BoxSizes α
  violationFirst : Bool

inductive Comparator (α : Type) [Scalar α] where
  | pareto
  | violation
  | boxes (rule : BoxComparator α)
  /-- The first of several answers that is not a tie. -/
  | chain (first : Comparator α) (rest : List (Comparator α))
  | fitness (larger : Bool)
  /-- The relation that is left open. -/
  | undefined

variable {X α : Type} [Scalar α]

def comparePareto (a b : List α) : Except (Fault α) Ordering := do
  if ← dominates? a b then return .lt
  if ← dominates? b a then return .gt
  return .eq

/-- The smaller violation is preferred. -/
def compareViolation (a b : Solution X α) : Ordering :=
  if a.violation == b.violation then .eq
  else if a.violation < b.violation then .lt else .gt

/-- Different boxes are compared by dominance of their indices.  Inside a box the
vector nearer to the lower corner is preferred, and dominance settles a tie. -/
def BoxSizes.compare (b : BoxSizes α) (f g : List α) : Except (Fault α) Ordering := do
  let i := b.index f
  let j := b.index g
  if i ≠ j then
    if ← dominates? i j then return .lt
    if ← dominates? j i then return .gt
    return .eq
  else if b.cornerDistance f < b.cornerDistance g then return .lt
  else if b.cornerDistance g < b.cornerDistance f then return .gt
  else comparePareto f g

def BoxComparator.compare (c : BoxComparator α) (a b : Solution X α) :
    Except (Fault α) Ordering :=
  if c.violationFirst then
    match compareViolation a b with
    | .eq => c.boxes.compare a.objectives b.objectives
    | answer => .ok answer
  else c.boxes.compare a.objectives b.objectives

def compareFitness (larger : Bool) (a b : Solution X α) : Except (Fault α) Ordering :=
  match a.fitness?, b.fitness? with
  | some x, some y =>
    if x == y then .ok .eq
    else if (if larger then decide (y < x) else decide (x < y)) then .ok .lt else .ok .gt
  | _, _ => .error .fitnessMissing

namespace Comparator

mutual

def compare : Comparator α → Solution X α → Solution X α → Except (Fault α) Ordering
  | .pareto, a, b => comparePareto a.objectives b.objectives
  | .violation, a, b => .ok (compareViolation a b)
  | .boxes rule, a, b => rule.compare a b
  | .chain first rest, a, b =>
    match compare first a b with
    | .ok .eq => compareFirst rest a b
    | answer => answer
  | .fitness larger, a, b => compareFitness larger a b
  | .undefined, _, _ => .error .undefinedComparison

def compareFirst : List (Comparator α) → Solution X α → Solution X α →
    Except (Fault α) Ordering
  | [], _, _ => .ok .eq
  | c :: rest, a, b =>
    match compare c a b with
    | .ok .eq => compareFirst rest a b
    | answer => answer

end

def chain? : List (Comparator α) → Except (Fault α) (Comparator α)
  | [] => .error .emptyChain
  | c :: rest => .ok (.chain c rest)

/-- Feasibility first, then dominance. -/
def standard : Comparator α := .chain .violation [.pareto]

def label : Comparator α → String
  | .pareto => "ParetoDominanceComparator"
  | .violation => "AggregateConstraintComparator"
  | .boxes rule =>
    if rule.violationFirst then "EpsilonBoxConstraintComparator"
    else "EpsilonBoxDominanceComparator"
  | .chain .. => "ChainedComparator"
  | .fitness _ => "FitnessComparator"
  | .undefined => "_Comparator"

def boxes? : Comparator α → Except (Fault α) (BoxComparator α)
  | .boxes rule => .ok rule
  | _ => .error .noSuchOperation

def members? : Comparator α → Except (Fault α) (List (Comparator α))
  | .chain first rest => .ok (first :: rest)
  | _ => .error .noSuchOperation

end Comparator
end ParetoSearch
