import ParetoSearch.Argument
import ParetoSearch.Container
import ParetoSearch.Draws

/-!
# Tournaments

A tournament draws members with replacement, and a later one replaces the winner
so far only where it is strictly preferred.  Whom of two members it prefers is up
to its judge; a `Tournament` judges by a comparator of their solutions.
-/

namespace ParetoSearch

/-- How two members compare. -/
abbrev Judge (ι α : Type) := ι → ι → Except (Fault α) Ordering

namespace Judge

variable {ι σ α : Type}

/-- The winner over the members at further places, each looked up only when its
turn comes. -/
def winner (judge : Judge ι α) (members : List ι) : ι → List Int → Except (Fault α) ι
  | best, [] => .ok best
  | best, place :: rest =>
    match Container.memberAt members place with
    | .error e => .error e
    | .ok m =>
      match judge m best with
      | .error e => .error e
      | .ok .lt => winner judge members m rest
      | .ok _ => winner judge members best rest

/-- The winner over the members at the places that are drawn. -/
def contest (judge : Judge ι α) (members : List ι) : List Int → Except (Fault α) ι
  | [] => .error .emptyTournament
  | place :: rest =>
    match Container.memberAt members place with
    | .error e => .error e
    | .ok m => judge.winner members m rest

variable [Scalar α]

def play (judge : Judge ι α) (rounds : Nat) (dice : Dice σ α) (members : List ι) :
    Work σ α ι := do
  let places ← dice.below members.length rounds
  Work.lift (judge.contest members places)

/-- As many independent tournaments as parents are wanted. -/
def select (judge : Judge ι α) (rounds : Nat) (dice : Dice σ α) (arity : Int)
    (members : List ι) : Work σ α (List ι) := do
  if members.isEmpty then Work.fail .emptyTournament
  (List.range arity.toNat).mapM fun _ => judge.play rounds dice members

end Judge

structure Tournament (α : Type) [Scalar α] where
  comparator : Comparator α
  rounds : Nat

namespace Tournament

variable {ι X σ α : Type} [Scalar α]

def make? (comparator : Comparator α) (size : Argument Int) : Except (Fault α) (Tournament α) := do
  let n ← size.required 2
  if n < 1 then .error (.tournamentSize n) else return ⟨comparator, n.toNat⟩

/-- Tournaments of two. -/
def binary (comparator : Comparator α) : Tournament α := ⟨comparator, 2⟩

def judge (t : Tournament α) (look : ι → Solution X α) : Judge ι α :=
  fun a b => t.comparator.compare (look a) (look b)

def select (t : Tournament α) (look : ι → Solution X α) (dice : Dice σ α) (arity : Int)
    (members : List ι) : Work σ α (List ι) :=
  (t.judge look).select t.rounds dice arity members

end Tournament
end ParetoSearch
