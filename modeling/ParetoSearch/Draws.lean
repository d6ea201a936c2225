import ParetoSearch.Scalar
import ParetoSearch.Work

/-!
# Draws

A search owes its chance to sources of numbers in `[0, 1)`.  A source is a value
that is passed along, so a run is a function of its sources, and a law about
draws is a law about what a source may give.
-/

namespace ParetoSearch

/-- A list that is started over at its end. -/
structure Cycle (β : Type) where
  all : List β
  rest : List β

namespace Cycle

variable {β : Type}

def ofList (all : List β) : Cycle β := ⟨all, all⟩

def next? (c : Cycle β) : Option (β × Cycle β) :=
  match c.rest, c.all with
  | x :: rest, all => some (x, ⟨all, rest⟩)
  | [], x :: rest => some (x, ⟨x :: rest, rest⟩)
  | [], [] => none

end Cycle

inductive Source (α : Type) where
  | listed (draws : Cycle α)
  /-- A 64-bit generator that steps by a constant and mixes its state. -/
  | seeded (state : UInt64)

namespace Source

variable {α : Type} [Scalar α]

def ofList (all : List α) : Source α := .listed (.ofList all)

/-- A seed counts modulo the size of the state. -/
def ofSeed (seed : Int) : Source α := .seeded (UInt64.ofInt seed)

def mix (z : UInt64) : UInt64 :=
  let z := (z ^^^ (z >>> 30)) * 0xBF58476D1CE4E5B9
  let z := (z ^^^ (z >>> 27)) * 0x94D049BB133111EB
  z ^^^ (z >>> 31)

/-- The top 53 bits as a fraction. -/
def fraction (z : UInt64) : α := Scalar.ratio (z >>> 11).toNat (Nat.pow 2 53)

def next : Source α → α × Source α
  | .listed c =>
    match c.next? with
    | some (u, c) => (u, .listed c)
    | none => (0, .listed c)
  | .seeded state =>
    let state := state + 0x9E3779B97F4A7C15
    (fraction (mix state), .seeded state)

/-- Several draws in a row. -/
def take : Nat → Source α → List α × Source α
  | 0, s => ([], s)
  | n + 1, s =>
    let (u, s) := s.next
    let (us, s) := take n s
    (u :: us, s)

end Source

/-- Draws from `σ`: how many are wanted, and the state behind them. -/
structure Dice (σ α : Type) where
  roll : Nat → σ → List α × σ

namespace Dice

variable {σ τ α : Type} [Scalar α]

def ofSource : Dice (Source α) α := ⟨Source.take⟩

/-- Draws from a part of a larger state. -/
def within (d : Dice τ α) (part : σ → τ) (put : τ → σ → σ) : Dice σ α :=
  ⟨fun n s => let (us, t) := d.roll n (part s); (us, put t s)⟩

def draws (d : Dice σ α) (n : Nat) : Work σ α (List α) := do
  let (us, s) := d.roll n (← get)
  set s
  return us

def draw (d : Dice σ α) : Work σ α α := do
  return (← d.draws 1).headD 0

/-- Uniform between two bounds. -/
def uniform (d : Dice σ α) (lower upper : α) (n : Nat) : Work σ α (List α) := do
  return (← d.draws n).map fun u => lower + (upper - lower) * u

/-- Whole numbers from zero up to below a bound. -/
def below (d : Dice σ α) (bound n : Nat) : Work σ α (List Int) := do
  return (← d.draws n).map fun u => Scalar.floor (u * (bound : α))

end Dice
end ParetoSearch
