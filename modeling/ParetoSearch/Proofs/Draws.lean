import Mathlib.Data.List.Basic
import ParetoSearch.Draws

/-!
# What draws give

What a search may count on is that it gets as many numbers as it wants, each in `[0, 1)`
(`Dice.InUnit`), and as many places as it wants, each in range (`Dice.LandsIn`).  Nothing is
said of how likely they are: what holds of every such source holds of every sequence of draws.
-/

namespace ParetoSearch
namespace Dice

variable {σ α : Type} [Scalar α] (dice : Dice σ α)

/-- As many numbers are drawn as are wanted, all in `[0, 1)`. -/
def InUnit : Prop :=
  ∀ (n : Nat) (s : σ), (dice.roll n s).1.length = n ∧ ∀ u ∈ (dice.roll n s).1, 0 ≤ u ∧ u < 1

omit [Scalar α] in
theorem draws_run (n : Nat) (s : σ) :
    (dice.draws n : Work σ α (List α)).run.run s = (.ok (dice.roll n s).1, (dice.roll n s).2) :=
  rfl

/-- The places among so many that are drawn. -/
def places (bound n : Nat) (s : σ) : List Int :=
  (dice.roll n s).1.map fun u => Scalar.floor (u * (bound : α))

/-- As many places are drawn as are wanted, all among so many. -/
def LandsIn (bound : Nat) : Prop :=
  ∀ (n : Nat) (s : σ), (dice.places bound n s).length = n ∧
    ∀ i ∈ dice.places bound n s, 0 ≤ i ∧ i < bound

/-- Zero, a quarter, a half and three quarters in turn. -/
def quarters : Dice Nat α :=
  ⟨fun n k => ((List.range n).map fun i => Scalar.ratio ((k + i) % 4) 4, k + n)⟩

theorem mem_quarters {n k : Nat} {u : α} (h : u ∈ (quarters.roll n k).1) :
    ∃ q < 4, u = Scalar.ratio q 4 := by
  obtain ⟨i, -, rfl⟩ := List.mem_map.mp h
  exact ⟨(k + i) % 4, Nat.mod_lt _ (Nat.succ_pos 3), rfl⟩

theorem length_quarters (n k : Nat) : (quarters.roll n k : List α × Nat).1.length = n :=
  (List.length_map _).trans List.length_range

theorem inUnit_quarters
    (h : ∀ q < 4, 0 ≤ (Scalar.ratio q 4 : α) ∧ (Scalar.ratio q 4 : α) < 1) :
    (quarters : Dice Nat α).InUnit := by
  refine fun n k => ⟨length_quarters n k, fun u hu => ?_⟩
  obtain ⟨q, hq, rfl⟩ := mem_quarters hu
  exact h q hq

theorem landsIn_quarters {bound : Nat}
    (h : ∀ q < 4, 0 ≤ Scalar.floor (Scalar.ratio q 4 * (bound : α)) ∧
      Scalar.floor (Scalar.ratio q 4 * (bound : α)) < bound) :
    (quarters : Dice Nat α).LandsIn bound := by
  refine fun n k => ⟨(List.length_map _).trans (length_quarters n k), fun i hi => ?_⟩
  obtain ⟨u, hu, rfl⟩ := List.mem_map.mp hi
  obtain ⟨q, hq, rfl⟩ := mem_quarters hu
  exact h q hq

end Dice
end ParetoSearch
