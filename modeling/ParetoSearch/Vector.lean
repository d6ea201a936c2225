import ParetoSearch.Scalar
import ParetoSearch.Fault

/-!
# Vectors

A vector is a list.  Two vectors meet entry by entry when they are equally long;
a vector of one entry meets any other by repeating that entry.  The sums here
fix the order of addition, which rounding makes visible.
-/

namespace ParetoSearch
namespace Vector

variable {α β γ : Type}

/-- Entry by entry, a single entry repeated. -/
def pairUp (a : List β) (b : List γ) : Except (Fault α) (List (β × γ)) :=
  if a.length = b.length then .ok (a.zip b)
  else match a, b with
    | [x], ys => .ok (ys.map fun y => (x, y))
    | xs, [y] => .ok (xs.map fun x => (x, y))
    | _, _ => .error .shapeMismatch

/-- Rows of one width, or the fault of rows that differ. -/
def stack (rows : List (List β)) : Except (Fault α) (List (List β)) :=
  match rows with
  | [] => .ok []
  | row :: rest =>
    if rest.all (fun r => r.length = row.length) then .ok rows else .error .shapeMismatch

/-- As many entries as a vector can have: not less than none, and no more than
fit into an address space. -/
def count? (n : Int) : Except (Fault α) Nat :=
  if 0 ≤ n ∧ n < Nat.pow 2 60 then .ok n.toNat else .error .countOutOfRange

/-- The entry at an index; a negative one counts from the end. -/
def position? (index : Int) (size : Nat) : Option Nat :=
  let i := if index < 0 then index + size else index
  if 0 ≤ i ∧ i < size then some i.toNat else none

variable [Scalar α]

/-- From zero, left to right. -/
def leftSum (xs : List α) : α := xs.foldl (· + ·) 0

def product (xs : List α) : α := xs.foldl (· * ·) 1

/-- The first eight entries start eight running sums, and each further block of
eight adds to them.  What is left of the last block stays over. -/
def laneSums : List α → List α → List α × List α
  | lanes, a :: b :: c :: d :: e :: f :: g :: h :: rest =>
    laneSums (lanes.zipWith (· + ·) [a, b, c, d, e, f, g, h]) rest
  | lanes, rest => (lanes, rest)

def joinLanes : List α → α
  | [a, b, c, d, e, f, g, h] => ((a + b) + (c + d)) + ((e + f) + (g + h))
  | lanes => leftSum lanes

/-- At most one block of 128 entries. -/
def blockSum (xs : List α) : α :=
  if xs.length < 8 then leftSum xs
  else
    let (lanes, rest) := laneSums (xs.take 8) (xs.drop 8)
    rest.foldl (· + ·) (joinLanes lanes)

/-- Longer vectors are halved, at a multiple of eight, and the halves summed
apart.  Each half is shorter, so as many halvings as entries are enough. -/
def halvingSum : Nat → List α → α
  | 0, xs => blockSum xs
  | fuel + 1, xs =>
    if xs.length ≤ 128 then blockSum xs
    else
      let cut := xs.length / 2 / 8 * 8
      halvingSum fuel (xs.take cut) + halvingSum fuel (xs.drop cut)

/-- The sum in the order that keeps rounding errors small. -/
def total (xs : List α) : α := halvingSum xs.length xs

def mean (xs : List α) : α := total xs / (xs.length : α)

/-- The Euclidean length. -/
def norm (xs : List α) : α := Scalar.sqrt (leftSum (xs.map fun x => x * x))

/-- Column by column, over rows of one width. -/
def columnFold (f : α → α → α) : List (List α) → List α
  | [] => []
  | row :: rest => rest.foldl (List.zipWith f) row

/-- The `n` points from `a` to `b` with equal steps; the last one is `b` itself. -/
def spaced (a b : α) (n : Nat) : List α :=
  let step := (b - a) / ((n - 1 : Nat) : α)
  (List.range n).map fun i =>
    if i + 1 = n ∧ 1 < n then b else if n = 1 then a else (i : α) * step + a

end Vector
end ParetoSearch
