import ParetoSearch.Decimal.Scientific

/-!
# Shortest text

The fewest digits that read back as the same double, and of those the nearest.
The decimals that read back as `m · 2 ^ q` fill the interval between its two
half-way points, ends included when `m` is even.  On the grid of `n` digits only
the two neighbours of the value can lie in it, so one walk over `n` finds the
text.
-/

namespace ParetoSearch
namespace Decimal

/-- The numbers that read back as one double, in quarters of its last place. -/
structure ReadingInterval where
  lower : Quotient
  value : Quotient
  upper : Quotient
  closed : Bool

namespace ReadingInterval

/-- Below a power of two the next double is only half as far away. -/
def ofBinary (m : Nat) (q : Int) : ReadingInterval :=
  { lower :=
      Quotient.ofBinary (if m = Nat.pow 2 52 ∧ q ≠ -1074 then 4 * m - 1 else 4 * m - 2) (q - 2)
    value := Quotient.ofBinary m q
    upper := Quotient.ofBinary (4 * m + 2) (q - 2)
    closed := m % 2 = 0 }

def contains (i : ReadingInterval) (x : Quotient) : Bool :=
  if i.closed then i.lower.le x && x.le i.upper
  else !(x.le i.lower) && !(i.upper.le x)

end ReadingInterval

/-- The nearer of the value's two neighbours among the multiples of `10 ^ e`
that read back. -/
def gridPoint? (i : ReadingInterval) (e : Int) : Option Nat :=
  let scaled := i.value.scale (-e)
  let below := scaled.num / scaled.den
  let reads (n : Nat) := i.contains (Quotient.scale ⟨n, 1⟩ e)
  match reads below, reads (below + 1) with
  | true, true => some scaled.round
  | true, false => some below
  | false, true => some (below + 1)
  | false, false => none

/-- Digits and the power of ten of the last one. -/
def shortestFrom (i : ReadingInterval) (leading : Int) : Nat → Nat → Nat × Int
  | 0, n => ((i.value.scale (n - leading)).round, leading - n)
  | fuel + 1, n =>
    match gridPoint? i (leading - n) with
    | some d => (d, leading - n)
    | none => shortestFrom i leading fuel (n + 1)

def dropZeros : Nat → Nat → Int → Nat × Int
  | 0, d, e => (d, e)
  | fuel + 1, d, e => if d ≠ 0 ∧ d % 10 = 0 then dropZeros fuel (d / 10) (e + 1) else (d, e)

def shortestDigits (m : Nat) (q : Int) : Nat × Int :=
  let (d, e) := shortestFrom (.ofBinary m q) (Quotient.leadingPower m q) 17 0
  dropZeros 17 d e

def zeros (n : Nat) : String := String.ofList (List.replicate n '0')

/-- How a number with its digits chosen is laid out. -/
structure Layout where
  /-- The least power of ten of a first digit written without an exponent. -/
  positionalFrom : Int
  /-- The first one written with an exponent again. -/
  positionalBelow : Int

/-- Positional from `0.0001` up to below `10 ^ 16`; whole numbers keep `.0`. -/
def plainLayout : Layout := ⟨-4, 16⟩

def Layout.write (l : Layout) (d : Nat) (e : Int) : String :=
  let text := digits d
  let leading := e + text.length - 1
  if leading < l.positionalFrom ∨ l.positionalBelow ≤ leading then
    pointed text ++ exponentText leading
  else if 0 ≤ e then text ++ zeros e.toNat ++ ".0"
  else if leading < 0 then "0." ++ zeros (-leading - 1).toNat ++ text
  else
    let whole := leading.toNat + 1
    String.ofList (text.toList.take whole) ++ "." ++ String.ofList (text.toList.drop whole)

def shortest (x : Float) : String :=
  match Binary64.ofFloat x with
  | .nan => "nan"
  | .infinite negative => signed negative "inf"
  | .finite negative m q =>
    signed negative (if m = 0 then "0.0" else
      let (d, e) := shortestDigits m q
      plainLayout.write d e)

end Decimal
end ParetoSearch
