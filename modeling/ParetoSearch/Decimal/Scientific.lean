import ParetoSearch.Binary64

/-!
# Scientific notation

The text of a double with a fixed number of decimals behind the point, rounded
from its exact value; a half goes to the even neighbour.  All arithmetic is on
whole numbers, as the quotient `num / den`.
-/

namespace ParetoSearch
namespace Decimal

/-- A positive number as a quotient. -/
structure Quotient where
  num : Nat
  den : Nat

namespace Quotient

def ofBinary (m : Nat) : Int → Quotient
  | .ofNat k => ⟨m <<< k, 1⟩
  | .negSucc k => ⟨m, 1 <<< (k + 1)⟩

/-- Times a power of ten. -/
def scale (x : Quotient) : Int → Quotient
  | .ofNat k => ⟨x.num * Nat.pow 10 k, x.den⟩
  | .negSucc k => ⟨x.num, x.den * Nat.pow 10 (k + 1)⟩

def le (x y : Quotient) : Bool := decide (x.num * y.den ≤ y.num * x.den)

/-- Round to a whole number, halves to even. -/
def round (x : Quotient) : Nat :=
  let whole := x.num / x.den
  let rest := x.num % x.den
  if 2 * rest < x.den then whole
  else if x.den < 2 * rest then whole + 1
  else if whole % 2 = 0 then whole else whole + 1

def climb (x : Quotient) : Nat → Int → Int
  | 0, e => e
  | fuel + 1, e => if (Quotient.scale ⟨1, 1⟩ (e + 1)).le x then climb x fuel (e + 1) else e

/-- The power of ten of the first digit of `m · 2 ^ q`.  The logarithm of two
gives it up to one, so a short climb from below settles it. -/
def leadingPower (m : Nat) (q : Int) : Int :=
  climb (ofBinary m q) 3 (((Nat.log2 m : Int) + q) * 30103 / 100000 - 1)

end Quotient

def digits (n : Nat) : String := toString n

/-- Sign and at least two digits. -/
def exponentText (e : Int) : String :=
  let body := digits e.natAbs
  (if e < 0 then "e-" else "e+") ++ (if e.natAbs < 10 then "0" ++ body else body)

/-- One digit, a point, the others. -/
def pointed (text : String) : String :=
  match text.toList with
  | [] => ""
  | [c] => String.ofList [c]
  | c :: cs => String.ofList (c :: '.' :: cs)

def scientificFinite (places : Nat) (m : Nat) (q : Int) : String :=
  if m = 0 then pointed (String.ofList (List.replicate (places + 1) '0')) ++ exponentText 0
  else
    let e := Quotient.leadingPower m q
    let n := ((Quotient.ofBinary m q).scale (places - e)).round
    if n = Nat.pow 10 (places + 1) then pointed (digits (Nat.pow 10 places)) ++ exponentText (e + 1)
    else pointed (digits n) ++ exponentText e

def signed (negative : Bool) (text : String) : String :=
  if negative then "-" ++ text else text

def scientific (places : Nat) (x : Float) : String :=
  match Binary64.ofFloat x with
  | .nan => "nan"
  | .infinite negative => signed negative "inf"
  | .finite negative m q => signed negative (scientificFinite places m q)

/-- Seventeen digits tell any two doubles apart. -/
def exact (x : Float) : String := scientific 16 x

/-- Ten digits, with everything of size below `10 ^ -12` written as zero. -/
def approximate (x : Float) : String :=
  scientific 9 (if x.abs < 1e-12 then 0 else x)

end Decimal
end ParetoSearch
