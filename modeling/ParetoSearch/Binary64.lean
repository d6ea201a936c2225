import ParetoSearch.Scalar

/-!
# Doubles

A finite double is `± m · 2 ^ q` with whole `m` and `q`.  Reading that pair off
its bits lets whole-number arithmetic answer what the hardware operations leave
open: the floor used by the grid of boxes, and every decimal text.
-/

namespace ParetoSearch

/-- A double taken apart. -/
inductive Binary64 where
  | nan
  | infinite (negative : Bool)
  | finite (negative : Bool) (mantissa : Nat) (exponent : Int)

namespace Binary64

def ofBits (bits : Nat) : Binary64 :=
  let negative := decide (Nat.pow 2 63 ≤ bits)
  let fraction : Nat := bits % Nat.pow 2 52
  let biased : Nat := bits / Nat.pow 2 52 % Nat.pow 2 11
  if biased = 2047 then
    if fraction = 0 then .infinite negative else .nan
  else if biased = 0 then .finite negative fraction (-1074)
  else .finite negative (Nat.pow 2 52 + fraction) ((biased : Int) - 1075)

def ofFloat (x : Float) : Binary64 := ofBits x.toBits.toNat

def wordLimit : Int := Nat.pow 2 63

/-- The floor of `± m · 2 ^ q`; a negative number with a fraction goes one
further from zero. -/
def floorFinite (negative : Bool) (m : Nat) (q : Int) : Int :=
  match q with
  | .ofNat k => if negative then -((m <<< k : Nat) : Int) else ((m <<< k : Nat) : Int)
  | .negSucc k =>
    let whole := m >>> (k + 1)
    if negative then
      if whole <<< (k + 1) = m then -(whole : Int) else -(whole : Int) - 1
    else (whole : Int)

/-- Signed 64-bit words number the boxes.  What has no floor, or a floor beyond
the words, falls into the lowest of them. -/
def floorWord : Binary64 → Int
  | .finite negative m q =>
    let n := floorFinite negative m q
    if -wordLimit ≤ n ∧ n < wordLimit then n else -wordLimit
  | _ => -wordLimit

end Binary64

instance : Scalar Float where
  natCast := Float.ofNat
  intCast := Float.ofInt
  decidableLT := Float.decLt
  decidableLE := Float.decLe
  abs := Float.abs
  sqrt := Float.sqrt
  exp := Float.exp
  sin := Float.sin
  pow := Float.pow
  pi := 3.141592653589793
  floor x := (Binary64.ofFloat x).floorWord
  unset := 0 / 0

end ParetoSearch
