import ParetoSearch.Binary64

/-!
# Reading a number

A numeral is a sign, digits with at most one point among or beside them, and a
power of ten; or the name of an infinity or of the value that is not a number,
in any case.  It is kept exactly until a double is asked for.
-/

namespace ParetoSearch
namespace Decimal

/-- What was written: a decimal `± mantissa · 10 ^ exponent` or a named value. -/
inductive Numeral where
  | nan
  | infinite (negative : Bool)
  | decimal (negative : Bool) (mantissa : Nat) (exponent : Int)

namespace Numeral

def value (digits : List Char) : Nat :=
  digits.foldl (fun n c => 10 * n + (c.toNat - '0'.toNat)) 0

/-- A sign in front, and what follows it. -/
def takeSign : List Char → Bool × List Char
  | '-' :: r => (true, r)
  | '+' :: r => (false, r)
  | r => (false, r)

/-- The power of ten that ends a numeral; an `e` needs digits. -/
def exponent? : List Char → Option Int
  | [] => some 0
  | c :: r =>
    if c = 'e' ∨ c = 'E' then
      let (negative, ds) := takeSign r
      if ds.isEmpty || !ds.all Char.isDigit then none
      else some (if negative then -(value ds : Int) else value ds)
    else none

def unsigned? (negative : Bool) (text : List Char) : Option Numeral :=
  let name := text.map Char.toLower
  if name = "nan".toList then some .nan
  else if name = "inf".toList ∨ name = "infinity".toList then some (.infinite negative)
  else
    let whole := text.takeWhile Char.isDigit
    let rest := text.dropWhile Char.isDigit
    let (places, tail) := match rest with
      | '.' :: r => (r.takeWhile Char.isDigit, r.dropWhile Char.isDigit)
      | r => ([], r)
    if whole.isEmpty && places.isEmpty then none
    else (exponent? tail).map fun e =>
      .decimal negative (value (whole ++ places)) (e - places.length)

def ofChars? (text : List Char) : Option Numeral :=
  let (negative, rest) := takeSign text
  unsigned? negative rest

/-- Powers of ten beyond the doubles on either side are settled without being
computed. -/
def toFloat : Numeral → Float
  | .nan => 0 / 0
  | .infinite negative => if negative then -1 / 0 else 1 / 0
  | .decimal negative m e =>
    let size : Int := (toString m).length
    let x : Float :=
      if m = 0 then 0
      else if 400 < size + e then 1 / 0
      else if size + e < -400 then 0
      else match e with
        | .ofNat k => Float.ofScientific m false k
        | .negSucc k => Float.ofScientific m true (k + 1)
    if negative then -x else x

end Numeral
end Decimal
end ParetoSearch
