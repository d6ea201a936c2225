/-!
# The numbers of a search

Every rule of the library is written once over `Scalar`.  The class carries
operations and no laws: on doubles it runs, with their rounding, infinities and
values that are not numbers; over exact numbers the same definitions can be
reasoned about.

`lesser` and `greater` let a value that is not a number win, so one such entry
shows in every extreme taken over it.
-/

namespace ParetoSearch

class Scalar (α : Type) extends Zero α, One α, NatCast α, IntCast α, Add α, Sub α, Mul α, Div α,
    Neg α, BEq α, LT α, LE α where
  decidableLT : DecidableLT α
  decidableLE : DecidableLE α
  abs : α → α
  sqrt : α → α
  exp : α → α
  sin : α → α
  pow : α → α → α
  pi : α
  /-- The whole number below, as far as the grid of boxes reaches. -/
  floor : α → Int
  /-- What an objective holds before it is measured. -/
  unset : α

attribute [reducible] Scalar.decidableLT Scalar.decidableLE
attribute [instance] Scalar.decidableLT Scalar.decidableLE

namespace Scalar

variable {α : Type} [Scalar α]

def ratio (n d : Nat) : α := (n : α) / (d : α)

def two : α := (2 : Nat)

def half : α := ratio 1 2

/-- The only value that differs from itself is the one that is not a number. -/
@[inline] def isNumber (x : α) : Bool := x == x

/-- An infinity less itself is not a number, so only finite values pass. -/
@[inline] def isFinite (x : α) : Bool := x - x == 0

@[inline] def lesser (a b : α) : α := if a ≤ b || !isNumber a then a else b

@[inline] def greater (a b : α) : α := if b ≤ a || !isNumber a then a else b

def clip (x lower upper : α) : α := lesser (greater x lower) upper

/-- A power with the exponents that have an exact operation of their own. -/
def power (x p : α) : α :=
  if p == two then x * x
  else if p == half then sqrt x
  else if p == -1 then 1 / x
  else if p == 1 then x
  else pow x p

def least? : List α → Option α
  | [] => none
  | x :: xs => some (xs.foldl lesser x)

def greatest? : List α → Option α
  | [] => none
  | x :: xs => some (xs.foldl greater x)

end Scalar

end ParetoSearch
