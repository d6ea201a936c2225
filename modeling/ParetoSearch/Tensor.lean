import ParetoSearch.Vector

/-!
# Nested vectors

A request may bring a number, a vector, or vectors nested to any depth.  A
`Nested` is the value as it arrives; one whose parts at each depth are equally
long is a `Tensor`, its shape apart from its entries.
-/

namespace ParetoSearch

inductive Nested (β : Type) where
  | entry (x : β)
  | parts (xs : List (Nested β))

/-- The shape, outermost length first, and the entries in reading order. -/
structure Tensor (β : Type) where
  shape : List Nat
  entries : List β

instance {β : Type} : Inhabited (Tensor β) := ⟨⟨[0], []⟩⟩

namespace Tensor

variable {α β γ δ : Type}

def scalar (x : β) : Tensor β := ⟨[], [x]⟩

def vector (xs : List β) : Tensor β := ⟨[xs.length], xs⟩

def size (shape : List Nat) : Nat := shape.foldl (· * ·) 1

/-- Parts that all have one shape. -/
def alike (parts : List (Tensor β)) : Except (Fault α) (List (Tensor β)) :=
  match parts with
  | [] => .ok []
  | p :: rest =>
    if rest.all (fun q => q.shape = p.shape) then .ok parts else .error .shapeMismatch

/-- The most lengths a shape has. -/
def depthLimit : Nat := 64

/-- Parts of one shape under a further outer length. -/
def join (parts : List (Tensor β)) : Except (Fault α) (Tensor β) :=
  match parts with
  | [] => .ok ⟨[0], []⟩
  | p :: rest =>
    if rest.all (fun q => q.shape = p.shape) && decide (p.shape.length < depthLimit) then
      .ok ⟨parts.length :: p.shape, parts.flatMap entries⟩
    else .error .shapeMismatch

mutual

def ofNested? : Nested β → Except (Fault α) (Tensor β)
  | .entry x => .ok (scalar x)
  | .parts xs => do join (← ofParts? xs)

def ofParts? : List (Nested β) → Except (Fault α) (List (Tensor β))
  | [] => .ok []
  | x :: xs => do
    let head ← ofNested? x
    let tail ← ofParts? xs
    return head :: tail

end

/-- Cut into `n` parts of `k` entries. -/
def chunks : Nat → Nat → List β → List (List β)
  | 0, _, _ => []
  | n + 1, k, xs => xs.take k :: chunks n k (xs.drop k)

/-- The parts under the outermost length. -/
def parts (t : Tensor β) : List (Tensor β) :=
  match t.shape with
  | [] => []
  | n :: inner => (chunks n (size inner) t.entries).map fun es => ⟨inner, es⟩

def toNested (t : Tensor β) : Nested β :=
  go t.shape t.entries
where
  go : List Nat → List β → Nested β
    | [], es => match es with
      | x :: _ => .entry x
      | [] => .parts []
    | n :: inner, es => .parts ((chunks n (size inner) es).map (go inner))

/-- The outermost length; a number has none. -/
def leading (t : Tensor β) : Nat := t.shape.headD 0

/-- How many parts there are; a number is not made of parts. -/
def length? (t : Tensor β) : Except (Fault α) Nat :=
  match t.shape with
  | [] => .error .noLength
  | n :: _ => .ok n

/-- The first length of the shape; the shape of a number has none. -/
def extent? (t : Tensor β) : Except (Fault α) Nat :=
  match t.shape with
  | [] => .error .noPosition
  | n :: _ => .ok n

/-- A number as a vector of one. -/
def atLeastVector (t : Tensor β) : Tensor β :=
  if t.shape.isEmpty then ⟨[1], t.entries⟩ else t

/-- Rows of one width; no rows have no width. -/
def ofRows (rows : List (List β)) : Tensor β :=
  ⟨[rows.length, (rows.headD []).length], rows.flatten⟩

/-- The rows of a matrix. -/
def rows? (t : Tensor β) : Except (Fault α) (List (List β)) :=
  match t.shape with
  | [n, width] => .ok (chunks n width t.entries)
  | _ => .error .noPosition

/-- The vectors along the first of several lengths, one for each place of the
others. -/
def lanes (length : Nat) (inner : List Nat) (entries : List β) : List (List β) :=
  let places := size inner
  (List.range places).map fun p => (chunks length places entries).filterMap (·[p]?)

/-- The part at an index; a negative one counts from the end. -/
def part? (t : Tensor β) (index : Int) : Except (Fault α) (Tensor β) :=
  match Vector.position? index t.leading with
  | none => .error .noPosition
  | some i =>
    let width := size t.shape.tail
    .ok ⟨t.shape.tail, (t.entries.drop (i * width)).take width⟩

/-- Give every entry of the part at an index one value. -/
def setPart? (t : Tensor β) (index : Int) (value : β) : Except (Fault α) (Tensor β) :=
  match Vector.position? index t.leading with
  | none => .error .noPosition
  | some i =>
    let width := size t.shape.tail
    .ok { t with
      entries := t.entries.take (i * width) ++ List.replicate width value
        ++ t.entries.drop ((i + 1) * width) }

def map (f : β → γ) (t : Tensor β) : Tensor γ := ⟨t.shape, t.entries.map f⟩

/-- The common shape of two, each padded with ones in front; where the lengths
differ, one of them must be one. -/
def commonShape? : List Nat → List Nat → Option (List Nat)
  | [], t => some t
  | s, [] => some s
  | m :: s, n :: t => do
    let rest ← commonShape? s t
    if m = n ∨ n = 1 then some (m :: rest) else if m = 1 then some (n :: rest) else none

/-- Repeat along each outer length that is one where the target has more.  Both
shapes have the same depth. -/
def spread : List Nat → List Nat → List β → List β
  | m :: s, n :: t, es =>
    let blocks := (chunks m (size s) es).map (spread s t)
    if m = n then blocks.flatten else (List.replicate n blocks.flatten).flatten
  | _, _, es => es

def pad (depth : Nat) (shape : List Nat) : List Nat :=
  List.replicate (depth - shape.length) 1 ++ shape

/-- Entry by entry over the common shape. -/
def pairAcross (a : Tensor β) (b : Tensor γ) : Except (Fault α) (Tensor (β × γ)) :=
  match commonShape? a.shape.reverse b.shape.reverse with
  | none => .error .shapeMismatch
  | some reversed =>
    let target := reversed.reverse
    let left := spread (pad target.length a.shape) target a.entries
    let right := spread (pad target.length b.shape) target b.entries
    .ok ⟨target, left.zip right⟩

/-- Entry by entry.  Vectors meet as vectors do, and what has one shape meets
directly. -/
def pairUp (a : Tensor β) (b : Tensor γ) : Except (Fault α) (Tensor (β × γ)) :=
  match a.shape, b.shape with
  | [_], [_] => do return vector (← Vector.pairUp a.entries b.entries)
  | s, t => if s = t then .ok ⟨s, a.entries.zip b.entries⟩ else pairAcross a b

/-- A rule on pairs of entries. -/
def combine (f : β → γ → δ) (a : Tensor β) (b : Tensor γ) : Except (Fault α) (Tensor δ) :=
  return (← pairUp a b).map fun p => f p.1 p.2

end Tensor
end ParetoSearch
