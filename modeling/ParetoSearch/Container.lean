import ParetoSearch.Comparator

/-!
# Containers of solutions

A container holds members in order; its policy decides who is let in.  Members
are references: the same rules serve whatever `look` finds behind them, and one
is removed because it is that member, not because it looks alike.

Insertion has two phases.  The candidate is compared with the members one after
another until one of them blocks it; only then are the members it beats removed
and the candidate appended.
-/

namespace ParetoSearch

section

variable {ι ε : Type}

/-- The members that stay when a candidate comes in, or nothing when a member
blocks it.  `answer` is `.lt` for a member the candidate beats and `.gt` for one
that beats it; a tie leaves the decision to `blocks`. -/
def survivors (answer : ι → Except ε Ordering) (blocks : ι → Except ε Bool) :
    List ι → Except ε (Option (List ι))
  | [] => .ok (some [])
  | m :: rest =>
    match answer m with
    | .error e => .error e
    | .ok .lt => survivors answer blocks rest
    | .ok .gt => .ok none
    | .ok .eq =>
      match blocks m with
      | .error e => .error e
      | .ok true => .ok none
      | .ok false =>
        match survivors answer blocks rest with
        | .error e => .error e
        | .ok left => .ok (left.map (m :: ·))

end

/-- Who is let in. -/
inductive Policy (α : Type) [Scalar α] where
  | unrestricted
  /-- Members that do not beat each other and are further apart than the
  tolerance; without one, no tie can be decided. -/
  | nondominated (comparator : Comparator α) (tolerance : Option α)
  /-- Moreover, one member a box. -/
  | boxed (rule : BoxComparator α)

structure Container (ι α : Type) [Scalar α] where
  policy : Policy α
  members : List ι

namespace Policy

variable {X α : Type} [Scalar α]

/-- The distance up to which objectives count as the same. -/
def standardTolerance : α := Scalar.ratio 1 (Nat.pow 10 10)

def standard : Policy α := .nondominated .standard (some standardTolerance)

def compare : Policy α → Solution X α → Solution X α → Except (Fault α) Ordering
  | .unrestricted, _, _ => .ok .eq
  | .nondominated c _, a, b => c.compare a b
  | .boxed rule, a, b => rule.compare a b

/-- Whether two vectors are no further apart than a tolerance. -/
def within (tolerance : Option α) (f g : List α) : Except (Fault α) Bool := do
  let distance := Vector.norm ((← Vector.pairUp f g).map fun p => p.1 - p.2)
  match tolerance with
  | some t => return decide (distance ≤ t)
  | none => .error .valueMissing

/-- Whether a member that is not beaten still keeps a candidate out. -/
def blocks : Policy α → Solution X α → Solution X α → Except (Fault α) Bool
  | .unrestricted, _, _ => .ok false
  | .nondominated _ tolerance, a, b => within tolerance a.objectives b.objectives
  | .boxed rule, a, b =>
    if rule.boxes.sameBox a.objectives b.objectives then .ok true
    else within (some standardTolerance) a.objectives b.objectives

/-- Boxes from sizes, with the smaller violation first, or a prepared rule. -/
def boxed? (sizes : Option (Tensor α)) (rule : Option (Comparator α)) :
    Except (Fault α) (Policy α) :=
  match rule, sizes with
  | some (.boxes rule), _ => .ok (.boxed rule)
  | some other, _ => .error (.notABoxComparator other.label)
  | none, some t => do return .boxed ⟨← BoxSizes.ofTensor? t, true⟩
  | none, none => .error .boxesMissing

/-- Boxes when there are sizes, and the standard rule without. -/
def ofSizes? : Option (Tensor α) → Except (Fault α) (Policy α)
  | none => .ok standard
  | some t => if Tensor.size t.shape = 0 then .ok standard else boxed? (some t) none

def boxRule? : Policy α → Option (BoxComparator α)
  | .boxed rule => some rule
  | _ => none

def label : Policy α → String
  | .unrestricted => "Population"
  | .nondominated .. => "NondominatedPopulation"
  | .boxed _ => "EpsilonBoxDominanceArchive"

end Policy

/-- Something offered to a container: a solution, or a value of another type. -/
inductive Offered (ι : Type) where
  | solution (s : ι)
  | other (typeName : String)

namespace Container

variable {ι X α : Type} [Scalar α]

def empty (policy : Policy α) : Container ι α := ⟨policy, []⟩

def size (c : Container ι α) : Nat := c.members.length

/-- The container after an offer and whether the candidate was let in. -/
def add (look : ι → Solution X α) (c : Container ι α) (s : ι) :
    Except (Fault α) (Container ι α × Bool) :=
  match survivors (fun m => c.policy.compare (look s) (look m))
      (fun m => c.policy.blocks (look s) (look m)) c.members with
  | .error e => .error e
  | .ok none => .ok (c, false)
  | .ok (some left) => .ok ({ c with members := left ++ [s] }, true)

def offer (look : ι → Solution X α) (c : Container ι α) :
    Offered ι → Except (Fault α) (Container ι α × Bool)
  | .solution s => c.add look s
  | .other typeName => .error (.notASolution typeName)

/-- One offer after another; a fault stops, and keeps what was let in before.
The answer says whether any was let in. -/
def addAll (look : ι → Solution X α) (c : Container ι α) :
    List ι → Container ι α × Except (Fault α) Bool
  | [] => (c, .ok false)
  | s :: rest =>
    match c.add look s with
    | .error e => (c, .error e)
    | .ok (next, added) =>
      let (final, answer) := next.addAll look rest
      (final, answer.map (added || ·))

def ofList? (look : ι → Solution X α) (policy : Policy α) (initial : List ι) :
    Except (Fault α) (Container ι α) :=
  match (empty policy).addAll look initial with
  | (c, .ok _) => .ok c
  | (_, .error e) => .error e

/-- Whether an index fits into a signed word of 64 bits. -/
def isWord (index : Int) : Bool :=
  decide (-(Nat.pow 2 63 : Int) ≤ index) && decide (index < (Nat.pow 2 63 : Int))

/-- Take out the member at an index; a negative one counts from the end. -/
def removeAt (c : Container ι α) (index : Int) : Except (Fault α) (Container ι α × ι) :=
  if !isWord index then .error .indexTooLarge
  else match Vector.position? index c.size with
    | none => .error .noPosition
    | some i =>
      match c.members[i]? with
      | none => .error .noPosition
      | some m => .ok ({ c with members := c.members.eraseIdx i }, m)

def memberAt (members : List ι) (index : Int) : Except (Fault α) ι :=
  match (Vector.position? index members.length).bind (members[·]?) with
  | none => .error (.outOfBounds index members.length)
  | some m => .ok m

def get (c : Container ι α) (index : Int) : Except (Fault α) ι := memberAt c.members index

section

variable [DecidableEq ι]

def contains (c : Container ι α) (s : ι) : Bool := c.members.contains s

/-- Take out a member, and say whether it was one. -/
def remove (c : Container ι α) (s : ι) : Container ι α × Bool :=
  if c.contains s then ({ c with members := c.members.erase s }, true) else (c, false)

/-- Visit the members as they stand at the start and remove each. -/
def drain (c : Container ι α) : Container ι α × List ι :=
  (c.members.foldl (fun c s => (c.remove s).1) c, c.members)

end

def clear (c : Container ι α) : Container ι α := { c with members := [] }

def objectiveRows (look : ι → Solution X α) (c : Container ι α) :
    Except (Fault α) (List (List α)) :=
  Vector.stack (c.members.map fun s => (look s).objectives)

/-- The boxes the members lie in, in a container that keeps one member a box. -/
def boxRows? (look : ι → Solution X α) (c : Container ι α) :
    Option (Except (Fault α) (List (List Int))) :=
  c.policy.boxRule?.map fun rule =>
    Vector.stack (c.members.map fun s => rule.boxes.index (look s).objectives)

def describe (c : Container ι α) : String :=
  c.policy.label ++ "(size=" ++ toString c.size ++ ")"

end Container
end ParetoSearch
