import ParetoSearch.Text.Quoted

/-!
# Faults

Every way a request can be refused, as a cause.  `Fault.category` says what kind
of misuse it is, and `Fault.message?` is the only place with wording.  A fault
of plain arithmetic on vectors, such as lengths that do not fit together, has no
wording of its own.
-/

namespace ParetoSearch

inductive Category where
  | value | index | axis | key | type | state | configuration | arithmetic | overflow | frozen
  | undefined | attribute | evaluation | missingFile
  deriving DecidableEq, Repr

/-- The vectors whose shape is checked when they arrive from outside. -/
inductive Part where
  | objectives | constraints | fitness
  deriving DecidableEq, Repr

/-- What a registry hands out. -/
inductive Wanted where
  | indicator | fitnessIndicator
  deriving DecidableEq, Repr

/-- Why a table of objectives cannot be had. -/
inductive TableFailure where
  | missing | malformed
  deriving DecidableEq, Repr

inductive Fault (α : Type) where
  -- vectors and rows
  | shapeMismatch
  | malformedTable
  | countOutOfRange
  | noPosition
  | noVariable
  | noAxis
  | divisionByZero
  | indexTooLarge
  -- requests that name the wrong thing
  | notASet
  | noLength
  | valueMissing
  | argumentMissing
  | argumentUnexpected
  | fileMissing
  | fieldFrozen
  | noSuchOperation
  | undefinedComparison
  | relativePath
  | noWorkers
  -- solutions and their containers
  | notAVector (part : Part) (shape : List Nat)
  | noObjectives (count : Int)
  | objectiveCount (expected given : Nat)
  | constraintCount (expected given : Nat)
  | notASolution (found : String)
  | outOfBounds (index : Int) (size : Nat)
  | fitnessMissing
  -- comparators and archives
  | boxSizesShape
  | boxSizesValue (sizes : List α)
  | emptyChain
  | boxesMissing
  | notABoxComparator (found : String)
  -- indicators
  | emptyNormalization
  | emptyReference (indicator : String)
  | objectiveWidths (given reference : Nat)
  | noReferenceOrPoint
  -- fitness
  | kappaNotPositive (kappa : α)
  | fitnessNotEvaluated
  | removalBeforeEvaluation
  | populationChanged (members evaluated : Nat)
  -- operators
  | probability (given : α)
  | etaNegative (eta : α)
  | tournamentSize (size : Int)
  | emptyTournament
  | parentCount (expected given : Nat)
  | sizeNotPositive (size : Int)
  | tooManyInjected (given : Nat) (size : Int)
  | sampleShape (dimension : Int) (shape : List Nat)
  -- problems
  | variablesNotPositive (count : Int)
  | constraintsApart
  | workers (count : Int)
  | evaluationFailed
  -- set-up
  | ambiguousName (wanted : Wanted) (name : String) (candidates : List String)
  | unsupportedName (wanted : Wanted) (name : String) (available : List String)
  | referenceMissing (indicator : String)
  | referencesMissing (indicators : List String)
  | problemUnspecified
  | problemTwice (name path : String)
  | unknownProblem (name : String) (available : List String)
  | pathWithoutDots (path : String)
  | pathUnresolved (path : String)
  | epsilonNotPositive (epsilon : List α)
  | referenceUnreadable (file : String) (cause : TableFailure)
  | noReferenceFor (label : String)
  -- results and runs
  | fitnessNotAnArray (found : String)
  | fitnessCount (given expected : Nat)
  | alreadyStarted
  | iterateBeforeStart
  | resultBeforeStart
  | generationsNegative (count : Int)
  | populationSize (size : Int)
  -- no refusal: it stands for the answer of a loop without end, which has none
  | endless

namespace Fault

variable {α : Type}

def category : Fault α → Category
  | noPosition | noVariable | outOfBounds .. => .index
  | noAxis => .axis
  | divisionByZero => .arithmetic
  | indexTooLarge => .overflow
  | fileMissing => .missingFile
  | notASet | noLength | valueMissing | argumentMissing | argumentUnexpected | relativePath
  | notASolution _ | notABoxComparator _ | fitnessNotAnArray _ => .type
  | fieldFrozen => .frozen
  | noSuchOperation => .attribute
  | undefinedComparison => .undefined
  | fitnessMissing => .key
  | fitnessNotEvaluated | removalBeforeEvaluation | populationChanged .. | alreadyStarted
  | iterateBeforeStart | resultBeforeStart => .state
  | evaluationFailed => .evaluation
  | ambiguousName .. | unsupportedName .. | referenceMissing _ | referencesMissing _
  | problemUnspecified | problemTwice .. | unknownProblem .. | pathWithoutDots _
  | pathUnresolved _ | epsilonNotPositive _ | referenceUnreadable .. | noReferenceFor _ =>
    .configuration
  | _ => .value

end Fault

/-- The name a kind of misuse is reported by. -/
def Category.label : Category → String
  | .value => "ValueError"
  | .index => "IndexError"
  | .axis => "AxisError"
  | .key => "KeyError"
  | .type => "TypeError"
  | .state => "RuntimeError"
  | .configuration => "ConfigurationError"
  | .arithmetic => "ZeroDivisionError"
  | .overflow => "OverflowError"
  | .frozen => "FrozenInstanceError"
  | .undefined => "NotImplementedError"
  | .attribute => "AttributeError"
  | .evaluation => "EvaluationFailed"
  | .missingFile => "FileNotFoundError"

def Part.text : Part → String
  | .objectives => "objectives"
  | .constraints => "constraints"
  | .fitness => "fitness"

def Wanted.text : Wanted → String
  | .indicator => "indicator"
  | .fitnessIndicator => "fitness indicator"

namespace Fault

variable {α : Type}

def list (items : List String) : String := String.intercalate ", " items

/-- Names offered in place of an unknown one. -/
def offered (names : List String) : String := if names.isEmpty then "none" else list names

def shapeText (shape : List Nat) : String := Text.grouped (shape.map toString)

/-- The wording of a fault, with `number` to write the numbers in it. -/
def message? (number : α → String) : Fault α → Option String
  | shapeMismatch | malformedTable | countOutOfRange | noPosition | noVariable | noAxis
  | divisionByZero | indexTooLarge | notASet | noLength | valueMissing | argumentMissing
  | argumentUnexpected | fileMissing | fieldFrozen | noSuchOperation | relativePath | noWorkers
  | fitnessMissing | endless => none
  | undefinedComparison => some ""
  | notAVector part shape => some (part.text ++ " must be 1D, got shape " ++ shapeText shape)
  | noObjectives n => some ("n_obj must be positive, got " ++ toString n)
  | objectiveCount expected given =>
    some ("expected " ++ toString expected ++ " objective values, got " ++ toString given)
  | constraintCount expected given =>
    some ("expected " ++ toString expected ++ " constraint values, got " ++ toString given)
  | notASolution found => some ("expected a Solution, got " ++ found)
  | outOfBounds i n =>
    some ("index " ++ toString i ++ " is out of bounds for population with " ++ toString n
      ++ " solutions")
  | boxSizesShape => some "epsilons must be a scalar or a non-empty 1D sequence"
  | boxSizesValue sizes =>
    some ("epsilons must be positive and finite, got " ++ Text.bracketed (sizes.map number))
  | emptyChain => some "ChainedComparator requires at least one comparator"
  | boxesMissing =>
    some "EpsilonBoxDominanceArchive requires epsilons or an epsilon-box comparator"
  | notABoxComparator found =>
    some ("comparator must be an EpsilonBoxDominanceComparator, got " ++ found)
  | emptyNormalization => some "cannot normalize against an empty reference set"
  | emptyReference indicator => some (indicator ++ " requires a non-empty reference set")
  | objectiveWidths given reference =>
    some ("approximation set has " ++ toString given ++ " objectives, reference set has "
      ++ toString reference)
  | noReferenceOrPoint => some "Hypervolume requires a reference set or a reference point"
  | kappaNotPositive kappa => some ("kappa must be positive, got " ++ number kappa)
  | fitnessNotEvaluated => some "fitness has not been evaluated yet"
  | removalBeforeEvaluation => some "remove_and_update called before evaluate"
  | populationChanged members evaluated =>
    some ("population has " ++ toString members ++ " members but fitness was evaluated for "
      ++ toString evaluated)
  | probability p => some ("prob must be in [0, 1], got " ++ number p)
  | etaNegative eta => some ("eta must be non-negative, got " ++ number eta)
  | tournamentSize n => some ("tournament size must be at least 1, got " ++ toString n)
  | emptyTournament => some "cannot select from an empty population"
  | parentCount expected given =>
    some ("expected " ++ toString expected ++ " parents, got " ++ toString given)
  | sizeNotPositive n => some ("size must be positive, got " ++ toString n)
  | tooManyInjected given size =>
    some ("cannot inject " ++ toString given ++ " solutions into a population of "
      ++ toString size)
  | sampleShape dimension shape =>
    some ("init must return shape " ++ Text.grouped [toString dimension] ++ ", got "
      ++ shapeText shape)
  | variablesNotPositive n => some ("n_vars must be positive, got " ++ toString n)
  | constraintsApart => some "constraints and n_constraints must be given together"
  | workers n => some ("n_workers must be positive or -1 (all cores), got " ++ toString n)
  | evaluationFailed => some "evaluation failed"
  | ambiguousName wanted name candidates =>
    some ("ambiguous " ++ wanted.text ++ " '" ++ name ++ "' matches " ++ list candidates)
  | unsupportedName wanted name available =>
    some ("unsupported " ++ wanted.text ++ " '" ++ name ++ "'. Available: " ++ offered available)
  | referenceMissing indicator =>
    some ("no reference set available for indicator '" ++ indicator ++ "'")
  | referencesMissing indicators =>
    some ("no reference set available for indicator(s) " ++ list indicators)
  | problemUnspecified => some "no problem specified"
  | problemTwice name path =>
    some ("specify either problem_name or problem_class, not both (got '" ++ name ++ "' and "
      ++ Text.quoted path ++ ")")
  | unknownProblem name available =>
    some ("unknown problem '" ++ name ++ "'. Available problems: " ++ offered available)
  | pathWithoutDots path =>
    some ("problem class '" ++ path ++ "' must be a dotted path such as 'package.module.Class'")
  | pathUnresolved path => some ("unable to resolve problem class '" ++ path ++ "'")
  | epsilonNotPositive epsilon =>
    some ("epsilon values must be positive, got " ++ Text.grouped (epsilon.map number))
  | referenceUnreadable file _ => some ("unable to load reference set '" ++ file ++ "'")
  | noReferenceFor label => some ("no reference set available for problem '" ++ label ++ "'")
  | fitnessNotAnArray found => some ("fitness must be a numpy array, got " ++ found)
  | fitnessCount given expected =>
    some ("fitness has " ++ toString given ++ " elements, expected " ++ toString expected
      ++ " to match population size")
  | alreadyStarted => some "IBEA is already initialized"
  | iterateBeforeStart => some "initialize() must be called before iterate()"
  | resultBeforeStart => some "IBEA has not been initialized"
  | generationsNegative n => some ("n_generations must be non-negative, got " ++ toString n)
  | populationSize n => some ("pop_size must be positive, got " ++ toString n)

end Fault
end ParetoSearch
