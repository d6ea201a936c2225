import ParetoSearch.Registry.Names
import ParetoSearch.Fitness.Scheme

/-!
# The registry of fitness schemes
-/

namespace ParetoSearch
namespace SchemeRegistry

variable {α : Type}

abbrev Table := Registry SchemeKind

def standard : Table :=
  Registry.empty |>.register "epsilon" .epsilon |>.register "hypervolume" .hypervolume

/-- A scheme with the arguments that were filled in. -/
structure Built (α : Type) where
  kind : SchemeKind
  scheme : Scheme α
  rho : Option α

def get [Scalar α] (r : Table) (name : String) (a : SchemeArguments α) :
    Except (Fault α) (Built α) := do
  let (_, kind) ← r.complete .fitnessIndicator name
  return ⟨kind, ← kind.build a, kind.rho? a⟩

end SchemeRegistry
end ParetoSearch
