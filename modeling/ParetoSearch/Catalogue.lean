import ParetoSearch.Problem.Zdt
import ParetoSearch.Registry.Names

/-!
# The catalogue of problems

Problems are listed under names, some with a reference set.  Both are made when
they are asked for, so a faulty entry shows only then.
-/

namespace ParetoSearch

structure CatalogueEntry (α : Type) where
  problem : Unit → Except (Fault α) (Problem α)
  reference : Option (Unit → Except (Fault α) (Tensor α))

abbrev Catalogue (α : Type) := Registry (CatalogueEntry α)

namespace Catalogue

variable {α : Type}

/-- Make the problem of a name, which must be complete. -/
def problem (c : Catalogue α) (name : String) : Except (Fault α) (Problem α) :=
  match c.get? name with
  | none => .error (.unknownProblem name c.names)
  | some entry => entry.problem ()

/-- The reference set of a name, if there is one. -/
def reference (c : Catalogue α) (name : String) : Except (Fault α) (Option (Tensor α)) :=
  match (c.get? name).bind CatalogueEntry.reference with
  | none => .ok none
  | some make => (make ()).map some

/-- The three problems with their fronts. -/
def standard [Scalar α] : Catalogue α :=
  ZdtProblem.all.foldl
    (fun c p =>
      c.register p.name ⟨fun _ => p.problem?, some fun _ => p.sample? ZdtProblem.frontSize⟩)
    Registry.empty

end Catalogue
end ParetoSearch
