import ParetoSearch.Proofs.Work
import ParetoSearch.Search.Machine

/-!
# Breeding

Families are bred until there are offspring enough, and nothing bounds how many families that
takes.  What every family keeps the loop keeps, and the world is all that it changes
(`breed_ends`).  It comes to an end where every family has a child (`families_ne_none`), and a
run of it can be followed family by family (`families_next`, `families_induction`).
-/

namespace ParetoSearch

variable {σ α : Type} [Scalar α]

namespace Machine

variable {m : Machine σ α}

theorem outside_run {β : Type} {w : Work (World σ α) α β} {answer : Except (Fault α) β}
    {world : World σ α} (h : w.run.run m.world = (answer, world)) :
    (outside w).run.run m = (answer, { m with world := world }) := by
  have houtside : (outside w).run.run m =
      ((w.run.run m.world).1, { m with world := (w.run.run m.world).2 }) := rfl
  rw [houtside, h]

theorem outside_ends {β : Type} {w : Work (World σ α) α β} {P : β → World σ α → Prop}
    {F : Fault α → World σ α → Prop} (h : w.Ends m.world P F) :
    (outside w).Ends m (fun x t => ∃ world, t = { m with world := world } ∧ P x world)
      fun e t => ∃ world, t = { m with world := world } ∧ F e world := Work.ends_within h

section

variable {family : List Ref → Work (World σ α) α (List Ref)} {wanted : Nat}
  {offspring children : List Ref} {world : World σ α}

theorem families_enough (h : wanted ≤ offspring.length) :
    families family wanted (offspring, m) = some (.ok offspring, m) := by
  rw [families, if_neg (Nat.not_lt_of_le h)]

theorem families_next (hshort : offspring.length < wanted)
    (hfamily : (family m.population).run.run m.world = (.ok children, world)) :
    families family wanted (offspring, m) =
      families family wanted (offspring ++ children, { m with world := world }) := by
  conv_lhs => rw [families, if_pos hshort, outside_run hfamily]
  rfl

theorem families_fails (hshort : offspring.length < wanted) {e : Fault α}
    (hfamily : (family m.population).run.run m.world = (.error e, world)) :
    families family wanted (offspring, m) = some (.error e, { m with world := world }) := by
  rw [families, if_pos hshort, outside_run hfamily]

/-- How the loop comes to an answer; the induction is on how far it has been followed, since
it need not have one. -/
theorem families_induction
    {motive : List Ref → Machine σ α → Except (Fault α) (List Ref) → Machine σ α → Prop}
    (henough : ∀ offspring m, wanted ≤ offspring.length → motive offspring m (.ok offspring) m)
    (hnext : ∀ offspring m children world answer t, offspring.length < wanted →
      (family m.population).run.run m.world = (.ok children, world) →
      motive (offspring ++ children) { m with world := world } answer t →
      motive offspring m answer t)
    (hfails : ∀ offspring m e world, offspring.length < wanted →
      (family m.population).run.run m.world = (.error e, world) →
      motive offspring m (.error e) { m with world := world })
    {answer : Except (Fault α) (List Ref)} {t : Machine σ α}
    (h : families family wanted (offspring, m) = some (answer, t)) :
    motive offspring m answer t := by
  refine families.partial_correctness family wanted
    (fun start r => motive start.1 start.2 r.1 r.2) ?_ (offspring, m) (answer, t) h
  rintro further ih ⟨offspring, m⟩ ⟨answer, t⟩ hr
  dsimp only at hr
  by_cases hshort : offspring.length < wanted
  · rw [if_pos hshort] at hr
    cases hrun : (family m.population).run.run m.world with
    | mk bred world =>
      rw [outside_run hrun] at hr
      cases bred with
      | ok children => exact hnext _ _ _ _ _ _ hshort hrun (ih _ _ hr)
      | error e =>
        cases hr
        exact hfails _ _ _ _ hshort hrun
  · rw [if_neg hshort] at hr
    cases hr
    exact henough _ _ (Nat.le_of_not_lt hshort)

variable {population : List Ref} {P : List Ref → World σ α → Prop}
  {F : Fault α → World σ α → Prop}

theorem families_ends
    (hfamily : ∀ offspring world, P offspring world → offspring.length < wanted →
      (family population).Ends world (fun children world => P (offspring ++ children) world) F)
    (hm : m.population = population) (hP : P offspring m.world)
    {answer : Except (Fault α) (List Ref)} {t : Machine σ α}
    (h : families family wanted (offspring, m) = some (answer, t)) :
    ∃ world, t = { m with world := world } ∧
      (∀ children, answer = .ok children → P children world ∧ wanted ≤ children.length) ∧
      ∀ e, answer = .error e → F e world := by
  refine families_induction (motive := fun offspring m answer t =>
    m.population = population → P offspring m.world → ∃ world, t = { m with world := world } ∧
      (∀ children, answer = .ok children → P children world ∧ wanted ≤ children.length) ∧
      ∀ e, answer = .error e → F e world) ?_ ?_ ?_ h hm hP
  · intro offspring m henough hm hP
    refine ⟨m.world, rfl, fun _ h => ?_, fun _ h => (by cases h)⟩
    cases h
    exact ⟨hP, henough⟩
  · intro offspring m children world answer t hshort hrun ih hm hP
    subst hm
    exact ih rfl ((hfamily offspring _ hP hshort).of_ok hrun)
  · intro offspring m e world hshort hrun hm hP
    subst hm
    refine ⟨world, rfl, fun _ h => (by cases h), fun _ h => ?_⟩
    cases h
    exact (hfamily offspring _ hP hshort).of_error hrun

/-- Each family brings the loop nearer to its end. -/
theorem families_ne_none
    (hfamily : ∀ offspring world, P offspring world → offspring.length < wanted →
      (family population).Ends world
        (fun children world => children ≠ [] ∧ P (offspring ++ children) world) F)
    (hm : m.population = population) (hP : P offspring m.world) :
    families family wanted (offspring, m) ≠ none := by
  induction hleft : wanted - offspring.length using Nat.strongRecOn generalizing offspring m with
  | ind left ih =>
    by_cases hshort : offspring.length < wanted
    · subst hm
      have hone := hfamily offspring m.world hP hshort
      cases hrun : (family m.population).run.run m.world with
      | mk answer world =>
        cases answer with
        | error e =>
          rw [families_fails hshort hrun]
          exact Option.some_ne_none _
        | ok children =>
          obtain ⟨hsome, hnext⟩ := hone.of_ok hrun
          have hchild : 0 < children.length := List.length_pos_iff.mpr hsome
          rw [families_next hshort hrun]
          refine ih (wanted - (offspring ++ children).length) ?_ rfl hnext rfl
          rw [List.length_append]
          omega
    · rw [families_enough (Nat.le_of_not_lt hshort)]
      exact Option.some_ne_none _

end

variable {s : Search σ α} {wanted : Nat}

theorem breed_of_families {answer : Except (Fault α) (List Ref)} {t : Machine σ α}
    (h : families (family s) wanted ([], m) = some (answer, t)) :
    (breed s wanted).run.run m = (answer, t) := by
  change (families (family s) wanted ([], m)).getD _ = _
  rw [h]
  rfl

theorem breed_endless (h : families (family s) wanted ([], m) = none) :
    (breed s wanted).run.run m = (.error .endless, m) := by
  change (families (family s) wanted ([], m)).getD _ = _
  rw [h]
  rfl

/-- A single family may be enough. -/
theorem breed_of_family {children : List Ref} {world : World σ α} (hwanted : 0 < wanted)
    (hfamily : (family s m.population).run.run m.world = (.ok children, world))
    (henough : wanted ≤ children.length) :
    (breed s wanted).run.run m = (.ok children, { m with world := world }) := by
  refine breed_of_families ?_
  rw [families_next hwanted hfamily]
  exact families_enough henough

/-- What every family keeps, breeding keeps. -/
theorem breed_ends {P : List Ref → World σ α → Prop} {F : Fault α → World σ α → Prop}
    (hfamily : ∀ offspring world, P offspring world → offspring.length < wanted →
      (family s m.population).Ends world
        (fun children world => P (offspring ++ children) world) F)
    (hP : P [] m.world)
    (hendless : families (family s) wanted ([], m) = none → F .endless m.world) :
    (breed s wanted).Ends m
      (fun offspring t => ∃ world, t = { m with world := world } ∧ P offspring world ∧
        wanted ≤ offspring.length)
      fun e t => ∃ world, t = { m with world := world } ∧ F e world := by
  cases hbred : families (family s) wanted ([], m) with
  | none => exact Work.ends_of_fault (breed_endless hbred) ⟨m.world, rfl, hendless hbred⟩
  | some r =>
    obtain ⟨answer, t⟩ := r
    obtain ⟨world, ht, hok, herror⟩ := families_ends hfamily rfl hP hbred
    cases answer with
    | ok offspring =>
      exact Work.ends_of_run (breed_of_families hbred) ⟨world, ht, hok offspring rfl⟩
    | error e => exact Work.ends_of_fault (breed_of_families hbred) ⟨world, ht, herror e rfl⟩

theorem breed_world {answer : Except (Fault α) (List Ref)} {t : Machine σ α}
    (h : (breed s wanted).run.run m = (answer, t)) : ∃ world, t = { m with world := world } := by
  have hends : (breed s wanted).Ends m _ _ := breed_ends (P := fun _ _ => True)
    (F := fun _ _ => True) (fun _ _ _ _ => Work.ends_trivial _ _) trivial fun _ => trivial
  cases answer with
  | ok offspring =>
    obtain ⟨world, ht, -⟩ := hends.of_ok h
    exact ⟨world, ht⟩
  | error e =>
    obtain ⟨world, ht, -⟩ := hends.of_error h
    exact ⟨world, ht⟩

end Machine
end ParetoSearch
