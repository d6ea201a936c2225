import ParetoSearch.Configuration
import ParetoSearch.Proofs.Arithmetic.Distance

/-!
# Box sizes judged twice

A configuration judges its box sizes when it is made, and its archive judges them again.
The configuration asks that each be positive, which leaves out what is not a number; the
archive asks moreover that each be finite.  So an archive that a configuration cannot make
is one with an infinite size among positive ones, and with every other value the two agree
(`Configuration.made_archive_unless_infinite`).
-/

namespace ParetoSearch

variable {α : Type} [Scalar α]

/-- Box sizes as they are given: none, one for all objectives, or one after another. -/
inductive GivenSizes (α : Type) where
  | none
  | uniform (size : α)
  | listed (sizes : List α)

namespace GivenSizes

def values : GivenSizes α → List α
  | .none => []
  | .uniform x => [x]
  | .listed xs => xs

/-- As a request brings them. -/
def nested? : GivenSizes α → Option (Nested α)
  | .none => Option.none
  | .uniform x => some (.entry x)
  | .listed xs => some (.parts (xs.map .entry))

/-- As an archive takes them. -/
def tensor? : GivenSizes α → Option (Tensor α)
  | .none => Option.none
  | .uniform x => some (.scalar x)
  | .listed xs => some (.vector xs)

end GivenSizes

/-! ## What the archive asks -/

theorem Tensor.size_vector (n : Nat) : Tensor.size [n] = n := Nat.one_mul n

omit [Scalar α] in
theorem Tensor.ofNested?_entries (xs : List α) :
    (ofNested? (.parts (xs.map .entry)) : Except (Fault α) (Tensor α)) = .ok (.vector xs) := by
  have hparts : (ofParts? (xs.map .entry) : Except (Fault α) _) = .ok (xs.map .scalar) := by
    induction xs with
    | nil => rfl
    | cons x rest ih =>
      rw [List.map_cons, ofParts?, ih]
      rfl
  rw [ofNested?, hparts]
  cases xs with
  | nil => rfl
  | cons x rest =>
    have hshapes : (rest.map scalar).all (fun q => q.shape = (scalar x).shape) = true := by
      simp [scalar]
    change join (scalar x :: rest.map scalar) = _
    rw [join, hshapes]
    simp [vector, scalar, depthLimit, List.flatMap_map]

/-- No sizes are the standard rule, and other sizes are taken as they are or refused. -/
theorem Policy.ofSizes?_given (g : GivenSizes α) :
    Policy.ofSizes? g.tensor? = if g.values = [] then .ok .standard
      else (BoxSizes.ofList? g.values).map fun b => .boxed ⟨b, true⟩ := by
  cases g with
  | none => rfl
  | uniform x => rfl
  | listed xs =>
    cases xs with
    | nil => rfl
    | cons x rest =>
      have hsize : Tensor.size (Tensor.vector (x :: rest)).shape ≠ 0 := by
        rw [Tensor.vector, Tensor.size_vector]
        exact Nat.succ_ne_zero _
      rw [GivenSizes.tensor?, Policy.ofSizes?, if_neg hsize]
      rfl

namespace BoxSizes

/-- Not to be zero or less is to be above zero, for a finite double. -/
theorem admits_iff {e : Float} :
    (!decide (e ≤ 0) && Scalar.isFinite e) = true ↔ 0 < e ∧ Scalar.isFinite e = true := by
  rw [Bool.and_eq_true, Bool.not_eq_true', decide_eq_false_iff_not]
  refine and_congr_left fun hfinite => ⟨?_, fun hlt hle => OrderlyScalar.not_lt_of_le hle hlt⟩
  exact Doubles.lt_of_not_le (Doubles.isNumber_of_isFinite hfinite) rfl

theorem ofList?_ok {sizes : List Float} (hne : sizes ≠ []) (hpositive : ∀ e ∈ sizes, 0 < e)
    (hfinite : ∀ e ∈ sizes, Scalar.isFinite e = true) :
    ∃ b, ofList? sizes = .ok b ∧ b.sizes = sizes := by
  have hall : sizes.all (fun e => !decide (e ≤ 0) && Scalar.isFinite e) = true :=
    List.all_eq_true.mpr fun e he => admits_iff.mpr ⟨hpositive e he, hfinite e he⟩
  exact ⟨⟨sizes, hne, hall⟩, by rw [ofList?, dif_neg hne, dif_pos hall], rfl⟩

theorem ofList?_infinite {sizes : List Float} {e : Float} (he : e ∈ sizes)
    (hinfinite : Scalar.isFinite e = false) : ofList? sizes = .error (.boxSizesValue sizes) := by
  have hall : ¬ sizes.all (fun e => !decide (e ≤ 0) && Scalar.isFinite e) = true := by
    intro hall
    have htaken := (admits_iff.mp (List.all_eq_true.mp hall e he)).2
    rw [hinfinite] at htaken
    cases htaken
  rw [ofList?, dif_neg (List.ne_nil_of_mem he), dif_neg hall]

theorem ofList?_refuses_iff {sizes : List Float} (hne : sizes ≠ []) :
    (∃ fault, ofList? sizes = .error fault) ↔
      (∃ e ∈ sizes, ¬ 0 < e) ∨ ∃ e ∈ sizes, Scalar.isFinite e = false := by
  constructor
  · rintro ⟨fault, hfault⟩
    by_contra! hgood
    obtain ⟨b, hb, -⟩ := ofList?_ok hne hgood.1 fun e he => Bool.of_not_eq_false (hgood.2 e he)
    rw [hfault] at hb
    cases hb
  · intro hbad
    cases hsizes : ofList? sizes with
    | error fault => exact ⟨fault, rfl⟩
    | ok b =>
      rw [ofList?, dif_neg hne] at hsizes
      split at hsizes
      case isFalse => cases hsizes
      case isTrue hall =>
        have hgood := fun e he => admits_iff.mp (List.all_eq_true.mp hall e he)
        rcases hbad with ⟨e, he, hnot⟩ | ⟨e, he, hinfinite⟩
        · exact absurd (hgood e he).1 hnot
        · rw [(hgood e he).2] at hinfinite
          cases hinfinite

end BoxSizes

/-! ## What the configuration asks -/

namespace Configuration

theorem sizes?_given (g : GivenSizes α) :
    sizes? g.nested? = if g.values = [] then .ok none
      else if g.values.all fun e => decide (0 < e) then .ok (some g.values)
      else .error (.epsilonNotPositive g.values) := by
  have hjudged : ∀ sizes : List α, (if sizes.isEmpty then (.ok none : Except (Fault α) _)
      else if sizes.all fun e => decide (0 < e) then .ok (some sizes)
      else .error (.epsilonNotPositive sizes)) = if sizes = [] then .ok none
        else if sizes.all fun e => decide (0 < e) then .ok (some sizes)
        else .error (.epsilonNotPositive sizes) := by
    intro sizes
    cases sizes <;> rfl
  cases g with
  | none => rfl
  | uniform x => exact hjudged [x]
  | listed xs =>
    rw [GivenSizes.nested?, sizes?, Tensor.ofNested?_entries]
    exact hjudged xs

/-- With sizes above zero a configuration is made, and keeps them. -/
theorem ofChoice?_positive {g : GivenSizes α} (h : ∀ e ∈ g.values, 0 < e)
    (catalogue : Catalogue α) (problem : ProblemChoice α) (file : Option (ReferenceFile α)) :
    ofChoice? catalogue problem g.nested? file =
      .ok ⟨problem, if g.values = [] then none else some g.values, file, catalogue⟩ := by
  have hall : g.values.all (fun e => decide (0 < e)) = true := by simpa using h
  rw [ofChoice?, sizes?_given, hall]
  split <;> rfl

theorem ofChoice?_not_positive {g : GivenSizes α} {e : α} (he : e ∈ g.values) (hnot : ¬ 0 < e)
    (catalogue : Catalogue α) (problem : ProblemChoice α) (file : Option (ReferenceFile α)) :
    ofChoice? catalogue problem g.nested? file = .error (.epsilonNotPositive g.values) := by
  have hall : ¬ g.values.all (fun e => decide (0 < e)) = true := by
    rw [List.all_eq_true]
    exact fun hall => hnot (of_decide_eq_true (hall e he))
  rw [ofChoice?, sizes?_given, if_neg (List.ne_nil_of_mem he), if_neg hall]
  rfl

/-- An archive gets the sizes that the configuration keeps. -/
theorem archive_of_kept {c : Configuration α} {sizes : List α}
    (h : c.epsilon = if sizes = [] then none else some sizes) :
    c.archive = (Policy.ofSizes? (GivenSizes.listed sizes).tensor?).map .empty := by
  have hpolicy : c.policy = Policy.ofSizes? (GivenSizes.listed sizes).tensor? := by
    rw [policy, h]
    cases sizes <;> rfl
  rw [archive, hpolicy]
  cases Policy.ofSizes? (GivenSizes.listed sizes).tensor? <;> rfl

end Configuration

/-! ## Both together -/

namespace Configuration

/-- A configuration is refused for a size that is not above zero, and for nothing else.  One
that is made has an archive if its sizes are finite, of the standard kind if there are none,
and has no archive if one of them is infinite.  Of all that an archive refuses, that is what
a configuration lets in. -/
theorem made_archive_unless_infinite (catalogue : Catalogue Float) (problem : ProblemChoice Float)
    (file : Option (ReferenceFile Float)) (g : GivenSizes Float) :
    let made := ofChoice? catalogue problem g.nested? file
    ((∃ e ∈ g.values, ¬ 0 < e) →
      ∃ fault, made = .error fault ∧ fault.category = .configuration) ∧
    ((∀ e ∈ g.values, 0 < e) → ∃ c, made = .ok c ∧ c.problem = problem ∧
      ((∀ e ∈ g.values, Scalar.isFinite e = true) → ∃ archive, c.archive = .ok archive ∧
        archive.members = [] ∧ (archive.policy = .standard ↔ g.values = []) ∧
        ∀ rule, archive.policy.boxRule? = some rule → rule.boxes.sizes = g.values) ∧
      ((∃ e ∈ g.values, Scalar.isFinite e = false) →
        c.archive = .error (.boxSizesValue g.values))) ∧
    ((∃ fault, Policy.ofSizes? g.tensor? = .error fault) ↔
      (∃ e ∈ g.values, ¬ 0 < e) ∨ ∃ e ∈ g.values, Scalar.isFinite e = false) := by
  intro made
  refine ⟨?_, fun hpositive => ?_, ?_⟩
  · rintro ⟨e, he, hnot⟩
    exact ⟨_, ofChoice?_not_positive he hnot catalogue problem file, rfl⟩
  · refine ⟨_, ofChoice?_positive hpositive catalogue problem file, rfl, fun hfinite => ?_, ?_⟩
    · rw [archive_of_kept rfl, Policy.ofSizes?_given]
      by_cases hnone : g.values = []
      · rw [GivenSizes.values, if_pos hnone]
        refine ⟨_, rfl, rfl, iff_of_true rfl hnone, fun rule hrule => ?_⟩
        cases hrule
      · obtain ⟨b, hb, hsizes⟩ := BoxSizes.ofList?_ok hnone hpositive hfinite
        rw [GivenSizes.values, if_neg hnone, hb]
        refine ⟨_, rfl, rfl, iff_of_false ?_ hnone, fun rule hrule => ?_⟩
        · rintro ⟨⟩
        · cases hrule
          exact hsizes
    · rintro ⟨e, he, hinfinite⟩
      rw [archive_of_kept rfl, Policy.ofSizes?_given, GivenSizes.values,
        if_neg (List.ne_nil_of_mem he), BoxSizes.ofList?_infinite he hinfinite]
      rfl
  · rw [Policy.ofSizes?_given]
    by_cases hnone : g.values = []
    · simp [hnone]
    · rw [if_neg hnone, ← BoxSizes.ofList?_refuses_iff hnone]
      cases BoxSizes.ofList? g.values <;> simp [Except.map]

theorem made_archive_unless_infinite_uneven :
    let made := ofChoice? .standard (.named "zdt1") (GivenSizes.listed [0.5, 0.25]).nested? none
    (∀ e ∈ [0.5, 0.25], (0 : Float) < e ∧ Scalar.isFinite e = true) ∧
      ∃ c, made = .ok c ∧ ∃ archive, c.archive = .ok archive ∧ archive.policy ≠ .standard := by
  have hsizes : ∀ e ∈ [0.5, 0.25], (0 : Float) < e ∧ Scalar.isFinite e = true := by decide
  obtain ⟨-, hmade, -⟩ :=
    made_archive_unless_infinite .standard (.named "zdt1") none (.listed [0.5, 0.25])
  obtain ⟨c, hc, -, harchive, -⟩ := hmade fun e he => (hsizes e he).1
  obtain ⟨archive, hok, -, hkind, -⟩ := harchive fun e he => (hsizes e he).2
  exact ⟨hsizes, c, hc, archive, hok, fun hstandard => nomatch hkind.mp hstandard⟩

/-- A configuration is made with an infinite size, and has no archive. -/
theorem infinite_size_let_in :
    ∃ c, ofChoice? .standard (.named "zdt1") (GivenSizes.listed [1 / 0]).nested? none = .ok c ∧
      c.archive = .error (.boxSizesValue [(1 / 0 : Float)]) := by
  with_unfolding_all exact ⟨_, rfl, rfl⟩

end Configuration
end ParetoSearch
