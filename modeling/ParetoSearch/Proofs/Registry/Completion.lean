import Mathlib.Data.List.Dedup
import Mathlib.Data.List.Induction
import ParetoSearch.Registry.Names

/-!
# What a name stands for

A registry is made by registrations, and what counts is the last one under each name
(`Registry.get?_ofCalls`).  A text stands for a registered name if it is that name or the
beginning of that name and of no other, and these are the texts that are completed
(`Registry.complete_ofCalls`).  A text that is a name itself stands for itself, however
many names it begins.
-/

namespace ParetoSearch
namespace Registry

variable {α β : Type}

/-! ## Registrations -/

theorem lookup_cons_eq (n key : String) (v : β) (entries : List (String × β)) :
    ((n, v) :: entries).lookup key = if key = n then some v else entries.lookup key := by
  rw [List.lookup_cons]
  by_cases hkey : key = n
  · rw [if_pos hkey, beq_iff_eq.mpr hkey]
  · rw [if_neg hkey, beq_eq_false_iff_ne.mpr hkey]

theorem lookup_replace (name key : String) (value : β) (entries : List (String × β)) :
    (replace name value entries).lookup key =
      if key = name then some value else entries.lookup key := by
  induction entries with
  | nil => exact lookup_cons_eq name key value []
  | cons p rest ih =>
    obtain ⟨n, v⟩ := p
    rw [replace, lookup_cons_eq]
    by_cases hn : n = name
    · subst hn
      rw [if_pos rfl, lookup_cons_eq]
      by_cases hkey : key = n <;> simp only [hkey, if_true, if_false]
    · rw [if_neg hn, lookup_cons_eq, ih]
      by_cases hkey : key = n
      · subst hkey
        simp only [hn, if_true, if_false]
      · simp only [hkey, if_false]

theorem map_fst_replace (name : String) (value : β) (entries : List (String × β)) :
    (replace name value entries).map Prod.fst =
      if name ∈ entries.map Prod.fst then entries.map Prod.fst
      else entries.map Prod.fst ++ [name] := by
  induction entries with
  | nil => rfl
  | cons p rest ih =>
    obtain ⟨n, v⟩ := p
    rw [replace]
    by_cases hn : n = name
    · subst hn
      simp
    · rw [if_neg hn, List.map_cons, ih]
      have hmem : name ∈ n :: rest.map Prod.fst ↔ name ∈ rest.map Prod.fst := by
        simp [Ne.symm hn]
      simp only [List.map_cons, hmem]
      split <;> rfl

/-- The registry after some registrations. -/
def ofCalls (calls : List (String × β)) : Registry β :=
  calls.foldl (fun r call => r.register call.1 call.2) empty

/-- What was registered last under a name. -/
def last? (calls : List (String × β)) (name : String) : Option β := calls.reverse.lookup name

theorem ofCalls_snoc (calls : List (String × β)) (call : String × β) :
    ofCalls (calls ++ [call]) = (ofCalls calls).register call.1 call.2 :=
  List.foldl_concat _ _ _ _

theorem get?_ofCalls (calls : List (String × β)) (name : String) :
    (ofCalls calls).get? name = last? calls name := by
  induction calls using List.reverseRecOn with
  | nil => rfl
  | append_singleton calls call ih =>
    rw [ofCalls_snoc, get?, register, lookup_replace, last?, List.reverse_concat, lookup_cons_eq]
    split
    case isTrue => rfl
    case isFalse => exact ih

/-- The names under which something stands. -/
def keys (r : Registry β) : List String := r.entries.map Prod.fst

theorem mem_keys_ofCalls (calls : List (String × β)) (name : String) :
    name ∈ (ofCalls calls).keys ↔ name ∈ calls.map Prod.fst := by
  induction calls using List.reverseRecOn with
  | nil => rfl
  | append_singleton calls call ih =>
    rw [ofCalls_snoc, keys, register, map_fst_replace, List.map_append, List.mem_append, ← ih]
    change name ∈ (if call.1 ∈ (ofCalls calls).keys then _ else _) ↔ _
    split
    case isTrue hmem =>
      simp only [List.map_cons, List.map_nil, List.mem_singleton]
      exact ⟨Or.inl, fun h => h.elim id fun h => h ▸ hmem⟩
    case isFalse => rw [List.mem_append]; rfl

theorem keys_ofCalls_nodup (calls : List (String × β)) : (ofCalls calls).keys.Nodup := by
  induction calls using List.reverseRecOn with
  | nil => exact List.nodup_nil
  | append_singleton calls call ih =>
    rw [ofCalls_snoc, keys, register, map_fst_replace]
    split
    case isTrue => exact ih
    case isFalse hnew =>
      refine ih.append (List.nodup_singleton _) fun n hn hcall => hnew ?_
      rwa [List.mem_singleton.mp hcall] at hn

/-! ## Completion -/

/-- A text stands for a registered name: it is the name, or it is not empty and begins that
registered name and no other. -/
def Stands (registered : List String) (name full : String) : Prop :=
  full ∈ registered ∧ (full = name ∨
    name ≠ "" ∧ ∀ other ∈ registered, name.toList <+: other.toList ↔ other = full)

instance (registered : List String) (name full : String) :
    Decidable (Stands registered name full) :=
  inferInstanceAs (Decidable (full ∈ registered ∧ (full = name ∨
    name ≠ "" ∧ ∀ other ∈ registered, name.toList <+: other.toList ↔ other = full)))

theorem Stands.self {registered : List String} {name : String} (h : name ∈ registered) :
    Stands registered name name := ⟨h, Or.inl rfl⟩

theorem Stands.eq_of_mem {registered : List String} {name full : String}
    (h : Stands registered name full) (hname : name ∈ registered) : full = name := by
  obtain ⟨-, heq | ⟨-, honly⟩⟩ := h
  · exact heq
  · exact ((honly name hname).mp List.prefix_rfl).symm

theorem stands_congr {registered others : List String}
    (h : ∀ name, name ∈ registered ↔ name ∈ others) (name full : String) :
    Stands registered name full ↔ Stands others name full := by
  simp only [Stands, h]

theorem eq_singleton_iff {γ : Type} {xs : List γ} (h : xs.Nodup) (x : γ) :
    xs = [x] ↔ ∀ y, y ∈ xs ↔ y = x := by
  rw [← List.perm_singleton, List.perm_ext_iff_of_nodup h (List.nodup_singleton x)]
  simp only [List.mem_singleton]

variable {r : Registry β} {name full : String} {value : β} {wanted : Wanted}

theorem get?_eq_none : r.get? name = none ↔ name ∉ r.keys := by
  rw [get?, List.lookup_eq_none_iff, keys, List.mem_map]
  simp only [bne_iff_ne, ne_eq, not_exists, not_and]
  exact forall₂_congr fun _ _ => not_congr eq_comm

theorem mem_candidates (hname : name ≠ "") :
    full ∈ r.candidates name ↔ full ∈ r.keys ∧ name.toList <+: full.toList := by
  rw [candidates, if_neg hname, List.mem_filter, begins, List.isPrefixOf_iff_prefix]
  exact and_congr_left' (List.mergeSort_perm _ _).mem_iff

theorem candidates_nodup (h : r.keys.Nodup) : (r.candidates name).Nodup := by
  rw [candidates]
  split
  case isTrue => exact List.nodup_nil
  case isFalse => exact ((List.mergeSort_perm _ _).nodup_iff.mpr h).filter _

/-- A text that is no name itself has one candidate where it stands for that name. -/
theorem candidates_eq_singleton (h : r.keys.Nodup) (hname : name ∉ r.keys) :
    r.candidates name = [full] ↔ Stands r.keys name full := by
  by_cases hempty : name = ""
  · refine ⟨fun heq => ?_, ?_⟩
    · rw [candidates, if_pos hempty] at heq
      cases heq
    · rintro ⟨hfull, rfl | ⟨hne, -⟩⟩
      · exact absurd hfull hname
      · exact absurd hempty hne
  rw [eq_singleton_iff (candidates_nodup h)]
  simp only [mem_candidates hempty]
  constructor
  · intro honly
    refine ⟨((honly full).mpr rfl).1, Or.inr ⟨hempty, fun other hother => ?_⟩⟩
    exact ⟨fun hbegins => (honly other).mp ⟨hother, hbegins⟩, fun heq => ((honly other).mpr heq).2⟩
  · rintro ⟨hfull, rfl | ⟨-, honly⟩⟩ other
    · exact absurd hfull hname
    · refine ⟨fun ⟨hother, hbegins⟩ => (honly other hother).mp hbegins, ?_⟩
      rintro rfl
      exact ⟨hfull, (honly other hfull).mpr rfl⟩

theorem complete_ok_iff (h : r.keys.Nodup) :
    (r.complete wanted name : Except (Fault α) (String × β)) = .ok (full, value) ↔
      Stands r.keys name full ∧ r.get? full = some value := by
  unfold complete
  cases hget : r.get? name with
  | some v =>
    have hname : name ∈ r.keys := by
      by_contra hname
      rw [get?_eq_none.mpr hname] at hget
      cases hget
    constructor
    · intro heq
      cases heq
      exact ⟨.self hname, hget⟩
    · rintro ⟨hstands, hfull⟩
      cases hstands.eq_of_mem hname
      rw [hget] at hfull
      cases hfull
      rfl
  | none =>
    have hcandidates : ∀ full, r.candidates name = [full] ↔ Stands r.keys name full :=
      fun full => candidates_eq_singleton h (get?_eq_none.mp hget)
    constructor
    · intro heq
      dsimp only at heq
      split at heq
      case h_1 => cases heq
      case h_2 other hother =>
        split at heq
        case h_1 v hv =>
          cases heq
          exact ⟨(hcandidates full).mp hother, hv⟩
        case h_2 => cases heq
      case h_3 => cases heq
    · rintro ⟨hstands, hfull⟩
      rw [(hcandidates full).mpr hstands]
      simp only [hfull]

theorem complete_error {e : Fault α}
    (h : (r.complete wanted name : Except (Fault α) (String × β)) = .error e) :
    e.category = .configuration := by
  unfold complete at h
  split at h
  case h_1 => cases h
  case h_2 =>
    split at h
    case h_1 => cases h; rfl
    case h_2 =>
      split at h
      case h_1 => cases h
      case h_2 => cases h; rfl
    case h_3 => cases h; rfl

/-! ## Registrations and completion together -/

theorem complete_ofCalls (calls : List (String × β)) :
    ((ofCalls calls).complete wanted name : Except (Fault α) (String × β)) = .ok (full, value) ↔
      Stands (calls.map Prod.fst) name full ∧ last? calls full = some value := by
  rw [complete_ok_iff (keys_ofCalls_nodup calls), get?_ofCalls,
    stands_congr (mem_keys_ofCalls calls)]

/-- Something was registered under what a text stands for. -/
theorem Stands.last {calls : List (String × β)} (h : Stands (calls.map Prod.fst) name full) :
    ∃ value, last? calls full = some value := by
  rw [← Option.isSome_iff_exists, ← Option.ne_none_iff_isSome, ← get?_ofCalls, ne_eq,
    get?_eq_none, not_not, mem_keys_ofCalls]
  exact h.1

end Registry
end ParetoSearch
