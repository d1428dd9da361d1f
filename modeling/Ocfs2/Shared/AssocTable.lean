import Mathlib.Tactic

set_option autoImplicit false

namespace AssocTable

variable {κ α : Type} [DecidableEq κ]

abbrev keys (table : List (κ × α)) : List κ := table.map Prod.fst

def set (table : List (κ × α)) (key : κ) (value : α) : List (κ × α) :=
  table.filter (fun entry => entry.1 ≠ key) ++ [(key, value)]

def modify (table : List (κ × α)) (key : κ) (f : α → α) : List (κ × α) :=
  table.map fun entry => if entry.1 = key then (entry.1, f entry.2) else entry

variable {key : κ} {table : List (κ × α)}

theorem set_of_notMem (fresh : key ∉ keys table) (value : α) :
    set table key value = table ++ [(key, value)] := by
  have kept : table.filter (fun entry => entry.1 ≠ key) = table := by
    apply List.filter_eq_self.mpr
    intro entry mem
    have : entry.1 ≠ key := fun same => fresh (same ▸ List.mem_map_of_mem mem)
    simpa using this
  rw [set, kept]

theorem modify_of_notMem (fresh : key ∉ keys table) (f : α → α) :
    modify table key f = table := by
  rw [modify]
  conv_rhs => rw [← List.map_id table]
  apply List.map_congr_left
  intro entry mem
  have other : entry.1 ≠ key := fun same => fresh (same ▸ List.mem_map_of_mem mem)
  exact if_neg other

@[simp]
theorem keys_modify (table : List (κ × α)) (key : κ) (f : α → α) : keys (modify table key f) = keys table := by
  rw [keys, modify, List.map_map]
  apply List.map_congr_left
  intro entry _
  simp only [Function.comp_apply]
  split <;> rfl

variable [BEq κ] [LawfulBEq κ]

omit [DecidableEq κ] in
theorem lookup_eq_none_of_notMem (fresh : key ∉ keys table) :
    table.lookup key = none := by
  apply List.lookup_eq_none_iff.mpr
  intro entry mem
  have : key ≠ entry.1 := fun same => fresh (same ▸ List.mem_map_of_mem mem)
  simpa using this

omit [DecidableEq κ] in
theorem lookup_of_mem (distinct : (keys table).Nodup) {value : α}
    (mem : (key, value) ∈ table) : table.lookup key = some value := by
  induction table with
  | nil => simp at mem
  | cons entry table ih =>
    rcases List.nodup_cons.mp distinct with ⟨fresh, rest⟩
    rcases List.mem_cons.mp mem with rfl | mem
    · simp
    · have other : key ≠ entry.1 := fun same => fresh (same ▸ List.mem_map_of_mem mem)
      rw [List.lookup_cons, beq_false_of_ne other]
      exact ih rest mem

omit [DecidableEq κ] in
theorem mem_of_lookup {value : α} (found : table.lookup key = some value) :
    (key, value) ∈ table := by
  obtain ⟨front, back, rfl, -⟩ := List.lookup_eq_some_iff.mp found
  simp

omit [DecidableEq κ] in
theorem lookup_perm {walked : List (κ × α)} (distinct : (keys table).Nodup) (perm : walked.Perm table)
    (key : κ) : walked.lookup key = table.lookup key := by
  have distinctWalked : (keys walked).Nodup := (perm.map Prod.fst).nodup_iff.mpr distinct
  cases found : table.lookup key with
  | some value => exact lookup_of_mem distinctWalked (perm.mem_iff.mpr (mem_of_lookup found))
  | none =>
    cases there : walked.lookup key with
    | none => rfl
    | some value =>
      rw [lookup_of_mem distinct (perm.mem_iff.mp (mem_of_lookup there))] at found
      simp at found

theorem lookup_modify (table : List (κ × α)) (key other : κ) (f : α → α) :
    (modify table key f).lookup other =
      if other = key then (table.lookup other).map f else table.lookup other := by
  induction table with
  | nil => simp [modify]
  | cons entry table ih =>
    obtain ⟨name, value⟩ := entry
    rw [modify, List.map_cons, ← modify]
    rcases eq_or_ne other name with rfl | differs
    · by_cases same : other = key <;> simp [same]
    · have skip (value : α) (rest : List (κ × α)) : ((name, value) :: rest).lookup other = rest.lookup other := by
        rw [List.lookup_cons, beq_false_of_ne differs]
      by_cases same : name = key
      · rw [if_pos same, skip, skip, ih]
      · rw [if_neg same, skip, skip, ih]

end AssocTable
