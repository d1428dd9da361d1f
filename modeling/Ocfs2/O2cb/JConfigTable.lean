import Ocfs2.O2cb.JConfigDump
import Mathlib.Data.List.ModifyLast

set_option autoImplicit false

namespace Ocfs2.O2cb

open AssocTable

def appendStanza (cf : JConfig) (stanza_name : Text) (cfs : JConfigStanza) : JConfig :=
  match cf.lookup stanza_name with
  | none => cf ++ [(stanza_name, [cfs])]
  | some _ => AssocTable.modify cf stanza_name fun elem => elem ++ [cfs]

variable {cf : JConfig} {listed : List (Text × JConfigStanza)}

theorem notMem_keys_of_lookup {stanza_name : Text} (fresh : cf.lookup stanza_name = none) :
    stanza_name ∉ keys cf := by
  intro mem
  obtain ⟨elem, inside, rfl⟩ := List.mem_map.mp mem
  have := List.lookup_eq_none_iff.mp fresh elem inside
  simp at this

theorem setLastAttribute_appendStanza (cf : JConfig) (stanza_name : Text) (cfs : JConfigStanza)
    (attr_name attr_value : Text) :
    setLastAttribute (appendStanza cf stanza_name cfs) stanza_name attr_name attr_value =
      appendStanza cf stanza_name (setAttribute cfs attr_name attr_value) := by
  cases found : cf.lookup stanza_name with
  | none =>
    have fresh := notMem_keys_of_lookup found
    have kept := modify_of_notMem fresh fun elem => elem.modifyLast fun cfs => setAttribute cfs attr_name attr_value
    rw [AssocTable.modify] at kept
    simp only [appendStanza, found, setLastAttribute, AssocTable.modify, List.map_append, kept]
    simp [List.modifyLast, List.modifyLast.go]
  | some elem =>
    simp only [appendStanza, found, setLastAttribute, AssocTable.modify, List.map_map]
    apply List.map_congr_left
    intro elem _
    by_cases same : elem.1 = stanza_name
    · simp [same, List.modifyLast_concat]
    · simp [same]

theorem foldl_setLastAttribute (cf : JConfig) (stanza_name : Text) (attrs cfs : JConfigStanza)
    (distinct : (keys (cfs ++ attrs)).Nodup) :
    attrs.foldl (fun cf attr => setLastAttribute cf stanza_name attr.1 attr.2) (appendStanza cf stanza_name cfs) =
      appendStanza cf stanza_name (cfs ++ attrs) := by
  induction attrs generalizing cfs with
  | nil => simp
  | cons attr attrs ih =>
    have fresh : attr.1 ∉ keys cfs := by
      intro mem
      rw [keys, List.map_append, List.nodup_append] at distinct
      exact distinct.2.2 attr.1 mem attr.1 (by simp) rfl
    rw [List.foldl_cons, setLastAttribute_appendStanza, setAttribute, set_of_notMem fresh, ih _ (by simpa using distinct),
      List.append_assoc]
    rfl

theorem storeStanza_eq {attrs : JConfigStanza} (distinct : (keys attrs).Nodup) (cf : JConfig) (stanza_name : Text) :
    storeStanza cf stanza_name attrs = appendStanza cf stanza_name attrs :=
  foldl_setLastAttribute cf stanza_name attrs [] distinct

theorem getStanzas_appendStanza (cf : JConfig) (stanza_name other : Text) (cfs : JConfigStanza) :
    getStanzas (appendStanza cf stanza_name cfs) other =
      getStanzas cf other ++ if stanza_name = other then [cfs] else [] := by
  cases found : cf.lookup stanza_name with
  | none =>
    simp only [getStanzas, appendStanza, found, List.lookup_append]
    by_cases same : stanza_name = other
    · subst same
      simp [found]
    · simp [List.lookup_cons, beq_false_of_ne (Ne.symm same), same]
  | some elem =>
    simp only [getStanzas, appendStanza, found, lookup_modify]
    by_cases same : stanza_name = other
    · subst same
      simp [found]
    · simp [same, Ne.symm same]

theorem keys_appendStanza_nodup (distinct : (keys cf).Nodup) (stanza_name : Text)
    (cfs : JConfigStanza) : (keys (appendStanza cf stanza_name cfs)).Nodup := by
  cases found : cf.lookup stanza_name with
  | none =>
    have fresh := notMem_keys_of_lookup found
    simp only [appendStanza, found, keys, List.map_append, List.map_cons, List.map_nil]
    refine List.nodup_append.mpr ⟨distinct, by simp, ?_⟩
    rintro name mem _ (_ | ⟨_, ⟨⟩⟩) rfl
    exact fresh mem
  | some elem =>
    simp only [appendStanza, found, keys_modify]
    exact distinct

def storeAll (listed : List (Text × JConfigStanza)) (cf : JConfig) : JConfig :=
  listed.foldl (fun cf entry => storeStanza cf entry.1 entry.2) cf

def named (listed : List (Text × JConfigStanza)) (stanza_name : Text) : List JConfigStanza :=
  (listed.filter fun entry => entry.1 = stanza_name).map Prod.snd

theorem storeAll_correct
    (distinct : ∀ entry ∈ listed, (keys entry.2).Nodup) (names : (keys cf).Nodup) :
    (keys (storeAll listed cf)).Nodup ∧
      ∀ stanza_name, getStanzas (storeAll listed cf) stanza_name = getStanzas cf stanza_name ++ named listed stanza_name := by
  induction listed generalizing cf with
  | nil => exact ⟨names, fun _ => by simp [storeAll, named]⟩
  | cons entry listed ih =>
    have stored := storeStanza_eq (distinct entry (by simp)) cf entry.1
    obtain ⟨after, found⟩ := ih (fun other mem => distinct other (by simp [mem]))
      (keys_appendStanza_nodup names entry.1 entry.2)
    rw [← stored] at after found
    refine ⟨after, fun stanza_name => ?_⟩
    rw [storeAll, List.foldl_cons, ← storeAll, found, stored, getStanzas_appendStanza, List.append_assoc]
    by_cases same : entry.1 = stanza_name <;> simp [named, same]

theorem getStanzas_cons (elem : Text × List JConfigStanza) (cf : JConfig) (stanza_name : Text) :
    getStanzas (elem :: cf) stanza_name = if elem.1 = stanza_name then elem.2 else getStanzas cf stanza_name := by
  obtain ⟨name, stanzas⟩ := elem
  rw [getStanzas, List.lookup_cons]
  by_cases same : name = stanza_name
  · simp [same]
  · simp [same, beq_false_of_ne (Ne.symm same), getStanzas]

theorem named_entries (names : (keys cf).Nodup) (stanza_name : Text) :
    named (entries cf) stanza_name = getStanzas cf stanza_name := by
  induction cf with
  | nil => rfl
  | cons elem cf ih =>
    obtain ⟨fresh, rest⟩ := List.nodup_cons.mp names
    have split : named (entries (elem :: cf)) stanza_name =
        (if elem.1 = stanza_name then elem.2 else []) ++ named (entries cf) stanza_name := by
      by_cases same : elem.1 = stanza_name <;>
        simp [named, entries, List.filter_append, List.filter_map, same, Function.comp_def]
    rw [split, ih rest, getStanzas_cons]
    by_cases same : elem.1 = stanza_name
    · rw [same] at fresh
      simp [same, getStanzas, lookup_eq_none_of_notMem fresh]
    · simp [same]

theorem mem_named_iff {entry : Text × JConfigStanza} :
    entry.2 ∈ named listed entry.1 ↔ entry ∈ listed := by
  simp [named]

theorem Walks.getStanzas {walked : JConfig} (walks : Walks cf walked) (names : (keys cf).Nodup) :
    (keys walked).Nodup ∧
      ∀ stanza_name, List.Forall₂ List.Perm (getStanzas cf stanza_name) (getStanzas walked stanza_name) := by
  obtain ⟨order, perm, same⟩ := walks
  have orderNames : (keys order).Nodup := (perm.map Prod.fst).nodup_iff.mpr names
  have sameNames : keys order = keys walked := by
    clear perm orderNames
    induction same with
    | nil => rfl
    | cons head _ ih => simpa [head.1] using ih
  refine ⟨sameNames ▸ orderNames, fun stanza_name => ?_⟩
  have found : O2cb.getStanzas cf stanza_name = O2cb.getStanzas order stanza_name := by
    rw [O2cb.getStanzas, O2cb.getStanzas, lookup_perm names perm]
  rw [found]
  clear found perm orderNames sameNames
  induction same with
  | nil => exact .nil
  | cons head _ ih =>
    rw [getStanzas_cons, getStanzas_cons, head.1]
    split
    · exact head.2
    · exact ih

theorem exists_mem_of_forall₂ {α β : Type} {R : α → β → Prop} {xs : List α} {ys : List β}
    (related : List.Forall₂ R xs ys) {y : β} (mem : y ∈ ys) : ∃ x ∈ xs, R x y := by
  induction related with
  | nil => simp at mem
  | cons head _ ih =>
    rcases List.mem_cons.mp mem with rfl | mem
    · exact ⟨_, by simp, head⟩
    · obtain ⟨x, inside, here⟩ := ih mem
      exact ⟨x, by simp [inside], here⟩

theorem Printable.perm {stanza_name : Text} {cfs walked : JConfigStanza} (printable : Printable (stanza_name, cfs))
    (perm : cfs.Perm walked) : Printable (stanza_name, walked) :=
  ⟨printable.1, fun attr mem => printable.2 attr (perm.mem_iff.mpr mem)⟩

theorem parseFile_storeAll
    (stored : ∀ entry ∈ listed, Printable entry ∧ (keys entry.2).Nodup) {walked : JConfig}
    (walks : Walks (storeAll listed []) walked) :
    ∃ parsed, parseFile (dumpMemory walked) = some parsed ∧
      ∀ stanza_name, List.Forall₂ List.Perm (named listed stanza_name) (getStanzas parsed stanza_name) := by
  have empty : (keys ([] : JConfig)).Nodup := List.nodup_nil
  obtain ⟨names, found⟩ := storeAll_correct (fun entry mem => (stored entry mem).2) empty
  obtain ⟨walkedNames, same⟩ := walks.getStanzas names
  have same (stanza_name : Text) :
      List.Forall₂ List.Perm (named listed stanza_name) (O2cb.getStanzas walked stanza_name) := by
    rw [← List.nil_append (named listed stanza_name)]
    exact found stanza_name ▸ same stanza_name
  have origin : ∀ entry ∈ entries walked, ∃ cfs, (entry.1, cfs) ∈ listed ∧ cfs.Perm entry.2 := by
    intro entry mem
    have inside := mem_named_iff.mpr mem
    rw [named_entries walkedNames] at inside
    obtain ⟨cfs, there, perm⟩ := exists_mem_of_forall₂ (same entry.1) inside
    exact ⟨cfs, mem_named_iff.mp there, perm⟩
  have printable : ∀ entry ∈ entries walked, Printable entry := by
    intro entry mem
    obtain ⟨cfs, inside, perm⟩ := origin entry mem
    exact (stored _ inside).1.perm perm
  have distinct : ∀ entry ∈ entries walked, (keys entry.2).Nodup := by
    intro entry mem
    obtain ⟨cfs, inside, perm⟩ := origin entry mem
    exact (perm.map Prod.fst).nodup_iff.mp (stored _ inside).2
  obtain ⟨-, parsed⟩ := storeAll_correct distinct empty
  refine ⟨storeAll (entries walked) [], parseFile_dumpMemory printable, fun stanza_name => ?_⟩
  rw [parsed, named_entries walkedNames]
  exact same stanza_name

end Ocfs2.O2cb
