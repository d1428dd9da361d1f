import Ocfs2.Fsck.Pass3
import Ocfs2.Fsck.Pass3Walk

set_option autoImplicit false

namespace Ocfs2.Pass3

open ParentGraph Function

section Records

variable {root : List DirParent} {ino x : Nat} {f : DirParent → DirParent}

def inos (root : List DirParent) : List Nat := root.map DirParent.dp_ino

def parent (root : List DirParent) (x : Nat) : Nat :=
  match dirParentLookup root x with
  | none => 0
  | some dp => dp.dp_dirent

def IsConnected (root : List DirParent) (x : Nat) : Prop :=
  ∃ dp, dirParentLookup root x = some dp ∧ dp.dp_connected = true

def Seen (root : List DirParent) (loop_no x : Nat) : Prop :=
  ∃ dp, dirParentLookup root x = some dp ∧ dp.dp_loop_no = loop_no

def connectAt (root : List DirParent) (ino : Nat) : List DirParent :=
  modify root ino fun dp => { dp with dp_connected := true }

theorem parent_of_lookup {dp : DirParent} (found : dirParentLookup root x = some dp) :
    parent root x = dp.dp_dirent := by
  rw [parent, found]

theorem mem_inos : x ∈ inos root ↔ ∃ dp, dirParentLookup root x = some dp := by
  rw [← Option.isSome_iff_exists, dirParentLookup, List.find?_isSome, inos, List.mem_map]
  simp

section

variable (keeps : ∀ dp, (f dp).dp_ino = dp.dp_ino)

include keeps

theorem lookup_modify : dirParentLookup (modify root ino f) x =
      if x = ino then (dirParentLookup root x).map f else dirParentLookup root x := by
  induction root with
  | nil => simp [modify, dirParentLookup]
  | cons dp root ih =>
    simp only [dirParentLookup, modify, List.map_cons, List.find?_cons] at ih ⊢
    have ino_eq : (if dp.dp_ino = ino then f dp else dp).dp_ino = dp.dp_ino := by
      split
      · exact keeps dp
      · rfl
    rw [ino_eq]
    by_cases found : dp.dp_ino = x
    · subst found
      simp only [beq_self_eq_true, Option.map_some]
      split <;> rfl
    · simp only [beq_false_of_ne found]
      exact ih

theorem inos_modify : inos (modify root ino f) = inos root := by
  simp only [inos, modify, List.map_map]
  apply List.map_congr_left
  intro dp _
  simp only [comp_apply]
  split
  · exact keeps dp
  · rfl

theorem parent_modify (same : ∀ dp, (f dp).dp_dirent = dp.dp_dirent) :
    parent (modify root ino f) = parent root := by
  funext x
  simp only [parent, lookup_modify keeps]
  by_cases here : x = ino
  · cases found : dirParentLookup root x <;> simp [here, same]
  · simp [here]

theorem has_modify {P : DirParent → Prop} (same : ∀ dp, P (f dp) ↔ P dp) :
    (∃ dp, dirParentLookup (modify root ino f) x = some dp ∧ P dp) ↔ ∃ dp, dirParentLookup root x = some dp ∧ P dp := by
  rw [lookup_modify keeps]
  split
  · cases dirParentLookup root x <;> simp [same]
  · rfl

theorem has_set (present : ino ∈ inos root) {P : DirParent → Prop} (set : ∀ dp, P (f dp)) :
    (∃ dp, dirParentLookup (modify root ino f) x = some dp ∧ P dp) ↔
      (∃ dp, dirParentLookup root x = some dp ∧ P dp) ∨ x = ino := by
  obtain ⟨dp, found⟩ := mem_inos.mp present
  rw [lookup_modify keeps]
  split
  next here => simp [here, found, set]
  next other => simp [other]

theorem isConnected_modify (same : ∀ dp, (f dp).dp_connected = dp.dp_connected) :
    IsConnected (modify root ino f) x ↔ IsConnected root x := has_modify keeps fun dp => by rw [same]

theorem seen_modify (same : ∀ dp, (f dp).dp_loop_no = dp.dp_loop_no) {n : Nat} :
    Seen (modify root ino f) n x ↔ Seen root n x := has_modify keeps fun dp => by rw [same]

end

theorem isConnected_connect (present : ino ∈ inos root) :
    IsConnected (connectAt root ino) x ↔ IsConnected root x ∨ x = ino := has_set (by simp) present (by simp)

theorem seen_mark (present : ino ∈ inos root) {n : Nat} :
    Seen (modify root ino fun dp => { dp with dp_loop_no := n }) n x ↔ Seen root n x ∨ x = ino :=
  has_set (by simp) present (by simp)

theorem inos_connect : inos (connectAt root ino) = inos root := inos_modify fun _ => rfl

theorem parent_connect : parent (connectAt root ino) = parent root := parent_modify (fun _ => rfl) fun _ => rfl

theorem seen_connect {n : Nat} : Seen (connectAt root ino) n x ↔ Seen root n x :=
  seen_modify (by simp) (by simp)

theorem parent_move (present : ino ∈ inos root) (lf : Nat) :
    parent (modify root ino fun dp => { dp with dp_dirent := lf }) = update (parent root) ino lf := by
  obtain ⟨dp, found⟩ := mem_inos.mp present
  funext x
  rw [parent, @lookup_modify root ino x (fun dp => { dp with dp_dirent := lf }) fun _ => rfl]
  by_cases here : x = ino
  · simp [here, found]
  · simp [here, parent]

end Records

section Ascend

def Numbered (n : Nat) (root : List DirParent) : Prop :=
  ∀ x dp, dirParentLookup root x = some dp → dp.dp_loop_no ≤ n

theorem Numbered.modify {n ino : Nat} {root : List DirParent} {f : DirParent → DirParent}
    (numbered : Numbered n root) (keeps : ∀ dp, (f dp).dp_ino = dp.dp_ino)
    (le : ∀ dp, dp.dp_loop_no ≤ n → (f dp).dp_loop_no ≤ n) : Numbered n (Pass3.modify root ino f) := by
  intro x dp found
  rw [lookup_modify keeps] at found
  split at found
  · obtain ⟨dp', found', rfl⟩ := Option.map_eq_some_iff.mp found
    exact le dp' (numbered x dp' found')
  · exact numbered x dp found

theorem Numbered.connect {n ino : Nat} {root : List DirParent} (numbered : Numbered n root) :
    Numbered n (connectAt root ino) := numbered.modify (fun _ => rfl) fun _ => id

structure Ascending (start : List DirParent) (n d i : Nat) (root : List DirParent) : Prop where
  inos_eq : inos root = inos start
  parent_eq : parent root = parent start
  numbered : Numbered n root
  connected : ∀ x, IsConnected root x ↔ IsConnected start x ∨ ∃ j, j < i ∧ x = (parent start)^[j] d
  seen : ∀ x, Seen root n x ↔ ∃ j, 0 < j ∧ j ≤ i ∧ x = (parent start)^[j] d
  fresh : ∀ j, j < i → ¬IsConnected start ((parent start)^[j] d)
  distinct : ∀ j k, j < k → k < i → (parent start)^[j] d ≠ (parent start)^[k] d
  unseen : ∀ j, 0 < j → j < i → (parent start)^[j] d ≠ (parent start)^[i] d
  present : ∀ j, j ≤ i → (parent start)^[j] d ∈ inos start

variable {env : Env} {ost : O2fsckState} {start root : List DirParent} {n d i : Nat}

theorem Ascending.le (walk : Ascending start n d i root) : i ≤ start.length := by
  have inside : ∀ j ∈ Finset.range i, (parent start)^[j] d ∈ (inos start).toFinset := by
    intro j mem
    rw [List.mem_toFinset]
    exact walk.present j (Finset.mem_range.mp mem).le
  have injective : Set.InjOn (fun j => (parent start)^[j] d) (Finset.range i) := by
    intro j hj k hk same
    rw [Finset.coe_range, Set.mem_Iio] at hj hk
    rcases lt_trichotomy j k with lt | eq | gt
    · exact absurd same (walk.distinct j k lt hk)
    · exact eq
    · exact absurd same.symm (walk.distinct k j gt hj)
  calc i = (Finset.range i).card := (Finset.card_range i).symm
    _ ≤ (inos start).toFinset.card := Finset.card_le_card_of_injOn _ inside injective
    _ ≤ (inos start).length := List.toFinset_card_le _
    _ = start.length := List.length_map _

theorem Ascending.distinct_succ (walk : Ascending start n d i root)
    (open_here : ¬IsConnected root ((parent start)^[i] d)) :
    (∀ j, j < i + 1 → ¬IsConnected start ((parent start)^[j] d)) ∧
      ∀ j k, j < k → k < i + 1 → (parent start)^[j] d ≠ (parent start)^[k] d := by
  rw [walk.connected, not_or, not_exists] at open_here
  constructor
  · intro j lt
    rcases Nat.lt_succ_iff_lt_or_eq.mp lt with lt | rfl
    · exact walk.fresh j lt
    · exact open_here.1
  · intro j k lt upper
    rcases Nat.lt_succ_iff_lt_or_eq.mp upper with upper | rfl
    · exact walk.distinct j k lt upper
    · exact fun same => open_here.2 j ⟨lt, same.symm⟩

theorem Ascending.connect (walk : Ascending start n d i root) (x : Nat) :
    IsConnected (connectAt root ((parent start)^[i] d)) x ↔
      IsConnected start x ∨ ∃ j, j < i + 1 ∧ x = (parent start)^[j] d := by
  rw [isConnected_connect (walk.inos_eq ▸ walk.present i le_rfl), walk.connected, or_assoc]
  refine or_congr_right ⟨?_, ?_⟩
  · rintro (⟨j, lt, eq⟩ | eq)
    · exact ⟨j, by omega, eq⟩
    · exact ⟨i, by omega, eq⟩
  · rintro ⟨j, lt, eq⟩
    rcases Nat.lt_succ_iff_lt_or_eq.mp lt with lt | rfl
    · exact Or.inl ⟨j, lt, eq⟩
    · exact Or.inr eq

theorem Ascending.next (walk : Ascending start n d i root) (open_here : ¬IsConnected root ((parent start)^[i] d))
    (present : (parent start)^[i + 1] d ∈ inos start)
    (unseen : ¬Seen (connectAt root ((parent start)^[i] d)) n ((parent start)^[i + 1] d)) :
    Ascending start n d (i + 1) (modify (connectAt root ((parent start)^[i] d)) ((parent start)^[i + 1] d)
      fun dp => { dp with dp_loop_no := n }) := by
  obtain ⟨fresh, distinct⟩ := walk.distinct_succ open_here
  have inos_marked : inos (connectAt root ((parent start)^[i] d)) = inos start := inos_connect.trans walk.inos_eq
  rw [seen_connect, walk.seen] at unseen
  refine ⟨(inos_modify (by simp)).trans inos_marked,
    ((parent_modify (by simp) (by simp)).trans parent_connect).trans walk.parent_eq,
    walk.numbered.connect.modify (by simp) (by simp), ?_, ?_, fresh, distinct, ?_, ?_⟩
  · intro x
    rw [isConnected_modify (by simp) (by simp)]
    exact walk.connect x
  · intro x
    rw [seen_mark (inos_marked ▸ present), seen_connect, walk.seen]
    constructor
    · rintro (⟨j, pos, le, eq⟩ | eq)
      · exact ⟨j, pos, by omega, eq⟩
      · exact ⟨i + 1, by omega, le_rfl, eq⟩
    · rintro ⟨j, pos, le, eq⟩
      rcases Nat.le_succ_iff.mp le with le | rfl
      · exact Or.inl ⟨j, pos, le, eq⟩
      · exact Or.inr eq
  · intro j pos lt same
    exact unseen ⟨j, pos, by omega, same.symm⟩
  · intro j le
    rcases Nat.le_succ_iff.mp le with le | rfl
    · exact walk.present j le
    · exact present

structure Accepts (env : Env) (ost : O2fsckState) : Prop where
  prompt : ∀ problem ino, env.prompt problem ino = true
  lostfound : ost.ost_lostfound_ino ≠ 0
  is_dir : ∀ ino ∈ inos ost.ost_dir_parents, env.is_dir ino = .ok true
  link : ∀ ino, env.link ost.ost_lostfound_ino ino = none

theorem notConnected_eq (accepts : Accepts env ost) {ino : Nat} (present : ino ∈ inos ost.ost_dir_parents)
    {root : List DirParent} :
    notConnected env { ost with ost_dir_parents := root } ino =
      { ost with
        ost_dir_parents := modify root ino fun dp => { dp with dp_dirent := ost.ost_lostfound_ino } } := by
  simp [notConnected, accepts.prompt, reconnectFile, accepts.lostfound, accepts.is_dir ino present, accepts.link]

structure Connects (n lf d : Nat) (start root : List DirParent) : Prop where
  inos_eq : inos root = inos start
  numbered : Numbered n root
  ended : Ended (IsConnected start) (parent start) lf d (IsConnected root) (parent root)

theorem Ascending.moved (walk : Ascending start n d i root) (lf : Nat)
    (open_here : ¬IsConnected root ((parent start)^[i] d))
    (stuck : (parent start)^[i + 1] d = 0 ∨
      Seen (connectAt root ((parent start)^[i] d)) n ((parent start)^[i + 1] d)) :
    Connects n lf d start (modify (connectAt root ((parent start)^[i] d)) ((parent start)^[i] d)
      fun dp => { dp with dp_dirent := lf }) := by
  obtain ⟨fresh, distinct⟩ := walk.distinct_succ open_here
  have inos_marked : inos (connectAt root ((parent start)^[i] d)) = inos start := inos_connect.trans walk.inos_eq
  refine ⟨(inos_modify (by simp)).trans inos_marked, walk.numbered.connect.modify (by simp) (by simp),
    i + 1, fresh, fun x => ?_, ?_⟩
  · rw [isConnected_modify (by simp) (by simp)]
    exact walk.connect x
  · rw [parent_move (inos_marked ▸ walk.present i le_rfl), parent_connect, walk.parent_eq]
    refine .moved distinct ?_
    rw [seen_connect, walk.seen] at stuck
    rcases stuck with none_left | ⟨j, pos, le, back⟩
    · exact Or.inl none_left
    · exact Or.inr ⟨j, pos, by omega, back⟩

theorem ascend_correct (accepts : Accepts env ost) (fuel : Nat) (i : Nat) (root : List DirParent)
    (walk : Ascending ost.ost_dir_parents ost.loop_no d i root)
    (enough : fuel + i = ost.ost_dir_parents.length + 1) :
    (∃ root', ascend env fuel { ost with ost_dir_parents := root } ((parent ost.ost_dir_parents)^[i] d) =
        .ok { ost with ost_dir_parents := root' } ∧
      Connects ost.loop_no ost.ost_lostfound_ino d ost.ost_dir_parents root') ∨
    ascend env fuel { ost with ost_dir_parents := root } ((parent ost.ost_dir_parents)^[i] d) =
      .error .internalFailure ∧
    ∃ x ∈ inos ost.ost_dir_parents, ¬IsConnected ost.ost_dir_parents x ∧
      parent ost.ost_dir_parents x ≠ 0 ∧ parent ost.ost_dir_parents x ∉ inos ost.ost_dir_parents := by
  set start := ost.ost_dir_parents
  induction fuel generalizing i root with
  | zero =>
    have := walk.le
    omega
  | succ fuel ih =>
    have here := walk.present i le_rfl
    obtain ⟨dp, found⟩ := mem_inos.mp (walk.inos_eq ▸ here)
    have up : (parent start)^[i + 1] d = dp.dp_dirent := by
      rw [iterate_succ_apply', ← walk.parent_eq, parent_of_lookup (walk.parent_eq ▸ found)]
    rw [ascend]
    simp only [found]
    cases done : dp.dp_connected with
    | true =>
      refine Or.inl ⟨root, if_pos rfl, walk.inos_eq, walk.numbered, i, walk.fresh, walk.connected, ?_⟩
      rw [walk.parent_eq]
      have at_end : IsConnected root ((parent start)^[i] d) := ⟨dp, found, done⟩
      rcases (walk.connected _).mp at_end with old | ⟨j, lt, again⟩
      · exact .joined old
      · -- only the first directory of the walk has no mark
        rcases Nat.eq_zero_or_pos j with rfl | pos
        · exact .looped lt again
        · exact absurd again.symm (walk.unseen j pos lt)
    | false =>
      have open_here : ¬IsConnected root ((parent start)^[i] d) := by
        rintro ⟨dp', found', h⟩
        rw [found] at found'
        cases found'
        rw [done] at h
        cases h
      by_cases orphan : dp.dp_dirent = 0
      · rw [if_neg (not_not.mpr orphan), notConnected_eq accepts here]
        exact Or.inl ⟨_, rfl, walk.moved _ open_here (Or.inl (up.trans orphan))⟩
      rw [if_pos orphan]
      rw [← connectAt]
      have present_iff (x : Nat) :
          x ∈ inos start ↔ ∃ par, dirParentLookup (connectAt root ((parent start)^[i] d)) x = some par := by
        rw [← mem_inos, inos_connect, walk.inos_eq]
      rcases parent_found : dirParentLookup (connectAt root ((parent start)^[i] d)) dp.dp_dirent with _ | par
      · refine Or.inr ⟨rfl, _, here, (walk.distinct_succ open_here).1 i (by omega), ?_, ?_⟩
        · rw [← iterate_succ_apply' (parent start), up]
          exact orphan
        · rw [← iterate_succ_apply' (parent start), up, present_iff, parent_found]
          simp
      · dsimp only
        rw [← up] at parent_found ⊢
        by_cases seen : par.dp_loop_no = ost.loop_no
        · rw [if_neg (not_not.mpr seen), notConnected_eq accepts here]
          exact Or.inl ⟨_, rfl, walk.moved _ open_here (Or.inr ⟨par, parent_found, seen⟩)⟩
        · rw [if_pos seen]
          refine ih (i + 1) _ (walk.next open_here ?_ ?_) (by omega)
          · exact (present_iff _).mpr ⟨par, parent_found⟩
          · rintro ⟨par', found', again⟩
            rw [parent_found] at found'
            cases found'
            exact seen again

end Ascend

end Ocfs2.Pass3
