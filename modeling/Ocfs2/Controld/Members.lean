import Ocfs2.Libocfs2.Common

set_option autoImplicit false

/-!
The members of a group as the group service delivers them, and the list of nodes that the daemon keeps. The three
lists of a change are staged in arrays; the words of an address have 32 bits.
-/

namespace Ocfs2.Controld

structure Address where
  nodeid : UInt32
  pid : UInt32
  reason : UInt32
  deriving DecidableEq

def CPG_MEMBERS_MAX : Nat := 128

structure Cgroup where
  cg_members : List Address
  cg_member_count : Nat
  cg_nodes : List UInt32
  cg_node_count : Int
  cg_cb_members : List Address
  cg_cb_member_count : Nat
  deriving DecidableEq

structure Change where
  member_list : List Address
  left_list : List Address
  joined_list : List Address

def Change.fits (change : Change) : Bool :=
  change.left_list.length ≤ CPG_MEMBERS_MAX && change.joined_list.length ≤ CPG_MEMBERS_MAX

/-- Only one of the three counts is cut. There is no result where another list does not fit in its array. -/
def confchgCb (cg : Cgroup) (change : Change) : Option Cgroup :=
  let entries := if change.fits then min change.member_list.length CPG_MEMBERS_MAX else change.member_list.length
  if entries ≤ CPG_MEMBERS_MAX ∧
      (change.left_list.length ≤ CPG_MEMBERS_MAX ∨ change.joined_list.length ≤ CPG_MEMBERS_MAX) then
    some { cg with
      cg_cb_members := change.member_list.take entries ++ cg.cg_cb_members.drop entries
      cg_cb_member_count := entries }
  else none

/-- As many bytes are copied as a pointer has, and not those of the array: two words of the first address. -/
def copyMembers (members cb_members : List Address) : List Address :=
  match members, cb_members with
  | old :: rest, new :: _ => ⟨new.nodeid, new.pid, old.reason⟩ :: rest
  | members, _ => members

def processMembers (cg : Cgroup) : Cgroup :=
  { cg with
    cg_members := copyMembers cg.cg_members cg.cg_cb_members
    cg_member_count := cg.cg_cb_member_count }

def forEachNode (cg : Cgroup) : List UInt32 := (cg.cg_members.take cg.cg_member_count).map Address.nodeid

def popNode (cg : Cgroup) (nodeid : UInt32) : Cgroup :=
  let cg := if nodeid ∈ cg.cg_nodes then
    { cg with cg_nodes := cg.cg_nodes.erase nodeid, cg_node_count := cg.cg_node_count - 1 } else cg
  if cg.cg_node_count < 0 then { cg with cg_node_count := 0 } else cg

def finalizeGroup (our_nodeid : UInt32) (cg : Cgroup) : Cgroup :=
  popNode ((forEachNode cg).foldl popNode cg) our_nodeid

theorem popNode_spec {cg : Cgroup} (count : cg.cg_node_count = cg.cg_nodes.length) (nodeid : UInt32) :
    (popNode cg nodeid).cg_nodes = cg.cg_nodes.erase nodeid ∧
      (popNode cg nodeid).cg_node_count = (cg.cg_nodes.erase nodeid).length := by
  by_cases known : nodeid ∈ cg.cg_nodes
  · have some := List.length_pos_of_mem known
    have less := List.length_erase_of_mem known
    rw [popNode, if_pos known, if_neg (by simp only; omega)]
    exact ⟨rfl, by simp only; omega⟩
  · rw [popNode, if_neg known, if_neg (by omega), List.erase_of_not_mem known]
    exact ⟨rfl, count⟩

theorem foldl_popNode (ids : List UInt32) {cg : Cgroup} (count : cg.cg_node_count = cg.cg_nodes.length) :
    (ids.foldl popNode cg).cg_nodes = cg.cg_nodes.diff ids ∧
      (ids.foldl popNode cg).cg_node_count = (cg.cg_nodes.diff ids).length := by
  induction ids generalizing cg with
  | nil => exact ⟨rfl, count⟩
  | cons id rest ih =>
    obtain ⟨nodes, left⟩ := popNode_spec count id
    rw [List.foldl_cons, List.diff_cons, ← nodes]
    exact ih (by rw [left, nodes])

/-- The arrays have their full size, and the list of nodes is right. -/
structure Cgroup.Valid (cg : Cgroup) : Prop where
  members : cg.cg_members.length = CPG_MEMBERS_MAX
  staged : cg.cg_cb_members.length = CPG_MEMBERS_MAX
  nodes : cg.cg_nodes.Nodup
  count : cg.cg_node_count = cg.cg_nodes.length

theorem finalizeGroup_iff {cg : Cgroup} (nodes : cg.cg_nodes.Nodup) (count : cg.cg_node_count = cg.cg_nodes.length)
    (our_nodeid : UInt32) :
    (finalizeGroup our_nodeid cg).cg_nodes = [] ∧ (finalizeGroup our_nodeid cg).cg_node_count = 0 ↔
      ∀ n ∈ cg.cg_nodes, n = our_nodeid ∨ n ∈ forEachNode cg := by
  obtain ⟨rest, left⟩ := foldl_popNode (forEachNode cg) count
  obtain ⟨last, none⟩ := popNode_spec (left.trans (by rw [rest])) our_nodeid
  have empty : (finalizeGroup our_nodeid cg).cg_nodes = [] ↔
      ∀ n ∈ cg.cg_nodes, n = our_nodeid ∨ n ∈ forEachNode cg := by
    rw [finalizeGroup, last, rest, List.eq_nil_iff_forall_not_mem]
    simp only [(nodes.diff).mem_erase_iff, nodes.mem_sdiff_iff, not_and, not_not]
    exact forall_congr' fun n => by tauto
  rw [← empty, and_iff_left_iff_imp]
  intro nil
  rw [finalizeGroup, none, ← last]
  rw [finalizeGroup] at nil
  rw [nil]
  rfl

theorem copyMembers_iff {members staged ms : List Address} (some : members ≠ []) :
    ((copyMembers members (ms ++ staged)).take ms.length).map Address.nodeid = ms.map Address.nodeid ↔
      ((members.take ms.length).map Address.nodeid).tail = (ms.map Address.nodeid).tail := by
  cases ms with
  | nil => simp
  | cons m ms =>
    cases members with
    | nil => exact absurd rfl some
    | cons old rest => simp [copyMembers]

theorem confchgCb_staged {cg staged : Cgroup} {change : Change} (run : confchgCb cg change = some staged) :
    ∃ n, n = min change.member_list.length CPG_MEMBERS_MAX ∧ staged = { cg with
      cg_cb_members := change.member_list.take n ++ cg.cg_cb_members.drop n, cg_cb_member_count := n } := by
  simp only [confchgCb] at run
  split_ifs at run with fits room room
  · exact ⟨_, rfl, (Option.some.inj run).symm⟩
  · exact ⟨_, (Nat.min_eq_left room.1).symm, (Option.some.inj run).symm⟩

def threeNodes : Cgroup := ⟨List.replicate 128 ⟨0, 0, 0⟩, 0, [3, 2, 1], 3, List.replicate 128 ⟨0, 0, 0⟩, 0⟩

theorem threeNodes_valid : threeNodes.Valid := ⟨List.length_replicate, List.length_replicate, by decide, rfl⟩

def oneMember : Change := ⟨[⟨2, 7, 0⟩], [], []⟩

end Ocfs2.Controld
