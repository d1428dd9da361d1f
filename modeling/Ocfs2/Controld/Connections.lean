import Ocfs2.Libocfs2.Common

set_option autoImplicit false

/-!
The connections of the daemon: a slot of the table is free where its descriptor is -1. What the allocations of
memory and the calls of the group service return is given.
-/

namespace Ocfs2.Controld

variable {H : Type}

/-- `H` are the handlers. -/
structure Client (H : Type) where
  fd : Int
  work : Option H
  dead : Option H
  pollfd : Int
  deriving DecidableEq

structure Daemon (H : Type) where
  client : List (Client H)
  closed : List Int
  deriving DecidableEq

structure Results where
  cgroup : Bool
  cpg_initialize : Int
  fd : Nat
  new_client : Bool
  new_pollfd : Bool
  start_join : Int

def ENOMEM : Int := 12

def ENAMETOOLONG : Int := 36

def NALLOC : Nat := 8

def CPG_MAX_NAME_LENGTH : Nat := 128

def freeClients : List (Client H) := List.replicate NALLOC ⟨-1, none, none, -1⟩

def clientAlloc (res : Results) (d : Daemon H) : Option (Except Int (Daemon H)) :=
  if res.new_client && res.new_pollfd then
    some (.ok { d with client := d.client ++ freeClients })
  -- a table that was moved stays in use at its old place
  else if d.client ≠ [] ∧ (res.new_client || res.new_pollfd) then none
  else some (.error (-ENOMEM))

def takeSlot (fd : Nat) (work dead : H) (d : Daemon H) : Nat × Daemon H :=
  let i := d.client.findIdx (·.fd = -1)
  (i, { d with client := d.client.set i ⟨fd, some work, some dead, fd⟩ })

def connectionAdd (res : Results) (work dead : H) (d : Daemon H) : Option (Except Int (Nat × Daemon H)) :=
  if d.client.any (·.fd = -1) then some (.ok (takeSlot res.fd work dead d))
  else (clientAlloc res d).map fun grown => grown.map (takeSlot res.fd work dead)

def connectionDead (ci : Nat) (d : Daemon H) : Option (Daemon H) :=
  d.client[ci]?.map fun c =>
    ⟨d.client.set ci { c with fd := -1, work := none, pollfd := -1 }, d.closed ++ [c.fd]⟩

def finishJoin (res : Results) (d : Daemon H) : Option (Int × Daemon H) :=
  if res.start_join = 0 then some (0, d)
  -- the slot is not what is passed here
  else (connectionDead res.fd d).map (res.start_join, ·)

def initGroup (res : Results) (name : String) (work dead : H) (d : Daemon H) : Option (Int × Daemon H) :=
  if CPG_MAX_NAME_LENGTH ≤ ("ocfs2:" ++ name).utf8ByteSize then some (-ENAMETOOLONG, d)
  else if res.cpg_initialize ≠ 0 then some (res.cpg_initialize, d)
  else
    match connectionAdd res work dead d with
    | none => none
    | some (.error e) => some (e, d)
    | some (.ok (_, d)) => finishJoin res d

def groupJoin (res : Results) (name : String) (work dead : H) (d : Daemon H) : Option (Int × Daemon H) :=
  if res.cgroup then initGroup res name work dead d else some (-ENOMEM, d)

structure SameConnections (fd : Nat) (d d' : Daemon H) : Prop where
  slots : ∀ (i : Nat) (c : Client H), c.fd ≠ -1 → (d'.client[i]? = some c ↔ d.client[i]? = some c)
  descriptors : ∀ x ∈ d'.closed, x ∈ d.closed ∨ x = fd

/-- Where the join fails, it leaves the connections there were and no other one. -/
def Harmless (res : Results) (name : String) (work dead : H) (d : Daemon H) : Prop :=
  ∃ rc d', groupJoin res name work dead d = some (rc, d') ∧ (rc ≠ 0 → SameConnections res.fd d d')

/-- The join comes as far as the table of the connections. -/
def Adds (res : Results) (name : String) : Prop :=
  res.cgroup = true ∧ ("ocfs2:" ++ name).utf8ByteSize < CPG_MAX_NAME_LENGTH ∧ res.cpg_initialize = 0

def freeSlot (d : Daemon H) : Nat := d.client.findIdx (·.fd = -1)

theorem SameConnections.refl (fd : Nat) (d : Daemon H) : SameConnections fd d d :=
  ⟨fun _ _ _ => Iff.rfl, fun _ mem => .inl mem⟩

theorem freeSlot_free {d : Daemon H} {c : Client H} (here : d.client[freeSlot d]? = some c) : c.fd = -1 := by
  obtain ⟨inside, rfl⟩ := List.getElem?_eq_some_iff.mp here
  exact of_decide_eq_true (List.findIdx_getElem (p := fun c : Client H => c.fd = -1) (w := inside))

theorem finishJoin_iff (res : Results) (work dead : H) {d : Daemon H} {free : List (Client H)}
    (unused : ∀ c ∈ free, c.fd = -1) (room : freeSlot d < (d.client ++ free).length)
    (slot : (d.client ++ free).findIdx (·.fd = -1) = freeSlot d) :
    (∃ rc d', finishJoin res (takeSlot res.fd work dead ⟨d.client ++ free, d.closed⟩).2 = some (rc, d') ∧
      (rc ≠ 0 → SameConnections res.fd d d')) ↔ (res.start_join ≠ 0 → res.fd = freeSlot d) := by
  have used {i : Nat} {c : Client H} (live : c.fd ≠ -1) :
      (d.client ++ free)[i]? = some c ↔ d.client[i]? = some c := by
    rw [List.getElem?_append]
    split
    · rfl
    · refine iff_of_false (fun here => live (unused c (List.mem_of_getElem? here))) ?_
      rw [List.getElem?_eq_none (by omega)]
      simp
  rw [finishJoin, takeSlot, slot]
  split
  next joined => simp [joined]
  next failed =>
    rw [connectionDead]
    constructor
    · rintro ⟨rc, d', run, same⟩ -
      by_contra other
      obtain ⟨d', run, ⟨⟩⟩ := Option.map_eq_some_iff.mp run
      obtain ⟨c, -, rfl⟩ := Option.map_eq_some_iff.mp run
      have live : ((res.fd : Nat) : Int) ≠ -1 := by omega
      have taken := ((same failed).slots (freeSlot d) ⟨res.fd, some work, some dead, res.fd⟩ live).mp
        ((List.getElem?_set_ne other).trans (List.getElem?_set_self room))
      exact live (freeSlot_free taken)
    · intro same
      rw [same failed, List.getElem?_set_self room]
      refine ⟨_, _, rfl, fun _ => ⟨fun i c live => ?_, by simp⟩⟩
      dsimp only
      rw [← used live, List.set_set, List.getElem?_set]
      split
      next here =>
        subst here
        refine iff_of_false ?_ fun held => live (freeSlot_free ((used live).mp held))
        rintro ⟨⟩
        exact live rfl
      next => rfl

/-- A failed join is harmless exactly where it does not come to its last step with a descriptor that is not the
number of the slot, and not out of memory for one of the two tables. -/
theorem failed_join_harmless_iff (res : Results) (name : String) (work dead : H) (d : Daemon H) :
    Harmless res name work dead d ↔ (Adds res name →
      if (d.client.any (·.fd = -1) || res.new_client && res.new_pollfd) = true then
        res.start_join ≠ 0 → res.fd = freeSlot d
      else d.client ≠ [] → res.new_client = res.new_pollfd) := by
  rw [Harmless, groupJoin, initGroup]
  by_cases adds : Adds res name
  · obtain ⟨memory, short, ready⟩ := adds
    rw [if_pos memory, if_neg (by omega), if_neg (by simpa using ready), connectionAdd,
      forall_prop_of_true ⟨memory, short, ready⟩]
    by_cases free : d.client.any (·.fd = -1) = true
    · have room : freeSlot d < d.client.length := List.findIdx_lt_length.mpr (by simpa using free)
      rw [free, Bool.true_or, if_pos rfl, if_pos rfl]
      simpa using finishJoin_iff res work dead (List.forall_mem_nil _) (by simpa using room) (by simp [freeSlot])
    · have full : freeSlot d = d.client.length := List.findIdx_eq_length.mpr (by simpa using free)
      rw [Bool.not_eq_true] at free
      rw [free, clientAlloc]
      have slot : (d.client ++ freeClients).findIdx (fun c : Client H => c.fd = -1) = freeSlot d := by
        rw [List.findIdx_append, ← freeSlot, if_neg full.ge.not_gt, full]
        exact Nat.zero_add _
      have grown := finishJoin_iff res work dead (by simp [freeClients])
        (by rw [full]; simp [freeClients, NALLOC]) slot
      by_cases both : (res.new_client && res.new_pollfd) = true
      · rw [both]
        exact grown
      rw [if_neg both, Bool.false_or, if_neg both, if_neg Bool.false_ne_true]
      by_cases moved : d.client ≠ [] ∧ (res.new_client || res.new_pollfd) = true
      · rw [if_pos moved]
        refine iff_of_false ?_ fun same => ?_
        · rintro ⟨_, _, ⟨⟩, -⟩
        · have := same moved.1
          cases client : res.new_client <;> simp_all
      · rw [if_neg moved]
        refine iff_of_true ⟨_, _, rfl, fun _ => .refl res.fd d⟩ fun some => ?_
        cases client : res.new_client <;> simp_all
  · rw [forall_prop_of_false adds, iff_true]
    by_cases memory : res.cgroup = true
    · rw [if_pos memory]
      split
      next => exact ⟨_, _, rfl, fun _ => .refl res.fd d⟩
      next short =>
        rw [if_pos fun ready => adds ⟨memory, Nat.not_le.mp short, ready⟩]
        exact ⟨_, _, rfl, fun _ => .refl res.fd d⟩
    · rw [if_neg memory]
      exact ⟨_, _, rfl, fun _ => .refl res.fd d⟩

/-- The slot of descriptor 7 is given up for the new one, whose descriptor is 3. -/
theorem failed_join_kills_other :
    (groupJoin ⟨true, 0, 3, true, true, 6⟩ "fs" () () ⟨[⟨4, some (), some (), 4⟩, ⟨5, some (), some (), 5⟩,
      ⟨6, some (), some (), 6⟩, ⟨7, some (), some (), 7⟩, ⟨-1, none, none, -1⟩], []⟩).map
        (fun joined => (joined.1, joined.2.client.map Client.fd, joined.2.closed)) =
      some (6, [4, 5, 6, -1, 3], [7]) := by decide +kernel

end Ocfs2.Controld
