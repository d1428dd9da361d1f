import Ocfs2.Fsck.Icount
import Ocfs2.Fsck.Pass3
import Ocfs2.Shared.StepLoop

set_option autoImplicit false

namespace Ocfs2.Pass4

open Icount StepLoop

inductive Problem where
  | inodeNotConnected
  | inodeCount
  deriving DecidableEq

structure Dinode where
  i_blkno : Nat
  i_links_count : Nat
  deriving DecidableEq

structure Env where
  prompt : Problem → Nat → Bool
  pass3 : Pass3.Env
  read_fails : Nat → Bool
  write_fails : Nat → Bool

structure State where
  ost : Pass3.O2fsckState
  ost_icount_refs : O2fsckIcount
  ost_icount_in_inodes : O2fsckIcount
  disk : Nat → Dinode

section Model

variable (env : Env)

def lostfound (ost : Pass3.O2fsckState) : Option Nat :=
  if ost.ost_lostfound_ino = 0 then env.pass3.lookup_lostfound ost.fs_root_blkno
  else some ost.ost_lostfound_ino

def links (ost : Pass3.O2fsckState) (inode : Nat) : Bool :=
  match lostfound env ost, env.pass3.is_dir inode with
  | some dir, .ok _ => (env.pass3.link dir inode).isNone
  | _, _ => false

def reconnectFile (st : State) (inode : Nat) : Option State :=
  let st := { st with ost := Pass3.reconnectFile env.pass3 st.ost inode }
  if links env st.ost inode then
    (icountDelta st.ost_icount_refs inode 1).map ({ st with ost_icount_refs := · })
  else some st

def offerLostfound (st : State) (blkno refs : Nat) : Option State :=
  if refs = 0 ∧ env.prompt .inodeNotConnected blkno then reconnectFile env st blkno else some st

def updateCount (st : State) (blkno refs : Nat) : Option State :=
  let di := st.disk blkno
  -- an inode that cannot be read, or an answer of no, leaves the count
  if env.read_fails blkno || !env.prompt .inodeCount di.i_blkno then some st
  else do
    let counts ← icountSet st.ost_icount_in_inodes di.i_blkno refs
    let disk := if env.write_fails di.i_blkno then st.disk
      else Function.update st.disk di.i_blkno { di with i_links_count := refs }
    return { st with ost_icount_in_inodes := counts, disk := disk }

def checkLinkCounts (st : State) (blkno : Nat) : Option State := do
  let refs ← icountGet st.ost_icount_refs blkno
  let inInode ← icountGet st.ost_icount_in_inodes blkno
  let st ← offerLostfound env st blkno refs
  let refs ← icountGet st.ost_icount_refs blkno
  if refs = inInode then some st else updateCount env st blkno refs

def nextInodeAnyRef (st : State) (start : Nat) : Option Nat :=
  match icountNextBlkno st.ost_icount_refs start, icountNextBlkno st.ost_icount_in_inodes start with
  | .ok blkno, .ok other => some (if other < blkno then other else blkno)
  | .ok blkno, .error _ => some blkno
  | .error _, .ok other => some other
  | .error _, .error _ => none

structure Walk where
  st : State
  start : Nat
  checked : List Nat

def round (walk : Walk) : Step Walk (Option (State × List Nat)) :=
  match nextInodeAnyRef walk.st walk.start with
  | none => .stop (some (walk.st, walk.checked))
  | some blkno =>
    match checkLinkCounts env walk.st blkno with
    | none => .stop none
    | some st => .again ⟨st, blkno + 1, walk.checked ++ [blkno]⟩

end Model

section Rounds

variable {env : Env}

theorem links_reconnect (ost : Pass3.O2fsckState) (inode other : Nat) :
    links env (Pass3.reconnectFile env.pass3 ost inode) other = links env ost other := by
  have same : lostfound env (Pass3.reconnectFile env.pass3 ost inode) = lostfound env ost := by
    rw [Pass3.reconnectFile]
    cases found : lostfound env ost with
    | none =>
      rw [lostfound] at found
      simp only [found]
      rw [lostfound, found]
    | some dir =>
      -- the directory found is kept, and a zero is looked up again
      have kept (parents : List Pass3.DirParent) :
          lostfound env { ost with ost_lostfound_ino := dir, ost_dir_parents := parents } = some dir := by
        rw [lostfound] at found ⊢
        by_cases zero : dir = 0
        · by_cases cached : ost.ost_lostfound_ino = 0
          · simpa [zero, cached] using found
          · simp only [cached, if_false, Option.some.injEq] at found
            omega
        · simp [zero]
      rw [lostfound] at found
      simp only [found]
      split
      · exact kept _
      · split
        · exact kept _
        · split <;> exact kept _
  rw [links, links, same]

variable {fsBlocks : Nat} {st : State} {refs inInodes : Nat → Nat}

theorem nextInodeAnyRef_spec (repRefs : Counts fsBlocks st.ost_icount_refs refs)
    (repIn : Counts fsBlocks st.ost_icount_in_inodes inInodes) (start : Nat) :
    (∃ b, nextInodeAnyRef st start = some b ∧ start ≤ b ∧ (refs b ≠ 0 ∨ inInodes b ≠ 0) ∧
        ∀ x, start ≤ x → x < b → refs x = 0 ∧ inInodes x = 0) ∨
      nextInodeAnyRef st start = none ∧ ∀ x, start ≤ x → refs x = 0 ∧ inInodes x = 0 := by
  rcases icountNextBlkno_spec repRefs start with ⟨a, first, low, some, before⟩ | ⟨first, none⟩ <;>
    rcases icountNextBlkno_spec repIn start with ⟨b, second, low', some', before'⟩ | ⟨second, none'⟩
  · left
    refine ⟨if b < a then b else a, by simp only [nextInodeAnyRef, first, second], ?_⟩
    split
    next less => exact ⟨low', .inr some', fun x hx hb => ⟨before x hx (hb.trans less), before' x hx hb⟩⟩
    next more => exact ⟨low, .inl some, fun x hx ha => ⟨before x hx ha, before' x hx (by omega)⟩⟩
  · left
    exact ⟨a, by simp only [nextInodeAnyRef, first, second], low, .inl some,
      fun x hx ha => ⟨before x hx ha, none' x hx⟩⟩
  · left
    exact ⟨b, by simp only [nextInodeAnyRef, first, second], low', .inr some',
      fun x hx hb => ⟨none x hx, before' x hx hb⟩⟩
  · right
    exact ⟨by simp only [nextInodeAnyRef, first, second], fun x hx => ⟨none x hx, none' x hx⟩⟩

def settled (env : Env) (ost : Pass3.O2fsckState) (refs inInodes : Nat → Nat) (b : Nat) : Nat :=
  if refs b = 0 ∧ inInodes b ≠ 0 ∧ links env ost b then 1 else refs b

theorem checkLinkCounts_spec (accepts : ∀ problem b, env.prompt problem b = true)
    (reads : ∀ b, env.read_fails b = false) (writes : ∀ b, env.write_fails b = false)
    (repRefs : Counts fsBlocks st.ost_icount_refs refs)
    (repIn : Counts fsBlocks st.ost_icount_in_inodes inInodes) {blkno : Nat} (valid : blkno < fsBlocks)
    (counted : refs blkno ≠ 0 ∨ inInodes blkno ≠ 0) (inode : st.disk blkno = ⟨blkno, inInodes blkno⟩)
    {links' : Nat → Bool} (same : links env st.ost = links') {final : Nat}
    (last : final = if refs blkno = 0 ∧ inInodes blkno ≠ 0 ∧ links' blkno then 1 else refs blkno) :
    ∃ st', checkLinkCounts env st blkno = some st' ∧
      Counts fsBlocks st'.ost_icount_refs (Function.update refs blkno final) ∧
      Counts fsBlocks st'.ost_icount_in_inodes (Function.update inInodes blkno final) ∧
      st'.disk = Function.update st.disk blkno ⟨blkno, final⟩ ∧ links env st'.ost = links' := by
  -- first the references, then the count of the inode
  obtain ⟨mid, reconnect, repMid, sameIn, sameDisk, sameLinks⟩ : ∃ mid : State,
      offerLostfound env st blkno (refs blkno) = some mid ∧
      Counts fsBlocks mid.ost_icount_refs (Function.update refs blkno final) ∧
      mid.ost_icount_in_inodes = st.ost_icount_in_inodes ∧ mid.disk = st.disk ∧
      links env mid.ost = links' := by
    by_cases zero : refs blkno = 0
    · have nonzero : inInodes blkno ≠ 0 := by omega
      have kept := (funext (@links_reconnect env st.ost blkno)).trans same
      by_cases linked : links' blkno = true
      · obtain ⟨counts, add, rep⟩ := icountDelta_spec repRefs valid 1 (by omega) (by omega)
        refine ⟨{ st with ost := Pass3.reconnectFile env.pass3 st.ost blkno, ost_icount_refs := counts },
          by simp [offerLostfound, reconnectFile, zero, accepts, kept, linked, add], ?_, rfl, rfl, kept⟩
        simpa [last, zero, nonzero, linked] using rep
      · refine ⟨{ st with ost := Pass3.reconnectFile env.pass3 st.ost blkno },
          by simp [offerLostfound, reconnectFile, zero, accepts, kept, linked], ?_, rfl, rfl, kept⟩
        rw [last, if_neg (by simp [linked]), Function.update_eq_self]
        exact repRefs
    · refine ⟨st, by simp [offerLostfound, zero], ?_, rfl, rfl, same⟩
      rw [last, if_neg (by simp [zero]), Function.update_eq_self]
      exact repRefs
  have now : icountGet mid.ost_icount_refs blkno = some final := by
    simpa using icountGet_spec repMid valid
  simp only [checkLinkCounts, icountGet_spec repRefs valid, icountGet_spec repIn valid, reconnect, now,
    Option.bind_eq_bind, Option.bind_some]
  by_cases agree : final = inInodes blkno
  · refine ⟨mid, if_pos agree, repMid, ?_, ?_, sameLinks⟩
    · rw [sameIn, agree, Function.update_eq_self]
      exact repIn
    · rw [sameDisk, agree, ← inode, Function.update_eq_self]
  · obtain ⟨counts, run, rep⟩ := icountSet_spec repIn valid final
    rw [if_neg agree]
    refine ⟨{ mid with
        ost_icount_in_inodes := counts, disk := Function.update mid.disk blkno ⟨blkno, final⟩ },
      by simp [updateCount, reads, writes, accepts, sameIn, sameDisk, inode, run], repMid, rep, ?_, sameLinks⟩
    rw [sameDisk]

end Rounds

section Pass

variable {env : Env} {fsBlocks : Nat} {first : State} {refs inInodes : Nat → Nat}

structure Settled (env : Env) (fsBlocks : Nat) (first : State) (refs inInodes : Nat → Nat) (walk : Walk) :
    Prop where
  referenced : Counts fsBlocks walk.st.ost_icount_refs
    fun b => if b < walk.start then settled env first.ost refs inInodes b else refs b
  in_inodes : Counts fsBlocks walk.st.ost_icount_in_inodes
    fun b => if b < walk.start then settled env first.ost refs inInodes b else inInodes b
  disk : ∀ b, refs b ≠ 0 ∨ inInodes b ≠ 0 → walk.st.disk b =
    ⟨b, if b < walk.start then settled env first.ost refs inInodes b else inInodes b⟩
  lostfound : links env walk.st.ost = links env first.ost
  increasing : walk.checked.Pairwise (· < ·)
  checked : ∀ b, b ∈ walk.checked ↔ b < walk.start ∧ (refs b ≠ 0 ∨ inInodes b ≠ 0)

theorem update_settled {start b : Nat} (low : start ≤ b)
    (gap : ∀ x, start ≤ x → x < b → refs x = 0 ∧ inInodes x = 0) (counts : Nat → Nat)
    (ours : counts = refs ∨ counts = inInodes) (ost : Pass3.O2fsckState) :
    Function.update (fun x => if x < start then settled env ost refs inInodes x else counts x) b
        (settled env ost refs inInodes b) =
      fun x => if x < b + 1 then settled env ost refs inInodes x else counts x := by
  funext x
  by_cases same : x = b
  · simp [same]
  · rw [Function.update_of_ne same]
    by_cases early : x < start
    · rw [if_pos early, if_pos (by omega)]
    · by_cases between : x < b
      · have zero := gap x (by omega) between
        rw [if_neg early, if_pos (by omega)]
        rcases ours with rfl | rfl <;> simp [settled, zero]
      · rw [if_neg early, if_neg (by omega)]

section

variable (accepts : ∀ problem b, env.prompt problem b = true) (reads : ∀ b, env.read_fails b = false)
  (writes : ∀ b, env.write_fails b = false)

include accepts reads writes

theorem Settled.round {walk : Walk}
    (inv : Settled env fsBlocks first refs inInodes walk) :
    (∃ next, round env walk = .again next ∧ Settled env fsBlocks first refs inInodes next ∧
        walk.start < next.start ∧ next.start ≤ fsBlocks) ∨
      round env walk = .stop (some (walk.st, walk.checked)) ∧
        ∀ x, walk.start ≤ x → refs x = 0 ∧ inInodes x = 0 := by
  have later {x : Nat} (h : walk.start ≤ x) : ¬ x < walk.start := Nat.not_lt.mpr h
  rcases nextInodeAnyRef_spec inv.referenced inv.in_inodes walk.start with ⟨b, next, low, some, before⟩ | ⟨next, none⟩
  · simp only [later low, if_false] at some
    have gap : ∀ x, walk.start ≤ x → x < b → refs x = 0 ∧ inInodes x = 0 := fun x hx hb => by
      simpa [later hx] using before x hx hb
    have valid : b < fsBlocks := by
      rcases some with fromRefs | fromIn
      · exact inv.referenced.inside b (by simpa [later low] using fromRefs)
      · exact inv.in_inodes.inside b (by simpa [later low] using fromIn)
    obtain ⟨st', run, repRefs, repIn, disk, lostfound⟩ := checkLinkCounts_spec accepts reads writes
      inv.referenced inv.in_inodes valid (by simpa [later low] using some) (by rw [inv.disk b some])
      inv.lostfound (show settled env first.ost refs inInodes b = _ by simp only [later low, if_false]; rfl)
    rw [update_settled low gap _ (.inl rfl)] at repRefs
    rw [update_settled low gap _ (.inr rfl)] at repIn
    have split (x : Nat) (other : x ≠ b) (counted : refs x ≠ 0 ∨ inInodes x ≠ 0) :
        x < b + 1 ↔ x < walk.start := by
      constructor
      · intro less
        by_contra more
        have := gap x (by omega) (by omega)
        omega
      · omega
    left
    refine ⟨⟨st', b + 1, walk.checked ++ [b]⟩, by simp only [Pass4.round, next, run],
      ⟨repRefs, repIn, fun x counted => ?_, lostfound, ?_, fun x => ?_⟩, by simp only; omega, valid⟩
    · simp only [disk]
      by_cases other : x = b
      · simp [other, settled]
      · rw [Function.update_of_ne other, inv.disk x counted]
        simp [split x other counted]
    · refine List.pairwise_append.mpr ⟨inv.increasing, List.pairwise_singleton _ _, fun x inside y last => ?_⟩
      rw [List.mem_singleton.mp last]
      have := ((inv.checked x).mp inside).1
      omega
    · rw [List.mem_append, inv.checked, List.mem_singleton]
      by_cases other : x = b
      · subst other
        simp [some]
      · simp only [other, or_false]
        exact and_congr_left fun counted => (split x other counted).symm
  · right
    refine ⟨by simp only [Pass4.round, next], fun x hx => ?_⟩
    simpa [later hx] using none x hx

theorem Settled.run {walk : Walk}
    (inv : Settled env fsBlocks first refs inInodes walk) :
    ∃ last, Stops (Pass4.round env) walk (some (last.st, last.checked)) ∧
      Settled env fsBlocks first refs inInodes last ∧
      ∀ x, last.start ≤ x → refs x = 0 ∧ inInodes x = 0 := by
  -- every round moves `start` up, and only a block of the volume moves it
  induction left : fsBlocks - walk.start using Nat.strong_induction_on generalizing walk with
  | _ n ih =>
    rcases inv.round accepts reads writes with ⟨next, once, inv', more, bound⟩ | ⟨stop, rest⟩
    · obtain ⟨last, stops, done⟩ := ih (fsBlocks - next.start) (by omega) inv' rfl
      exact ⟨last, (stops_again once _).mpr stops, done⟩
    · exact ⟨walk, (stops_stop stop _).mpr rfl, inv, rest⟩

end

def accepting : Env where
  prompt _ _ := true
  pass3 := ⟨fun _ _ => true, true, .error .noMemory, .error .noMemory, fun _ => none, none, fun _ => some 7,
    fun _ => .ok false, fun _ _ => none, fun _ => false⟩
  read_fails _ := false
  write_fails _ := false

end Pass

end Ocfs2.Pass4
