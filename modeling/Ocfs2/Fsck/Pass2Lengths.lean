import Ocfs2.Fsck.Pass2
import Ocfs2.Libocfs2.DirChain

set_option autoImplicit false

namespace Ocfs2.Pass2

open ByteBuffer Dir

section Headers

variable {buf : Buffer} {dirent : Nat}

structure Header (after before : Buffer) (dirent rec_len name_len : Nat) : Prop where
  within : Within after before dirent (dirent + 12)
  recLen : recLen after dirent = rec_len
  nameLen : nameLen after dirent = name_len

theorem setRecLen_header (room : dirent + 12 ≤ buf.length) {v : Nat} (small : v < 65536) :
    Header (setRecLen buf dirent v) buf dirent v (nameLen buf dirent) where
  within := within_field (by omega) (by omega) (by omega)
  recLen := congrArg Dirent.rec_len (readDirent_setRecLen buf dirent v small room)
  nameLen := congrArg Dirent.name_len (readDirent_setRecLen buf dirent v small room)

theorem setInode_header (room : dirent + 12 ≤ buf.length) (v : Nat) :
    Header (setInode buf dirent v) buf dirent (recLen buf dirent) (nameLen buf dirent) := by
  have within : Within (setInode buf dirent v) buf dirent (dirent + 8) :=
    within_field le_rfl le_rfl (by omega)
  have fields := within.above.mono le_rfl (show dirent + 12 ≤ buf.length from room)
  refine ⟨within.mono le_rfl (by omega), ?_, ?_⟩
  · rw [Dir.recLen, Dir.recLen, fields.slice _ _ (by omega) (by omega)]
  · rw [Dir.nameLen, Dir.nameLen, fields.slice _ _ (by omega) (by omega)]

theorem setNameLen_header (room : dirent + 12 ≤ buf.length) {v : Nat} (small : v < 256) :
    Header (setNameLen buf dirent v) buf dirent (recLen buf dirent) v where
  within := within_field (by omega) (by omega) (by omega)
  recLen := congrArg Dirent.rec_len (readDirent_setNameLen buf dirent v small room)
  nameLen := congrArg Dirent.name_len (readDirent_setNameLen buf dirent v small room)

theorem setFileType_header (room : dirent + 12 ≤ buf.length) (v : Nat) :
    Header (setFileType buf dirent v) buf dirent (recLen buf dirent) (nameLen buf dirent) where
  within := within_field (by omega) le_rfl (by omega)
  recLen := congrArg Dirent.rec_len (readDirent_setFileType buf dirent v room)
  nameLen := congrArg Dirent.name_len (readDirent_setFileType buf dirent v room)

theorem Header.trans {a b c : Buffer} {r n r' n' : Nat} (last : Header a b dirent r n)
    (first : Header b c dirent r' n') : Header a c dirent r n :=
  ⟨last.within.trans first.within, last.recLen, last.nameLen⟩

theorem Header.length {after before : Buffer} {r n : Nat} (header : Header after before dirent r n) :
    after.length = before.length := header.within.length

theorem blank_header (room : dirent + 12 ≤ buf.length) :
    Header (blank buf dirent) buf dirent (recLen buf dirent) 0 := by
  have named := setNameLen_header room (show 0 < 256 by omega)
  have freed := setInode_header (named.length ▸ room) 0
  have typed := setFileType_header (freed.length ▸ named.length ▸ room) ftUnknown
  have whole := typed.trans (freed.trans named)
  exact ⟨whole.within, whole.recLen.trans (freed.recLen.trans named.recLen),
    whole.nameLen.trans (freed.nameLen.trans named.nameLen)⟩

theorem padPartial_header (room : dirent + 12 ≤ buf.length) {left : Int} (small : left < 32768)
    (short : recLen buf dirent ≤ 32768) :
    Header (padPartial buf dirent left) buf dirent
      (if direntLeavesPartial buf dirent left then (recLen buf dirent + left).toNat else recLen buf dirent)
      (nameLen buf dirent) := by
  rw [padPartial]
  split
  next => exact setRecLen_header room (by omega)
  next => exact ⟨.refl _ _, rfl, rfl⟩

theorem wipe_header (room : dirent + 12 ≤ buf.length) {left : Nat} (small : left < 32768) :
    Header (wipe buf dirent left) buf dirent left 0 := by
  have longer := setRecLen_header room (show left < 65536 by omega)
  have blanked := blank_header (longer.length ▸ room)
  have length : recLen (blank (setRecLen buf dirent left) dirent) dirent = left :=
    blanked.recLen.trans longer.recLen
  have padded := padPartial_header (blanked.length ▸ longer.length ▸ room) (show (0 : Int) < 32768 by omega)
    (by omega)
  have full : direntLeavesPartial (blank (setRecLen buf dirent left) dirent) dirent 0 = false := by
    rw [direntLeavesPartial, length]
    simp only [decide_eq_false_iff_not]
    omega
  have whole := padded.trans (blanked.trans longer)
  rw [full, if_neg Bool.false_ne_true, length, blanked.nameLen] at whole
  exact whole

theorem Header.apart {after before : Buffer} {r n other : Nat} (header : Header after before dirent r n)
    (lower : other + 12 ≤ dirent) :
    Dir.recLen after other = Dir.recLen before other ∧ Dir.nameLen after other = Dir.nameLen before other := by
  have below := header.within.below
  exact ⟨congrArg leValue (below.slice _ _ (by omega) (by omega)),
    congrArg leValue (below.slice _ _ (by omega) (by omega))⟩

theorem setRecLen_header_mod (room : dirent + 12 ≤ buf.length) (v : Nat) :
    Header (setRecLen buf dirent v) buf dirent (v % 65536) (nameLen buf dirent) := by
  have same : setRecLen buf dirent v = setRecLen buf dirent (v % 65536) := by
    have bytes : leBytes 2 v = leBytes 2 (v % 65536) := by
      simp only [leBytes]
      congr 1
      · apply BitVec.eq_of_toNat_eq
        simp only [BitVec.toNat_ofNat]
        omega
      · congr 1
        apply BitVec.eq_of_toNat_eq
        simp only [BitVec.toNat_ofNat]
        omega
    rw [setRecLen, bytes, setRecLen]
  rw [same]
  exact setRecLen_header room (by omega)

structure Split (after before : Buffer) (dirent rec_len : Nat) : Prop where
  within : Within after before dirent (dirent + rec_len + 12)
  recLen : recLen after dirent = rec_len
  nameLen : nameLen after dirent = Dir.nameLen before dirent
  freeInode : inode after (dirent + rec_len) = 0
  freeRecLen : Dir.recLen after (dirent + rec_len) =
    dirRecLen (Dir.recLen before (dirent + rec_len)) % 65536
  freeNameLen : Dir.nameLen after (dirent + rec_len) = 0

theorem splitRecord_split {rec_len : Nat} (long : 12 ≤ rec_len) (small : rec_len < 65536)
    (room : dirent + rec_len + 12 ≤ buf.length) : Split (splitRecord buf dirent rec_len) buf dirent rec_len := by
  have first := setRecLen_header (show dirent + 12 ≤ buf.length by omega) small
  have gap : Dir.recLen (setRecLen buf dirent rec_len) (dirent + rec_len) = Dir.recLen buf (dirent + rec_len) :=
    congrArg leValue (first.within.above.slice _ _ (by omega) (by omega))
  rw [splitRecord]
  generalize setRecLen buf dirent rec_len = b1 at first gap ⊢
  have l1 := first.length
  have second := setInode_header (show dirent + rec_len + 12 ≤ b1.length by omega) 0
  have r2 := readDirent_setInode b1 (dirent + rec_len) 0 (by omega) (by omega)
  generalize setInode b1 (dirent + rec_len) 0 = b2 at second r2 ⊢
  have l2 := second.length
  have third := setNameLen_header (show dirent + rec_len + 12 ≤ b2.length by omega) (show 0 < 256 by omega)
  have r3 := readDirent_setNameLen b2 (dirent + rec_len) 0 (by omega) (by omega)
  generalize setNameLen b2 (dirent + rec_len) 0 = b3 at third r3 ⊢
  have l3 := third.length
  have last := setRecLen_header_mod (show dirent + rec_len + 12 ≤ b3.length by omega)
    (dirRecLen (Dir.recLen b3 (dirent + rec_len)))
  have inode4 : inode (setRecLen b3 (dirent + rec_len) (dirRecLen (Dir.recLen b3 (dirent + rec_len))))
      (dirent + rec_len) = inode b3 (dirent + rec_len) := by
    have apart := agree_splice b3 (dirent + rec_len + 8)
      (leBytes 2 (dirRecLen (Dir.recLen b3 (dirent + rec_len)))) (by rw [length_leBytes]; omega)
      (dirent + rec_len) (dirent + rec_len + 8) (Or.inl le_rfl)
    exact congrArg leValue (apart.slice _ _ le_rfl le_rfl)
  have old : Dir.recLen b3 (dirent + rec_len) = Dir.recLen buf (dirent + rec_len) := by
    rw [third.recLen, second.recLen, gap]
  generalize setRecLen b3 (dirent + rec_len) (dirRecLen (Dir.recLen b3 (dirent + rec_len))) = b4
    at last inode4 ⊢
  have later := last.trans (third.trans second)
  have kept := later.apart (show dirent + 12 ≤ dirent + rec_len by omega)
  refine ⟨?_, kept.1.trans first.recLen, kept.2.trans first.nameLen, ?_, ?_, ?_⟩
  · exact (later.within.mono (by omega) le_rfl).trans (first.within.mono le_rfl (by omega))
  · rw [inode4]
    exact (congrArg Dirent.inode r3).trans (congrArg Dirent.inode r2)
  · rw [last.recLen, old]
  · rw [last.nameLen, third.nameLen]

end Headers

section Sound

variable {buf : Buffer} {dirent left : Nat}

structure Sound (buf : Buffer) (dirent left : Nat) : Prop where
  long : 16 ≤ recLen buf dirent
  aligned : recLen buf dirent % 4 = 0
  name : dirRecLen (nameLen buf dirent) ≤ recLen buf dirent
  rest : recLen buf dirent = left ∨ recLen buf dirent + 12 ≤ left

theorem direntLeavesPartial_iff : direntLeavesPartial buf dirent left = true ↔
    recLen buf dirent < left ∧ left < recLen buf dirent + 12 := by
  rw [direntLeavesPartial, decide_eq_true_eq]
  omega

theorem corrupt_eq_false_iff : corruptDirentLengths buf dirent left = false ↔ Sound buf dirent left := by
  have short : dirRecLen 1 = 16 := rfl
  have partially := @direntLeavesPartial_iff buf dirent left
  rw [corruptDirentLengths, Bool.not_eq_false']
  simp only [short, Bool.and_eq_true, decide_eq_true_eq, beq_iff_eq, Bool.not_eq_true', ← Bool.not_eq_true,
    partially]
  constructor
  · rintro ⟨⟨⟨⟨long, aligned⟩, upper⟩, name⟩, rest⟩
    exact ⟨long, aligned, name, by omega⟩
  · rintro ⟨long, aligned, name, rest⟩
    exact ⟨⟨⟨⟨long, aligned⟩, by omega⟩, name⟩, by omega⟩

theorem corrupt_iff : corruptDirentLengths buf dirent left = true ↔ ¬ Sound buf dirent left := by
  rw [← corrupt_eq_false_iff, Bool.not_eq_false]

theorem wipe_sound (room : dirent + 12 ≤ buf.length) (small : left < 32768) (wide : 16 ≤ left)
    (aligned : left % 4 = 0) : Sound (wipe buf dirent left) dirent left := by
  have header := wipe_header room small
  refine ⟨?_, ?_, ?_, Or.inl header.recLen⟩
  · rw [header.recLen]; exact wide
  · rw [header.recLen]; exact aligned
  · rw [header.recLen, header.nameLen, dirRecLen]; omega

structure Trusted (buf : Buffer) (dirent left : Nat) : Prop where
  long : 12 < recLen buf dirent
  upper : recLen buf dirent ≤ left
  name : nameLen buf dirent ≤ left
  rounded : ¬ (dirRecLen (nameLen buf dirent) ≠ recLen buf dirent ∧
    dirRecLen (nameLen buf dirent) = dirRecLen (recLen buf dirent))
  aligned : recLen buf dirent % 4 = 0
  rest : ¬ direntLeavesPartial buf dirent left

theorem fixDirentLengths_trusted (trusted : Trusted buf dirent left) :
    fixDirentLengths buf dirent left =
      some (padPartial (blank buf dirent) dirent (left - recLen buf dirent)) := by
  have long := trusted.long
  have upper := trusted.upper
  have name := trusted.name
  simp only [fixDirentLengths]
  rw [if_neg (by omega), if_neg (by omega), if_neg trusted.rounded,
    if_pos ⟨trusted.aligned, trusted.rest⟩]

theorem fixDirentLengths_trusted_header (room : dirent + 12 ≤ buf.length) (small : left < 32768)
    (trusted : Trusted buf dirent left) :
    Header (padPartial (blank buf dirent) dirent (left - recLen buf dirent)) buf dirent
      (if 2 * recLen buf dirent < left ∧ left < 2 * recLen buf dirent + 12 then left else recLen buf dirent)
      0 := by
  have upper := trusted.upper
  have blanked := blank_header room
  have padded := padPartial_header (blanked.length ▸ room)
    (show (left : Int) - recLen buf dirent < 32768 by omega) (by rw [blanked.recLen]; omega)
  have again : direntLeavesPartial (blank buf dirent) dirent (left - recLen buf dirent) = true ↔
      2 * recLen buf dirent < left ∧ left < 2 * recLen buf dirent + 12 := by
    rw [direntLeavesPartial, blanked.recLen, decide_eq_true_eq]
    omega
  have whole := padded.trans blanked
  rw [blanked.nameLen, blanked.recLen] at whole
  refine ⟨whole.within, whole.recLen.trans ?_, whole.nameLen⟩
  simp only [again]
  split <;> omega

end Sound

section Block

structure InBlock (ctx : Context) (fin : Nat) (s : State) : Prop where
  blocksize : ∃ bits, 9 ≤ bits ∧ bits ≤ 12 ∧ ctx.fs.fs_blocksize = 2 ^ bits
  length : s.buf.length = ctx.fs.fs_blocksize
  fin : fin = ctx.fs.fs_blocksize ∨ fin = dirTrailerBlkOff ctx.fs
  aligned : s.offset % 4 = 0

variable {ctx : Context} {fin : Nat} {s : State}

theorem InBlock.sizes (block : InBlock ctx fin s) :
    fin ≤ s.buf.length ∧ s.buf.length ≤ 4096 ∧ fin % 4 = 0 := by
  obtain ⟨bits, lower, upper, size⟩ := block.blocksize
  have length := block.length
  have trailer : dirTrailerBlkOff ctx.fs = ctx.fs.fs_blocksize - 64 := rfl
  rcases block.fin with fin | fin <;> interval_cases bits <;> omega

def Visits (buf : Buffer) (fin : Nat) : Nat → List Dirent → Prop
  | _, [] => True
  | offset, e :: es =>
    offset < fin ∧ corruptDirentLengths buf offset (fin - offset) = false ∧ readDirent buf offset = e ∧
      Visits buf fin (offset + e.rec_len) es

theorem Sound.next_le {buf : Buffer} {offset : Nat} (sound : Sound buf offset (fin - offset))
    (inside : offset < fin) : offset + recLen buf offset ≤ fin := by
  have := sound.rest
  omega

theorem Sound.fits {buf : Buffer} {offset left : Nat} (sound : Sound buf offset left) :
    (readDirent buf offset).Fits := ⟨sound.name, sound.aligned⟩

theorem Visits.congr {a b : Buffer} {offset : Nat} {es : List Dirent} (visits : Visits a fin offset es)
    (agree : Agree a b offset fin) : Visits b fin offset es := by
  induction es generalizing offset with
  | nil => exact visits
  | cons e es ih =>
    obtain ⟨inside, walks, read, rest⟩ := visits
    have sound := corrupt_eq_false_iff.mp walks
    have upper := sound.next_le inside
    have same := readDirent_congr sound.fits (agree.mono le_rfl upper)
    have rec_len : recLen a offset = recLen b offset := congrArg Dirent.rec_len same
    have name_len : nameLen a offset = nameLen b offset := congrArg Dirent.name_len same
    refine ⟨inside, ?_, same ▸ read, ih rest (agree.mono (by omega) le_rfl)⟩
    exact corrupt_eq_false_iff.mpr ⟨rec_len ▸ sound.long, rec_len ▸ sound.aligned,
      rec_len ▸ name_len ▸ sound.name, rec_len ▸ sound.rest⟩

end Block

section Followers

variable {ctx : Context} {fin : Nat} {s : State}

structure Repairs (ctx : Context) (fin : Nat) (s : State) : Prop where
  inside : s.offset + 12 ≤ fin
  corrupt : corruptDirentLengths s.buf s.offset (fin - s.offset) = true
  yes : ctx.answers s.asked = true
  trusted : Trusted s.buf s.offset (fin - s.offset)

def FollowersKept (ctx : Context) (fin : Nat) (s : State) : Prop :=
  ∃ t, round ctx fin s = .again t ∧ t.offset = s.offset ∧
    ∀ next es, Visits s.buf fin (s.offset + s.recLen) (next :: es) →
      ∃ e, Visits t.buf fin s.offset (e :: next :: es)

def Follower (fin : Nat) (s : State) : Prop :=
  s.offset + s.recLen < fin ∧
    corruptDirentLengths s.buf (s.offset + s.recLen) (fin - (s.offset + s.recLen)) = false

theorem round_repairs (block : InBlock ctx fin s) (repairs : Repairs ctx fin s) :
    round ctx fin s = .again ({ s with asked := s.asked + 1 }.write
      (padPartial (blank s.buf s.offset) s.offset ((fin - s.offset : Nat) - recLen s.buf s.offset))) := by
  have inside := repairs.inside
  have sizes := block.sizes
  have fixed := fixDirentLengths_trusted repairs.trusted
  rw [round, if_neg (by omega), if_neg (by omega), if_pos repairs.corrupt]
  simp only [prompt, repairs.yes, if_true, fixed]

def Absorbs (fin : Nat) (s : State) : Prop :=
  2 * s.recLen < fin - s.offset ∧ fin - s.offset < 2 * s.recLen + 12

theorem followersKept_of_not_absorbs (block : InBlock ctx fin s) (repairs : Repairs ctx fin s)
    (apart : ¬ Absorbs fin s) : FollowersKept ctx fin s := by
  have sizes := block.sizes
  have long := repairs.trusted.long
  have aligned := repairs.trusted.aligned
  have upper := repairs.trusted.upper
  have header := fixDirentLengths_trusted_header (by omega) (show fin - s.offset < 32768 by omega)
    repairs.trusted
  rw [Absorbs, State.recLen] at apart
  rw [if_neg apart] at header
  refine ⟨_, round_repairs block repairs, rfl, fun next es visits => ⟨_, by omega, ?_, rfl, ?_⟩⟩
  · refine corrupt_eq_false_iff.mpr ⟨?_, ?_, ?_, ?_⟩
    · exact header.recLen.symm ▸ (by omega)
    · exact header.recLen.symm ▸ aligned
    · refine header.recLen.symm ▸ header.nameLen.symm ▸ ?_
      rw [dirRecLen]
      omega
    · have rest := mt direntLeavesPartial_iff.mpr repairs.trusted.rest
      exact header.recLen.symm ▸ (by omega)
  · have start : s.offset + (readDirent (padPartial (blank s.buf s.offset) s.offset
        ((fin - s.offset : Nat) - recLen s.buf s.offset)) s.offset).rec_len = s.offset + s.recLen :=
      congrArg (s.offset + ·) header.recLen
    rw [State.write, start]
    refine visits.congr (header.within.above.symm.mono ?_ sizes.1)
    rw [State.recLen]
    omega

theorem not_followersKept_of_absorbs (block : InBlock ctx fin s) (repairs : Repairs ctx fin s)
    (absorbs : Absorbs fin s) (follower : Follower fin s) : ¬ FollowersKept ctx fin s := by
  rintro ⟨t, once, -, keeps⟩
  have inside := repairs.inside
  have sizes := block.sizes
  have header := fixDirentLengths_trusted_header (by omega) (show fin - s.offset < 32768 by omega)
    repairs.trusted
  rw [Absorbs, State.recLen] at absorbs
  rw [if_pos absorbs] at header
  obtain rfl := StepLoop.Step.again.inj ((round_repairs block repairs).symm.trans once)
  obtain ⟨e, -, -, read, beyond, -⟩ := keeps _ [] ⟨follower.1, follower.2, rfl, trivial⟩
  -- the entry now ends where the block does
  have length : e.rec_len = fin - s.offset := by
    rw [← read]
    exact header.recLen
  omega

theorem followersKept_of_no_follower (block : InBlock ctx fin s) (repairs : Repairs ctx fin s)
    (none : ¬ Follower fin s) : FollowersKept ctx fin s :=
  ⟨_, round_repairs block repairs, rfl, fun _ _ visits => absurd ⟨visits.1, visits.2.1⟩ none⟩

theorem followers_kept_iff (block : InBlock ctx fin s) (repairs : Repairs ctx fin s) :
    FollowersKept ctx fin s ↔ ¬ (Absorbs fin s ∧ Follower fin s) := by
  constructor
  · rintro kept ⟨absorbs, follower⟩
    exact not_followersKept_of_absorbs block repairs absorbs follower kept
  · intro apart
    by_cases absorbs : Absorbs fin s
    · exact followersKept_of_no_follower block repairs fun follower => apart ⟨absorbs, follower⟩
    · exact followersKept_of_not_absorbs block repairs absorbs

def secondBlock : Context where
  fs := ⟨512, 1000, true, false, false⟩
  e_ino := 20
  e_blkno := 40
  e_blkcount := 1
  answers := fun _ => true
  test_inode_allocated := fun _ => true
  ost_dir_inodes := fun _ => .ok false
  ost_reg_inodes := fun _ => .ok true
  type_from_dinode := fun _ => .ok ftRegFile

def atStart (buf : Buffer) : State := ⟨buf, 0, 0, false, [], [], 0, fun _ => 0⟩

def overlongName (low rest : Byte) : Buffer :=
  splice (splice (List.replicate 512 0) 8 [low, 0, 0xff]) low.toNat [5, 0, 0, 0, 0, 0, 0, 0, rest, 1, 1, 1, 0x66]

theorem inBlock_secondBlock (buf : Buffer) (length : buf.length = 512) :
    InBlock secondBlock 512 (atStart buf) :=
  ⟨⟨9, le_rfl, by omega, rfl⟩, length, Or.inl rfl, rfl⟩

theorem repairs_overlongName_252 : Repairs secondBlock 512 (atStart (overlongName 252 4)) :=
  ⟨by decide, by decide +kernel, rfl, by decide +kernel, by decide +kernel, by decide +kernel, by decide +kernel,
    by decide +kernel, by decide +kernel⟩

/-- The record behind the entry is lost. -/
theorem follower_absorbed : Repairs secondBlock 512 (atStart (overlongName 252 4)) ∧
    Visits (overlongName 252 4) 512 252 [⟨5, 260, 1, 1, [0x66]⟩] ∧
    ¬ FollowersKept secondBlock 512 (atStart (overlongName 252 4)) := by
  have follower : Follower 512 (atStart (overlongName 252 4)) := ⟨by decide +kernel, by decide +kernel⟩
  refine ⟨repairs_overlongName_252, ⟨by decide, by decide +kernel, by decide +kernel, trivial⟩, ?_⟩
  exact not_followersKept_of_absorbs (inBlock_secondBlock _ (by decide +kernel)) repairs_overlongName_252
    ⟨by decide +kernel, by decide +kernel⟩ follower

theorem repairs_overlongName_128 : Repairs secondBlock 512 (atStart (overlongName 128 128)) :=
  ⟨by decide, by decide +kernel, rfl, by decide +kernel, by decide +kernel, by decide +kernel, by decide +kernel,
    by decide +kernel, by decide +kernel⟩

theorem followers_kept_128 : FollowersKept secondBlock 512 (atStart (overlongName 128 128)) :=
  (followers_kept_iff (inBlock_secondBlock _ (by decide +kernel)) repairs_overlongName_128).mpr fun both =>
    absurd both.1.2 (by decide +kernel)

end Followers

end Ocfs2.Pass2
