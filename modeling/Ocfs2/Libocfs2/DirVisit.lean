import Ocfs2.Libocfs2.DirChain

set_option autoImplicit false

namespace Ocfs2.Dir

open ByteBuffer

section Steps

variable {buf : Buffer} {hi offset : Nat} {e : Dirent} {es : List Dirent}

section

variable (chain : Chain buf hi offset (e :: es))

include chain

theorem Chain.read : readDirent buf offset = e := chain.1

theorem Chain.recLen_eq : recLen buf offset = e.rec_len :=
  congrArg Dirent.rec_len chain.1

theorem Chain.inode_eq : inode buf offset = e.inode :=
  congrArg Dirent.inode chain.1

theorem Chain.nameLen_eq : nameLen buf offset = e.name_len :=
  congrArg Dirent.name_len chain.1

theorem Chain.room : offset + 12 ≤ hi := by
  have := chain.next_le
  have := chain.2.1.ge
  omega

theorem Chain.setRecLen (fits : hi ≤ buf.length) (short : hi < 65536) {len : Nat} {rest : List Dirent}
    (enough : dirRecLen e.name_len ≤ len) (aligned : len % 4 = 0) (behind : Chain buf hi (offset + len) rest) :
    Chain (setRecLen buf offset len) hi offset ({ e with rec_len := len } :: rest) := by
  have ge := dirRecLen_ge e.name_len
  have upper := behind.le
  refine ⟨?_, ⟨enough, aligned⟩, behind.congr ?_⟩
  · rw [readDirent_setRecLen buf offset len (by omega) (by omega), chain.read]
  · refine (agree_splice buf (offset + 8) _ (by rw [length_leBytes]; omega) _ _ (Or.inr ?_)).symm
    rw [length_leBytes]
    omega

end

theorem within_setRecLen (fits : hi ≤ buf.length) (room : offset + 12 ≤ hi) (v : Nat) :
    Within (Dir.setRecLen buf offset v) buf offset hi :=
  within_field (by omega) (by omega) fits

def Closed (buf : Buffer) (hi blockend : Nat) : Prop := blockend = hi ∨ hi ≤ blockend ∧ recLen buf hi = 0

theorem absorbNext_correct (blockend : Nat) (chain : Chain buf hi offset (e :: es))
    (fits : hi ≤ buf.length) (short : hi < 65536) (closed : Closed buf hi blockend) :
    Within (absorbNext blockend buf offset).1 buf offset hi ∧
      ((absorbNext blockend buf offset).2 = false → (absorbNext blockend buf offset).1 = buf) ∧
      ∃ len rest, Chain (absorbNext blockend buf offset).1 hi offset ({ e with rec_len := len } :: rest) ∧
        e.rec_len ≤ len ∧ live rest = live es := by
  have room := chain.room
  have upper := chain.next_le
  have length := chain.recLen_eq
  rw [absorbNext]
  simp only [length]
  split
  next take =>
    refine ⟨within_setRecLen fits room _, fun unchanged => absurd unchanged (by simp), ?_⟩
    cases es with
    | nil =>
      -- only bytes that are no record can be there, and they have no length
      have last : offset + e.rec_len = hi := chain.2.2
      have zero : recLen buf (offset + e.rec_len) = 0 := by
        rcases closed with rfl | ⟨-, zero⟩
        · omega
        · rw [last, zero]
      simp only [zero, Nat.add_zero]
      exact ⟨e.rec_len, [], chain.setRecLen fits short chain.2.1.1 chain.2.1.2 last, le_rfl, rfl⟩
    | cons n rest =>
      have behind := chain.2.2
      have free : n.inode = 0 := by rw [← behind.inode_eq]; exact take.2.1
      have rec_len := behind.recLen_eq
      simp only [rec_len]
      refine ⟨e.rec_len + n.rec_len, rest, chain.setRecLen fits short ?_ ?_ ?_, by omega, ?_⟩
      · exact chain.2.1.1.trans (by omega)
      · have := chain.2.1.2
        have := behind.2.1.2
        omega
      · rw [← Nat.add_assoc]
        exact behind.2.2
      · rw [live_cons, Dirent.live_of_free free, zero_add]
  next =>
    exact ⟨.refl _ _, fun _ => rfl, e.rec_len, es, chain, le_rfl, rfl⟩

theorem Dirent.live_setRecLen (e : Dirent) (len : Nat) : ({ e with rec_len := len } : Dirent).live = e.live := rfl

theorem split_correct (chain : Chain buf hi offset (e :: es)) (fits : hi ≤ buf.length) (short : hi < 65536)
    (enough : dirRecLen e.name_len + 12 ≤ e.rec_len) :
    ∃ after free, Dir.setRecLen (setNameLen (setInode (Dir.setRecLen buf offset (dirRecLen e.name_len))
        (offset + dirRecLen e.name_len) 0) (offset + dirRecLen e.name_len) 0)
        (offset + dirRecLen e.name_len) (e.rec_len - dirRecLen e.name_len) = after ∧
      free.inode = 0 ∧ Within after buf offset hi ∧
      Chain after hi offset ({ e with rec_len := dirRecLen e.name_len } :: free :: es) := by
  have ge := dirRecLen_ge e.name_len
  have aligned := dirRecLen_mod e.name_len
  have upper := chain.next_le
  have whole := chain.2.1.2
  generalize next : offset + dirRecLen e.name_len = n
  -- the four writes, one after the other
  have w1 : Within (Dir.setRecLen buf offset (dirRecLen e.name_len)) buf offset (offset + 12) :=
    within_field (by omega) (by omega) (by omega)
  have r1 := readDirent_setRecLen buf offset (dirRecLen e.name_len) (by omega) (by omega)
  generalize Dir.setRecLen buf offset (dirRecLen e.name_len) = b1 at w1 r1 ⊢
  have l1 := w1.length
  have w2 : Within (setInode b1 n 0) b1 n (n + 12) :=
    within_field le_rfl (by omega) (by omega)
  have r2 := readDirent_setInode b1 n 0 (by omega) (by omega)
  generalize setInode b1 n 0 = b2 at w2 r2 ⊢
  have l2 := w2.length
  have w3 : Within (setNameLen b2 n 0) b2 n (n + 12) :=
    within_field (by omega) (by omega) (by omega)
  have r3 := readDirent_setNameLen b2 n 0 (by omega) (by omega)
  generalize setNameLen b2 n 0 = b3 at w3 r3 ⊢
  have l3 := w3.length
  have w4 : Within (Dir.setRecLen b3 n (e.rec_len - dirRecLen e.name_len)) b3 n (n + 12) :=
    within_field (by omega) (by omega) (by omega)
  have r4 := readDirent_setRecLen b3 n (e.rec_len - dirRecLen e.name_len) (by omega) (by omega)
  generalize Dir.setRecLen b3 n (e.rec_len - dirRecLen e.name_len) = b4 at w4 r4 ⊢
  have later : Within b4 b1 n (n + 12) := (w4.trans w3).trans w2
  have all : Within b4 buf offset hi :=
    (later.mono (by omega) (by omega)).trans (w1.mono le_rfl (by omega))
  rw [r3, r2] at r4
  refine ⟨b4, readDirent b4 n, rfl, by rw [r4], all, ?_, ⟨le_rfl, aligned⟩, ?_, ?_, ?_⟩
  · rw [← readDirent_congr, r1, chain.read]
    · rw [r1, chain.read]
      exact ⟨le_rfl, aligned⟩
    · have here : recLen b1 offset = dirRecLen e.name_len := congrArg Dirent.rec_len r1
      rw [here]
      exact (later.below.mono (by omega) (by omega)).symm
  · rw [next]
  · rw [r4]
    refine ⟨?_, by simp only; omega⟩
    have : dirRecLen 0 = 12 := rfl
    simp only
    omega
  · have far : n + (readDirent b4 n).rec_len = offset + e.rec_len := by
      rw [r4]
      simp only
      omega
    simp only [next, far]
    refine chain.2.2.congr ?_
    have tail : Agree b4 b1 (offset + e.rec_len) hi := later.above.mono (by omega) (by omega)
    have head : Agree b1 buf (offset + e.rec_len) hi := w1.above.mono (by omega) (by omega)
    exact (tail.trans head).symm

theorem fill_correct (chain : Chain buf hi offset (e :: es)) (fits : hi ≤ buf.length) (ino flags : Nat)
    (bytes : Buffer) (small : ino < 2 ^ 64) (len : bytes.length < 256)
    (enough : dirRecLen bytes.length ≤ e.rec_len) :
    ∃ after, setFileType (setName (setNameLen (setInode buf offset ino) offset bytes.length) offset bytes)
        offset flags = after ∧ Within after buf offset hi ∧
      Chain after hi offset (⟨ino, e.rec_len, bytes.length, flags % 256, bytes⟩ :: es) := by
  have ge := dirRecLen_ge bytes.length
  have upper := chain.next_le
  have w1 : Within (setInode buf offset ino) buf offset (offset + e.rec_len) :=
    within_field le_rfl (by omega) (by omega)
  have r1 := readDirent_setInode buf offset ino small (by omega)
  generalize setInode buf offset ino = b1 at w1 r1 ⊢
  have l1 := w1.length
  have w2 : Within (setNameLen b1 offset bytes.length) b1 offset (offset + e.rec_len) :=
    within_field (by omega) (by omega) (by omega)
  have r2 := readDirent_setNameLen b1 offset bytes.length len (by omega)
  generalize setNameLen b1 offset bytes.length = b2 at w2 r2 ⊢
  have l2 := w2.length
  have w3 : Within (setName b2 offset bytes) b2 offset (offset + e.rec_len) :=
    within_splice _ _ _ _ (by omega) (by omega) (by omega)
  have r3 := readDirent_setName b2 offset bytes (congrArg Dirent.name_len r2) (by omega)
  generalize setName b2 offset bytes = b3 at w3 r3 ⊢
  have l3 := w3.length
  have w4 : Within (setFileType b3 offset flags) b3 offset (offset + e.rec_len) :=
    within_field (by omega) (by omega) (by omega)
  have r4 := readDirent_setFileType b3 offset flags (by omega)
  generalize setFileType b3 offset flags = b4 at w4 r4 ⊢
  have all : Within b4 buf offset (offset + e.rec_len) := ((w4.trans w3).trans w2).trans w1
  rw [r3, r2, r1, chain.read] at r4
  exact ⟨b4, rfl, all.mono le_rfl upper, r4, ⟨enough, chain.2.1.2⟩,
    chain.2.2.congr (all.above.mono le_rfl fits).symm⟩

end Steps

section Procs

def Effect (effect : Multiset Entry → Multiset Entry → Prop) (stop : Bool) (old new : Multiset Entry) : Prop :=
  if stop then effect old new else new = old

theorem Effect.add {effect : Multiset Entry → Multiset Entry → Prop} {stop : Bool} {old new : Multiset Entry}
    (frame : ∀ M old new, effect old new → effect (M + old) (M + new)) (M : Multiset Entry)
    (changed : Effect effect stop old new) : Effect effect stop (M + old) (M + new) := by
  cases stop with
  | true => exact frame M old new changed
  | false => exact congrArg (M + ·) changed

structure Proc {σ : Type} (v : Visited σ) (priv priv' : σ)
    (effect : Multiset Entry → Multiset Entry → Prop) (buf : Buffer) (hi offset : Nat)
    (es : List Dirent) : Prop where
  within : Within v.buf buf offset hi
  unchanged : v.changed = false → v.buf = buf
  data : v.priv = if v.abort then priv' else priv
  chain : ∃ e' es', Chain v.buf hi offset (e' :: es') ∧ Effect effect v.abort (live es) (live (e' :: es'))

variable {buf : Buffer} {hi offset : Nat} {e : Dirent} {es : List Dirent}

structure LinkStruct.Valid (ls : LinkStruct) : Prop where
  short : ls.name.length < 256
  used : ls.inode ≠ 0
  small : ls.inode < 2 ^ 64

def LinkStruct.entry (ls : LinkStruct) : Entry := ⟨ls.name, ls.inode, ls.flags % 256⟩

theorem linkProc_correct (ls : LinkStruct) (valid : ls.Valid) (chain : Chain buf hi offset (e :: es))
    (fits : hi ≤ buf.length) (short : hi < 65536) (closed : Closed buf hi ls.blockend) :
    Proc (linkProc buf offset ls) ls { ls with done := true } (fun old new => new = ls.entry ::ₘ old)
      buf hi offset (e :: es) := by
  obtain ⟨within, unchanged, len, rest, chain', -, same⟩ := absorbNext_correct ls.blockend chain fits short closed
  rw [linkProc]
  rcases absorb : absorbNext ls.blockend buf offset with ⟨b, ret⟩
  rw [absorb] at within unchanged chain'
  dsimp only at within unchanged chain' ⊢
  have fits' : hi ≤ b.length := within.length ▸ fits
  have keep : live ({ e with rec_len := len } :: rest) = live (e :: es) := by
    rw [live_cons, live_cons, same, Dirent.live_setRecLen]
  simp only [chain'.inode_eq, chain'.recLen_eq, chain'.nameLen_eq]
  by_cases used : e.inode = 0
  · rw [if_neg (not_not.mpr used)]
    by_cases narrow : len < dirRecLen ls.name.length
    · rw [if_pos narrow]
      exact ⟨within, unchanged, rfl, _, _, chain', keep⟩
    · rw [if_neg narrow]
      obtain ⟨after, rfl, within', filled⟩ := fill_correct chain' fits' ls.inode ls.flags ls.name valid.small
        valid.short (Nat.not_lt.mp narrow)
      refine ⟨within'.trans within, fun h => absurd h (by simp), rfl, _, _, filled, ?_⟩
      simp only [Effect, if_true, ← keep, live_cons, Dirent.live_setRecLen]
      rw [Dirent.live_of_free used, Dirent.live_of_used valid.used, zero_add, Multiset.singleton_add]
      rfl
  · rw [if_pos used]
    by_cases narrow : len < dirRecLen e.name_len + dirRecLen ls.name.length
    · rw [if_pos narrow]
      exact ⟨within, unchanged, rfl, _, _, chain', keep⟩
    · rw [if_neg narrow]
      have need := dirRecLen_ge ls.name.length
      obtain ⟨after, free, rfl, empty, within', split⟩ := split_correct chain' fits' short (by dsimp only; omega)
      refine ⟨within'.trans within, fun h => absurd h (by simp), rfl, _, _, split, ?_⟩
      rw [Effect, if_neg (by simp), ← keep]
      simp only [live_cons, Dirent.live_of_free empty, zero_add]
      rfl

def UnlinkStruct.Matches (ls : UnlinkStruct) (x : Entry) : Prop :=
  x.name = ls.name ∧ (ls.inode = 0 ∨ x.inode = ls.inode)

theorem unlinkProc_correct (ls : UnlinkStruct) (used : e.inode ≠ 0) (chain : Chain buf hi offset (e :: es))
    (fits : hi ≤ buf.length) :
    Proc (unlinkProc buf offset ls) ls { ls with done := true }
        (fun old new => ∃ x, ls.Matches x ∧ old = x ::ₘ new) buf hi offset (e :: es) ∧
      ((unlinkProc buf offset ls).abort = false → ¬ls.Matches e.entry) := by
  have room := chain.room
  have name_len : e.name.length = e.name_len := by
    have upper := chain.next_le
    have ge := chain.2.1.ge
    have := congrArg Dirent.name chain.read
    rw [← this, ← chain.nameLen_eq]
    exact length_slice _ _ _ (by rw [chain.nameLen_eq]; omega)
  have stay : Proc (⟨buf, ls, false, false⟩ : Visited UnlinkStruct) ls { ls with done := true }
      (fun old new => ∃ x, ls.Matches x ∧ old = x ::ₘ new) buf hi offset (e :: es) :=
    ⟨.refl _ _, fun _ => rfl, rfl, _, _, chain, rfl⟩
  have bytes : name buf offset e.name_len = e.name := by
    rw [← chain.nameLen_eq]
    exact congrArg Dirent.name chain.read
  rw [unlinkProc]
  simp only [chain.inode_eq, chain.nameLen_eq, bytes]
  by_cases len : e.name_len = ls.name.length
  · rw [if_neg (not_not.mpr len)]
    by_cases same : e.name = ls.name
    · rw [if_neg (not_not.mpr same)]
      by_cases other : ls.inode ≠ 0 ∧ e.inode ≠ ls.inode
      · rw [if_pos other]
        refine ⟨stay, fun _ found => ?_⟩
        rcases found.2 with zero | equal
        · exact other.1 zero
        · exact other.2 equal
      · rw [if_neg other]
        refine ⟨⟨within_field le_rfl (by omega) fits,
          fun h => absurd h (by simp), rfl, { e with inode := 0 }, es, ⟨?_, chain.2.1, ?_⟩, ?_⟩,
          fun h => absurd h (by simp)⟩
        · rw [readDirent_setInode buf offset 0 (by omega) (by omega), chain.read]
        · have ge := chain.2.1.ge
          refine chain.2.2.congr (agree_splice _ _ _ (by rw [length_leBytes]; omega) _ _ (Or.inr ?_)).symm
          rw [length_leBytes]
          omega
        · refine ⟨e.entry, ⟨same, ?_⟩, ?_⟩
          · by_cases zero : ls.inode = 0
            · exact Or.inl zero
            · exact Or.inr (not_not.mp fun differs => other ⟨zero, differs⟩)
          · rw [live_cons, live_cons, Dirent.live_of_used used,
              Dirent.live_of_free (e := { e with inode := 0 }) rfl, zero_add, Multiset.singleton_add]
    · rw [if_pos same]
      exact ⟨stay, fun _ found => same found.1⟩
  · rw [if_pos len]
    refine ⟨stay, fun _ found => len ?_⟩
    rw [← name_len, ← found.1]
    rfl

end Procs

end Ocfs2.Dir
