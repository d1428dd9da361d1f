import Ocfs2.Libocfs2.Dir

set_option autoImplicit false

namespace Ocfs2.Dir

open ByteBuffer

section Records

structure Dirent where
  inode : Nat
  rec_len : Nat
  name_len : Nat
  file_type : Nat
  name : Buffer
  deriving DecidableEq

def readDirent (buf : Buffer) (offset : Nat) : Dirent :=
  ⟨inode buf offset, recLen buf offset, nameLen buf offset, fileType buf offset,
    name buf offset (nameLen buf offset)⟩

def Dirent.Fits (e : Dirent) : Prop := dirRecLen e.name_len ≤ e.rec_len ∧ e.rec_len % 4 = 0

instance (e : Dirent) : Decidable e.Fits := inferInstanceAs (Decidable (_ ∧ _))

def Chain (buf : Buffer) (hi : Nat) : Nat → List Dirent → Prop
  | offset, [] => offset = hi
  | offset, e :: es => readDirent buf offset = e ∧ e.Fits ∧ Chain buf hi (offset + e.rec_len) es

instance decidableChain (buf : Buffer) (hi : Nat) :
    (offset : Nat) → (es : List Dirent) → Decidable (Chain buf hi offset es)
  | offset, [] => inferInstanceAs (Decidable (offset = hi))
  | offset, e :: es =>
    have := decidableChain buf hi (offset + e.rec_len) es
    inferInstanceAs (Decidable (_ ∧ _ ∧ _))

structure Entry where
  name : Buffer
  inode : Nat
  file_type : Nat
  deriving DecidableEq

def Dirent.entry (e : Dirent) : Entry := ⟨e.name, e.inode, e.file_type⟩

def Dirent.live (e : Dirent) : Multiset Entry := if e.inode = 0 then 0 else {e.entry}

def live (es : List Dirent) : Multiset Entry := (es.map Dirent.live).sum

def entries (ess : List (List Dirent)) : Multiset Entry := (ess.map live).sum

@[simp] theorem entries_cons (es : List Dirent) (ess : List (List Dirent)) : entries (es :: ess) = live es + entries ess := by
  simp [entries]

@[simp] theorem entries_nil : entries [] = 0 := rfl

@[simp] theorem live_nil : live [] = 0 := rfl

@[simp] theorem live_cons (e : Dirent) (es : List Dirent) : live (e :: es) = e.live + live es := by
  simp [live]

variable {e : Dirent} {buf : Buffer} {es : List Dirent}

theorem Dirent.live_of_free (free : e.inode = 0) : e.live = 0 := if_pos free

theorem Dirent.live_of_used (used : e.inode ≠ 0) : e.live = {e.entry} := if_neg used

theorem dirRecLen_ge (n : Nat) : n + 12 ≤ dirRecLen n := by
  rw [dirRecLen]
  omega

theorem dirRecLen_le (n : Nat) : dirRecLen n ≤ n + 15 := by
  rw [dirRecLen]
  omega

theorem dirRecLen_mod (n : Nat) : dirRecLen n % 4 = 0 := by
  rw [dirRecLen]
  omega

theorem Dirent.Fits.ge (fits : e.Fits) : e.name_len + 12 ≤ e.rec_len :=
  (dirRecLen_ge _).trans fits.1

theorem Chain.le {hi offset : Nat} (chain : Chain buf hi offset es) :
    offset ≤ hi := by
  induction es generalizing offset with
  | nil => exact Nat.le_of_eq chain
  | cons e es ih =>
    have := ih chain.2.2
    omega

theorem Chain.next_le {hi offset : Nat}
    (chain : Chain buf hi offset (e :: es)) : offset + e.rec_len ≤ hi := chain.2.2.le

theorem Chain.unique {hi offset : Nat} {es' : List Dirent} (chain : Chain buf hi offset es)
    (chain' : Chain buf hi offset es') : es = es' := by
  induction es generalizing offset es' with
  | nil =>
    cases es' with
    | nil => rfl
    | cons e' es' =>
      have := chain'.next_le
      have := chain'.2.1.ge
      have : offset = hi := chain
      omega
  | cons e es ih =>
    cases es' with
    | nil =>
      have := chain.next_le
      have := chain.2.1.ge
      have : offset = hi := chain'
      omega
    | cons e' es' =>
      obtain rfl : e = e' := chain.1.symm.trans chain'.1
      rw [ih chain.2.2 chain'.2.2]

end Records

section Frame

theorem readDirent_congr {a b : Buffer} {offset : Nat} (fits : (readDirent a offset).Fits)
    (agree : Agree a b offset (offset + recLen a offset)) : readDirent a offset = readDirent b offset := by
  have room := fits.ge
  simp only [readDirent] at room
  have field (off n : Nat) (inside : off + n ≤ 12) :
      slice a (offset + off) n = slice b (offset + off) n :=
    agree.slice _ _ (by omega) (by omega)
  have hi : inode a offset = inode b offset := by rw [inode, inode, ← Nat.add_zero offset, field 0 8 (by omega)]
  have hl : recLen a offset = recLen b offset := by rw [recLen, recLen, field 8 2 (by omega)]
  have hn : nameLen a offset = nameLen b offset := by rw [nameLen, nameLen, field 10 1 (by omega)]
  have ht : fileType a offset = fileType b offset := by rw [fileType, fileType, field 11 1 (by omega)]
  have bytes : name a offset (nameLen a offset) = name b offset (nameLen a offset) :=
    agree.slice _ _ (by omega) (by omega)
  rw [hn] at bytes
  simp only [readDirent, hi, hl, ht, hn, bytes]

theorem Chain.congr {a b : Buffer} {hi offset : Nat} {es : List Dirent} (chain : Chain a hi offset es)
    (agree : Agree a b offset hi) : Chain b hi offset es := by
  induction es generalizing offset with
  | nil => exact chain
  | cons e es ih =>
    have upper := chain.next_le
    obtain ⟨read, fits, rest⟩ := chain
    have length : recLen a offset = e.rec_len := congrArg Dirent.rec_len read
    refine ⟨?_, fits, ih rest (agree.mono (by omega) le_rfl)⟩
    rw [← readDirent_congr (read ▸ fits) (agree.mono le_rfl (by omega)), read]

end Frame

section Setters

variable (buf : Buffer) (offset : Nat)

theorem slice_field (pos n v : Nat) (room : pos + n ≤ buf.length) :
    slice (splice buf pos (leBytes n v)) pos n = leBytes n v ∧
      ∀ off m, off + m ≤ pos ∨ pos + n ≤ off → slice (splice buf pos (leBytes n v)) off m = slice buf off m := by
  have fits : pos + (leBytes n v).length ≤ buf.length := by rwa [length_leBytes]
  have same := slice_splice buf pos (leBytes n v) fits
  rw [length_leBytes] at same
  exact ⟨same, fun off m apart => slice_splice_of_ne buf _ _ fits off m (by rwa [length_leBytes])⟩

theorem readDirent_setRecLen (v : Nat) (small : v < 65536) (room : offset + 12 ≤ buf.length) :
    readDirent (setRecLen buf offset v) offset = { readDirent buf offset with rec_len := v } := by
  obtain ⟨same, other⟩ := slice_field buf (offset + 8) 2 v (by omega)
  simp only [readDirent, setRecLen, recLen, inode, nameLen, fileType, name]
  rw [same, leValue_leBytes 2 v small, other offset 8 (by omega), other (offset + 10) 1 (by omega),
    other (offset + 11) 1 (by omega), other (offset + 12) _ (by omega)]

theorem readDirent_setInode (v : Nat) (small : v < 2 ^ 64) (room : offset + 12 ≤ buf.length) :
    readDirent (setInode buf offset v) offset = { readDirent buf offset with inode := v } := by
  obtain ⟨same, other⟩ := slice_field buf offset 8 v (by omega)
  simp only [readDirent, setInode, recLen, inode, nameLen, fileType, name]
  rw [same, leValue_leBytes 8 v small, other (offset + 8) 2 (by omega), other (offset + 10) 1 (by omega),
    other (offset + 11) 1 (by omega), other (offset + 12) _ (by omega)]

theorem readDirent_setNameLen (v : Nat) (small : v < 256) (room : offset + 12 ≤ buf.length) :
    readDirent (setNameLen buf offset v) offset =
      { readDirent buf offset with name_len := v, name := name buf offset v } := by
  obtain ⟨same, other⟩ := slice_field buf (offset + 10) 1 v (by omega)
  simp only [readDirent, setNameLen, recLen, inode, nameLen, fileType, name]
  rw [same, leValue_leBytes 1 v small, other offset 8 (by omega), other (offset + 8) 2 (by omega),
    other (offset + 11) 1 (by omega), other (offset + 12) _ (by omega)]

theorem readDirent_setFileType (v : Nat) (room : offset + 12 ≤ buf.length) :
    readDirent (setFileType buf offset v) offset = { readDirent buf offset with file_type := v % 256 } := by
  obtain ⟨same, other⟩ := slice_field buf (offset + 11) 1 v (by omega)
  have value : leValue (leBytes 1 v) = v % 256 := by simp [leBytes, leValue]
  simp only [readDirent, setFileType, recLen, inode, nameLen, fileType, name]
  rw [same, value, other offset 8 (by omega), other (offset + 8) 2 (by omega), other (offset + 10) 1 (by omega),
    other (offset + 12) _ (by omega)]

theorem readDirent_setName (bytes : Buffer) (len : nameLen buf offset = bytes.length)
    (room : offset + 12 + bytes.length ≤ buf.length) :
    readDirent (setName buf offset bytes) offset = { readDirent buf offset with name := bytes } := by
  have other (off n : Nat) (apart : off + n ≤ offset + 12) :
      slice (setName buf offset bytes) off n = slice buf off n :=
    slice_splice_of_ne buf _ _ room off n (Or.inl apart)
  have same : nameLen (setName buf offset bytes) offset = bytes.length := by
    rw [nameLen, other _ _ (by omega), ← len, nameLen]
  have copied : name (setName buf offset bytes) offset bytes.length = bytes :=
    slice_splice buf (offset + 12) bytes room
  simp only [readDirent, same, copied, len, inode, recLen, fileType]
  rw [other offset 8 (by omega), other (offset + 8) 2 (by omega), other (offset + 11) 1 (by omega)]

structure Within (a b : Buffer) (lo hi : Nat) : Prop where
  length : a.length = b.length
  below : Agree a b 0 lo
  above : Agree a b hi b.length

variable {buf}

theorem Within.refl (lo hi : Nat) : Within buf buf lo hi := ⟨rfl, .refl _ _ _, .refl _ _ _⟩

theorem Within.trans {a b c : Buffer} {lo hi : Nat} (ab : Within a b lo hi) (bc : Within b c lo hi) :
    Within a c lo hi :=
  ⟨ab.length.trans bc.length, ab.below.trans bc.below, (bc.length ▸ ab.above).trans bc.above⟩

theorem Within.mono {a b : Buffer} {lo hi lo' hi' : Nat} (within : Within a b lo hi) (lower : lo' ≤ lo)
    (upper : hi ≤ hi') : Within a b lo' hi' :=
  ⟨within.length, within.below.mono le_rfl lower, within.above.mono upper le_rfl⟩

theorem within_splice (off : Nat) (bytes : Buffer) (lo hi : Nat) (lower : lo ≤ off)
    (upper : off + bytes.length ≤ hi) (room : hi ≤ buf.length) :
    Within (splice buf off bytes) buf lo hi where
  length := length_splice _ _ _ (by omega)
  below := agree_splice _ _ _ (by omega) _ _ (Or.inl lower)
  above := agree_splice _ _ _ (by omega) _ _ (Or.inr upper)

theorem within_field {pos n v lo hi : Nat} (lower : lo ≤ pos) (upper : pos + n ≤ hi) (room : hi ≤ buf.length) :
    Within (splice buf pos (leBytes n v)) buf lo hi :=
  within_splice pos _ lo hi lower (by rwa [length_leBytes]) room

end Setters

end Ocfs2.Dir
