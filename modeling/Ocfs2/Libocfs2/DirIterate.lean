import Ocfs2.Libocfs2.DirVisit

set_option autoImplicit false

namespace Ocfs2.Dir

open ByteBuffer

section Walk

variable {σ : Type} {fs : Filesys} {di : Dinode} {flags : Flags} {func : Buffer → Nat → σ → Visited σ}

variable {buf : Buffer} {hi : Nat} {err : Option Errcode}

theorem badEntry_eq_false {offset : Nat} {e : Dirent} {es : List Dirent}
    (chain : Chain buf hi offset (e :: es)) (size : hi ≤ fs.fs_blocksize) :
    badEntry fs buf offset = false := by
  have upper := chain.next_le
  have ge := chain.2.1.ge
  have aligned := chain.2.1.2
  simp only [badEntry, chain.recLen_eq, chain.nameLen_eq, Bool.or_eq_false_iff, decide_eq_false_iff_not,
    bne_eq_false_iff_eq]
  omega

theorem nextOffset_eq (plain : flags.include_removed = false) (buf : Buffer) (offset : Nat) :
    nextOffset flags buf offset = offset + recLen buf offset := by
  simp [nextOffset, plain]

structure Outcome (r : Scan σ) (priv priv' : σ) (effect : Multiset Entry → Multiset Entry → Prop)
    (err : Option Errcode) (changed : Bool) (buf : Buffer) (hi offset : Nat) (es : List Dirent) : Prop where
  within : Within r.buf buf offset hi
  unchanged : r.changed = false → changed = false ∧ r.buf = buf
  data : r.priv = if r.abort then priv' else priv
  errcode : r.errcode = if r.abort then none else err
  chain : ∃ es', Chain r.buf hi offset es' ∧ Effect effect r.abort (live es) (live es')

theorem Outcome.cons {r : Scan σ} {priv priv' : σ} {effect : Multiset Entry → Multiset Entry → Prop}
    {err : Option Errcode} {changed : Bool} {buf : Buffer} {hi offset : Nat} {e : Dirent} {es : List Dirent}
    (frame : ∀ M old new, effect old new → effect (M + old) (M + new))
    (chain : Chain buf hi offset (e :: es))
    (rest : Outcome r priv priv' effect err changed buf hi (offset + e.rec_len) es) :
    Outcome r priv priv' effect err changed buf hi offset (e :: es) := by
  obtain ⟨within, unchanged, data, errcode, es', chain', lives⟩ := rest
  refine ⟨within.mono (by omega) le_rfl, unchanged, data, errcode, e :: es', ⟨?_, chain.2.1, chain'⟩, ?_⟩
  · rw [← readDirent_congr, chain.read]
    · rw [chain.read]
      exact chain.2.1
    · rw [chain.recLen_eq]
      exact (within.below.mono (by omega) le_rfl).symm
  · exact lives.add frame _

theorem processDirEntry_correct (priv priv' : σ) (effect : Multiset Entry → Multiset Entry → Prop)
    (frame : ∀ M old new, effect old new → effect (M + old) (M + new)) (hi : Nat)
    (size : hi ≤ fs.fs_blocksize) (base : Buffer) (err : Option Errcode)
    (plain : flags.include_removed = false)
    (call : ∀ buf offset e es, Chain buf hi offset (e :: es) → buf.length = base.length →
      Agree buf base hi base.length → skipped fs di flags buf offset = false →
      Proc (func buf offset priv) priv priv' effect buf hi offset (e :: es))
    (ending : ∀ fuel buf changed, buf.length = base.length → Agree buf base hi base.length →
      processDirEntry fs di flags func (fuel + 2) hi buf priv changed = ⟨buf, priv, changed, false, err⟩)
    (fuel offset : Nat) (buf : Buffer) (changed : Bool) (es : List Dirent) (chain : Chain buf hi offset es)
    (len : buf.length = base.length) (above : Agree buf base hi base.length)
    (enough : hi + 24 ≤ 12 * fuel + offset) :
    Outcome (processDirEntry fs di flags func fuel offset buf priv changed) priv priv' effect err
      changed buf hi offset es := by
  induction fuel generalizing offset buf changed es with
  | zero =>
    have := chain.le
    omega
  | succ fuel ih =>
    cases es with
    | nil =>
      obtain rfl : offset = hi := chain
      obtain ⟨n, rfl⟩ : ∃ n, fuel = n + 1 := ⟨fuel - 1, by omega⟩
      rw [ending n buf changed len above]
      exact ⟨.refl _ _, fun same => ⟨same, rfl⟩, rfl, rfl, [], rfl, rfl⟩
    | cons e es =>
      have room := chain.room
      rw [processDirEntry, if_pos (by omega), badEntry_eq_false chain size, if_neg (by simp)]
      cases skip : skipped fs di flags buf offset with
      | true =>
        rw [if_pos rfl, nextOffset_eq plain, chain.recLen_eq]
        have ge := chain.2.1.ge
        exact Outcome.cons frame chain (ih _ _ _ es chain.2.2 len above (by omega))
      | false =>
        rw [if_neg (by simp)]
        obtain ⟨within, unchanged, data, e', es', chain', lives⟩ := call buf offset e es chain len above skip
        generalize func buf offset priv = v at within unchanged data chain' lives ⊢
        obtain ⟨vbuf, vpriv, vchanged, abort⟩ := v
        dsimp only at within unchanged data chain' lives ⊢
        cases abort with
        | true =>
          refine ⟨within, ?_, data, rfl, e' :: es', chain', lives⟩
          intro same
          obtain ⟨before, now⟩ := Bool.or_eq_false_iff.mp same
          exact ⟨before, unchanged now⟩
        | false =>
          simp only [Effect, Bool.false_eq_true, if_false] at data lives ⊢
          subst data
          have ge := chain'.2.1.ge
          have len' : vbuf.length = base.length := within.length.trans len
          have above' : Agree vbuf base hi base.length := (len ▸ within.above).trans above
          have rest := Outcome.cons frame chain'
            (ih (offset + e'.rec_len) vbuf (changed || vchanged) es' chain'.2.2 len' above' (by omega))
          rw [nextOffset_eq plain, chain'.recLen_eq]
          obtain ⟨within', unchanged', data', errcode', es'', chain'', lives'⟩ := rest
          refine ⟨within'.trans within, ?_, data', errcode', es'', chain'', ?_⟩
          · intro same
            obtain ⟨before, equal⟩ := unchanged' same
            obtain ⟨before, now⟩ := Bool.or_eq_false_iff.mp before
            exact ⟨before, equal.trans (unchanged now)⟩
          · rw [lives] at lives'
            exact lives'

inductive Tail (fs : Filesys) (di : Dinode) (buf : Buffer) (hi : Nat) : Option Errcode → Prop where
  | none (last : hi = fs.fs_blocksize) : Tail fs di buf hi none
  | trailer (has : dirHasTrailer fs di = true) (off : hi = dirTrailerBlkOff fs) (rec_len : recLen buf hi = 64)
      (name_len : nameLen buf hi = 0) (size : 64 ≤ fs.fs_blocksize) : Tail fs di buf hi none
  | other (room : hi + 10 ≤ fs.fs_blocksize) (rec_len : recLen buf hi = 0) :
      Tail fs di buf hi (some .dirCorrupted)

theorem Tail.congr {a b : Buffer} (tail : Tail fs di a hi err)
    (agree : Agree a b hi fs.fs_blocksize) : Tail fs di b hi err := by
  cases tail with
  | none last => exact .none last
  | trailer has off rec_len name_len size =>
    rw [dirTrailerBlkOff, sizeofTrailer] at off
    rw [recLen, agree.slice _ _ (by omega) (by omega), ← recLen] at rec_len
    rw [nameLen, agree.slice _ _ (by omega) (by omega), ← nameLen] at name_len
    exact .trailer has (by rw [off, dirTrailerBlkOff, sizeofTrailer]) rec_len name_len size
  | other room rec_len =>
    rw [recLen, agree.slice _ _ (by omega) (by omega), ← recLen] at rec_len
    exact .other room rec_len

theorem Tail.of_inode {di' : Dinode}
    (tail : Tail fs di buf hi err) (same : dirHasTrailer fs di' = dirHasTrailer fs di) :
    Tail fs di' buf hi err := by
  cases tail with
  | none last => exact .none last
  | trailer has off rec_len name_len size => exact .trailer (same.trans has) off rec_len name_len size
  | other room rec_len => exact .other room rec_len

theorem Tail.le (tail : Tail fs di buf hi err) :
    hi ≤ fs.fs_blocksize := by
  cases tail with
  | none last => exact last.le
  | trailer has off => exact off ▸ Nat.sub_le _ _
  | other room => omega

theorem Tail.ending (tail : Tail fs di buf hi err)
    (plain : flags.include_removed = false) (body : flags.include_trailer = false) (priv : σ) (fuel : Nat)
    (changed : Bool) :
    processDirEntry fs di flags func (fuel + 2) hi buf priv changed = ⟨buf, priv, changed, false, err⟩ := by
  cases tail with
  | none last => rw [processDirEntry, if_neg (by omega)]
  | trailer has off rec_len name_len size =>
    have bound := off
    rw [dirTrailerBlkOff, sizeofTrailer] at bound
    have good : badEntry fs buf hi = false := by
      simp only [badEntry, rec_len, name_len, Bool.or_eq_false_iff, decide_eq_false_iff_not,
        bne_eq_false_iff_eq, and_true]
      omega
    have skip : skipped fs di flags buf hi = true := by
      simp [skipped, skipDirTrailer, has, off, body]
    rw [processDirEntry, if_pos (by omega), good, if_neg (by simp), skip, if_pos rfl, nextOffset_eq plain,
      rec_len, processDirEntry, if_neg (by omega)]
  | other room rec_len =>
    have bad : badEntry fs buf hi = true := by simp [badEntry, rec_len]
    rw [processDirEntry, if_pos (by omega), bad, if_pos rfl]

theorem processDirEntry_first {offset : Nat} {e : Dirent} {es : List Dirent}
    (chain : Chain buf hi offset (e :: es)) (size : hi ≤ fs.fs_blocksize) (fuel : Nat) (priv : σ) (changed : Bool)
    (visit : skipped fs di flags buf offset = false) (stops : (func buf offset priv).abort = true) :
    (processDirEntry fs di flags func (fuel + 1) offset buf priv changed).abort = true := by
  have room := chain.room
  rw [processDirEntry, if_pos (by omega), badEntry_eq_false chain size, if_neg (by simp), visit,
    if_neg (by simp)]
  simp only [stops, if_true]

theorem processDirEntry_finds (priv : σ) (found : Dirent → Prop)
    (plain : flags.include_removed = false) (size : hi ≤ fs.fs_blocksize)
    (stay : ∀ offset, (func buf offset priv).abort = false →
      (func buf offset priv).buf = buf ∧ (func buf offset priv).priv = priv)
    (stops : ∀ offset e es, Chain buf hi offset (e :: es) → found e →
      skipped fs di flags buf offset = false ∧ (func buf offset priv).abort = true)
    (fuel offset : Nat) (changed : Bool) (es : List Dirent) (chain : Chain buf hi offset es)
    (enough : hi ≤ 12 * fuel + offset) (some_found : ∃ e ∈ es, found e) :
    (processDirEntry fs di flags func fuel offset buf priv changed).abort = true := by
  induction es generalizing fuel offset changed with
  | nil => simp at some_found
  | cons e es ih =>
    have ge := chain.2.1.ge
    have room := chain.next_le
    obtain ⟨fuel, rfl⟩ : ∃ n, fuel = n + 1 := ⟨fuel - 1, by omega⟩
    by_cases first : found e
    · obtain ⟨visit, abort⟩ := stops offset e es chain first
      exact processDirEntry_first chain size fuel priv changed visit abort
    · have rest : ∃ e ∈ es, found e := by
        obtain ⟨x, mem, hx⟩ := some_found
        rcases List.mem_cons.mp mem with rfl | mem
        · exact absurd hx first
        · exact ⟨x, mem, hx⟩
      rw [processDirEntry, if_pos (by omega), badEntry_eq_false chain size, if_neg (by simp)]
      split
      next =>
        rw [nextOffset_eq plain, chain.recLen_eq]
        exact ih _ _ _ chain.2.2 (by omega) rest
      next =>
        cases abort : (func buf offset priv).abort with
        | true => simp only [abort, if_true]
        | false =>
          obtain ⟨same, data⟩ := stay offset abort
          simp only [abort, Bool.false_eq_true, if_false]
          rw [same, data, nextOffset_eq plain, chain.recLen_eq]
          exact ih _ _ _ chain.2.2 (by omega) rest

end Walk

end Ocfs2.Dir
