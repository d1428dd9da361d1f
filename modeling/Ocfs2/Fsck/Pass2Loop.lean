import Ocfs2.Fsck.Pass2Checks

set_option autoImplicit false

namespace Ocfs2.Pass2

open ByteBuffer Dir StepLoop

section Shift

variable {buf after : Buffer} {dirent left : Nat}

structure Shifted (after before : Buffer) (dirent left : Nat) : Prop where
  length : after.length = before.length
  moved : ∀ p, dirent ≤ p → p + 22 ≤ dirent + left → recLen after p = recLen before (p + 12)
  cleared : 24 ≤ left → recLen before (dirent + 12) = 12 → ∀ p, dirent + left ≤ p + 20 → p + 10 ≤ dirent + left →
    recLen after p = 0
  short : left < 24 → recLen after dirent = 0

theorem recLen_eq_of_bytes {a b : Buffer} {p q : Nat} (same : ∀ k < 2, a[p + 8 + k]? = b[q + 8 + k]?) :
    recLen a p = recLen b q := by
  rw [recLen, recLen]
  congr 1
  apply List.ext_getElem?
  intro k
  rw [getElem?_slice, getElem?_slice]
  split
  next inside => exact same k inside
  next => rfl

theorem recLen_eq_zero {buf : Buffer} {p : Nat} (low : buf[p + 8]? = some 0) (high : buf[p + 9]? = some 0) :
    recLen buf p = 0 := by
  have bytes : slice buf (p + 8) 2 = [0, 0] := by
    apply List.ext_getElem?
    intro k
    rw [getElem?_slice]
    match k with
    | 0 => simpa using low
    | 1 => simpa [Nat.add_assoc] using high
    | k + 2 => simp
  rw [recLen, bytes]
  rfl

theorem shift_shifted (inside : dirent + left ≤ buf.length) (wide : 16 ≤ left) (aligned : left % 4 = 0)
    (twelve : recLen buf dirent = 12) (ok : shift buf dirent left = some after) :
    Shifted after buf dirent left := by
  rw [shift] at ok
  simp only [twelve] at ok
  have piece : (slice buf (dirent + 12) (left - 12)).length = left - 12 := length_slice _ _ _ (by omega)
  have fits : dirent + (slice buf (dirent + 12) (left - 12)).length ≤ buf.length := by omega
  have same := length_splice buf dirent _ fits
  have byte (k : Nat) := getElem?_splice buf dirent _ k fits
  generalize splice buf dirent (slice buf (dirent + 12) (left - 12)) = mid at same byte ok
  have moved (k : Nat) (lower : dirent ≤ k) (upper : k < dirent + left - 12) : mid[k]? = buf[k + 12]? := by
    rw [byte, if_pos (by omega), getElem?_slice, if_pos (by omega)]
    congr 1
    omega
  have front (long : 24 ≤ left) : recLen mid dirent = recLen buf (dirent + 12) := by
    refine recLen_eq_of_bytes fun k few => ?_
    rw [moved _ (by omega) (by omega)]
    congr 1
    omega
  have tail (few : left < 24) : recLen mid dirent = 12 := by
    refine (recLen_eq_of_bytes fun k _ => ?_).trans twelve
    rw [byte, if_neg (by omega)]
  split at ok
  next enough =>
    obtain rfl := Option.some.inj ok
    have zeros : dirent + (left - 12) + (List.replicate (recLen mid dirent) (0 : Byte)).length ≤ mid.length := by
      rw [List.length_replicate]
      omega
    have byte (k : Nat) : (splice mid (dirent + (left - 12)) (List.replicate (recLen mid dirent) 0))[k]? =
        if dirent + (left - 12) ≤ k ∧ k < dirent + (left - 12) + recLen mid dirent then some 0 else mid[k]? := by
      rw [getElem?_splice _ _ _ _ zeros, List.length_replicate]
      split
      · rw [List.getElem?_replicate, if_pos (by omega)]
      · rfl
    refine ⟨(length_splice _ _ _ zeros).trans same, ?_, ?_, ?_⟩
    · intro p lower upper
      refine recLen_eq_of_bytes fun k few => ?_
      rw [byte, if_neg (by omega), moved _ (by omega) (by omega)]
      congr 1
      omega
    · intro long next p lower upper
      exact recLen_eq_zero (by rw [byte, if_pos (by omega)]) (by rw [byte, if_pos (by omega)])
    · intro few
      exact recLen_eq_zero (by rw [byte, if_pos (by omega)]) (by rw [byte, if_pos (by omega)])
  next => cases ok

theorem Shifted.nearer (shifted : Shifted after buf dirent left) (wide : 16 ≤ left) (aligned : left % 4 = 0)
    (twelve : recLen buf dirent = 12) {bound : Nat}
    (other : ∃ j ≤ bound + 1, recLen buf (dirent + 12 * j) ≠ 12) (again : recLen after dirent = 12) :
    ∃ j ≤ bound, recLen after (dirent + 12 * j) ≠ 12 := by
  have long : 24 ≤ left := by
    by_contra few
    have := shifted.short (by omega)
    omega
  have next : recLen buf (dirent + 12) = 12 := (shifted.moved dirent le_rfl (by omega)) ▸ again
  obtain ⟨j, upper, different⟩ := other
  cases j with
  | zero => exact absurd twelve different
  | succ j =>
    by_cases inside : 12 * j + 22 ≤ left
    · refine ⟨j, by omega, ?_⟩
      rw [shifted.moved _ (by omega) (by omega)]
      exact different
    · -- the place at the end of the block, which the shift has cleared
      refine ⟨(left - 10) / 12, by omega, ?_⟩
      rw [shifted.cleared long next _ (by omega) (by omega)]
      omega

end Shift

section Settle

variable {buf after : Buffer} {dirent left : Nat}

theorem fixDirentLengths_settles (room : dirent + 12 ≤ buf.length) (small : left < 32768) (wide : 16 ≤ left)
    (aligned : left % 4 = 0) (other : recLen buf dirent ≠ 12) (ok : fixDirentLengths buf dirent left = some after) :
    after.length = buf.length ∧ (Sound after dirent left ∨
      fixDirentLengths after dirent left = some (wipe after dirent left)) := by
  have wiped := wipe_sound room small wide aligned
  have same := (wipe_header room small).length
  by_cases bad : recLen buf dirent < 12 ∨ left < recLen buf dirent ∨ left < nameLen buf dirent
  · rw [fixDirentLengths] at ok
    simp only [if_pos bad] at ok
    exact Option.some.inj ok ▸ ⟨same, Or.inl wiped⟩
  by_cases rounded : dirRecLen (nameLen buf dirent) ≠ recLen buf dirent ∧
      dirRecLen (nameLen buf dirent) = dirRecLen (recLen buf dirent)
  · rw [fixDirentLengths] at ok
    simp only [if_neg bad, if_neg other, if_pos rounded] at ok
    obtain rfl := Option.some.inj ok
    have name := dirRecLen_nameLen_lt buf dirent
    have longer := dirRecLen_ge (recLen buf dirent)
    have multiple := dirRecLen_mod (nameLen buf dirent)
    have short := dirRecLen_le (recLen buf dirent)
    have set := setRecLen_header room (show dirRecLen (nameLen buf dirent) < 65536 by omega)
    have padded := padPartial_header (set.length ▸ room)
      (show (left : Int) - dirRecLen (nameLen buf dirent) < 32768 by omega) (by rw [set.recLen]; omega)
    refine ⟨padded.length.trans set.length, ?_⟩
    rw [set.nameLen] at padded
    by_cases partially : direntLeavesPartial (setRecLen buf dirent (dirRecLen (nameLen buf dirent))) dirent
        (left - dirRecLen (nameLen buf dirent)) = true
    · -- the record takes the rest of the block
      rw [if_pos partially, set.recLen] at padded
      have rec_len := padded.recLen
      rw [direntLeavesPartial, set.recLen, decide_eq_true_eq] at partially
      refine Or.inl ⟨by omega, by omega, ?_, by omega⟩
      rw [padded.nameLen, padded.recLen]
      omega
    · rw [if_neg partially, set.recLen] at padded
      generalize padPartial (setRecLen buf dirent (dirRecLen (nameLen buf dirent))) dirent
        (left - dirRecLen (nameLen buf dirent)) = after at padded
      have rec_len := padded.recLen
      have name_len := padded.nameLen
      by_cases rest : recLen after dirent = left ∨ recLen after dirent + 12 ≤ left
      · exact Or.inl ⟨by omega, by omega, by rw [rec_len, name_len], rest⟩
      · refine Or.inr ?_
        rw [fixDirentLengths]
        by_cases beyond : recLen after dirent < 12 ∨ left < recLen after dirent ∨ left < nameLen after dirent
        · rw [if_pos beyond]
        · have gap : direntLeavesPartial after dirent left = true := direntLeavesPartial_iff.mpr (by omega)
          rw [if_neg beyond, if_neg (by omega), if_neg (by rw [rec_len, name_len]; simp),
            if_neg (by simp [gap])]
  · by_cases kept : recLen buf dirent % 4 = 0 ∧ ¬ direntLeavesPartial buf dirent left = true
    · have trusted : Trusted buf dirent left := ⟨by omega, by omega, by omega, rounded, kept.1, kept.2⟩
      have rest := mt direntLeavesPartial_iff.mpr kept.2
      rw [fixDirentLengths_trusted trusted] at ok
      obtain rfl := Option.some.inj ok
      have header := fixDirentLengths_trusted_header room small trusted
      refine ⟨header.length, Or.inl ?_⟩
      have rec_len := header.recLen
      have least : dirRecLen 0 = 12 := rfl
      split at rec_len
      · exact ⟨by omega, by omega, by rw [header.nameLen]; omega, by omega⟩
      · exact ⟨by omega, by omega, by rw [header.nameLen]; omega, by omega⟩
    · rw [fixDirentLengths] at ok
      simp only [if_neg bad, if_neg other, if_neg rounded, if_neg kept] at ok
      exact Option.some.inj ok ▸ ⟨same, Or.inl wiped⟩

theorem fixDirentLengths_shift (inside : dirent + left ≤ buf.length) (small : left < 32768) (wide : 16 ≤ left)
    (aligned : left % 4 = 0) (twelve : recLen buf dirent = 12) (name : nameLen buf dirent ≤ left)
    (ok : fixDirentLengths buf dirent left = some after) :
    after.length = buf.length ∧ (recLen after dirent = 12 → Shifted after buf dirent left) := by
  rw [fixDirentLengths] at ok
  rw [if_neg (by omega), if_pos twelve, Option.map_eq_some_iff] at ok
  obtain ⟨mid, moved, rfl⟩ := ok
  have shifted := shift_shifted inside wide aligned twelve moved
  have room : dirent + 12 ≤ mid.length := by
    rw [shifted.length]
    omega
  rw [padPartial]
  by_cases partially : direntLeavesPartial mid dirent (left - recLen buf dirent) = true
  · rw [if_pos partially]
    rw [direntLeavesPartial, twelve, decide_eq_true_eq] at partially
    have header := setRecLen_header room
      (show (recLen mid dirent + ((left : Int) - recLen buf dirent)).toNat < 65536 by omega)
    refine ⟨header.length.trans shifted.length, fun again => ?_⟩
    have rec_len := header.recLen
    have short := shifted.short
    omega
  · rw [if_neg partially]
    exact ⟨shifted.length, fun _ => shifted⟩

end Settle

section Loop

variable {ctx : Context} {fin : Nat} {start s : State} {buf : Buffer} {dirent : Nat}

def Ends (ctx : Context) (fin : Nat) (s : State) : Prop := ∃ r, Stops (round ctx fin) s r

def EndsAt (ctx : Context) (fin : Nat) (start : State) (dirent : Nat) (buf : Buffer) : Prop :=
  ∀ s, Reaches (round ctx fin) start s → s.offset = dirent → s.buf = buf → Ends ctx fin s

theorem Ends.of_again {t : State} (once : round ctx fin s = .again t) (ends : Ends ctx fin t) : Ends ctx fin s :=
  ends.imp fun r stops => (stops_again once r).mpr stops

theorem Ends.of_stop {r : Except Errcode State} (last : round ctx fin s = .stop r) : Ends ctx fin s :=
  ⟨r, (stops_stop last r).mpr rfl⟩

theorem round_corrupt (inside : s.offset < fin) (room : s.offset + 12 ≤ s.buf.length)
    (corrupt : corruptDirentLengths s.buf s.offset (fin - s.offset) = true) :
    ctx.answers s.asked = false ∧ round ctx fin s = .stop (.ok { s with asked := s.asked + 1 }) ∨
    ctx.answers s.asked = true ∧
      (fixDirentLengths s.buf s.offset (fin - s.offset) = none ∧ round ctx fin s = .stop (.error .undefined) ∨
      ∃ after, fixDirentLengths s.buf s.offset (fin - s.offset) = some after ∧
        round ctx fin s = .again ({ s with asked := s.asked + 1 }.write after)) := by
  cases yes : ctx.answers s.asked with
  | false =>
    have asks : prompt ctx s = (false, { s with asked := s.asked + 1 }) := by rw [prompt, yes]
    refine Or.inl ⟨rfl, ?_⟩
    rw [round, if_neg (by omega), if_neg (by omega), if_pos corrupt, asks]
    rfl
  | true =>
    have asks : prompt ctx s = (true, { s with asked := s.asked + 1 }) := by rw [prompt, yes]
    refine Or.inr ⟨rfl, ?_⟩
    rw [round, if_neg (by omega), if_neg (by omega), if_pos corrupt, asks]
    cases fix : fixDirentLengths s.buf s.offset (fin - s.offset) with
    | none => exact Or.inl ⟨rfl, by simp only [fix, if_true]⟩
    | some after => exact Or.inr ⟨after, rfl, by simp only [fix, if_true]⟩

theorem round_sound (inside : s.offset < fin) (upper : fin ≤ s.buf.length)
    (sound : Sound s.buf s.offset (fin - s.offset)) :
    (∃ e, checkDirent ctx s = .error e ∧ round ctx fin s = .stop (.error e)) ∨
      ∃ t, checkDirent ctx s = .ok t ∧ round ctx fin s = .again { t with offset := t.offset + t.recLen } := by
  have long := sound.long
  have next_le := sound.next_le inside
  have good : corruptDirentLengths s.buf s.offset (fin - s.offset) = false := corrupt_eq_false_iff.mpr sound
  rw [round, if_neg (by omega), if_neg (by omega), good, if_neg Bool.false_ne_true]
  cases checkDirent ctx s with
  | error e => exact Or.inl ⟨e, rfl, rfl⟩
  | ok t => exact Or.inr ⟨t, rfl, rfl⟩

theorem endsAt_of_sound (inside : dirent < fin) (upper : fin ≤ buf.length) (aligned : dirent % 4 = 0)
    (sound : Sound buf dirent (fin - dirent))
    (later : ∀ next, dirent < next → next % 4 = 0 → ∀ after : Buffer, after.length = buf.length →
      EndsAt ctx fin start next after) :
    EndsAt ctx fin start dirent buf := by
  rintro s reach rfl rfl
  rcases @round_sound ctx fin s inside upper sound with ⟨e, -, once⟩ | ⟨t, checked, once⟩
  · exact Ends.of_stop once
  · have long := sound.long
    have next_le := sound.next_le inside
    have steady := steady_checkDirent (by omega) checked
    have offset := steady.offset
    have same : s.recLen = recLen s.buf s.offset := rfl
    have whole := sound.aligned
    have progress : 12 ≤ t.recLen ∧ t.recLen % 4 = 0 := by
      rcases steady.recLen with kept | ⟨n, named⟩
      · omega
      · have := dirRecLen_ge n
        have := dirRecLen_mod n
        omega
    exact Ends.of_again once (later (t.offset + t.recLen) (by omega) (by omega) _ steady.length _
      (reach.trans (Reaches.single once)) rfl rfl)

section Wide

variable (inside : dirent + 16 ≤ fin) (upper : fin ≤ buf.length) (aligned : dirent % 4 = 0)
  (later : ∀ next, dirent < next → next % 4 = 0 → ∀ after : Buffer, after.length = buf.length →
    EndsAt ctx fin start next after)

include inside upper aligned later

theorem endsAt_of_fix
    (fixed : ∀ after, fixDirentLengths buf dirent (fin - dirent) = some after → EndsAt ctx fin start dirent after) :
    EndsAt ctx fin start dirent buf := by
  cases corrupt : corruptDirentLengths buf dirent (fin - dirent) with
  | false => exact endsAt_of_sound (by omega) upper aligned (corrupt_eq_false_iff.mp corrupt) later
  | true =>
    rintro s reach rfl rfl
    rcases @round_corrupt ctx fin s (by omega) (by omega) corrupt with ⟨-, once⟩ | ⟨-, ⟨-, once⟩ | ⟨after, fix, once⟩⟩
    · exact Ends.of_stop once
    · exact Ends.of_stop once
    · exact Ends.of_again once (fixed after fix _ (reach.trans (Reaches.single once)) rfl rfl)

variable (small : fin < 32768) (multiple : fin % 4 = 0)

include small multiple

theorem endsAt_of_wipe (wipes : fixDirentLengths buf dirent (fin - dirent) = some (wipe buf dirent (fin - dirent))) :
    EndsAt ctx fin start dirent buf := by
  refine endsAt_of_fix inside upper aligned later fun after fixed => ?_
  obtain rfl := Option.some.inj (wipes.symm.trans fixed)
  have room : dirent + 12 ≤ buf.length := by omega
  have same := (wipe_header room (show fin - dirent < 32768 by omega)).length
  exact endsAt_of_sound (by omega) (by omega) aligned (wipe_sound room (by omega) (by omega) (by omega)) (same ▸ later)

theorem endsAt_of_chain (bound : Nat) (other : ∃ j ≤ bound, recLen buf (dirent + 12 * j) ≠ 12) :
    EndsAt ctx fin start dirent buf := by
  induction bound generalizing buf with
  | zero =>
    obtain ⟨j, first, different⟩ := other
    obtain rfl : j = 0 := by omega
    refine endsAt_of_fix inside upper aligned later fun after fixed => ?_
    obtain ⟨same, good | wipes⟩ := fixDirentLengths_settles (by omega) (by omega) (by omega) (by omega) different fixed
    · exact endsAt_of_sound (by omega) (by omega) aligned good (same ▸ later)
    · exact endsAt_of_wipe inside (by omega) aligned (same ▸ later) small multiple wipes
  | succ bound ih =>
    by_cases twelve : recLen buf dirent = 12
    · by_cases name : nameLen buf dirent ≤ fin - dirent
      · refine endsAt_of_fix inside upper aligned later fun after fixed => ?_
        obtain ⟨same, again⟩ := fixDirentLengths_shift (by omega) (by omega) (by omega) (by omega) twelve name fixed
        refine ih (by omega) (same ▸ later) ?_
        by_cases repeated : recLen after dirent = 12
        · exact (again repeated).nearer (by omega) (by omega) twelve other repeated
        · exact ⟨0, by omega, repeated⟩
      · refine endsAt_of_wipe inside upper aligned later small multiple ?_
        exact if_pos (by omega)
    · exact ih upper later ⟨0, by omega, twelve⟩

end Wide

theorem corrupt_narrow {left : Nat} (narrow : left < 16) : corruptDirentLengths buf dirent left = true :=
  corrupt_iff.mpr fun sound => by
    have := sound.long
    have := sound.rest
    omega

theorem round_narrow (inside : s.offset < fin) (narrow : fin < s.offset + 16) :
    (∃ r, round ctx fin s = .stop r ∧ (ctx.answers s.asked = true → r = .error .undefined)) ∨
      ctx.answers s.asked = true ∧ ∃ after, round ctx fin s = .again ({ s with asked := s.asked + 1 }.write after) := by
  by_cases room : s.offset + 12 ≤ s.buf.length
  · rcases @round_corrupt ctx fin s inside room (corrupt_narrow (by omega)) with
      ⟨no, once⟩ | ⟨yes, ⟨-, once⟩ | ⟨after, -, once⟩⟩
    · exact Or.inl ⟨_, once, by simp [no]⟩
    · exact Or.inl ⟨_, once, fun _ => rfl⟩
    · exact Or.inr ⟨yes, after, once⟩
  · refine Or.inl ⟨.error .undefined, ?_, fun _ => rfl⟩
    rw [round, if_neg (by omega), if_pos (by omega)]

theorem ends_narrow (inside : s.offset < fin) (narrow : fin < s.offset + 16)
    (no : ∃ n, s.asked ≤ n ∧ ctx.answers n = false) : Ends ctx fin s := by
  obtain ⟨n, later, no⟩ := no
  induction more : n - s.asked generalizing s with
  | zero =>
    obtain rfl : n = s.asked := by omega
    rcases @round_narrow ctx fin s inside narrow with ⟨r, once, -⟩ | ⟨yes, -⟩
    · exact Ends.of_stop once
    · rw [no] at yes
      cases yes
  | succ k ih =>
    rcases @round_narrow ctx fin s inside narrow with ⟨r, once, -⟩ | ⟨-, after, once⟩
    · exact Ends.of_stop once
    · exact Ends.of_again once
        (ih inside narrow (show s.asked + 1 ≤ n by omega) (show n - (s.asked + 1) = k by omega))

/-- The loop never comes to the last few bytes of the block with nothing but yes to follow, and never out of
the block. -/
def NeverStuck (ctx : Context) (fin : Nat) (start : State) : Prop :=
  ∀ s, Reaches (round ctx fin) start s → round ctx fin s ≠ .stop (.error .undefined) ∧
    (s.offset < fin → fin < s.offset + 16 → ∃ n, s.asked ≤ n ∧ ctx.answers n = false)

theorem endsAt_of_neverStuck (free : NeverStuck ctx fin start) (small : fin < 32768) (multiple : fin % 4 = 0) :
    ∀ (dirent : Nat) (buf : Buffer), dirent % 4 = 0 → fin ≤ buf.length → EndsAt ctx fin start dirent buf := by
  intro dirent
  induction rest : fin - dirent using Nat.strong_induction_on generalizing dirent with
  | _ rest ih =>
    intro buf aligned upper
    by_cases done : fin ≤ dirent
    · rintro s - rfl rfl
      exact Ends.of_stop (show round ctx fin s = .stop (.ok s) by rw [round, if_pos done])
    by_cases narrow : fin < dirent + 16
    · rintro s reach rfl rfl
      exact ends_narrow (by omega) narrow ((free s reach).2 (by omega) narrow)
    · have later : ∀ next, dirent < next → next % 4 = 0 → ∀ after : Buffer, after.length = buf.length →
          EndsAt ctx fin start next after :=
        fun next behind whole after same => ih (fin - next) (by omega) next rfl after whole (by omega)
      -- behind the block every length is zero
      have beyond : recLen buf (dirent + 12 * buf.length) ≠ 12 := by
        have nothing : slice buf (dirent + 12 * buf.length + 8) 2 = [] := by
          rw [slice, List.drop_eq_nil_of_le (by omega), List.take_nil]
        rw [recLen, nothing, leValue]
        omega
      exact endsAt_of_chain (by omega) upper aligned later small multiple buf.length ⟨_, le_rfl, beyond⟩

structure Held (ctx : Context) (fin : Nat) (s : State) : Prop where
  inside : s.offset < fin
  narrow : fin < s.offset + 16
  yes : ∀ n, s.asked ≤ n → ctx.answers n = true

theorem Held.round (held : Held ctx fin s) :
    (∃ t, Pass2.round ctx fin s = .again t ∧ Held ctx fin t) ∨
      ∃ r, Pass2.round ctx fin s = .stop r ∧ r = .error .undefined := by
  rcases round_narrow held.inside held.narrow with ⟨r, once, bad⟩ | ⟨-, after, once⟩
  · exact Or.inr ⟨r, once, bad (held.yes _ le_rfl)⟩
  · exact Or.inl ⟨_, once, held.inside, held.narrow, fun n later => held.yes n (Nat.le_of_succ_le later)⟩

theorem neverStuck_of_repairEnds (ends : RepairEnds ctx fin start) : NeverStuck ctx fin start := by
  obtain ⟨r, stops, defined⟩ := ends
  intro s reach
  have here := (reach.stops r).mp stops
  refine ⟨fun last => defined ((stops_stop last r).mp here).symm, fun inside narrow => ?_⟩
  by_contra never
  have held : Held ctx fin s := by
    refine ⟨inside, narrow, fun n later => ?_⟩
    cases answer : ctx.answers n
    · exact absurd ⟨n, later, answer⟩ never
    · rfl
  exact defined (@stops_bad_of_invariant _ _ (round ctx fin) (Held ctx fin) (· = .error .undefined)
    (fun _ held => held.round) s held r here)

theorem repair_ends_iff (block : InBlock ctx fin start) : RepairEnds ctx fin start ↔ NeverStuck ctx fin start := by
  constructor
  · exact neverStuck_of_repairEnds
  · intro free
    obtain ⟨upper, size, multiple⟩ := block.sizes
    obtain ⟨r, stops⟩ := endsAt_of_neverStuck free (by omega) multiple start.offset start.buf block.aligned upper
      start (Reaches.refl start) rfl rfl
    refine ⟨r, stops, fun undefined => ?_⟩
    obtain ⟨t, reach, last⟩ := stops.last
    exact (free t reach).1 (undefined ▸ last)

end Loop

section Runs

def freeRecord (low high : Byte) : Buffer := splice (List.replicate 512 0) 8 [low, high]

theorem round_free {buf : Buffer} (length : buf.length = 512) (sound : corruptDirentLengths buf 0 512 = false)
    (free : inode buf 0 = 0) :
    round secondBlock 512 (atStart buf) = .again { atStart buf with offset := 0 + recLen buf 0 } := by
  have dots : fixDirentDots secondBlock (atStart buf) = .ok (atStart buf) := if_pos ⟨rfl, Or.inl free⟩
  have checked : checkDirent secondBlock (atStart buf) = .ok (atStart buf) := by
    rw [checkDirent, runChecks, dots]
    exact if_pos free
  rcases @round_sound secondBlock 512 (atStart buf) (Nat.zero_lt_succ _) length.ge (corrupt_eq_false_iff.mp sound) with
    ⟨e, failed, -⟩ | ⟨t, ok, once⟩
  · rw [checked] at failed
    cases failed
  · obtain rfl := Except.ok.inj (checked.symm.trans ok)
    exact once

/-- Five hundred bytes of a good record, and twelve more. -/
theorem tail_of_twelve_never_ends : ¬ Ends secondBlock 512 (atStart (freeRecord 0xf4 1)) ∧
    ¬ RepairEnds secondBlock 512 (atStart (freeRecord 0xf4 1)) := by
  have never : ¬ Ends secondBlock 512 (atStart (freeRecord 0xf4 1)) := by
    rintro ⟨r, stops⟩
    rw [stops_again (round_free (by decide +kernel) (by decide +kernel) (by decide +kernel))] at stops
    -- the repairs go between the block with no length there and the one with a length of twelve
    refine @never_stops _ _ _ (fun s => s.offset = 500 ∧ s.buf.length = 512 ∧
      (s.buf = freeRecord 0xf4 1 ∨ s.buf = setRecLen (freeRecord 0xf4 1) 500 12)) ?_ _ ?_ r stops
    · rintro s ⟨offset, length, block⟩
      have fixed : ∃ after, fixDirentLengths s.buf 500 12 = some after ∧ after.length = 512 ∧
          (after = freeRecord 0xf4 1 ∨ after = setRecLen (freeRecord 0xf4 1) 500 12) := by
        rcases block with block | block
        · exact ⟨setRecLen (freeRecord 0xf4 1) 500 12, by rw [block]; decide +kernel, by decide +kernel, Or.inr rfl⟩
        · exact ⟨freeRecord 0xf4 1, by rw [block]; decide +kernel, by decide +kernel, Or.inl rfl⟩
      obtain ⟨after, fixed, both⟩ := fixed
      refine ⟨{ s with asked := s.asked + 1 }.write after, ?_, offset, both⟩
      rw [round, if_neg (by omega), if_neg (by omega), if_pos (corrupt_narrow (by omega))]
      simp only [prompt, secondBlock, if_true, offset, fixed]
    · exact ⟨by decide +kernel, by decide +kernel, Or.inl rfl⟩
  exact ⟨never, fun ends => never (ends.imp fun _ both => both.1)⟩

theorem one_record_never_stuck : RepairEnds secondBlock 512 (atStart (freeRecord 0 2)) ∧
    NeverStuck secondBlock 512 (atStart (freeRecord 0 2)) := by
  have ends : RepairEnds secondBlock 512 (atStart (freeRecord 0 2)) := by
    refine ⟨.ok { atStart (freeRecord 0 2) with offset := 0 + recLen (freeRecord 0 2) 0 }, ?_, by simp⟩
    rw [stops_again (round_free (by decide +kernel) (by decide +kernel) (by decide +kernel)), stops_stop]
    rw [round, if_pos (by decide +kernel)]
  exact ⟨ends, (repair_ends_iff (inBlock_secondBlock _ (by decide +kernel))).mp ends⟩

end Runs

end Ocfs2.Pass2
