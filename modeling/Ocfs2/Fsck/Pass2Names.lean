import Ocfs2.Fsck.Pass2Checks

set_option autoImplicit false

namespace Ocfs2.Pass2

open ByteBuffer Dir

section CString

variable {a b : Buffer}

theorem cString_append_zero (a b : Buffer) : cString (a ++ 0 :: b) = cString a := by
  induction a with
  | nil => rfl
  | cons x a ih =>
    simp only [cString, List.cons_append, List.takeWhile_cons] at ih ⊢
    rw [ih]

theorem cString_append_of_mem (zero : 0 ∈ a) : cString (a ++ b) = cString a := by
  obtain ⟨front, back, rfl⟩ := List.append_of_mem zero
  rw [List.append_assoc, List.cons_append, cString_append_zero, cString_append_zero]

theorem cString_of_not_mem (none : 0 ∉ a) : cString a = a := by
  have whole : (a ++ []).takeWhile (· != 0) = a ++ [] :=
    List.takeWhile_append_of_pos fun _ mem => bne_iff_ne.mpr fun zero => none (zero ▸ mem)
  rwa [List.append_nil] at whole

end CString

section Mangle

def candidate (name : Buffer) (k : Nat) : Buffer := cString (name ++ List.replicate k 0x5f)

variable {strings : List Buffer} {name new : Buffer}

theorem candidate_of_mem (zero : 0 ∈ name) (k : Nat) : candidate name k = cString name :=
  cString_append_of_mem zero

theorem candidate_of_not_mem (none : 0 ∉ name) (k : Nat) : candidate name k = name ++ List.replicate k 0x5f := by
  refine cString_of_not_mem fun mem => ?_
  rcases List.mem_append.mp mem with inName | behind
  · exact none inName
  · exact absurd (List.eq_of_mem_replicate behind) (by decide)

theorem length_candidate_le {j k : Nat} (le : j ≤ k) : (candidate name j).length ≤ (candidate name k).length := by
  by_cases zero : 0 ∈ name
  · rw [candidate_of_mem zero, candidate_of_mem zero]
  · rw [candidate_of_not_mem zero, candidate_of_not_mem zero]
    simpa using le

theorem set_behind (name : Buffer) (i m : Nat) :
    (name ++ List.replicate i 0x5f ++ List.replicate (m + 1) (0 : Byte)).set (name.length + i) 0x5f =
      name ++ List.replicate (i + 1) 0x5f ++ List.replicate m 0 := by
  have first : name.length + i - (name ++ List.replicate i (0x5f : Byte)).length = 0 := by simp
  have more : List.replicate (i + 1) (0x5f : Byte) = List.replicate i 0x5f ++ [0x5f] := List.replicate_succ'
  have zeros : List.replicate (m + 1) (0 : Byte) = 0 :: List.replicate m 0 := List.replicate_succ
  rw [List.set_append_right _ _ (by simp), first, zeros, List.set_cons_zero, more]
  simp only [List.append_assoc, List.singleton_append]

theorem tryNames_behind {rest : List Nat} (m : Nat) : ∀ i,
    tryNames strings (List.range' (name.length + i) m ++ rest)
      (name ++ List.replicate i 0x5f ++ List.replicate (m + 1) 0) = some new →
    (∃ k, i < k ∧ k ≤ i + m ∧ new = candidate name k ∧ candidate name k ∉ strings ∧
      ∀ j, i < j → j < k → candidate name j ∈ strings) ∨
    (∀ k, i < k → k ≤ i + m → candidate name k ∈ strings) ∧
      tryNames strings rest (name ++ List.replicate (i + m) 0x5f ++ [0]) = some new := by
  induction m with
  | zero =>
    intro i found
    exact Or.inr ⟨fun k lower upper => by omega, found⟩
  | succ m ih =>
    intro i found
    have string : cString (name ++ List.replicate (i + 1) 0x5f ++ List.replicate (m + 1) 0) =
        candidate name (i + 1) := by
      have zeros : List.replicate (m + 1) (0 : Byte) = 0 :: List.replicate m 0 := List.replicate_succ
      rw [zeros, cString_append_zero, candidate]
    rw [List.range'_succ, List.cons_append, tryNames, set_behind, string] at found
    by_cases seen : strings.contains (candidate name (i + 1)) = true
    · rw [if_pos seen] at found
      have used (j : Nat) (after : i < j) (earlier : i + 1 < j → candidate name j ∈ strings) :
          candidate name j ∈ strings := by
        rcases Nat.eq_or_lt_of_le after with rfl | later
        · exact List.contains_iff_mem.mp seen
        · exact earlier later
      rcases ih (i + 1) found with ⟨k, lower, upper, eq, unused, before⟩ | ⟨all, next⟩
      · exact Or.inl ⟨k, by omega, by omega, eq, unused, fun j after earlier => used j after (before j · earlier)⟩
      · rw [show i + (m + 1) = i + 1 + m by omega]
        exact Or.inr ⟨fun k after last => used k after (all k · last), next⟩
    · rw [if_neg seen] at found
      have unused : candidate name (i + 1) ∉ strings := fun mem => seen (List.contains_iff_mem.mpr mem)
      exact Or.inl ⟨i + 1, by omega, by omega, (Option.some.inj found).symm, unused, fun j _ _ => by omega⟩

theorem tryNames_inside {rec_len : Nat} (long : name.length ≤ rec_len) : ∀ j ≤ name.length,
    tryNames strings (List.range j).reverse
      (name.take j ++ List.replicate (rec_len - j) 0x5f ++ [0]) = some new →
    new ∉ strings ∧ ∃ i < j, new = candidate (name.take i) (rec_len - i) := by
  intro j
  induction j with
  | zero =>
    intro _ found
    simp [tryNames] at found
  | succ j ih =>
    intro upper found
    have set : (name.take (j + 1) ++ List.replicate (rec_len - (j + 1)) 0x5f ++ [0]).set j 0x5f =
        name.take j ++ List.replicate (rec_len - j) (0x5f : Byte) ++ [0] := by
      have split : name.take (j + 1) = name.take j ++ [name[j]] := (List.take_append_getElem _).symm
      rw [split, List.append_assoc, List.append_assoc, List.set_append_right _ _ (by simp)]
      rw [show rec_len - j = rec_len - (j + 1) + 1 by omega, List.replicate_succ]
      simp [Nat.min_eq_left (show j ≤ name.length by omega)]
    rw [List.range_succ, List.reverse_append, List.reverse_singleton, List.singleton_append, tryNames, set,
      cString_append_zero] at found
    by_cases seen : strings.contains (cString (name.take j ++ List.replicate (rec_len - j) 0x5f)) = true
    · rw [if_pos seen] at found
      obtain ⟨unused, i, lower, eq⟩ := ih (by omega) found
      exact ⟨unused, i, by omega, eq⟩
    · rw [if_neg seen] at found
      obtain rfl := Option.some.inj found
      exact ⟨fun mem => seen (List.contains_iff_mem.mpr mem), j, by omega, rfl⟩

theorem mangle_cases {rec_len : Nat} (long : name.length < rec_len) (found : mangle strings name rec_len = some new) :
    new ∉ strings ∧
      ((∃ k, 0 < k ∧ k ≤ rec_len - name.length ∧ new = candidate name k ∧
          ∀ j, 0 < j → j < k → candidate name j ∈ strings) ∨
        (∀ k, 0 < k → k ≤ rec_len - name.length → candidate name k ∈ strings) ∧ new.length = rec_len) := by
  rw [mangle, show rec_len + 1 - name.length = rec_len - name.length + 1 by omega] at found
  have start : tryNames strings (List.range' (name.length + 0) (rec_len - name.length) ++
      (List.range name.length).reverse)
      (name ++ List.replicate 0 0x5f ++ List.replicate (rec_len - name.length + 1) 0) = some new := by
    simpa using found
  rcases tryNames_behind _ _ start with ⟨k, lower, upper, rfl, unused, before⟩ | ⟨all, later⟩
  · exact ⟨unused, Or.inl ⟨k, lower, by omega, rfl, before⟩⟩
  · rw [Nat.zero_add] at later all
    have whole : tryNames strings (List.range name.length).reverse
        (name.take name.length ++ List.replicate (rec_len - name.length) 0x5f ++ [0]) = some new := by
      rw [List.take_length]
      exact later
    obtain ⟨unused, i, inside, eq⟩ := tryNames_inside (Nat.le_of_lt long) name.length le_rfl whole
    refine ⟨unused, Or.inr ⟨all, ?_⟩⟩
    by_cases zero : 0 ∈ name.take i
    · -- the string still ends where that of the name does
      have inside : 0 ∈ name := List.mem_of_mem_take zero
      have same : cString name = cString (name.take i) := by
        conv_lhs => rw [← List.take_append_drop i name]
        exact cString_append_of_mem zero
      rw [eq, candidate_of_mem zero, ← same, ← candidate_of_mem inside 1] at unused
      exact absurd (all 1 (by omega) (by omega)) unused
    · rw [eq, candidate_of_not_mem zero, List.length_append, List.length_take, List.length_replicate]
      omega

end Mangle

section Rename

variable {ctx : Context} {s : State} {new : Buffer}

def State.name (s : State) : Buffer := Dir.name s.buf s.offset s.nameLen

structure AtEntry (s : State) : Prop where
  fits : (readDirent s.buf s.offset).Fits
  inside : s.offset + s.recLen ≤ s.buf.length

structure Renames (ctx : Context) (s : State) (new : Buffer) : Prop where
  kept : s.s_allocated ≤ maxStrings
  seen : s.name ∈ s.strings
  found : mangle s.strings s.name s.recLen = some new
  yes : ctx.answers s.asked = true

def RenamedWell (ctx : Context) (s : State) (new : Buffer) : Prop :=
  new ∉ s.strings ∧ new.length ≤ 255 ∧ dirRecLen new.length ≤ s.recLen ∧
    ∃ t, fixDirentDups ctx s = .ok t ∧ t.offset = s.offset ∧ t.recLen = s.recLen ∧ t.name = new ∧
      Within t.buf s.buf s.offset (s.offset + s.recLen)

def FreeName (s : State) : Prop :=
  ∃ k, 0 < k ∧ candidate s.name k ∉ s.strings ∧ (candidate s.name k).length ≤ 255 ∧
    dirRecLen (candidate s.name k).length ≤ s.recLen

theorem fixDirentDups_eq (renames : Renames ctx s new) :
    fixDirentDups ctx s = rename new (stringsInsert new { s with asked := s.asked + 1 }) := by
  have seen : (!s.strings.contains (name s.buf s.offset s.nameLen)) ≠ true := by
    have mem : s.strings.contains (name s.buf s.offset s.nameLen) = true := List.contains_iff_mem.mpr renames.seen
    rw [mem]
    decide
  have found : mangle s.strings (name s.buf s.offset s.nameLen) s.recLen = some new := renames.found
  have asks : prompt ctx s = (true, { s with asked := s.asked + 1 }) := by rw [prompt, renames.yes]
  rw [fixDirentDups, if_neg (Nat.not_lt.mpr renames.kept)]
  simp only [if_neg seen, found, asks, if_true]

theorem stringsInsert_buf (string : Buffer) (s : State) :
    (stringsInsert string s).buf = s.buf ∧ (stringsInsert string s).offset = s.offset := by
  rw [stringsInsert]
  split <;> exact ⟨rfl, rfl⟩

theorem rename_fits {s : State} (inside : s.offset + s.recLen ≤ s.buf.length) (short : new.length ≤ 255)
    (fits : dirRecLen new.length ≤ s.recLen) :
    ∃ t, rename new s = .ok t ∧ t.offset = s.offset ∧ t.recLen = s.recLen ∧ t.name = new ∧
      Within t.buf s.buf s.offset (s.offset + s.recLen) := by
  have long := dirRecLen_ge new.length
  have whole : new.length % 256 = new.length := Nat.mod_eq_of_lt (by omega)
  have named := setNameLen_header (show s.offset + 12 ≤ s.buf.length by omega) (show new.length < 256 by omega)
  have room : s.offset + 12 + new.length ≤ (setNameLen s.buf s.offset new.length).length := by
    rw [named.length]
    omega
  have read := readDirent_setName (setNameLen s.buf s.offset new.length) s.offset new named.nameLen room
  have within : Within (setName (setNameLen s.buf s.offset new.length) s.offset new)
      (setNameLen s.buf s.offset new.length) s.offset (s.offset + s.recLen) :=
    within_splice _ _ _ _ (by omega) (by omega) (by rw [named.length]; exact inside)
  refine ⟨s.write (setName (setNameLen s.buf s.offset new.length) s.offset new), ?_, rfl, ?_, ?_, ?_⟩
  · rw [rename, whole, if_neg (by omega), List.take_length]
  · exact (congrArg Dirent.rec_len read).trans named.recLen
  · exact congrArg Dirent.name read
  · exact within.trans (named.within.mono le_rfl (by omega))

theorem length_name (entry : AtEntry s) : s.name.length = s.nameLen := by
  have room := entry.fits.ge
  have inside := entry.inside
  have name : s.nameLen + 12 ≤ s.recLen := room
  exact length_slice _ _ _ (by omega)

theorem freeName_iff (entry : AtEntry s) (renames : Renames ctx s new) :
    FreeName s ↔ new.length ≤ 255 ∧ dirRecLen new.length ≤ s.recLen := by
  have length := length_name entry
  have name : s.nameLen + 12 ≤ s.recLen := entry.fits.ge
  obtain ⟨unused, ⟨k, positive, upper, rfl, before⟩ | ⟨all, full⟩⟩ := mangle_cases (by omega) renames.found
  · constructor
    · rintro ⟨j, some, free, short, fits⟩
      have first : k ≤ j := by
        by_contra later
        exact free (before j some (by omega))
      have shorter := @length_candidate_le s.name k j first
      have mono : dirRecLen (candidate s.name k).length ≤ dirRecLen (candidate s.name j).length := by
        rw [dirRecLen, dirRecLen]
        omega
      exact ⟨by omega, by omega⟩
    · rintro ⟨short, fits⟩
      exact ⟨k, positive, unused, short, fits⟩
  · have longer := dirRecLen_ge new.length
    constructor
    · rintro ⟨j, some, free, short, fits⟩
      exfalso
      have room := dirRecLen_ge (candidate s.name j).length
      by_cases zero : 0 ∈ s.name
      · rw [candidate_of_mem zero, ← candidate_of_mem zero 1] at free
        exact free (all 1 (by omega) (by omega))
      · refine free (all j some ?_)
        rw [candidate_of_not_mem zero, List.length_append, List.length_replicate] at room fits
        omega
    · rintro ⟨-, fits⟩
      omega

theorem renamed_well_iff (entry : AtEntry s) (renames : Renames ctx s new) :
    RenamedWell ctx s new ↔ FreeName s := by
  rw [freeName_iff entry renames]
  constructor
  · rintro ⟨-, short, fits, -⟩
    exact ⟨short, fits⟩
  · rintro ⟨short, fits⟩
    have length := length_name entry
    have name : s.nameLen + 12 ≤ s.recLen := entry.fits.ge
    obtain ⟨unused, -⟩ := mangle_cases (by omega) renames.found
    obtain ⟨buf, offset⟩ := stringsInsert_buf new { s with asked := s.asked + 1 }
    have recLen : (stringsInsert new { s with asked := s.asked + 1 }).recLen = s.recLen := by
      rw [State.recLen, State.recLen, buf, offset]
    obtain ⟨t, ok, place, same, named, within⟩ :=
      @rename_fits new (stringsInsert new { s with asked := s.asked + 1 })
        (by rw [recLen, buf, offset]; exact entry.inside) short (by rw [recLen]; exact fits)
    refine ⟨unused, short, fits, t, (fixDirentDups_eq renames).trans ok, place.trans offset,
      same.trans recLen, named, ?_⟩
    rw [buf, offset, recLen] at within
    exact within

def twoEntries (len : Byte) (chars : Buffer) : Buffer :=
  splice (splice (List.replicate 512 0) 0 ([9, 0, 0, 0, 0, 0, 0, 0, 16, 0, len, 1] ++ chars)) 16
    [5, 0, 0, 0, 0, 0, 0, 0, 240, 1, 1, 1, 0x66]

def nameSeen (len : Byte) (chars : Buffer) : State := { atStart (twoEntries len chars) with strings := [chars] }

/-- A name that fills its record gets a byte more, which is one of the next record. -/
theorem rename_changes_next : Renames secondBlock (nameSeen 4 [0x61, 0x61, 0x61, 0x61]) [0x61, 0x61, 0x61, 0x61, 0x5f] ∧
    ¬ RenamedWell secondBlock (nameSeen 4 [0x61, 0x61, 0x61, 0x61]) [0x61, 0x61, 0x61, 0x61, 0x5f] := by
  refine ⟨⟨by decide, by decide +kernel, by decide +kernel, rfl⟩, fun well => ?_⟩
  exact absurd well.2.2.1 (by decide +kernel)

theorem rename_short_name : Renames secondBlock (nameSeen 2 [0x61, 0x61]) [0x61, 0x61, 0x5f] ∧
    RenamedWell secondBlock (nameSeen 2 [0x61, 0x61]) [0x61, 0x61, 0x5f] := by
  have renames : Renames secondBlock (nameSeen 2 [0x61, 0x61]) [0x61, 0x61, 0x5f] :=
    ⟨by decide, by decide +kernel, by decide +kernel, rfl⟩
  have entry : AtEntry (nameSeen 2 [0x61, 0x61]) := ⟨by decide +kernel, by decide +kernel⟩
  refine ⟨renames, (renamed_well_iff entry renames).mpr ⟨1, by decide, ?_, ?_, ?_⟩⟩
  · decide +kernel
  · decide +kernel
  · decide +kernel

end Rename

section NameChars

abbrev BadChar (b : Byte) : Prop := b = 0x2f ∨ b = 0

theorem fixNameChars_getD (ctx : Context) (k len : Nat) : ∀ (chr : Nat) (fix : Bool) (s : State),
    fix = true ∨ ctx.answers s.asked = true → chr + len ≤ s.buf.length →
    (fixNameChars ctx len chr fix s).buf.getD k 0 =
      if chr ≤ k ∧ k < chr + len ∧ ∀ j, chr ≤ j → j ≤ k → BadChar (s.buf.getD j 0) then 0x2e
      else s.buf.getD k 0 := by
  induction len with
  | zero => exact fun chr fix s _ _ => (if_neg fun cond => by omega).symm
  | succ len ih =>
    intro chr fix s yes room
    rw [fixNameChars]
    by_cases bad : BadChar (s.buf.getD chr 0)
    · obtain ⟨u, asks, buf⟩ : ∃ u, (if fix then (true, s) else prompt ctx s) = (true, u) ∧ u.buf = s.buf := by
        cases fix with
        | true => exact ⟨s, rfl, rfl⟩
        | false => exact ⟨_, Prod.ext (yes.resolve_left Bool.false_ne_true) rfl, rfl⟩
      rw [if_pos bad, asks]
      show (fixNameChars ctx len (chr + 1) true (u.write (u.buf.set chr 0x2e))).buf.getD k 0 = _
      have same (j : Nat) (ne : chr ≠ j) : (u.buf.set chr 0x2e).getD j 0 = s.buf.getD j 0 := by
        simp [List.getD, List.getElem?_set_ne ne, buf]
      have later : chr + 1 + len ≤ (u.buf.set chr 0x2e).length := by
        rw [List.length_set, buf]
        omega
      rw [ih (chr + 1) true _ (Or.inl rfl) later]
      rcases eq_or_ne chr k with rfl | ne
      · have single (j : Nat) (low : chr ≤ j) (high : j ≤ chr) : BadChar (s.buf.getD j 0) :=
          Nat.le_antisymm low high ▸ bad
        rw [if_neg (by omega), if_pos ⟨le_rfl, by omega, single⟩]
        simp [State.write, List.getD, List.getElem?_set_self (show chr < u.buf.length by rw [buf]; omega)]
      · refine if_congr ⟨fun cond => ⟨by omega, by omega, fun j low high => ?_⟩, fun cond =>
          ⟨by omega, by omega, fun j low high => ?_⟩⟩ rfl (same k ne)
        · rcases eq_or_ne chr j with rfl | other
          · exact bad
          · exact same j other ▸ cond.2.2 j (by omega) high
        · exact (same j (by omega)).symm ▸ cond.2.2 j (by omega) high
    · rw [if_neg bad, if_neg fun cond => bad (cond.2.2 chr le_rfl cond.1)]

def nameChar (buf : Buffer) (dirent i : Nat) : Byte := buf.getD (dirent + 12 + i) 0

def NameFixed (s t : State) : Prop := ∀ i < s.nameLen, ¬BadChar (nameChar t.buf s.offset i) ∧
  (BadChar (nameChar s.buf s.offset i) ∨ nameChar t.buf s.offset i = nameChar s.buf s.offset i)

theorem name_fixed_iff (ctx : Context) (s : State) (entry : AtEntry s) (yes : ctx.answers s.asked = true) :
    ∃ t, fixDirentName ctx s = .ok t ∧ (NameFixed s t ↔ ∀ i j, i < j → j < s.nameLen →
      BadChar (nameChar s.buf s.offset j) → BadChar (nameChar s.buf s.offset i)) := by
  refine ⟨_, rfl, ?_⟩
  by_cases empty : s.nameLen = 0
  · constructor
    · intro _ i j _ lt
      omega
    · intro _ i lt
      omega
  · have ge : s.nameLen + 12 ≤ s.recLen := entry.fits.ge
    have inside := entry.inside
    rw [beq_false_of_ne empty]
    show NameFixed s (fixNameChars ctx s.nameLen (s.offset + 12) false s) ↔ _
    have char (i : Nat) (lt : i < s.nameLen) :
        nameChar (fixNameChars ctx s.nameLen (s.offset + 12) false s).buf s.offset i =
          if ∀ j ≤ i, BadChar (nameChar s.buf s.offset j) then 0x2e else nameChar s.buf s.offset i := by
      rw [nameChar, fixNameChars_getD ctx _ _ _ _ s (Or.inr yes) (by omega)]
      refine if_congr ⟨fun cond j le => cond.2.2 _ (by omega) (by omega), fun cond =>
        ⟨by omega, by omega, fun j low high => ?_⟩⟩ rfl rfl
      have bad := cond (j - (s.offset + 12)) (by omega)
      rwa [nameChar, Nat.add_sub_of_le low] at bad
    constructor
    · intro fixed i j lt inside bad
      have clean := (fixed j inside).1
      rw [char j inside] at clean
      by_contra good
      rw [if_neg fun all => good (all i lt.le)] at clean
      exact clean bad
    · intro leading i lt
      rw [char i lt]
      by_cases bad : BadChar (nameChar s.buf s.offset i)
      · rw [if_pos fun j le => (lt_or_eq_of_le le).elim (leading j i · lt bad) (· ▸ bad)]
        exact ⟨by decide, Or.inl bad⟩
      · rw [if_neg fun all => bad (all i le_rfl)]
        exact ⟨bad, Or.inr rfl⟩

theorem name_fixed_leading_slash : ∃ t, fixDirentName secondBlock (nameSeen 2 [0x2f, 0x61]) = .ok t ∧
    NameFixed (nameSeen 2 [0x2f, 0x61]) t := by
  obtain ⟨t, run, fixed⟩ := name_fixed_iff secondBlock (nameSeen 2 [0x2f, 0x61])
    ⟨by decide +kernel, by decide +kernel⟩ rfl
  refine ⟨t, run, fixed.mpr fun i j lt inside bad => ?_⟩
  have two : (nameSeen 2 [0x2f, 0x61]).nameLen = 2 := by decide +kernel
  obtain rfl : i = 0 := by omega
  exact Or.inl (by decide +kernel)

theorem slash_behind_letter : AtEntry (nameSeen 2 [0x61, 0x2f]) ∧
    ∃ t, fixDirentName secondBlock (nameSeen 2 [0x61, 0x2f]) = .ok t ∧ t.name = [0x61, 0x2f] :=
  ⟨⟨by decide +kernel, by decide +kernel⟩, _, rfl, by decide +kernel⟩

end NameChars

section SplitDot

variable {ctx : Context} {fin : Nat} {s : State} {changed_len : Bool}

structure Splits (ctx : Context) (fin : Nat) (changed_len : Bool) (s : State) : Prop where
  inside : s.offset < fin
  sound : Sound s.buf s.offset (fin - s.offset)
  excess : dirRecLen s.nameLen < s.recLen
  yes : changed_len = true ∨ ctx.answers s.asked = true

def SplitsExactly (ctx : Context) (fin : Nat) (changed_len : Bool) (s : State) : Prop :=
  ∃ t, splitDot ctx changed_len s = .ok t ∧ t.offset = s.offset ∧ t.recLen = dirRecLen s.nameLen ∧
    ∀ es, Visits s.buf fin (s.offset + s.recLen) es → ∃ free, free.inode = 0 ∧
      free.rec_len = s.recLen - t.recLen ∧ Visits t.buf fin (s.offset + t.recLen) (free :: es)

def OldBytesFit (s : State) : Prop :=
  16 ≤ s.recLen - dirRecLen s.nameLen ∧
    dirRecLen (recLen s.buf (s.offset + dirRecLen s.nameLen)) % 65536 = s.recLen - dirRecLen s.nameLen

theorem splitDot_eq (splits : Splits ctx fin changed_len s) :
    ∃ t : State, t.buf = s.buf ∧ t.offset = s.offset ∧ splitDot ctx changed_len s =
      if s.buf.length < s.offset + dirRecLen s.nameLen + 12 then .error .undefined
      else .ok (t.write (splitRecord s.buf s.offset (dirRecLen s.nameLen))) := by
  have excess := splits.excess
  have asks : ∃ t, (if changed_len then (true, s) else prompt ctx s) = (true, t) ∧ t.buf = s.buf ∧
      t.offset = s.offset := by
    rcases splits.yes with rfl | yes
    · exact ⟨s, rfl, rfl, rfl⟩
    · cases changed_len
      · refine ⟨{ s with asked := s.asked + 1 }, ?_, rfl, rfl⟩
        rw [if_neg Bool.false_ne_true, prompt, yes]
      · exact ⟨s, rfl, rfl, rfl⟩
  obtain ⟨t, asks, buf, offset⟩ := asks
  refine ⟨t, buf, offset, ?_⟩
  rw [splitDot, if_neg (by omega), asks]
  simp only [Bool.not_true, Bool.false_eq_true, if_false, buf, offset]

theorem Splits.sizes (block : InBlock ctx fin s) (splits : Splits ctx fin changed_len s) :
    12 ≤ dirRecLen s.nameLen ∧ dirRecLen s.nameLen < 65536 ∧ dirRecLen s.nameLen % 4 = 0 ∧
      s.offset + s.recLen ≤ fin ∧ fin ≤ s.buf.length ∧ s.recLen % 4 = 0 ∧
      (s.offset + s.recLen = fin ∨ s.offset + s.recLen + 12 ≤ fin) := by
  have sizes := block.sizes
  have inside := splits.inside
  have rest : s.recLen = fin - s.offset ∨ s.recLen + 12 ≤ fin - s.offset := splits.sound.rest
  have aligned : s.recLen % 4 = 0 := splits.sound.aligned
  have multiple := dirRecLen_mod s.nameLen
  have long := dirRecLen_ge s.nameLen
  have small : dirRecLen s.nameLen < 32768 := dirRecLen_nameLen_lt s.buf s.offset
  omega

theorem oldBytesFit_of_splitsExactly (block : InBlock ctx fin s) (splits : Splits ctx fin changed_len s)
    (splitsExactly : SplitsExactly ctx fin changed_len s) : OldBytesFit s := by
  obtain ⟨u, -, -, eq⟩ := splitDot_eq splits
  obtain ⟨long, small, -⟩ := splits.sizes block
  obtain ⟨t, ok, -, cut, walks⟩ := splitsExactly
  rw [eq] at ok
  split_ifs at ok with short
  have split := splitRecord_split long small (Nat.le_of_not_lt short)
  obtain rfl := Except.ok.inj ok
  obtain ⟨free, -, length, -, good, read, -⟩ := walks [] trivial
  rw [cut] at length good read
  -- the record that the walk finds has the length that the split has written
  have found : recLen (splitRecord s.buf s.offset (dirRecLen s.nameLen)) (s.offset + dirRecLen s.nameLen) =
      free.rec_len := congrArg Dirent.rec_len read
  have least : 16 ≤ recLen (splitRecord s.buf s.offset (dirRecLen s.nameLen)) (s.offset + dirRecLen s.nameLen) :=
    (corrupt_eq_false_iff.mp good).long
  refine ⟨by omega, ?_⟩
  rw [← split.freeRecLen, found, length]

theorem splitsExactly_of_oldBytesFit (block : InBlock ctx fin s) (splits : Splits ctx fin changed_len s)
    (fit : OldBytesFit s) : SplitsExactly ctx fin changed_len s := by
  obtain ⟨u, buf, offset, eq⟩ := splitDot_eq splits
  obtain ⟨long, small, multiple, upper, inside, aligned, rest⟩ := splits.sizes block
  obtain ⟨enough, value⟩ := fit
  have split := splitRecord_split long small (show s.offset + dirRecLen s.nameLen + 12 ≤ s.buf.length by omega)
  rw [if_neg (by omega)] at eq
  have cut : (u.write (splitRecord s.buf s.offset (dirRecLen s.nameLen))).recLen = dirRecLen s.nameLen := by
    show recLen (splitRecord s.buf s.offset (dirRecLen s.nameLen)) u.offset = _
    rw [offset]
    exact split.recLen
  refine ⟨_, eq, offset, cut, fun es walks => ?_⟩
  rw [cut]
  show ∃ free : Dirent, free.inode = 0 ∧ free.rec_len = s.recLen - dirRecLen s.nameLen ∧
    Visits (splitRecord s.buf s.offset (dirRecLen s.nameLen)) fin (s.offset + dirRecLen s.nameLen) (free :: es)
  have freeLen := split.freeRecLen.trans value
  have freeName := split.freeNameLen
  have freeInode := split.freeInode
  have behind : Visits (splitRecord s.buf s.offset (dirRecLen s.nameLen)) fin (s.offset + s.recLen) es :=
    walks.congr (split.within.above.symm.mono (by omega) inside)
  have next : s.offset + dirRecLen s.nameLen + (s.recLen - dirRecLen s.nameLen) = s.offset + s.recLen := by omega
  generalize splitRecord s.buf s.offset (dirRecLen s.nameLen) = after at freeLen freeName freeInode behind
  have least : dirRecLen 0 = 12 := rfl
  refine ⟨readDirent after (s.offset + dirRecLen s.nameLen), freeInode, freeLen, by omega, ?_, rfl, ?_⟩
  · exact corrupt_eq_false_iff.mpr ⟨by omega, by omega, by rw [freeName]; omega, by omega⟩
  · show Visits after fin (s.offset + dirRecLen s.nameLen + recLen after (s.offset + dirRecLen s.nameLen)) es
    rw [freeLen, next]
    exact behind

theorem splits_exactly_iff (block : InBlock ctx fin s) (splits : Splits ctx fin changed_len s) :
    SplitsExactly ctx fin changed_len s ↔ OldBytesFit s := by
  constructor
  · exact oldBytesFit_of_splitsExactly block splits
  · exact splitsExactly_of_oldBytesFit block splits

def longDot (slack : Byte) : Buffer :=
  splice (splice (splice (List.replicate 512 0) 0 [20, 0, 0, 0, 0, 0, 0, 0, 32, 0, 1, 2, 0x2e]) 24 [slack]) 32
    [5, 0, 0, 0, 0, 0, 0, 0, 224, 1, 2, 2, 0x2e, 0x2e]

def firstBlock : Context := { secondBlock with e_blkcount := 0 }

theorem splits_longDot_zero : Splits firstBlock 512 false (atStart (longDot 0)) :=
  ⟨by decide, corrupt_eq_false_iff.mp (by decide +kernel), by decide +kernel, Or.inr rfl⟩

theorem splits_longDot_four : Splits firstBlock 512 false (atStart (longDot 4)) :=
  ⟨by decide, corrupt_eq_false_iff.mp (by decide +kernel), by decide +kernel, Or.inr rfl⟩

theorem inBlock_firstBlock (buf : Buffer) (length : buf.length = 512) : InBlock firstBlock 512 (atStart buf) :=
  ⟨⟨9, le_rfl, by omega, rfl⟩, length, Or.inl rfl, rfl⟩

/-- Slack of zeros gives a record of twelve bytes, where sixteen are free. -/
theorem split_of_zeros : Splits firstBlock 512 false (atStart (longDot 0)) ∧
    Visits (longDot 0) 512 32 [⟨5, 480, 2, 2, [0x2e, 0x2e]⟩] ∧
    ¬ SplitsExactly firstBlock 512 false (atStart (longDot 0)) := by
  refine ⟨splits_longDot_zero, ⟨by decide, by decide +kernel, by decide +kernel, trivial⟩, fun splitsExactly => ?_⟩
  have fit := oldBytesFit_of_splitsExactly (inBlock_firstBlock _ (by decide +kernel)) splits_longDot_zero splitsExactly
  exact absurd fit.2 (by decide +kernel)

theorem split_of_four : SplitsExactly firstBlock 512 false (atStart (longDot 4)) :=
  (splits_exactly_iff (inBlock_firstBlock _ (by decide +kernel)) splits_longDot_four).mpr
    ⟨by decide +kernel, by decide +kernel⟩

end SplitDot

end Ocfs2.Pass2
