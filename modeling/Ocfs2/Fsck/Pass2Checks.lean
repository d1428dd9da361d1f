import Ocfs2.Fsck.Pass2Lengths

set_option autoImplicit false

namespace Ocfs2.Pass2

open ByteBuffer Dir

section Checks

variable {ctx : Context} {s₀ s t : State}

structure Steady (s t : State) : Prop where
  offset : t.offset = s.offset
  length : t.buf.length = s.buf.length
  room : t.offset + 16 ≤ t.buf.length
  recLen : t.recLen = s.recLen ∨ ∃ n, t.recLen = dirRecLen n

theorem Steady.refl (room : s.offset + 16 ≤ s.buf.length) : Steady s s := ⟨rfl, rfl, room, Or.inl rfl⟩

section Moves

variable (steady : Steady s₀ s)

include steady

theorem Steady.next (offset : t.offset = s.offset) (length : t.buf.length = s.buf.length)
    (recLen : t.recLen = s.recLen ∨ ∃ n, t.recLen = dirRecLen n) : Steady s₀ t where
  offset := offset.trans steady.offset
  length := length.trans steady.length
  room := offset ▸ length ▸ steady.room
  recLen := by
    rcases recLen with same | named
    · rw [same]
      exact steady.recLen
    · exact Or.inr named

theorem Steady.quiet (offset : t.offset = s.offset) (buf : t.buf = s.buf) : Steady s₀ t :=
  steady.next offset (by rw [buf]) (Or.inl (by rw [State.recLen, State.recLen, offset, buf]))

theorem Steady.header : s.offset + 12 ≤ s.buf.length := by
  have := steady.room
  omega

theorem Steady.write {buf : Buffer} {n : Nat} (header : Header buf s.buf s.offset s.recLen n) :
    Steady s₀ (s.write buf) :=
  steady.next rfl header.length (Or.inl header.recLen)

theorem Steady.behind {buf : Buffer} (length : buf.length = s.buf.length)
    (agree : Agree buf s.buf 0 (s.offset + 12)) : Steady s₀ (s.write buf) :=
  steady.next rfl length
    (Or.inl (congrArg leValue (agree.slice _ _ (by simp [State.write]) (by simp [State.write]))))

theorem Steady.setName {bytes : Buffer} (fits : s.offset + 12 + bytes.length ≤ s.buf.length) :
    Steady s₀ (s.write (setName s.buf s.offset bytes)) :=
  steady.behind (length_splice _ _ _ fits) (agree_splice _ _ _ fits _ _ (Or.inl le_rfl))

theorem Steady.clear : Steady s₀ s.clear := steady.write (setInode_header steady.header 0)

theorem Steady.ite {yes : Bool} (other : Steady s₀ t) : Steady s₀ (if yes then t else s) := by
  cases yes
  · exact steady
  · exact other

theorem Steady.prompt (ctx : Context) : ∃ answer t, prompt ctx s = (answer, t) ∧ Steady s₀ t :=
  ⟨_, _, rfl, steady.quiet rfl rfl⟩

theorem Steady.promptIf (ctx : Context) (cond : Bool) :
    ∃ answer t, promptIf ctx cond s = (answer, t) ∧ Steady s₀ t := by
  rw [Pass2.promptIf]
  split
  · exact steady.prompt ctx
  · exact ⟨_, _, rfl, steady⟩

theorem Steady.clobberName {expect_dots : Nat} (few : expect_dots ≤ 2) :
    Steady s₀ (clobberName expect_dots s) := by
  have room := steady.room
  have named := setNameLen_header steady.header (show expect_dots < 256 by omega)
  have fits : s.offset + 12 + (List.replicate expect_dots (0x2e : Byte)).length ≤
      (setNameLen s.buf s.offset expect_dots).length := by
    rw [List.length_replicate, named.length]
    omega
  have dotted := (steady.write named).setName fits
  exact dotted.write (setFileType_header dotted.header ftDir)

end Moves

theorem dirRecLen_nameLen_lt (buf : Buffer) (dirent : Nat) : dirRecLen (nameLen buf dirent) < 32768 := by
  have value := leValue_lt (slice buf (dirent + 10) 1)
  have : (slice buf (dirent + 10) 1).length ≤ 1 := List.length_take_le _ _
  have short : nameLen buf dirent < 256 := value.trans_le (Nat.pow_le_pow_right (by omega) this)
  have := dirRecLen_le (nameLen buf dirent)
  omega

theorem prompt_unless (ctx : Context) (known : Bool) (s : State) :
    ∃ yes t, (if known then (true, s) else prompt ctx s) = (yes, t) ∧ t.offset = s.offset ∧ t.buf = s.buf := by
  cases known
  · exact ⟨_, _, rfl, rfl, rfl⟩
  · exact ⟨_, _, rfl, rfl, rfl⟩

theorem steady_splitDot {changed_len : Bool} (steady : Steady s₀ s) (ok : splitDot ctx changed_len s = .ok t) :
    Steady s₀ t := by
  have long := dirRecLen_ge s.nameLen
  obtain ⟨split, u, asks, offset, buf⟩ := prompt_unless ctx changed_len s
  have quiet := steady.quiet offset buf
  simp only [splitDot, asks] at ok
  by_cases same : dirRecLen s.nameLen = s.recLen
  · rw [if_pos same] at ok
    exact Except.ok.inj ok ▸ steady
  rw [if_neg same] at ok
  cases split with
  | false => exact Except.ok.inj ok ▸ quiet
  | true =>
    by_cases short : u.buf.length < u.offset + dirRecLen s.nameLen + 12
    · rw [if_pos short] at ok
      cases ok
    rw [if_neg short] at ok
    obtain rfl := Except.ok.inj ok
    have cut := splitRecord_split (show 12 ≤ dirRecLen s.nameLen by omega)
      ((dirRecLen_nameLen_lt s.buf s.offset).trans (by omega)) (Nat.le_of_not_lt short)
    exact quiet.next rfl cut.within.length (Or.inr ⟨s.nameLen, cut.recLen⟩)

theorem steady_fixDirentDots (steady : Steady s₀ s) (ok : fixDirentDots ctx s = .ok t) : Steady s₀ t := by
  have few : expectedDots ctx s.offset ≤ 2 := by
    rw [expectedDots]
    split_ifs <;> omega
  simp only [fixDirentDots] at ok
  generalize expectedDots ctx s.offset = expect_dots at few ok
  by_cases other : expect_dots = 0 ∧
      (s.inode = 0 ∨ (direntHasDots s.buf s.offset 1 || direntHasDots s.buf s.offset 2) = false)
  · rw [if_pos other] at ok
    exact Except.ok.inj ok ▸ steady
  rw [if_neg other] at ok
  obtain ⟨remove, s1, asks1, steady1⟩ := steady.promptIf ctx (expect_dots == 0)
  obtain ⟨changed_len, s2, asks2, steady2⟩ := steady1.promptIf ctx (!direntHasDots s1.buf s1.offset expect_dots)
  simp only [asks1, asks2] at ok
  cases remove with
  | true => exact Except.ok.inj ok ▸ steady1.clear
  | false =>
    have steady3 : Steady s₀ (if changed_len then clobberName expect_dots s2 else s2) :=
      steady2.ite (steady2.clobberName few)
    generalize (if changed_len then clobberName expect_dots s2 else s2) = s3 at ok steady3
    by_cases parent : expect_dots = 2
    · rw [if_pos parent] at ok
      cases lookup : Pass3.dirParentLookup s3.ost_dir_parents ctx.e_ino with
      | none => rw [lookup] at ok; cases ok
      | some dp =>
        rw [lookup] at ok
        exact Except.ok.inj ok ▸ steady3.quiet rfl rfl
    · rw [if_neg parent] at ok
      obtain ⟨fix, s4, asks4, steady4⟩ := steady3.promptIf ctx (s3.inode != ctx.e_ino)
      simp only [asks4] at ok
      exact steady_splitDot (steady4.ite (steady4.write (setInode_header steady4.header _))) ok

theorem agree_set (buf : Buffer) (k : Nat) (b : Byte) (lo hi : Nat) (apart : hi ≤ k) :
    Agree (buf.set k b) buf lo hi := by
  intro j _ upper
  rw [List.getElem?_set_ne (by omega)]

theorem steady_fixNameChars (len : Nat) : ∀ (chr : Nat) (fix : Bool) (s : State), s.offset + 12 ≤ chr →
    Steady s₀ s → Steady s₀ (fixNameChars ctx len chr fix s) := by
  induction len with
  | zero => exact fun _ _ _ _ => id
  | succ len ih =>
    intro chr fix s behind steady
    rw [fixNameChars]
    by_cases bad : s.buf.getD chr 0 = 0x2f ∨ s.buf.getD chr 0 = 0
    · obtain ⟨yes, u, asks, offset, buf⟩ := prompt_unless ctx fix s
      have quiet := steady.quiet offset buf
      rw [if_pos bad, asks]
      cases yes with
      | false => exact quiet
      | true =>
        exact ih (chr + 1) true _ (show u.offset + 12 ≤ chr + 1 by omega)
          (quiet.behind List.length_set (agree_set _ _ _ _ _ (by omega)))
    · rw [if_neg bad]
      exact steady

theorem steady_fixDirentName (steady : Steady s₀ s) (ok : fixDirentName ctx s = .ok t) : Steady s₀ t := by
  obtain ⟨zero, s1, asks, steady1⟩ := steady.promptIf ctx (s.nameLen == 0)
  simp only [fixDirentName, asks] at ok
  exact Except.ok.inj ok ▸ steady_fixNameChars _ _ _ _ le_rfl (steady1.ite steady1.clear)

theorem steady_fixDirentInode (steady : Steady s₀ s) (ok : fixDirentInode ctx s = .ok t) : Steady s₀ t := by
  obtain ⟨range, s1, asks1, steady1⟩ := steady.promptIf ctx (blockOutOfRange ctx s.inode)
  obtain ⟨free, s2, asks2, steady2⟩ := steady1.promptIf ctx (!ctx.test_inode_allocated s1.inode)
  simp only [fixDirentInode, asks1, asks2] at ok
  cases range with
  | true => exact Except.ok.inj ok ▸ steady1.clear
  | false => exact Except.ok.inj ok ▸ steady2.ite steady2.clear

theorem steady_fixDirentFiletype (steady : Steady s₀ s) (ok : fixDirentFiletype ctx s = .ok t) :
    Steady s₀ t := by
  rw [fixDirentFiletype] at ok
  cases expected : expectedType ctx s.inode with
  | error e => rw [expected] at ok; cases ok
  | ok expected_type =>
    obtain ⟨reset, s1, asks, steady1⟩ := steady.promptIf ctx (fileType s.buf s.offset != expected_type)
    simp only [expected, asks] at ok
    exact Except.ok.inj ok ▸ steady1.ite (steady1.write (setFileType_header steady1.header _))

theorem steady_fixDirentLinkage (steady : Steady s₀ s) (ok : fixDirentLinkage ctx s = .ok t) :
    Steady s₀ t := by
  rw [fixDirentLinkage] at ok
  by_cases dots : expectedDots ctx s.offset ≠ 0
  · rw [if_pos dots] at ok
    exact Except.ok.inj ok ▸ steady
  rw [if_neg dots] at ok
  cases test : ctx.ost_dir_inodes s.inode with
  | error e => rw [test] at ok; cases ok
  | ok is_dir =>
    rw [test] at ok
    cases is_dir with
    | false => exact Except.ok.inj ok ▸ steady
    | true =>
      cases lookup : Pass3.dirParentLookup s.ost_dir_parents s.inode with
      | none => rw [lookup] at ok; cases ok
      | some dp =>
        obtain ⟨dup, s1, asks, asked⟩ := steady.prompt ctx
        simp only [lookup, asks] at ok
        by_cases first : dp.dp_dirent = 0
        · rw [if_pos first] at ok
          exact Except.ok.inj ok ▸ steady.quiet rfl rfl
        · rw [if_neg first] at ok
          exact Except.ok.inj ok ▸ asked.ite asked.clear

theorem steady_rename {new_name : Buffer} (steady : Steady s₀ s) (ok : rename new_name s = .ok t) :
    Steady s₀ t := by
  rw [rename] at ok
  split_ifs at ok with short
  have named := setNameLen_header steady.header (show new_name.length % 256 < 256 by omega)
  have fits : s.offset + 12 + (new_name.take (new_name.length % 256)).length ≤
      (setNameLen s.buf s.offset (new_name.length % 256)).length := by
    rw [List.length_take, named.length]
    omega
  exact Except.ok.inj ok ▸ (steady.write named).setName fits

theorem steady_stringsInsert (steady : Steady s₀ s) (string : Buffer) : Steady s₀ (stringsInsert string s) := by
  rw [stringsInsert]
  split
  · exact steady
  · exact steady.quiet rfl rfl

theorem steady_fixDirentDups (steady : Steady s₀ s) (ok : fixDirentDups ctx s = .ok t) : Steady s₀ t := by
  rw [fixDirentDups] at ok
  have fresh : Steady s₀
      (if maxStrings < s.s_allocated then { s with strings := [], s_allocated := 0 } else s) := by
    split
    · exact steady.quiet rfl rfl
    · exact steady
  generalize (if maxStrings < s.s_allocated then { s with strings := [], s_allocated := 0 } else s) = s1
    at ok fresh
  by_cases seen : (!s1.strings.contains (name s1.buf s1.offset s1.nameLen)) = true
  · rw [if_pos seen] at ok
    exact Except.ok.inj ok ▸ steady_stringsInsert fresh _
  rw [if_neg seen] at ok
  cases new : mangle s1.strings (name s1.buf s1.offset s1.nameLen) s1.recLen with
  | none =>
    rw [new] at ok
    exact Except.ok.inj ok ▸ fresh
  | some new_name =>
    obtain ⟨replace, s2, asks, asked⟩ := fresh.prompt ctx
    simp only [new, asks] at ok
    cases replace with
    | true => exact steady_rename (steady_stringsInsert asked new_name) ok
    | false => exact Except.ok.inj ok ▸ asked

theorem steady_icountDelta (steady : Steady s₀ s) (ok : icountDelta s = .ok t) : Steady s₀ t :=
  Except.ok.inj ok ▸ steady.quiet rfl rfl

theorem steady_runChecks (checks : List (State → Except Errcode State))
    (each : ∀ check ∈ checks, ∀ s t, Steady s₀ s → check s = .ok t → Steady s₀ t) :
    ∀ s t, Steady s₀ s → runChecks checks s = .ok t → Steady s₀ t := by
  induction checks with
  | nil =>
    intro s t steady ok
    exact Except.ok.inj ok ▸ steady
  | cons check checks ih =>
    intro s t steady ok
    rw [runChecks] at ok
    cases first : check s with
    | error e => rw [first] at ok; cases ok
    | ok u =>
      have checked := each check List.mem_cons_self s u steady first
      simp only [first] at ok
      split_ifs at ok
      · exact Except.ok.inj ok ▸ checked
      · exact ih (fun c mem => each c (List.mem_cons_of_mem _ mem)) u t checked ok

theorem steady_checkDirent (room : s.offset + 16 ≤ s.buf.length) (ok : checkDirent ctx s = .ok t) :
    Steady s t := by
  refine steady_runChecks _ (fun check mem => ?_) s t (Steady.refl room) ok
  simp only [List.mem_cons, List.not_mem_nil, or_false] at mem
  rcases mem with rfl | rfl | rfl | rfl | rfl | rfl | rfl
  · exact fun s t => steady_fixDirentDots
  · exact fun s t => steady_fixDirentName
  · exact fun s t => steady_fixDirentInode
  · exact fun s t => steady_fixDirentFiletype
  · exact fun s t => steady_fixDirentLinkage
  · exact fun s t => steady_fixDirentDups
  · exact fun s t => steady_icountDelta

end Checks

end Ocfs2.Pass2
