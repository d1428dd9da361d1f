import Ocfs2.Libocfs2.DirExpand

set_option autoImplicit false

namespace Ocfs2.Dir

open ByteBuffer

section Link

variable {fs : Filesys} {dir : Directory} {ess : List (List Dirent)}

theorem skipDirTrailer_eq_false {di : Dinode} {buf : Buffer} {hi offset : Nat} {e : Dirent} {es : List Dirent}
    (chain : Chain buf hi offset (e :: es)) (closed : Closed buf hi (blockEnd fs di)) :
    skipDirTrailer fs di offset = false := by
  have room := chain.room
  have le : hi ≤ blockEnd fs di := by
    rcases closed with same | ⟨le, -⟩
    · exact same.ge
    · exact le
  cases has : dirHasTrailer fs di with
  | false => simp [skipDirTrailer, has]
  | true =>
    rw [blockEnd, if_pos has] at le
    have : offset ≠ dirTrailerBlkOff fs := by omega
    simp [skipDirTrailer, this]

theorem linkProc_first (ls : LinkStruct) {buf : Buffer} {hi offset : Nat} {e : Dirent}
    {es : List Dirent} (chain : Chain buf hi offset (e :: es)) (fits : hi ≤ buf.length) (short : hi < 65536)
    (closed : Closed buf hi ls.blockend) (free : e.inode = 0) (room : dirRecLen ls.name.length ≤ e.rec_len) :
    (linkProc buf offset ls).abort = true := by
  obtain ⟨-, -, len, rest, chain', longer, -⟩ := absorbNext_correct ls.blockend chain fits short closed
  rw [linkProc]
  rcases absorb : absorbNext ls.blockend buf offset with ⟨b, ret⟩
  rw [absorb] at chain'
  dsimp only at chain' ⊢
  rw [chain'.inode_eq, if_neg (not_not.mpr free), chain'.recLen_eq, if_neg (by dsimp only; omega)]

theorem linkProc_callable (valid : fs.Valid) (di : Dinode) (ls : LinkStruct) (args : ls.Valid)
    (ends : ls.blockend = blockEnd fs di) :
    Callable fs di { include_empty := true } linkProc ls { ls with done := true }
      (fun old new => new = ls.entry ::ₘ old) (fun es => ∃ e, es = [e] ∧ e.inode = 0 ∧ 268 ≤ e.rec_len) where
  plain := rfl
  body := rfl
  frame := by
    rintro M old new rfl
    exact Multiset.add_cons _ _ _
  call := by
    intro buf hi offset e es chain fits length closed _
    have small := valid.small
    exact linkProc_correct ls args chain fits (by omega) (ends ▸ closed)
  finds := by
    rintro buf hi offset es chain fits length closed ⟨e, rfl, free, room⟩
    have small := valid.small
    have large := valid.large
    have short := args.short
    have name : dirRecLen ls.name.length ≤ 268 := by
      rw [dirRecLen]
      omega
    obtain ⟨fuel, more⟩ : ∃ n, fs.fs_blocksize = n + 1 := ⟨fs.fs_blocksize - 1, by omega⟩
    have visit : skipped fs di { include_empty := true } buf offset = false := by
      simp [skipped, skipDirTrailer_eq_false chain closed]
    have := processDirEntry_first chain (fits.trans length.le) fuel ls false visit
      (linkProc_first ls chain fits (by omega) (ends ▸ closed) free (by omega))
    rwa [← more] at this

structure Linked (fs : Filesys) (out : Directory × Option Errcode) (x : Entry)
    (ess ess' : List (List Dirent)) : Prop where
  holds : Holds fs out.1 ess'
  added : out.2 = none → entries ess' = x ::ₘ entries ess
  failed : out.2 ≠ none → entries ess' = entries ess

theorem Linked.error {x : Entry} {ess' : List (List Dirent)} {e : Errcode} (holds : Holds fs dir ess')
    (same : entries ess' = entries ess) : Linked fs (dir, some e) x ess ess' :=
  ⟨holds, nofun, fun _ => same⟩

theorem Linked.ok {x : Entry} {ess' : List (List Dirent)} (holds : Holds fs dir ess')
    (added : entries ess' = x ::ₘ entries ess) : Linked fs (dir, none) x ess ess' :=
  ⟨holds, fun _ => added, fun error => absurd rfl error⟩

theorem link_correct (valid : fs.Valid) (alloc : Allocator) (allocator : alloc.Valid fs dir)
    (holds : Holds fs dir ess) (name : Buffer) (short : name.length ≤ 255) (ino flags : Nat) :
    (∃ ess', Linked fs (link fs alloc dir name ino flags) ⟨name, ino, flags % 256⟩ ess ess') ∧
      (isInline fs dir.di = false → fs.fs_rw = true → 2 ≤ ino → ino ≤ fs.fs_blocks →
        (∃ new, alloc.new_cluster = .ok new) → (link fs alloc dir name ino flags).2 = none) := by
  have blocks := valid.fs_blocks
  rw [link]
  cases rw : fs.fs_rw with
  | false => exact ⟨⟨ess, .error holds rfl⟩, nofun⟩
  | true =>
    rw [if_neg (by simp)]
    by_cases range : ino < 2 ∨ ino > fs.fs_blocks
    · rw [if_pos range]
      exact ⟨⟨ess, .error holds rfl⟩, fun _ _ _ _ => by omega⟩
    rw [if_neg range]
    dsimp only
    set ls : LinkStruct := ⟨name, ino, flags, false, blockEnd fs dir.di⟩
    have args : ls.Valid := ⟨by simpa [ls] using Nat.lt_succ_of_le short, by simp [ls]; omega, by simp [ls]; omega⟩
    obtain ⟨stop, data, errcode, ⟨i_block, di⟩, -, ess', holds', lives⟩ :=
      dirIterate_correct (linkProc_callable valid dir.di ls args rfl) valid holds
    generalize dirIterate fs { include_empty := true } linkProc dir ls = first at data errcode di holds' lives ⊢
    obtain ⟨dir', ls', err⟩ := first
    dsimp only at data errcode di holds' lives ⊢
    cases stop with
    | true =>
      rw [errcode (Or.inl rfl), data]
      exact ⟨⟨ess', .ok holds' lives⟩, fun _ _ _ _ _ => rfl⟩
    | false =>
      rw [if_neg (by simp)] at data
      subst data
      cases err with
      | some e => exact ⟨⟨ess', .error holds' lives⟩, fun outside => by cases errcode (Or.inr outside)⟩
      | none =>
        rw [if_neg (by simp), if_neg (by simp [ls])]
        obtain ⟨memory, nonempty, distinct⟩ := allocator
        have inline : isInline fs dir'.di = isInline fs dir.di := by rw [di]; rfl
        obtain ⟨⟨outside, ess'', holds'', same, new_block⟩, succeeds⟩ :=
          expandDir_correct alloc ⟨memory, nonempty, by rwa [di]⟩ valid rw holds'
        rw [inline] at new_block succeeds
        have same : entries ess'' = entries ess := same.trans lives
        generalize expandDir fs alloc dir' = expanded at outside holds'' new_block succeeds ⊢
        obtain ⟨dir'', err⟩ := expanded
        dsimp only at outside holds'' new_block succeeds ⊢
        cases err with
        | some e => exact ⟨⟨ess'', .error holds'' same⟩, fun out _ _ _ got => by cases succeeds out got⟩
        | none =>
          rw [if_neg (by simp)]
          obtain ⟨stop, data, errcode, -, finds, ess3, holds3, lives3⟩ := dirIterate_correct
            (linkProc_callable valid dir''.di { ls with blockend := blockEnd fs dir''.di }
              ⟨args.short, args.used, args.small⟩ rfl) valid holds''
          generalize dirIterate fs { include_empty := true } linkProc dir''
            { ls with blockend := blockEnd fs dir''.di } = second at data errcode holds3 lives3 ⊢
          obtain ⟨dir3, ls3, err⟩ := second
          dsimp only at data errcode holds3 lives3 ⊢
          cases stop with
          | true =>
            rw [errcode (Or.inl rfl), data]
            rw [same] at lives3
            exact ⟨⟨ess3, .ok holds3 lives3⟩, fun _ _ _ _ _ => rfl⟩
          | false =>
            rw [same] at lives3
            subst data
            have missed (out : isInline fs dir.di = false) : False := by
              have := finds (new_block out rfl)
              cases this
            cases err with
            | none => exact ⟨⟨ess3, .error holds3 lives3⟩, fun out => (missed out).elim⟩
            | some e => exact ⟨⟨ess3, .error holds3 lives3⟩, fun out => (missed out).elim⟩

end Link

section Unlink

variable {fs : Filesys} {dir : Directory} {ess : List (List Dirent)}

theorem unlinkProc_stay (buf : Buffer) (offset : Nat) (ls : UnlinkStruct)
    (goes : (unlinkProc buf offset ls).abort = false) :
    (unlinkProc buf offset ls).buf = buf ∧ (unlinkProc buf offset ls).priv = ls := by
  rw [unlinkProc] at goes ⊢
  split_ifs at goes ⊢ <;> exact ⟨rfl, rfl⟩

theorem mem_live {es : List Dirent} {x : Entry} : x ∈ live es ↔ ∃ e ∈ es, e.inode ≠ 0 ∧ e.entry = x := by
  induction es with
  | nil => simp
  | cons e es ih =>
    rw [live_cons, Multiset.mem_add, ih, List.exists_mem_cons_iff, Dirent.live]
    split <;> simp_all [eq_comm]

theorem mem_entries {x : Entry} : x ∈ entries ess ↔ ∃ es ∈ ess, x ∈ live es := by
  induction ess with
  | nil => simp [entries]
  | cons es ess ih =>
    rw [List.exists_mem_cons_iff, ← ih]
    simp [entries]

theorem unlinkProc_callable (valid : fs.Valid) (di : Dinode) (ls : UnlinkStruct) :
    Callable fs di {} unlinkProc ls { ls with done := true } (fun old new => ∃ x, ls.Matches x ∧ old = x ::ₘ new)
      (fun es => ∃ x ∈ live es, ls.Matches x) where
  plain := rfl
  body := rfl
  frame := by
    rintro M old new ⟨x, found, rfl⟩
    exact ⟨x, found, Multiset.add_cons _ _ _⟩
  call := by
    intro buf hi offset e es chain fits _ closed visit
    have used : e.inode ≠ 0 := by
      intro free
      simp [skipped, skipDirTrailer_eq_false chain closed, chain.inode_eq, free] at visit
    exact (unlinkProc_correct ls used chain fits).1
  finds := by
    rintro buf hi offset es chain fits length closed ⟨x, mem, found⟩
    obtain ⟨e, inside, used, rfl⟩ := mem_live.mp mem
    refine processDirEntry_finds ls (fun e => e.inode ≠ 0 ∧ ls.Matches e.entry) rfl (fits.trans length.le)
      (fun offset => unlinkProc_stay buf offset ls) ?_ _ _ _ es chain (by omega) ⟨e, inside, used, found⟩
    rintro offset e es chain ⟨used, found⟩
    refine ⟨by simp [skipped, skipDirTrailer_eq_false chain closed, chain.inode_eq, used], ?_⟩
    by_contra goes
    exact (unlinkProc_correct ls used chain fits).2 (by simpa using goes) found

structure Unlinked (fs : Filesys) (out : Directory × Option Errcode) (found : Entry → Prop)
    (ess ess' : List (List Dirent)) : Prop where
  holds : Holds fs out.1 ess'
  removed : out.2 = none → ∃ x, found x ∧ entries ess = x ::ₘ entries ess'
  failed : out.2 ≠ none → entries ess' = entries ess

theorem unlink_correct (valid : fs.Valid) (holds : Holds fs dir ess) (name : Buffer) (ino : Nat) :
    (∃ ess', Unlinked fs (unlink fs dir name ino) (fun x => x.name = name ∧ (ino = 0 ∨ x.inode = ino)) ess ess') ∧
      ((unlink fs dir name ino).2 = none ↔
        fs.fs_rw = true ∧ ∃ x ∈ entries ess, x.name = name ∧ (ino = 0 ∨ x.inode = ino)) := by
  rw [unlink]
  cases rw : fs.fs_rw with
  | false => exact ⟨⟨ess, holds, nofun, fun _ => rfl⟩, by simp⟩
  | true =>
    rw [if_neg (by simp)]
    dsimp only
    obtain ⟨stop, data, errcode, -, finds, ess', holds', lives⟩ :=
      dirIterate_correct (unlinkProc_callable valid dir.di ⟨name, ino, false⟩) valid holds
    generalize dirIterate fs {} unlinkProc dir ⟨name, ino, false⟩ = out at data errcode holds' lives ⊢
    obtain ⟨dir', ls', err⟩ := out
    dsimp only at data errcode holds' lives ⊢
    cases stop with
    | true =>
      rw [errcode (Or.inl rfl), data]
      obtain ⟨x, found, gone⟩ := lives
      refine ⟨⟨ess', holds', fun _ => ⟨x, found, gone⟩, fun error => absurd rfl error⟩, fun _ => ?_, fun _ => rfl⟩
      refine ⟨rfl, x, ?_, found⟩
      rw [gone]
      exact Multiset.mem_cons_self _ _
    | false =>
      rw [if_neg (by simp)] at data
      subst data
      have missed : ¬∃ x ∈ entries ess, x.name = name ∧ (ino = 0 ∨ x.inode = ino) := by
        rintro ⟨x, mem, found⟩
        obtain ⟨es, mem, live⟩ := mem_entries.mp mem
        cases finds ⟨es, mem, x, live, found⟩
      cases err with
      | none => exact ⟨⟨ess', holds', nofun, fun _ => lives⟩, by simpa using missed⟩
      | some e => exact ⟨⟨ess', holds', nofun, fun _ => lives⟩, by simpa using missed⟩

end Unlink

section Main

variable {fs : Filesys} {dir : Directory} {ess : List (List Dirent)}

theorem link_unlink_entries (valid : fs.Valid) (alloc : Allocator) (allocator : alloc.Valid fs dir)
    (holds : Holds fs dir ess) (name : Buffer) (short : name.length ≤ 255) (ino flags : Nat) :
    ((∃ ess', Linked fs (link fs alloc dir name ino flags) ⟨name, ino, flags % 256⟩ ess ess') ∧
      (isInline fs dir.di = false → fs.fs_rw = true → 2 ≤ ino → ino ≤ fs.fs_blocks →
        (∃ new, alloc.new_cluster = .ok new) → (link fs alloc dir name ino flags).2 = none)) ∧
    (∃ ess', Unlinked fs (unlink fs dir name ino) (fun x => x.name = name ∧ (ino = 0 ∨ x.inode = ino)) ess ess') ∧
      ((unlink fs dir name ino).2 = none ↔
        fs.fs_rw = true ∧ ∃ x ∈ entries ess, x.name = name ∧ (ino = 0 ∨ x.inode = ino)) :=
  ⟨link_correct valid alloc allocator holds name short ino flags, unlink_correct valid holds name ino⟩

def sampleFs : Filesys := ⟨512, 1000, true, false, false⟩

def sampleBlock : Buffer := setRecLen (List.replicate 512 0) 0 512

def sampleDir : Directory := ⟨fun _ => sampleBlock, ⟨5, 512, false, [7], []⟩⟩

theorem sampleDir_holds : Holds sampleFs sampleDir [[⟨0, 512, 0, 0, []⟩]] := by
  have length : sampleBlock.length = 512 := by
    rw [sampleBlock, setRecLen, length_splice] <;> rw [List.length_replicate]
    decide
  refine .blocks rfl [7] [] _ rfl (by simp [sampleDir]) rfl (.cons ⟨?_, fun trailer => absurd trailer (by decide)⟩ .nil)
  exact shaped_of_no_trailer rfl length (chain_newBlock (by omega) le_rfl (by omega) rfl)

theorem link_into_free_block :
    ∃ ess', Holds sampleFs (link sampleFs ⟨.ok [8], List.replicate 512 0⟩ sampleDir [0x61] 9 1).1 ess' ∧
      entries ess' = {⟨[0x61], 9, 1⟩} := by
  have valid : sampleFs.Valid := ⟨by decide, by decide, by decide, by decide⟩
  obtain ⟨⟨⟨ess', holds, added, -⟩, succeeds⟩, -⟩ := link_unlink_entries valid
    ⟨.ok [8], List.replicate 512 0⟩ ⟨List.length_replicate, by simp, by simp [sampleDir]⟩ sampleDir_holds
    [0x61] (by decide) 9 1
  exact ⟨ess', holds, added (succeeds rfl rfl (by decide) (by decide) ⟨_, rfl⟩)⟩

end Main

end Ocfs2.Dir
