import Ocfs2.Libocfs2.IoCache

set_option autoImplicit false

namespace Ocfs2.UnixIo

open ByteBuffer

theorem preadLoop_spec (content : Buffer) (size location : Nat) (calls : List SystemCall)
    (got : Buffer) (read : got = (content.drop location).take got.length) (le : got.length ≤ size)
    (ok : (preadLoop content size location calls got).ret = .ok ()) :
    (preadLoop content size location calls got).moved = (content.drop location).take size ∧
      (preadLoop content size location calls got).moved.length = size := by
  fun_induction preadLoop with
  | case1 calls got full =>
    obtain rfl : size = got.length := by omega
    simpa using read
  | case2 | case3 | case4 => cases ok
  | case5 got short n calls more some ih =>
    refine ih ?_ (by simp [more]; omega) ok
    rw [List.length_append, List.take_add, List.drop_drop, ← read]
    congr 1
    simp [more]

theorem pwriteLoop_spec (start data : Buffer) (size location : Nat) (enough : size ≤ data.length)
    (calls : List SystemCall) (content : Buffer) (tot : Nat)
    (written : content = splice start location (data.take tot)) (le : tot ≤ size)
    (room : 0 < tot → location + tot ≤ start.length) :
    ∃ tot', (pwriteLoop data size location calls content tot).moved =
        (splice start location (data.take tot'), tot') ∧ tot' ≤ size ∧
      (0 < tot' → location + tot' ≤ start.length) ∧
      ((pwriteLoop data size location calls content tot).ret = .ok () → tot' = size) := by
  fun_induction pwriteLoop with
  | case1 calls content tot full => exact ⟨tot, by rw [written], le, room, fun _ => by omega⟩
  | case2 content tot | case3 content tot | case4 content tot =>
    exact ⟨tot, by rw [written], le, room, fun ok => by cases ok⟩
  | case5 content tot short n calls left more some ih =>
    have short : (data.take tot).length = tot := by simp; omega
    have before : content.length = start.length := by
      rcases Nat.eq_zero_or_pos tot with rfl | positive
      · simp [written]
      · rw [written, length_splice _ _ _ (by rw [short]; exact room positive)]
    have taken : more.length = min (min (min n (size - tot)) left) (data.length - tot) := by simp [more]
    have positive := List.length_pos_iff.mpr some
    refine ih ?_ (by omega) (by omega)
    have join := splice_splice start location (data.take tot) more (by omega)
    rw [short, ← written] at join
    rw [join, List.take_add]
    congr 2
    simp [more]

def Channel.after (channel : Channel) (content : Buffer) (errno : Int) (pending : List SystemCall)
    (new : List (Except Errcode Unit)) : Channel :=
  { channel with
    io_error := errno
    io_fd := ⟨content, pending, channel.io_fd.transfers ++ new⟩ }

theorem Channel.after_after (channel : Channel) (c₁ c₂ : Buffer) (e₁ e₂ : Int)
    (p₁ p₂ : List SystemCall) (new₁ new₂ : List (Except Errcode Unit)) :
    (channel.after c₁ e₁ p₁ new₁).after c₂ e₂ p₂ new₂ = channel.after c₂ e₂ p₂ (new₁ ++ new₂) := by
  simp [Channel.after]

theorem not_overflows {channel : Channel} {blkno count : Nat}
    (fits : ¬ overflows channel blkno count = true) :
    count * channel.io_blksize ≤ intMax ∧ blkno * channel.io_blksize ≤ int64Max := by
  simpa [overflows] using fits

section Transfer

variable {channel : Channel} {ic : Cache} (blkno : Nat) {count : Nat} {data : Buffer}
  (len : data.length = count * channel.io_blksize)

include len

theorem unixIoReadBlock_spec :
    ∃ errno pending ret out, unixIoReadBlock channel blkno count data =
        (channel.after channel.io_fd.content errno pending [ret], ret, out) ∧
      (ret = .ok () → count * channel.io_blksize ≤ intMax ∧ blkno * channel.io_blksize ≤ int64Max ∧
        out.length = data.length ∧
        out = (channel.io_fd.content.drop (blkno * channel.io_blksize)).take
          (count * channel.io_blksize)) := by
  by_cases wraps : overflows channel blkno count = true
  · exact ⟨channel.io_error, channel.io_fd.pending, .error .undefined, data,
      by simp [unixIoReadBlock, wraps, Channel.after], fun ok => by cases ok⟩
  · have spec := preadLoop_spec channel.io_fd.content (count * channel.io_blksize)
      (blkno * channel.io_blksize) channel.io_fd.pending [] (by simp) (Nat.zero_le _)
    simp only [unixIoReadBlock, if_neg wraps]
    split
    next ok =>
      obtain ⟨moved, full⟩ := spec ok
      rw [if_neg (by simpa using full)]
      refine ⟨_, _, _, _, rfl, fun _ => ?_⟩
      rw [splice_full data _ (full.trans len.symm)]
      exact ⟨(not_overflows wraps).1, (not_overflows wraps).2, full.trans len.symm, moved⟩
    next failed => exact ⟨_, _, _, _, rfl, fun ok => absurd ok failed⟩

abbrev Cached (channel : Channel) (ic : Cache) : Prop :=
  ic.InStep channel.io_blksize channel.io_fd.content fun _ => True

def Reads (channel : Channel) (blkno count : Nat) (out : Channel × Cache × Except Errcode Unit × Buffer) : Prop :=
  ∃ errno pending new ic ret got, out = (channel.after channel.io_fd.content errno pending new, ic, ret, got) ∧
    Cached channel ic ∧
    ((∀ r ∈ new, r = .ok ()) → ret = .ok () ∧
      got = (channel.io_fd.content.drop (blkno * channel.io_blksize)).take (count * channel.io_blksize))

omit len in
theorem int_bound {blksize blkno count : Nat} (positive : 0 < blksize)
    (size : count * blksize ≤ intMax) (location : blkno * blksize ≤ int64Max) :
    blkno + count ≤ uint64Max := by
  have := Nat.le_mul_of_pos_right blkno positive
  have := Nat.le_mul_of_pos_right count positive
  simp only [intMax, int64Max, uint64Max] at *
  omega

theorem ioCacheReadBlocks_spec (nocache : Bool) (cached : Cached channel ic) (positive : 0 < channel.io_blksize) :
    Reads channel blkno count (ioCacheReadBlocks channel ic blkno count data nocache) := by
  set good := goodBlocks ic count blkno with def_good
  have hits : ∀ j, 0 ≤ j → j < good → (ioCacheLookup ic (blkno + j)).isSome :=
    fun j _ less => goodBlocks_cached ic count blkno j less
  -- the loop over the cache, whatever way the buffer was filled
  have sync (filled : Buffer) (len' : filled.length = count * channel.io_blksize)
      (read : Filled channel.io_blksize good blkno count 0 channel.io_fd.content filled)
      (valid : good < count → blkno + count ≤ uint64Max) :=
    syncRead_spec nocache count 0 ic filled cached hits read len' (by simpa using valid)
  by_cases all : good < count
  · have tail_len : (data.drop (channel.io_blksize * good)).length =
        (count - good) * channel.io_blksize := by
      rw [List.length_drop, len, Nat.sub_mul, Nat.mul_comm good]
    obtain ⟨errno, pending, ret, tail, read, done⟩ := unixIoReadBlock_spec (blkno + good) tail_len
    cases ret with
    | error e =>
      refine ⟨errno, pending, [.error e], ic, .error e, data.take (channel.io_blksize * good) ++ tail,
        ?_, cached, ?_⟩
      · simp only [ioCacheReadBlocks, ← def_good, all, if_true, read]
      · intro full
        have := full (.error e) List.mem_cons_self
        cases this
    | ok _ =>
      obtain ⟨small, start, tail_full, content⟩ := done rfl
      have head_len : (data.take (channel.io_blksize * good)).length = channel.io_blksize * good := by
        rw [List.length_take, len, Nat.min_eq_left]
        rw [Nat.mul_comm]
        exact Nat.mul_le_mul_right _ all.le
      have bound := int_bound positive small start
      obtain ⟨ic', run, cached'⟩ := sync (data.take (channel.io_blksize * good) ++ tail)
        (by
          rw [List.length_append, head_len, tail_full, tail_len, Nat.mul_comm, ← Nat.add_mul]
          congr 1
          omega)
        (by
          intro k later less
          rw [blockAt, List.drop_append, List.drop_of_length_le
            (by rw [head_len, Nat.mul_comm]; exact Nat.mul_le_mul_right _ (by omega)), List.nil_append,
            head_len, content, List.drop_take, List.drop_drop, List.take_take, blockAt, Nat.min_eq_left]
          · congr 2
            rw [Nat.mul_comm channel.io_blksize good, ← Nat.sub_mul, ← Nat.add_mul]
            congr 1
            omega
          · rw [Nat.mul_comm channel.io_blksize good, ← Nat.sub_mul, ← Nat.sub_mul]
            exact Nat.le_mul_of_pos_left _ (by omega))
        (fun _ => by omega)
      refine ⟨errno, pending, [.ok ()], ic', .ok (), _, ?_, cached', fun _ => ⟨rfl, rfl⟩⟩
      simp only [ioCacheReadBlocks, ← def_good, all, if_true, read, run, Nat.add_zero]
  · obtain ⟨ic', run, cached'⟩ := sync data len (fun k later less => by omega) (fun less => absurd less all)
    refine ⟨channel.io_error, channel.io_fd.pending, [], ic', .ok (), _, ?_, cached', fun _ => ⟨rfl, rfl⟩⟩
    simp only [ioCacheReadBlocks, ← def_good, all, if_false, run, Nat.add_zero]
    simp [Channel.after]

theorem readHunks_spec (nocache : Bool) (fuel : Nat) {todo : Nat} (cached : Cached channel ic)
    (positive : 0 < channel.io_blksize) (some : 0 < todo) (enough : count < fuel) :
    Reads channel blkno count (readHunks nocache fuel todo channel ic blkno count data) := by
  induction fuel generalizing todo channel ic blkno count data with
  | zero => omega
  | succ fuel ih =>
    rw [readHunks]
    split
    next none =>
      subst none
      refine ⟨channel.io_error, channel.io_fd.pending, [], ic, .ok (), data,
        by simp [Channel.after], cached, fun _ => ⟨rfl, ?_⟩⟩
      have empty : data = [] := List.length_eq_zero_iff.mp (by simpa using len)
      simp [empty]
    next more =>
      simp only
      generalize hunk : (if count < todo then count else todo) = todo
      have bounds : 0 < todo ∧ todo ≤ count := by
        split at hunk <;> omega
      have whole : todo * channel.io_blksize ≤ count * channel.io_blksize :=
        Nat.mul_le_mul_right _ bounds.2
      have first : (data.take (channel.io_blksize * todo)).length = todo * channel.io_blksize := by
        rw [List.length_take, len, Nat.mul_comm, Nat.min_eq_left whole]
      obtain ⟨errno, pending, new, ic₁, ret, here, run, cached₁, done⟩ :=
        ioCacheReadBlocks_spec blkno first nocache cached positive
      rw [run]
      cases ret with
      | error e =>
        refine ⟨errno, pending, new, ic₁, .error e, _, rfl, cached₁, fun full => ?_⟩
        cases (done full).1
      | ok _ =>
        obtain ⟨errno', pending', new', ic₂, ret, rest, run', cached₂, done'⟩ :=
          @ih (channel.after channel.io_fd.content errno pending new) ic₁ (blkno + todo) (count - todo)
            (data.drop (channel.io_blksize * todo))
            (by rw [List.length_drop, len, Nat.mul_comm channel.io_blksize todo, ← Nat.sub_mul]; rfl)
            todo cached₁ positive bounds.1 (by omega)
        simp only [Channel.after_after] at run'
        refine ⟨errno', pending', new ++ new', ic₂, ret, here ++ rest, ?_, cached₂, ?_⟩
        · simp only [run']
          rfl
        · intro full
          obtain ⟨-, first⟩ := done fun r member => full r (List.mem_append_left _ member)
          obtain ⟨ok, second⟩ := done' fun r member => full r (List.mem_append_right _ member)
          refine ⟨ok, ?_⟩
          have split : count * channel.io_blksize =
              todo * channel.io_blksize + (count - todo) * channel.io_blksize := by
            rw [← Nat.add_mul]
            congr 1
            omega
          rw [first, second, split, List.take_add, List.drop_drop, ← Nat.add_mul]
          rfl

omit len in
theorem oneMegOfBlocks_pos (positive : 0 < channel.io_blksize) :
    0 < oneMegOfBlocks channel := by
  apply Nat.div_pos _ positive
  simp only [oneMegabyte]
  omega

end Transfer

section Written

def bytesWritten (channel : Channel) (blkno size : Nat) (data : Buffer) : Nat :=
  if intMax < size || int64Max < blkno * channel.io_blksize then 0
  else (pwriteLoop data size (blkno * channel.io_blksize) channel.io_fd.pending channel.io_fd.content 0).moved.2

def unixIoWriteBytes (channel : Channel) (blkno size : Nat) (data : Buffer) :
    Channel × Except Errcode Unit × Nat :=
  let fd := channel.io_fd
  if intMax < size || int64Max < blkno * channel.io_blksize then
    ({ channel with io_fd := { fd with transfers := fd.transfers ++ [.error .undefined] } },
      .error .undefined, 0)
  else
    let loop := pwriteLoop data size (blkno * channel.io_blksize) fd.pending fd.content 0
    let (content, tot) := loop.moved
    let ret := match loop.ret with
      | .ok () => if tot ≠ size then .error .shortWrite else .ok ()
      | ret => ret
    (finish channel content loop ret, ret, tot / channel.io_blksize)

def ioCacheWriteBytes (channel : Channel) (ic : Cache) (blkno size : Nat) (data : Buffer)
    (nocache : Bool) : Channel × Cache × Except Errcode Unit :=
  let (channel, ret, completed) := unixIoWriteBytes channel blkno size data
  match syncWrite channel.io_blksize nocache completed blkno ic data with
  | .error e => (channel, ic, .error e)
  | .ok ic => (channel, ic, ret)

def writeBytes (nocache : Bool) (channel : Channel) (blkno size : Nat) (data : Buffer) :
    Channel × Except Errcode Unit :=
  match channel.io_cache with
  | some ic =>
    let (channel, ic, ret) := ioCacheWriteBytes channel ic blkno size data nocache
    ({ channel with io_cache := some ic }, ret)
  | none =>
    let (channel, ret, _) := unixIoWriteBytes channel blkno size data
    (channel, ret)

theorem writeWith_eq (nocache : Bool) (channel : Channel) (blkno count : Nat) (data : Buffer) :
    writeWith nocache channel blkno count data = writeBytes nocache channel blkno (count * channel.io_blksize) data := rfl

variable {channel : Channel} {ic : Cache}

def Whole (ic : Cache) (blksize blkno tot : Nat) (old new : Buffer) : Prop :=
  tot % blksize = 0 ∨ ioCacheLookup ic (blkno + tot / blksize) = none ∨
    blockAt new blksize (blkno + tot / blksize) = blockAt old blksize (blkno + tot / blksize)

theorem blockAt_take (data : Buffer) {blksize n k : Nat} (less : k < n) :
    blockAt (data.take (n * blksize)) blksize k = blockAt data blksize k := by
  have room : blksize ≤ n * blksize - k * blksize := by
    rw [← Nat.sub_mul]
    exact Nat.le_mul_of_pos_left _ (by omega)
  rw [blockAt, blockAt, List.drop_take, List.take_take, Nat.min_eq_left room]

theorem blockAt_stopped {content data : Buffer} {blksize blkno tot : Nat} (positive : 0 < blksize)
    (enough : tot ≤ data.length) (inside : blkno * blksize + tot ≤ content.length) {c : Nat}
    (other : c ≠ blkno + tot / blksize) :
    blockAt (splice content (blkno * blksize) (data.take tot)) blksize c =
      blockAt (splice content (blkno * blksize) (data.take (tot / blksize * blksize))) blksize c := by
  have le := Nat.div_mul_le_self tot blksize
  have rest := Nat.mod_lt tot positive
  have parts := Nat.div_add_mod' tot blksize
  set whole := tot / blksize * blksize with def_whole
  have short : (data.take whole).length = whole := by
    rw [List.length_take]
    omega
  have room : blkno * blksize + (data.take whole).length ≤ content.length := by omega
  have joined := splice_splice content (blkno * blksize) (data.take whole) ((data.drop whole).take (tot - whole)) room
  rw [← List.take_add, Nat.add_sub_cancel' le, short, def_whole, ← Nat.add_mul, ← def_whole] at joined
  have tail : ((data.drop whole).take (tot - whole)).length = tot - whole := by
    rw [List.length_take, List.length_drop]
    omega
  rw [← joined]
  refine blockAt_splice_outside _ blksize (blkno + tot / blksize) c 1 _ ?_ ?_ (by omega)
  · rw [length_splice _ _ _ room, tail, Nat.add_mul, ← def_whole]
    omega
  · omega

theorem syncWrite_stopped {blksize : Nat} {content : Buffer} (nocache : Bool) (blkno tot : Nat)
    (data : Buffer) (step : ic.InStep blksize content fun _ => True) (positive : 0 < blksize)
    (enough : tot ≤ data.length)
    (inside : 0 < tot → blkno * blksize + tot ≤ content.length ∧ blkno + tot / blksize ≤ uint64Max) :
    ∃ ic', syncWrite blksize nocache (tot / blksize) blkno ic data = .ok ic' ∧ ic'.Linked ∧ 0 < ic'.size ∧
      (ic'.Coherent blksize (splice content (blkno * blksize) (data.take tot)) (fun _ => True) ↔
        Whole ic' blksize blkno tot content (splice content (blkno * blksize) (data.take tot))) := by
  rcases Nat.eq_zero_or_pos tot with rfl | some
  · simp only [Nat.zero_div, Whole, Nat.zero_mod, List.take_zero, splice_nil, true_or, iff_true]
    exact ⟨ic, rfl, step.linked, step.nonempty, step.coherent⟩
  obtain ⟨room, bound⟩ := inside some
  have le := Nat.div_mul_le_self tot blksize
  have short : (data.take (tot / blksize * blksize)).length = tot / blksize * blksize := by
    rw [List.length_take]
    omega
  set whole := splice content (blkno * blksize) (data.take (tot / blksize * blksize)) with def_whole
  have away (c : Nat) (out : c < blkno ∨ blkno + tot / blksize ≤ c) :
      blockAt whole blksize c = blockAt content blksize c :=
    blockAt_splice_outside _ _ _ _ (tot / blksize) _ (by omega) short.le out
  have others : ic.InStep blksize whole fun c => True ∧ (c < blkno ∨ blkno + tot / blksize ≤ c) :=
    ⟨step.linked, step.nonempty,
      fun icb member out => (step.coherent icb member trivial).trans (away _ out.2).symm⟩
  obtain ⟨ic', run, linked', nonempty', coherent'⟩ := syncWrite_spec nocache (tot / blksize) blkno ic data others
    (fun k less => by
      rw [def_whole, blockAt_splice_inside _ _ _ k (tot / blksize) _ (by omega) short.ge less, blockAt_take data less])
    (fun _ => bound)
  refine ⟨ic', run, linked', nonempty', ?_⟩
  have same (c : Nat) (other : c ≠ blkno + tot / blksize) :=
    blockAt_stopped positive enough room other
  constructor
  · intro right
    cases hit : ioCacheLookup ic' (blkno + tot / blksize) with
    | none => exact .inr (.inl hit)
    | some icb =>
      obtain ⟨member, key⟩ := lookup_some hit
      have new := right icb member trivial
      have old := coherent' icb member trivial
      rw [key] at new old
      exact .inr (.inr (new.symm.trans (old.trans (away _ (.inr le_rfl)))))
  · rintro (ends | absent | unchanged)
    · rwa [← Nat.div_mul_cancel (Nat.dvd_of_mod_eq_zero ends)]
    · intro icb member _
      rw [same _ (lookup_none linked' absent icb member)]
      exact coherent' icb member trivial
    · intro icb member _
      by_cases torn : ic'.blkno icb = blkno + tot / blksize
      · rw [torn, unchanged, ← away _ (.inr le_rfl), ← torn]
        exact coherent' icb member trivial
      · rw [same _ torn]
        exact coherent' icb member trivial

theorem unixIoWriteBytes_spec (channel : Channel) (blkno size : Nat) (data : Buffer) (len : data.length = size) :
    ∃ errno pending ret, unixIoWriteBytes channel blkno size data =
        (channel.after (splice channel.io_fd.content (blkno * channel.io_blksize)
          (data.take (bytesWritten channel blkno size data))) errno pending [ret], ret,
          bytesWritten channel blkno size data / channel.io_blksize) ∧
      bytesWritten channel blkno size data ≤ size ∧
      (0 < bytesWritten channel blkno size data →
        blkno * channel.io_blksize + bytesWritten channel blkno size data ≤ channel.io_fd.content.length ∧
        size ≤ intMax ∧ blkno * channel.io_blksize ≤ int64Max) ∧
      (ret = .ok () → bytesWritten channel blkno size data = size) := by
  by_cases wraps : (intMax < size || int64Max < blkno * channel.io_blksize) = true
  · refine ⟨channel.io_error, channel.io_fd.pending, .error .undefined, ?_⟩
    simp [unixIoWriteBytes, bytesWritten, wraps, Channel.after]
  · obtain ⟨tot, moved, le, room, full⟩ := pwriteLoop_spec channel.io_fd.content data size
      (blkno * channel.io_blksize) len.ge channel.io_fd.pending channel.io_fd.content 0 (by simp) (Nat.zero_le _)
      (fun none => absurd none (lt_irrefl 0))
    simp only [unixIoWriteBytes, bytesWritten, if_neg wraps, moved]
    refine ⟨_, _, _, rfl, le, fun some => ⟨room some, by simpa using wraps⟩, fun ok => ?_⟩
    split at ok
    next ended => exact full ended
    next failed => exact absurd ok failed

theorem ioCacheWriteBytes_step (blkno size : Nat) (data : Buffer)
    (nocache : Bool) (cached : Cached channel ic) (positive : 0 < channel.io_blksize) (len : data.length = size) :
    ∃ errno pending ret content ic', ioCacheWriteBytes channel ic blkno size data nocache =
        (channel.after content errno pending [ret], ic', ret) ∧ ic'.Linked ∧ 0 < ic'.size ∧
      (ret = .ok () → content = splice channel.io_fd.content (blkno * channel.io_blksize) data ∧
        bytesWritten channel blkno size data = size) ∧
      (ic'.Coherent channel.io_blksize content (fun _ => True) ↔
        Whole ic' channel.io_blksize blkno (bytesWritten channel blkno size data) channel.io_fd.content content) := by
  obtain ⟨errno, pending, ret, write, le, room, full⟩ := unixIoWriteBytes_spec channel blkno size data len
  obtain ⟨ic', run, linked', nonempty', right⟩ := syncWrite_stopped nocache blkno
    (bytesWritten channel blkno size data) data cached positive (by omega)
    (fun some => by
      obtain ⟨inside, small, start⟩ := room some
      refine ⟨inside, ?_⟩
      have blocks := Nat.div_mul_le_self (bytesWritten channel blkno size data) channel.io_blksize
      exact int_bound positive (by omega) start)
  refine ⟨errno, pending, ret, _, ic', ?_, linked', nonempty', fun ok => ⟨?_, full ok⟩, right⟩
  · simp only [ioCacheWriteBytes, write, Channel.after, run]
  · rw [full ok, List.take_of_length_le len.le]

end Written

structure Simulates (blksize : Nat) (a b : Channel) : Prop where
  cached : ∃ ic, a.io_cache = some ic ∧ Cached a ic
  uncached : b.io_cache = none
  left : a.io_blksize = blksize
  right : b.io_blksize = blksize
  nocache : a.io_nocache = b.io_nocache
  content : a.io_fd.content = b.io_fd.content

def AllFull (channel : Channel) : Prop := ∀ r ∈ channel.io_fd.transfers, r = .ok ()

def Request.Valid (blksize : Nat) : Request → Prop
  | .read _ count data => 0 < count ∧ data.length = count * blksize
  | .readNocache _ count data => 0 < count ∧ data.length = count * blksize
  | .write _ count data => 0 < count ∧ data.length = count * blksize
  | .writeNocache _ count data => 0 < count ∧ data.length = count * blksize
  | .setNocache _ => True

section Record

variable (channel : Channel)

abbrev Grows (a b : Channel) : Prop := a.io_fd.transfers <+: b.io_fd.transfers

theorem unixIoReadBlock_grows (blkno count : Nat) (data : Buffer) :
    Grows channel (unixIoReadBlock channel blkno count data).1 := by
  unfold unixIoReadBlock
  simp only
  repeat' split
  all_goals exact List.prefix_append _ _

theorem writeBytes_grows (nocache : Bool) (blkno size : Nat) (data : Buffer) :
    Grows channel (writeBytes nocache channel blkno size data).1 := by
  have transfer : Grows channel (unixIoWriteBytes channel blkno size data).1 := by
    unfold unixIoWriteBytes
    split <;> exact List.prefix_append _ _
  unfold writeBytes
  split
  · simp only [ioCacheWriteBytes]
    split <;> exact transfer
  · exact transfer

theorem ioCacheReadBlocks_grows (ic : Cache) (blkno count : Nat) (data : Buffer)
    (nocache : Bool) : Grows channel (ioCacheReadBlocks channel ic blkno count data nocache).1 := by
  have read := unixIoReadBlock_grows channel (blkno + goodBlocks ic count blkno)
    (count - goodBlocks ic count blkno) (data.drop (channel.io_blksize * goodBlocks ic count blkno))
  unfold ioCacheReadBlocks
  by_cases some : goodBlocks ic count blkno < count
  · simp only [some, if_true]
    repeat' split
    all_goals exact read
  · simp only [some, if_false]
    split <;> exact List.prefix_rfl

theorem readHunks_grows (nocache : Bool) (fuel todo : Nat) (channel : Channel) (ic : Cache)
    (blkno count : Nat) (data : Buffer) :
    Grows channel (readHunks nocache fuel todo channel ic blkno count data).1 := by
  induction fuel generalizing todo channel ic blkno count data with
  | zero => exact List.prefix_rfl
  | succ fuel ih =>
    rw [readHunks]
    split
    · exact List.prefix_rfl
    · simp only
      generalize (if count < todo then count else todo) = todo
      have first := ioCacheReadBlocks_grows channel ic blkno todo
        (data.take (channel.io_blksize * todo)) nocache
      split <;> rename_i hunk <;> rw [hunk] at first
      · exact first.trans (ih _ _ _ _ _ _)
      · exact first

theorem serve_grows (request : Request) : Grows channel (serve channel request).1 := by
  have read (nocache : Bool) (blkno count : Nat) (data : Buffer) :
      Grows channel (readWith nocache channel blkno count data).1 := by
    unfold readWith
    split
    · exact readHunks_grows nocache _ _ channel _ blkno count data
    · exact unixIoReadBlock_grows channel blkno count data
  cases request with
  | read blkno count data => exact read _ blkno count data
  | readNocache blkno count data => exact read _ blkno count data
  | write blkno count data => exact writeBytes_grows channel _ blkno _ data
  | writeNocache blkno count data => exact writeBytes_grows channel _ blkno _ data
  | setNocache nocache => exact List.prefix_rfl

theorem serveAll_grows (requests : List Request) :
    Grows channel (serveAll channel requests).1 := by
  induction requests generalizing channel with
  | nil => exact List.prefix_rfl
  | cons request requests ih => exact (serve_grows channel request).trans (ih _)

theorem Grows.allFull {a b : Channel} (grows : Grows a b) (full : AllFull b) : AllFull a :=
  fun r member => full r (grows.subset member)

end Record

section Simulates

variable {blksize : Nat} {a b : Channel} (nocache : Bool) (blkno count : Nat) (data : Buffer)
  (sim : Simulates blksize a b) (positive : 0 < blksize) (len : data.length = count * blksize)

include sim positive len

theorem readWith_simulates (fullA : AllFull (readWith nocache a blkno count data).1)
    (fullB : AllFull (readWith nocache b blkno count data).1) :
    (readWith nocache a blkno count data).2 = (readWith nocache b blkno count data).2 ∧
      Simulates blksize (readWith nocache a blkno count data).1 (readWith nocache b blkno count data).1 := by
  obtain ⟨ic, cache, cached⟩ := sim.cached
  have lenA : data.length = count * a.io_blksize := sim.left ▸ len
  have lenB : data.length = count * b.io_blksize := sim.right ▸ len
  obtain ⟨errno, pending, new, ic', ret, out, run, cached', done⟩ := readHunks_spec blkno lenA nocache (count + 1)
    cached (sim.left ▸ positive) (oneMegOfBlocks_pos (sim.left ▸ positive)) (Nat.lt_succ_self _)
  obtain ⟨errnoB, pendingB, retB, outB, runB, doneB⟩ := unixIoReadBlock_spec blkno lenB
  simp only [readWith, cache, sim.uncached, ioCacheReadBlock, run, runB] at fullA fullB ⊢
  obtain ⟨rfl, content⟩ := done fun r member => fullA r (List.mem_append_right _ member)
  have okB : retB = .ok () := fullB retB (List.mem_append_right _ List.mem_cons_self)
  obtain ⟨-, -, -, contentB⟩ := doneB okB
  refine ⟨?_, ⟨⟨ic', rfl, cached'⟩, sim.uncached, sim.left, sim.right, sim.nocache, sim.content⟩⟩
  rw [okB, content, contentB, sim.content, sim.left, sim.right]

theorem writeWith_simulates (fullA : AllFull (writeWith nocache a blkno count data).1)
    (fullB : AllFull (writeWith nocache b blkno count data).1) :
    (writeWith nocache a blkno count data).2 = (writeWith nocache b blkno count data).2 ∧
      Simulates blksize (writeWith nocache a blkno count data).1 (writeWith nocache b blkno count data).1 := by
  obtain ⟨ic, cache, cached⟩ := sim.cached
  have lenA : data.length = count * a.io_blksize := sim.left ▸ len
  have lenB : data.length = count * b.io_blksize := sim.right ▸ len
  obtain ⟨errno, pending, ret, content, ic', run, linked, nonempty, done, coherent⟩ :=
    ioCacheWriteBytes_step blkno _ data nocache cached (sim.left ▸ positive) lenA
  obtain ⟨errnoB, pendingB, retB, runB, -, -, doneB⟩ := unixIoWriteBytes_spec b blkno _ data lenB
  simp only [writeWith_eq, writeBytes, cache, sim.uncached, run, runB] at fullA fullB ⊢
  have okA : ret = .ok () := fullA ret (List.mem_append_right _ List.mem_cons_self)
  have okB : retB = .ok () := fullB retB (List.mem_append_right _ List.mem_cons_self)
  obtain ⟨rfl, all⟩ := done okA
  -- the write ends with its last block
  have whole := coherent.mpr (.inl (by rw [all]; exact Nat.mul_mod_left _ _))
  refine ⟨okA.trans okB.symm, ⟨⟨ic', rfl, linked, nonempty, whole⟩, sim.uncached, sim.left, sim.right, sim.nocache, ?_⟩⟩
  rw [doneB okB, List.take_of_length_le lenB.le]
  simp only [Channel.after, sim.content, sim.left, sim.right]

end Simulates

theorem serve_simulates (blksize : Nat) (a b : Channel) (request : Request) (sim : Simulates blksize a b)
    (positive : 0 < blksize) (valid : request.Valid blksize)
    (fullA : AllFull (serve a request).1) (fullB : AllFull (serve b request).1) :
    (serve a request).2 = (serve b request).2 ∧
      Simulates blksize (serve a request).1 (serve b request).1 := by
  cases request with
  | read blkno count data =>
    simp only [serve, ioReadBlock, ← sim.nocache] at fullA fullB ⊢
    exact readWith_simulates _ blkno count data sim positive valid.2 fullA fullB
  | readNocache blkno count data =>
    exact readWith_simulates true blkno count data sim positive valid.2 fullA fullB
  | write blkno count data =>
    simp only [serve, ioWriteBlock, ← sim.nocache] at fullA fullB ⊢
    obtain ⟨same, sim'⟩ := writeWith_simulates _ blkno count data sim positive valid.2 fullA fullB
    exact ⟨by rw [same], sim'⟩
  | writeNocache blkno count data =>
    simp only [serve, ioWriteBlockNocache] at fullA fullB ⊢
    obtain ⟨same, sim'⟩ := writeWith_simulates true blkno count data sim positive valid.2 fullA fullB
    exact ⟨by rw [same], sim'⟩
  | setNocache nocache =>
    exact ⟨rfl, ⟨sim.cached, sim.uncached, sim.left, sim.right, rfl, sim.content⟩⟩

theorem serveAll_simulates (blksize : Nat) (a b : Channel) (requests : List Request) (sim : Simulates blksize a b)
    (positive : 0 < blksize) (valid : ∀ request ∈ requests, request.Valid blksize)
    (fullA : AllFull (serveAll a requests).1) (fullB : AllFull (serveAll b requests).1) :
    (serveAll a requests).2 = (serveAll b requests).2 ∧
      Simulates blksize (serveAll a requests).1 (serveAll b requests).1 := by
  induction requests generalizing a b with
  | nil => exact ⟨rfl, sim⟩
  | cons request requests ih =>
    have firstA := (serveAll_grows (serve a request).1 requests).allFull fullA
    have firstB := (serveAll_grows (serve b request).1 requests).allFull fullB
    obtain ⟨same, sim'⟩ := serve_simulates blksize a b request sim positive
      (valid request List.mem_cons_self) firstA firstB
    obtain ⟨rest, sim''⟩ := ih _ _ sim'
      (fun r member => valid r (List.mem_cons_of_mem _ member)) fullA fullB
    exact ⟨by simp only [serveAll, same, rest], sim''⟩

def opened (blksize : Nat) (content : Buffer) (pending : List SystemCall) : Channel :=
  ⟨blksize, 0, ⟨content, pending, []⟩, false, none⟩

theorem ioInitCache_simulates (blksize nrBlocks : Nat) (content : Buffer)
    (pendingA pendingB : List SystemCall) (buffer : Nat → Buffer) (nonempty : 0 < nrBlocks) :
    Simulates blksize (ioInitCache (opened blksize content pendingA) nrBlocks buffer)
      (opened blksize content pendingB) := by
  refine ⟨⟨_, rfl, ⟨?_, ?_, ?_⟩, ?_, ?_⟩, rfl, rfl, rfl, rfl, rfl⟩
  · simp [Cache.size]
  · exact List.Pairwise.nil
  · intro icb
    simp [Cache.entries, Rbtree.Node.toList, Cache.blkno, Cache.block, Cache.size,
      List.getD_eq_getElem?_getD]
    intro inside
    simp [inside]
  · simpa [Cache.size] using nonempty
  · intro icb member
    cases member

theorem serveAll_cached (blksize nrBlocks : Nat) (content : Buffer) (pendingA pendingB : List SystemCall)
    (buffer : Nat → Buffer) (requests : List Request) (positive : 0 < blksize) (nonempty : 0 < nrBlocks)
    (valid : ∀ request ∈ requests, request.Valid blksize)
    (fullA : AllFull
      (serveAll (ioInitCache (opened blksize content pendingA) nrBlocks buffer) requests).1)
    (fullB : AllFull (serveAll (opened blksize content pendingB) requests).1) :
    (serveAll (ioInitCache (opened blksize content pendingA) nrBlocks buffer) requests).2 =
        (serveAll (opened blksize content pendingB) requests).2 ∧
      (serveAll (ioInitCache (opened blksize content pendingA) nrBlocks buffer) requests).1.io_fd.content =
        (serveAll (opened blksize content pendingB) requests).1.io_fd.content ∧
      ∃ ic, (serveAll (ioInitCache (opened blksize content pendingA) nrBlocks buffer)
          requests).1.io_cache = some ic ∧ ic.Linked := by
  obtain ⟨same, sim⟩ := serveAll_simulates blksize _ _ requests
    (ioInitCache_simulates blksize nrBlocks content pendingA pendingB buffer nonempty) positive valid fullA
    fullB
  obtain ⟨ic, cache, cached⟩ := sim.cached
  exact ⟨same, sim.content, ic, cache, cached.linked⟩

theorem serveAll_cached_two_blocks :
    (serveAll (ioInitCache (opened 2 [1, 2, 3, 4] [.moved 2, .moved 1, .moved 1]) 1 fun _ => [0, 0])
        [.write 0 1 [9, 8], .read 0 2 [0, 0, 0, 0], .setNocache true, .read 1 1 [0, 0]]).2 =
        (serveAll (opened 2 [1, 2, 3, 4] [.moved 2, .moved 4, .moved 2])
          [.write 0 1 [9, 8], .read 0 2 [0, 0, 0, 0], .setNocache true, .read 1 1 [0, 0]]).2 :=
  (serveAll_cached 2 1 [1, 2, 3, 4] [.moved 2, .moved 1, .moved 1] [.moved 2, .moved 4, .moved 2]
    (fun _ => [0, 0]) [.write 0 1 [9, 8], .read 0 2 [0, 0, 0, 0], .setNocache true, .read 1 1 [0, 0]]
    (by decide) (by decide) (by simp [Request.Valid]) (by unfold AllFull; decide)
    (by unfold AllFull; decide)).1

end Ocfs2.UnixIo
