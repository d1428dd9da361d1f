import Ocfs2.Libocfs2.IoRefinement

set_option autoImplicit false

namespace Ocfs2.UnixIo

open ByteBuffer

section Bytes

def unixIoReadBytes (channel : Channel) (blkno size : Nat) (data : Buffer) :
    Channel × Except Errcode Unit × Buffer :=
  let fd := channel.io_fd
  if intMax < size || int64Max < blkno * channel.io_blksize then
    ({ channel with io_fd := { fd with transfers := fd.transfers ++ [.error .undefined] } },
      .error .undefined, data)
  else
    let loop := preadLoop fd.content size (blkno * channel.io_blksize) fd.pending []
    let got := loop.moved
    match loop.ret with
    | .ok () =>
      if got.length ≠ size then
        (finish channel fd.content loop (.error .shortRead), .error .shortRead,
          splice data 0 (got ++ List.replicate (size - got.length) 0))
      else (finish channel fd.content loop (.ok ()), .ok (), splice data 0 got)
    | ret => (finish channel fd.content loop ret, ret, splice data 0 got)

def ioCacheReadBytes (channel : Channel) (ic : Cache) (data : Buffer) :
    Channel × Cache × Except Errcode Unit × Buffer :=
  (channel, ic, .ok (), data)

def readBytes (channel : Channel) (blkno size : Nat) (data : Buffer) :
    Channel × Except Errcode Unit × Buffer :=
  match channel.io_cache with
  | some ic =>
    let (channel, ic, ret, data) := ioCacheReadBytes channel ic data
    ({ channel with io_cache := some ic }, ret, data)
  | none => unixIoReadBytes channel blkno size data

end Bytes

inductive Call where
  | blocks (request : Request)
  | readBytes (blkno size : Nat) (data : Buffer)
  | readBytesNocache (blkno size : Nat) (data : Buffer)
  | writeBytes (blkno size : Nat) (data : Buffer)
  | writeBytesNocache (blkno size : Nat) (data : Buffer)
  deriving DecidableEq

def serveCall (channel : Channel) : Call → Channel
  | .blocks request => (serve channel request).1
  | .readBytes blkno size data => (readBytes channel blkno size data).1
  | .readBytesNocache blkno size data => (readBytes channel blkno size data).1
  | .writeBytes blkno size data => (writeBytes channel.io_nocache channel blkno size data).1
  | .writeBytesNocache blkno size data => (writeBytes true channel blkno size data).1

def serveCalls (channel : Channel) (calls : List Call) : Channel := calls.foldl serveCall channel

def Call.Valid (blksize : Nat) : Call → Prop
  | .blocks request => request.Valid blksize
  | .readBytes _ size data => 0 < size ∧ data.length = size
  | .readBytesNocache _ size data => 0 < size ∧ data.length = size
  | .writeBytes _ size data => 0 < size ∧ data.length = size
  | .writeBytesNocache _ size data => 0 < size ∧ data.length = size

def Call.written (blksize : Nat) : Call → Option (Nat × Nat × Buffer)
  | .blocks (.write blkno count data) => some (blkno, count * blksize, data)
  | .blocks (.writeNocache blkno count data) => some (blkno, count * blksize, data)
  | .writeBytes blkno size data => some (blkno, size, data)
  | .writeBytesNocache blkno size data => some (blkno, size, data)
  | _ => none

def CachedRight (channel : Channel) : Prop :=
  ∀ ic, channel.io_cache = some ic → ∀ blkno icb, ioCacheLookup ic blkno = some icb →
    (ic.block icb).icb_buf = blockAt channel.io_fd.content channel.io_blksize blkno

def StopsSafely (channel : Channel) (call : Call) : Prop :=
  ∀ blkno size data, call.written channel.io_blksize = some (blkno, size, data) →
    let tot := bytesWritten channel blkno size data
    let torn := blkno + tot / channel.io_blksize
    tot % channel.io_blksize = 0 ∨
      (∀ ic, (serveCall channel call).io_cache = some ic → ioCacheLookup ic torn = none) ∨
      blockAt (serveCall channel call).io_fd.content channel.io_blksize torn =
        blockAt channel.io_fd.content channel.io_blksize torn

variable {ic : Cache} {channel : Channel}

section Step

theorem lookup_of_mem (linked : ic.Linked) {icb : Nat} (member : icb ∈ ic.entries) :
    ioCacheLookup ic (ic.blkno icb) = some icb := by
  cases hit : ioCacheLookup ic (ic.blkno icb) with
  | none => exact absurd rfl (lookup_none linked hit icb member)
  | some j =>
    obtain ⟨other, key⟩ := lookup_some hit
    rw [blkno_inj linked other member key]

theorem cachedRight_iff (cache : channel.io_cache = some ic)
    (linked : ic.Linked) :
    CachedRight channel ↔ ic.Coherent channel.io_blksize channel.io_fd.content fun _ => True := by
  constructor
  · intro right icb member _
    exact right ic cache _ icb (lookup_of_mem linked member)
  · intro coherent ic' same blkno icb hit
    cases cache.symm.trans same
    obtain ⟨member, key⟩ := lookup_some hit
    rw [← key]
    exact coherent icb member trivial

end Step

structure Between (channel : Channel) (ic : Cache) : Prop where
  cache : channel.io_cache = some ic
  linked : ic.Linked
  nonempty : 0 < ic.size
  positive : 0 < channel.io_blksize

theorem Between.cached (between : Between channel ic)
    (right : CachedRight channel) : Cached channel ic :=
  ⟨between.linked, between.nonempty, (cachedRight_iff between.cache between.linked).mp right⟩

theorem readWith_step (nocache : Bool) (blkno count : Nat) (data : Buffer)
    (between : Between channel ic) (right : CachedRight channel)
    (len : data.length = count * channel.io_blksize) :
    ∃ ic', Between (readWith nocache channel blkno count data).1 ic' ∧
      (readWith nocache channel blkno count data).1.io_blksize = channel.io_blksize ∧
      CachedRight (readWith nocache channel blkno count data).1 := by
  obtain ⟨errno, pending, new, ic', ret, out, run, cached', -⟩ := readHunks_spec blkno len nocache (count + 1)
    (between.cached right) between.positive (oneMegOfBlocks_pos between.positive) (Nat.lt_succ_self _)
  simp only [readWith, between.cache, ioCacheReadBlock, run]
  exact ⟨ic', ⟨rfl, cached'.linked, cached'.nonempty, between.positive⟩, rfl,
    (cachedRight_iff rfl cached'.linked).mpr cached'.coherent⟩

theorem writeBytes_step (nocache : Bool) (blkno size : Nat) (data : Buffer)
    (between : Between channel ic) (right : CachedRight channel) (len : data.length = size) :
    ∃ ic', Between (writeBytes nocache channel blkno size data).1 ic' ∧
      (writeBytes nocache channel blkno size data).1.io_blksize = channel.io_blksize ∧
      (CachedRight (writeBytes nocache channel blkno size data).1 ↔
        Whole ic' channel.io_blksize blkno (bytesWritten channel blkno size data) channel.io_fd.content
          (writeBytes nocache channel blkno size data).1.io_fd.content) := by
  obtain ⟨errno, pending, ret, content, ic', run, linked', nonempty', -, coherent⟩ :=
    ioCacheWriteBytes_step blkno size data nocache (between.cached right) between.positive len
  simp only [writeBytes, between.cache, run]
  refine ⟨ic', ⟨rfl, linked', nonempty', between.positive⟩, rfl, ?_⟩
  exact (cachedRight_iff rfl linked').trans coherent

theorem serveCall_step (call : Call) (between : Between channel ic)
    (right : CachedRight channel) (valid : call.Valid channel.io_blksize) :
    ∃ ic', Between (serveCall channel call) ic' ∧
      (serveCall channel call).io_blksize = channel.io_blksize ∧
      (CachedRight (serveCall channel call) ↔ StopsSafely channel call) := by
  have reads {after : Channel} {call : Call} (here : CachedRight after)
      (read : call.written channel.io_blksize = none) : CachedRight after ↔ StopsSafely channel call := by
    refine iff_of_true here ?_
    intro blkno size data write
    rw [read] at write
    cases write
  -- the write is named by the call, its result by the step
  have writes {call : Call} (nocache : Bool) (blkno size : Nat) (data : Buffer) (len : data.length = size)
      (serves : serveCall channel call = (writeBytes nocache channel blkno size data).1)
      (write : call.written channel.io_blksize = some (blkno, size, data)) :
      ∃ ic', Between (serveCall channel call) ic' ∧ (serveCall channel call).io_blksize = channel.io_blksize ∧
        (CachedRight (serveCall channel call) ↔ StopsSafely channel call) := by
    obtain ⟨ic', between', same, safe⟩ := writeBytes_step nocache blkno size data between right len
    rw [← serves] at between' same safe
    refine ⟨ic', between', same, safe.trans ?_⟩
    simp only [StopsSafely, Whole, write, Option.some.injEq, Prod.mk.injEq, between'.cache, forall_eq']
    constructor
    · rintro stops _ _ _ ⟨rfl, rfl, rfl⟩
      exact stops
    · intro stops
      exact stops _ _ _ ⟨rfl, rfl, rfl⟩
  cases call with
  | blocks request =>
    cases request with
    | read blkno count data =>
      obtain ⟨ic', between', same, here⟩ :=
        readWith_step channel.io_nocache blkno count data between right valid.2
      exact ⟨ic', between', same, reads here rfl⟩
    | readNocache blkno count data =>
      obtain ⟨ic', between', same, here⟩ := readWith_step true blkno count data between right valid.2
      exact ⟨ic', between', same, reads here rfl⟩
    | write blkno count data =>
      exact writes channel.io_nocache blkno (count * channel.io_blksize) data valid.2 rfl rfl
    | writeNocache blkno count data =>
      exact writes true blkno (count * channel.io_blksize) data valid.2 rfl rfl
    | setNocache nocache =>
      exact ⟨ic, ⟨between.cache, between.linked, between.nonempty, between.positive⟩, rfl, reads right rfl⟩
  | readBytes blkno size data | readBytesNocache blkno size data =>
    simp only [serveCall, readBytes, between.cache, ioCacheReadBytes]
    rw [← between.cache]
    exact ⟨ic, between, trivial, reads right rfl⟩
  | writeBytes blkno size data => exact writes channel.io_nocache blkno size data valid.2 rfl rfl
  | writeBytesNocache blkno size data => exact writes true blkno size data valid.2 rfl rfl

section Prefixes

variable {α : Type} {x : α} {xs : List α}

theorem forall_prefix_cons {P : List α → Prop} :
    (∀ done, done <+: x :: xs → P done) ↔ P [] ∧ ∀ done, done <+: xs → P (x :: done) := by
  constructor
  · exact fun all => ⟨all [] (List.nil_prefix ..), fun done before => all (x :: done) (List.cons_prefix_cons.mpr ⟨rfl, before⟩)⟩
  · rintro ⟨none, more⟩ (_ | ⟨y, done⟩) before
    · exact none
    · obtain ⟨rfl, inner⟩ := List.cons_prefix_cons.mp before
      exact more done inner

theorem forall_snoc_prefix_cons {P : List α → α → Prop} :
    (∀ done next, done ++ [next] <+: x :: xs → P done next) ↔
      P [] x ∧ ∀ done next, done ++ [next] <+: xs → P (x :: done) next := by
  constructor
  · exact fun all => ⟨all [] x (by simp), fun done next before => all (x :: done) next (List.cons_prefix_cons.mpr ⟨rfl, before⟩)⟩
  · rintro ⟨first, more⟩ (_ | ⟨y, done⟩) next before
    · obtain ⟨rfl, -⟩ := List.cons_prefix_cons.mp before
      exact first
    · obtain ⟨rfl, inner⟩ := List.cons_prefix_cons.mp before
      exact more done next inner

end Prefixes

theorem serveCalls_right_iff (calls : List Call) (between : Between channel ic)
    (right : CachedRight channel) (valid : ∀ call ∈ calls, call.Valid channel.io_blksize) :
    (∀ done, done <+: calls → CachedRight (serveCalls channel done)) ↔
      ∀ done call, done ++ [call] <+: calls → StopsSafely (serveCalls channel done) call := by
  induction calls generalizing channel ic with
  | nil =>
    refine iff_of_true (fun done before => ?_) fun done call before => by simp at before
    rw [List.prefix_nil.mp before]
    exact right
  | cons call calls ih =>
    obtain ⟨here, later⟩ := List.forall_mem_cons.mp valid
    obtain ⟨ic', between', same, safe⟩ := serveCall_step call between right here
    have rest (right' : CachedRight (serveCall channel call)) := ih between' right' (by rw [same]; exact later)
    rw [forall_prefix_cons, forall_snoc_prefix_cons]
    constructor
    · rintro ⟨-, always⟩
      have first : CachedRight (serveCall channel call) := always [] (List.nil_prefix ..)
      exact ⟨safe.mp first, (rest first).mp always⟩
    · rintro ⟨first, always⟩
      exact ⟨right, (rest (safe.mpr first)).mpr always⟩

def AlwaysRight (channel : Channel) (calls : List Call) : Prop :=
  ∀ done, done <+: calls → CachedRight (serveCalls channel done)

abbrev cachedChannel (blksize nrBlocks : Nat) (content : Buffer) (pending : List SystemCall) (buffer : Nat → Buffer) :
    Channel :=
  ioInitCache (opened blksize content pending) nrBlocks buffer

section Runs

def sector (byte : Byte) : Buffer := List.replicate 512 byte

def tornChannel : Channel :=
  serveCalls (cachedChannel 512 1 (sector 1) [.moved 512, .moved 1, .failed 5] fun _ => sector 0)
    [.blocks (.read 0 1 (sector 0)), .blocks (.write 0 1 (sector 9))]

end Runs

end Ocfs2.UnixIo
