import Ocfs2.Libocfs2.Common
import Ocfs2.Libocfs2.KernelRbtree
import Ocfs2.Shared.ByteBuffer

set_option autoImplicit false

/-!
The device behind a descriptor is its bytes together with the results its system calls will give. A
cache block is known by its index in the metadata buffer, which stands for its address.
-/

namespace Ocfs2.UnixIo

open ByteBuffer Rbtree

inductive SystemCall where
  | failed (errno : Int)
  | moved (n : Nat)
  deriving DecidableEq

structure Device where
  content : Buffer
  pending : List SystemCall
  /-- The result of every transfer made so far. -/
  transfers : List (Except Errcode Unit)

structure CacheBlock where
  icb_blkno : Nat
  icb_buf : Buffer
  deriving DecidableEq

structure Cache where
  ic_lru : List Nat
  ic_lookup : Node Nat
  ic_metadata_buffer : List CacheBlock

structure Channel where
  io_blksize : Nat
  io_error : Int
  io_fd : Device
  io_nocache : Bool
  io_cache : Option Cache

def oneMegabyte : Nat := 1024 * 1024

def oneMegOfBlocks (channel : Channel) : Nat :=
  (oneMegabyte + channel.io_blksize - 1) / channel.io_blksize

structure Loop (α : Type) where
  ret : Except Errcode Unit
  errno : Option Int
  pending : List SystemCall
  moved : α

def preadLoop (content : Buffer) (size location : Nat) : List SystemCall → Buffer → Loop Buffer
  | calls, got =>
    if size ≤ got.length then ⟨.ok (), none, calls, got⟩
    else
      match calls with
      | [] => ⟨.error .io, none, [], got⟩
      | .failed errno :: calls => ⟨.error .io, some errno, calls, got⟩
      | .moved n :: calls =>
        let more := (content.drop (location + got.length)).take (min n (size - got.length))
        if more = [] then ⟨.error .io, none, calls, got⟩
        else preadLoop content size location calls (got ++ more)

def pwriteLoop (data : Buffer) (size location : Nat) :
    List SystemCall → Buffer → Nat → Loop (Buffer × Nat)
  | calls, content, tot =>
    if size ≤ tot then ⟨.ok (), none, calls, (content, tot)⟩
    else
      match calls with
      | [] => ⟨.error .io, none, [], (content, tot)⟩
      | .failed errno :: calls => ⟨.error .io, some errno, calls, (content, tot)⟩
      | .moved n :: calls =>
        let room := content.length - (location + tot)
        let more := (data.drop tot).take (min (min n (size - tot)) room)
        if more = [] then ⟨.error .io, none, calls, (content, tot)⟩
        else
          pwriteLoop data size location calls (splice content (location + tot) more)
            (tot + more.length)

/-- A transfer whose size or offset overflows is undefined: both are signed products. -/
def overflows (channel : Channel) (blkno count : Nat) : Bool :=
  intMax < count * channel.io_blksize || int64Max < blkno * channel.io_blksize

def finish {α : Type} (channel : Channel) (content : Buffer) (loop : Loop α)
    (ret : Except Errcode Unit) : Channel :=
  { channel with
    io_error := loop.errno.getD channel.io_error
    io_fd := ⟨content, loop.pending, channel.io_fd.transfers ++ [ret]⟩ }

def unixIoReadBlock (channel : Channel) (blkno count : Nat) (data : Buffer) :
    Channel × Except Errcode Unit × Buffer :=
  let fd := channel.io_fd
  if overflows channel blkno count then
    ({ channel with io_fd := { fd with transfers := fd.transfers ++ [.error .undefined] } },
      .error .undefined, data)
  else
    let size := count * channel.io_blksize
    let loop := preadLoop fd.content size (blkno * channel.io_blksize) fd.pending []
    let got := loop.moved
    match loop.ret with
    | .ok () =>
      if got.length ≠ size then
        (finish channel fd.content loop (.error .shortRead), .error .shortRead,
          splice data 0 (got ++ List.replicate (size - got.length) 0))
      else (finish channel fd.content loop (.ok ()), .ok (), splice data 0 got)
    | ret => (finish channel fd.content loop ret, ret, splice data 0 got)

def unixIoWriteBlockFull (channel : Channel) (blkno count : Nat) (data : Buffer) :
    Channel × Except Errcode Unit × Nat :=
  let fd := channel.io_fd
  if overflows channel blkno count then
    ({ channel with io_fd := { fd with transfers := fd.transfers ++ [.error .undefined] } },
      .error .undefined, 0)
  else
    let size := count * channel.io_blksize
    let loop := pwriteLoop data size (blkno * channel.io_blksize) fd.pending fd.content 0
    let (content, tot) := loop.moved
    let ret := match loop.ret with
      | .ok () => if tot ≠ size then .error .shortWrite else .ok ()
      | ret => ret
    (finish channel content loop ret, ret, tot / channel.io_blksize)

def unixIoWriteBlock (channel : Channel) (blkno count : Nat) (data : Buffer) :
    Channel × Except Errcode Unit :=
  let (channel, ret, _) := unixIoWriteBlockFull channel blkno count data
  (channel, ret)

namespace Cache

def block (ic : Cache) (icb : Nat) : CacheBlock :=
  ic.ic_metadata_buffer.getD icb ⟨uint64Max, []⟩

def modifyBlock (ic : Cache) (icb : Nat) (f : CacheBlock → CacheBlock) : Cache :=
  { ic with ic_metadata_buffer := ic.ic_metadata_buffer.modify icb f }

def order (ic : Cache) (blkno : Nat) (icb : Nat) : Ordering :=
  compare blkno (ic.block icb).icb_blkno

end Cache

def ioCacheLookup (ic : Cache) (blkno : Nat) : Option Nat :=
  search (ic.order blkno) ic.ic_lookup

def ioCacheInsert (ic : Cache) (icb : Nat) : Except Errcode Cache :=
  let order := ic.order (ic.block icb).icb_blkno
  match search order ic.ic_lookup with
  | some _ => .error .undefined
  | none => .ok { ic with ic_lookup := rbInsert order icb ic.ic_lookup }

def ioCacheSeen (ic : Cache) (icb : Nat) : Cache :=
  { ic with ic_lru := ic.ic_lru.erase icb ++ [icb] }

def ioCacheUnsee (ic : Cache) (icb : Nat) : Cache :=
  { ic with ic_lru := icb :: ic.ic_lru.erase icb }

def ioCacheDisconnect (ic : Cache) (icb : Nat) : Cache :=
  if (ic.block icb).icb_blkno = uint64Max then ic
  else
    { ic with ic_lookup := rbEraseEntry (· == icb) ic.ic_lookup }.modifyBlock icb
      fun b => { b with icb_blkno := uint64Max }

def ioCachePopLru (ic : Cache) : Except Errcode (Nat × Cache) :=
  match ic.ic_lru with
  | [] => .error .undefined
  | icb :: _ => .ok (icb, ioCacheDisconnect ic icb)

def stealLru (ic : Cache) (blkno : Nat) : Except Errcode (Nat × Cache) := do
  let (icb, ic) ← ioCachePopLru ic
  let ic ← ioCacheInsert (ic.modifyBlock icb fun b => { b with icb_blkno := blkno }) icb
  return (icb, ic)

def copyIn (ic : Cache) (icb : Nat) (data : Buffer) : Cache :=
  ic.modifyBlock icb fun b => { b with icb_buf := data }

def touch (nocache : Bool) (ic : Cache) (icb : Nat) : Cache :=
  if nocache then ioCacheUnsee ic icb else ioCacheSeen ic icb

def goodBlocks (ic : Cache) : Nat → Nat → Nat
  | 0, _ => 0
  | n + 1, blkno => if (ioCacheLookup ic blkno).isSome then goodBlocks ic n (blkno + 1) + 1 else 0

def syncRead (blksize : Nat) (nocache : Bool) (good blkno : Nat) :
    Nat → Nat → Cache → Buffer → Except Errcode (Cache × Buffer)
  | 0, _, ic, data => .ok (ic, data)
  | n + 1, i, ic, data => do
    let here := data.take blksize
    let rest := data.drop blksize
    match ioCacheLookup ic (blkno + i) with
    | some icb =>
      let here := if i < good then (ic.block icb).icb_buf else here
      let (ic, rest) ← syncRead blksize nocache good blkno n (i + 1) (touch nocache ic icb) rest
      return (ic, here ++ rest)
    | none =>
      if i < good then throw .undefined
      else if nocache then
        let (ic, rest) ← syncRead blksize nocache good blkno n (i + 1) ic rest
        return (ic, here ++ rest)
      else
        let (icb, ic) ← stealLru ic (blkno + i)
        let ic := ioCacheSeen (copyIn ic icb here) icb
        let (ic, rest) ← syncRead blksize nocache good blkno n (i + 1) ic rest
        return (ic, here ++ rest)

def ioCacheReadBlocks (channel : Channel) (ic : Cache) (blkno count : Nat) (data : Buffer)
    (nocache : Bool) : Channel × Cache × Except Errcode Unit × Buffer :=
  let blksize := channel.io_blksize
  let good := goodBlocks ic count blkno
  let (channel, ret, data) :=
    if good < count then
      let (channel, ret, tail) :=
        unixIoReadBlock channel (blkno + good) (count - good) (data.drop (blksize * good))
      (channel, ret, data.take (blksize * good) ++ tail)
    else (channel, .ok (), data)
  match ret with
  | .error e => (channel, ic, .error e, data)
  | .ok () =>
    match syncRead blksize nocache good blkno count 0 ic data with
    | .error e => (channel, ic, .error e, data)
    | .ok (ic, data) => (channel, ic, .ok (), data)

def readHunks (nocache : Bool) :
    Nat → Nat → Channel → Cache → Nat → Nat → Buffer → Channel × Cache × Except Errcode Unit × Buffer
  | 0, _, channel, ic, _, _, data => (channel, ic, .ok (), data)
  | fuel + 1, todo, channel, ic, blkno, count, data =>
    if count = 0 then (channel, ic, .ok (), data)
    else
      let todo := if count < todo then count else todo
      let here := data.take (channel.io_blksize * todo)
      let rest := data.drop (channel.io_blksize * todo)
      match ioCacheReadBlocks channel ic blkno todo here nocache with
      | (channel, ic, .ok (), here) =>
        let (channel, ic, ret, rest) :=
          readHunks nocache fuel todo channel ic (blkno + todo) (count - todo) rest
        (channel, ic, ret, here ++ rest)
      | (channel, ic, ret, here) => (channel, ic, ret, here ++ rest)

def ioCacheReadBlock (channel : Channel) (ic : Cache) (blkno count : Nat) (data : Buffer)
    (nocache : Bool) : Channel × Cache × Except Errcode Unit × Buffer :=
  readHunks nocache (count + 1) (oneMegOfBlocks channel) channel ic blkno count data

def syncWrite (blksize : Nat) (nocache : Bool) :
    Nat → Nat → Cache → Buffer → Except Errcode Cache
  | 0, _, ic, _ => .ok ic
  | n + 1, blkno, ic, data => do
    let here := data.take blksize
    let rest := data.drop blksize
    match ioCacheLookup ic blkno with
    | some icb => syncWrite blksize nocache n (blkno + 1) (touch nocache (copyIn ic icb here) icb) rest
    | none =>
      if nocache then syncWrite blksize nocache n (blkno + 1) ic rest
      else
        let (icb, ic) ← stealLru ic blkno
        syncWrite blksize nocache n (blkno + 1) (ioCacheSeen (copyIn ic icb here) icb) rest

def ioCacheWriteBlocks (channel : Channel) (ic : Cache) (blkno count : Nat) (data : Buffer)
    (nocache : Bool) : Channel × Cache × Except Errcode Unit :=
  let (channel, ret, completed) := unixIoWriteBlockFull channel blkno count data
  match syncWrite channel.io_blksize nocache completed blkno ic data with
  | .error e => (channel, ic, .error e)
  | .ok ic => (channel, ic, ret)

def ioCacheWriteBlock (channel : Channel) (ic : Cache) (blkno count : Nat) (data : Buffer)
    (nocache : Bool) : Channel × Cache × Except Errcode Unit :=
  ioCacheWriteBlocks channel ic blkno count data nocache

def ioInitCache (channel : Channel) (nrBlocks : Nat) (buffer : Nat → Buffer) : Channel :=
  { channel with
    io_cache := some
      { ic_lru := List.range nrBlocks
        ic_lookup := .nil
        ic_metadata_buffer := (List.range nrBlocks).map fun i => ⟨uint64Max, buffer i⟩ } }

def ioSetNocache (channel : Channel) (nocache : Bool) : Channel :=
  { channel with io_nocache := nocache }

def readWith (nocache : Bool) (channel : Channel) (blkno count : Nat) (data : Buffer) :
    Channel × Except Errcode Unit × Buffer :=
  match channel.io_cache with
  | some ic =>
    let (channel, ic, ret, data) := ioCacheReadBlock channel ic blkno count data nocache
    ({ channel with io_cache := some ic }, ret, data)
  | none => unixIoReadBlock channel blkno count data

def ioReadBlock (channel : Channel) (blkno count : Nat) (data : Buffer) :
    Channel × Except Errcode Unit × Buffer :=
  readWith channel.io_nocache channel blkno count data

def ioReadBlockNocache (channel : Channel) (blkno count : Nat) (data : Buffer) :
    Channel × Except Errcode Unit × Buffer :=
  readWith true channel blkno count data

def writeWith (nocache : Bool) (channel : Channel) (blkno count : Nat) (data : Buffer) :
    Channel × Except Errcode Unit :=
  match channel.io_cache with
  | some ic =>
    let (channel, ic, ret) := ioCacheWriteBlock channel ic blkno count data nocache
    ({ channel with io_cache := some ic }, ret)
  | none => unixIoWriteBlock channel blkno count data

def ioWriteBlock (channel : Channel) (blkno count : Nat) (data : Buffer) :
    Channel × Except Errcode Unit :=
  writeWith channel.io_nocache channel blkno count data

def ioWriteBlockNocache (channel : Channel) (blkno count : Nat) (data : Buffer) :
    Channel × Except Errcode Unit :=
  writeWith true channel blkno count data

inductive Request where
  | read (blkno count : Nat) (data : Buffer)
  | readNocache (blkno count : Nat) (data : Buffer)
  | write (blkno count : Nat) (data : Buffer)
  | writeNocache (blkno count : Nat) (data : Buffer)
  | setNocache (nocache : Bool)
  deriving DecidableEq

def serve (channel : Channel) : Request → Channel × Except Errcode Unit × Buffer
  | .read blkno count data => ioReadBlock channel blkno count data
  | .readNocache blkno count data => ioReadBlockNocache channel blkno count data
  | .write blkno count data =>
    let (channel, ret) := ioWriteBlock channel blkno count data
    (channel, ret, [])
  | .writeNocache blkno count data =>
    let (channel, ret) := ioWriteBlockNocache channel blkno count data
    (channel, ret, [])
  | .setNocache nocache => (ioSetNocache channel nocache, .ok (), [])

def serveAll (channel : Channel) : List Request → Channel × List (Except Errcode Unit × Buffer)
  | [] => (channel, [])
  | request :: requests =>
    let (channel, result) := serve channel request
    let (channel, results) := serveAll channel requests
    (channel, result :: results)

end Ocfs2.UnixIo
