import Ocfs2.O2image.WriteImage

set_option autoImplicit false

namespace Ocfs2.Image

open ByteBuffer Bitops
open Crc32 (Endian)

variable {env : WriteEnv} {vol : Volume} {ost : ImageState}

structure Allocated (vol : Volume) (ost : ImageState) : Prop where
  blks : ost.ost_bmpblks = bitmapBlocks vol.fs_blocks
  blksz : ost.ost_bmpblksz = bitmapBlocksize
  arrs : ost.ost_bmparr.length = ost.ost_bmpblks
  maps : ∀ arr ∈ ost.ost_bmparr, arr.arr_map.length = bitmapBlocksize

def mapOf (ost : ImageState) (i : Nat) : Buffer := (ost.ost_bmparr.map BitmapArr.arr_map).getD i []

def marked (ost : ImageState) (b : Nat) : Bool := testBit (b % bitsInBlock) (mapOf ost (b / bitsInBlock))

section Marks

theorem Volume.fs_blocks_lt (vol : Volume) : vol.fs_blocks < 2 ^ 44 := by
  have := vol.bounded
  have := Nat.mul_le_mul_left vol.fs_blocks vol.blocksize
  omega

theorem bitmapBlocks_eq (vol : Volume) : bitmapBlocks vol.fs_blocks = (vol.fs_blocks - 1) / bitsInBlock + 1 := by
  have := vol.fs_blocks_lt
  have := vol.nonempty
  rw [bitmapBlocks, show vol.fs_blocks + 2 ^ 64 - 1 = vol.fs_blocks - 1 + 2 ^ 64 by omega, Nat.add_mod_right,
    Nat.mod_eq_of_lt (by omega)]

theorem Allocated.div_lt (allocated : Allocated vol ost) {b : Nat} (inside : b < vol.fs_blocks) :
    b / bitsInBlock < ost.ost_bmparr.length := by
  rw [allocated.arrs, allocated.blks, bitmapBlocks_eq]
  exact Nat.lt_succ_of_le (Nat.div_le_div_right (by omega))

theorem bitmapArr_of_lt {b : Nat} (inside : b / bitsInBlock < ost.ost_bmparr.length) :
    ∃ arr, ost.ost_bmparr[b / bitsInBlock]? = some arr ∧ bitmapArr ost b = .ok arr ∧
      arr.arr_map = mapOf ost (b / bitsInBlock) := by
  refine ⟨ost.ost_bmparr[b / bitsInBlock], List.getElem?_eq_getElem inside, ?_, ?_⟩
  · rw [bitmapArr, List.getElem?_eq_getElem inside]
  · simp [mapOf, List.getD_eq_getElem?_getD, inside]

theorem imageTestBit_of_lt (allocated : Allocated vol ost) {b : Nat} (inside : b < vol.fs_blocks) :
    imageTestBit ost b = .ok (marked ost b) := by
  obtain ⟨arr, -, found, map⟩ := bitmapArr_of_lt (allocated.div_lt inside)
  rw [imageTestBit, found, marked, ← map]
  rfl

theorem countBlocks_correct (allocated : Allocated vol ost) (blks : List Nat) (inside : ∀ b ∈ blks, b < vol.fs_blocks) :
    ∀ blk, countBlocks ost blks blk = .ok (blk + (blks.filter (marked ost)).length) := by
  induction blks with
  | nil => exact fun blk => rfl
  | cons i rest ih =>
    intro blk
    rw [countBlocks, imageTestBit_of_lt allocated (inside i List.mem_cons_self)]
    simp only [bind, Except.bind]
    rw [ih fun b mem => inside b (List.mem_cons_of_mem _ mem)]
    cases set : marked ost i
    · simp [set]
    · simp only [set, if_true, List.filter_cons_of_pos, List.length_cons]
      congr 1
      omega

end Marks

section Header

theorem load_little_leBytes (n v : Nat) (small : v < 256 ^ n) : load .little (leBytes n v) = v := leValue_leBytes n v small

theorem leBytes_bswap (n v : Nat) : leBytes n (bswap n v) = (leBytes n v).reverse := by
  have := leBytes_leValue (leBytes n v).reverse
  rwa [List.length_reverse, length_leBytes] at this

theorem store_big_bswap (n v : Nat) : store .big n (bswap n v) = leBytes n v := by
  rw [store, leBytes_bswap, List.reverse_reverse]

theorem bswap_load_big (n v : Nat) (small : v < 256 ^ n) : bswap n (load .big (leBytes n v)) = v := by
  rw [load, ← bswap, bswap, leBytes_bswap, List.reverse_reverse, leValue_leBytes n v small]

theorem length_store (host : Endian) (n v : Nat) : (store host n v).length = n := by
  cases host <;> simp [store]

def versionBytes : Endian → Buffer
  | .little => leBytes 8 imageVersion
  | .big => List.replicate 4 0 ++ leBytes 4 imageVersion

structure HeaderParts (env : WriteEnv) (vol : Volume) (ost : ImageState) (parts : List Buffer) : Prop where
  split : ∃ desc superblocks, parts = [leBytes 4 imageMagic, leBytes 4 (env.time % 2 ^ 32), imageDesc ++ desc,
    versionBytes env.host, leBytes 8 vol.fs_blocks, leBytes 8 vol.fs_blocksize,
    leBytes 8 (countTrue (marked ost) vol.fs_blocks), leBytes 8 ost.ost_bmpblksz,
    leBytes 8 (getBackupSuperOffsets vol).length] ++ superblocks
  widths : parts.map List.length = hdrWidths

theorem length_of_mapM {α β : Type} (f : α → Except Errcode β) (xs : List α) :
    ∀ ys, xs.mapM f = .ok ys → ys.length = xs.length := by
  induction xs with
  | nil =>
    intro ys eq
    obtain rfl := Except.ok.inj eq
    rfl
  | cons x xs ih =>
    intro ys eq
    rw [List.mapM_cons] at eq
    cases hx : f x with
    | error e =>
      rw [hx] at eq
      cases eq
    | ok y =>
      rw [hx] at eq
      cases hxs : xs.mapM f with
      | error e =>
        simp only [bind, Except.bind, hxs] at eq
        cases eq
      | ok zs =>
        simp only [bind, Except.bind, hxs] at eq
        obtain rfl := Except.ok.inj eq
        rw [List.length_cons, List.length_cons, ih zs hxs]

theorem length_getBackupSuperOffsets (vol : Volume) : (getBackupSuperOffsets vol).length ≤ 6 := by
  refine (List.takeWhile_sublist _).length_le.trans ?_
  simp [maxBackupSuperblocks]

theorem parts_length (widths : List Nat) : ∀ blk : Buffer, widths.sum ≤ blk.length →
    (parts widths blk).map List.length = widths := by
  induction widths with
  | nil => exact fun _ _ => rfl
  | cons w ws ih =>
    intro blk room
    rw [List.sum_cons] at room
    rw [parts, List.map_cons, ih (blk.drop w) (by rw [List.length_drop]; omega), List.length_take,
      Nat.min_eq_left (by omega)]

theorem hdrOfBlock_old (room : env.block.length = vol.fs_blocksize) :
    (hdrOfBlock env.host env.block).hdr_magic_desc.length = 16 ∧
      (hdrOfBlock env.host env.block).hdr_superblocks.length = 6 := by
  have lengths := parts_length hdrWidths env.block (by rw [room]; exact le_trans (by decide) vol.blocksize)
  have third := congrArg (fun ws => ws.getD 2 0) lengths
  have count := congrArg List.length lengths
  rw [List.length_map] at count
  refine ⟨?_, ?_⟩
  · rw [← show hdrWidths.getD 2 0 = 16 from rfl, ← third]
    simp only [hdrOfBlock, hdrOfParts, List.getD_eq_getElem?_getD, List.getElem?_map]
    cases (parts hdrWidths env.block)[2]? <;> rfl
  · rw [hdrOfBlock, hdrOfParts, List.length_map, List.length_drop, count]
    rfl

theorem ImageHdr.parts_widths (host : Endian) {hdr : ImageHdr} (desc : hdr.hdr_magic_desc.length = 16)
    (superblocks : hdr.hdr_superblocks.length = 6) : (hdr.parts host).map List.length = hdrWidths := by
  have eights : (hdr.hdr_superblocks.map (store host 8)).map List.length = List.replicate 6 8 := by
    rw [List.map_map, ← superblocks, ← List.map_const']
    exact List.map_congr_left fun v _ => length_store host 8 v
  simp only [ImageHdr.parts, List.map_append, eights, List.map_cons, List.map_nil, length_store, desc]
  rfl

theorem six_lt_load_big {n : Nat} (pos : 0 < n) (six : n ≤ 6) : 6 < load .big (leBytes 8 n) := by
  interval_cases n <;> decide

theorem imageHdr_parts (allocated : Allocated vol ost) (room : env.block.length = vol.fs_blocksize) {hdr : ImageHdr}
    (made : imageHdr env vol ost = .ok hdr) : HeaderParts env vol ost (hdr.parts env.host) := by
  have blocks : ∀ b ∈ List.range vol.fs_blocks, b < vol.fs_blocks := fun b mem => List.mem_range.mp mem
  rw [imageHdr, countBlocks_correct allocated _ blocks, length_filter_range] at made
  simp only [bind, Except.bind, Nat.zero_add] at made
  cases found : (getBackupSuperOffsets vol).mapM (imageGetBlockno ost) with
  | error e =>
    rw [found] at made
    cases made
  | ok superblocks =>
    rw [found] at made
    simp only at made
    have len := length_of_mapM _ _ _ found
    have six := length_getBackupSuperOffsets vol
    obtain ⟨desc, rest⟩ := @hdrOfBlock_old env vol room
    have all : (superblocks ++ (hdrOfBlock env.host env.block).hdr_superblocks.drop
        (getBackupSuperOffsets vol).length).length = 6 := by
      rw [List.length_append, List.length_drop, len, rest]
      omega
    have desc' : (imageDesc ++ (hdrOfBlock env.host env.block).hdr_magic_desc.drop imageDesc.length).length = 16 := by
      rw [List.length_append, List.length_drop, desc]
      rfl
    cases host : env.host with
    | little =>
      rw [host] at made desc' all
      obtain rfl := Except.ok.inj made
      exact ⟨⟨_, _, by rw [host]; rfl⟩, ImageHdr.parts_widths _ desc' all⟩
    | big =>
      rw [host] at made desc' all
      rw [imageSwapHeader, if_neg (by simp only [all]; omega)] at made
      obtain rfl := Except.ok.inj made
      refine ⟨?_, ImageHdr.parts_widths _ desc' ?_⟩
      · have version : store .big 8 (bswap 4 (imageVersion % 2 ^ 32)) = versionBytes .big := by decide
        rw [host, ImageHdr.parts]
        simp only [store_big_bswap, version]
        exact ⟨_, _, rfl⟩
      · rw [List.length_append, List.length_map, ← List.length_append, List.take_append_drop]
        exact all

theorem swap_hdrOfParts {parts : List Buffer} (header : HeaderParts env vol ost parts) (host : Endian) :
    if host = .big ∧ getBackupSuperOffsets vol ≠ [] then imageSwapHeader host (hdrOfParts host parts) = .error .undefined
    else ∃ hdr, imageSwapHeader host (hdrOfParts host parts) = .ok hdr ∧ hdr.hdr_magic = imageMagic ∧
      hdr.hdr_magic_desc.take imageDesc.length = imageDesc ∧
      (hdr.hdr_version > imageVersion ↔ env.host = .big ∧ host = .little) ∧ hdr.hdr_fsblkcnt = vol.fs_blocks ∧
      hdr.hdr_fsblksz = vol.fs_blocksize ∧ hdr.hdr_imgblkcnt = countTrue (marked ost) vol.fs_blocks := by
  obtain ⟨⟨desc, superblocks, rfl⟩, widths⟩ := header
  have blocks := vol.fs_blocks_lt
  have size : vol.fs_blocksize ≤ 2 ^ 52 := le_trans (Nat.le_mul_of_pos_left _ vol.nonempty) vol.bounded
  have count : countTrue (marked ost) vol.fs_blocks ≤ vol.fs_blocks := Nat.count_le ..
  have six := length_getBackupSuperOffsets vol
  have len : superblocks.length = 6 := by
    have := congrArg List.length widths
    rw [List.length_map, List.length_append] at this
    simp [hdrWidths, maxBackupSuperblocks] at this
    omega
  have magic : imageMagic < 256 ^ 4 := by decide
  cases host with
  | little =>
    rw [if_neg (by simp)]
    refine ⟨_, rfl, load_little_leBytes 4 _ magic, List.take_left, ?_, load_little_leBytes 8 _ (by omega),
      load_little_leBytes 8 _ (by omega), load_little_leBytes 8 _ (by omega)⟩
    show load .little (versionBytes env.host) > imageVersion ↔ _
    cases env.host <;> decide
  | big =>
    have loop : (hdrOfParts .big ([leBytes 4 imageMagic, leBytes 4 (env.time % 2 ^ 32), imageDesc ++ desc,
        versionBytes env.host, leBytes 8 vol.fs_blocks, leBytes 8 vol.fs_blocksize,
        leBytes 8 (countTrue (marked ost) vol.fs_blocks), leBytes 8 ost.ost_bmpblksz,
        leBytes 8 (getBackupSuperOffsets vol).length] ++ superblocks)).hdr_superblocks.length = 6 := by
      simp [hdrOfParts, len]
    by_cases none : getBackupSuperOffsets vol = []
    · rw [if_neg (by simp [none]), imageSwapHeader, if_neg]
      · refine ⟨_, rfl, bswap_load_big 4 _ magic, List.take_left, ?_, bswap_load_big 8 _ (by omega),
          bswap_load_big 8 _ (by omega), bswap_load_big 8 _ (by omega)⟩
        show bswap 4 (load .big (versionBytes env.host) % 2 ^ 32) > imageVersion ↔ _
        cases env.host <;> decide
      · rw [loop, none]
        show ¬load .big (leBytes 8 0) > 6
        decide
    · rw [if_pos ⟨rfl, none⟩, imageSwapHeader, if_pos]
      rw [loop]
      exact six_lt_load_big (List.length_pos_of_ne_nil none) six

end Header

end Ocfs2.Image
