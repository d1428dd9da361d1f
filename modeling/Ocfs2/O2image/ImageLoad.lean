import Ocfs2.O2image.ImageFile

set_option autoImplicit false

namespace Ocfs2.Image

open ByteBuffer Bitops
open Crc32 (Endian)

variable {env : WriteEnv} {vol : Volume} {ost : ImageState}

section Reader

def counted : List Buffer → Nat → List BitmapArr
  | [], _ => []
  | map :: maps, bits => ⟨bits, map⟩ :: counted maps (bits + countTrue (fun j => testBit j map) bitsInBlock)

theorem loadBlocks_correct (file : Buffer) (memory : Nat → Buffer) (maps : List Buffer)
    (full : ∀ map ∈ maps, map.length = bitmapBlocksize) :
    ∀ i off bits, file.drop off = maps.flatten → loadBlocks file memory i maps.length off bits = counted maps bits := by
  induction maps with
  | nil => exact fun _ _ _ _ => rfl
  | cons map maps ih =>
    intro i off bits rest
    have len := full map List.mem_cons_self
    rw [List.flatten_cons] at rest
    have data : (file.drop off).take bitmapBlocksize = map := by rw [rest, ← len, List.take_left]
    have next : file.drop (off + bitmapBlocksize) = maps.flatten := by
      rw [← List.drop_drop, rest, ← len, List.drop_left]
    have whole (tail : Buffer) : (map ++ tail).take bitmapBlocksize = map := by rw [← len, List.take_left]
    rw [List.length_cons, loadBlocks]
    simp only [data, whole, len, lt_irrefl, if_false]
    rw [ih (fun m mem => full m (List.mem_cons_of_mem _ mem)) _ _ _ next]
    rfl

theorem getElem?_counted (maps : List Buffer) : ∀ bits k : Nat, (counted maps bits)[k]? = maps[k]?.map fun map =>
    BitmapArr.mk (bits + ((List.range k).map fun i => countTrue (fun j => testBit j (maps.getD i [])) bitsInBlock).sum)
      map := by
  induction maps with
  | nil => simp [counted]
  | cons map maps ih =>
    intro bits k
    cases k with
    | zero => simp [counted]
    | succ k =>
      rw [counted, List.getElem?_cons_succ, ih, List.getElem?_cons_succ, List.range_succ_eq_map, List.map_cons,
        List.sum_cons, List.map_map]
      simp only [Nat.add_assoc, Function.comp_def, List.getD_cons_zero, List.getD_cons_succ]

def loadedState (vol : Volume) (ost : ImageState) : ImageState where
  ost_fsblksz := vol.fs_blocksize
  ost_fsblkcnt := vol.fs_blocks
  ost_imgblkcnt := countTrue (marked ost) vol.fs_blocks
  ost_bmpblks := bitmapBlocks vol.fs_blocks
  ost_bmpblksz := bitmapBlocksize
  ost_bmparr := counted (ost.ost_bmparr.map BitmapArr.arr_map) 0

theorem imageGetBlockno_loadedState (allocated : Allocated vol ost) {b : Nat} (inside : b < vol.fs_blocks) :
    imageGetBlockno (loadedState vol ost) b =
      .ok (if marked ost b then 1 + countTrue (marked ost) b else uint64Max) := by
  have lt := allocated.div_lt inside
  have map : (ost.ost_bmparr.map BitmapArr.arr_map)[b / bitsInBlock]? = some (mapOf ost (b / bitsInBlock)) := by
    simp [mapOf, List.getD_eq_getElem?_getD, lt]
  have arr : bitmapArr (loadedState vol ost) b = .ok ⟨((List.range (b / bitsInBlock)).map fun i =>
      countTrue (fun j => testBit j (mapOf ost i)) bitsInBlock).sum, mapOf ost (b / bitsInBlock)⟩ := by
    rw [bitmapArr, loadedState, getElem?_counted, map]
    simp only [Option.map_some, Nat.zero_add]
    rfl
  -- the rank of the block, as the count of the blocks before and the count in its own block
  have rank := countTrue_parts (fun i j => testBit j (mapOf ost i)) bitsInBlock (b / bitsInBlock) (b % bitsInBlock)
    (Nat.mod_lt _ (by decide)).le
  rw [Nat.div_add_mod' b bitsInBlock] at rank
  rw [imageGetBlockno, arr]
  simp only [bind, Except.bind, pure, Except.pure]
  change (if marked ost b = true then _ else _) = _
  split
  next =>
    rw [show countTrue (marked ost) b = _ from rank]
    congr 1
    omega
  next => rfl

theorem Layout.full {file : Buffer} (layout : Layout env vol ost file) :
    ∀ x ∈ ((List.range vol.fs_blocks).filter (marked ost)).map (content vol), x.length = vol.fs_blocksize := by
  intro x mem
  obtain ⟨b, found, rfl⟩ := List.mem_map.mp mem
  obtain ⟨inside, set⟩ := List.mem_filter.mp found
  exact vol.full b _ (layout.read b (List.mem_range.mp inside) set)

theorem Layout.drop_header {file : Buffer} (layout : Layout env vol ost file) :
    file.drop ((countTrue (marked ost) vol.fs_blocks + 1) * vol.fs_blocksize) =
      (ost.ost_bmparr.map BitmapArr.arr_map).flatten := by
  have data := length_flatten_of_full _ _ layout.full
  obtain ⟨⟨parts, rest, -, block, rfl⟩, -⟩ := layout
  rw [List.length_map, length_filter_range] at data
  refine List.drop_left' ?_
  rw [List.length_append, block, data, Nat.succ_mul, Nat.add_comm]

theorem imageLoadBitmap_correct (allocated : Allocated vol ost) {file : Buffer} (layout : Layout env vol ost file)
    (host : Endian) (memory : Nat → Buffer) :
    imageLoadBitmap host file memory =
      if host = .big ∧ getBackupSuperOffsets vol ≠ [] then .error .undefined
      else if env.host = .big ∧ host = .little then .error .ocfsRev
      else .ok (loadedState vol ost) := by
  have bitmaps := layout.drop_header
  obtain ⟨⟨ps, rest, header, block, rfl⟩, -⟩ := layout
  have size := vol.blocksize
  have long : ¬(ps.flatten ++ rest ++ (((List.range vol.fs_blocks).filter (marked ost)).map (content vol)).flatten ++
      (ost.ost_bmparr.map BitmapArr.arr_map).flatten).length < 512 := by
    rw [List.length_append, List.length_append, block]
    omega
  have short : ps.flatten.length = 120 := by rw [List.length_flatten, header.widths, sum_hdrWidths]
  have hdr : ∀ tail : Buffer, hdrOfBlock host ((ps.flatten ++ rest ++ tail).take 512) = hdrOfParts host ps := by
    intro tail
    rw [hdrOfBlock, List.append_assoc, List.take_append, List.take_of_length_le (by omega), ← header.widths, parts_flatten]
  have swapped := swap_hdrOfParts header host
  rw [imageLoadBitmap, if_neg long, List.append_assoc (ps.flatten ++ rest), hdr]
  split at swapped
  next wrong =>
    rw [swapped, if_pos wrong]
    rfl
  next right =>
    obtain ⟨hdr, ok, magic, desc, version, blkcnt, blksz, imgblkcnt⟩ := swapped
    rw [if_neg right, ok]
    simp only [bind, Except.bind, magic, ne_eq, not_true_eq_false, if_false, desc, version]
    split
    next => rfl
    next =>
      have offset : (countTrue (marked ost) vol.fs_blocks + 1) * vol.fs_blocksize < 2 ^ 64 := by
        have count : countTrue (marked ost) vol.fs_blocks ≤ vol.fs_blocks := Nat.count_le ..
        have := vol.bounded
        have := vol.nonempty
        have := Nat.mul_le_mul_right vol.fs_blocksize count
        have : vol.fs_blocksize ≤ vol.fs_blocks * vol.fs_blocksize := Nat.le_mul_of_pos_left _ vol.nonempty
        rw [Nat.succ_mul]
        omega
      have loaded := loadBlocks_correct _ memory _ (by simpa using allocated.maps) 0 _ 0 bitmaps
      rw [List.length_map, allocated.arrs, allocated.blks, List.append_assoc (ps.flatten ++ rest)] at loaded
      simp only [imageAllocBitmap, blkcnt, blksz, imgblkcnt, Nat.mod_eq_of_lt offset, loaded]
      rfl

end Reader

section RoundTrip

structure RoundTrips (vol : Volume) (ost : ImageState) (file : Buffer) (loaded : ImageState) : Prop where
  content : ∀ b < vol.fs_blocks, marked ost b = true → ∃ buf i, vol.read b = .ok buf ∧ imageGetBlockno loaded b = .ok i ∧
    blockAt file vol.fs_blocksize i = buf
  distinct : ∀ b < vol.fs_blocks, ∀ b' < vol.fs_blocks, marked ost b = true → marked ost b' = true → b ≠ b' →
    imageGetBlockno loaded b ≠ imageGetBlockno loaded b'
  unmarked : ∀ b < vol.fs_blocks, marked ost b = false → imageGetBlockno loaded b = .ok uint64Max

theorem blockAt_succ_of_append {first rest : Buffer} {size : Nat} (len : first.length = size) (i : Nat) :
    blockAt (first ++ rest) size (1 + i) = blockAt rest size i := by
  rw [blockAt, blockAt, Nat.add_mul, Nat.one_mul, ← List.drop_drop, ← len, List.drop_left]

theorem roundTrips_loadedState (allocated : Allocated vol ost) {file : Buffer} (layout : Layout env vol ost file) :
    RoundTrips vol ost file (loadedState vol ost) := by
  refine ⟨fun b inside set => ?_, fun b inside b' inside' set set' ne same => ?_, fun b inside clear => ?_⟩
  · refine ⟨Image.content vol b, _, layout.read b inside set, imageGetBlockno_loadedState allocated inside, ?_⟩
    have full := layout.full
    obtain ⟨⟨parts, rest, -, block, rfl⟩, -⟩ := layout
    rw [if_pos set, List.append_assoc, blockAt_succ_of_append block]
    refine blockAt_flatten _ _ full _ _ _ ?_
    rw [List.getElem?_map, getElem?_filter_range _ _ _ inside set]
    rfl
  · rw [imageGetBlockno_loadedState allocated inside, imageGetBlockno_loadedState allocated inside', if_pos set,
      if_pos set'] at same
    have rank := Nat.add_left_cancel (Except.ok.inj same)
    exact ne (Nat.count_injective set set' rank)
  · rw [imageGetBlockno_loadedState allocated inside, clear]
    rfl

theorem writeImageFile_roundTrips_iff (allocated : Allocated vol ost) (room : env.block.length = vol.fs_blocksize)
    {sink : Sink} (written : writeImageFile env vol ost = (none, sink)) (host : Endian) (memory : Nat → Buffer) :
    (∃ loaded, imageLoadBitmap host sink.file memory = .ok loaded ∧ RoundTrips vol ost sink.file loaded) ↔
      (env.host = .little ∧ host = .little) ∨ (host = .big ∧ getBackupSuperOffsets vol = []) := by
  have layout := writeImageFile_layout allocated room written
  have trips := roundTrips_loadedState allocated layout
  rw [imageLoadBitmap_correct allocated layout host memory]
  by_cases none : getBackupSuperOffsets vol = [] <;> cases env.host <;> cases host <;> simp [none, trips]

end RoundTrip

section Volumes

def emptyVolume (blocks : Nat) (pos : 0 < blocks) (few : blocks ≤ 2 ^ 40) : Volume where
  fs_blocks := blocks
  fs_blocksize := 4096
  read := fun _ => .ok (List.replicate 4096 0)
  nonempty := pos
  blocksize := by decide
  bounded := by omega
  full := by
    intro b buf read
    rw [← Except.ok.inj read, List.length_replicate]

def allMarked (vol : Volume) : ImageState where
  ost_fsblksz := vol.fs_blocksize
  ost_fsblkcnt := vol.fs_blocks
  ost_imgblkcnt := 0
  ost_bmpblks := bitmapBlocks vol.fs_blocks
  ost_bmpblksz := bitmapBlocksize
  ost_bmparr := List.replicate (bitmapBlocks vol.fs_blocks) ⟨0, List.replicate bitmapBlocksize 0xff⟩

theorem allMarked_allocated (vol : Volume) : Allocated vol (allMarked vol) := by
  refine ⟨rfl, rfl, List.length_replicate, fun arr mem => ?_⟩
  rw [List.eq_of_mem_replicate mem]
  exact List.length_replicate

def wholeWrites (host : Endian) : WriteEnv := ⟨host, 0, List.replicate 4096 0, fun _ len => len⟩

/-- A volume with one backup superblock, on a big-endian host. The image is complete, and the reader goes on behind
the superblocks of the header. -/
theorem big_endian_image_not_loaded :
    let vol := emptyVolume (2 ^ 18 + 1) (by omega) (by omega)
    ∃ sink, writeImageFile (wholeWrites .big) vol (allMarked vol) = (none, sink) ∧
      ∀ memory, imageLoadBitmap .big sink.file memory = .error .undefined := by
  intro vol
  obtain ⟨sink, written⟩ := @writeImageFile_complete (wholeWrites .big) _ _ (allMarked_allocated vol)
    List.length_replicate (fun _ _ => rfl) fun _ => ⟨_, rfl⟩
  refine ⟨sink, written, fun memory => ?_⟩
  have layout := writeImageFile_layout (allMarked_allocated vol) List.length_replicate written
  rw [imageLoadBitmap_correct (allMarked_allocated vol) layout, if_pos ⟨rfl, by decide⟩]

theorem little_endian_image_loaded :
    let vol := emptyVolume 1 (by omega) (by omega)
    ∃ sink loaded, writeImageFile (wholeWrites .little) vol (allMarked vol) = (none, sink) ∧
      imageLoadBitmap .little sink.file (fun _ => []) = .ok loaded ∧ RoundTrips vol (allMarked vol) sink.file loaded := by
  intro vol
  obtain ⟨sink, written⟩ := @writeImageFile_complete (wholeWrites .little) _ _ (allMarked_allocated vol)
    List.length_replicate (fun _ _ => rfl) fun _ => ⟨_, rfl⟩
  obtain ⟨loaded, run, trips⟩ := (writeImageFile_roundTrips_iff (allMarked_allocated vol) List.length_replicate
    written .little fun _ => []).mpr (Or.inl ⟨rfl, rfl⟩)
  exact ⟨sink, loaded, written, run, trips⟩

end Volumes

end Ocfs2.Image
