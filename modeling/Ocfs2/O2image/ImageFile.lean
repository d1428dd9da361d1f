import Ocfs2.O2image.ImageHeader
import Mathlib.Data.List.TakeWhile

set_option autoImplicit false

namespace Ocfs2.Image

open ByteBuffer Bitops
open Crc32 (Endian)

variable {env : WriteEnv} {vol : Volume} {ost : ImageState}

section File

def content (vol : Volume) (b : Nat) : Buffer := (vol.read b).toOption.getD []

theorem writeBlocks_correct (allocated : Allocated vol ost) (blks : List Nat) (inside : ∀ b ∈ blks, b < vol.fs_blocks) :
    ∀ sink sink', writeBlocks env vol ost blks sink = (none, sink') →
      sink'.file = sink.file ++ ((blks.filter (marked ost)).map (content vol)).flatten ∧
        ∀ b ∈ blks, marked ost b = true → vol.read b = .ok (content vol b) := by
  induction blks with
  | nil =>
    intro sink sink' run
    obtain ⟨-, rfl⟩ := Prod.mk.inj run
    simp
  | cons b rest ih =>
    intro sink sink' run
    have ih := ih fun b' mem => inside b' (List.mem_cons_of_mem _ mem)
    rw [writeBlocks, imageTestBit_of_lt allocated (inside b List.mem_cons_self)] at run
    cases set : marked ost b with
    | false =>
      rw [set] at run
      obtain ⟨file, reads⟩ := ih _ _ run
      rw [List.filter_cons_of_neg (by simp [set]), List.forall_mem_cons]
      exact ⟨file, by simp [set], reads⟩
    | true =>
      rw [set] at run
      rcases read : vol.read b with e | buf <;> rw [read] at run
      · cases run
      have here : content vol b = buf := by rw [content, read]; rfl
      dsimp only [write] at run
      split_ifs at run with enough
      · cases run
      obtain ⟨file, reads⟩ := ih _ _ run
      have full := vol.full b buf read
      rw [List.take_of_length_le (by omega)] at file
      rw [List.filter_cons_of_pos set, List.map_cons, List.flatten_cons, here, List.forall_mem_cons]
      exact ⟨by simpa using file, fun _ => by rw [here, read], reads⟩

theorem writeBitmaps_correct (blksz : ost.ost_bmpblksz = bitmapBlocksize) (arrs : List BitmapArr)
    (maps : ∀ arr ∈ arrs, arr.arr_map.length = bitmapBlocksize) :
    ∀ sink sink', writeBitmaps env ost arrs sink = (none, sink') →
      sink'.file = sink.file ++ (arrs.map BitmapArr.arr_map).flatten := by
  induction arrs with
  | nil =>
    intro sink sink' run
    obtain ⟨-, rfl⟩ := Prod.mk.inj run
    simp
  | cons arr rest ih =>
    intro sink sink' run
    have len := maps arr List.mem_cons_self
    rw [writeBitmaps, blksz, List.take_of_length_le len.le] at run
    dsimp only [write] at run
    split_ifs at run with enough
    · cases run
    have file := ih (fun a mem => maps a (List.mem_cons_of_mem _ mem)) _ _ run
    rw [List.take_of_length_le (by omega)] at file
    simpa using file

structure Layout (env : WriteEnv) (vol : Volume) (ost : ImageState) (file : Buffer) : Prop where
  split : ∃ parts rest, HeaderParts env vol ost parts ∧ (parts.flatten ++ rest).length = vol.fs_blocksize ∧
    file = parts.flatten ++ rest ++ (((List.range vol.fs_blocks).filter (marked ost)).map (content vol)).flatten ++
      (ost.ost_bmparr.map BitmapArr.arr_map).flatten
  read : ∀ b < vol.fs_blocks, marked ost b = true → vol.read b = .ok (content vol b)

theorem sum_hdrWidths : hdrWidths.sum = 120 := by decide

theorem length_headerBlock (allocated : Allocated vol ost) (room : env.block.length = vol.fs_blocksize) {hdr : ImageHdr}
    (made : imageHdr env vol ost = .ok hdr) :
    ((hdr.parts env.host).flatten ++ env.block.drop (hdr.parts env.host).flatten.length).length = vol.fs_blocksize := by
  have short : (hdr.parts env.host).flatten.length = 120 := by
    rw [List.length_flatten, (imageHdr_parts allocated room made).widths, sum_hdrWidths]
  have := vol.blocksize
  rw [List.length_append, List.length_drop, short, room]
  omega

theorem writeImageFile_layout (allocated : Allocated vol ost) (room : env.block.length = vol.fs_blocksize) {sink : Sink}
    (written : writeImageFile env vol ost = (none, sink)) : Layout env vol ost sink.file := by
  rw [writeImageFile] at written
  split at written
  next => cases written
  next hdr made =>
    have header := imageHdr_parts allocated room made
    have block := length_headerBlock allocated room made
    dsimp only [write] at written
    split_ifs at written with full
    · cases written
    rw [List.take_of_length_le (by omega), List.nil_append] at written
    split at written
    next => cases written
    next sink' blocks =>
      obtain ⟨file, reads⟩ := writeBlocks_correct allocated _ (fun b mem => List.mem_range.mp mem) _ _ blocks
      rw [← allocated.arrs, List.take_length] at written
      have last := writeBitmaps_correct allocated.blksz _ allocated.maps _ _ written
      rw [file] at last
      exact ⟨⟨_, _, header, block, last⟩, fun b inside => reads b (List.mem_range.mpr inside)⟩

end File

section Complete

theorem mapM_ok_of_forall {α β : Type} (f : α → Except Errcode β) (xs : List α) (each : ∀ x ∈ xs, ∃ y, f x = .ok y) :
    ∃ ys, xs.mapM f = .ok ys := by
  induction xs with
  | nil => exact ⟨[], rfl⟩
  | cons x xs ih =>
    obtain ⟨y, hy⟩ := each x List.mem_cons_self
    obtain ⟨ys, hys⟩ := ih fun x mem => each x (List.mem_cons_of_mem _ mem)
    exact ⟨y :: ys, by rw [List.mapM_cons, hy, hys]; rfl⟩

theorem imageGetBlockno_ok {b : Nat} (inside : b / bitsInBlock < ost.ost_bmparr.length) :
    ∃ i, imageGetBlockno ost b = .ok i := by
  obtain ⟨arr, -, found, -⟩ := bitmapArr_of_lt inside
  rw [imageGetBlockno, found]
  simp only [bind, Except.bind]
  split <;> exact ⟨_, rfl⟩

theorem imageHdr_ok (allocated : Allocated vol ost) (room : env.block.length = vol.fs_blocksize) :
    ∃ hdr, imageHdr env vol ost = .ok hdr := by
  have supers : ∀ b ∈ getBackupSuperOffsets vol, ∃ i, imageGetBlockno ost b = .ok i := by
    intro b mem
    exact imageGetBlockno_ok (allocated.div_lt (by simpa using List.mem_takeWhile_imp mem))
  obtain ⟨superblocks, found⟩ := mapM_ok_of_forall _ _ supers
  have len := length_of_mapM _ _ _ found
  have six := length_getBackupSuperOffsets vol
  obtain ⟨-, rest⟩ := @hdrOfBlock_old env vol room
  rw [imageHdr, countBlocks_correct allocated _ fun b mem => List.mem_range.mp mem]
  simp only [bind, Except.bind, found]
  cases env.host with
  | little => exact ⟨_, rfl⟩
  | big =>
    rw [imageSwapHeader, if_neg]
    · exact ⟨_, rfl⟩
    · simp only [List.length_append, List.length_drop, len]
      omega

theorem writeBlocks_complete (allocated : Allocated vol ost) (whole : ∀ n len, env.result n len = len)
    (readable : ∀ b, ∃ buf, vol.read b = .ok buf) (blks : List Nat) (inside : ∀ b ∈ blks, b < vol.fs_blocks) :
    ∀ sink, ∃ sink', writeBlocks env vol ost blks sink = (none, sink') := by
  induction blks with
  | nil => exact fun sink => ⟨sink, rfl⟩
  | cons b rest ih =>
    intro sink
    have ih := ih fun b' mem => inside b' (List.mem_cons_of_mem _ mem)
    rw [writeBlocks, imageTestBit_of_lt allocated (inside b List.mem_cons_self)]
    cases marked ost b with
    | false => exact ih sink
    | true =>
      obtain ⟨buf, read⟩ := readable b
      have full := vol.full b buf read
      simp only [read, write, whole, full, lt_irrefl, if_false]
      exact ih _

theorem writeBitmaps_complete (blksz : ost.ost_bmpblksz = bitmapBlocksize) (whole : ∀ n len, env.result n len = len)
    (arrs : List BitmapArr) (maps : ∀ arr ∈ arrs, arr.arr_map.length = bitmapBlocksize) :
    ∀ sink, ∃ sink', writeBitmaps env ost arrs sink = (none, sink') := by
  induction arrs with
  | nil => exact fun sink => ⟨sink, rfl⟩
  | cons arr rest ih =>
    intro sink
    have len := maps arr List.mem_cons_self
    rw [writeBitmaps, blksz, List.take_of_length_le len.le]
    simp only [write, whole, len, lt_irrefl, if_false]
    exact ih (fun a mem => maps a (List.mem_cons_of_mem _ mem)) _

theorem writeImageFile_complete (allocated : Allocated vol ost) (room : env.block.length = vol.fs_blocksize)
    (whole : ∀ n len, env.result n len = len) (readable : ∀ b, ∃ buf, vol.read b = .ok buf) :
    ∃ sink, writeImageFile env vol ost = (none, sink) := by
  obtain ⟨hdr, made⟩ := @imageHdr_ok env vol ost allocated room
  have block := length_headerBlock allocated room made
  rw [writeImageFile, made]
  simp only [write, whole, block, ne_eq, not_true_eq_false, if_false]
  obtain ⟨sink, blocks⟩ := writeBlocks_complete allocated whole readable _ (fun b mem => List.mem_range.mp mem)
    ⟨[] ++ ((hdr.parts env.host).flatten ++ env.block.drop (hdr.parts env.host).flatten.length).take
      (vol.fs_blocksize : Int).toNat, 0 + 1⟩
  rw [blocks]
  exact writeBitmaps_complete allocated.blksz whole _ (fun a mem => allocated.maps a (List.mem_of_mem_take mem)) sink

end Complete

end Ocfs2.Image
