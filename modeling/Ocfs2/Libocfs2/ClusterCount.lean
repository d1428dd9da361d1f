import Ocfs2.Libocfs2.ClusterBitmap

set_option autoImplicit false

namespace Ocfs2.ClusterBitmap

open Bitmap ByteBuffer

def getSetBits (bitmap : ClusterBitmap) : Nat := bitmap.b_set_bits.toNat

def reports (bitmap : ClusterBitmap) (bitno : Nat) : Bool := bitmap.test bitno testGeneric = .ok true

def reported (bitmap : ClusterBitmap) : Nat := countTrue (reports bitmap) bitmap.b_total_bits

def reportedIn (bitmap : ClusterBitmap) (range : Nat × Nat) : Nat :=
  countTrue (fun i => reports bitmap (range.1 + i)) range.2

def moved (before after : ClusterBitmap) : Option (Nat × Nat) → Int
  | none => 0
  | some range => reportedIn after range - reportedIn before range

def drift (bitmap : ClusterBitmap) : List Op → Int
  | [] => 0
  | op :: ops =>
    match step bitmap op with
    | .ok (next, range) => moved bitmap next range + drift next ops
    | .error _ => drift bitmap ops

section Counts

theorem countTrue_sub_countTrue {f g : Nat → Bool} {n lo len : Nat} (same : ∀ i, ¬ (lo ≤ i ∧ i < lo + len) → g i = f i)
    (ends : ∀ i, n ≤ i → f i = false ∧ g i = false) :
    (countTrue g n : Int) - countTrue f n =
      countTrue (fun i => g (lo + i)) len - countTrue (fun i => f (lo + i)) len := by
  have whole (h : Nat → Bool) (ends : ∀ i, n ≤ i → h i = false) :
      countTrue h (n + (lo + len)) = countTrue h n := by
    rw [countTrue_add, Nat.add_eq_left, countTrue, Nat.count_iff_forall_not]
    intro i _
    simp [ends (n + i) (by omega)]
  have parts (h : Nat → Bool) : countTrue h (n + (lo + len)) =
      countTrue h lo + countTrue (fun i => h (lo + i)) len + countTrue (fun i => h (lo + len + i)) n := by
    rw [Nat.add_comm n, countTrue_add, countTrue_add]
  have left : countTrue g lo = countTrue f lo := countTrue_congr _ _ _ fun i less => same i (by omega)
  have right : countTrue (fun i => g (lo + len + i)) n = countTrue (fun i => f (lo + len + i)) n :=
    countTrue_congr _ _ _ fun i _ => same (lo + len + i) (by omega)
  have all := whole g fun i above => (ends i above).2
  have all' := whole f fun i above => (ends i above).1
  rw [parts] at all all'
  omega

variable {bitmap bitmap' : ClusterBitmap} {total : Nat} (layout : Layout total bitmap.b_regions.toList)

include layout

theorem reports_iff (b : Nat) : reports bitmap b = true ↔ b < bitmap.b_total_bits ∧ Member bitmap.b_regions.toList b := by
  rw [reports, decide_eq_true_eq, test]
  by_cases inside : b < bitmap.b_total_bits
  · rw [if_neg (Nat.not_le.mpr inside)]
    rcases testGeneric_cases bitmap b layout with ⟨uncovered, run⟩ | ⟨-, value, run, right⟩
    · have absent : ¬ Member bitmap.b_regions.toList b := fun member => uncovered member.covered
      simp [run, absent]
    · rw [run, ← right]
      simp [inside]
  · simp [Nat.not_lt.mp inside, inside]

theorem reported_sub_reported (kept : Kept total bitmap bitmap') (range : Nat × Nat)
    (same : ∀ x, ¬ (range.1 ≤ x ∧ x < range.1 + range.2) →
      (Member bitmap'.b_regions.toList x ↔ Member bitmap.b_regions.toList x)) :
    (reported bitmap' : Int) - reported bitmap = moved bitmap bitmap' (some range) := by
  have right := reports_iff layout
  have right' := reports_iff kept.layout
  rw [kept.total] at right'
  rw [reported, reported, kept.total]
  refine countTrue_sub_countTrue (fun x outside => ?_) fun x above => ?_
  · rw [Bool.eq_iff_iff, right, right', same x outside]
  · rw [← Bool.not_eq_true, ← Bool.not_eq_true, right, right']
    omega

theorem reported_sub_bit (kept : Kept total bitmap bitmap') {b : Nat}
    (same : ∀ x, x ≠ b → (Member bitmap'.b_regions.toList x ↔ Member bitmap.b_regions.toList x))
    (inside : b < bitmap.b_total_bits) :
    (reported bitmap' : Int) - reported bitmap = (reports bitmap' b).toInt - (reports bitmap b).toInt := by
  rw [reported_sub_reported layout kept (b, 1) fun x outside => same x (by omega)]
  have one (f : Nat → Bool) : (countTrue f 1 : Int) = (f 0).toInt := by
    rw [countTrue, Nat.count_succ, Nat.count_zero]
    cases f 0 <;> rfl
  rw [moved, reportedIn, reportedIn, one, one, Nat.add_zero]

theorem step_counted {op : Op} {range : Option (Nat × Nat)} (ok : step bitmap op = .ok (bitmap', range)) :
    bitmap'.b_set_bits =
      bitmap.b_set_bits + BitVec.ofInt 64 (reported bitmap' - reported bitmap - moved bitmap bitmap' range) := by
  cases op with
  | set b =>
    obtain ⟨⟨out, old⟩, call, rfl, rfl⟩ := of_map_eq_ok ok
    obtain ⟨inside, kept, right, count, member⟩ := set_ok layout polite call
    have change := reported_sub_bit layout kept (fun x other => by rw [member, or_iff_right other]) inside
    have now : reports out b = true := (reports_iff kept.layout b).mpr ⟨by rwa [kept.total], (member b).mpr (.inl rfl)⟩
    have was : reports bitmap b = old := by
      rw [Bool.eq_iff_iff, reports_iff layout, right, and_iff_right inside]
    rw [change, now, was, count]
    cases old <;> simp [moved]
  | clear b =>
    obtain ⟨⟨out, old⟩, call, rfl, rfl⟩ := of_map_eq_ok ok
    obtain ⟨inside, kept, right, count, member⟩ := clear_ok layout polite call
    have change := reported_sub_bit layout kept (fun x other => by rw [member, and_iff_right other]) inside
    have now : reports out b = false := by
      rw [← Bool.not_eq_true, reports_iff kept.layout, member]
      simp
    have was : reports bitmap b = decide (old ≠ 0) := by
      rw [Bool.eq_iff_iff, reports_iff layout, decide_eq_true_eq, right, and_iff_right inside]
    rw [change, now, was, count]
    by_cases clear : old = 0 <;> simp [moved, clear, BitVec.sub_eq_add_neg]
  | allocRange min len =>
    obtain ⟨⟨out, first, found⟩, call, rfl, rfl⟩ := of_map_eq_ok ok
    obtain ⟨-, allocated, framed, -⟩ := allocRange_ok layout polite call
    have change := reported_sub_reported layout framed.toKept (first, found) fun x outside => by
      rw [allocated.member x, or_iff_left outside]
    simp only [change, Int.sub_self, framed.count]
    simp
  | clearRange len first =>
    obtain ⟨out, call, rfl, rfl⟩ := of_map_eq_ok ok
    obtain ⟨framed, same⟩ := clearRange_ok layout polite call
    have change := reported_sub_reported layout framed.toKept (first, len) same
    simp only [change, Int.sub_self, framed.count]
    simp

theorem run_counted (ops : List Op) (ok : run bitmap ops = some bitmap') :
    bitmap'.b_set_bits =
      bitmap.b_set_bits + BitVec.ofInt 64 (reported bitmap' - reported bitmap - drift bitmap ops) := by
  induction ops generalizing bitmap with
  | nil =>
    cases ok
    simp [drift]
  | cons op ops ih =>
    rw [run] at ok
    rw [drift]
    split at ok
    next next range call =>
      rw [ih (step_kept layout call).layout ok, step_counted layout call, call, BitVec.add_assoc, ← BitVec.ofInt_add]
      simp only
      congr 2
      omega
    next => cases ok
    next e _ call =>
      rw [call]
      exact ih layout ok

end Counts

theorem getSetBits_run_iff (fs : Filesys) (least : OCFS2_MIN_CLUSTERSIZE ≤ fs.fs_clustersize)
    (greatest : fs.fs_clustersize ≤ OCFS2_MAX_CLUSTERSIZE) (small : fs.fs_clusters < 2 ^ 32) (new : ClusterBitmap)
    (made : clusterBitmapNew fs = .ok new) (ops : List Op) (bitmap : ClusterBitmap) (ran : run new ops = some bitmap) :
    getSetBits bitmap = reported bitmap ↔ (2 ^ 64 : Int) ∣ drift new ops := by
  obtain ⟨bitmap₀, k, m, run₀, total, count, -, list, layout, -⟩ := clusterBitmapNew_spec fs least greatest
  rw [made] at run₀
  cases run₀
  have empty : reported new = 0 := by
    rw [reported, countTrue, Nat.count_iff_forall_not]
    intro b _
    rw [reports_iff layout, list]
    exact fun both => regionsUpTo_clear b both.2
  have kept := run_kept layout ops ran
  have bound : reported bitmap ≤ bitmap.b_total_bits := Nat.count_le _
  rw [getSetBits, run_counted layout ops ran, show new.b_set_bits = 0#64 from count, empty, BitVec.zero_add,
    BitVec.toNat_ofInt]
  rw [kept.total, total] at bound
  omega

theorem getSetBits_run_balanced :
    ∃ new bitmap, clusterBitmapNew ⟨16, 4096⟩ = .ok new ∧
      run new [.set 7, .allocRange 2 3, .clearRange 3 0] = some bitmap ∧ getSetBits bitmap = reported bitmap :=
  ⟨_, _, rfl, rfl, (getSetBits_run_iff ⟨16, 4096⟩ (by decide) (by decide) (by decide) _ rfl
    [.set 7, .allocRange 2 3, .clearRange 3 0] _ rfl).mpr (by decide +kernel)⟩

theorem getSetBits_misses_allocRange :
    ∃ new bitmap, clusterBitmapNew ⟨16, 4096⟩ = .ok new ∧ run new [.allocRange 3 3] = some bitmap ∧
      getSetBits bitmap = 0 ∧ reported bitmap = 3 :=
  ⟨_, _, rfl, rfl, by decide +kernel, by decide +kernel⟩

end Ocfs2.ClusterBitmap
