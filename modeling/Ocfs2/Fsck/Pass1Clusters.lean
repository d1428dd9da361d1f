import Ocfs2.Libocfs2.ChainLedger
import Ocfs2.Libocfs2.ClusterBitmap

set_option autoImplicit false

namespace Ocfs2.Pass1Clusters

open Bitmap ChainAlloc ClusterBitmap

structure Env where
  fs_clusters : Nat
  backup_clusters : List Nat
  answer : Nat → Bool → Bool

structure State where
  ci_chains : ChainBitmap
  prompted : List Nat

section Model

variable (env : Env)

def forceClusterBit (st : State) (bit : Nat) (val : Bool) : State where
  ci_chains := if env.answer bit val then (chainForceVal st.ci_chains bit val).1 else st.ci_chains
  prompted := st.prompted ++ [bit]

def findNextSetFrom {π σ : Type} (bitmap : Bitmap π σ) (start : Nat) : Nat :=
  match bitmap.findNextSet start findNextSetGeneric with
  | .ok bit => bit
  | .error .bitNotFound => env.fs_clusters
  | .error _ => start

def clearUpTo (cbit : Nat) : Nat → State → Nat → Option (State × Nat)
  | 0, _, _ => none
  | fuel + 1, st, cbit_found =>
    if cbit_found < cbit then
      let st := if cbit_found ∈ env.backup_clusters then st else forceClusterBit env st cbit_found false
      clearUpTo cbit fuel st (findNextSetFrom env st.ci_chains (cbit_found + 1))
    else some (st, cbit_found)

def walkClusters (allocated : ClusterBitmap) : Nat → State → Nat → Option State
  | 0, _, _ => none
  | fuel + 1, st, last_cbit =>
    if last_cbit < env.fs_clusters then
      let cbit := findNextSetFrom env allocated last_cbit
      let cbit_found := findNextSetFrom env st.ci_chains last_cbit
      if cbit_found = cbit then walkClusters allocated fuel st (cbit + 1)
      else
        match clearUpTo env cbit (env.fs_clusters + 1) st cbit_found with
        | none => none
        | some (st, cbit_found) =>
          let st := if cbit_found ≠ cbit ∧ cbit ≠ env.fs_clusters then forceClusterBit env st cbit true else st
          walkClusters allocated fuel st (cbit + 1)
    else some st

def writeClusterAlloc (allocated : ClusterBitmap) (ci_chains : ChainBitmap) : Option State :=
  walkClusters env allocated (env.fs_clusters + 1) ⟨ci_chains, []⟩ 0

end Model

section Bits

variable {env : Env}

structure IsNext (clusters : Nat) (member : Nat → Prop) (start n : Nat) : Prop where
  low : start ≤ n
  gap : ∀ x, start ≤ x → x < n → x < clusters → ¬ member x
  hit : n ≠ clusters → member n

theorem findNextSetFrom_isNext {π σ : Type} {bitmap : Bitmap π σ}
    (layout : Layout bitmap.b_total_bits bitmap.b_regions.toList) {start : Nat}
    (inside : start ≤ env.fs_clusters) (big : env.fs_clusters ≤ bitmap.b_total_bits) :
    IsNext env.fs_clusters (Member bitmap.b_regions.toList) start (findNextSetFrom env bitmap start) := by
  rw [findNextSetFrom, findNextSet]
  by_cases beyond : start ≥ bitmap.b_total_bits
  · have same : start = env.fs_clusters := by omega
    rw [if_pos beyond]
    exact ⟨le_rfl, fun x low less => absurd (low.trans_lt less) (lt_irrefl _), fun other => absurd same other⟩
  · rw [if_neg beyond]
    rcases findNextSetGeneric_spec bitmap bitmap.b_total_bits start layout with
      ⟨b, run, low, member, before⟩ | ⟨run, none⟩
    · rw [run]
      exact ⟨low, fun x hx less _ => before x hx less, fun _ => member⟩
    · rw [run]
      exact ⟨inside, fun x hx _ _ => none x hx, fun other => absurd rfl other⟩

structure Whole (clusters : Nat) (bitmap : ChainBitmap) : Prop where
  layout : Layout bitmap.b_total_bits bitmap.b_regions.toList
  covered : ∀ x < clusters, Covered bitmap.b_regions.toList x

theorem Whole.big {clusters : Nat} {bitmap : ChainBitmap} (whole : Whole clusters bitmap) :
    clusters ≤ bitmap.b_total_bits := by
  rcases Nat.eq_zero_or_pos clusters with rfl | pos
  · exact Nat.zero_le _
  · obtain ⟨r, inside, covers⟩ := whole.covered (clusters - 1) (by omega)
    have := whole.layout.bound r inside
    have := covers.2
    omega

theorem forceVal_assigns {bitmap : ChainBitmap} (whole : Whole env.fs_clusters bitmap) {b : Nat}
    (inside : b < env.fs_clusters) (val : Bool) :
    Whole env.fs_clusters (chainForceVal bitmap b val).1 ∧
      ∀ x, Member (chainForceVal bitmap b val).1.b_regions.toList x ↔
        if x = b then val = true else Member bitmap.b_regions.toList x := by
  have valid : ¬ b ≥ bitmap.b_total_bits := by
    have := whole.big
    omega
  cases val with
  | true =>
    obtain ⟨-, bitmap', old, run, -, written⟩ :=
      (setGeneric_writes ChainAlloc.polite bitmap b whole.layout).resolve_left fun missing => missing.1 (whole.covered b inside)
    simp only [chainForceVal, if_true, chainSet, Bitmap.set, valid, if_false, run, Except.map]
    exact ⟨⟨written.total ▸ written.layout, fun x hx => (written.covered x).mpr (whole.covered x hx)⟩,
      by simpa using written.member⟩
  | false =>
    obtain ⟨-, bitmap', old, run, -, written⟩ :=
      (clearGeneric_writes ChainAlloc.polite bitmap b whole.layout).resolve_left fun missing => missing.1 (whole.covered b inside)
    simp only [chainForceVal, Bool.false_eq_true, chainClear, Bitmap.clear, valid, if_false, run, Except.map]
    exact ⟨⟨written.total ▸ written.layout, fun x hx => (written.covered x).mpr (whole.covered x hx)⟩,
      by simpa using written.member⟩

end Bits

section Walk

variable {env : Env} (used before : Nat → Prop)

def Wanted (env : Env) (x : Nat) : Prop := used x ∨ x ∈ env.backup_clusters ∧ before x

structure Done (env : Env) (st : State) (front : Nat) : Prop where
  whole : Whole env.fs_clusters st.ci_chains
  settled : ∀ x < front, x < env.fs_clusters →
    (Member st.ci_chains.b_regions.toList x ↔ Wanted used before env x)
  untouched : ∀ x, front ≤ x → (Member st.ci_chains.b_regions.toList x ↔ before x)
  order : st.prompted.Pairwise (· < ·)
  asked : ∀ x ∈ st.prompted, x < front

variable {used before} {st : State} {front : Nat}

theorem Done.skip (done : Done used before env st front) {next : Nat} (le : front ≤ next)
    (same : ∀ x, front ≤ x → x < next → x < env.fs_clusters →
      (Member st.ci_chains.b_regions.toList x ↔ Wanted used before env x)) :
    Done used before env st next where
  whole := done.whole
  settled x less inside := by
    by_cases early : x < front
    · exact done.settled x early inside
    · exact same x (by omega) less inside
  untouched x more := done.untouched x (le.trans more)
  order := done.order
  asked x member := (done.asked x member).trans_le le

theorem Done.force (done : Done used before env st front) (accepts : ∀ b v, env.answer b v = true)
    (inside : front < env.fs_clusters) (val : Bool) (right : val = true ↔ Wanted used before env front) :
    Done used before env (forceClusterBit env st front val) (front + 1) := by
  obtain ⟨whole, member⟩ := forceVal_assigns done.whole inside val
  have bits : (forceClusterBit env st front val).ci_chains = (chainForceVal st.ci_chains front val).1 :=
    if_pos (accepts front val)
  refine ⟨bits ▸ whole, fun x less within => ?_, fun x more => ?_, ?_, fun x member => ?_⟩
  · rw [bits, member]
    by_cases here : x = front
    · rw [if_pos here, here, right]
    · rw [if_neg here]
      exact done.settled x (by omega) within
  · rw [bits, member, if_neg (by omega)]
    exact done.untouched x (by omega)
  · refine List.pairwise_append.mpr ⟨done.order, List.pairwise_singleton _ _, fun x earlier y last => ?_⟩
    rw [List.mem_singleton.mp last]
    exact done.asked x earlier
  · rcases List.mem_append.mp member with earlier | last
    · exact (done.asked x earlier).trans (Nat.lt_succ_self front)
    · rw [List.mem_singleton.mp last]
      exact Nat.lt_succ_self front

theorem Done.skip_clear (done : Done used before env st front) {next : Nat} (le : front ≤ next)
    (unused : ∀ x, front ≤ x → x < next → ¬ used x)
    (clear : ∀ x, front ≤ x → x < next → x < env.fs_clusters → ¬ Member st.ci_chains.b_regions.toList x) :
    Done used before env st next :=
  done.skip le fun x low less inside => by
    have off := clear x low less inside
    have off' := off
    rw [done.untouched x low] at off'
    simp [Wanted, off, off', unused x low less]

theorem clearUpTo_spec (accepts : ∀ b v, env.answer b v = true) {cbit : Nat} (last : cbit ≤ env.fs_clusters)
    (fuel : Nat) {found : Nat} (enough : cbit - found < fuel)
    (unused : ∀ x, front ≤ x → x < cbit → ¬ used x) (le : front ≤ cbit)
    (done : Done used before env st front)
    (next : IsNext env.fs_clusters (Member st.ci_chains.b_regions.toList) front found) :
    ∃ st' found', clearUpTo env cbit fuel st found = some (st', found') ∧ Done used before env st' cbit ∧
      IsNext env.fs_clusters (Member st'.ci_chains.b_regions.toList) cbit found' := by
  induction fuel generalizing st front found with
  | zero => omega
  | succ fuel ih =>
    rw [clearUpTo]
    split
    next less =>
      have here := done.skip_clear next.low (fun x low up => unused x low (by omega)) next.gap
      have set := next.hit (by omega)
      have idle : ¬ used found := unused found next.low less
      -- a set bit before `cbit` goes, unless it is that of a backup superblock
      have step : Done used before env
          (if found ∈ env.backup_clusters then st else forceClusterBit env st found false) (found + 1) := by
        split
        next backup =>
          refine here.skip (Nat.le_succ found) fun x low up inside => ?_
          obtain rfl : x = found := by omega
          simp [Wanted, set, backup, ← here.untouched x le_rfl]
        next plain => exact here.force accepts (by omega) false (by simp [Wanted, idle, plain])
      have after := findNextSetFrom_isNext step.whole.layout (by omega : found + 1 ≤ env.fs_clusters)
        step.whole.big
      have := after.low
      have := next.low
      exact ih (by omega) (fun x low => unused x (by omega)) less step after
    next reached =>
      refine ⟨st, found, rfl, done.skip_clear le unused fun x low up => next.gap x low (by omega), ?_⟩
      exact ⟨by omega, fun x low => next.gap x (le.trans low), next.hit⟩

theorem walkClusters_spec {allocated : ClusterBitmap}
    (layout : Layout env.fs_clusters allocated.b_regions.toList)
    (total : allocated.b_total_bits = env.fs_clusters) (accepts : ∀ b v, env.answer b v = true) (fuel : Nat)
    (enough : env.fs_clusters - front < fuel)
    (done : Done (Member allocated.b_regions.toList) before env st front) :
    ∃ st', walkClusters env allocated fuel st front = some st' ∧
      (∀ x < env.fs_clusters, (Member st'.ci_chains.b_regions.toList x ↔
        Wanted (Member allocated.b_regions.toList) before env x)) ∧
      st'.prompted.Pairwise (· < ·) := by
  induction fuel generalizing st front with
  | zero => omega
  | succ fuel ih =>
    rw [walkClusters]
    split
    next inside =>
      have use := findNextSetFrom_isNext (total.symm ▸ layout) inside.le total.ge
      have found := findNextSetFrom_isNext done.whole.layout inside.le done.whole.big
      generalize findNextSetFrom env allocated front = cbit at use ⊢
      have low := use.low
      -- the next cluster in use is one of the volume, or its end
      have last : cbit ≤ env.fs_clusters := by
        by_contra past
        obtain ⟨r, member, covers, -⟩ := use.hit (by omega)
        have := layout.bound r member
        have := covers.2
        omega
      have unused : ∀ x, front ≤ x → x < cbit → ¬ Member allocated.b_regions.toList x := fun x hx less =>
        use.gap x hx less (by omega)
      -- one more cluster is settled when its bit is already right
      have settle {st' : State} (here : Done (Member allocated.b_regions.toList) before env st' cbit)
          (set : cbit ≠ env.fs_clusters → Member st'.ci_chains.b_regions.toList cbit) :
          Done (Member allocated.b_regions.toList) before env st' (cbit + 1) :=
        here.skip (Nat.le_succ cbit) fun x low up within => by
          obtain rfl : x = cbit := by omega
          simp [Wanted, use.hit within.ne, set within.ne]
      simp only
      split
      next same =>
        rw [same] at found
        exact ih (by omega) (settle (done.skip_clear low unused found.gap) found.hit)
      next other =>
        obtain ⟨st', found', run, here, next⟩ := clearUpTo_spec accepts last (env.fs_clusters + 1) (by omega)
          unused low done found
        simp only [run]
        split
        next missing =>
          have within : cbit < env.fs_clusters := by omega
          exact ih (by omega) (here.force accepts within true (by simp [Wanted, use.hit within.ne]))
        next right =>
          refine ih (by omega) (settle here fun within => ?_)
          obtain rfl : found' = cbit := by omega
          exact next.hit within
    next past => exact ⟨st, rfl, fun x inside => done.settled x (by omega) inside, done.order⟩

end Walk

theorem writeClusterAlloc_exact (env : Env) (allocated : ClusterBitmap) (ci_chains : ChainBitmap)
    (layout : Layout env.fs_clusters allocated.b_regions.toList)
    (total : allocated.b_total_bits = env.fs_clusters) (whole : Whole env.fs_clusters ci_chains)
    (accepts : ∀ b v, env.answer b v = true) :
    ∃ st, writeClusterAlloc env allocated ci_chains = some st ∧
      (∀ c < env.fs_clusters, (Member st.ci_chains.b_regions.toList c ↔
        Member allocated.b_regions.toList c ∨
          c ∈ env.backup_clusters ∧ Member ci_chains.b_regions.toList c)) ∧
      st.prompted.Nodup := by
  have start : Done (Member allocated.b_regions.toList) (Member ci_chains.b_regions.toList) env
      ⟨ci_chains, []⟩ 0 :=
    ⟨whole, fun x less => absurd less (Nat.not_lt_zero x), fun x _ => Iff.rfl, List.Pairwise.nil, by simp⟩
  obtain ⟨st, run, bits, order⟩ := walkClusters_spec layout total accepts (env.fs_clusters + 1) (by omega) start
  exact ⟨st, run, bits, order.imp fun less => less.ne⟩

def sixteenClear {π σ : Type} (r : π) (s : σ) : Bitmap π σ :=
  ⟨16, 0, .node .black .nil (allocRegion 0 16 r) .nil, s⟩

theorem layout_sixteenClear {π σ : Type} (r : π) (s : σ) : Layout 16 (sixteenClear r s).b_regions.toList := by
  have list : (sixteenClear r s).b_regions.toList = [allocRegion 0 16 r] := rfl
  rw [list]
  exact ⟨by simpa using Region.wf_alloc 0 16 r (by decide), by simp, by simp [allocRegion]⟩

theorem covered_sixteenClear {π σ : Type} (r : π) (s : σ) {x : Nat} (inside : x < 16) :
    Covered (sixteenClear r s).b_regions.toList x :=
  ⟨allocRegion 0 16 r, List.mem_singleton_self _, Nat.zero_le x, by simpa [allocRegion] using inside⟩

def emptyGroup : RegionPrivate := ⟨⟨2, 16, 16, 0, 0, 32, [0, 0]⟩, false⟩

def emptyInode : BitmapPrivate := ⟨9, ⟨true, true, 0, 16, 1, 1, [⟨16, 16, 32⟩]⟩, false⟩

theorem writeClusterAlloc_exact_one : ∃ allocated old st,
    setGeneric globalClusterOps (sixteenClear () ()) 2 = .ok (allocated, old) ∧
      writeClusterAlloc ⟨16, [], fun _ _ => true⟩ allocated (sixteenClear emptyGroup emptyInode) = some st ∧
      Member st.ci_chains.b_regions.toList 2 := by
  obtain ⟨-, allocated, old, set, -, written⟩ := (setGeneric_writes polite_silent (sixteenClear () ()) 2
    (layout_sixteenClear () ())).resolve_left fun missing => missing.1 (covered_sixteenClear () () (by decide))
  obtain ⟨st, run, bits, -⟩ := writeClusterAlloc_exact ⟨16, [], fun _ _ => true⟩ allocated
    (sixteenClear emptyGroup emptyInode) written.layout written.total
    ⟨layout_sixteenClear _ _, fun x inside => covered_sixteenClear _ _ inside⟩ (fun _ _ => rfl)
  refine ⟨allocated, old, st, set, run, (bits 2 (by decide)).mpr (.inl ?_)⟩
  rw [written.member, if_pos rfl]

end Ocfs2.Pass1Clusters
