import Ocfs2.Libocfs2.UnixIo

set_option autoImplicit false

namespace Ocfs2.UnixIo

open ByteBuffer Rbtree

namespace Cache

abbrev blkno (ic : Cache) (icb : Nat) : Nat := (ic.block icb).icb_blkno

abbrev entries (ic : Cache) : List Nat := ic.ic_lookup.toList

abbrev size (ic : Cache) : Nat := ic.ic_metadata_buffer.length

structure Linked (ic : Cache) : Prop where
  lru : ic.ic_lru.Perm (List.range ic.size)
  sorted : ic.entries.Pairwise fun a b => ic.blkno a < ic.blkno b
  entered : ∀ icb, icb ∈ ic.entries ↔ icb < ic.size ∧ ic.blkno icb ≠ uint64Max

def Coherent (ic : Cache) (blksize : Nat) (content : Buffer) (p : Nat → Prop) : Prop :=
  ∀ icb ∈ ic.entries, p (ic.blkno icb) →
    (ic.block icb).icb_buf = blockAt content blksize (ic.blkno icb)

structure InStep (ic : Cache) (blksize : Nat) (content : Buffer) (p : Nat → Prop) : Prop where
  linked : ic.Linked
  nonempty : 0 < ic.size
  coherent : ic.Coherent blksize content p

end Cache

section Links

variable {ic : Cache} (linked : ic.Linked)

include linked

omit linked in
theorem cut_order {keys : List Nat} (sorted : keys.Pairwise fun a b => ic.blkno a < ic.blkno b) (blkno : Nat) :
    Cut (ic.order blkno) keys := by
  refine sorted.imp ?_
  intro a b less
  simp only [Cache.order, Nat.compare_eq_gt, Nat.compare_eq_lt]
  simp only [Cache.blkno] at less
  omega

omit linked in
theorem lookup_some {blkno icb : Nat} (found : ioCacheLookup ic blkno = some icb) :
    icb ∈ ic.entries ∧ ic.blkno icb = blkno := by
  obtain ⟨member, equal⟩ := search_some found
  exact ⟨member, (Nat.compare_eq_eq.mp equal).symm⟩

theorem lookup_none {blkno : Nat} (missed : ioCacheLookup ic blkno = none) :
    ∀ icb ∈ ic.entries, ic.blkno icb ≠ blkno := by
  intro icb member equal
  exact search_none (cut_order linked.sorted blkno) missed icb member (Nat.compare_eq_eq.mpr equal.symm)

theorem blkno_inj {a b : Nat} (ha : a ∈ ic.entries) (hb : b ∈ ic.entries) (same : ic.blkno a = ic.blkno b) :
    a = b := by
  have distinct : (ic.entries.map ic.blkno).Nodup :=
    (List.pairwise_map.mpr linked.sorted).imp fun less => less.ne
  exact List.inj_on_of_nodup_map distinct ha hb same

end Links

theorem block_modifyBlock (ic : Cache) (icb j : Nat) (f : CacheBlock → CacheBlock)
    (inside : icb < ic.size) :
    (ic.modifyBlock icb f).block j = if j = icb then f (ic.block j) else ic.block j := by
  simp only [Cache.block, Cache.modifyBlock, List.getD_eq_getElem?_getD, List.getElem?_modify]
  by_cases same : j = icb
  · subst same
    simp [List.getElem?_eq_getElem inside]
  · simp [same, Ne.symm same]

@[simp] theorem size_modifyBlock (ic : Cache) (icb : Nat) (f : CacheBlock → CacheBlock) :
    (ic.modifyBlock icb f).size = ic.size := by
  simp [Cache.modifyBlock, Cache.size]

section InStep

variable {ic : Cache} {blksize icb : Nat} {content : Buffer} {p q : Nat → Prop} (step : ic.InStep blksize content p)

include step

theorem Cache.InStep.touch (nocache : Bool) (inside : icb < ic.size) :
    (touch nocache ic icb).InStep blksize content p := by
  obtain ⟨⟨lru, sorted, entered⟩, nonempty, coherent⟩ := step
  have member : icb ∈ ic.ic_lru := lru.mem_iff.mpr (List.mem_range.mpr inside)
  have back := (List.perm_cons_erase member).symm.trans lru
  cases nocache
  · exact ⟨⟨(List.perm_append_singleton _ _).trans back, sorted, entered⟩, nonempty, coherent⟩
  · exact ⟨⟨back, sorted, entered⟩, nonempty, coherent⟩

theorem Cache.InStep.copyIn (data : Buffer) (member : icb ∈ ic.entries)
    (right : q (ic.blkno icb) → data = blockAt content blksize (ic.blkno icb))
    (more : ∀ b, q b → b ≠ ic.blkno icb → p b) : (copyIn ic icb data).InStep blksize content q := by
  obtain ⟨linked, nonempty, coherent⟩ := step
  have inside := ((linked.entered icb).mp member).1
  have key (j : Nat) : (UnixIo.copyIn ic icb data).blkno j = ic.blkno j := by
    simp only [Cache.blkno, UnixIo.copyIn, block_modifyBlock _ _ _ _ inside]
    split <;> rfl
  have same : (UnixIo.copyIn ic icb data).size = ic.size := size_modifyBlock ic icb _
  refine ⟨⟨?_, ?_, ?_⟩, same ▸ nonempty, ?_⟩
  · rw [same]
    exact linked.lru
  · simp only [key]
    exact linked.sorted
  · simp only [key, same]
    exact linked.entered
  · intro j entered wanted
    rw [key] at wanted ⊢
    rw [UnixIo.copyIn, block_modifyBlock _ _ _ _ inside]
    by_cases same : j = icb
    · subst same
      rw [if_pos rfl]
      exact right wanted
    · rw [if_neg same]
      exact coherent j entered (more _ wanted fun equal => same (blkno_inj linked entered member equal))

end InStep

theorem touch_lookup (nocache : Bool) (ic : Cache) (icb blkno : Nat) :
    ioCacheLookup (touch nocache ic icb) blkno = ioCacheLookup ic blkno := by
  cases nocache <;> rfl

section Replace

variable {ic : Cache} {icb b : Nat} (linked : ic.Linked)

include linked

theorem disconnect_spec (inside : icb < ic.size) :
    (ioCacheDisconnect ic icb).Linked ∧ (ioCacheDisconnect ic icb).size = ic.size ∧
      (ioCacheDisconnect ic icb).blkno icb = uint64Max ∧
      (∀ j, j ≠ icb → (ioCacheDisconnect ic icb).block j = ic.block j) ∧
      (ioCacheDisconnect ic icb).ic_lru = ic.ic_lru := by
  unfold ioCacheDisconnect
  split
  next free => exact ⟨linked, rfl, free, fun _ _ => rfl, rfl⟩
  next used =>
    set erased : Cache := { ic with ic_lookup := rbEraseEntry (· == icb) ic.ic_lookup } with def_erased
    have block (j : Nat) : (erased.modifyBlock icb fun b => { b with icb_blkno := uint64Max }).block j =
        if j = icb then { ic.block j with icb_blkno := uint64Max } else ic.block j :=
      block_modifyBlock erased icb j _ inside
    have entries : erased.entries = ic.entries.erase icb := by
      rw [Cache.entries, def_erased, toList_rbEraseEntry, List.erase_eq_eraseP']
    have nodup : ic.entries.Nodup := linked.sorted.imp fun less same => by
      rw [same] at less
      exact absurd less (lt_irrefl _)
    have member (j : Nat) : j ∈ erased.entries ↔ j ≠ icb ∧ j ∈ ic.entries := by
      rw [entries, nodup.mem_erase_iff]
    refine ⟨⟨?_, ?_, ?_⟩, size_modifyBlock _ _ _, ?_, ?_, rfl⟩
    · rw [size_modifyBlock]
      exact linked.lru
    · have sublist := linked.sorted.sublist (List.erase_sublist (a := icb))
      rw [← entries] at sublist
      refine sublist.imp_of_mem ?_
      intro a b ha hb less
      simpa only [Cache.blkno, block, ((member a).mp ha).1, ((member b).mp hb).1, if_false] using less
    · intro j
      refine (member j).trans ?_
      by_cases same : j = icb
      · simp [Cache.blkno, block, same]
      · simpa [Cache.blkno, block, same] using linked.entered j
    · simp [Cache.blkno, block]
    · intro j other
      rw [block, if_neg other]

theorem insert_spec (inside : icb < ic.size)
    (free : ic.blkno icb = uint64Max) (valid : b ≠ uint64Max)
    (fresh : ∀ j ∈ ic.entries, ic.blkno j ≠ b) :
    ∃ ic', ioCacheInsert (ic.modifyBlock icb fun x => { x with icb_blkno := b }) icb = .ok ic' ∧
      ic'.Linked ∧ ic'.size = ic.size ∧ ic'.blkno icb = b ∧
      ∀ j, j ≠ icb → ic'.block j = ic.block j := by
  set keyed := ic.modifyBlock icb fun x => { x with icb_blkno := b } with def_keyed
  have block (j : Nat) : keyed.block j =
      if j = icb then { ic.block j with icb_blkno := b } else ic.block j :=
    block_modifyBlock ic icb j _ inside
  have size : keyed.size = ic.size := size_modifyBlock ic icb _
  have key : (keyed.block icb).icb_blkno = b := by simp [block]
  have absent : icb ∉ ic.entries := fun member => ((linked.entered icb).mp member).2 free
  have kept (j : Nat) (member : j ∈ ic.entries) : keyed.block j = ic.block j := by
    rw [block, if_neg (fun same : j = icb => absent (same ▸ member))]
  have order (j : Nat) (member : j ∈ ic.entries) :
      keyed.order b j = compare b (ic.blkno j) := by
    rw [Cache.order, kept j member]
  have sorted : keyed.entries.Pairwise fun x y => keyed.blkno x < keyed.blkno y := by
    refine linked.sorted.imp_of_mem ?_
    intro x y hx hy less
    rw [Cache.blkno, Cache.blkno, kept x hx, kept y hy]
    exact less

  have missed : ∀ j ∈ keyed.entries, keyed.order b j ≠ .eq := by
    intro j member equal
    rw [order j member] at equal
    exact fresh j member (Nat.compare_eq_eq.mp equal).symm
  have none : search (keyed.order b) keyed.ic_lookup = none := by
    cases found : search (keyed.order b) keyed.ic_lookup with
    | none => rfl
    | some j => exact absurd (search_some found).2 (missed j (search_some found).1)
  have list := toList_rbInsert icb (cut_order sorted b) missed
  refine ⟨{ keyed with ic_lookup := rbInsert (keyed.order b) icb keyed.ic_lookup }, ?_, ⟨?_, ?_, ?_⟩,
    size, key, ?_⟩
  · rw [ioCacheInsert, key]
    simp only [none]
  · rw [size]
    exact linked.lru
  · change (rbInsert (keyed.order b) icb keyed.ic_lookup).toList.Pairwise
      fun x y => keyed.blkno x < keyed.blkno y
    rw [list, List.pairwise_append, List.pairwise_cons]
    refine ⟨sorted.sublist List.filter_sublist, ⟨?_, sorted.sublist List.filter_sublist⟩, ?_⟩
    · intro y hy
      obtain ⟨-, less⟩ := List.mem_filter.mp hy
      simp only [beq_iff_eq, Cache.order, Nat.compare_eq_lt] at less
      simpa only [Cache.blkno, key] using less
    · intro x hx y hy
      obtain ⟨-, greater⟩ := List.mem_filter.mp hx
      simp only [beq_iff_eq, Cache.order, Nat.compare_eq_gt] at greater
      rcases List.mem_cons.mp hy with rfl | hy
      · simpa only [Cache.blkno, key] using greater
      · obtain ⟨-, less⟩ := List.mem_filter.mp hy
        simp only [beq_iff_eq, Cache.order, Nat.compare_eq_lt] at less
        exact greater.trans less
  · intro j
    change j ∈ (rbInsert (keyed.order b) icb keyed.ic_lookup).toList ↔
      j < keyed.size ∧ keyed.blkno j ≠ uint64Max
    rw [list, List.mem_append, List.mem_cons, List.mem_filter, List.mem_filter, size]
    by_cases same : j = icb
    · subst same
      simp [Cache.blkno, key, valid, inside]
    · have split : j ∈ ic.entries → keyed.order b j = .gt ∨ keyed.order b j = .lt := by
        intro member
        have := missed j member
        cases h : keyed.order b j <;> simp_all
      rw [Cache.blkno, block, if_neg same, ← linked.entered j]
      constructor
      · rintro (⟨member, -⟩ | equal | ⟨member, -⟩)
        · exact member
        · exact absurd equal same
        · exact member
      · intro member
        rcases split member with greater | less
        · exact .inl ⟨member, by simp [greater]⟩
        · exact .inr (.inr ⟨member, by simp [less]⟩)
  · intro j other
    change keyed.block j = ic.block j
    rw [block, if_neg other]

theorem stealLru_spec (nonempty : 0 < ic.size)
    (valid : b ≠ uint64Max) (fresh : ∀ j ∈ ic.entries, ic.blkno j ≠ b) :
    ∃ icb ic', stealLru ic b = .ok (icb, ic') ∧ ic'.Linked ∧ ic'.size = ic.size ∧ icb < ic.size ∧
      ic'.blkno icb = b ∧ ∀ j, j ≠ icb → ic'.block j = ic.block j := by
  obtain ⟨icb, rest, lru⟩ : ∃ icb rest, ic.ic_lru = icb :: rest := by
    apply List.exists_cons_of_ne_nil
    intro empty
    have len := linked.lru.length_eq
    simp [empty] at len
    omega
  have inside : icb < ic.size :=
    List.mem_range.mp (linked.lru.mem_iff.mp (by rw [lru]; exact List.mem_cons_self))
  obtain ⟨linked₁, size₁, free, kept₁, -⟩ := disconnect_spec linked inside
  have fresh₁ : ∀ j ∈ (ioCacheDisconnect ic icb).entries, (ioCacheDisconnect ic icb).blkno j ≠ b := by
    intro j member
    have entered := (linked₁.entered j).mp member
    have other : j ≠ icb := fun same => entered.2 (same ▸ free)
    rw [size₁, Cache.blkno, kept₁ j other, ← linked.entered j] at entered
    rw [Cache.blkno, kept₁ j other]
    exact fresh j entered
  obtain ⟨ic', run, linked₂, size₂, key, kept₂⟩ :=
    insert_spec linked₁ (by omega) free valid fresh₁
  refine ⟨icb, ic', ?_, linked₂, size₂.trans size₁, inside, key, ?_⟩
  · simp only [stealLru, ioCachePopLru, lru]
    simp only [bind, Except.bind, run]
    rfl
  · intro j other
    rw [kept₂ j other, kept₁ j other]

end Replace

theorem Cache.InStep.steal {ic : Cache} {b blksize : Nat} {content : Buffer} {p q : Nat → Prop}
    (step : ic.InStep blksize content p) (here : Buffer) (valid : b ≠ uint64Max) (fresh : ∀ j ∈ ic.entries, ic.blkno j ≠ b)
    (right : q b → here = blockAt content blksize b) (more : ∀ c, q c → c ≠ b → p c) :
    ∃ icb ic', stealLru ic b = .ok (icb, ic') ∧ (ioCacheSeen (UnixIo.copyIn ic' icb here) icb).InStep blksize content q := by
  obtain ⟨icb, ic', run, linked', size, inside, key, kept⟩ := stealLru_spec step.linked step.nonempty valid fresh
  have inside' : icb < ic'.size := by omega
  have member : icb ∈ ic'.entries := (linked'.entered icb).mpr ⟨inside', key ▸ valid⟩
  have others : ic'.Coherent blksize content fun c => p c ∧ c ≠ b := by
    intro j entered wanted
    have other : j ≠ icb := fun same => wanted.2 (same ▸ key)
    have old : j ∈ ic.entries := by
      have := (linked'.entered j).mp entered
      rw [size, Cache.blkno, kept j other] at this
      exact (step.linked.entered j).mpr this
    rw [Cache.blkno, kept j other] at wanted ⊢
    exact step.coherent j old wanted.1
  have before : ic'.InStep blksize content fun c => p c ∧ c ≠ b := ⟨linked', size ▸ step.nonempty, others⟩
  have copied : (UnixIo.copyIn ic' icb here).InStep blksize content q :=
    before.copyIn here member (by rw [key]; exact right) (by rw [key]; exact fun c hq other => ⟨more c hq other, other⟩)
  have sized : (UnixIo.copyIn ic' icb here).size = ic'.size := size_modifyBlock ic' icb _
  exact ⟨icb, ic', run, copied.touch false (sized ▸ inside')⟩

theorem goodBlocks_le (ic : Cache) (n blkno : Nat) : goodBlocks ic n blkno ≤ n := by
  induction n generalizing blkno with
  | zero => rfl
  | succ n ih =>
    rw [goodBlocks]
    split
    · have := ih (blkno + 1)
      omega
    · omega

theorem goodBlocks_cached (ic : Cache) (n blkno i : Nat) (good : i < goodBlocks ic n blkno) :
    (ioCacheLookup ic (blkno + i)).isSome := by
  induction n generalizing blkno i with
  | zero => simp [goodBlocks] at good
  | succ n ih =>
    rw [goodBlocks] at good
    split at good
    next cached =>
      cases i with
      | zero => simpa using cached
      | succ i =>
        have := ih (blkno + 1) i (by omega)
        rwa [Nat.add_assoc, Nat.add_comm 1 i] at this
    next => omega

def Filled (blksize good blkno n i : Nat) (content data : Buffer) : Prop :=
  ∀ k, good ≤ i + k → k < n → blockAt data blksize k = blockAt content blksize (blkno + i + k)

theorem blockAt_drop (data : Buffer) (blksize k : Nat) :
    blockAt (data.drop blksize) blksize k = blockAt data blksize (k + 1) := by
  rw [blockAt, blockAt, List.drop_drop]
  congr 2
  ring

theorem Filled.next {blksize good blkno n i : Nat} {content data : Buffer}
    (filled : Filled blksize good blkno (n + 1) i content data) :
    Filled blksize good blkno n (i + 1) content (data.drop blksize) := by
  intro k later less
  rw [blockAt_drop, filled (k + 1) (by omega) (by omega)]
  congr 1
  omega

theorem blockAt_zero (data : Buffer) (blksize : Nat) : blockAt data blksize 0 = data.take blksize := by
  simp [blockAt]

theorem syncRead_spec (nocache : Bool) {blksize good blkno : Nat} {content : Buffer}
    (n i : Nat) (ic : Cache) (data : Buffer) (step : ic.InStep blksize content fun _ => True)
    (cached : ∀ j, i ≤ j → j < good → (ioCacheLookup ic (blkno + j)).isSome)
    (filled : Filled blksize good blkno n i content data) (len : data.length = n * blksize)
    (valid : good < i + n → blkno + i + n ≤ uint64Max) :
    ∃ ic', syncRead blksize nocache good blkno n i ic data =
        .ok (ic', (content.drop ((blkno + i) * blksize)).take (n * blksize)) ∧
      ic'.InStep blksize content fun _ => True := by
  induction n generalizing i ic data with
  | zero =>
    have empty : data = [] := List.length_eq_zero_iff.mp (by simpa using len)
    exact ⟨ic, by simp [syncRead, empty], step⟩
  | succ n ih =>
    have rest : (data.drop blksize).length = n * blksize := by
      rw [List.length_drop, len, Nat.add_mul, Nat.one_mul, Nat.add_sub_cancel]
    have output := blockAt_append_take content blksize (blkno + i) n
    cases hit : ioCacheLookup ic (blkno + i) with
    | some icb =>
      obtain ⟨member, key⟩ := lookup_some hit
      have inside := ((step.linked.entered icb).mp member).1
      obtain ⟨ic', run, step'⟩ := ih (i + 1) (touch nocache ic icb) (data.drop blksize) (step.touch nocache inside)
        (fun j low high => by rw [touch_lookup]; exact cached j (by omega) high) filled.next rest
        (fun late => by have := valid (by omega); omega)
      have here : (if i < good then (ic.block icb).icb_buf else data.take blksize) =
          blockAt content blksize (blkno + i) := by
        split
        · rw [step.coherent icb member trivial, key]
        · rw [← blockAt_zero, filled 0 (by omega) (by omega), Nat.add_zero]
      refine ⟨ic', ?_, step'⟩
      rw [← Nat.add_assoc] at run
      simp only [syncRead, hit, run, bind, Except.bind, pure, Except.pure, here, output]
    | none =>
      have late : good ≤ i := by
        by_contra early
        have := cached i le_rfl (by omega)
        simp [hit] at this
      have here : data.take blksize = blockAt content blksize (blkno + i) := by
        rw [← blockAt_zero, filled 0 (by omega) (by omega), Nat.add_zero]
      have later {ic : Cache} (step : ic.InStep blksize content fun _ => True) :=
        ih (i + 1) ic (data.drop blksize) step (fun j low high => by omega) filled.next rest (fun _ => by omega)
      cases nocache with
      | true =>
        obtain ⟨ic', run, step'⟩ := later step
        refine ⟨ic', ?_, step'⟩
        rw [← Nat.add_assoc] at run
        simp only [syncRead, hit, if_neg (Nat.not_lt.mpr late), if_true, run, bind, Except.bind, pure,
          Except.pure, here, output]
      | false =>
        obtain ⟨icb, ic₁, steal, step₁⟩ := step.steal (data.take blksize) (by omega) (lookup_none step.linked hit)
          (fun _ => here) (fun _ _ _ => trivial)
        obtain ⟨ic', run, step'⟩ := later step₁
        refine ⟨ic', ?_, step'⟩
        rw [← Nat.add_assoc] at run
        simp only [syncRead, hit, if_neg (Nat.not_lt.mpr late), Bool.false_eq_true, if_false, steal, run,
          bind, Except.bind, pure, Except.pure]
        rw [here, output]

theorem syncWrite_spec (nocache : Bool) {blksize : Nat} {content : Buffer} {p : Nat → Prop} (n blkno : Nat)
    (ic : Cache) (data : Buffer)
    (step : ic.InStep blksize content fun b => p b ∧ (b < blkno ∨ blkno + n ≤ b))
    (written : ∀ k, k < n → blockAt data blksize k = blockAt content blksize (blkno + k))
    (valid : 0 < n → blkno + n ≤ uint64Max) :
    ∃ ic', syncWrite blksize nocache n blkno ic data = .ok ic' ∧ ic'.InStep blksize content p := by
  induction n generalizing blkno ic data with
  | zero => exact ⟨ic, rfl, step.linked, step.nonempty, fun icb member wanted => step.coherent icb member ⟨wanted, by omega⟩⟩
  | succ n ih =>
    have here : data.take blksize = blockAt content blksize blkno := by
      rw [← blockAt_zero, written 0 (by omega), Nat.add_zero]
    have later {ic : Cache} (step : ic.InStep blksize content fun c => p c ∧ (c < blkno + 1 ∨ blkno + 1 + n ≤ c)) :=
      ih (blkno + 1) ic (data.drop blksize) step (fun k less => by
        rw [blockAt_drop, written (k + 1) (by omega)]
        congr 1
        omega) (fun _ => by omega)
    have grown : ∀ c, (p c ∧ (c < blkno + 1 ∨ blkno + 1 + n ≤ c)) → c ≠ blkno →
        p c ∧ (c < blkno ∨ blkno + (n + 1) ≤ c) := fun c h other => ⟨h.1, by omega⟩
    cases hit : ioCacheLookup ic blkno with
    | some icb =>
      obtain ⟨member, key⟩ := lookup_some hit
      have inside := ((step.linked.entered icb).mp member).1
      have sized : (copyIn ic icb (data.take blksize)).size = ic.size := size_modifyBlock ic icb _
      have copied := step.copyIn (data.take blksize) member (fun _ => by rw [key]; exact here) (by rw [key]; exact grown)
      obtain ⟨ic', run, step'⟩ := later (copied.touch nocache (sized ▸ inside))
      exact ⟨ic', by simp only [syncWrite, hit, run], step'⟩
    | none =>
      have missing := lookup_none step.linked hit
      cases nocache with
      | true =>
        obtain ⟨ic', run, step'⟩ := later ⟨step.linked, step.nonempty, fun icb member wanted =>
          step.coherent icb member (grown _ wanted (missing icb member))⟩
        exact ⟨ic', by simp only [syncWrite, hit, if_true, run], step'⟩
      | false =>
        obtain ⟨icb, ic₁, steal, step₁⟩ := step.steal (data.take blksize) (by omega) missing (fun _ => here) grown
        obtain ⟨ic', run, step'⟩ := later step₁
        refine ⟨ic', ?_, step'⟩
        simp only [syncWrite, hit, Bool.false_eq_true, if_false, steal, bind, Except.bind, run]

end Ocfs2.UnixIo
