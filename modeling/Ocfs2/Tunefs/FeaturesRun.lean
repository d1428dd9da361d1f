import Ocfs2.Tunefs.Features
import Mathlib.Data.Nat.Bitwise

set_option autoImplicit false

namespace Ocfs2.Tunefs

section Visits

variable {qsort : Qsort} {reverse : Bool} {feature_set reverse_set : FsOptions}

variable {ff : FsFeatureFlags}

theorem mem_visited :
    ff ∈ visited qsort reverse feature_set ↔
      ff ∈ supportedFeatures ∧ featureMatch feature_set ff.ff_own_flags = true := by
  rw [visited, (qsort.perm ..).mem_iff, List.mem_filter]

theorem findFeature_of_mem (mem : ff ∈ supportedFeatures) :
    ∃ feat, findFeature ff.ff_own_flags = some feat ∧ feat.tf_feature = ff.ff_own_flags := by
  revert ff
  decide

theorem nodup_own_flags : (supportedFeatures.map FsFeatureFlags.ff_own_flags).Nodup := by decide

theorem nodup_visited : ((visited qsort reverse feature_set).map FsFeatureFlags.ff_own_flags).Nodup := by
  have filtered := nodup_own_flags.sublist
    ((List.filter_sublist (p := fun ff => featureMatch feature_set ff.ff_own_flags)).map FsFeatureFlags.ff_own_flags)
  exact ((qsort.perm ..).map FsFeatureFlags.ff_own_flags).nodup_iff.mpr filtered

theorem own_flags_single (mem : ff ∈ supportedFeatures) : ∃ k < 16,
    ff.ff_own_flags = ⟨2 ^ k, 0, 0⟩ ∨ ff.ff_own_flags = ⟨0, 2 ^ k, 0⟩ ∨ ff.ff_own_flags = ⟨0, 0, 2 ^ k⟩ := by
  revert ff
  decide

theorem and_ne_zero_of_single {a b k : Nat} (ha : a &&& 2 ^ k ≠ 0) (hb : b &&& 2 ^ k ≠ 0) : a &&& b ≠ 0 := by
  have bit (x : Nat) (hx : x &&& 2 ^ k ≠ 0) : x.testBit k = true := by
    by_contra clear
    rw [Nat.and_two_pow, Bool.eq_false_iff.mpr clear] at hx
    simp at hx
  intro zero
  have := congrArg (fun n => n.testBit k) zero
  simp [bit a ha, bit b hb] at this

theorem featureMatch_of_common (mem : ff ∈ supportedFeatures)
    (forward : featureMatch feature_set ff.ff_own_flags = true)
    (backward : featureMatch reverse_set ff.ff_own_flags = true) : featureMatch feature_set reverse_set = true := by
  obtain ⟨k, -, single⟩ := own_flags_single mem
  simp only [featureMatch, decide_eq_true_eq] at forward backward ⊢
  rcases single with own | own | own
  all_goals
    rw [own] at forward backward
    simp only [Nat.and_zero, ne_eq, not_true_eq_false, false_or, or_false] at forward backward
  · exact Or.inl (and_ne_zero_of_single forward backward)
  · exact Or.inr (Or.inl (and_ne_zero_of_single forward backward))
  · exact Or.inr (Or.inr (and_ne_zero_of_single forward backward))

theorem visited_disjoint (apart : featureMatch feature_set reverse_set = false) {ff' : FsFeatureFlags}
    (mem : ff ∈ visited qsort false feature_set) (mem' : ff' ∈ visited qsort true reverse_set) :
    ff.ff_own_flags ≠ ff'.ff_own_flags := by
  intro same
  rw [mem_visited] at mem mem'
  have both := featureMatch_of_common mem.1 mem.2 (same ▸ mem'.2)
  rw [apart] at both
  cases both

end Visits

section Actions

variable {qsort : Qsort} {feature_set reverse_set : FsOptions}

theorem foreachLoop_checkSupported (action : Action) (ffs : List FsFeatureFlags)
    (supported : ∀ ff ∈ ffs, ff ∈ supportedFeatures) :
    ∀ ctxt, (foreachLoop (checkSupportedFunc action) ffs ctxt).sc_error = ctxt.sc_error ∧
      ∀ f, (foreachLoop (checkSupportedFunc action) ffs ctxt).tf_action f =
        if f ∈ ffs.map FsFeatureFlags.ff_own_flags then action else ctxt.tf_action f := by
  induction ffs with
  | nil => simp [foreachLoop]
  | cons ff rest ih =>
    intro ctxt
    obtain ⟨feat, found, same⟩ := findFeature_of_mem (supported ff List.mem_cons_self)
    obtain ⟨error, actions⟩ := ih (fun ff' mem => supported ff' (List.mem_cons_of_mem _ mem))
      { ctxt with tf_action := Function.update ctxt.tf_action feat.tf_feature action }
    rw [foreachLoop, checkSupportedFunc, found]
    refine ⟨error, fun f => (actions f).trans ?_⟩
    rw [List.map_cons, same]
    by_cases here : f = ff.ff_own_flags
    · simp [here]
    · simp [here]

theorem featuresParseOption_correct {tf_action : FsOptions → Action}
    (parsed : featuresParseOption qsort feature_set reverse_set = some tf_action) :
    featureMatch feature_set reverse_set = false ∧
      (∀ ff ∈ visited qsort true reverse_set, tf_action ff.ff_own_flags = .disable) ∧
      ∀ ff ∈ visited qsort false feature_set, tf_action ff.ff_own_flags = .enable := by
  have supported (reverse : Bool) (set : FsOptions) : ∀ ff ∈ visited qsort reverse set, ff ∈ supportedFeatures :=
    fun ff mem => (mem_visited.mp mem).1
  rw [featuresParseOption] at parsed
  split at parsed
  next => cases parsed
  next apart =>
    have apart : featureMatch feature_set reverse_set = false := by simpa using apart
    obtain ⟨-, forward⟩ := foreachLoop_checkSupported .enable _ (supported false feature_set) ⟨fun _ => .noop, false⟩
    dsimp only at parsed
    split at parsed
    next => cases parsed
    next =>
      simp only [Option.ite_none_left_eq_some] at parsed
      obtain ⟨-, eq⟩ := parsed
      obtain rfl := Option.some.inj eq
      obtain ⟨-, backward⟩ := foreachLoop_checkSupported .disable _ (supported true reverse_set)
        (featureForeach qsort false feature_set (checkSupportedFunc .enable) ⟨fun _ => .noop, false⟩)
      refine ⟨apart, fun ff mem => ?_, fun ff mem => ?_⟩
      · rw [featureForeach, backward, if_pos (List.mem_map_of_mem mem)]
      · rw [featureForeach, backward, if_neg, featureForeach, forward, if_pos (List.mem_map_of_mem mem)]
        intro mem'
        obtain ⟨ff', mem', same⟩ := List.mem_map.mp mem'
        exact visited_disjoint apart mem mem' same.symm

end Actions

section Walk

variable {ω : Type} {handlers : Handlers ω} {qsort : Qsort} {feature_set reverse_set : FsOptions}

structure Walked (ffs : List FsFeatureFlags) (before after : RunFeatures ω) (new : List Call) : Prop where
  tf_action : after.tf_action = before.tf_action
  rc_error : after.rc_error = before.rc_error
  calls : after.calls = before.calls ++ new
  reached : new.map Call.feature <+: ffs.map FsFeatureFlags.ff_own_flags
  action : ∀ call ∈ new, call.action = before.tf_action call.feature
  complete : (∀ call ∈ new, call.err = none) → new.map Call.feature = ffs.map FsFeatureFlags.ff_own_flags

theorem foreachLoop_walked (ffs : List FsFeatureFlags) (supported : ∀ ff ∈ ffs, ff ∈ supportedFeatures) :
    ∀ before : RunFeatures ω, ∃ new, Walked ffs before (foreachLoop (runFeatureFunc handlers) ffs before) new := by
  induction ffs with
  | nil => exact fun before => ⟨[], rfl, rfl, by simp [foreachLoop], by simp, by simp, by simp⟩
  | cons ff rest ih =>
    intro before
    obtain ⟨feat, found, same⟩ := findFeature_of_mem (supported ff List.mem_cons_self)
    rw [foreachLoop, runFeatureFunc, found]
    dsimp only
    generalize tunefsFeatureRun handlers feat (before.tf_action feat.tf_feature) before.device = result
    rcases result with ⟨err, device⟩
    rw [same]
    cases err with
    | some e =>
      refine ⟨[⟨ff.ff_own_flags, before.tf_action ff.ff_own_flags, some e⟩], rfl, rfl, rfl, ?_, ?_, ?_⟩
      · simp
      · simp
      · simp
    | none =>
      obtain ⟨new, walked⟩ := ih (fun ff' mem => supported ff' (List.mem_cons_of_mem _ mem))
        { before with
          device := device
          calls := before.calls ++ [⟨ff.ff_own_flags, before.tf_action ff.ff_own_flags, none⟩] }
      refine ⟨⟨ff.ff_own_flags, before.tf_action ff.ff_own_flags, none⟩ :: new, walked.tf_action, walked.rc_error, ?_, ?_,
        ?_, ?_⟩
      · exact walked.calls.trans (by simp)
      · simpa using walked.reached
      · intro call mem
        rcases List.mem_cons.mp mem with rfl | mem
        · rfl
        · exact walked.action call mem
      · intro good
        simpa using walked.complete fun call mem => good call (List.mem_cons_of_mem _ mem)

theorem Walked.changed_once {ffs : List FsFeatureFlags} {before after : RunFeatures ω} {new : List Call}
    (walked : Walked ffs before after new) (nodup : (ffs.map FsFeatureFlags.ff_own_flags).Nodup) {call : Call}
    (mem : call ∈ new) (failed : call.err ≠ none) (action : Action) : ⟨call.feature, action, none⟩ ∉ new := by
  intro changed
  have once := nodup.sublist walked.reached.sublist
  have same := List.inj_on_of_nodup_map once mem changed rfl
  exact failed (congrArg Call.err same)

end Walk

section Report

variable {ω : Type} {handlers : Handlers ω} {qsort : Qsort} {feature_set reverse_set : FsOptions}

def AllChanged (qsort : Qsort) (feature_set reverse_set : FsOptions) (calls : List Call) : Prop :=
  (∀ ff ∈ visited qsort true reverse_set, ⟨ff.ff_own_flags, .disable, none⟩ ∈ calls) ∧
    ∀ ff ∈ visited qsort false feature_set, ⟨ff.ff_own_flags, .enable, none⟩ ∈ calls

def NoEnableAfterFailure (calls : List Call) : Prop :=
  ∀ before call after, calls = before ++ call :: after → call.action = .disable → call.err ≠ none →
    ∀ later ∈ after, later.action ≠ .enable

theorem featuresRun_reports_iff {tf_action : FsOptions → Action} {device : ω}
    (parsed : featuresParseOption qsort feature_set reverse_set = some tf_action) {ret : Int} {ctxt : RunFeatures ω}
    (run : featuresRun handlers qsort feature_set reverse_set tf_action device = (ret, ctxt)) :
    ((ret = 0 ↔ AllChanged qsort feature_set reverse_set ctxt.calls) ∧ NoEnableAfterFailure ctxt.calls) ↔
      ∀ call ∈ ctxt.calls, call.err = none := by
  obtain ⟨apart, disables, enables⟩ := featuresParseOption_correct parsed
  have supported (reverse : Bool) (set : FsOptions) : ∀ ff ∈ visited qsort reverse set, ff ∈ supportedFeatures :=
    fun ff mem => (mem_visited.mp mem).1
  obtain ⟨off, first⟩ := @foreachLoop_walked _ handlers (visited qsort true reverse_set)
    (supported true reverse_set) ⟨device, tf_action, 0, []⟩
  obtain ⟨on, second⟩ := @foreachLoop_walked _ handlers (visited qsort false feature_set)
    (supported false feature_set) (foreachLoop (runFeatureFunc handlers) (visited qsort true reverse_set)
      ⟨device, tf_action, 0, []⟩)
  -- the field that is read at the end is never set
  rw [featuresRun, featureForeach, if_pos first.rc_error, featureForeach] at run
  obtain ⟨rfl, rfl⟩ := Prod.mk.inj run
  have zero := second.rc_error.trans first.rc_error
  have calls : (foreachLoop (runFeatureFunc handlers) (visited qsort false feature_set) (foreachLoop
      (runFeatureFunc handlers) (visited qsort true reverse_set) ⟨device, tf_action, 0, []⟩)).calls = off ++ on := by
    rw [second.calls, first.calls, List.nil_append]
  rw [zero, calls]
  have off_action : ∀ call ∈ off, call.action = .disable := by
    intro call mem
    obtain ⟨ff, visits, same⟩ := List.mem_map.mp (first.reached.subset (List.mem_map_of_mem mem))
    rw [first.action call mem, ← same]
    exact disables ff visits
  have on_action : ∀ call ∈ on, call.action = .enable := by
    intro call mem
    obtain ⟨ff, visits, same⟩ := List.mem_map.mp (second.reached.subset (List.mem_map_of_mem mem))
    rw [second.action call mem, first.tf_action, ← same]
    exact enables ff visits
  constructor
  · rintro ⟨exact_report, -⟩ call mem
    obtain ⟨all_off, all_on⟩ := exact_report.mp rfl
    by_contra failed
    rcases List.mem_append.mp mem with mem | mem
    · obtain ⟨ff, visits, same⟩ := List.mem_map.mp (first.reached.subset (List.mem_map_of_mem mem))
      have changed := all_off ff visits
      rw [same] at changed
      rcases List.mem_append.mp changed with changed | changed
      · exact first.changed_once nodup_visited mem failed _ changed
      · cases on_action _ changed
    · obtain ⟨ff, visits, same⟩ := List.mem_map.mp (second.reached.subset (List.mem_map_of_mem mem))
      have changed := all_on ff visits
      rw [same] at changed
      rcases List.mem_append.mp changed with changed | changed
      · cases off_action _ changed
      · exact second.changed_once nodup_visited mem failed _ changed
  · intro good
    have off_done := first.complete fun call mem => good call (List.mem_append_left _ mem)
    have on_done := second.complete fun call mem => good call (List.mem_append_right _ mem)
    refine ⟨⟨fun _ => ⟨fun ff visits => ?_, fun ff visits => ?_⟩, fun _ => rfl⟩, ?_⟩
    · have reached : ff.ff_own_flags ∈ off.map Call.feature := off_done ▸ List.mem_map_of_mem visits
      obtain ⟨call, mem, same⟩ := List.mem_map.mp reached
      have eq : call = ⟨ff.ff_own_flags, .disable, none⟩ := by
        rw [← same, ← off_action call mem, ← good call (List.mem_append_left _ mem)]
      exact List.mem_append_left _ (eq ▸ mem)
    · have reached : ff.ff_own_flags ∈ on.map Call.feature := on_done ▸ List.mem_map_of_mem visits
      obtain ⟨call, mem, same⟩ := List.mem_map.mp reached
      have eq : call = ⟨ff.ff_own_flags, .enable, none⟩ := by
        rw [← same, ← on_action call mem, ← good call (List.mem_append_right _ mem)]
      exact List.mem_append_right _ (eq ▸ mem)
    · intro before call after split _ failed
      exact absurd (good call (split ▸ List.mem_append_right _ List.mem_cons_self)) failed

def keepOrder : Qsort := ⟨fun _ l => l, fun _ l => List.Perm.refl l⟩

def disableResult (rc : Int) : Handlers Unit where
  tunefs_open := fun _ w => (.opened, w)
  tf_enable := fun _ _ w => (0, w)
  tf_disable := fun _ _ w => (rc, w)
  tunefs_close := fun _ w => (none, w)

/-- For "nolocal,metaecc" the first handler fails. The other one is run, and the result is zero. -/
theorem failed_disable_reported_as_success :
    ∃ tf_action, featuresParseOption keepOrder ⟨0, 0x0800, 0⟩ ⟨0, 0x0008, 0⟩ = some tf_action ∧
      ∃ ctxt, featuresRun (disableResult 1) keepOrder ⟨0, 0x0800, 0⟩ ⟨0, 0x0008, 0⟩ tf_action () = (0, ctxt) ∧
        ctxt.calls = [⟨⟨0, 0x0008, 0⟩, .disable, some .operationFailed⟩, ⟨⟨0, 0x0800, 0⟩, .enable, none⟩] :=
  ⟨_, rfl, _, rfl, rfl⟩

theorem both_changed_reported :
    ∃ tf_action ctxt, featuresParseOption keepOrder ⟨0, 0x0800, 0⟩ ⟨0, 0x0008, 0⟩ = some tf_action ∧
      featuresRun (disableResult 0) keepOrder ⟨0, 0x0800, 0⟩ ⟨0, 0x0008, 0⟩ tf_action () = (0, ctxt) ∧
        ((0 : Int) = 0 ↔ AllChanged keepOrder ⟨0, 0x0800, 0⟩ ⟨0, 0x0008, 0⟩ ctxt.calls) ∧
          NoEnableAfterFailure ctxt.calls := by
  obtain ⟨tf_action, ctxt, parsed, run, calls⟩ : ∃ tf_action ctxt,
      featuresParseOption keepOrder ⟨0, 0x0800, 0⟩ ⟨0, 0x0008, 0⟩ = some tf_action ∧
        featuresRun (disableResult 0) keepOrder ⟨0, 0x0800, 0⟩ ⟨0, 0x0008, 0⟩ tf_action () = (0, ctxt) ∧
          ctxt.calls = [⟨⟨0, 0x0008, 0⟩, .disable, none⟩, ⟨⟨0, 0x0800, 0⟩, .enable, none⟩] :=
    ⟨_, _, rfl, rfl, rfl⟩
  refine ⟨tf_action, ctxt, parsed, run, (featuresRun_reports_iff parsed run).mpr ?_⟩
  rw [calls]
  decide

end Report

end Ocfs2.Tunefs
