import Ocfs2.Libocfs2.Common
import Ocfs2.Tunefs.FeaturesRun

set_option autoImplicit false

namespace Ocfs2.Tunefs

section Order

variable (compare : FsFeatureFlags → FsFeatureFlags → Int)

def mergeLoop : Nat → List FsFeatureFlags → List FsFeatureFlags → List FsFeatureFlags
  | fuel + 1, a :: as, b :: bs =>
    if compare a b ≤ 0 then a :: mergeLoop fuel as (b :: bs) else b :: mergeLoop fuel (a :: as) bs
  | _, as, bs => as ++ bs

def msort : Nat → List FsFeatureFlags → List FsFeatureFlags
  | 0, l => l
  | depth + 1, l =>
    if l.length ≤ 1 then l
    else
      let half := l.length / 2
      mergeLoop compare l.length (msort depth (l.take half)) (msort depth (l.drop half))

theorem mergeLoop_perm (fuel : Nat) (as bs : List FsFeatureFlags) :
    (mergeLoop compare fuel as bs).Perm (as ++ bs) := by
  induction fuel generalizing as bs with
  | zero => rfl
  | succ fuel ih =>
    rcases as with _ | ⟨a, as⟩
    · rfl
    rcases bs with _ | ⟨b, bs⟩
    · rfl
    rw [mergeLoop]
    split
    · exact (ih as (b :: bs)).cons a
    · exact ((ih (a :: as) bs).cons b).trans List.perm_middle.symm

theorem msort_perm (depth : Nat) (l : List FsFeatureFlags) : (msort compare depth l).Perm l := by
  induction depth generalizing l with
  | zero => rfl
  | succ depth ih =>
    rw [msort]
    split
    · rfl
    · have halves := (mergeLoop_perm compare l.length _ _).trans
        ((ih (l.take (l.length / 2))).append (ih (l.drop (l.length / 2))))
      rwa [List.take_append_drop] at halves

def mergeQsort : Qsort := ⟨fun compare l => msort compare l.length l, fun compare l => msort_perm compare l.length l⟩

def DependsOn (ff dep : FsFeatureFlags) : Prop := featureMatch ff.ff_flags dep.ff_own_flags = true
  deriving Decidable

structure Ordered (feature_set : FsOptions) : Prop where
  forward : (visited mergeQsort false feature_set).Pairwise fun a b => ¬ DependsOn a b
  backward : (visited mergeQsort true feature_set).Pairwise fun a b => ¬ DependsOn b a

def selected (feature_set : FsOptions) (names : List String) : Nat :=
  (supportedFeatures.filter fun ff => ff.ff_str ∈ names && featureMatch feature_set ff.ff_own_flags).length

def picked (q : FsFeatureFlags → Bool) (bits : List Bool) : List FsFeatureFlags :=
  ((supportedFeatures.zip bits).filter fun x => q x.1 && x.2).map Prod.fst

theorem filter_eq_picked (q p : FsFeatureFlags → Bool) :
    supportedFeatures.filter (fun ff => q ff && p ff) = picked q (supportedFeatures.map p) := by
  rw [picked]
  induction supportedFeatures with
  | nil => rfl
  | cons ff rest ih => cases here : q ff && p ff <;> simp [here, ih]

theorem foreach_ordered_iff (feature_set : FsOptions) : Ordered feature_set ↔
    (selected feature_set ["sparse", "backup-super", "unwritten"] = 3 →
      selected feature_set ["extended-slotmap", "inline-data", "metaecc", "xattr"] ∈
        [selected feature_set ["local"] + 1, selected feature_set ["local"] + 2]) := by
  have split : Ordered feature_set ↔ _ ∧ _ := ⟨fun h => ⟨h.forward, h.backward⟩, fun h => ⟨h.1, h.2⟩⟩
  have all := filter_eq_picked (fun _ => true) fun ff => featureMatch feature_set ff.ff_own_flags
  simp only [Bool.true_and] at all
  simp only [split, visited, all, selected, filter_eq_picked]
  -- only whether each feature is in the set matters
  obtain ⟨b₀, b₁, b₂, b₃, b₄, b₅, b₆, b₇, eq⟩ : ∃ b₀ b₁ b₂ b₃ b₄ b₅ b₆ b₇ : Bool,
      supportedFeatures.map (fun ff => featureMatch feature_set ff.ff_own_flags) =
        [b₀, b₁, b₂, b₃, b₄, b₅, b₆, b₇] := ⟨_, _, _, _, _, _, _, _, rfl⟩
  rw [eq]
  clear eq
  revert b₀ b₁ b₂ b₃ b₄ b₅ b₆ b₇
  decide +kernel

theorem unwritten_after_sparse : ¬ Ordered ⟨0x0001, 0x0B58, 0x0001⟩ :=
  fun ordered => absurd ordered.backward (by decide +kernel)

end Order

section Parse

abbrev Text := List Char

inductive FeatureLevel where
  | default
  | maxCompat
  | maxFeatures
  deriving DecidableEq

def featureLevelDefaults : FeatureLevel → FsOptions
  | .default => ⟨0x0003, 0x0050, 0x0001⟩
  | .maxCompat => ⟨0x0003, 0, 0⟩
  | .maxFeatures => ⟨0x0003, 0x0B50, 0x0001⟩

def noFeatures : FsOptions := ⟨0, 0, 0⟩

def mergeFeatures (features new_features : FsOptions) : FsOptions :=
  ⟨features.opt_compat ||| new_features.opt_compat, features.opt_incompat ||| new_features.opt_incompat,
    features.opt_ro_compat ||| new_features.opt_ro_compat⟩

def clearFeatures (features reverse_set : FsOptions) : FsOptions :=
  ⟨features.opt_compat ^^^ (features.opt_compat &&& reverse_set.opt_compat),
    features.opt_incompat ^^^ (features.opt_incompat &&& reverse_set.opt_incompat),
    features.opt_ro_compat ^^^ (features.opt_ro_compat &&& reverse_set.opt_ro_compat)⟩

def checkFeatureFlags (fs_flags fs_r_flags : FsOptions) : Bool :=
  if fs_r_flags.opt_compat ≠ 0 ∧ fs_flags.opt_compat &&& fs_r_flags.opt_compat ≠ 0 then false
  else if fs_r_flags.opt_incompat ≠ 0 ∧ fs_flags.opt_incompat &&& fs_r_flags.opt_incompat ≠ 0 then false
  else if fs_r_flags.opt_ro_compat ≠ 0 ∧ fs_flags.opt_ro_compat &&& fs_r_flags.opt_ro_compat ≠ 0 then false
  else true

def clearDepsLoop : List FsFeatureFlags → FsOptions → FsOptions
  | [], reverse_set => reverse_set
  | ff :: rest, reverse_set =>
    clearDepsLoop rest
      (if featureMatch reverse_set ff.ff_flags then mergeFeatures reverse_set ff.ff_own_flags else reverse_set)

def featureClearDeps (reverse_set : FsOptions) : FsOptions := clearDepsLoop supportedFeatures reverse_set

def mergeFeatureFlagsWithLevel (level : FeatureLevel) (feature_set reverse_set : FsOptions) :
    Except Errcode FsOptions :=
  let reverse_set := featureClearDeps reverse_set
  if !checkFeatureFlags feature_set reverse_set then .error .conflictingFeatures
  else .ok (clearFeatures (mergeFeatures (featureLevelDefaults level) feature_set) reverse_set)

def tokens : Nat → Text → List Text
  | 0, _ => []
  | fuel + 1, text =>
    if text = [] then []
    else text.takeWhile (· ≠ ',') :: tokens fuel ((text.dropWhile (· ≠ ',')).drop 1)

def tokenFlags (token : Text) : Option (FsOptions × FsOptions) :=
  let reverse := "no".toList.isPrefixOf token
  let token := if reverse then token.drop 2 else token
  (supportedFeatures.find? fun ff => ff.ff_str.toList = token).map fun ff =>
    if reverse then (noFeatures, ff.ff_own_flags) else (ff.ff_flags, noFeatures)

def mergeBoth (flags more : FsOptions × FsOptions) : FsOptions × FsOptions :=
  (mergeFeatures flags.1 more.1, mergeFeatures flags.2 more.2)

def parseTokens : List Text → FsOptions × FsOptions → Except Errcode (FsOptions × FsOptions)
  | [], flags => .ok flags
  | token :: rest, flags =>
    match tokenFlags token with
    | none => .error .unsuppFeature
    | some more => parseTokens rest (mergeBoth flags more)

def parseFeature (opts : Text) : Except Errcode (FsOptions × FsOptions) :=
  match parseTokens (tokens opts.length opts) (noFeatures, noFeatures) with
  | .error e => .error e
  | .ok (feature_flags, reverse_flags) =>
    let reverse_flags := featureClearDeps reverse_flags
    if !checkFeatureFlags feature_flags reverse_flags then .error .conflictingFeatures
    else .ok (feature_flags, reverse_flags)

variable {a b c : FsOptions}

theorem featureMatch_merge : featureMatch (mergeFeatures a b) c = (featureMatch a c || featureMatch b c) := by
  rw [Bool.eq_iff_iff]
  simp only [featureMatch, mergeFeatures, Nat.and_or_distrib_right, ne_eq, Nat.or_eq_zero_iff, Bool.or_eq_true,
    decide_eq_true_eq]
  tauto

theorem checkFeatureFlags_eq : checkFeatureFlags a b = !featureMatch a b := by
  have drop (x y : Nat) : y ≠ 0 ∧ x &&& y ≠ 0 ↔ x &&& y ≠ 0 := by
    refine and_iff_right_of_imp fun both zero => both ?_
    rw [zero, Nat.and_zero]
  simp only [checkFeatureFlags, drop, featureMatch]
  split_ifs <;> simp_all

theorem featureMatch_comm : featureMatch a b = featureMatch b a := by
  simp only [featureMatch, Nat.and_comm]

section Own

variable {ff : FsFeatureFlags} (mem : ff ∈ supportedFeatures)

include mem

theorem featureMatch_clear : featureMatch (clearFeatures a b) ff.ff_own_flags =
    (featureMatch a ff.ff_own_flags && !featureMatch b ff.ff_own_flags) := by
  obtain ⟨k, -, single⟩ := own_flags_single mem
  rcases single with own | own | own <;> rw [own, Bool.eq_iff_iff] <;>
    simp [featureMatch, clearFeatures, Nat.and_two_pow, Nat.testBit_xor, Nat.testBit_and]

theorem merge_own (has : featureMatch a ff.ff_own_flags = true) : mergeFeatures a ff.ff_own_flags = a := by
  have bit (x k : Nat) (set : x.testBit k = true) : x ||| 2 ^ k = x := by
    refine Nat.eq_of_testBit_eq fun i => ?_
    by_cases here : k = i <;> simp_all
  obtain ⟨k, -, single⟩ := own_flags_single mem
  rcases single with own | own | own <;> rw [own] at has ⊢ <;>
    simp [featureMatch, Nat.and_two_pow] at has <;> simp [mergeFeatures, bit _ _ has]

end Own

def Closed (feature_set : FsOptions) : Prop :=
  ∀ ff ∈ supportedFeatures, ∀ dep ∈ supportedFeatures, DependsOn ff dep →
    featureMatch feature_set ff.ff_own_flags = true → featureMatch feature_set dep.ff_own_flags = true

def ClosedBack (reverse_set : FsOptions) : Prop :=
  ∀ ff ∈ supportedFeatures, ∀ dep ∈ supportedFeatures, DependsOn ff dep →
    featureMatch reverse_set dep.ff_own_flags = true → featureMatch reverse_set ff.ff_own_flags = true

theorem Closed.merge (closed : Closed a) (more : Closed b) : Closed (mergeFeatures a b) := by
  intro ff mem dep mem_dep depends has
  rw [featureMatch_merge, Bool.or_eq_true] at has ⊢
  exact has.imp (closed ff mem dep mem_dep depends) (more ff mem dep mem_dep depends)

theorem Closed.clear (closed : Closed a) (back : ClosedBack b) : Closed (clearFeatures a b) := by
  intro ff mem dep mem_dep depends has
  rw [featureMatch_clear mem, Bool.and_eq_true, Bool.not_eq_true'] at has
  rw [featureMatch_clear mem_dep, Bool.and_eq_true, Bool.not_eq_true']
  refine ⟨closed ff mem dep mem_dep depends has.1, Bool.eq_false_iff.mpr fun cleared => ?_⟩
  simp [back ff mem dep mem_dep depends cleared] at has

theorem level_closed (level : FeatureLevel) : Closed (featureLevelDefaults level) := by
  unfold Closed
  cases level <;> decide

theorem tokenFlags_closed {token : Text} {more : FsOptions × FsOptions} (found : tokenFlags token = some more) :
    Closed more.1 := by
  obtain ⟨ff, here, rfl⟩ := Option.map_eq_some_iff.mp found
  split
  · exact fun ff mem dep mem_dep depends has => by simp [featureMatch, noFeatures] at has
  · have table : ∀ ff ∈ supportedFeatures, Closed ff.ff_flags := by
      unfold Closed
      decide
    exact table ff (List.mem_of_find?_eq_some here)

theorem parseTokens_closed {toks : List Text} {flags out : FsOptions × FsOptions} (closed : Closed flags.1)
    (parsed : parseTokens toks flags = .ok out) : Closed out.1 := by
  induction toks generalizing flags with
  | nil =>
    obtain rfl := Except.ok.inj parsed
    exact closed
  | cons token rest ih =>
    rw [parseTokens] at parsed
    cases found : tokenFlags token with
    | none => simp [found] at parsed
    | some more =>
      rw [found] at parsed
      exact ih (closed.merge (tokenFlags_closed found)) parsed

section ClearDeps

variable {l : List FsFeatureFlags}

theorem clearDepsLoop_grows (has : featureMatch a c = true) : featureMatch (clearDepsLoop l a) c = true := by
  induction l generalizing a with
  | nil => exact has
  | cons ff rest ih =>
    refine ih ?_
    split
    · rw [featureMatch_merge, has, Bool.true_or]
    · exact has

theorem clearDepsLoop_cases (has : featureMatch (clearDepsLoop l a) c = true) :
    featureMatch a c = true ∨ ∃ ff ∈ l, featureMatch ff.ff_own_flags c = true := by
  induction l generalizing a with
  | nil => exact Or.inl has
  | cons ff rest ih =>
    rcases ih has with before | ⟨later, mem, own⟩
    · split at before
      · rw [featureMatch_merge, Bool.or_eq_true] at before
        exact before.imp_right fun own => ⟨ff, List.mem_cons_self, own⟩
      · exact Or.inl before
    · exact Or.inr ⟨later, List.mem_cons_of_mem _ mem, own⟩

theorem clearDepsLoop_back (order : l.Pairwise fun ff later => ¬ DependsOn ff later)
    (own : ∀ ff ∈ l, featureMatch ff.ff_own_flags ff.ff_own_flags = true) {ff : FsFeatureFlags} (mem : ff ∈ l)
    (has : featureMatch (clearDepsLoop l a) ff.ff_flags = true) :
    featureMatch (clearDepsLoop l a) ff.ff_own_flags = true := by
  induction l generalizing a with
  | nil => cases mem
  | cons first rest ih =>
    rw [List.pairwise_cons] at order
    rcases List.mem_cons.mp mem with rfl | mem
    · refine clearDepsLoop_grows (l := rest) ?_
      rcases clearDepsLoop_cases (l := rest) has with before | ⟨later, inside, meets⟩
      · split at before
        next present => rw [if_pos present, featureMatch_merge, own ff List.mem_cons_self, Bool.or_true]
        next absent => exact absurd before absent
      · rw [featureMatch_comm] at meets
        exact absurd meets (order.1 later inside)
    · exact ih order.2 (fun ff inside => own ff (List.mem_cons_of_mem _ inside)) mem has

theorem featureClearDeps_back : ClosedBack (featureClearDeps a) := by
  intro ff mem dep mem_dep depends has
  exact clearDepsLoop_back (by decide) (by decide) mem (featureMatch_of_common mem_dep has depends)

theorem clearDepsLoop_stays (closed : ∀ ff ∈ l, featureMatch a ff.ff_flags = true → mergeFeatures a ff.ff_own_flags = a) :
    clearDepsLoop l a = a := by
  induction l with
  | nil => rfl
  | cons ff rest ih =>
    have same : (if featureMatch a ff.ff_flags then mergeFeatures a ff.ff_own_flags else a) = a :=
      ite_eq_right_iff.mpr (closed ff List.mem_cons_self)
    rw [clearDepsLoop, same]
    exact ih fun ff mem => closed ff (List.mem_cons_of_mem _ mem)

theorem featureClearDeps_idem : featureClearDeps (featureClearDeps a) = featureClearDeps a :=
  clearDepsLoop_stays fun _ mem has => merge_own mem (clearDepsLoop_back (by decide) (by decide) mem has)

end ClearDeps

theorem parseTokens_eq (toks : List Text) (flags : FsOptions × FsOptions) : parseTokens toks flags =
    if ∀ t ∈ toks, (tokenFlags t).isSome then .ok ((toks.filterMap tokenFlags).foldl mergeBoth flags)
    else .error .unsuppFeature := by
  induction toks generalizing flags with
  | nil => rfl
  | cons token rest ih =>
    rw [parseTokens]
    cases found : tokenFlags token with
    | none => simp [found]
    | some more => simp [found, ih]

theorem parseTokens_congr {toks toks' : List Text} (same : ∀ t, t ∈ toks ↔ t ∈ toks')
    (flags : FsOptions × FsOptions) : parseTokens toks flags = parseTokens toks' flags := by
  have comm : Std.Commutative mergeBoth := ⟨fun x y => by simp [mergeBoth, mergeFeatures, Nat.or_comm]⟩
  have assoc : Std.Associative mergeBoth := ⟨fun x y z => by simp [mergeBoth, mergeFeatures, Nat.or_assoc]⟩
  have idem : Std.IdempotentOp mergeBoth := ⟨fun x => by simp [mergeBoth, mergeFeatures]⟩
  have fold : (toks.filterMap tokenFlags).foldl mergeBoth flags = (toks'.filterMap tokenFlags).foldl mergeBoth flags := by
    rw [← Multiset.coe_fold_l, ← Multiset.coe_fold_l, ← Multiset.fold_dedup_idem,
      ← Multiset.fold_dedup_idem mergeBoth (toks'.filterMap tokenFlags : Multiset _)]
    congr 1
    rw [Multiset.dedup_ext]
    simp [same]
  simp only [parseTokens_eq, same, fold]

structure Sound (opts : Text) (feature_flags reverse_flags : FsOptions) : Prop where
  enables : Closed feature_flags
  disables : ClosedBack reverse_flags
  disjoint : featureMatch feature_flags reverse_flags = false
  order : ∀ opts', (∀ token, token ∈ tokens opts'.length opts' ↔ token ∈ tokens opts.length opts) →
    parseFeature opts' = .ok (feature_flags, reverse_flags)
  level : ∀ level, ∃ dest, mergeFeatureFlagsWithLevel level feature_flags reverse_flags = .ok dest ∧ Closed dest

theorem parseFeature_sound {opts : Text} {feature_flags reverse_flags : FsOptions}
    (accepted : parseFeature opts = .ok (feature_flags, reverse_flags)) :
    Sound opts feature_flags reverse_flags := by
  have start : Closed noFeatures := fun ff _ dep _ _ has => by simp [featureMatch, noFeatures] at has
  have order : ∀ opts', (∀ token, token ∈ tokens opts'.length opts' ↔ token ∈ tokens opts.length opts) →
      parseFeature opts' = .ok (feature_flags, reverse_flags) := by
    intro opts' same
    rw [parseFeature, parseTokens_congr same]
    exact accepted
  rw [parseFeature] at accepted
  cases parsed : parseTokens (tokens opts.length opts) (noFeatures, noFeatures) with
  | error e => simp [parsed] at accepted
  | ok out =>
    obtain ⟨set, clear⟩ := out
    have closed : Closed set := parseTokens_closed start parsed
    simp only [parsed, checkFeatureFlags_eq, Bool.not_not] at accepted
    split at accepted
    next => cases accepted
    next disjoint =>
      obtain ⟨rfl, rfl⟩ := Prod.mk.inj (Except.ok.inj accepted)
      have back : ClosedBack (featureClearDeps clear) := featureClearDeps_back
      refine ⟨closed, back, Bool.eq_false_iff.mpr disjoint, order, fun level => ?_⟩
      refine ⟨_, ?_, ((level_closed level).merge closed).clear back⟩
      simp [mergeFeatureFlagsWithLevel, featureClearDeps_idem, checkFeatureFlags_eq, disjoint]

theorem parseFeature_sound_two : parseFeature "unwritten,nolocal".toList = .ok (⟨0, 0x0010, 0x0001⟩, ⟨0, 0x0008, 0⟩) ∧
    Sound "unwritten,nolocal".toList ⟨0, 0x0010, 0x0001⟩ ⟨0, 0x0008, 0⟩ :=
  ⟨by decide +kernel, parseFeature_sound (by decide +kernel)⟩

end Parse

end Ocfs2.Tunefs
