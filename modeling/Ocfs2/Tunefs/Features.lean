import Mathlib.Tactic

set_option autoImplicit false

/-!
The features of a set are visited in an order that `qsort` gives. The handlers of a feature work on a device, whose
type is left open.
-/

namespace Ocfs2.Tunefs

section Tables

structure FsOptions where
  opt_compat : Nat
  opt_incompat : Nat
  opt_ro_compat : Nat
  deriving DecidableEq

structure FsFeatureFlags where
  ff_str : String
  ff_own_flags : FsOptions
  ff_flags : FsOptions
  deriving DecidableEq

def supportedFeatures : List FsFeatureFlags :=
  [⟨"local", ⟨0, 0x0008, 0⟩, ⟨0, 0x0008, 0⟩⟩,
    ⟨"sparse", ⟨0, 0x0010, 0⟩, ⟨0, 0x0010, 0⟩⟩,
    ⟨"backup-super", ⟨0x0001, 0, 0⟩, ⟨0x0001, 0, 0⟩⟩,
    ⟨"unwritten", ⟨0, 0, 0x0001⟩, ⟨0, 0x0010, 0x0001⟩⟩,
    ⟨"extended-slotmap", ⟨0, 0x0100, 0⟩, ⟨0, 0x0100, 0⟩⟩,
    ⟨"inline-data", ⟨0, 0x0040, 0⟩, ⟨0, 0x0040, 0⟩⟩,
    ⟨"metaecc", ⟨0, 0x0800, 0⟩, ⟨0, 0x0800, 0⟩⟩,
    ⟨"xattr", ⟨0, 0x0200, 0⟩, ⟨0, 0x0200, 0⟩⟩]

structure Flags where
  rw : Bool
  allocation : Bool
  largecache : Bool
  online : Bool
  nocluster : Bool
  deriving DecidableEq

structure TunefsFeature where
  tf_name : String
  tf_open_flags : Flags
  tf_feature : FsOptions
  deriving DecidableEq

def features : List TunefsFeature :=
  [⟨"backup_super", ⟨true, true, false, false, false⟩, ⟨0x0001, 0, 0⟩⟩,
    ⟨"extended_slotmap", ⟨true, true, false, false, false⟩, ⟨0, 0x0100, 0⟩⟩,
    ⟨"inline_data", ⟨true, true, true, false, false⟩, ⟨0, 0x0040, 0⟩⟩,
    ⟨"local", ⟨true, false, false, false, false⟩, ⟨0, 0x0008, 0⟩⟩,
    ⟨"metaecc", ⟨true, true, true, false, false⟩, ⟨0, 0x0800, 0⟩⟩,
    ⟨"sparse_files", ⟨true, true, true, false, false⟩, ⟨0, 0x0010, 0⟩⟩,
    ⟨"unwritten_extents", ⟨true, true, true, false, false⟩, ⟨0, 0, 0x0001⟩⟩,
    ⟨"xattr", ⟨true, true, true, false, false⟩, ⟨0, 0x0200, 0⟩⟩]

def findFeature (feature : FsOptions) : Option TunefsFeature := features.find? (·.tf_feature = feature)

end Tables

section Foreach

def featureMatch (a b : FsOptions) : Bool :=
  a.opt_compat &&& b.opt_compat ≠ 0 ∨ a.opt_incompat &&& b.opt_incompat ≠ 0 ∨
    a.opt_ro_compat &&& b.opt_ro_compat ≠ 0

def compareFeatureForward (fa fb : FsFeatureFlags) : Int :=
  if featureMatch fb.ff_flags fa.ff_own_flags then -1
  else if featureMatch fa.ff_flags fb.ff_own_flags then 1
  else 0

def compareFeatureBackward (fa fb : FsFeatureFlags) : Int := compareFeatureForward fb fa

/-- Of `qsort(3)` it is only used that it permutes the elements. -/
structure Qsort where
  sort : (FsFeatureFlags → FsFeatureFlags → Int) → List FsFeatureFlags → List FsFeatureFlags
  perm : ∀ compare l, (sort compare l).Perm l

def visited (qsort : Qsort) (reverse : Bool) (feature_set : FsOptions) : List FsFeatureFlags :=
  qsort.sort (if reverse then compareFeatureBackward else compareFeatureForward)
    (supportedFeatures.filter fun ff => featureMatch feature_set ff.ff_own_flags)

variable {σ : Type}

def foreachLoop (func : FsOptions → σ → Bool × σ) : List FsFeatureFlags → σ → σ
  | [], s => s
  | ff :: rest, s =>
    match func ff.ff_own_flags s with
    | (true, s) => s
    | (false, s) => foreachLoop func rest s

def featureForeach (qsort : Qsort) (reverse : Bool) (feature_set : FsOptions) (func : FsOptions → σ → Bool × σ)
    (user_data : σ) : σ :=
  foreachLoop func (visited qsort reverse feature_set) user_data

end Foreach

section Parse

inductive Action where
  | noop
  | enable
  | disable
  deriving DecidableEq

structure CheckSupported where
  tf_action : FsOptions → Action
  sc_error : Bool

def checkSupportedFunc (sc_action : Action) (feature : FsOptions) (ctxt : CheckSupported) : Bool × CheckSupported :=
  match findFeature feature with
  | none => (true, { ctxt with sc_error := true })
  | some feat => (false, { ctxt with tf_action := Function.update ctxt.tf_action feat.tf_feature sc_action })

def featuresParseOption (qsort : Qsort) (feature_set reverse_set : FsOptions) : Option (FsOptions → Action) :=
  if featureMatch feature_set reverse_set then none
  else
    let ctxt := featureForeach qsort false feature_set (checkSupportedFunc .enable) ⟨fun _ => .noop, false⟩
    if ctxt.sc_error then none
    else
      let ctxt := featureForeach qsort true reverse_set (checkSupportedFunc .disable) ctxt
      if ctxt.sc_error then none else some ctxt.tf_action

end Parse

section Run

inductive TunefsErr where
  | operationFailed
  | internalFailure
  | code (n : Nat)
  deriving DecidableEq

inductive OpenResult where
  | opened
  | performOnline
  | invalidStackName
  | failed (e : TunefsErr)
  deriving DecidableEq

structure Handlers (ω : Type) where
  tunefs_open : TunefsFeature → ω → OpenResult × ω
  tf_enable : TunefsFeature → Flags → ω → Int × ω
  tf_disable : TunefsFeature → Flags → ω → Int × ω
  tunefs_close : TunefsFeature → ω → Option TunefsErr × ω

variable {ω : Type} (handlers : Handlers ω)

def runAction (feat : TunefsFeature) (action : Action) (flags : Flags) (w : ω) : Int × ω :=
  match action with
  | .enable => handlers.tf_enable feat flags w
  | .disable => handlers.tf_disable feat flags w
  | .noop => (0, w)

def tunefsFeatureRun (feat : TunefsFeature) (action : Action) (w : ω) : Option TunefsErr × ω :=
  let flags := { feat.tf_open_flags with online := false, nocluster := false }
  let finish (flags : Flags) (w : ω) :=
    let (rc, w) := runAction handlers feat action flags w
    let (tmp, w) := handlers.tunefs_close feat w
    (if rc ≠ 0 then some .operationFailed else tmp, w)
  match handlers.tunefs_open feat w with
  | (.opened, w) => finish flags w
  | (.performOnline, w) => finish { flags with online := true } w
  | (.invalidStackName, w) => finish { flags with nocluster := true } w
  | (.failed e, w) => (some e, w)

structure Call where
  feature : FsOptions
  action : Action
  err : Option TunefsErr
  deriving DecidableEq

structure RunFeatures (ω : Type) where
  device : ω
  tf_action : FsOptions → Action
  rc_error : Int
  calls : List Call

def runFeatureFunc (feature : FsOptions) (ctxt : RunFeatures ω) : Bool × RunFeatures ω :=
  match findFeature feature with
  | none => (true, ctxt)
  | some feat =>
    let (err, device) := tunefsFeatureRun handlers feat (ctxt.tf_action feat.tf_feature) ctxt.device
    (err.isSome,
      { ctxt with
        device := device
        calls := ctxt.calls ++ [⟨feat.tf_feature, ctxt.tf_action feat.tf_feature, err⟩] })

def featuresRun (qsort : Qsort) (feature_set reverse_set : FsOptions) (tf_action : FsOptions → Action) (device : ω) :
    Int × RunFeatures ω :=
  let ctxt := featureForeach qsort true reverse_set (runFeatureFunc handlers) ⟨device, tf_action, 0, []⟩
  let ctxt :=
    if ctxt.rc_error = 0 then featureForeach qsort false feature_set (runFeatureFunc handlers) ctxt else ctxt
  (ctxt.rc_error, ctxt)

end Run

end Ocfs2.Tunefs
