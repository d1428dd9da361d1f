import Ocfs2.Fsck.Pass1

set_option autoImplicit false

namespace Ocfs2.Pass1

open ByteBuffer Bitops Extents Program

section Quiet

variable (env : Setup)

variable (blkno : Nat) (di : Dinode) (vb : VerifyingBlocks)

abbrev Quiet {α : Type} (m : Fsck α) : Prop := Frame O2fsckState.allocated_clusters m

theorem quiet_promptIf (condition : Bool) : Quiet (promptIf env condition) := by
  refine Frame.ite (Frame.bind Frame.get fun ost => ?_) (Frame.pure false)
  exact Frame.bind (Frame.modify fun _ => rfl) fun _ => Frame.pure _

theorem quiet_writeBlock (block : Block) : Quiet (writeBlock blkno block) :=
  Frame.modify fun _ => rfl

theorem quiet_writeInode : Quiet (o2fsckWriteInode blkno di) :=
  Frame.ite (quiet_writeBlock ..) (Frame.pure _)

theorem quiet_fixInode (condition : Bool) (fix : Dinode → Dinode) (di : Dinode) :
    Quiet (fixInode env blkno condition fix di) :=
  Frame.bind (quiet_promptIf ..) fun _ =>
    Frame.ite (Frame.bind (quiet_writeInode ..) fun _ => Frame.pure _) (Frame.pure _)

theorem quiet_finish (broken clear changed : Bool) :
    Quiet (verifyLocalAlloc.finish env di broken clear changed) :=
  Frame.bind (quiet_promptIf ..) fun _ =>
    Frame.ite (Frame.bind (quiet_writeInode ..) fun _ => Frame.pure _) (Frame.pure _)

theorem quiet_verifyLocalAlloc : Quiet (verifyLocalAlloc env di) := by
  refine Frame.bind (quiet_promptIf ..) fun size => Frame.ite ?_ ?_
  · exact Frame.bind (quiet_promptIf ..) fun used => Frame.bind (quiet_promptIf ..) fun off => quiet_finish ..
  · refine Frame.bind (quiet_promptIf ..) fun clear => Frame.bind (quiet_promptIf ..) fun clamp => Frame.ite ?_ ?_
    · exact Frame.bind (quiet_promptIf ..) fun straddle => quiet_finish ..
    · exact Frame.bind (quiet_promptIf ..) fun used => quiet_finish ..

theorem quiet_verifyTruncateRec (tr : TruncateRec) : Quiet (verifyTruncateRec env tr) := by
  refine Frame.ite (Frame.pure _) (Frame.bind (quiet_promptIf ..) fun start => ?_)
  refine Frame.bind (quiet_promptIf ..) fun wrap => Frame.bind (quiet_promptIf ..) fun range => ?_
  exact Frame.ite (Frame.pure _) (Frame.pure _)

theorem quiet_verifyTruncateLog : Quiet (verifyTruncateLog env di) := by
  refine Frame.bind (quiet_promptIf ..) fun count => Frame.bind (quiet_promptIf ..) fun used => ?_
  refine Frame.bind (Frame.mapM (quiet_verifyTruncateRec env) _) fun recs => ?_
  exact Frame.ite (Frame.bind (quiet_writeInode ..) fun _ => Frame.pure _) (Frame.pure _)

theorem quiet_clear : Quiet (o2fsckVerifyInodeFields.clear blkno di) :=
  Frame.bind (quiet_writeInode ..) fun _ => Frame.pure _

theorem quiet_verifyInodeFields : Quiet (o2fsckVerifyInodeFields env blkno di) := by
  refine Frame.bind (quiet_promptIf ..) fun deleted => Frame.ite ?_ ?_
  · exact quiet_clear ..
  refine Frame.bind (quiet_fixInode ..) fun di => Frame.bind (quiet_fixInode ..) fun di => ?_
  refine Frame.bind (quiet_promptIf ..) fun root => Frame.ite ?_ ?_
  · exact quiet_clear ..
  refine Frame.bind (quiet_fixInode ..) fun di => Frame.bind (quiet_fixInode ..) fun di => Frame.ite ?_ ?_
  · exact quiet_clear ..
  · exact Frame.ite (quiet_verifyLocalAlloc ..) (Frame.ite (quiet_verifyTruncateLog ..) (Frame.pure di))

theorem quiet_verifyIfValid : Quiet (verifyIfValid env blkno di) :=
  Frame.ite (quiet_verifyInodeFields ..) (Frame.pure di)

theorem quiet_checkLinkData (di : Dinode) : Quiet (checkLinkData env vb di) := by
  refine Frame.bind (quiet_promptIf ..) fun fast => Frame.ite (Frame.pure _) ?_
  refine Frame.bind (quiet_promptIf ..) fun null => Frame.ite (Frame.pure _) ?_
  refine Frame.bind (quiet_promptIf ..) fun size => Frame.ite ?_ ?_
  · exact Frame.bind (quiet_writeInode ..) fun _ => Frame.pure _
  · exact Frame.bind (quiet_promptIf ..) fun blocks => Frame.ite (Frame.pure _) (Frame.pure _)

theorem quiet_checkIfLink (di : Dinode) : Quiet (checkIfLink env vb di) :=
  Frame.ite (quiet_checkLinkData ..) (Frame.pure _)

theorem quiet_sizeClusterCheck (di : Dinode) :
    Quiet (sizeClusterCheck env blkno vb di) := by
  refine Frame.ite ?_ (Frame.ite ?_ ?_)
  · exact Frame.bind (quiet_fixInode ..) fun di => Frame.bind (quiet_fixInode ..) fun di => quiet_fixInode ..
  · exact Frame.bind (quiet_fixInode ..) fun di => quiet_fixInode ..
  · exact Frame.bind (quiet_fixInode ..) fun di => quiet_fixInode ..

theorem quiet_blockIterateInode : Quiet (blockIterateInode env di) := by
  refine Frame.bind Frame.get fun ost => Frame.ite Frame.failure ?_
  split
  · exact Frame.failure
  · exact Frame.pure _

end Quiet

section Asked

variable {env : Setup} {α β : Type}

structure Asks (m : Fsck α) : Prop where
  post : ∀ s, Post m s fun _ s' => s.asked ≤ s'.asked

theorem Asks.of_frame {m : Fsck α} (frame : Frame O2fsckState.asked m) : Asks m :=
  ⟨fun s => (frame.post s).mono fun _ _ same => same.ge⟩

theorem Asks.bind {m : Fsck α} {f : α → Fsck β} (first : Asks m) (rest : ∀ a, Asks (f a)) : Asks (m >>= f) :=
  ⟨fun s => Post.bind ((first.post s).mono fun a s' le => ((rest a).post s').mono fun _ _ le' => le.trans le')⟩

theorem Asks.pure (a : α) : Asks (pure a : Fsck α) := ⟨fun _ => Post.pure le_rfl⟩

theorem Asks.ite {c : Prop} [Decidable c] {m n : Fsck α} (yes : Asks m) (no : Asks n) : Asks (if c then m else n) :=
  ⟨fun s => Post.ite (fun _ => yes.post s) fun _ => no.post s⟩

theorem asks_promptIf (condition : Bool) : Asks (promptIf env condition) := by
  refine Asks.ite (Asks.bind (Asks.of_frame Frame.get) fun ost => ?_) (Asks.pure _)
  exact Asks.bind ⟨fun s => Post.modify (Nat.le_succ _)⟩ fun _ => Asks.pure _

theorem asks_marks (first num : Nat) : Asks (o2fsckMarkClustersAllocated env first num) := by
  refine Asks.of_frame ⟨fun s => ?_⟩
  refine Post.forM (I := fun _ (s' : O2fsckState) => s'.asked = s.asked) (fun _ x s' same => ?_) rfl
  refine Post.ite (fun _ => Post.failure) fun _ => Post.modify ?_
  split <;> exact same

end Asked

section Marks

variable {env : Setup} {s s' s'' : O2fsckState}

def Marks (s s' : O2fsckState) (cs : List Nat) : Prop :=
  ∀ c, s'.allocated_clusters c = true ↔ s.allocated_clusters c = true ∨ c ∈ cs

theorem Marks.of_eq (same : s'.allocated_clusters = s.allocated_clusters) : Marks s s' [] := by
  simp [Marks, same]

theorem Marks.trans {cs cs' : List Nat} (first : Marks s s' cs) (second : Marks s' s'' cs') :
    Marks s s'' (cs ++ cs') := by
  intro c
  rw [second c, first c, List.mem_append, or_assoc]

theorem marks_cluster (cluster : Nat) (s : O2fsckState) :
    Post (o2fsckMarkClusterAllocated env cluster) s fun _ s' => Marks s s' [cluster] := by
  refine Post.ite (fun _ => Post.failure) fun _ => Post.modify fun c => ?_
  by_cases set : s.allocated_clusters cluster = true
  · simp only [set, if_true, List.mem_singleton]
    exact ⟨Or.inl, fun h => h.elim id fun same => same ▸ set⟩
  · simp only [set, Bool.false_eq_true, if_false, Function.update_apply, List.mem_singleton]
    by_cases here : c = cluster <;> simp [here]

theorem marks_clusters (cs : List Nat) (s : O2fsckState) :
    Post (cs.forM (o2fsckMarkClusterAllocated env)) s fun _ s' => Marks s s' cs :=
  Post.forM (I := fun before s' => Marks s s' before)
    (fun _ x s' marks => (marks_cluster x s').mono fun _ _ mark => marks.trans mark) (Marks.of_eq rfl)

def Claims (s s' : O2fsckState) (ei ei' : ExtentInfo) : Prop :=
  ∃ new, ei'.ei_claimed = ei.ei_claimed ++ new ∧ Marks s s' new

theorem Claims.of_eq {ei ei' : ExtentInfo} (claimed : ei'.ei_claimed = ei.ei_claimed)
    (same : s'.allocated_clusters = s.allocated_clusters) : Claims s s' ei ei' :=
  ⟨[], by simpa using claimed, Marks.of_eq same⟩

theorem Claims.trans {ei ei' ei'' : ExtentInfo} (first : Claims s s' ei ei') (second : Claims s' s'' ei' ei'') :
    Claims s s'' ei ei'' := by
  obtain ⟨new, claimed, marks⟩ := first
  obtain ⟨new', claimed', marks'⟩ := second
  exact ⟨new ++ new', by rw [claimed', claimed, List.append_assoc], marks.trans marks'⟩

structure Advances (s s' : O2fsckState) (ei ei' : ExtentInfo) : Prop where
  claims : Claims s s' ei ei'
  asked : s.asked ≤ s'.asked

theorem Advances.trans {ei ei' ei'' : ExtentInfo} (first : Advances s s' ei ei') (second : Advances s' s'' ei' ei'') :
    Advances s s'' ei ei'' :=
  ⟨first.claims.trans second.claims, first.asked.trans second.asked⟩

theorem Quiet.advances {α : Type} {m : Fsck α} (quiet : Quiet m) (asks : Asks m) (ei : ExtentInfo) (s : O2fsckState) :
    Post m s fun _ s' => Advances s s' ei ei :=
  ⟨fun a s' run => ⟨Claims.of_eq rfl ((quiet.post s).holds a s' run), (asks.post s).holds a s' run⟩⟩

theorem advances_promptIf (condition : Bool) (ei : ExtentInfo) (s : O2fsckState) :
    Post (promptIf env condition) s fun _ s' => Advances s s' ei ei :=
  Quiet.advances (quiet_promptIf ..) (asks_promptIf _) ei s

theorem Advances.after {α β : Type} {m : Fsck α} {f : α → Fsck β} {ei : ExtentInfo} {R : β → ExtentInfo}
    (first : Post m s fun _ s' => Advances s s' ei ei)
    (rest : ∀ a s', Post (f a) s' fun b s'' => Advances s' s'' ei (R b)) :
    Post (m >>= f) s fun b s'' => Advances s s'' ei (R b) :=
  Post.bind (first.mono fun a s' moved => (rest a s').mono fun _ _ more => moved.trans more)

theorem Advances.pure {α : Type} {a : α} {ei : ExtentInfo} {R : α → ExtentInfo}
    (claimed : (R a).ei_claimed = ei.ei_claimed) : Post (pure a) s fun b s' => Advances s s' ei (R b) :=
  Post.pure ⟨Claims.of_eq claimed rfl, le_rfl⟩

variable {checkEl' : ExtentInfo → ExtentList → Nat → Bool → Fsck Checked}
  {checkEb' : ExtentInfo → Nat → Fsck (ExtentInfo × Bool)}

theorem checkEb_advances
    (inner : ∀ ei el max_recs changed s, Post (checkEl' ei el max_recs changed) s fun c s' => Advances s s' ei c.ei)
    (ei : ExtentInfo) (blkno : Nat) (s : O2fsckState) :
    Post (checkEb env checkEl' ei blkno) s fun r s' => Advances s s' ei r.1 := by
  refine Post.bind (Post.get ?_)
  split
  · exact Advances.pure rfl
  · exact Advances.pure rfl
  next eb _ =>
    refine Advances.after (advances_promptIf ..) fun moved s => Advances.after (advances_promptIf ..) fun stale s => ?_
    refine Post.ite (fun _ => Advances.pure rfl) fun _ => Advances.after (advances_promptIf ..) fun fix s => ?_
    refine Post.bind ((inner _ _ _ _ s).mono fun c s' moved => Post.ite (fun _ => ?_) fun _ => Post.pure moved)
    exact Post.bind ((Quiet.advances (quiet_writeBlock ..) (Asks.of_frame (Frame.modify fun _ => rfl)) c.ei s').mono
      fun _ s'' more => Post.pure (moved.trans more))

theorem checkEr_advances (inner : ∀ ei blkno s, Post (checkEb' ei blkno) s fun r s' => Advances s s' ei r.1)
    (ei : ExtentInfo) (el : ExtentList) (er : ExtentRec) (changed : Bool) (s : O2fsckState) :
    Post (checkEr env checkEb' ei el er changed) s fun r s' => Advances s s' ei r.1 := by
  refine Post.ite (fun _ => Advances.pure rfl) fun _ => Post.ite (fun _ => ?_) fun _ => ?_
  · refine Post.bind ((inner _ _ s).mono fun r s' moved => ?_)
    refine Post.bind ((advances_promptIf _ r.1 s').mono fun _ s'' more => ?_)
    have moved : Advances s s'' ei r.1 := Advances.trans ⟨moved.claims, moved.asked⟩ more
    exact Post.ite (fun _ => Post.pure moved) fun _ => Post.pure moved
  · refine Advances.after (R := Prod.fst) (Advances.after (R := fun _ => ei) (advances_promptIf ..) fun _ s => ?_)
      fun _ s => Advances.pure rfl
    exact Advances.after (advances_promptIf ..) fun _ s => Advances.after (advances_promptIf ..) fun _ s => Advances.pure rfl

theorem checkElLoop_advances (inner : ∀ ei blkno s, Post (checkEb' ei blkno) s fun r s' => Advances s s' ei r.1)
    (trust : Bool) (left i : Nat) (c : Checked) (s : O2fsckState) :
    Post (checkElLoop env checkEb' trust left i c) s fun c' s' => Advances s s' c.ei c'.ei := by
  induction left generalizing i c s with
  | zero => exact Advances.pure rfl
  | succ left ih =>
    rw [checkElLoop]
    split
    · exact Post.failure
    next er _ =>
      refine Post.ite (fun _ => ih (i + 1) c s) fun _ => ?_
      refine Post.bind ((checkEr_advances inner ..).mono fun r s' moved => ?_)
      obtain ⟨ei, er, changed⟩ := r
      refine Post.bind ((advances_promptIf _ ei s').mono fun remove s'' more => ?_)
      have moved := moved.trans more
      refine Post.ite (fun _ => Post.ite (fun _ => ?_) fun _ => ?_) fun _ => Post.ite (fun _ => ?_) fun _ => ?_
      · exact (ih ..).mono fun _ _ more => moved.trans more
      · exact (ih ..).mono fun _ _ more => moved.trans more
      · exact (ih ..).mono fun _ _ more => moved.trans more
      · -- a data extent: its clusters are marked and claimed
        refine Post.bind ⟨fun _ s₃ run => (ih ..).mono fun _ _ more => moved.trans (Advances.trans ⟨⟨_, rfl, ?_⟩, ?_⟩ more)⟩
        · exact (marks_clusters _ s'').holds _ _ run
        · exact ((asks_marks ..).post s'').holds _ _ run

theorem checkEl_advances (fuel : Nat) (ei : ExtentInfo) (el : ExtentList) (max_recs : Nat) (changed : Bool)
    (s : O2fsckState) : Post (checkEl env fuel ei el max_recs changed) s fun c s' => Advances s s' ei c.ei := by
  induction fuel generalizing ei el max_recs changed s with
  | zero => exact Post.failure
  | succ fuel ih =>
    refine Advances.after (advances_promptIf ..) fun depth s => Advances.after (advances_promptIf ..) fun count s => ?_
    refine Advances.after (advances_promptIf ..) fun clamp s => ?_
    exact checkElLoop_advances (checkEb_advances ih) ..

theorem checkEl_claims (fuel : Nat) (ei : ExtentInfo) (el : ExtentList) (max_recs : Nat) (changed : Bool)
    (s : O2fsckState) : Post (checkEl env fuel ei el max_recs changed) s fun c s' => Claims s s' ei c.ei :=
  (checkEl_advances ..).mono fun _ _ moved => moved.claims

theorem checkExtents_marks (di : Dinode) (s : O2fsckState) :
    Post (o2fsckCheckExtents env di) s fun r s' => Marks s s' r.2 := by
  refine Post.bind ((checkEl_claims ..).mono fun c s' claims => ?_)
  obtain ⟨new, claimed, marks⟩ := claims
  subst claimed
  refine Post.ite (fun _ => ?_) fun _ => Post.pure marks
  refine Post.bind (((quiet_writeInode ..).post s').mono fun _ s'' same => Post.pure ?_)
  simpa using marks.trans (Marks.of_eq same)

end Marks

end Ocfs2.Pass1
