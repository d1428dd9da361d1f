import Mathlib.Tactic

set_option autoImplicit false

namespace Program

abbrev Prog (σ α : Type) := StateT σ Option α

variable {σ τ α β : Type}

theorem pure_run (a : α) (s : σ) : (pure a : Prog σ α) s = some (a, s) := rfl

structure Post (m : Prog σ α) (s : σ) (Q : α → σ → Prop) : Prop where
  holds : ∀ a s', m s = some (a, s') → Q a s'

variable {m : Prog σ α} {s : σ} {Q Q' : α → σ → Prop}

theorem Post.mono (post : Post m s Q) (imp : ∀ a s', Q a s' → Q' a s') : Post m s Q' :=
  ⟨fun a s' run => imp a s' (post.holds a s' run)⟩

theorem Post.pure {a : α} (holds : Q a s) : Post (pure a) s Q := by
  refine ⟨fun a' s' run => ?_⟩
  obtain ⟨rfl, rfl⟩ := Prod.mk.inj (Option.some.inj run)
  exact holds

theorem Post.bind {f : α → Prog σ β} {R : β → σ → Prop} (first : Post m s fun a s' => Post (f a) s' R) :
    Post (m >>= f) s R := by
  refine ⟨fun b s'' run => ?_⟩
  obtain ⟨⟨a, s'⟩, here, rest⟩ := Option.bind_eq_some_iff.mp run
  exact (first.holds a s' here).holds b s'' rest

theorem Post.get {Q : σ → σ → Prop} (holds : Q s s) : Post get s Q := by
  refine ⟨fun a s' run => ?_⟩
  obtain ⟨rfl, rfl⟩ := Prod.mk.inj (Option.some.inj run)
  exact holds

theorem Post.modify {f : σ → σ} {Q : PUnit → σ → Prop} (holds : Q ⟨⟩ (f s)) : Post (modify f) s Q := by
  refine ⟨fun a s' run => ?_⟩
  obtain ⟨rfl, rfl⟩ := Prod.mk.inj (Option.some.inj run)
  exact holds

theorem Post.failure : Post (failure : Prog σ α) s Q := ⟨nofun⟩

theorem Post.ite {c : Prop} [Decidable c] {n : Prog σ α} (yes : c → Post m s Q) (no : ¬c → Post n s Q) :
    Post (if c then m else n) s Q := by
  split
  next h => exact yes h
  next h => exact no h

theorem Post.forM {xs : List α} {f : α → Prog σ PUnit} {I : List α → σ → Prop}
    (step : ∀ before x s, I before s → Post (f x) s fun _ s' => I (before ++ [x]) s') (start : I [] s) :
    Post (xs.forM f) s fun _ s' => I xs s' := by
  suffices general : ∀ rest before s, I before s → Post (rest.forM f) s fun _ s' => I (before ++ rest) s' from
    general xs [] s start
  intro rest
  induction rest with
  | nil =>
    intro before s holds
    rw [List.append_nil]
    exact Post.pure holds
  | cons x rest ih =>
    intro before s holds
    refine Post.bind ((step before x s holds).mono fun _ s' holds' => ?_)
    simpa using ih (before ++ [x]) s' holds'

structure Frame (part : σ → τ) (m : Prog σ α) : Prop where
  post : ∀ s, Post m s fun _ s' => part s' = part s

variable {part : σ → τ}

theorem Frame.pure (a : α) : Frame part (pure a : Prog σ α) := ⟨fun _ => Post.pure rfl⟩

theorem Frame.failure : Frame part (failure : Prog σ α) := ⟨fun _ => Post.failure⟩

theorem Frame.get : Frame part (get : Prog σ σ) := ⟨fun _ => Post.get rfl⟩

theorem Frame.modify {f : σ → σ} (keeps : ∀ s, part (f s) = part s) : Frame part (modify f : Prog σ PUnit) :=
  ⟨fun s => Post.modify (keeps s)⟩

theorem Frame.bind {f : α → Prog σ β} (first : Frame part m) (rest : ∀ a, Frame part (f a)) :
    Frame part (m >>= f) := by
  refine ⟨fun s => Post.bind ((first.post s).mono fun a s' same => ?_)⟩
  exact ((rest a).post s').mono fun _ _ same' => same'.trans same

theorem Frame.ite {c : Prop} [Decidable c] {n : Prog σ α} (yes : Frame part m) (no : Frame part n) :
    Frame part (if c then m else n) := ⟨fun s => Post.ite (fun _ => yes.post s) fun _ => no.post s⟩

theorem Frame.mapM {f : α → Prog σ β} (each : ∀ a, Frame part (f a)) (xs : List α) : Frame part (xs.mapM f) := by
  induction xs with
  | nil => exact Frame.pure []
  | cons x xs ih =>
    rw [List.mapM_cons]
    exact (each x).bind fun b => ih.bind fun bs => Frame.pure (b :: bs)

end Program
