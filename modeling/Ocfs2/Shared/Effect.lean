import Mathlib.Tactic

set_option autoImplicit false

namespace Effect

@[ext]
structure Eff (σ ε α : Type) where
  run : σ → Option (Except ε α × σ)

variable {σ ε α β : Type}

instance : Monad (Eff σ ε) where
  pure a := ⟨fun s => some (.ok a, s)⟩
  bind x f := ⟨fun s =>
    match x.run s with
    | none => none
    | some (.error e, s') => some (.error e, s')
    | some (.ok a, s') => (f a).run s'⟩

def throw (e : ε) : Eff σ ε α := ⟨fun s => some (.error e, s)⟩

def stuck : Eff σ ε α := ⟨fun _ => none⟩

def get : Eff σ ε σ := ⟨fun s => some (.ok s, s)⟩

def modify (f : σ → σ) : Eff σ ε Unit := ⟨fun s => some (.ok (), f s)⟩

def check (c : Prop) [Decidable c] (e : ε) : Eff σ ε Unit := if c then pure () else throw e

def assert (c : Prop) [Decidable c] : Eff σ ε Unit := if c then pure () else stuck

def require : Option α → Eff σ ε α
  | none => stuck
  | some a => pure a

def attempt (x : Eff σ ε α) : Eff σ ε (Except ε α) :=
  ⟨fun s =>
    match x.run s with
    | none => none
    | some (r, s') => some (.ok r, s')⟩

def reraise : Except ε α → Eff σ ε α
  | .ok a => pure a
  | .error e => throw e

theorem bind_run (x : Eff σ ε α) (f : α → Eff σ ε β) (s : σ) :
    (x >>= f).run s =
      match x.run s with
      | none => none
      | some (.error e, s') => some (.error e, s')
      | some (.ok a, s') => (f a).run s' := rfl

theorem bind_ok {x : Eff σ ε α} {f : α → Eff σ ε β} {s s' : σ} {a : α} (run : x.run s = some (.ok a, s')) :
    (x >>= f).run s = (f a).run s' := by
  rw [bind_run, run]

theorem bind_error {x : Eff σ ε α} {f : α → Eff σ ε β} {s s' : σ} {e : ε} (run : x.run s = some (.error e, s')) :
    (x >>= f).run s = some (.error e, s') := by
  rw [bind_run, run]

theorem bind_eq_ok {x : Eff σ ε α} {f : α → Eff σ ε β} {s s'' : σ} {b : β}
    (run : (x >>= f).run s = some (.ok b, s'')) :
    ∃ a s', x.run s = some (.ok a, s') ∧ (f a).run s' = some (.ok b, s'') := by
  rw [bind_run] at run
  rcases here : x.run s with _ | ⟨_ | a, s'⟩
  · simp [here] at run
  · simp [here] at run
  · exact ⟨a, s', rfl, by simpa [here] using run⟩

@[simp]
theorem pure_run (a : α) (s : σ) : (pure a : Eff σ ε α).run s = some (.ok a, s) := rfl

@[simp]
theorem modify_run (f : σ → σ) (s : σ) : (modify f : Eff σ ε Unit).run s = some (.ok (), f s) := rfl

@[simp]
theorem throw_run (e : ε) (s : σ) : (throw e : Eff σ ε α).run s = some (.error e, s) := rfl

section

variable (f : Unit → Eff σ ε β) (s : σ)

@[simp]
theorem pure_bind_run (a : α) (f : α → Eff σ ε β) : ((pure a : Eff σ ε α) >>= f).run s = (f a).run s := rfl

@[simp]
theorem get_bind_run (f : σ → Eff σ ε β) : (get >>= f).run s = (f s).run s := rfl

@[simp]
theorem modify_bind_run (g : σ → σ) : (modify g >>= f).run s = (f ()).run (g s) := rfl

@[simp]
theorem require_bind_run (a : α) (f : α → Eff σ ε β) : (require (some a) >>= f).run s = (f a).run s := rfl

theorem assert_bind_run {c : Prop} [Decidable c] (holds : c) : (assert c >>= f).run s = (f ()).run s := by
  rw [assert, if_pos holds, pure_bind_run]

theorem check_bind_run {c : Prop} [Decidable c] (holds : c) (e : ε) : (check c e >>= f).run s = (f ()).run s := by
  rw [check, if_pos holds, pure_bind_run]

end

structure Triple (P : σ → Prop) (x : Eff σ ε α) (Q : α → σ → Prop) (E : σ → Prop) : Prop where
  ok : ∀ s, P s → ∀ a s', x.run s = some (.ok a, s') → Q a s'
  error : ∀ s, P s → ∀ e s', x.run s = some (.error e, s') → E s'

abbrev Keeps (I : σ → Prop) (x : Eff σ ε α) : Prop := Triple I x (fun _ => I) I

namespace Triple

variable {P P' : σ → Prop} {Q : α → σ → Prop} {E : σ → Prop} {x : Eff σ ε α}

theorem weaken (triple : Triple P x Q E) (strong : ∀ s, P' s → P s) : Triple P' x Q E :=
  ⟨fun s here => triple.ok s (strong s here), fun s here => triple.error s (strong s here)⟩

theorem post {Q' : α → σ → Prop} (triple : Triple P x Q E) (weak : ∀ a s, Q a s → Q' a s) : Triple P x Q' E :=
  ⟨fun s here a s' run => weak a s' (triple.ok s here a s' run), triple.error⟩

theorem anyError (triple : Triple P x Q E) : Triple P x Q fun _ => True :=
  ⟨triple.ok, fun _ _ _ _ _ => trivial⟩

theorem given {p : Prop} (triple : p → Triple P x Q E) : Triple (fun s => P s ∧ p) x Q E :=
  ⟨fun s here => (triple here.2).ok s here.1, fun s here => (triple here.2).error s here.1⟩

theorem pure {a : α} (holds : ∀ s, P s → Q a s) : Triple P (pure a : Eff σ ε α) Q E := by
  refine ⟨fun s here b s' run => ?_, fun s here e s' run => by simp at run⟩
  obtain ⟨rfl, rfl⟩ : a = b ∧ s = s' := by simpa using run
  exact holds s here

theorem throw {e : ε} (holds : ∀ s, P s → E s) : Triple P (throw e : Eff σ ε α) Q E := by
  refine ⟨fun s here b s' run => by simp at run, fun s here e' s' run => ?_⟩
  obtain ⟨-, rfl⟩ : e = e' ∧ s = s' := by simpa using run
  exact holds s here

theorem stuck : Triple P (stuck : Eff σ ε α) Q E := ⟨fun _ _ _ _ => nofun, fun _ _ _ _ => nofun⟩

theorem bind {R : α → σ → Prop} {Q : β → σ → Prop} {f : α → Eff σ ε β} (first : Triple P x R E)
    (rest : ∀ a, Triple (R a) (f a) Q E) : Triple P (x >>= f) Q E := by
  constructor
  · intro s here b s'' run
    obtain ⟨a, s', left, right⟩ := bind_eq_ok run
    exact (rest a).ok s' (first.ok s here a s' left) b s'' right
  · intro s here e s'' run
    rw [bind_run] at run
    rcases left : x.run s with _ | ⟨e' | a, s'⟩
    · simp [left] at run
    · obtain ⟨rfl, rfl⟩ : e' = e ∧ s' = s'' := by simpa [left] using run
      exact first.error s here _ _ left
    · exact (rest a).error s' (first.ok s here a s' left) e s'' (by simpa [left] using run)

theorem get {R : σ → σ → Prop} (holds : ∀ s, P s → R s s) : Triple P (get : Eff σ ε σ) R E := by
  refine ⟨fun s here b s' run => ?_, fun s here e s' run => by simp [Effect.get] at run⟩
  obtain ⟨rfl, rfl⟩ : s = b ∧ s = s' := by simpa [Effect.get] using run
  exact holds s here

theorem get_bind {p : σ → Prop} {Q : β → σ → Prop} {f : σ → Eff σ ε β} (read : ∀ s, P s → p s)
    (rest : ∀ s, p s → Triple P (f s) Q E) : Triple P (Effect.get >>= f) Q E :=
  bind (R := fun s s' => P s' ∧ p s) (get fun s here => ⟨here, read s here⟩) fun s => given (rest s)

variable {R : Unit → σ → Prop} {c : Prop}

theorem modify {f : σ → σ} (holds : ∀ s, P s → R () (f s)) :
    Triple P (modify f : Eff σ ε Unit) R E := by
  refine ⟨fun s here b s' run => ?_, fun s here e s' run => by simp at run⟩
  obtain rfl : f s = s' := by simpa using run
  exact holds s here

theorem ite [Decidable c] {y : Eff σ ε α} (yes : c → Triple P x Q E) (no : ¬ c → Triple P y Q E) :
    Triple P (if c then x else y) Q E := by
  split
  next h => exact yes h
  next h => exact no h

theorem check [Decidable c] {e : ε} (yes : c → ∀ s, P s → R () s)
    (no : ∀ s, P s → E s) : Triple P (check c e) R E :=
  ite (fun h => pure (yes h)) fun _ => throw no

theorem assert [Decidable c] (yes : c → ∀ s, P s → R () s) :
    Triple P (assert c : Eff σ ε Unit) R E :=
  ite (fun h => pure (yes h)) fun _ => stuck

theorem require {o : Option α} (some : ∀ a, o = some a → ∀ s, P s → Q a s) :
    Triple P (require o : Eff σ ε α) Q E := by
  cases o with
  | none => exact stuck
  | some a => exact pure (some a rfl)

theorem attempt {R : Except ε α → σ → Prop} (triple : Triple P x (fun a => R (.ok a)) fun s => ∀ e, R (.error e) s) :
    Triple P (attempt x) R E := by
  refine ⟨fun s here r s' run => ?_, fun s here e s' run => ?_⟩
  · rcases left : x.run s with _ | ⟨e | a, s''⟩ <;> simp [Effect.attempt, left] at run
    · obtain ⟨rfl, rfl⟩ := run
      exact triple.error s here e _ left e
    · obtain ⟨rfl, rfl⟩ := run
      exact triple.ok s here a _ left
  · rcases left : x.run s with _ | ⟨e | a, s''⟩ <;> simp [Effect.attempt, left] at run

theorem reraise {r : Except ε α} (ok : ∀ a, r = .ok a → ∀ s, P s → Q a s) (error : ∀ s, P s → E s) :
    Triple P (reraise r : Eff σ ε α) Q E := by
  cases r with
  | ok a => exact pure (ok a rfl)
  | error e => exact throw error

theorem forM {I : σ → Prop} {xs : List α} {f : α → Eff σ ε PUnit} (step : ∀ x ∈ xs, Keeps I (f x)) :
    Keeps I (xs.forM f) := by
  induction xs with
  | nil => exact pure fun _ here => here
  | cons x xs ih => exact (step x (by simp)).bind fun _ => ih fun y mem => step y (by simp [mem])

end Triple

namespace Keeps

variable {I : σ → Prop} {x : Eff σ ε α}

theorem pure (a : α) : Keeps I (pure a : Eff σ ε α) := Triple.pure fun _ here => here

theorem throw (e : ε) : Keeps I (throw e : Eff σ ε α) := Triple.throw fun _ here => here

theorem stuck : Keeps I (stuck : Eff σ ε α) := Triple.stuck

theorem get : Keeps I (get : Eff σ ε σ) := Triple.get fun _ here => here

theorem check (c : Prop) [Decidable c] (e : ε) : Keeps I (check c e) :=
  Triple.check (fun _ _ here => here) fun _ here => here

theorem assert (c : Prop) [Decidable c] : Keeps I (assert c : Eff σ ε Unit) := Triple.assert fun _ _ here => here

theorem require (o : Option α) : Keeps I (require o : Eff σ ε α) := Triple.require fun _ _ _ here => here

theorem reraise (r : Except ε α) : Keeps I (reraise r : Eff σ ε α) :=
  Triple.reraise (fun _ _ _ here => here) fun _ here => here

theorem bind {f : α → Eff σ ε β} (first : Keeps I x) (rest : ∀ a, Keeps I (f a)) : Keeps I (x >>= f) :=
  Triple.bind first rest

theorem attempt (keeps : Keeps I x) : Keeps I (attempt x) :=
  Triple.attempt ⟨keeps.ok, fun s here e s' run _ => keeps.error s here e s' run⟩

theorem ite {c : Prop} [Decidable c] {y : Eff σ ε α} (yes : Keeps I x) (no : Keeps I y) :
    Keeps I (if c then x else y) :=
  Triple.ite (fun _ => yes) fun _ => no

theorem get_bind {f : σ → Eff σ ε β} (rest : ∀ s, Keeps I (f s)) : Keeps I (Effect.get >>= f) := get.bind rest

theorem require_bind {o : Option α} {f : α → Eff σ ε β} (rest : ∀ a, Keeps I (f a)) :
    Keeps I (Effect.require o >>= f) := (require o).bind rest

end Keeps

end Effect
