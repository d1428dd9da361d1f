import Mathlib.Logic.Relation
import Mathlib.Tactic

set_option autoImplicit false

namespace StepLoop

universe u v

inductive Step (σ : Type u) (ρ : Type v) where
  | again (s : σ)
  | stop (r : ρ)

variable {σ : Type u} {ρ : Type v} (step : σ → Step σ ρ)

def run : Nat → σ → Option ρ
  | 0, _ => none
  | fuel + 1, s =>
    match step s with
    | .again t => run fuel t
    | .stop r => some r

def Stops (s : σ) (r : ρ) : Prop := ∃ fuel, run step fuel s = some r

def Reaches : σ → σ → Prop := Relation.ReflTransGen fun s t => step s = .again t

variable {step}

theorem Reaches.refl (s : σ) : Reaches step s s := Relation.ReflTransGen.refl

theorem Reaches.trans {s t u : σ} (first : Reaches step s t) (second : Reaches step t u) : Reaches step s u :=
  Relation.ReflTransGen.trans first second

theorem Reaches.head {s t u : σ} (first : step s = .again t) (rest : Reaches step t u) : Reaches step s u :=
  Relation.ReflTransGen.head first rest

theorem Reaches.single {s t : σ} (once : step s = .again t) : Reaches step s t :=
  Relation.ReflTransGen.single once

theorem run_again {s t : σ} (once : step s = .again t) (fuel : Nat) :
    run step (fuel + 1) s = run step fuel t := by
  simp only [run, once]

theorem run_stop {s : σ} {r : ρ} (last : step s = .stop r) (fuel : Nat) :
    run step (fuel + 1) s = some r := by
  simp only [run, last]

theorem stops_again {s t : σ} (once : step s = .again t) (r : ρ) : Stops step s r ↔ Stops step t r := by
  constructor
  · rintro ⟨fuel, ran⟩
    cases fuel with
    | zero => exact absurd ran (by simp [run])
    | succ fuel => exact ⟨fuel, run_again once fuel ▸ ran⟩
  · rintro ⟨fuel, ran⟩
    exact ⟨fuel + 1, (run_again once fuel).trans ran⟩

theorem stops_stop {s : σ} {r : ρ} (last : step s = .stop r) (r' : ρ) : Stops step s r' ↔ r = r' := by
  constructor
  · rintro ⟨fuel, ran⟩
    cases fuel with
    | zero => exact absurd ran (by simp [run])
    | succ fuel => exact Option.some.inj ((run_stop last fuel).symm.trans ran)
  · rintro rfl
    exact ⟨1, run_stop last 0⟩

theorem Reaches.stops {s t : σ} (reach : Reaches step s t) (r : ρ) : Stops step s r ↔ Stops step t r := by
  induction reach with
  | refl => rfl
  | tail _ once ih => rw [ih, stops_again once]

theorem Stops.last {s : σ} {r : ρ} (stops : Stops step s r) : ∃ t, Reaches step s t ∧ step t = .stop r := by
  obtain ⟨fuel, ran⟩ := stops
  induction fuel generalizing s with
  | zero => exact absurd ran (by simp [run])
  | succ fuel ih =>
    cases now : step s with
    | again t =>
      rw [run_again now] at ran
      obtain ⟨u, rest, last⟩ := ih ran
      exact ⟨u, rest.head now, last⟩
    | stop r' =>
      rw [run_stop now] at ran
      exact ⟨s, Reaches.refl s, now.trans (congrArg Step.stop (Option.some.inj ran))⟩

theorem stops_bad_of_invariant {Inv : σ → Prop} {Bad : ρ → Prop}
    (keeps : ∀ s, Inv s → (∃ t, step s = .again t ∧ Inv t) ∨ ∃ r, step s = .stop r ∧ Bad r)
    {s : σ} (start : Inv s) {r : ρ} (stops : Stops step s r) : Bad r := by
  obtain ⟨fuel, ran⟩ := stops
  induction fuel generalizing s with
  | zero => exact absurd ran (by simp [run])
  | succ fuel ih =>
    rcases keeps s start with ⟨t, once, inv⟩ | ⟨r', last, bad⟩
    · rw [run_again once] at ran
      exact ih inv ran
    · rw [run_stop last] at ran
      exact Option.some.inj ran ▸ bad

theorem never_stops {Inv : σ → Prop} (keeps : ∀ s, Inv s → ∃ t, step s = .again t ∧ Inv t)
    {s : σ} (start : Inv s) (r : ρ) : ¬ Stops step s r :=
  @stops_bad_of_invariant σ ρ step Inv (fun _ => False) (fun s inv => Or.inl (keeps s inv)) s start r

end StepLoop
