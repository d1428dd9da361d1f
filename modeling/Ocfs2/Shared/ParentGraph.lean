import Mathlib.Dynamics.PeriodicPts.Defs
import Mathlib.Tactic

set_option autoImplicit false

namespace ParentGraph

variable {A : Type} {f g : A → A} {top : A → Prop}

def Reaches (f : A → A) (top : A → Prop) (x : A) : Prop := ∃ n, top (f^[n] x)

variable {x : A}

theorem Reaches.of_top (h : top x) : Reaches f top x := ⟨0, h⟩

theorem Reaches.up (reaches : Reaches f top (f x)) : Reaches f top x := by
  obtain ⟨n, h⟩ := reaches
  exact ⟨n + 1, h⟩

theorem Reaches.next (reaches : Reaches f top x) (below : ¬top x) : Reaches f top (f x) := by
  obtain ⟨n, h⟩ := reaches
  cases n with
  | zero => exact absurd h below
  | succ n => exact ⟨n, h⟩

theorem Reaches.of_iterate {n : Nat} (reaches : Reaches f top (f^[n] x)) : Reaches f top x := by
  induction n generalizing x with
  | zero => exact reaches
  | succ n ih => exact (ih reaches).up

theorem Reaches.congr (same : ∀ y, Reaches f top y → ¬top y → g y = f y) (reaches : Reaches f top x) :
    Reaches g top x := by
  obtain ⟨n, h⟩ := reaches
  induction n generalizing x with
  | zero => exact ⟨0, h⟩
  | succ n ih =>
    by_cases end_here : top x
    · exact .of_top end_here
    · apply Reaches.up
      rw [same x ⟨n + 1, h⟩ end_here]
      exact ih h

theorem Reaches.update [DecidableEq A] {z l : A} (there : Reaches (Function.update f z l) top l)
    (reaches : Reaches f top x) : Reaches (Function.update f z l) top x := by
  obtain ⟨n, h⟩ := reaches
  induction n generalizing x with
  | zero => exact .of_top h
  | succ n ih =>
    apply Reaches.up
    by_cases here : x = z
    · rwa [here, Function.update_self]
    · rw [Function.update_of_ne here]
      exact ih h

theorem Reaches.of_redirect {l : A} (moved : ∀ y, g y ≠ f y → g y = l) (reaches : Reaches g top x) :
    Reaches f top x ∨ Reaches f top l := by
  obtain ⟨n, h⟩ := reaches
  induction n generalizing x with
  | zero => exact Or.inl (.of_top h)
  | succ n ih =>
    by_cases same : g x = f x
    · rcases ih (x := g x) h with here | there
      · exact Or.inl (same ▸ here).up
      · exact Or.inr there
    · rcases ih (x := g x) h with here | there
      · exact Or.inr (moved x same ▸ here)
      · exact Or.inr there

theorem iterate_eq {i : Nat} (same : ∀ j, j < i → g (f^[j] x) = f (f^[j] x)) : g^[i] x = f^[i] x := by
  induction i with
  | zero => rfl
  | succ i ih =>
    rw [Function.iterate_succ_apply', Function.iterate_succ_apply', ih fun j lt => same j (by omega),
      same i (by omega)]

theorem not_reaches_of_cycle {n : Nat} (pos : 0 < n) (back : f^[n] x = x)
    (below : ∀ j, j < n → ¬top (f^[j] x)) : ¬Reaches f top x := by
  rintro ⟨m, h⟩
  have period : Function.IsPeriodicPt f n x := back
  rw [← period.iterate_mod_apply m] at h
  exact below _ (Nat.mod_lt m pos) h

end ParentGraph
