import Ocfs2.Shared.ParentGraph

set_option autoImplicit false

namespace Ocfs2.Pass3

open ParentGraph Function

section Walk

inductive Last (C : Nat → Prop) (g : Nat → Nat) (lf d : Nat) : Nat → (Nat → Nat) → Prop where
  | joined {i : Nat} (old : C (g^[i] d)) : Last C g lf d i g
  | looped {i : Nat} (pos : 0 < i) (back : g^[i] d = d) : Last C g lf d i g
  | moved {i : Nat} (distinct : ∀ j k, j < k → k < i + 1 → g^[j] d ≠ g^[k] d)
      (stuck : g^[i + 1] d = 0 ∨ ∃ j, 0 < j ∧ j < i + 1 ∧ g^[i + 1] d = g^[j] d) :
      Last C g lf d (i + 1) (update g (g^[i] d) lf)

inductive Ended (C : Nat → Prop) (g : Nat → Nat) (lf d : Nat) (C' : Nat → Prop) (g' : Nat → Nat) : Prop where
  | intro (i : Nat) (fresh : ∀ j, j < i → ¬C (g^[j] d))
      (connected : ∀ x, C' x ↔ C x ∨ ∃ j, j < i ∧ x = g^[j] d) (last : Last C g lf d i g')

structure Between (f : Nat → Nat) (top : Nat → Prop) (lf : Nat) (visited : List Nat) (C : Nat → Prop)
    (g : Nat → Nat) : Prop where
  moved : ∀ x, g x ≠ f x → C x ∧ g x = lf ∧ ¬Reaches f top x
  tops : ∀ x, top x → C x
  seen : ∀ x ∈ visited, C x
  closed : ∀ x, C x → top x ∨ f x = 0 ∨ C (f x)
  origin : ∀ x, C x → top x ∨ ∃ d ∈ visited, ∃ n, f^[n] d = x ∧ ∀ k, k < n → ¬top (f^[k] d)

variable {f g g' : Nat → Nat} {top C C' : Nat → Prop} {lf d : Nat} {visited : List Nat}

variable (inv : Between f top lf visited C g)

include inv

theorem Between.iterate_eq {i : Nat} (fresh : ∀ j, j < i → ¬C (g^[j] d)) {k : Nat}
    (le : k ≤ i) : f^[k] d = g^[k] d := by
  refine ParentGraph.iterate_eq fun j lt => ?_
  by_contra changed
  exact fresh j (by omega) (inv.moved _ (Ne.symm changed)).1

theorem Between.parent_eq {x : Nat} (fresh : ¬C x) : g x = f x := by
  by_contra changed
  exact fresh (inv.moved x changed).1

theorem Between.under {i : Nat} (fresh : ∀ j, j < i → ¬C (g^[j] d)) (j : Nat) (lt : j < i) : ¬top (f^[j] d) := by
  rw [inv.iterate_eq fresh lt.le]
  exact fun h => fresh j lt (inv.tops _ h)

theorem Between.stuck (zero : f 0 = 0) (below : ¬top 0) {i : Nat}
    (fresh : ∀ j, j < i + 1 → ¬C (g^[j] d))
    (stuck : g^[i + 1] d = 0 ∨ ∃ j, 0 < j ∧ j < i + 1 ∧ g^[i + 1] d = g^[j] d) :
    ¬Reaches f top (g^[i] d) := by
  have under := inv.under fresh
  have steps (k : Nat) (le : k ≤ i + 1) := inv.iterate_eq fresh le
  rw [← steps i (by omega)]
  rw [← steps (i + 1) le_rfl] at stuck
  rcases stuck with none_left | ⟨j, pos, lt, back⟩
  · rintro ⟨n, h⟩
    cases n with
    | zero => exact under i (by omega) h
    | succ n =>
      have stays : f^[n] 0 = 0 := iterate_fixed zero n
      rw [← iterate_add_apply, show n + 1 + i = n + (i + 1) by omega, iterate_add_apply, none_left, stays] at h
      exact below h
  · rw [← steps j (by omega)] at back
    intro reaches
    have on_cycle : ¬Reaches f top (f^[j] d) := by
      refine not_reaches_of_cycle (n := i + 1 - j) (by omega) ?_ fun k lt => ?_
      · rw [← iterate_add_apply, show i + 1 - j + j = i + 1 by omega, back]
      · rw [← iterate_add_apply]
        exact under _ (by omega)
    apply on_cycle
    rw [← back, iterate_succ_apply']
    exact reaches.next (under i (by omega))

theorem Between.ended (zero : f 0 = 0) (below : ¬top 0)
    (ended : Ended C g lf d C' g') : Between f top lf (visited ++ [d]) C' g' := by
  obtain ⟨i, fresh, connected, last⟩ := ended
  have keeps (x : Nat) (h : C x) : C' x := (connected x).mpr (Or.inl h)
  have walked (j : Nat) (lt : j < i) : C' (g^[j] d) := (connected _).mpr (Or.inr ⟨j, lt, rfl⟩)
  refine ⟨fun x changed => ?_, fun x h => keeps x (inv.tops x h), fun x mem => ?_, fun x hx => ?_, fun x hx => ?_⟩
  · cases last with
    | joined old => exact (inv.moved x changed).imp_left (keeps x)
    | looped pos back => exact (inv.moved x changed).imp_left (keeps x)
    | @moved i distinct stuck =>
      by_cases here : x = g^[i] d
      · subst here
        exact ⟨walked i (by omega), update_self .., inv.stuck zero below fresh stuck⟩
      · rw [update_of_ne here] at changed ⊢
        exact (inv.moved x changed).imp_left (keeps x)
  · rcases List.mem_append.mp mem with old | new
    · exact keeps x (inv.seen x old)
    · rw [List.mem_singleton.mp new]
      cases last with
      | joined old =>
        rcases Nat.eq_zero_or_pos i with rfl | pos
        · exact keeps d old
        · exact walked 0 pos
      | looped pos back => exact walked 0 pos
      | moved distinct stuck => exact walked 0 (by omega)
  · rcases (connected x).mp hx with old | ⟨j, lt, rfl⟩
    · exact (inv.closed x old).imp_right (Or.imp_right (keeps _))
    · rw [← inv.parent_eq (fresh j lt), ← iterate_succ_apply' g]
      rcases Nat.lt_or_ge (j + 1) i with inside | end_here
      · exact Or.inr (Or.inr (walked _ inside))
      · obtain rfl : i = j + 1 := by omega
        cases last with
        | joined old => exact Or.inr (Or.inr (keeps _ old))
        | looped pos back => exact Or.inr (Or.inr (back.symm ▸ walked 0 pos))
        | moved distinct stuck =>
          rcases stuck with none_left | ⟨k, -, lt, back⟩
          · exact Or.inr (Or.inl none_left)
          · exact Or.inr (Or.inr (back ▸ walked k lt))
  · rcases (connected x).mp hx with old | ⟨j, lt, rfl⟩
    · rcases inv.origin x old with h | ⟨e, mem, path⟩
      · exact Or.inl h
      · exact Or.inr ⟨e, by simp [mem], path⟩
    · exact Or.inr ⟨d, by simp, j, inv.iterate_eq fresh lt.le, fun k lt' => inv.under fresh k (lt'.trans lt)⟩

end Walk

section Visits

inductive Visits (lf : Nat) : List Nat → (Nat → Prop) → (Nat → Nat) → (Nat → Prop) → (Nat → Nat) → Prop where
  | nil (C : Nat → Prop) (g : Nat → Nat) : Visits lf [] C g C g
  | cons {d : Nat} {ds : List Nat} {C C₁ C' : Nat → Prop} {g g₁ g' : Nat → Nat} (first : Ended C g lf d C₁ g₁)
      (rest : Visits lf ds C₁ g₁ C' g') : Visits lf (d :: ds) C g C' g'

def Stranded (f : Nat → Nat) (top : Nat → Prop) (c : Nat) : Prop :=
  c ≠ 0 ∧ c ∈ periodicPts f ∧ ¬Reaches f top c ∧ ∀ e, e < c → ¬Reaches f top e → ∀ n, f^[n] e ≠ c

def Unbroken (f : Nat → Nat) (C : Nat → Prop) (g : Nat → Nat) (c : Nat) : Prop :=
  ∀ k, C (f^[k] c) ∧ g (f^[k] c) = f (f^[k] c)

variable {f g g' : Nat → Nat} {top C C' : Nat → Prop} {lf d c : Nat} {visited ds : List Nat}

theorem Unbroken.ended (unbroken : Unbroken f C g c) (ended : Ended C g lf d C' g') : Unbroken f C' g' c := by
  intro k
  obtain ⟨h, same⟩ := unbroken k
  obtain ⟨i, fresh, connected, last⟩ := ended
  refine ⟨(connected _).mpr (Or.inl h), ?_⟩
  cases last with
  | joined old => exact same
  | looped pos back => exact same
  | moved distinct stuck =>
    rw [update_of_ne, same]
    exact fun here => fresh _ (Nat.lt_succ_self _) (here ▸ h)

theorem Stranded.ended (stranded : Stranded f top c) (inv : Between f top lf visited C g) (zero : f 0 = 0)
    (smaller : ∀ e ∈ visited, e < c) (ended : Ended C g lf c C' g') : Unbroken f C' g' c := by
  obtain ⟨nonzero, ⟨m, m_pos, period⟩, lost, only⟩ := stranded
  have around (n : Nat) : ∃ k, f^[k] (f^[n] c) = c := by
    refine ⟨m * n - n, ?_⟩
    have le : n ≤ m * n := Nat.le_mul_of_pos_left n m_pos
    rw [← iterate_add_apply, Nat.sub_add_cancel le]
    exact (period.mul_const n)
  obtain ⟨i, fresh, connected, last⟩ := ended
  cases last with
  | joined old =>
    exfalso
    rw [← inv.iterate_eq fresh le_rfl] at old
    rcases inv.origin _ old with h | ⟨e, mem, n, path, under⟩
    · exact lost ⟨i, h⟩
    · obtain ⟨k, back⟩ := around i
      refine only e (smaller e mem) ?_ (k + n) (by rw [iterate_add_apply, path, back])
      rintro ⟨m', h⟩
      rcases Nat.lt_or_ge m' n with early | late
      · exact under m' early h
      · rw [← Nat.sub_add_cancel late, iterate_add_apply, path, ← iterate_add_apply] at h
        exact lost ⟨_, h⟩
  | looped pos back =>
    intro k
    rw [← inv.iterate_eq fresh le_rfl] at back
    have again : f^[k] c = f^[k % i] c := (IsPeriodicPt.iterate_mod_apply back k).symm
    have lt : k % i < i := Nat.mod_lt k pos
    rw [again, inv.iterate_eq fresh lt.le]
    exact ⟨(connected _).mpr (Or.inr ⟨_, lt, rfl⟩), inv.parent_eq (fresh _ lt)⟩
  | @moved i distinct stuck =>
    exfalso
    rw [← inv.iterate_eq fresh le_rfl] at stuck
    rcases stuck with none_left | ⟨j, pos, lt, back⟩
    · obtain ⟨k, h⟩ := around (i + 1)
      rw [none_left, iterate_fixed zero] at h
      exact nonzero h.symm
    · rw [← inv.iterate_eq fresh lt.le] at back
      obtain ⟨k, h⟩ := around j
      have short : f^[i + 1 - j] c = c := by
        have : f^[k] (f^[i + 1] c) = c := by rw [back, h]
        rw [show i + 1 = (i + 1 - j) + j by omega, iterate_add_apply, ← iterate_add_apply,
          Nat.add_comm k, iterate_add_apply, h] at this
        exact this
      rw [inv.iterate_eq fresh (by omega)] at short
      exact distinct 0 (i + 1 - j) (by omega) (by omega) short.symm

theorem Between.mem_of_path (inv : Between f top lf visited C g) (zero : f 0 = 0) {e : Nat} (h : C e)
    (lost : ¬Reaches f top e) {n : Nat} (nonzero : f^[n] e ≠ 0) : C (f^[n] e) := by
  induction n with
  | zero => exact h
  | succ n ih =>
    rw [iterate_succ_apply'] at nonzero ⊢
    have before : f^[n] e ≠ 0 := by
      intro none_left
      rw [none_left, zero] at nonzero
      exact nonzero rfl
    rcases inv.closed _ (ih before) with h | h | h
    · exact absurd ⟨n, h⟩ lost
    · exact absurd h nonzero
    · exact h

theorem Between.reaches (inv : Between f top lf visited C g) (zero : f 0 = 0) (below : ¬top 0) (nonzero : d ≠ 0)
    (before : ∀ e, e < d → f e ≠ 0 → e ∈ visited) (free : ∀ c, ¬Stranded f top c)
    (lost_found : Reaches f top lf) (reaches : ∀ x, C x → Reaches g top x) (ended : Ended C g lf d C' g') :
    ∀ x, C' x → Reaches g' top x := by
  intro x hx
  obtain ⟨i, fresh, connected, last⟩ := ended
  cases last with
  | joined old =>
    rcases (connected x).mp hx with h | ⟨j, lt, rfl⟩
    · exact reaches x h
    · refine Reaches.of_iterate (n := i - j) ?_
      rw [← iterate_add_apply, Nat.sub_add_cancel lt.le]
      exact reaches _ old
  | looped pos back =>
    exfalso
    rw [← inv.iterate_eq fresh le_rfl] at back
    have lost := not_reaches_of_cycle pos back (inv.under fresh)
    refine free d ⟨nonzero, ⟨i, pos, back⟩, lost, fun e lt lost_e n path => ?_⟩
    have parent : f e ≠ 0 := by
      intro none_left
      cases n with
      | zero => exact lt.ne path
      | succ n =>
        rw [iterate_succ_apply, none_left, iterate_fixed zero] at path
        exact nonzero path.symm
    have h := inv.mem_of_path zero (inv.seen e (before e lt parent)) lost_e (n := n) (path ▸ nonzero)
    exact fresh 0 pos (path ▸ h)
  | @moved i distinct stuck =>
    have there : Reaches (update g (g^[i] d) lf) top lf := by
      have after := inv.ended zero below ⟨i + 1, fresh, connected, .moved distinct stuck⟩
      refine lost_found.congr fun y hy _ => ?_
      by_contra changed
      exact (after.moved y changed).2.2 hy
    rcases (connected x).mp hx with h | ⟨j, lt, rfl⟩
    · exact there.update (reaches x h)
    · -- the way from here leads to the directory that has moved
      have way : (update g (g^[i] d) lf)^[i + 1 - j] (g^[j] d) = lf := by
        have same : (update g (g^[i] d) lf)^[i - j] (g^[j] d) = g^[i - j] (g^[j] d) := by
          refine ParentGraph.iterate_eq fun k less => ?_
          rw [← iterate_add_apply]
          exact update_of_ne (distinct _ _ (by omega) (by omega)) _ _
        rw [show i + 1 - j = (i - j) + 1 by omega, iterate_succ_apply', same, ← iterate_add_apply,
          Nat.sub_add_cancel (by omega), update_self]
      refine Reaches.of_iterate (n := i + 1 - j) ?_
      rwa [way]

theorem Between.start : Between f top lf [] top f :=
  ⟨fun x changed => absurd rfl changed, fun x h => h, by simp, fun x h => Or.inl h, fun x h => Or.inl h⟩

theorem Visits.between (visits : Visits lf ds C g C' g') (inv : Between f top lf visited C g) (zero : f 0 = 0)
    (below : ¬top 0) : Between f top lf (visited ++ ds) C' g' := by
  induction visits generalizing visited with
  | nil C g => simpa using inv
  | cons first rest ih => simpa using ih (inv.ended zero below first)

theorem Visits.correct (visits : Visits lf ds C g C' g') (inv : Between f top lf visited C g) (zero : f 0 = 0)
    (below : ¬top 0) (sorted : (visited ++ ds).Pairwise (· < ·)) (nonzero : 0 ∉ ds)
    (all : ∀ e, f e ≠ 0 → e ∈ visited ++ ds) :
    Between f top lf (visited ++ ds) C' g' ∧ (∀ c, Unbroken f C g c → Unbroken f C' g' c) ∧
      (∀ c ∈ ds, Stranded f top c → Unbroken f C' g' c) ∧
      ((∀ c, ¬Stranded f top c) → Reaches f top lf → (∀ x, C x → Reaches g top x) →
        ∀ x, C' x → Reaches g' top x) := by
  induction visits generalizing visited with
  | nil C g => simpa using inv
  | @cons d ds C C₁ C' g g₁ g' first rest ih =>
    have split : visited ++ d :: ds = visited ++ [d] ++ ds := by simp
    have earlier (e : Nat) (mem : e ∈ visited) : e < d :=
      (List.pairwise_append.mp sorted).2.2 e mem d (by simp)
    have before (e : Nat) (lt : e < d) (parent : f e ≠ 0) : e ∈ visited := by
      rcases List.mem_append.mp (all e parent) with mem | mem
      · exact mem
      · exfalso
        rcases List.mem_cons.mp mem with rfl | mem
        · exact lt.false
        · exact lt.asymm ((List.pairwise_cons.mp (List.pairwise_append.mp sorted).2.1).1 e mem)
    rw [split] at sorted all ⊢
    rw [List.mem_cons, not_or] at nonzero
    obtain ⟨after, keeps, strands, reach⟩ := ih (inv.ended zero below first) sorted nonzero.2 all
    refine ⟨after, fun c h => keeps c (h.ended first), ?_, ?_⟩
    · intro c mem stranded
      rcases List.mem_cons.mp mem with rfl | mem
      · exact keeps c (stranded.ended inv zero earlier first)
      · exact strands c mem stranded
    · intro free lost_found reaches
      exact reach free lost_found
        (inv.reaches zero below (Ne.symm nonzero.1) before free lost_found reaches first)

theorem Visits.reaches_iff (visits : Visits lf ds top f C' g') (zero : f 0 = 0) (below : ¬top 0)
    (sorted : ds.Pairwise (· < ·)) (nonzero : 0 ∉ ds) (all : ∀ e, f e ≠ 0 → e ∈ ds) :
    (∀ d ∈ ds, Reaches g' top d) ↔
      (∀ c ∈ ds, ¬Stranded f top c) ∧ ((∀ d ∈ ds, Reaches f top d) ∨ Reaches f top lf) := by
  obtain ⟨after, -, strands, reach⟩ := visits.correct .start zero below sorted nonzero all
  rw [List.nil_append] at after
  constructor
  · intro connected
    refine ⟨fun c mem stranded => ?_, ?_⟩
    · have unbroken := strands c mem stranded
      apply stranded.2.2.1
      obtain ⟨n, h⟩ := connected c mem
      rw [ParentGraph.iterate_eq fun j _ => (unbroken j).2] at h
      exact ⟨n, h⟩
    · by_contra neither
      push Not at neither
      obtain ⟨⟨d, mem, lost⟩, no_lost_found⟩ := neither
      rcases (connected d mem).of_redirect fun y changed => (after.moved y changed).2.1 with here | there
      · exact lost here
      · exact no_lost_found there
  · rintro ⟨free, usable⟩ d mem
    have keep (x : Nat) (h : Reaches f top x) : Reaches g' top x := by
      refine h.congr fun y hy _ => ?_
      by_contra changed
      exact (after.moved y changed).2.2 hy
    rcases usable with every | lost_found
    · exact keep d (every d mem)
    · refine reach (fun c stranded => free c ?_ stranded) lost_found (fun x h => .of_top h) d (after.seen d mem)
      apply all
      intro none_left
      obtain ⟨nonzero, ⟨m, pos, period⟩, -⟩ := stranded
      obtain ⟨m, rfl⟩ : ∃ k, m = k + 1 := ⟨m - 1, by omega⟩
      rw [IsPeriodicPt, IsFixedPt, iterate_succ_apply, none_left, iterate_fixed zero] at period
      exact nonzero period.symm

end Visits

end Ocfs2.Pass3
