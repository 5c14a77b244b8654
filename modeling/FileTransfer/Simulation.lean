import FileTransfer.StepRun
import Mathlib.Algebra.Order.BigOperators.Group.Finset

/-! # Simulations between runs

Two step relations, of which the upper one sees some of the events of the lower one. Step
rules give run rules, and a rank bounds the runs and completes them. Many parts have a rank
together. -/
namespace Simulation

open StepRun

section Observed

variable {σ τ ε φ : Type} {lower : σ → ε → σ → Prop} {upper : τ → φ → τ → Prop}
  {see : ε → Option φ} {R : σ → τ → Prop}

/-- Related states stay related: by a step of the upper relation where the event can be seen. -/
structure Forward (lower : σ → ε → σ → Prop) (upper : τ → φ → τ → Prop) (see : ε → Option φ)
    (R : σ → τ → Prop) : Prop where
  visible : ∀ {s t a e f}, R s a → lower s e t → see e = some f → ∃ b, upper a f b ∧ R t b
  silent : ∀ {s t a e}, R s a → lower s e t → see e = none → R t a

/-- Every step of the upper relation is what can be seen of some run of the lower one. -/
structure Backward (lower : σ → ε → σ → Prop) (upper : τ → φ → τ → Prop) (see : ε → Option φ)
    (R : σ → τ → Prop) : Prop where
  realized : ∀ {s a b f}, R s a → upper a f b →
    ∃ es t, es.filterMap see = [f] ∧ Run lower s es t ∧ R t b

theorem Forward.run (h : Forward lower upper see R) {s t : σ} {a : τ} {es : List ε} (hR : R s a)
    (hrun : Run lower s es t) : ∃ b, Run upper a (es.filterMap see) b ∧ R t b := by
  induction hrun with
  | nil => exact ⟨a, .nil a, hR⟩
  | @snoc t u es e _ hstep ih =>
    obtain ⟨b, hb, hRb⟩ := ih
    rw [List.filterMap_append]
    cases hsee : see e with
    | none =>
      refine ⟨b, ?_, h.silent hRb hstep hsee⟩
      simpa [hsee] using hb
    | some f =>
      obtain ⟨c, hstep', hRc⟩ := h.visible hRb hstep hsee
      refine ⟨c, ?_, hRc⟩
      simpa [hsee] using hb.snoc hstep'

theorem Backward.run (h : Backward lower upper see R) {s : σ} {a b : τ} {fs : List φ} (hR : R s a)
    (hrun : Run upper a fs b) : ∃ es t, es.filterMap see = fs ∧ Run lower s es t ∧ R t b := by
  induction hrun with
  | nil => exact ⟨[], s, rfl, .nil s, hR⟩
  | snoc _ hstep ih =>
    obtain ⟨es, t, hseen, hes, hRt⟩ := ih
    obtain ⟨gs, u, hlast, hgs, hRu⟩ := h.realized hRt hstep
    exact ⟨es ++ gs, u, by rw [List.filterMap_append, hseen, hlast], hes.append hgs, hRu⟩

end Observed

section Ranked

variable {σ ε : Type} {step : σ → ε → σ → Prop} {I : σ → ℕ → Prop}

theorem length_le_rank {s t : σ} {es : List ε} {n : ℕ} (h : Run step s es t) (hI : I s n)
    (hstep : ∀ {s n e t}, I s n → step s e t → ∃ m < n, I t m) :
    ∃ m, I t m ∧ es.length + m ≤ n := by
  induction h with
  | nil => exact ⟨n, hI, by simp⟩
  | snoc _ hs ih =>
    obtain ⟨m, hIm, hle⟩ := ih
    obtain ⟨k, hlt, hIk⟩ := hstep hIm hs
    refine ⟨k, hIk, ?_⟩
    rw [List.length_append, List.length_singleton]
    omega

theorem completes {final : σ → Prop} {s : σ} {n : ℕ} (hI : I s n)
    (hstep : ∀ {s n e t}, I s n → step s e t → ∃ m < n, I t m)
    (hprogress : ∀ {s n}, I s n → ¬final s → ∃ e t, step s e t) :
    ∃ es t, Run step s es t ∧ final t := by
  induction n using Nat.strongRecOn generalizing s with
  | ind n ih =>
    by_cases hfinal : final s
    · exact ⟨[], s, .nil s, hfinal⟩
    · obtain ⟨e, t, hs⟩ := hprogress hI hfinal
      obtain ⟨m, hlt, hIm⟩ := hstep hI hs
      obtain ⟨es, u, hrun, hend⟩ := ih m hlt hIm
      exact ⟨e :: es, u, .cons hs hrun, hend⟩

end Ranked

section Parts

variable {σ ι : Type} [Fintype ι] [DecidableEq ι] {J : ι → σ → ℕ → Prop}

def Together (J : ι → σ → ℕ → Prop) (s : σ) (n : ℕ) : Prop :=
  ∃ rank : ι → ℕ, (∀ i, J i s (rank i)) ∧ ∑ i, rank i = n

/-- A part that moves on, while the others stay where they are, lowers the rank of the whole. -/
theorem together_step {s t : σ} {n : ℕ} (h : Together J s n)
    (hstep : ∀ rank : ι → ℕ, (∀ i, J i s (rank i)) →
      ∃ i, ∃ m < rank i, J i t m ∧ ∀ j, j ≠ i → J j t (rank j)) :
    ∃ m < n, Together J t m := by
  obtain ⟨rank, hrank, rfl⟩ := h
  obtain ⟨i, m, hlt, hi, hothers⟩ := hstep rank hrank
  have hle : ∀ j, Function.update rank i m j ≤ rank j := by
    intro j
    by_cases hj : j = i
    · subst hj
      rw [Function.update_self]
      exact hlt.le
    · rw [Function.update_of_ne hj]
  refine ⟨∑ j, Function.update rank i m j, ?_, Function.update rank i m, fun j => ?_, rfl⟩
  · refine Finset.sum_lt_sum (fun j _ => hle j) ⟨i, Finset.mem_univ i, ?_⟩
    rwa [Function.update_self]
  · by_cases hj : j = i
    · subst hj
      rwa [Function.update_self]
    · rw [Function.update_of_ne hj]
      exact hothers j hj

end Parts

end Simulation
