import Mathlib.Order.Basic

/-! # Loops that their environment drives

A loop that takes one answer of its environment in each turn. It may run for ever. -/
namespace DrivenLoop

variable {σ ε : Type}

structure Loop (σ ε : Type) where
  returned : σ → Bool
  turn : σ → ε → σ

def behind (env : ℕ → ε) (i : ℕ) : ε := env (i + 1)

namespace Loop

variable {l : Loop σ ε} {env : ℕ → ε} {s t : σ}

def after (l : Loop σ ε) : ℕ → (ℕ → ε) → σ → σ
  | 0, _, s => s
  | n + 1, env, s => if l.returned s then s else l.after n (behind env) (l.turn s (env 0))

/-- The loop comes to its end after finitely many turns. -/
structure Returns (l : Loop σ ε) (env : ℕ → ε) (s t : σ) : Prop where
  returned : l.returned t = true
  reached : ∃ n, l.after n env s = t

theorem after_returned (h : l.returned s = true) (n : ℕ) (env : ℕ → ε) : l.after n env s = s := by
  cases n with
  | zero => rfl
  | succ n => rw [after, if_pos h]

theorem after_turn (h : l.returned s = false) (n : ℕ) (env : ℕ → ε) :
    l.after (n + 1) env s = l.after n (behind env) (l.turn s (env 0)) := by
  rw [after, if_neg (by simp [h])]

theorem returns_of_returned (h : l.returned s = true) : l.Returns env s t ↔ t = s := by
  constructor
  · rintro ⟨-, n, hn⟩
    rw [after_returned h] at hn
    exact hn.symm
  · rintro rfl
    exact ⟨h, 0, rfl⟩

theorem returns_turn (h : l.returned s = false) :
    l.Returns env s t ↔ l.Returns (behind env) (l.turn s (env 0)) t := by
  constructor
  · rintro ⟨ht, n, hn⟩
    cases n with
    | zero =>
      obtain rfl : s = t := hn
      rw [h] at ht
      cases ht
    | succ n => exact ⟨ht, n, by rwa [after_turn h] at hn⟩
  · rintro ⟨ht, n, hn⟩
    exact ⟨ht, n + 1, by rwa [after_turn h]⟩

/-- Induction over the turns up to the end. -/
theorem Returns.induct {P : (ℕ → ε) → σ → Prop} (h : l.Returns env s t)
    (hend : ∀ env, l.returned t = true → P env t)
    (hturn : ∀ env s, l.returned s = false → P (behind env) (l.turn s (env 0)) → P env s) :
    P env s := by
  obtain ⟨ht, n, hn⟩ := h
  induction n generalizing env s with
  | zero =>
    obtain rfl : s = t := hn
    exact hend env ht
  | succ n ih =>
    cases hs : l.returned s with
    | true =>
      rw [after_returned hs] at hn
      cases hn
      exact hend env ht
    | false =>
      rw [after_turn hs] at hn
      exact hturn env s hs (ih hn)

theorem Returns.invariant {I : σ → Prop} (h : l.Returns env s t) (hI : I s)
    (hturn : ∀ {s e}, l.returned s = false → I s → I (l.turn s e)) : I t := by
  revert hI
  apply h.induct (P := fun _ s => I s → I t)
  · exact fun _ _ hI => hI
  · exact fun _ _ hs ih hI => ih (hturn hs hI)

theorem not_returns {I : (ℕ → ε) → σ → Prop} (hI : I env s)
    (hrunning : ∀ {env s}, I env s → l.returned s = false)
    (hturn : ∀ {env s}, I env s → I (behind env) (l.turn s (env 0))) : ¬l.Returns env s t := by
  intro h
  revert hI
  apply h.induct (P := fun env s => ¬I env s)
  · intro env ht hI
    rw [hrunning hI] at ht
    cases ht
  · intro env s _ ih hI
    exact ih (hturn hI)

end Loop

end DrivenLoop
