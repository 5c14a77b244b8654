import Mathlib.Order.Defs.Unbundled

/-! # Programs with a state, exceptions and divergence

Imperative code whose exceptions keep the state changes made before them. `Guarantees`
relates the states before and after every run; it composes along the program text, so
a frame condition is proved once for each primitive. -/
namespace RaisingProgram

inductive Outcome (ε α : Type) where
  | value (a : α)
  | raised (e : ε)
  | hangs
  deriving DecidableEq, Repr

def Outcome.isRaised {ε α : Type} : Outcome ε α → Bool
  | .raised _ => true
  | _ => false

structure Prog (σ ε α : Type) where
  run : σ → Outcome ε α × σ

variable {σ ε α β : Type}

namespace Prog

def bind (x : Prog σ ε α) (f : α → Prog σ ε β) : Prog σ ε β where
  run s := match x.run s with
    | (.value a, t) => (f a).run t
    | (.raised e, t) => (.raised e, t)
    | (.hangs, t) => (.hangs, t)

instance : Monad (Prog σ ε) where
  pure a := ⟨fun s => (.value a, s)⟩
  bind := bind

def read : Prog σ ε σ := ⟨fun s => (.value s, s)⟩
def modify (f : σ → σ) : Prog σ ε Unit := ⟨fun s => (.value (), f s)⟩
def raise (e : ε) : Prog σ ε α := ⟨fun s => (.raised e, s)⟩
def hang : Prog σ ε α := ⟨fun s => (.hangs, s)⟩

/-- `try: body except: handler`. The handler starts from the state the body left. -/
def attempt (body : Prog σ ε α) (handler : ε → Prog σ ε α) : Prog σ ε α where
  run s := match body.run s with
    | (.value a, t) => (.value a, t)
    | (.raised e, t) => (handler e).run t
    | (.hangs, t) => (.hangs, t)

@[simp] theorem run_pure (a : α) (s : σ) : (pure a : Prog σ ε α).run s = (.value a, s) := rfl
@[simp] theorem run_read (s : σ) : (read : Prog σ ε σ).run s = (.value s, s) := rfl
@[simp] theorem run_modify (f : σ → σ) (s : σ) :
    (modify f : Prog σ ε Unit).run s = (.value (), f s) := rfl
@[simp] theorem run_raise (e : ε) (s : σ) :
    (raise e : Prog σ ε α).run s = (.raised e, s) := rfl
@[simp] theorem run_hang (s : σ) : (hang : Prog σ ε α).run s = (.hangs, s) := rfl

theorem run_bind (x : Prog σ ε α) (f : α → Prog σ ε β) (s : σ) :
    (x >>= f).run s = match x.run s with
      | (.value a, t) => (f a).run t
      | (.raised e, t) => (.raised e, t)
      | (.hangs, t) => (.hangs, t) := rfl

theorem run_attempt (x : Prog σ ε α) (h : ε → Prog σ ε α) (s : σ) :
    (attempt x h).run s = match x.run s with
      | (.value a, t) => (.value a, t)
      | (.raised e, t) => (h e).run t
      | (.hangs, t) => (.hangs, t) := rfl

end Prog

open Prog

/-- Every run of `x`, however it ends, relates its first state to its last one. -/
def Guarantees (r : σ → σ → Prop) (x : Prog σ ε α) : Prop := ∀ s, r s (x.run s).2

section Rules

variable {r : σ → σ → Prop} [Std.Refl r]

theorem guarantees_pure (a : α) : Guarantees r (pure a : Prog σ ε α) := fun s => refl_of r s

theorem guarantees_read : Guarantees r (read : Prog σ ε σ) := fun s => refl_of r s

theorem guarantees_raise (e : ε) : Guarantees r (raise e : Prog σ ε α) := fun s => refl_of r s

omit [Std.Refl r] in
theorem guarantees_modify {f : σ → σ} (h : ∀ s, r s (f s)) :
    Guarantees r (modify f : Prog σ ε Unit) := h

omit [Std.Refl r] in
theorem guarantees_bind [IsTrans σ r] {x : Prog σ ε α} {f : α → Prog σ ε β}
    (hx : Guarantees r x) (hf : ∀ a, Guarantees r (f a)) : Guarantees r (x >>= f) := by
  intro s
  have h := hx s
  rw [run_bind]
  generalize x.run s = o at h ⊢
  rcases o with ⟨_ | _ | _, t⟩
  · exact trans_of r h (hf _ t)
  · exact h
  · exact h

omit [Std.Refl r] in
theorem guarantees_attempt [IsTrans σ r] {x : Prog σ ε α} {h : ε → Prog σ ε α}
    (hx : Guarantees r x) (hh : ∀ e, Guarantees r (h e)) : Guarantees r (attempt x h) := by
  intro s
  have hs := hx s
  rw [run_attempt]
  generalize x.run s = o at hs ⊢
  rcases o with ⟨_ | _ | _, t⟩
  · exact hs
  · exact trans_of r hs (hh _ t)
  · exact hs

omit [Std.Refl r] in
theorem guarantees_ite {c : Prop} [Decidable c] {x y : Prog σ ε α}
    (hx : c → Guarantees r x) (hy : ¬c → Guarantees r y) :
    Guarantees r (if c then x else y) := by
  split
  · exact hx ‹_›
  · exact hy ‹_›

end Rules

end RaisingProgram
