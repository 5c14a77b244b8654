import Mathlib.Data.List.Induction

/-! # Runs of a step relation

Runs carry the list of their events, so that one run can be cut at any point and a
condition can be asked of every step. -/
namespace StepRun

variable {σ ε : Type}

inductive Run (step : σ → ε → σ → Prop) : σ → List ε → σ → Prop where
  | nil (s) : Run step s [] s
  | snoc {s t u es e} : Run step s es t → step t e u → Run step s (es ++ [e]) u

variable {step : σ → ε → σ → Prop}

theorem Run.append {s t u : σ} {es fs : List ε} (h : Run step s es t) (k : Run step t fs u) :
    Run step s (es ++ fs) u := by
  induction k with
  | nil => simpa using h
  | snoc _ hstep ih => simpa [← List.append_assoc] using Run.snoc ih hstep

theorem Run.cons {s t u : σ} {e : ε} {es : List ε} (h : step s e t) (k : Run step t es u) :
    Run step s (e :: es) u := by
  have := (Run.snoc (.nil s) h).append k
  simpa using this

theorem Run.last {s u : σ} {es : List ε} {e : ε} (h : Run step s (es ++ [e]) u) :
    ∃ t, Run step s es t ∧ step t e u := by
  generalize hg : es ++ [e] = gs at h
  cases h with
  | nil => simp at hg
  | @snoc t u fs f hrun hstep =>
    obtain ⟨rfl, he⟩ := List.append_inj' hg rfl
    cases he
    exact ⟨t, hrun, hstep⟩

/-- The states on the way are those of the prefixes of the event list. -/
theorem Run.split {s u : σ} {es fs : List ε} (h : Run step s (es ++ fs) u) :
    ∃ t, Run step s es t ∧ Run step t fs u := by
  induction fs using List.reverseRecOn generalizing u with
  | nil => exact ⟨u, by simpa using h, .nil u⟩
  | append_singleton fs e ih =>
    rw [← List.append_assoc] at h
    obtain ⟨v, hrun, hstep⟩ := h.last
    obtain ⟨t, h₁, h₂⟩ := ih hrun
    exact ⟨t, h₁, h₂.snoc hstep⟩

theorem Run.deterministic {s t u : σ} {es : List ε} (h : Run step s es t) (k : Run step s es u)
    (hstep : ∀ {s e t u}, step s e t → step s e u → t = u) : t = u := by
  induction h generalizing u with
  | nil =>
    generalize hg : [] = gs at k
    cases k with
    | nil => rfl
    | snoc => simp at hg
  | snoc _ hs ih =>
    obtain ⟨v, hrun, hlast⟩ := k.last
    obtain rfl := ih hrun
    exact hstep hs hlast

/-- A step rule gives a run rule: an invariant that every step keeps holds at the end. -/
theorem Run.invariant {I : σ → Prop} {s t : σ} {es : List ε} (h : Run step s es t)
    (hI : I s) (hstep : ∀ {s e t}, I s → step s e t → I t) : I t := by
  induction h with
  | nil => exact hI
  | snoc _ hs ih => exact hstep ih hs

theorem Run.mono {step' : σ → ε → σ → Prop} {s t : σ} {es : List ε} (h : Run step s es t)
    (hm : ∀ {s e t}, step s e t → step' s e t) : Run step' s es t := by
  induction h with
  | nil => exact .nil _
  | snoc _ hs ih => exact ih.snoc (hm hs)

theorem Run.with_mem {s t : σ} {es : List ε} (h : Run step s es t) :
    Run (fun s e t => step s e t ∧ e ∈ es) s es t := by
  induction h with
  | nil => exact .nil _
  | @snoc t u es e _ hs ih =>
    have hrun : Run (fun s' e' t' => step s' e' t' ∧ e' ∈ es ++ [e]) s es t :=
      ih.mono fun h => ⟨h.1, List.mem_append_left _ h.2⟩
    exact hrun.snoc ⟨hs, List.mem_append_right _ (List.mem_singleton_self e)⟩

theorem Run.of_foldlM {next : σ → ε → Option σ} {s t : σ} {es : List ε}
    (h : es.foldlM next s = some t) : Run (fun s e t => next s e = some t) s es t := by
  induction es generalizing s with
  | nil => cases h; exact .nil _
  | cons e es ih =>
    obtain ⟨u, hstep, hrest⟩ := Option.bind_eq_some_iff.mp h
    exact .cons hstep (ih hrest)

def guarded (P : σ → ε → Prop) [∀ s e, Decidable (P s e)] (next : σ → ε → Option σ) (s : σ)
    (e : ε) : Option σ :=
  if P s e then next s e else none

theorem Run.of_guarded {P : σ → ε → Prop} [∀ s e, Decidable (P s e)] {next : σ → ε → Option σ}
    {s t : σ} {es : List ε} (h : es.foldlM (guarded P next) s = some t) :
    Run (fun s e t => next s e = some t ∧ P s e) s es t := by
  refine (Run.of_foldlM h).mono fun {s e t} hstep => ?_
  unfold guarded at hstep
  split at hstep
  · next hholds => exact ⟨hstep, hholds⟩
  · cases hstep

section Along

variable {next : σ → ε → σ} {P Q : σ → ε → Prop}

/-- A condition on every step of the run of a step function. -/
def Along (next : σ → ε → σ) (P : σ → ε → Prop) : σ → List ε → Prop
  | _, [] => True
  | s, e :: es => P s e ∧ Along next P (next s e) es

theorem along_and {s : σ} {es : List ε} :
    Along next (fun s e => P s e ∧ Q s e) s es ↔ Along next P s es ∧ Along next Q s es := by
  induction es generalizing s with
  | nil => exact ⟨fun _ => ⟨trivial, trivial⟩, fun _ => trivial⟩
  | cons e es ih =>
    constructor
    · rintro ⟨⟨hP, hQ⟩, hrest⟩
      obtain ⟨hPs, hQs⟩ := ih.mp hrest
      exact ⟨⟨hP, hPs⟩, hQ, hQs⟩
    · rintro ⟨⟨hP, hPs⟩, hQ, hQs⟩
      exact ⟨⟨hP, hQ⟩, ih.mpr ⟨hPs, hQs⟩⟩

/-- Two conditions that agree under an invariant agree along a run, when one of them is
what keeps the invariant. -/
theorem along_iff_along {I : σ → Prop} (hPQ : ∀ {s} e, I s → (P s e ↔ Q s e))
    (hstep : ∀ {s} e, I s → Q s e → I (next s e)) {s : σ} (hs : I s) (es : List ε) :
    Along next P s es ↔ Along next Q s es := by
  induction es generalizing s with
  | nil => exact Iff.rfl
  | cons e es ih =>
    constructor
    · rintro ⟨hP, hrest⟩
      have hQ := (hPQ e hs).mp hP
      exact ⟨hQ, (ih (hstep e hs hQ)).mp hrest⟩
    · rintro ⟨hQ, hrest⟩
      exact ⟨(hPQ e hs).mpr hQ, (ih (hstep e hs hQ)).mpr hrest⟩

end Along

end StepRun
