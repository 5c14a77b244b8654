import FileTransfer.ServerSystem
import FileTransfer.Simulation

/-! # The server as a service without threads

A service that serves one connection after another. The threads of the server refine it: the
lock admits one read thread at a time, and a thread that ends without a release is a session
that never ends. -/
namespace ServerService

open ByteField ServerProtocol ServerState ServerThread ServerSystem StepRun Simulation

section Definitions

/-- `session` is where the session stands that is being served. -/
structure Service where
  world : World
  session : Option Control

inductive Request where
  | connect
  | recv (r : RecvResult) (env : Env)

def Service.idle (w : World) : Service := ⟨w, none⟩

def Service.after (out : ReadStep) : Service :=
  ⟨out.world, if out.control = .closed then none else some out.control⟩

def Service.next (crypto : PyCrypto) (a : Service) : Request → Option Service
  | .connect => if a.session = none then some { a with session := some .reading } else none
  | .recv r env =>
    match a.session with
    | some control =>
      if control.awaits then some (.after (readStep crypto env a.world control r)) else none
    | none => none

def ServiceStep (crypto : PyCrypto) (a : Service) (f : Request) (b : Service) : Prop :=
  a.next crypto f = some b

def seen : Event → Option Request
  | .accept => none
  | .start => some .connect
  | .recv _ r env => some (.recv r env)

def connection : Event → Option ℕ
  | .recv c _ _ => some c
  | _ => none

/-- The session of the service is the one thread that can still run. -/
structure Serves (s : System) (a : Service) : Prop where
  world : s.world = a.world
  idle : a.session = none → s.lock = false ∧
    ∀ c conn, s.thread c = some conn → conn.control.awaits = false
  busy : ∀ control, a.session = some control → s.lock = true ∧
    ∃ c conn, s.thread c = some conn ∧ conn.control = control ∧
      ∀ d conn', s.thread d = some conn' → conn'.control.awaits = true → d = c

/-- The connections have been started one after another, and the last one runs. -/
structure Numbered (s : System) (started : ℕ) : Prop where
  waiting : ∀ c, s.waiting = some c → c = started
  accepted : s.waiting = none → s.accepted = started
  held : s.waiting ≠ none → s.accepted = started + 1
  running : ∀ c conn, s.thread c = some conn → conn.control.awaits = true → c + 1 = started

def isStart : Event → Bool
  | .start => true
  | _ => false

end Definitions

variable {crypto : PyCrypto} {s t : System} {a b : Service}

section Serving

theorem serves_initial (w : World) : Serves (.initial w) (.idle w) where
  world := rfl
  idle _ := ⟨rfl, fun _ _ h => by cases h⟩
  busy _ h := by cases h

theorem serves_accept (h : Serves s a) (hstep : Step crypto s .accept t) : Serves t a := by
  obtain ⟨-, rfl⟩ := step_accept hstep
  exact ⟨h.world, h.idle, h.busy⟩

theorem serves_start (h : Serves s a) (hstep : Step crypto s .start t) :
    ∃ b, ServiceStep crypto a .connect b ∧ Serves t b := by
  obtain ⟨c, -, hlock, rfl⟩ := step_start hstep
  have hsession : a.session = none := by
    cases hs : a.session with
    | none => rfl
    | some control =>
      have hheld := (h.busy control hs).1
      rw [hlock] at hheld
      cases hheld
  refine ⟨{ a with session := some .reading }, ?_, h.world, nofun, ?_⟩
  · exact if_pos hsession
  · rintro control ⟨⟩
    refine ⟨rfl, c, _, Function.update_self .., rfl, ?_⟩
    intro d conn hd hawaits
    by_contra hne
    dsimp only at hd
    rw [Function.update_of_ne hne] at hd
    rw [(h.idle hsession).2 d conn hd] at hawaits
    cases hawaits

theorem session_of_awaits (h : Serves s a) {c : ℕ} {conn : Connection}
    (hc : s.thread c = some conn) (hawaits : conn.control.awaits = true) :
    a.session = some conn.control ∧ s.lock = true ∧
      ∀ d conn', s.thread d = some conn' → conn'.control.awaits = true → d = c := by
  cases hs : a.session with
  | none =>
    rw [(h.idle hs).2 c conn hc] at hawaits
    cases hawaits
  | some control =>
    obtain ⟨hlock, c', conn', hc', rfl, honly⟩ := h.busy control hs
    obtain rfl := honly c conn hc hawaits
    rw [hc] at hc'
    cases hc'
    exact ⟨rfl, hlock, honly⟩

theorem serves_finish (h : Serves s a) {c : ℕ} {conn : Connection} (hc : s.thread c = some conn)
    (hawaits : conn.control.awaits = true) (out : ReadStep) :
    Serves (s.finish c conn out) (.after out) := by
  obtain ⟨-, hlock, honly⟩ := session_of_awaits h hc hawaits
  have hother : ∀ d conn', d ≠ c → (s.finish c conn out).thread d = some conn' →
      conn'.control.awaits = false := by
    intro d conn' hne hd
    rw [finish_other hne] at hd
    by_contra hd'
    exact hne (honly d conn' hd (by simpa using hd'))
  by_cases hclosed : out.control = .closed
  · obtain ⟨hself, hfree⟩ := finish_self_closed c conn hclosed hlock
    refine ⟨finish_world, fun _ => ⟨hfree, ?_⟩, ?_⟩
    · intro d conn' hd
      by_cases hne : d = c
      · subst hne
        rw [hself] at hd
        cases hd
        rfl
      · exact hother d conn' hne hd
    · intro control hsome
      rw [Service.after, if_pos hclosed] at hsome
      cases hsome
  · obtain ⟨hself, hheld⟩ := finish_self_live s c conn hclosed
    refine ⟨finish_world, ?_, ?_⟩
    · intro hnone
      rw [Service.after, if_neg hclosed] at hnone
      cases hnone
    · intro control hsome
      rw [Service.after, if_neg hclosed] at hsome
      cases hsome
      refine ⟨hheld.trans hlock, c, _, hself, rfl, ?_⟩
      intro d conn' hd hawaits'
      by_contra hne
      rw [hother d conn' hne hd] at hawaits'
      cases hawaits'

theorem serves_recv (h : Serves s a) {c : ℕ} {r : RecvResult} {env : Env}
    (hstep : Step crypto s (.recv c r env) t) :
    ∃ b, ServiceStep crypto a (.recv r env) b ∧ Serves t b := by
  obtain ⟨conn, hc, hawaits, rfl⟩ := step_recv hstep
  obtain ⟨hsession, -, -⟩ := session_of_awaits h hc hawaits
  refine ⟨_, ?_, serves_finish h hc hawaits _⟩
  rw [ServiceStep, Service.next, hsession, h.world]
  exact if_pos hawaits

theorem forward (crypto : PyCrypto) : Forward (Step crypto) (ServiceStep crypto) seen Serves where
  visible {s t a e f} h hstep hsee := by
    cases e with
    | accept => cases hsee
    | start =>
      cases hsee
      exact serves_start h hstep
    | recv c r env =>
      cases hsee
      exact serves_recv h hstep
  silent {s t a e} h hstep hsee := by
    cases e with
    | accept => exact serves_accept h hstep
    | start => cases hsee
    | recv c r env => cases hsee

theorem starts (h : Serves s a) (hsession : a.session = none) :
    ∃ es t, es.filterMap seen = [.connect] ∧ Run (Step crypto) s es t ∧
      Serves t { a with session := some .reading } := by
  have hlock := (h.idle hsession).1
  have hstart : ∀ {u : System}, Serves u a → u.waiting ≠ none → u.lock = false →
      ∃ t, Step crypto u .start t ∧ Serves t { a with session := some .reading } := by
    intro u hu hwaiting hfree
    obtain ⟨c, hc⟩ := Option.ne_none_iff_exists'.mp hwaiting
    have hstep : Step crypto u .start { u with
        lock := true, waiting := none
        thread := Function.update u.thread c (some ⟨.reading, 0⟩) } := by
      rw [Step, System.next, hc, hfree]
    obtain ⟨b, hb, hserves⟩ := serves_start hu hstep
    rw [ServiceStep, Service.next, if_pos hsession] at hb
    cases hb
    exact ⟨_, hstep, hserves⟩
  by_cases hwaiting : s.waiting = none
  · have haccept : Step crypto s .accept
        { s with accepted := s.accepted + 1, waiting := some s.accepted } := by
      rw [Step, System.next, if_pos hwaiting]
    obtain ⟨t, hstep, ht⟩ := hstart (serves_accept h haccept) (Option.some_ne_none _) hlock
    exact ⟨[.accept, .start], t, rfl, .cons haccept (.cons hstep (.nil t)), ht⟩
  · obtain ⟨t, hstep, ht⟩ := hstart h hwaiting hlock
    exact ⟨[.start], t, rfl, .cons hstep (.nil t), ht⟩

theorem backward (crypto : PyCrypto) :
    Backward (Step crypto) (ServiceStep crypto) seen Serves where
  realized {s a b f} h hstep := by
    cases f with
    | connect =>
      rw [ServiceStep, Service.next] at hstep
      split at hstep
      · next hsession =>
        cases hstep
        exact starts h hsession
      · cases hstep
    | recv r env =>
      rw [ServiceStep, Service.next] at hstep
      split at hstep
      · next control hsession =>
        split at hstep
        · next hawaits =>
          cases hstep
          obtain ⟨-, c, conn, hc, rfl, -⟩ := h.busy control hsession
          refine ⟨[.recv c r env], _, rfl, .cons ?_ (.nil _), serves_finish h hc hawaits _⟩
          rw [Step, System.next, hc, ← h.world]
          exact if_pos hawaits
        · cases hstep
      · cases hstep

/-- Main theorem: the worlds that the threads of the server reach are those that the service
reaches, whatever the order of their steps. -/
theorem run_serial_iff (crypto : PyCrypto) (w w' : World) (fs : List Request) :
    (∃ es s, Run (Step crypto) (.initial w) es s ∧ es.filterMap seen = fs ∧ s.world = w') ↔
      ∃ a, Run (ServiceStep crypto) (.idle w) fs a ∧ a.world = w' := by
  constructor
  · rintro ⟨es, s, hrun, rfl, rfl⟩
    obtain ⟨a, ha, hserves⟩ := (forward crypto).run (serves_initial w) hrun
    exact ⟨a, ha, hserves.world.symm⟩
  · rintro ⟨a, hrun, rfl⟩
    obtain ⟨es, s, hseen, hes, hserves⟩ := (backward crypto).run (serves_initial w) hrun
    exact ⟨es, s, hes, hseen, hserves.world⟩

end Serving

section Order

theorem numbered_initial (w : World) : Numbered (.initial w) 0 where
  waiting _ h := by cases h
  accepted _ := rfl
  held h := absurd rfl h
  running _ _ h := by cases h

theorem numbered_step {n : ℕ} (hserves : Serves s a) (h : Numbered s n) {e : Event}
    (hstep : Step crypto s e t) : Numbered t (n + if isStart e then 1 else 0) := by
  cases e with
  | accept =>
    obtain ⟨hnone, rfl⟩ := step_accept hstep
    have haccepted := h.accepted hnone
    refine ⟨?_, nofun, fun _ => ?_, h.running⟩
    · rintro c ⟨⟩
      exact haccepted
    · exact congrArg (· + 1) haccepted
  | start =>
    obtain ⟨c, hc, hlock, rfl⟩ := step_start hstep
    have hwaiting : s.waiting ≠ none := by simp [hc]
    refine ⟨nofun, fun _ => h.held hwaiting, fun hno => absurd rfl hno, ?_⟩
    intro d conn hd hawaits
    obtain rfl : d = c := by
      by_contra hne
      dsimp only at hd
      rw [Function.update_of_ne hne] at hd
      have hheld := (session_of_awaits hserves hd hawaits).2.1
      rw [hlock] at hheld
      cases hheld
    exact congrArg (· + 1) (h.waiting d hc)
  | recv c r env =>
    obtain ⟨conn, hc, hawaits, rfl⟩ := step_recv hstep
    refine ⟨?_, ?_, ?_, ?_⟩
    · rw [finish_waiting]
      exact h.waiting
    · rw [finish_waiting, finish_accepted]
      exact h.accepted
    · rw [finish_waiting, finish_accepted]
      exact h.held
    · intro d conn' hd hawaits'
      by_cases hne : d = c
      · subst hne
        exact h.running d conn hc hawaits
      · rw [finish_other hne] at hd
        exact h.running d conn' hd hawaits'

theorem run_numbered {w : World} {es : List Event} (h : Run (Step crypto) (.initial w) es s) :
    Numbered s (es.countP isStart) := by
  induction h with
  | nil => exact numbered_initial w
  | @snoc t u es e hrun hstep ih =>
    obtain ⟨a, -, hserves⟩ := (forward crypto).run (serves_initial w) hrun
    rw [List.countP_append, List.countP_singleton]
    exact numbered_step hserves ih hstep

theorem recv_last {w : World} {es : List Event} {c : ℕ} {r : RecvResult} {env : Env}
    (h : Run (Step crypto) (.initial w) (es ++ [.recv c r env]) s) :
    c + 1 = es.countP isStart := by
  obtain ⟨u, hrun, hstep⟩ := h.last
  obtain ⟨conn, hc, hawaits, -⟩ := step_recv hstep
  exact (run_numbered hrun).running c conn hc hawaits

theorem connection_lt {w : World} {es : List Event} (h : Run (Step crypto) (.initial w) es s)
    {c : ℕ} (hc : c ∈ es.filterMap connection) : c < es.countP isStart := by
  induction h with
  | nil => cases hc
  | @snoc t u es e hrun hstep ih =>
    rw [List.filterMap_append, List.mem_append] at hc
    rw [List.countP_append]
    rcases hc with hc | hc
    · exact Nat.lt_add_right _ (ih hc)
    · cases e with
      | accept => cases hc
      | start => cases hc
      | recv d r env =>
        obtain rfl := List.mem_singleton.mp hc
        have hlast := recv_last (hrun.snoc hstep)
        omega

/-- Main theorem: the connections are served in the order of their acceptance, each up to its
end before the next one is served at all. -/
theorem run_inOrder {w : World} {es : List Event} (h : Run (Step crypto) (.initial w) es s) :
    (es.filterMap connection).Pairwise (· ≤ ·) := by
  induction h with
  | nil => exact .nil
  | @snoc t u es e hrun hstep ih =>
    rw [List.filterMap_append, List.pairwise_append]
    refine ⟨ih, ?_, ?_⟩
    · cases e with
      | accept => exact .nil
      | start => exact .nil
      | recv c r env => exact List.pairwise_singleton _ c
    · intro c hc d hd
      cases e with
      | accept => cases hd
      | start => cases hd
      | recv d' r env =>
        obtain rfl := List.mem_singleton.mp hd
        have hlast := recv_last (hrun.snoc hstep)
        have hlt := connection_lt hrun hc
        omega

theorem run_inOrder_two : ∃ es s, Run (Step .trivial) (.initial .sample) es s ∧
    es.filterMap connection = [0, 1] ∧ (es.filterMap connection).Pairwise (· ≤ ·) := by
  let close (c : ℕ) : List Event := [.accept, .start, .recv c (.chunk []) .undisturbed]
  obtain ⟨s, hrun⟩ : ∃ s, Run (Step .trivial) (.initial .sample) (close 0 ++ close 1) s :=
    ⟨_, Run.of_foldlM rfl⟩
  exact ⟨close 0 ++ close 1, s, hrun, rfl, run_inOrder hrun⟩

end Order

end ServerService
