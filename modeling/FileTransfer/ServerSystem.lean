import FileTransfer.ServerThread
import FileTransfer.StepRun

/-! # The server process: accepting, the lock, and the read threads

`Server.run` accepts a connection, takes the lock and starts a read thread, which is the
only code that gives the lock back. -/
namespace ServerSystem

open ByteField ServerProtocol ServerState ServerThread StepRun

/-- A started read thread; `releases` counts its successful calls of `lock.release`. -/
structure Connection where
  control : Control
  releases : ℕ

/-- `waiting` is the connection that `run` holds at `lock.acquire`. -/
structure System where
  world : World
  lock : Bool
  accepted : ℕ
  waiting : Option ℕ
  thread : ℕ → Option Connection

def System.initial (w : World) : System := ⟨w, false, 0, none, fun _ => none⟩

inductive Event where
  | accept
  | start
  | recv (c : ℕ) (r : RecvResult) (env : Env)

/-- The thread after a step; closing gives the lock back and `release` of a free lock
raises. -/
def System.finish (s : System) (c : ℕ) (conn : Connection) (out : ReadStep) : System :=
  match out.control, s.lock with
  | .closed, true =>
    { s with
      world := out.world, lock := false
      thread := Function.update s.thread c (some ⟨.closed, conn.releases + 1⟩) }
  | .closed, false =>
    { s with
      world := out.world
      thread := Function.update s.thread c (some ⟨.dead none, conn.releases⟩) }
  | control, _ =>
    { s with
      world := out.world
      thread := Function.update s.thread c (some ⟨control, conn.releases⟩) }

def System.next (crypto : PyCrypto) (s : System) : Event → Option System
  | .accept =>
    if s.waiting = none then
      some { s with accepted := s.accepted + 1, waiting := some s.accepted }
    else none
  | .start =>
    match s.waiting, s.lock with
    | some c, false =>
      some { s with
        lock := true, waiting := none
        thread := Function.update s.thread c (some ⟨.reading, 0⟩) }
    | _, _ => none
  | .recv c r env =>
    match s.thread c with
    | some conn =>
      if conn.control.awaits then
        some (s.finish c conn (readStep crypto env s.world conn.control r))
      else none
    | none => none

def Step (crypto : PyCrypto) (s : System) (e : Event) (t : System) : Prop :=
  s.next crypto e = some t

def Reachable (crypto : PyCrypto) (w : World) (s : System) : Prop :=
  ∃ es, Run (Step crypto) (.initial w) es s

def System.served (crypto : PyCrypto) (s : System) (c : ℕ) (r : RecvResult) (env : Env) :
    Option ReadStep :=
  match s.thread c with
  | some conn =>
    if conn.control.awaits then some (readStep crypto env s.world conn.control r) else none
  | none => none

/-- The system after one connection has delivered these chunks and nothing has failed. -/
def System.exchange (crypto : PyCrypto) (w : World) (chunks : List Bytes) : Option System :=
  (.accept :: .start :: chunks.map fun data => .recv 0 (.chunk data) .undisturbed).foldlM
    (System.next crypto) (.initial w)

def System.serving (w : World) : System :=
  ⟨w, true, 1, none, Function.update (fun _ => none) 0 (some ⟨.reading, 0⟩)⟩

def System.lastServed (crypto : PyCrypto) (w : World) (chunks : List Bytes) (data : Bytes) :
    Option (System × ReadStep) :=
  (System.exchange crypto w chunks).bind fun s =>
    (s.served crypto 0 (.chunk data) .undisturbed).map fun out => (s, out)

section Steps

variable {crypto : PyCrypto} {s t : System}

theorem step_accept (h : Step crypto s .accept t) :
    s.waiting = none ∧ t = { s with accepted := s.accepted + 1, waiting := some s.accepted } := by
  simp only [Step, System.next] at h
  split at h
  · exact ⟨‹_›, (Option.some.inj h).symm⟩
  · cases h

theorem step_start (h : Step crypto s .start t) : ∃ c, s.waiting = some c ∧ s.lock = false ∧
    t = { s with
      lock := true, waiting := none
      thread := Function.update s.thread c (some ⟨.reading, 0⟩) } := by
  simp only [Step, System.next] at h
  split at h
  · next c hw hl => exact ⟨c, hw, hl, (Option.some.inj h).symm⟩
  · cases h

theorem step_recv {c : ℕ} {r : RecvResult} {env : Env} (h : Step crypto s (.recv c r env) t) :
    ∃ conn, s.thread c = some conn ∧ conn.control.awaits = true ∧
      t = s.finish c conn (readStep crypto env s.world conn.control r) := by
  simp only [Step, System.next] at h
  split at h
  · next conn hc =>
    split at h
    · next ha => exact ⟨conn, hc, ha, (Option.some.inj h).symm⟩
    · cases h
  · cases h

theorem served_eq_some {c : ℕ} {r : RecvResult} {env : Env} {out : ReadStep}
    (h : s.served crypto c r env = some out) : ∃ conn, s.thread c = some conn ∧
      conn.control.awaits = true ∧ out = readStep crypto env s.world conn.control r := by
  unfold System.served at h
  split at h
  · next conn hc =>
    split at h
    · next ha => exact ⟨conn, hc, ha, (Option.some.inj h).symm⟩
    · cases h
  · cases h

theorem lastServed_eq_some {w : World} {chunks : List Bytes} {data : Bytes} {out : ReadStep}
    (h : System.lastServed crypto w chunks data = some (s, out)) :
    Reachable crypto w s ∧ s.served crypto 0 (.chunk data) .undisturbed = some out := by
  obtain ⟨t, ht, hserved⟩ := Option.bind_eq_some_iff.mp h
  obtain ⟨out', hout, heq⟩ := Option.map_eq_some_iff.mp hserved
  cases heq
  exact ⟨⟨_, Run.of_foldlM ht⟩, hout⟩

variable {c : ℕ} {conn : Connection} {out : ReadStep}

@[simp] theorem finish_world : (s.finish c conn out).world = out.world := by
  unfold System.finish; split <;> rfl

@[simp] theorem finish_accepted : (s.finish c conn out).accepted = s.accepted := by
  unfold System.finish; split <;> rfl

@[simp] theorem finish_waiting : (s.finish c conn out).waiting = s.waiting := by
  unfold System.finish; split <;> rfl

theorem finish_other {d : ℕ} (h : d ≠ c) : (s.finish c conn out).thread d = s.thread d := by
  unfold System.finish; split <;> exact Function.update_of_ne h ..

theorem finish_self_live (s : System) (c : ℕ) (conn : Connection) (h : out.control ≠ .closed) :
    (s.finish c conn out).thread c = some ⟨out.control, conn.releases⟩ ∧
      (s.finish c conn out).lock = s.lock := by
  unfold System.finish
  split
  · next hc _ => exact absurd hc h
  · next hc _ => exact absurd hc h
  · exact ⟨Function.update_self .., rfl⟩

theorem finish_self_closed (c : ℕ) (conn : Connection) (h : out.control = .closed)
    (hl : s.lock = true) :
    (s.finish c conn out).thread c = some ⟨.closed, conn.releases + 1⟩ ∧
      (s.finish c conn out).lock = false := by
  unfold System.finish
  rw [h, hl]
  exact ⟨Function.update_self .., rfl⟩

end Steps

end ServerSystem
