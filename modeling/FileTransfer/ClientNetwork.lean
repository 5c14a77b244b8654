import FileTransfer.ConnectionScript
import FileTransfer.LockRelease
import FileTransfer.ServerService
import FileTransfer.TransferIntegrity

/-! # Many clients and the server

Clients connect in any number and run on at any time; the server accepts them in turn. What
a client and its read thread do is a run of the two alone, on the world that the thread was
started with. -/
namespace ClientNetwork

open ByteField ServerProtocol ServerState ServerHandlers ServerThread ServerSystem ClientFile
  ClientLogic StepRun TransferSession
open LockRelease (Fresh run_fresh)
open TransferIntegrity (Laws Sendable Clean CleanStep ReportsSuccess OnDisk Phase)

section Definitions

structure Origin where
  name : Bytes
  id : ClientId
  publicKey : Field publicKeySize
  symmetricKey : Field symmetricKeySize
  fileToSend : Bytes
  file : Bytes
  isRegistered : Bool
  beyond : ℕ → UInt8
  delivered : ℕ

def Origin.client (o : Origin) : Client :=
  .opened o.name o.id o.publicKey o.symmetricKey o.fileToSend o.file

def Origin.start (o : Origin) (w : World) : Transfer :=
  .start o.client o.isRegistered w o.beyond o.delivered

structure Peer where
  origin : Origin
  client : Client
  toServer : Bytes
  toClient : List Bytes
  served : List (Request × List Response)

def Peer.of (o : Origin) (t : Transfer) : Peer := ⟨o, t.client, t.toServer, t.toClient, t.served⟩

def Peer.transfer (p : Peer) (thread : ServerThread.Control) (w : World) : Transfer :=
  ⟨p.client, thread, w, p.toServer, p.toClient, p.served⟩

/-- The peers have the numbers of their connections. -/
structure Network where
  system : System
  peers : List Peer

def Network.initial (w : World) : Network := ⟨.initial w, []⟩

inductive Event where
  | connect (o : Origin)
  | accept
  | start
  | transfer (i : ℕ) (e : TransferSession.Event)

/-- Where the thread of a connection stands, or will stand when it is started. -/
def threadOf (s : System) (i : ℕ) : ServerThread.Control :=
  match s.thread i with
  | some conn => conn.control
  | none => .reading

def Network.view (N : Network) (i : ℕ) (p : Peer) : Transfer :=
  p.transfer (threadOf N.system i) N.system.world

def recvOf (t : Transfer) : TransferSession.Event → Option (RecvResult × Env)
  | .read _ _ _ => none
  | .recv n env => some (.chunk (t.toServer.take n), env)
  | .recvEnds env => some (.chunk [], env)
  | .recvRaises env => some (.raises, env)

variable (cpp : CppCrypto) (py : PyCrypto)

/-- A read thread that is not started yet receives nothing. -/
def Network.receive (N : Network) (i : ℕ) (t : Transfer) (e : TransferSession.Event) :
    Option System :=
  match recvOf t e with
  | none => some N.system
  | some (r, env) => N.system.next py (.recv i r env)

def Network.next (N : Network) : Event → Option Network
  | .connect o => some { N with peers := N.peers ++ [.of o (o.start N.system.world)] }
  | .accept =>
    if N.system.accepted < N.peers.length then
      (N.system.next py .accept).map fun s => { N with system := s }
    else none
  | .start => (N.system.next py .start).map fun s => { N with system := s }
  | .transfer i e =>
    match N.peers[i]? with
    | none => none
    | some p =>
      match (N.view i p).next cpp py e, N.receive py i (N.view i p) e with
      | some t, some s => some ⟨s, N.peers.set i (.of p.origin t)⟩
      | _, _ => none

def Obeys (ok : Transfer → TransferSession.Event → Prop) (N : Network) : Event → Prop
  | .transfer i e => ∀ p, N.peers[i]? = some p → ok (N.view i p) e
  | _ => True

def NetworkStep (ok : Transfer → TransferSession.Event → Prop) (N : Network) (e : Event)
    (N' : Network) : Prop := N.next cpp py e = some N' ∧ Obeys ok N e

def own (i : ℕ) : Event → Option TransferSession.Event
  | .transfer j e => if j = i then some e else none
  | _ => none

def OkStep (ok : Transfer → TransferSession.Event → Prop) (t : Transfer)
    (e : TransferSession.Event) (t' : Transfer) : Prop := TransferStep cpp py t e t' ∧ ok t e

/-- One thread at most has not closed its connection, and it holds the lock. -/
structure Exclusive (s : System) : Prop where
  held : ∀ c conn, s.thread c = some conn → conn.control ≠ .closed → s.lock = true
  single : ∀ c conn d conn', s.thread c = some conn → conn.control ≠ .closed →
    s.thread d = some conn' → conn'.control ≠ .closed → d = c

/-- The connection is a run of the client and its thread alone; before its thread is started
the world does not matter, and after it has closed the world goes on without it. -/
structure Alone (ok : Transfer → TransferSession.Event → Prop) (es : List Event) (N : Network)
    (i : ℕ) (p : Peer) : Prop where
  unstarted : N.system.thread i = none → ∀ w,
    Run (OkStep cpp py ok) (p.origin.start w) (es.filterMap (own i)) (p.transfer .reading w)
  started : ∀ conn, N.system.thread i = some conn → ∃ w w',
    Run (OkStep cpp py ok) (p.origin.start w) (es.filterMap (own i))
      (p.transfer conn.control w') ∧ (conn.control ≠ .closed → w' = N.system.world)

structure Invariant (ok : Transfer → TransferSession.Event → Prop) (es : List Event)
    (N : Network) : Prop where
  fresh : Fresh N.system
  exclusive : Exclusive N.system
  accepted : N.system.accepted ≤ N.peers.length
  unconnected : ∀ i, N.peers.length ≤ i → es.filterMap (own i) = []
  alone : ∀ i p, N.peers[i]? = some p → Alone cpp py ok es N i p

end Definitions

variable {cpp : CppCrypto} {py : PyCrypto} {ok : Transfer → TransferSession.Event → Prop}
  {N N' : Network} {s s' : System} {i : ℕ} {p : Peer} {w : World}

section Steps

theorem step_connect {o : Origin} (h : NetworkStep cpp py ok N (.connect o) N') :
    N' = { N with peers := N.peers ++ [.of o (o.start N.system.world)] } :=
  (Option.some.inj h.1).symm

theorem step_accept (h : NetworkStep cpp py ok N .accept N') :
    N.system.accepted < N.peers.length ∧ Step py N.system .accept N'.system ∧
      N'.peers = N.peers := by
  obtain ⟨hnext, -⟩ := h
  unfold Network.next at hnext
  dsimp only at hnext
  split at hnext
  · next hlt =>
    obtain ⟨s, hs, rfl⟩ := Option.map_eq_some_iff.mp hnext
    exact ⟨hlt, hs, rfl⟩
  · cases hnext

theorem step_start (h : NetworkStep cpp py ok N .start N') :
    Step py N.system .start N'.system ∧ N'.peers = N.peers := by
  obtain ⟨s, hs, rfl⟩ := Option.map_eq_some_iff.mp h.1
  exact ⟨hs, rfl⟩

theorem step_transfer {e : TransferSession.Event}
    (h : NetworkStep cpp py ok N (.transfer i e) N') : ∃ p t, N.peers[i]? = some p ∧
      OkStep cpp py ok (N.view i p) e t ∧ N.receive py i (N.view i p) e = some N'.system ∧
      N'.peers = N.peers.set i (.of p.origin t) := by
  obtain ⟨hnext, hok⟩ := h
  unfold Network.next at hnext
  dsimp only at hnext
  split at hnext
  · cases hnext
  · next p hp =>
    split at hnext
    · next t s ht hs =>
      cases hnext
      exact ⟨p, t, hp, ⟨ht, hok p hp⟩, hs, rfl⟩
    · cases hnext

theorem receive_cases {t : Transfer} {e : TransferSession.Event} (h : N.receive py i t e = some s) :
    recvOf t e = none ∧ s = N.system ∨
      ∃ r env, recvOf t e = some (r, env) ∧ Step py N.system (.recv i r env) s := by
  unfold Network.receive at h
  split at h
  · next hnone =>
    cases h
    exact .inl ⟨hnone, rfl⟩
  · next r env hsome => exact .inr ⟨r, env, hsome, h⟩

end Steps

section Exclusion

theorem exclusive_initial (w : World) : Exclusive (.initial w) where
  held _ _ h := by cases h
  single _ _ _ _ h := by cases h

theorem exclusive_step {e : ServerSystem.Event} (h : Exclusive s) (hstep : Step py s e s') :
    Exclusive s' := by
  cases e with
  | accept =>
    obtain ⟨-, rfl⟩ := ServerSystem.step_accept hstep
    exact ⟨h.held, h.single⟩
  | start =>
    obtain ⟨c, -, hlock, rfl⟩ := ServerSystem.step_start hstep
    have honly : ∀ d conn, Function.update s.thread c (some ⟨.reading, 0⟩) d = some conn →
        conn.control ≠ .closed → d = c := by
      intro d conn hd hopen
      by_contra hne
      rw [Function.update_of_ne hne] at hd
      have hheld := h.held d conn hd hopen
      rw [hlock] at hheld
      cases hheld
    refine ⟨fun _ _ _ _ => rfl, fun d conn d' conn' hd hopen hd' hopen' => ?_⟩
    rw [honly d conn hd hopen, honly d' conn' hd' hopen']
  | recv c r env =>
    obtain ⟨conn, hc, hawaits, rfl⟩ := ServerSystem.step_recv hstep
    have hopen : conn.control ≠ .closed := by
      intro hclosed
      rw [hclosed] at hawaits
      cases hawaits
    have hlock := h.held c conn hc hopen
    generalize readStep py env s.world conn.control r = out
    have hother : ∀ d conn', (s.finish c conn out).thread d = some conn' →
        conn'.control ≠ .closed → d = c := by
      intro d conn' hd hopen'
      by_contra hne
      rw [finish_other hne] at hd
      exact hne (h.single c conn d conn' hc hopen hd hopen')
    refine ⟨fun d conn' hd hopen' => ?_, fun d conn₁ d' conn₂ hd hopen₁ hd' hopen₂ => ?_⟩
    · obtain rfl := hother d conn' hd hopen'
      by_cases hclosed : out.control = .closed
      · rw [(finish_self_closed d conn hclosed hlock).1] at hd
        cases hd
        exact absurd rfl hopen'
      · rw [(finish_self_live s d conn hclosed).2]
        exact hlock
    · rw [hother d conn₁ hd hopen₁, hother d' conn₂ hd' hopen₂]

end Exclusion

section Worlds

variable {t t' : Transfer} {e : TransferSession.Event} {o : Origin}

theorem start_world (o : Origin) (w : World) :
    o.start w = (Peer.of o (o.start .sample)).transfer .reading w := by
  unfold Origin.start Transfer.start Transfer.react
  split <;> rfl

theorem peer_start (o : Origin) (w w' : World) :
    (Peer.of o (o.start w)).transfer .reading w' = o.start w' := by
  rw [start_world o w, start_world o w']
  rfl

theorem react_world (t : Transfer) (w : World) (r : Reaction) (beyond : ℕ → UInt8)
    (delivered : ℕ) :
    Transfer.react { t with world := w } r beyond delivered =
      { t.react r beyond delivered with world := w } := by
  unfold Transfer.react
  split <;> rfl

theorem read_world {fails : Bool} {beyond : ℕ → UInt8} {delivered : ℕ}
    (h : TransferStep cpp py t (.read fails beyond delivered) t') (w : World) :
    TransferStep cpp py { t with world := w } (.read fails beyond delivered)
      { t' with world := w } := by
  unfold TransferStep Transfer.next at h ⊢
  dsimp only at h ⊢
  split at h
  · next hawaits =>
    rw [if_pos hawaits]
    split at h
    · next hfails =>
      cases h
      rw [if_pos hfails, react_world]
    · next hfails =>
      rw [if_neg hfails]
      split at h
      · cases h
      · next packet toClient hpacket =>
        cases h
        exact congrArg some (react_world { t with toClient } w _ _ _)
  · cases h

theorem read_leaves {fails : Bool} {beyond : ℕ → UInt8} {delivered : ℕ}
    (h : TransferStep cpp py t (.read fails beyond delivered) t') :
    t'.thread = t.thread ∧ t'.world = t.world := by
  obtain ⟨-, packet, toClient, -, rfl⟩ := step_read h
  refine ⟨(react_leaves _ _ _ _).1, ?_⟩
  unfold Transfer.react
  split <;> rfl

theorem read_toClient {fails : Bool} {beyond : ℕ → UInt8} {delivered : ℕ}
    (h : TransferStep cpp py t (.read fails beyond delivered) t') :
    ∀ packet ∈ t'.toClient, packet ∈ t.toClient := by
  intro q hq
  unfold TransferStep Transfer.next at h
  dsimp only at h
  split at h
  · split at h
    · cases h
      rwa [(react_leaves _ _ _ _).2.1] at hq
    · split at h
      · cases h
      · next packet toClient hpacket =>
        cases h
        rw [(react_leaves _ _ _ _).2.1] at hq
        rw [hpacket]
        exact List.mem_cons_of_mem packet hq
  · cases h

theorem recv_leaves {r : RecvResult} {env : Env} (hrecv : recvOf t e = some (r, env))
    (h : TransferStep cpp py t e t') : t.thread.awaits = true ∧
      t'.thread = (readStep py env t.world t.thread r).control ∧
      t'.world = (readStep py env t.world t.thread r).world := by
  cases e with
  | read fails beyond delivered => cases hrecv
  | recv n env =>
    cases hrecv
    obtain ⟨hawaits, -, -, -, rfl⟩ := TransferSession.step_recv h
    exact ⟨hawaits, rfl, rfl⟩
  | recvEnds env =>
    cases hrecv
    obtain ⟨hawaits, -, -, rfl⟩ := step_recvEnds h
    exact ⟨hawaits, rfl, rfl⟩
  | recvRaises env =>
    cases hrecv
    obtain ⟨hawaits, rfl⟩ := step_recvRaises h
    exact ⟨hawaits, rfl, rfl⟩

theorem finish_held {c : ℕ} {conn : Connection} (hlock : s.lock = true) (out : ReadStep) :
    ∃ releases, (s.finish c conn out).thread c = some ⟨out.control, releases⟩ ∧
      (out.control ≠ .closed → (s.finish c conn out).lock = true) := by
  by_cases hclosed : out.control = .closed
  · obtain ⟨hself, -⟩ := finish_self_closed c conn hclosed hlock
    rw [hclosed]
    exact ⟨_, hself, fun hopen => absurd rfl hopen⟩
  · obtain ⟨hself, hheld⟩ := finish_self_live s c conn hclosed
    exact ⟨_, hself, fun _ => hheld.trans hlock⟩

end Worlds

section Alone

variable {es : List Event} {e : TransferSession.Event}

theorem own_self (i : ℕ) (e : TransferSession.Event) (es : List Event) :
    (es ++ [Event.transfer i e]).filterMap (own i) = es.filterMap (own i) ++ [e] := by
  simp [own]

theorem own_other {e : Event} (h : own i e = none) (es : List Event) :
    (es ++ [e]).filterMap (own i) = es.filterMap (own i) := by
  simp [h]

/-- A step elsewhere keeps the thread, and the world of a thread that has not closed. -/
theorem alone_frame {e : Event} (h : Alone cpp py ok es N i p) (hown : own i e = none)
    (hthread : N'.system.thread i = N.system.thread i)
    (hworld : ∀ conn, N.system.thread i = some conn → conn.control ≠ .closed →
      N'.system.world = N.system.world) : Alone cpp py ok (es ++ [e]) N' i p := by
  refine ⟨fun hnone w => ?_, fun conn hconn => ?_⟩
  · rw [own_other hown]
    exact h.unstarted (hthread ▸ hnone) w
  · rw [hthread] at hconn
    obtain ⟨w, w', hrun, hsame⟩ := h.started conn hconn
    rw [own_other hown]
    exact ⟨w, w', hrun, fun hopen => (hsame hopen).trans (hworld conn hconn hopen).symm⟩

theorem view_unstarted (h : N.system.thread i = none) (p : Peer) :
    N.view i p = p.transfer .reading N.system.world := by
  rw [Network.view, threadOf, h]

theorem view_started {conn : Connection} (h : N.system.thread i = some conn) (p : Peer) :
    N.view i p = p.transfer conn.control N.system.world := by
  rw [Network.view, threadOf, h]

theorem alone_read {t : Transfer} (hok : ∀ t w fails beyond delivered,
      ok t (.read fails beyond delivered) → ok { t with world := w } (.read fails beyond delivered))
    (h : Alone cpp py ok es N i p) (hstep : OkStep cpp py ok (N.view i p) e t)
    (hread : recvOf (N.view i p) e = none) (hsystem : N'.system = N.system) :
    Alone cpp py ok (es ++ [Event.transfer i e]) N' i (.of p.origin t) := by
  obtain ⟨fails, beyond, delivered, rfl⟩ : ∃ fails beyond delivered,
      e = .read fails beyond delivered := by
    cases e with
    | read fails beyond delivered => exact ⟨_, _, _, rfl⟩
    | recv n env => cases hread
    | recvEnds env => cases hread
    | recvRaises env => cases hread
  obtain ⟨hnext, hokay⟩ := hstep
  obtain ⟨hthread, hworld⟩ := read_leaves hnext
  have hlast : ∀ w, OkStep cpp py ok (p.transfer (threadOf N.system i) w)
      (.read fails beyond delivered)
      ((Peer.of p.origin t).transfer (threadOf N.system i) w) := by
    intro w
    refine ⟨?_, hok _ w _ _ _ hokay⟩
    have hmoved := read_world hnext w
    have hsame : (Peer.of p.origin t).transfer (threadOf N.system i) w =
        { t with world := w } := by
      rw [show threadOf N.system i = t.thread from hthread.symm]
      rfl
    rw [hsame]
    exact hmoved
  refine ⟨fun hnone w => ?_, fun conn hconn => ?_⟩
  · rw [hsystem] at hnone
    have hreading : threadOf N.system i = .reading := by rw [threadOf, hnone]
    have hstep := hlast w
    rw [hreading] at hstep
    rw [own_self]
    exact (h.unstarted hnone w).snoc hstep
  · rw [hsystem] at hconn
    have hcontrol : threadOf N.system i = conn.control := by rw [threadOf, hconn]
    obtain ⟨w, w', hrun, hsame⟩ := h.started conn hconn
    have hstep := hlast w'
    rw [hcontrol] at hstep
    rw [own_self, hsystem]
    exact ⟨w, w', hrun.snoc hstep, hsame⟩

theorem alone_recv {t : Transfer} {r : RecvResult} {env : Env} (hexclusive : Exclusive N.system)
    (h : Alone cpp py ok es N i p) (hstep : OkStep cpp py ok (N.view i p) e t)
    (hrecv : recvOf (N.view i p) e = some (r, env))
    (hsystem : Step py N.system (.recv i r env) N'.system) :
    Alone cpp py ok (es ++ [Event.transfer i e]) N' i (.of p.origin t) := by
  obtain ⟨conn, hconn, hawaits, hfinish⟩ := ServerSystem.step_recv hsystem
  have hopen : conn.control ≠ .closed := by
    intro hclosed
    rw [hclosed] at hawaits
    cases hawaits
  have hlock := hexclusive.held i conn hconn hopen
  obtain ⟨w, w', hrun, hsame⟩ := h.started conn hconn
  obtain ⟨-, hthread, hworld⟩ := recv_leaves hrecv hstep.1
  rw [hsame hopen] at hrun
  rw [view_started hconn] at hstep hthread hworld
  have hrun' := hrun.snoc hstep
  obtain ⟨releases, hself, -⟩ := @finish_held N.system i conn hlock
    (readStep py env N.system.world conn.control r)
  rw [← hfinish] at hself
  refine ⟨fun hnone => ?_, fun conn' hconn' => ?_⟩
  · cases hself.symm.trans hnone
  · cases hself.symm.trans hconn'
    rw [own_self]
    refine ⟨w, t.world, ?_, fun _ => ?_⟩
    · rw [show (readStep py env N.system.world conn.control r).control = t.thread from hthread.symm]
      exact hrun'
    · rw [hfinish, finish_world]
      exact hworld

/-- The conditions on a connection do not look at the world in which its client reads. -/
def ReadsAnywhere (ok : Transfer → TransferSession.Event → Prop) : Prop :=
  ∀ t w fails beyond delivered, ok t (.read fails beyond delivered) →
    ok { t with world := w } (.read fails beyond delivered)

theorem initial_invariant (w : World) : Invariant cpp py ok [] (.initial w) where
  fresh := (LockRelease.initial_invariant w).fresh
  exclusive := exclusive_initial w
  accepted := le_rfl
  unconnected _ _ := rfl
  alone _ _ h := by cases h

theorem connect_invariant {o : Origin} (h : Invariant cpp py ok es N)
    (hstep : NetworkStep cpp py ok N (.connect o) N') :
    Invariant cpp py ok (es ++ [.connect o]) N' := by
  obtain rfl := step_connect hstep
  have haccepted := h.accepted
  refine ⟨h.fresh, h.exclusive, ?_, fun i hi => ?_, fun i p hp => ?_⟩
  · rw [List.length_append]
    exact Nat.le_add_right_of_le haccepted
  · rw [List.length_append] at hi
    rw [own_other rfl]
    exact h.unconnected i (by omega)
  · by_cases hlt : i < N.peers.length
    · dsimp only at hp
      rw [List.getElem?_append_left hlt] at hp
      exact alone_frame (h.alone i p hp) rfl rfl fun _ _ _ => rfl
    · dsimp only at hp
      rw [List.getElem?_append_right (by omega)] at hp
      obtain rfl := List.mem_singleton.mp (List.mem_of_getElem? hp)
      have hnone := h.fresh.unused i (by omega)
      refine ⟨fun _ w => ?_, fun conn hconn => ?_⟩
      · rw [own_other rfl, h.unconnected i (by omega), peer_start]
        exact .nil _
      · cases hnone.symm.trans hconn

theorem accept_invariant (h : Invariant cpp py ok es N)
    (hstep : NetworkStep cpp py ok N .accept N') :
    Invariant cpp py ok (es ++ [.accept]) N' := by
  obtain ⟨hlt, hsystem, hpeers⟩ := step_accept hstep
  have hfresh := LockRelease.step_fresh hsystem h.fresh
  have hexclusive := exclusive_step h.exclusive hsystem
  obtain ⟨-, haccepted⟩ := ServerSystem.step_accept hsystem
  refine ⟨hfresh, hexclusive, ?_, fun i hi => ?_, fun i p hp => ?_⟩
  · rw [hpeers, haccepted]
    exact hlt
  · rw [hpeers] at hi
    rw [own_other rfl]
    exact h.unconnected i hi
  · rw [hpeers] at hp
    refine alone_frame (h.alone i p hp) rfl ?_ fun _ _ _ => ?_
    · rw [haccepted]
    · rw [haccepted]

theorem start_invariant (h : Invariant cpp py ok es N) (hstep : NetworkStep cpp py ok N .start N') :
    Invariant cpp py ok (es ++ [.start]) N' := by
  obtain ⟨hsystem, hpeers⟩ := step_start hstep
  have hfresh := LockRelease.step_fresh hsystem h.fresh
  have hexclusive := exclusive_step h.exclusive hsystem
  obtain ⟨c, hwaiting, -, hstarted⟩ := ServerSystem.step_start hsystem
  have hnone := (h.fresh.waiting c hwaiting).1
  refine ⟨hfresh, hexclusive, ?_, fun i hi => ?_, fun i p hp => ?_⟩
  · rw [hpeers, hstarted]
    exact h.accepted
  · rw [hpeers] at hi
    rw [own_other rfl]
    exact h.unconnected i hi
  · rw [hpeers] at hp
    have halone := h.alone i p hp
    by_cases hc : i = c
    · subst hc
      have hthread : N'.system.thread i = some ⟨.reading, 0⟩ := by
        rw [hstarted]
        exact Function.update_self ..
      refine ⟨fun hno => ?_, fun conn hconn => ?_⟩
      · rw [hthread] at hno
        cases hno
      · rw [hthread] at hconn
        cases hconn
        rw [own_other rfl]
        exact ⟨N.system.world, N.system.world, halone.unstarted hnone _, fun _ => by rw [hstarted]⟩
    · refine alone_frame halone rfl ?_ fun _ _ _ => ?_
      · rw [hstarted]
        exact Function.update_of_ne hc ..
      · rw [hstarted]

theorem own_elsewhere {j : ℕ} (h : i ≠ j) (e : TransferSession.Event) :
    own i (.transfer j e) = none := if_neg (Ne.symm h)

/-- A step of a connection is none of the others' business: one that has not closed would be
the one that holds the lock. -/
theorem receive_frame {j : ℕ} {t : Transfer} (hfresh : Fresh N.system)
    (hexclusive : Exclusive N.system) (h : N.receive py j t e = some s) :
    Fresh s ∧ Exclusive s ∧ s.accepted = N.system.accepted ∧ ∀ i, i ≠ j →
      s.thread i = N.system.thread i ∧ ∀ conn, N.system.thread i = some conn →
        conn.control ≠ .closed → s.world = N.system.world := by
  rcases receive_cases h with ⟨-, rfl⟩ | ⟨r, env, -, hstep⟩
  · exact ⟨hfresh, hexclusive, rfl, fun _ _ => ⟨rfl, fun _ _ _ => rfl⟩⟩
  · refine ⟨LockRelease.step_fresh hstep hfresh, exclusive_step hexclusive hstep, ?_⟩
    obtain ⟨conn, hconn, hawaits, rfl⟩ := ServerSystem.step_recv hstep
    refine ⟨finish_accepted, fun i hne => ⟨finish_other hne, fun conn' hconn' hopen => ?_⟩⟩
    have hopen' : conn.control ≠ .closed := by
      intro hclosed
      rw [hclosed] at hawaits
      cases hawaits
    exact absurd (hexclusive.single j conn i conn' hconn hopen' hconn' hopen) hne

theorem transfer_invariant {j : ℕ} (hok : ReadsAnywhere ok) (h : Invariant cpp py ok es N)
    (hstep : NetworkStep cpp py ok N (.transfer j e) N') :
    Invariant cpp py ok (es ++ [.transfer j e]) N' := by
  obtain ⟨p, t, hp, hview, hreceive, hpeers⟩ := step_transfer hstep
  have hlt : j < N.peers.length := (List.getElem?_eq_some_iff.mp hp).1
  obtain ⟨hfresh, hexclusive, haccepted, hframe⟩ := receive_frame h.fresh h.exclusive hreceive
  refine ⟨hfresh, hexclusive, ?_, fun i hi => ?_, fun i q hq => ?_⟩
  · rw [haccepted, hpeers, List.length_set]
    exact h.accepted
  · rw [hpeers, List.length_set] at hi
    rw [own_other (own_elsewhere (by omega) e)]
    exact h.unconnected i hi
  · rw [hpeers, List.getElem?_set] at hq
    by_cases hij : j = i
    · subst hij
      rw [if_pos rfl, if_pos hlt] at hq
      cases hq
      rcases receive_cases hreceive with ⟨hread, hsame⟩ | ⟨r, env, hrecv, hsystem⟩
      · exact alone_read hok (h.alone j p hp) hview hread hsame
      · exact alone_recv h.exclusive (h.alone j p hp) hview hrecv hsystem
    · rw [if_neg hij] at hq
      obtain ⟨hthread, hworld⟩ := hframe i (Ne.symm hij)
      exact alone_frame (h.alone i q hq) (own_elsewhere (Ne.symm hij) e) hthread hworld

theorem run_invariant (hok : ReadsAnywhere ok) {es : List Event}
    (h : Run (NetworkStep cpp py ok) (.initial w) es N) : Invariant cpp py ok es N := by
  induction h with
  | nil => exact initial_invariant w
  | @snoc M N es e _ hstep ih =>
    cases e with
    | connect o => exact connect_invariant ih hstep
    | accept => exact accept_invariant ih hstep
    | start => exact start_invariant ih hstep
    | transfer i e => exact transfer_invariant hok ih hstep

end Alone

section Realized

variable {t t' : Transfer} {e : TransferSession.Event}

structure Runs (N : Network) (i : ℕ) (p : Peer) (t : Transfer) : Prop where
  peer : N.peers[i]? = some p
  view : N.view i p = t
  started : ∃ conn, N.system.thread i = some conn ∧
    (conn.control.awaits = true → N.system.lock = true)

theorem runs_read {fails : Bool} {beyond : ℕ → UInt8} {delivered : ℕ} (h : Runs N i p t)
    (hstep : OkStep cpp py ok t (.read fails beyond delivered) t') :
    ∃ N', NetworkStep cpp py ok N (.transfer i (.read fails beyond delivered)) N' ∧
      Runs N' i (.of p.origin t') t' := by
  obtain ⟨hpeer, rfl, hstarted⟩ := h
  obtain ⟨hnext, hokay⟩ := hstep
  have hlt : i < N.peers.length := (List.getElem?_eq_some_iff.mp hpeer).1
  obtain ⟨hthread, hworld⟩ := read_leaves hnext
  refine ⟨⟨N.system, N.peers.set i (.of p.origin t')⟩, ⟨?_, ?_⟩, ?_, ?_, hstarted⟩
  · simp only [Network.next, hpeer, Network.receive, recvOf]
    rw [hnext]
  · rintro q hq
    cases hpeer.symm.trans hq
    exact hokay
  · rw [List.getElem?_set_self hlt]
  · show (Peer.of p.origin t').transfer (threadOf N.system i) N.system.world = t'
    rw [show threadOf N.system i = t'.thread from hthread.symm,
      show N.system.world = t'.world from hworld.symm]
    rfl

theorem runs_recv {r : RecvResult} {env : Env} (h : Runs N i p t)
    (hrecv : recvOf t e = some (r, env)) (hstep : OkStep cpp py ok t e t') :
    ∃ N', NetworkStep cpp py ok N (.transfer i e) N' ∧ Runs N' i (.of p.origin t') t' := by
  obtain ⟨hpeer, rfl, conn, hconn, hlock⟩ := h
  obtain ⟨hnext, hokay⟩ := hstep
  have hlt : i < N.peers.length := (List.getElem?_eq_some_iff.mp hpeer).1
  obtain ⟨hawaits, hthread, hworld⟩ := recv_leaves hrecv hnext
  rw [view_started hconn] at hawaits hthread hworld
  have hnext' : N.system.next py (.recv i r env) = some (N.system.finish i conn
      (readStep py env N.system.world conn.control r)) := by
    rw [System.next, hconn]
    exact if_pos hawaits
  obtain ⟨releases, hself, hheld⟩ := @finish_held N.system i conn (hlock hawaits)
    (readStep py env N.system.world conn.control r)
  refine ⟨⟨N.system.finish i conn (readStep py env N.system.world conn.control r),
    N.peers.set i (.of p.origin t')⟩, ⟨?_, ?_⟩, ?_, ?_, ⟨_, hself, ?_⟩⟩
  · simp only [Network.next, hpeer, Network.receive, hrecv, hnext']
    rw [hnext]
  · rintro q hq
    cases hpeer.symm.trans hq
    exact hokay
  · rw [List.getElem?_set_self hlt]
  · rw [view_started hself, finish_world]
    show (Peer.of p.origin t').transfer _ _ = t'
    rw [show (readStep py env N.system.world conn.control r).control = t'.thread from hthread.symm,
      show (readStep py env N.system.world conn.control r).world = t'.world from hworld.symm]
    rfl
  · intro hlive
    refine hheld fun hclosed => ?_
    rw [hclosed] at hlive
    cases hlive

theorem runs_step (h : Runs N i p t) (hstep : OkStep cpp py ok t e t') :
    ∃ N', NetworkStep cpp py ok N (.transfer i e) N' ∧ Runs N' i (.of p.origin t') t' := by
  cases hrecv : recvOf t e with
  | none =>
    cases e with
    | read fails beyond delivered => exact runs_read h hstep
    | recv n env => cases hrecv
    | recvEnds env => cases hrecv
    | recvRaises env => cases hrecv
  | some result => exact runs_recv h hrecv hstep

theorem runs_run {es : List TransferSession.Event} (h : Runs N i p t)
    (hrun : Run (OkStep cpp py ok) t es t') : ∃ N' p', Run (NetworkStep cpp py ok) N
      (es.map (.transfer i)) N' ∧ p'.origin = p.origin ∧ Runs N' i p' t' := by
  induction hrun with
  | nil => exact ⟨N, p, .nil N, rfl, h⟩
  | @snoc t u es e _ hstep ih =>
    obtain ⟨M, q, hM, horigin, hq⟩ := ih
    obtain ⟨N', hN', hruns⟩ := runs_step hq hstep
    rw [List.map_append]
    exact ⟨N', .of q.origin u, hM.snoc hN', horigin, hruns⟩

theorem runs_started {o : Origin} (hpeer : N.peers[i]? = some (.of o (o.start w)))
    (hwaiting : N.system.waiting = some i) (hlock : N.system.lock = false) :
    ∃ N', NetworkStep cpp py ok N .start N' ∧
      Runs N' i (.of o (o.start w)) (o.start N.system.world) := by
  have hreading : Function.update N.system.thread i (some ⟨.reading, 0⟩) i =
      some ⟨.reading, 0⟩ := Function.update_self ..
  refine ⟨⟨{ N.system with
      lock := true, waiting := none
      thread := Function.update N.system.thread i (some ⟨.reading, 0⟩) }, N.peers⟩,
    ⟨?_, trivial⟩, hpeer, ?_, _, hreading, fun _ => rfl⟩
  · rw [Network.next, System.next, hwaiting, hlock]
    rfl
  · rw [view_started hreading]
    exact peer_start o w N.system.world

theorem transfer_realized {o : Origin} {es : List TransferSession.Event}
    (hpeer : N.peers[i]? = some (.of o (o.start w))) (hwaiting : N.system.waiting = some i)
    (hlock : N.system.lock = false) (h : Run (OkStep cpp py ok) (o.start N.system.world) es t) :
    ∃ N' p, Run (NetworkStep cpp py ok) N (.start :: es.map (.transfer i)) N' ∧ p.origin = o ∧
      Runs N' i p t := by
  obtain ⟨M, hM, hruns⟩ := @runs_started cpp py ok N i w o hpeer hwaiting hlock
  obtain ⟨N', p, hN, horigin, hp⟩ := runs_run hruns h
  exact ⟨N', p, .cons hM hN, horigin, hp⟩

end Realized

section Runs

variable {e : Event}

theorem step_mono (h : NetworkStep cpp py ok N e N') :
    NetworkStep cpp py (fun _ _ => True) N e N' := by
  refine ⟨h.1, ?_⟩
  cases e with
  | transfer i e => exact fun _ _ => trivial
  | connect o => trivial
  | accept => trivial
  | start => trivial

def sampleOrigin : Origin :=
  ⟨[0x61], sampleId, samplePublicKey, filled symmetricKeySize 0, [0x78], sampleBlock, true,
    fun _ => 0, packetSize⟩

def guestOrigin : Origin := { sampleOrigin with isRegistered := false }

/-- The guest is refused while the other client waits for its thread. -/
def opening : List Event :=
  [.connect guestOrigin, .connect sampleOrigin, .accept, .start, .accept,
    .transfer 0 (.recv packetSize sampleEnv), .transfer 0 (.read false (fun _ => 0) packetSize)]

def tidy (N : Network) : Event → Bool
  | .transfer i e => N.peers[i]?.all fun p => TransferIntegrity.cleanNow (N.view i p) e
  | _ => true

theorem networkStep_of_tidy (h : N.next sampleCpp samplePy e = some N')
    (htidy : tidy N e = true) : NetworkStep sampleCpp samplePy Clean N e N' := by
  refine ⟨h, ?_⟩
  cases e with
  | transfer i e =>
    intro p hp
    rw [tidy, hp] at htidy
    exact TransferIntegrity.clean_of_cleanNow htidy
  | connect o => trivial
  | accept => trivial
  | start => trivial

set_option maxRecDepth 10000 in
theorem opening_network : ∃ N, Run (NetworkStep sampleCpp samplePy Clean) (.initial .withClient)
    opening N ∧ N.peers[1]? = some (.of sampleOrigin (sampleOrigin.start .withClient)) ∧
      N.system.waiting = some 1 ∧ N.system.lock = false ∧ N.system.world = .withClient := by
  have hopening : ∃ N, opening.foldlM (guarded (fun N e => tidy N e = true)
      (Network.next sampleCpp samplePy)) (.initial .withClient) = some N ∧
      N.peers[1]? = some (.of sampleOrigin (sampleOrigin.start .withClient)) ∧
        N.system.waiting = some 1 ∧ N.system.lock = false ∧ N.system.world = .withClient :=
    ⟨_, rfl, rfl, rfl, rfl, rfl⟩
  obtain ⟨N, hN, hfacts⟩ := hopening
  exact ⟨N, (Run.of_guarded hN).mono fun ⟨hnext, htidy⟩ => networkStep_of_tidy hnext htidy,
    hfacts⟩

theorem session_network : ∃ (es : List Event) (N : Network) (p : Peer),
    Run (NetworkStep sampleCpp samplePy Clean) (.initial .withClient)
      (es ++ [.transfer 1 (.read false (fun _ => 0) packetSize)]) N ∧
      N.peers[1]? = some p ∧ p.origin = sampleOrigin ∧ ReportsSuccess (N.view 1 p) := by
  have hout : (TransferIntegrity.session sampleBlock).map TransferIntegrity.outcome =
      some (true, some (.file sampleBlock)) := by
    decide +kernel
  obtain ⟨t, ht, hreports, -⟩ := TransferIntegrity.session_reports hout
  obtain ⟨M, hopening, hpeer, hwaiting, hlock, hworld⟩ := opening_network
  have hsession : Run (OkStep sampleCpp samplePy Clean) (sampleOrigin.start M.system.world)
      ((List.replicate 3 sampleEnv).flatMap exchange) t := by
    rw [hworld]
    exact TransferIntegrity.session_run ht
  obtain ⟨N, p, hrun, horigin, hruns⟩ := transfer_realized hpeer hwaiting hlock hsession
  rw [← hruns.view] at hreports
  refine ⟨opening ++ .start :: ((List.replicate 2 sampleEnv).flatMap exchange ++
    [TransferSession.Event.recv packetSize sampleEnv]).map (.transfer 1), N, p, ?_, hruns.peer,
    horigin, hreports⟩
  rw [List.append_assoc]
  exact hopening.append hrun

/-- Main theorem: however the clients and the threads of the server run on, the events of a
connection are a run of its client and its thread alone. -/
theorem run_alone {es : List Event} (h : Run (NetworkStep cpp py fun _ _ => True) (.initial w) es N)
    (hp : N.peers[i]? = some p) : ∃ w₀ t,
      Run (TransferStep cpp py) (p.origin.start w₀) (es.filterMap (own i)) t ∧
        Peer.of p.origin t = p ∧ t.thread = threadOf N.system i ∧
          (t.thread ≠ .closed → t.world = N.system.world) := by
  have halone := (run_invariant (fun _ _ _ _ _ _ => trivial) h).alone i p hp
  cases hthread : N.system.thread i with
  | none =>
    have hrun := halone.unstarted hthread N.system.world
    refine ⟨_, _, hrun.mono fun hs => hs.1, rfl, ?_, fun _ => rfl⟩
    rw [threadOf, hthread]
    rfl
  | some conn =>
    obtain ⟨w₀, w', hrun, hsame⟩ := halone.started conn hthread
    refine ⟨w₀, _, hrun.mono fun hs => hs.1, rfl, ?_, hsame⟩
    rw [threadOf, hthread]
    rfl

theorem run_alone_session : ∃ (es : List TransferSession.Event) (w : World) (t : Transfer),
    Run (TransferStep sampleCpp samplePy) (sampleOrigin.start w) es t ∧ ReportsSuccess t := by
  obtain ⟨es, N, p, hrun, hp, horigin, hreports⟩ := session_network
  obtain ⟨w, t, halone, hpeer, -, -⟩ := run_alone (hrun.mono step_mono) hp
  rw [horigin] at halone
  refine ⟨_, w, t, halone, ?_⟩
  rw [← hpeer] at hreports
  exact hreports

end Runs

section Success

open ClientLogic.Client (Harmless)

variable {t t' : Transfer} {e : TransferSession.Event} {o : Origin}

/-- Behind a thread that has closed no approval comes to a client that still waits. -/
def Shut (t : Transfer) : Prop := t.thread = .closed → t.client.control.awaits = true →
  ∀ packet ∈ t.toClient, Harmless (some packet)

theorem parting_harmless {responses : List Response}
    (h : ConnectionScript.Parting responses) :
    ∀ packet ∈ responses.flatMap responsePackets, Harmless (some packet) := by
  refine TransferIntegrity.givesUp_harmless fun r hr => ?_
  cases h with
  | silent => cases hr
  | refused => exact .inl (List.mem_singleton.mp hr)
  | refusedTwice => exact .inl (by simpa using hr)
  | notFound =>
    rcases List.mem_cons.mp hr with rfl | hr
    · exact .inr rfl
    · exact .inl (List.mem_singleton.mp hr)

theorem phase_toClient (h : Phase cpp t) (hthread : t.thread.awaits = true)
    (hawaits : t.client.control.awaits = true)
    (hmore : t.toServer ≠ [] ∨ t.thread ≠ .reading) : t.toClient = [] := by
  have hrest : ¬TransferIntegrity.AtRest t := by
    rintro (⟨hreading, hserver⟩ | hended)
    · rcases hmore with hmore | hmore
      · exact hmore hserver
      · exact hmore hreading
    · rw [hthread] at hended
      cases hended
  cases h with
  | asking message beyond _ _ hclient => exact hclient
  | receiving f text _ _ _ hclient => exact hclient
  | answered r hreading hserver => exact absurd (.inl ⟨hreading, hserver⟩) hrest
  | approved hrest' => exact absurd hrest' hrest
  | closed hended =>
    rw [hthread] at hended
    cases hended
  | failed hfailed =>
    rw [hfailed.1] at hawaits
    cases hawaits
  | done hrest' => exact absurd hrest' hrest

theorem shut_recv {r : RecvResult} {env : Env} (h : Phase cpp t) (hthread : t.thread.awaits = true)
    (hmore : t.toServer ≠ [] ∨ t.thread ≠ .reading) (stream : Bytes) :
    Shut (Transfer.serve py { t with toServer := stream } r env) := by
  intro hclosed hawaits packet hpacket
  have hafter := @TransferIntegrity.serve_after py t stream r env
  rw [hafter.client] at hawaits
  rw [hafter.toClient, phase_toClient h hthread hawaits hmore, List.nil_append] at hpacket
  rw [hafter.thread] at hclosed
  rcases @ConnectionScript.readStep_script py env t.world _ hthread r with
    ⟨hlive, -⟩ | ⟨-, hparting⟩
  · rw [hclosed] at hlive
    cases hlive
  · exact parting_harmless hparting packet hpacket

theorem shut_step (h : Phase cpp t) (hshut : Shut t) (hstep : TransferStep cpp py t e t') :
    Shut t' := by
  cases e with
  | read fails beyond delivered =>
    intro hclosed _ q hq
    rw [(read_leaves hstep).1] at hclosed
    exact hshut hclosed (step_read hstep).1 q (read_toClient hstep q hq)
  | recv n env =>
    obtain ⟨hthread, hpos, -, hlength, rfl⟩ := TransferSession.step_recv hstep
    refine shut_recv h hthread (.inl fun hnil => ?_) _
    rw [hnil, List.length_nil] at hlength
    omega
  | recvEnds env =>
    obtain ⟨-, -, hends, rfl⟩ := step_recvEnds hstep
    exact fun _ hawaits => absurd hawaits hends
  | recvRaises env =>
    obtain ⟨hthread, rfl⟩ := step_recvRaises hstep
    by_cases hreading : t.thread = .reading
    · intro hclosed
      have hdead : (t.serve py .raises env).thread = .dead none := by
        rw [(@TransferIntegrity.serve_after py t t.toServer .raises env).thread, hreading]
        rfl
      rw [hdead] at hclosed
      cases hclosed
    · exact shut_recv h hthread (.inr hreading) t.toServer

theorem origin_phase (o : Origin) (w : World) : Phase cpp (o.start w) :=
  TransferIntegrity.start_phase

theorem origin_fixed (o : Origin) (w : World) :
    (o.start w).client.fixed = (o.publicKey, o.fileToSend, o.file) := by
  rw [Origin.start, Transfer.start, TransferIntegrity.react_fixed]
  unfold Client.run Origin.client
  split
  · rw [Client.sendPublicKeyToServer, Client.addMessageToQueue_open rfl rfl rfl]
    rfl
  · rw [Client.sendRegistrationRequest, Client.addMessageToQueue_open rfl rfl rfl]
    rfl

theorem run_shut {es : List TransferSession.Event} (hlaws : Laws cpp py o.publicKey)
    (hsend : Sendable o.file) (h : Run (CleanStep cpp py) (o.start w) es t) :
    Phase cpp t ∧ Shut t := by
  have hfixed := origin_fixed o w
  simp only [Client.fixed, Prod.mk.injEq] at hfixed
  have hphase : ∀ {es t}, Run (CleanStep cpp py) (o.start w) es t → Phase cpp t := by
    intro es t hrun
    refine (TransferIntegrity.run_phase ?_ ?_ hrun (origin_phase o w)).1
    · rwa [hfixed.1]
    · rwa [hfixed.2.2]
  refine ⟨hphase h, ?_⟩
  induction h with
  | nil =>
    intro hclosed
    have hreading : (o.start w).thread = .reading := (react_leaves _ _ _ _).1
    rw [hreading] at hclosed
    cases hclosed
  | snoc hrun hstep ih => exact shut_step (hphase hrun) ih hstep.1

theorem open_of_success {fails : Bool} {beyond : ℕ → UInt8} {delivered : ℕ} (hphase : Phase cpp t)
    (hshut : Shut t) (hstep : TransferStep cpp py t (.read fails beyond delivered) t')
    (hended : t'.client.control = .ended false) : t'.thread ≠ .closed := by
  rw [(read_leaves hstep).1]
  intro hclosed
  obtain ⟨hawaits, packet, toClient, hpacket, rfl⟩ := step_read hstep
  have hharmless := hshut hclosed hawaits
  have hun : t.client.Unapproved := by
    cases hphase with
    | asking message beyond _ _ _ hun => exact hun
    | receiving f text _ _ _ _ hun => exact hun
    | answered r _ _ _ hun => exact hun
    | approved _ _ hun => exact hun
    | closed _ _ hun => exact hun
    | failed hfailed =>
      rw [hfailed.1] at hawaits
      cases hawaits
    | done _ hdone =>
      rw [hdone] at hawaits
      cases hawaits
  have hpacket' : Harmless packet := by
    rcases hpacket with rfl | ⟨q, rfl, hq⟩
    · rintro q ⟨⟩
    · exact hharmless q (by simp [hq])
  have hcontrol := (@Client.receive_harmless cpp _ hawaits hun _ hpacket').1
  obtain ⟨-, -, hclient | hclient⟩ := react_leaves { t with toClient }
    (t.client.receive cpp packet) beyond delivered
  · rw [hclient] at hended
    exact hcontrol hended
  · rw [hclient] at hended
    exact (Client.writeFailed_failed hcontrol).2 hended

/-- Main theorem: whatever the other clients do, at the step at which a client reports success
its file is on the disk of the server. -/
theorem run_delivers {es : List Event} {fails : Bool} {beyond : ℕ → UInt8} {delivered : ℕ}
    (hrun : Run (NetworkStep cpp py Clean) (.initial w)
      (es ++ [.transfer i (.read fails beyond delivered)]) N)
    (hp : N.peers[i]? = some p) (hlaws : Laws cpp py p.origin.publicKey)
    (hsend : Sendable p.origin.file) (hreports : ReportsSuccess (N.view i p)) :
    OnDisk p.client N.system.world (fileBuffer p.origin.file) := by
  have halone := (run_invariant (fun _ _ _ _ _ h => h) hrun).alone i p hp
  have hdisk : ∀ {w₀ thread w'}, Run (CleanStep cpp py) (p.origin.start w₀)
      ((es ++ [Event.transfer i (.read fails beyond delivered)]).filterMap (own i))
      (p.transfer thread w') → OnDisk p.client w' (fileBuffer p.origin.file) := by
    intro w₀ thread w' h
    exact TransferIntegrity.padded_of_success hlaws hsend h hreports
  cases hthread : N.system.thread i with
  | none => exact hdisk (halone.unstarted hthread N.system.world)
  | some conn =>
    obtain ⟨w₀, w', halong, hsame⟩ := halone.started conn hthread
    have hopen : conn.control ≠ .closed := by
      have hlast := halong
      rw [own_self] at hlast
      obtain ⟨t, hbefore, hstep⟩ := hlast.last
      obtain ⟨hphase, hshut⟩ := run_shut hlaws hsend hbefore
      exact open_of_success hphase hshut hstep.1 hreports.1
    rw [← hsame hopen]
    exact hdisk halong

theorem run_delivers_block : ∃ (N : Network) (p : Peer), N.peers[1]? = some p ∧
    p.origin = sampleOrigin ∧ OnDisk p.client N.system.world sampleBlock := by
  obtain ⟨es, N, p, hrun, hp, horigin, hreports⟩ := session_network
  have hfile := run_delivers hrun hp (by rw [horigin]; exact TransferIntegrity.sample_laws)
    (by rw [horigin]; exact ⟨by decide, by decide⟩) hreports
  rw [horigin] at hfile
  exact ⟨N, p, hp, horigin, hfile⟩

end Success

end ClientNetwork
