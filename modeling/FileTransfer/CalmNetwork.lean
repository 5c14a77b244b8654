import FileTransfer.CalmNeighbours
import Mathlib.Algebra.BigOperators.Fin

/-! # Many clients when nothing fails

Clients with files of different names connect and run on in any order. Each of them has its
place in the line, and in every run all of them come to the end of their transfers. -/
namespace CalmNetwork

open ByteField ServerProtocol ServerTables ServerState ServerFiles ServerHandlers ServerThread
  ServerSystem ClientChannel ClientFile ClientLogic StepRun TransferSession CalmServer
  CalmTransfer ClientNetwork CalmNeighbours
open ClientLogic.Client (idIsEmpty)
open MessageRoundTrip (nameField)
open LockRelease (Fresh)

section Definitions

variable (cpp : CppCrypto) (py : PyCrypto)

structure Visit where
  origin : Origin
  text : Text

def Visit.steps (v : Visit) : ℕ := cipherSize v.origin.file + 13

/-- The client has no id yet and its name is free, and there is room under any new id. -/
structure Unnamed (v : Visit) (w : World) : Prop where
  id : idIsEmpty v.origin.id = some true
  name : ∃ name, fieldText (clientName v.origin.name) = some name ∧ isAscii name = true ∧
    w.db.hasName name = false
  room : ∀ id, w.db.hasClient id = false → Room w id v.text

/-- What the server has to know before the client connects. -/
def Invited (v : Visit) (w : World) : Bool → Prop
  | true => (fieldText (clientName v.origin.name)).isSome = true ∧ Welcome w v.origin.id v.text
  | false => Unnamed v w

/-- The clients have files of different names, and a new one has a name of its own. -/
structure Planned {k : ℕ} (plan : Fin k → Visit) : Prop where
  suited : ∀ i, Suited cpp py (plan i).origin.client (plan i).text
  delivered : ∀ i, packetSize ≤ (plan i).origin.delivered
  texts : ∀ i j, i ≠ j → (plan i).text ≠ (plan j).text
  names : ∀ i j, i ≠ j → (plan j).origin.isRegistered = false →
    fieldText (clientName (plan i).origin.name) ≠ fieldText (clientName (plan j).origin.name)

/-- Nothing fails, and the server sees the end of a connection. -/
def Quiet (t : Transfer) : TransferSession.Event → Prop
  | .recvEnds env => Calm env
  | e => CalmEvent cpp py t e

def Follows {k : ℕ} (plan : Fin k → Visit) (N : Network) : ClientNetwork.Event → Prop
  | .connect o => ∃ h : N.peers.length < k, o = (plan ⟨N.peers.length, h⟩).origin
  | _ => True

def PlanStep {k : ℕ} (plan : Fin k → Visit) (N : Network) (e : ClientNetwork.Event)
    (N' : Network) : Prop := NetworkStep cpp py (Quiet cpp py) N e N' ∧ Follows plan N e

/-- The client has ended without an error, its thread is closed, and its file is there. -/
def Served (N : Network) (i : ℕ) (v : Visit) : Prop :=
  ∃ p conn, N.peers[i]? = some p ∧ p.origin = v.origin ∧ p.client.control = .ended false ∧
    N.system.thread i = some conn ∧ conn.control = .closed ∧
    Rests N.system.world p.client.id v.text (fileBuffer v.origin.file)

/-- Where a client of the plan stands, with the steps that are left. -/
inductive Standing (N : Network) (i : ℕ) (v : Visit) : ℕ → Prop where
  | awaited : N.peers[i]? = none → Invited v N.system.world v.origin.isRegistered →
      Standing N i v v.steps
  | connected (w : World) : N.peers[i]? = some (.of v.origin (v.origin.start w)) →
      N.system.accepted ≤ i → Invited v N.system.world v.origin.isRegistered →
      Standing N i v (cipherSize v.origin.file + 12)
  | accepted (w : World) : N.peers[i]? = some (.of v.origin (v.origin.start w)) →
      N.system.waiting = some i → Invited v N.system.world v.origin.isRegistered →
      Standing N i v (cipherSize v.origin.file + 11)
  | serving (p : Peer) (conn : Connection) (n : ℕ) : N.peers[i]? = some p →
      N.system.thread i = some conn → p.origin = v.origin → p.client.name = v.origin.name →
      Underway cpp py v.text v.origin.file (N.view i p) n → Standing N i v (n + 1)
  | served : Served N i v → Standing N i v 0

def Locked (s : System) : Prop :=
  s.lock = true → ∃ c conn, s.thread c = some conn ∧ conn.control ≠ .closed

structure Orderly (k : ℕ) (N : Network) : Prop where
  fresh : Fresh N.system
  exclusive : Exclusive N.system
  locked : Locked N.system
  accepted : N.system.accepted ≤ N.peers.length
  planned : N.peers.length ≤ k

/-- A plan that is carried out, with the steps that are left. The ids are not used up. -/
structure Going {k : ℕ} (plan : Fin k → Visit) (N : Network) (n : ℕ) : Prop where
  orderly : Orderly k N
  standing : Simulation.Together (fun (i : Fin k) N m => Standing cpp py N i (plan i) m) N n
  ids : N.system.world.db.server.length + n < 256 ^ clientIdSize

end Definitions

variable {cpp : CppCrypto} {py : PyCrypto} {k n : ℕ} {plan : Fin k → Visit} {N N' : Network}
  {w w' : World} {i : ℕ} {v : Visit} {p : Peer}

section Invitations

theorem exists_unused (h : w.db.server.length < 256 ^ clientIdSize) :
    ∃ id : ClientId, ∀ row ∈ w.db.server, row.id ≠ id := by
  by_contra hnone
  push Not at hnone
  let ids := (List.range (w.db.server.length + 1)).map (leBytes clientIdSize)
  have hnodup : ids.Nodup := by
    refine List.Nodup.map_on ?_ List.nodup_range
    intro a ha b hb heq
    rw [List.mem_range] at ha hb
    have hvalue := congrArg leValue heq
    rwa [leValue_leBytes_of_lt (by omega), leValue_leBytes_of_lt (by omega)] at hvalue
  have hsubset : ids ⊆ w.db.server.map fun row => row.id.val := by
    intro bytes hbytes
    obtain ⟨a, -, rfl⟩ := List.mem_map.mp hbytes
    obtain ⟨row, hrow, hid⟩ := hnone ⟨leBytes clientIdSize a, length_leBytes _ _⟩
    exact List.mem_map.mpr ⟨row, hrow, congrArg Subtype.val hid⟩
  have hlength := (List.subperm_of_subset hnodup hsubset).length_le
  simp [ids] at hlength

theorem expects_of_invited {isRegistered : Bool} (h : Invited v w isRegistered)
    (hids : w.db.server.length < 256 ^ clientIdSize) :
    Expects v.origin.client w v.text isRegistered := by
  cases isRegistered with
  | true => exact h
  | false =>
    obtain ⟨id, hfresh⟩ := exists_unused hids
    refine ⟨h.id, h.name, id, hfresh, h.room id ?_⟩
    simpa [Tables.hasClient] using hfresh

theorem invited_underway (hsuited : Suited cpp py v.origin.client v.text)
    (hdelivered : packetSize ≤ v.origin.delivered)
    (h : Invited v w v.origin.isRegistered)
    (hids : w.db.server.length < 256 ^ clientIdSize) :
    ∃ n ≤ cipherSize v.origin.file + 9,
      Underway cpp py v.text v.origin.file (v.origin.start w) n :=
  start_underway (c := v.origin.client) rfl rfl rfl rfl hsuited (expects_of_invited h hids)
    hdelivered

theorem invited_beside {c : Client} {text : Text} {isRegistered : Bool}
    (hbeside : Beside c text w w') (hne : v.text ≠ text)
    (hname : isRegistered = false →
      fieldText (clientName c.name) ≠ fieldText (clientName v.origin.name))
    (h : Invited v w isRegistered) : Invited v w' isRegistered := by
  cases isRegistered with
  | true =>
    obtain ⟨hvalid, hwelcome⟩ := h
    exact ⟨hvalid, welcome_beside hbeside hne hwelcome⟩
  | false =>
    obtain ⟨hid, ⟨name, hvalid, hascii, hfree⟩, hroom⟩ := h
    refine ⟨hid, ⟨name, hvalid, hascii, hasName_beside hbeside ?_ hfree⟩, fun id hid => ?_⟩
    · rw [← hvalid]
      exact hname rfl
    · refine room_beside hbeside hne (hroom id ?_)
      by_contra hthere
      rw [Bool.not_eq_false] at hthere
      cases hid.symm.trans (ServerHistory.hasClient_grows hbeside.clients hthere)

end Invitations

section Stages

variable {t t' : Transfer} {text : Text} {e : TransferSession.Event}

theorem stage_awaits (h : Stage cpp py t text n) : t.thread.awaits = true := by
  have hreading : t.thread = .reading → t.thread.awaits = true := by
    intro hthread
    rw [hthread]
    rfl
  cases h with
  | registering hasked => exact hreading hasked.thread
  | registered id htold => exact hreading htold.thread
  | keying hasked => exact hreading hasked.thread
  | keyed encrypted key htold => exact hreading htold.thread
  | uploading hasked => exact hreading hasked.thread
  | receiving p hthread =>
    rw [hthread]
    rfl
  | stored r htold => exact hreading htold.thread
  | approving hasked => exact hreading hasked.thread
  | approved htold => exact hreading htold.thread
  | done hthread => exact hreading hthread

theorem stage_done (h : Stage cpp py t text n) (hended : ¬t.client.control.awaits = true) :
    t.thread = .reading ∧ t.toServer = [] ∧ t.client.control = .ended false ∧
      Rests t.world t.client.id text (fileBuffer t.client.file) := by
  have hrunning : t.client.control ≠ .running := by
    intro hrunning
    rw [hrunning] at hended
    exact hended rfl
  cases h with
  | registering hasked => exact absurd hasked.running hrunning
  | registered id htold => exact absurd htold.running hrunning
  | keying hasked => exact absurd hasked.running hrunning
  | keyed encrypted key htold => exact absurd htold.running hrunning
  | uploading hasked => exact absurd hasked.running hrunning
  | receiving p _ _ hrun => exact absurd hrun hrunning
  | stored r htold => exact absurd htold.running hrunning
  | approving hasked => exact absurd hasked.running hrunning
  | approved htold => exact absurd htold.running hrunning
  | done hthread hserver hcontrol hdelivered hkept =>
    obtain ⟨file, hfile, -⟩ := hkept.entry
    exact ⟨hthread, hserver, hcontrol, (getFileInstance_keyed hfile).2.2, hdelivered⟩

theorem quiet_of_calm (h : CalmEvent cpp py t e) : Quiet cpp py t e := by
  cases e with
  | read fails beyond delivered => exact h
  | recv n env => exact h
  | recvEnds env => exact h.elim
  | recvRaises env => exact h

theorem quiet_step (hstage : Stage cpp py t text n) (h : OkStep cpp py (Quiet cpp py) t e t') :
    CalmStep cpp py t e t' ∨ t'.client = t.client ∧ t'.thread = .closed ∧ t'.world = t.world ∧
      t.client.control = .ended false ∧ Rests t.world t.client.id text (fileBuffer t.client.file)
    := by
  obtain ⟨hnext, hquiet⟩ := h
  cases e with
  | read fails beyond delivered => exact .inl ⟨hnext, hquiet⟩
  | recv n env => exact .inl ⟨hnext, hquiet⟩
  | recvEnds env =>
    obtain ⟨-, -, hended, rfl⟩ := step_recvEnds hnext
    obtain ⟨hthread, -, hcontrol, hrests⟩ := stage_done hstage hended
    have hout : readStep py env t.world t.thread (.chunk []) = .quiet t.world .closed := by
      rw [hthread]
      rfl
    refine .inr ⟨rfl, ?_, ?_, hcontrol, hrests⟩
    · show (readStep py env t.world t.thread (.chunk [])).control = _
      rw [hout]
      rfl
    · show (readStep py env t.world t.thread (.chunk [])).world = _
      rw [hout]
      rfl
  | recvRaises env => exact hquiet.elim

theorem quiet_progress (hsuited : Suited cpp py t.client text) (hstage : Stage cpp py t text n) :
    ∃ e t', OkStep cpp py (Quiet cpp py) t e t' := by
  by_cases hended : t.client.control.awaits = true
  · obtain ⟨e, t', hnext, hcalm⟩ := stage_progress hsuited hstage (by
      intro hcontrol
      rw [hcontrol] at hended
      cases hended)
    exact ⟨e, t', hnext, quiet_of_calm hcalm⟩
  · obtain ⟨-, hserver, -, -⟩ := stage_done hstage hended
    exact ⟨.recvEnds (calmEnv emptyId (filled symmetricKeySize 0) []), _,
      if_pos ⟨stage_awaits hstage, hserver, hended⟩, calm_calmEnv _ _ _⟩

theorem start_idle (o : Origin) (w : World) :
    (o.start w).toClient = [] ∧ (o.start w).client.name = o.name := by
  obtain ⟨-, hclient, hreacts⟩ := react_leaves ⟨o.client, .reading, w, [], [], []⟩
    (o.client.run o.isRegistered) o.beyond o.delivered
  have hname : (o.client.run o.isRegistered).1.name = o.name := by
    have hqueued := fun message =>
      congrArg Prod.fst (CalmClient.addMessageToQueue_identity o.client message)
    unfold Client.run
    split
    · exact hqueued _
    · exact hqueued _
  refine ⟨hclient, ?_⟩
  rcases hreacts with hsame | hfailed
  · exact (congrArg Client.name hsame).trans hname
  · have hfailed' := congrArg Prod.fst (CalmClient.writeFailed_identity
      (o.client.run o.isRegistered).1)
    exact (congrArg Client.name hfailed).trans (hfailed'.trans hname)

end Stages

section Standings

variable {c : Client} {text : Text} {conn : Connection}

theorem standing_awaited (h : Standing cpp py N i v n) (hpeer : N.peers[i]? = none) :
    n = v.steps ∧ Invited v N.system.world v.origin.isRegistered := by
  cases h with
  | awaited _ hinvited => exact ⟨rfl, hinvited⟩
  | connected w hsome => cases hsome.symm.trans hpeer
  | accepted w hsome => cases hsome.symm.trans hpeer
  | serving p conn n hsome => cases hsome.symm.trans hpeer
  | served h =>
    obtain ⟨p, conn, hsome, -⟩ := h
    cases hsome.symm.trans hpeer

theorem standing_connected (h : Standing cpp py N i v n) (hfresh : Fresh N.system)
    (haccepted : N.system.accepted ≤ i) (hpeer : N.peers[i]? ≠ none) :
    n = cipherSize v.origin.file + 12 ∧
      (∃ w, N.peers[i]? = some (.of v.origin (v.origin.start w))) ∧
      Invited v N.system.world v.origin.isRegistered := by
  have hthread := hfresh.unused i haccepted
  cases h with
  | awaited hnone => exact absurd hnone hpeer
  | connected w hsome _ hinvited => exact ⟨rfl, ⟨w, hsome⟩, hinvited⟩
  | accepted w _ hwaiting =>
    obtain ⟨-, hlt⟩ := hfresh.waiting i hwaiting
    omega
  | serving p conn n _ hconn => cases hconn.symm.trans hthread
  | served h =>
    obtain ⟨p, conn, -, -, -, hconn, -⟩ := h
    cases hconn.symm.trans hthread

theorem standing_accepted (h : Standing cpp py N i v n) (ho : Orderly k N)
    (hwaiting : N.system.waiting = some i) :
    n = cipherSize v.origin.file + 11 ∧
      (∃ w, N.peers[i]? = some (.of v.origin (v.origin.start w))) ∧
      Invited v N.system.world v.origin.isRegistered := by
  obtain ⟨hthread, hlt⟩ := ho.fresh.waiting i hwaiting
  have haccepted := ho.accepted
  cases h with
  | awaited hnone =>
    rw [List.getElem?_eq_none_iff] at hnone
    omega
  | connected w _ hle => omega
  | accepted w hsome _ hinvited => exact ⟨rfl, ⟨w, hsome⟩, hinvited⟩
  | serving p conn n _ hconn => cases hconn.symm.trans hthread
  | served h =>
    obtain ⟨p, conn, -, -, -, hconn, -⟩ := h
    cases hconn.symm.trans hthread

theorem standing_started (h : Standing cpp py N i v n) (ho : Orderly k N)
    (hconn : N.system.thread i = some conn) (hopen : conn.control ≠ .closed) :
    ∃ p m, n = m + 1 ∧ N.peers[i]? = some p ∧ p.origin = v.origin ∧
      p.client.name = v.origin.name ∧
      Underway cpp py v.text v.origin.file (N.view i p) m := by
  cases h with
  | awaited hnone =>
    rw [List.getElem?_eq_none_iff] at hnone
    cases hconn.symm.trans (ho.fresh.unused i (ho.accepted.trans hnone))
  | connected w _ haccepted => cases hconn.symm.trans (ho.fresh.unused i haccepted)
  | accepted w _ hwaiting => cases hconn.symm.trans (ho.fresh.waiting i hwaiting).1
  | serving p conn' m hpeer _ horigin hname hunderway =>
    exact ⟨p, m, rfl, hpeer, horigin, hname, hunderway⟩
  | served h =>
    obtain ⟨p, conn', -, -, -, hconn', hclosed, -⟩ := h
    cases hconn.symm.trans hconn'
    exact absurd hclosed hopen

/-- What a step elsewhere leaves of the place of a client. -/
structure Elsewhere (N N' : Network) (i : ℕ) : Prop where
  peer : N'.peers[i]? = N.peers[i]?
  thread : N'.system.thread i = N.system.thread i
  accepted : N.system.accepted ≤ i → N.peers[i]? ≠ none → N'.system.accepted ≤ i
  waiting : N.system.waiting = some i → N'.system.waiting = some i

theorem standing_frame (h : Standing cpp py N i v n) (helse : Elsewhere N N' i)
    (hinvited : Invited v N.system.world v.origin.isRegistered →
      Invited v N'.system.world v.origin.isRegistered)
    (hworld : ∀ conn, N.system.thread i = some conn → conn.control.awaits = true →
      N'.system.world = N.system.world)
    (hrests : ∀ id content, Rests N.system.world id v.text content →
      Rests N'.system.world id v.text content) : Standing cpp py N' i v n := by
  cases h with
  | awaited hnone h => exact .awaited (helse.peer.trans hnone) (hinvited h)
  | connected w hsome haccepted h =>
    exact .connected w (helse.peer.trans hsome)
      (helse.accepted haccepted (hsome ▸ Option.some_ne_none _)) (hinvited h)
  | accepted w hsome hwaiting h =>
    exact .accepted w (helse.peer.trans hsome) (helse.waiting hwaiting) (hinvited h)
  | serving p conn n hsome hconn horigin hname hunderway =>
    have hview : N'.view i p = N.view i p := by
      have hawaits := stage_awaits hunderway.stage
      rw [view_started hconn] at hawaits
      rw [view_started (helse.thread.trans hconn), view_started hconn, hworld conn hconn hawaits]
    exact .serving p conn n (helse.peer.trans hsome) (helse.thread.trans hconn) horigin hname
      (hview ▸ hunderway)
  | served h =>
    obtain ⟨p, conn, hsome, horigin, hended, hconn, hclosed, h⟩ := h
    exact .served ⟨p, conn, helse.peer.trans hsome, horigin, hended, helse.thread.trans hconn,
      hclosed, hrests _ _ h⟩

theorem standing_same (h : Standing cpp py N i v n) (helse : Elsewhere N N' i)
    (hworld : N'.system.world = N.system.world) : Standing cpp py N' i v n := by
  apply standing_frame h helse
  · rw [hworld]
    exact id
  · exact fun _ _ _ => hworld
  · rw [hworld]
    exact fun _ _ => id

theorem standing_beside (h : Standing cpp py N i v n) (helse : Elsewhere N N' i)
    (hbeside : Beside c text N.system.world N'.system.world) (hne : v.text ≠ text)
    (hplain : PathWalk.Plain v.text)
    (hname : v.origin.isRegistered = false →
      fieldText (clientName c.name) ≠ fieldText (clientName v.origin.name))
    (hidle : ∀ conn, N.system.thread i = some conn → conn.control.awaits = false) :
    Standing cpp py N' i v n := by
  apply standing_frame h helse
  · exact invited_beside hbeside hne hname
  · intro conn hconn hawaits
    cases hawaits.symm.trans (hidle conn hconn)
  · exact fun _ _ => rests_beside hbeside hplain hne

end Standings

section Steps

variable {rank : Fin k → ℕ} {e : TransferSession.Event}

def Moves (cpp : CppCrypto) (py : PyCrypto) (plan : Fin k → Visit) (rank : Fin k → ℕ)
    (N' : Network) : Prop :=
  ∃ i : Fin k, ∃ m < rank i, Standing cpp py N' i (plan i) m ∧
    ∀ j : Fin k, j ≠ i → Standing cpp py N' j (plan j) (rank j)

theorem locked_step {s s' : System} {e : ServerSystem.Event} (hexclusive : Exclusive s)
    (h : Locked s) (hstep : Step py s e s') : Locked s' := by
  cases e with
  | accept =>
    obtain ⟨-, rfl⟩ := ServerSystem.step_accept hstep
    exact h
  | start =>
    obtain ⟨c, -, -, rfl⟩ := ServerSystem.step_start hstep
    intro _
    exact ⟨c, ⟨.reading, 0⟩, Function.update_self .., nofun⟩
  | recv c r env =>
    obtain ⟨conn, hconn, hawaits, rfl⟩ := ServerSystem.step_recv hstep
    have hopen : conn.control ≠ .closed := by
      intro hclosed
      rw [hclosed] at hawaits
      cases hawaits
    have hlock := hexclusive.held c conn hconn hopen
    intro hheld
    by_cases hclosed : (readStep py env s.world conn.control r).control = .closed
    · rw [(finish_self_closed c conn hclosed hlock).2] at hheld
      cases hheld
    · exact ⟨c, _, (finish_self_live s c conn hclosed).1, hclosed⟩

theorem orderly_step {e : ClientNetwork.Event} (h : Orderly k N)
    (hstep : PlanStep cpp py plan N e N') : Orderly k N' := by
  obtain ⟨hnext, hfollows⟩ := hstep
  have haccepted := h.accepted
  have hplanned := h.planned
  cases e with
  | connect o =>
    obtain ⟨hlt, -⟩ := hfollows
    obtain rfl := step_connect hnext
    refine ⟨h.fresh, h.exclusive, h.locked, ?_, ?_⟩
    · rw [List.length_append]
      exact Nat.le_add_right_of_le haccepted
    · rw [List.length_append]
      exact hlt
  | accept =>
    obtain ⟨hlt, hsystem, hpeers⟩ := step_accept hnext
    refine ⟨LockRelease.step_fresh hsystem h.fresh, exclusive_step h.exclusive hsystem,
      locked_step h.exclusive h.locked hsystem, ?_, by rwa [hpeers]⟩
    rw [hpeers, (ServerSystem.step_accept hsystem).2]
    exact hlt
  | start =>
    obtain ⟨hsystem, hpeers⟩ := step_start hnext
    obtain ⟨c, -, -, hstarted⟩ := ServerSystem.step_start hsystem
    refine ⟨LockRelease.step_fresh hsystem h.fresh, exclusive_step h.exclusive hsystem,
      locked_step h.exclusive h.locked hsystem, ?_, by rwa [hpeers]⟩
    rw [hpeers, hstarted]
    exact haccepted
  | transfer i e =>
    obtain ⟨p, t, -, -, hreceive, hpeers⟩ := step_transfer hnext
    obtain ⟨hfresh, hexclusive, hsame, -⟩ := receive_frame h.fresh h.exclusive hreceive
    refine ⟨hfresh, hexclusive, ?_, ?_, ?_⟩
    · rcases receive_cases hreceive with ⟨-, heq⟩ | ⟨r, env, -, hsystem⟩
      · rw [heq]
        exact h.locked
      · exact locked_step h.exclusive h.locked hsystem
    · rwa [hpeers, List.length_set, hsame]
    · rwa [hpeers, List.length_set]

theorem connect_moves {o : Origin} (ho : Orderly k N)
    (hrank : ∀ i : Fin k, Standing cpp py N i (plan i) (rank i))
    (hstep : PlanStep cpp py plan N (.connect o) N') :
    Moves cpp py plan rank N' ∧ N'.system = N.system := by
  obtain ⟨hnext, hlt, rfl⟩ := hstep
  obtain rfl := step_connect hnext
  have hnone : N.peers[N.peers.length]? = none := List.getElem?_eq_none le_rfl
  obtain ⟨hsteps, hinvited⟩ := standing_awaited (hrank ⟨N.peers.length, hlt⟩) hnone
  refine ⟨⟨⟨N.peers.length, hlt⟩, cipherSize (plan ⟨N.peers.length, hlt⟩).origin.file + 12, ?_,
    .connected N.system.world List.getElem?_concat_length ho.accepted hinvited, ?_⟩, rfl⟩
  · rw [hsteps]
    exact Nat.lt_succ_self _
  · intro j hj
    have hne : (j : ℕ) ≠ N.peers.length := fun heq => hj (Fin.ext heq)
    refine standing_same (hrank j) ⟨?_, rfl, fun h _ => h, id⟩ rfl
    rcases Nat.lt_or_gt_of_ne hne with hbefore | hbehind
    · exact List.getElem?_append_left hbefore
    · rw [List.getElem?_eq_none hbehind.le, List.getElem?_eq_none]
      rw [List.length_append]
      exact hbehind

theorem accept_moves (ho : Orderly k N)
    (hrank : ∀ i : Fin k, Standing cpp py N i (plan i) (rank i))
    (hstep : PlanStep cpp py plan N .accept N') :
    Moves cpp py plan rank N' ∧ N'.system.world = N.system.world := by
  obtain ⟨hlt, hsystem, hpeers⟩ := step_accept hstep.1
  obtain ⟨hwaiting, haccepted⟩ := ServerSystem.step_accept hsystem
  have hplanned := hlt.trans_le ho.planned
  have hworld : N'.system.world = N.system.world := by rw [haccepted]
  have hsome : N.peers[N.system.accepted]? ≠ none := by
    rw [ne_eq, List.getElem?_eq_none_iff]
    exact Nat.not_le.mpr hlt
  obtain ⟨hsteps, ⟨w, hpeer⟩, hinvited⟩ :=
    standing_connected (hrank ⟨N.system.accepted, hplanned⟩) ho.fresh le_rfl hsome
  refine ⟨⟨⟨N.system.accepted, hplanned⟩, _, ?_, .accepted w ?_ ?_ ?_, ?_⟩, hworld⟩
  · rw [hsteps]
    exact Nat.lt_succ_self _
  · rw [hpeers]
    exact hpeer
  · rw [haccepted]
  · rw [hworld]
    exact hinvited
  · intro j hj
    have hne : (j : ℕ) ≠ N.system.accepted := fun heq => hj (Fin.ext heq)
    refine standing_same (hrank j) ⟨by rw [hpeers], by rw [haccepted], ?_, ?_⟩ hworld
    · intro hle _
      rw [haccepted]
      exact Nat.lt_of_le_of_ne hle hne.symm
    · intro hj
      cases hwaiting.symm.trans hj

theorem start_moves (hplan : Planned cpp py plan) (ho : Orderly k N)
    (hrank : ∀ i : Fin k, Standing cpp py N i (plan i) (rank i))
    (hids : N.system.world.db.server.length < 256 ^ clientIdSize)
    (hstep : PlanStep cpp py plan N .start N') :
    Moves cpp py plan rank N' ∧ N'.system.world = N.system.world := by
  obtain ⟨hsystem, hpeers⟩ := step_start hstep.1
  obtain ⟨c, hwaiting, -, hstarted⟩ := ServerSystem.step_start hsystem
  obtain ⟨hnone, hlt⟩ := ho.fresh.waiting c hwaiting
  have hplanned : c < k := hlt.trans_le (ho.accepted.trans ho.planned)
  have hworld : N'.system.world = N.system.world := by rw [hstarted]
  have hthread : N'.system.thread c = some ⟨.reading, 0⟩ := by
    rw [hstarted]
    exact Function.update_self ..
  obtain ⟨hsteps, ⟨w, hpeer⟩, hinvited⟩ := standing_accepted (hrank ⟨c, hplanned⟩) ho hwaiting
  obtain ⟨n, hn, hunderway⟩ := invited_underway (hplan.suited ⟨c, hplanned⟩)
    (hplan.delivered ⟨c, hplanned⟩) hinvited hids
  refine ⟨⟨⟨c, hplanned⟩, n + 1, ?_, .serving _ _ n (hpeers ▸ hpeer) hthread rfl ?_ ?_, ?_⟩, hworld⟩
  · rw [hsteps]
    omega
  · exact (start_idle _ w).2
  · rw [view_started hthread, hworld, peer_start]
    exact hunderway
  · intro j hj
    have hne : (j : ℕ) ≠ c := fun heq => hj (Fin.ext heq)
    refine standing_same (hrank j) ⟨by rw [hpeers], ?_, ?_, ?_⟩ hworld
    · rw [hstarted]
      exact Function.update_of_ne hne ..
    · intro hle _
      rwa [hstarted]
    · intro hj
      exact absurd (Option.some.inj (hj.symm.trans hwaiting)) hne

theorem no_transfer_unstarted {o : Origin} {t : Transfer}
    (hthread : N.system.thread i = none) (hview : N.view i (.of o (o.start w)) = o.start w')
    (h : OkStep cpp py (Quiet cpp py) (N.view i (.of o (o.start w))) e t) :
    N.receive py i (N.view i (.of o (o.start w))) e = none := by
  obtain ⟨hnext, hquiet⟩ := h
  cases e with
  | read fails beyond delivered =>
    rw [hview] at hnext hquiet
    exact (no_read (start_idle o w').1 ⟨hnext, hquiet⟩).elim
  | recv n env => simp [Network.receive, recvOf, System.next, hthread]
  | recvEnds env => simp [Network.receive, recvOf, System.next, hthread]
  | recvRaises env => simp [Network.receive, recvOf, System.next, hthread]

theorem no_transfer_served {conn : Connection} {t : Transfer}
    (hconn : N.system.thread i = some conn) (hclosed : conn.control = .closed)
    (hended : p.client.control = .ended false) :
    ¬OkStep cpp py (Quiet cpp py) (N.view i p) e t := by
  rintro ⟨hnext, -⟩
  cases hrecv : recvOf (N.view i p) e with
  | none =>
    cases e with
    | read fails beyond delivered =>
      have hawaits : p.client.control.awaits = true := (step_read hnext).1
      rw [hended] at hawaits
      cases hawaits
    | recv n env => cases hrecv
    | recvEnds env => cases hrecv
    | recvRaises env => cases hrecv
  | some r =>
    have hawaits := (recv_leaves hrecv hnext).1
    rw [view_started hconn] at hawaits
    change conn.control.awaits = true at hawaits
    rw [hclosed] at hawaits
    cases hawaits

theorem transfer_serving (ho : Orderly k N) (hrank : Standing cpp py N i v n)
    (hstep : NetworkStep cpp py (Quiet cpp py) N (.transfer i e) N') :
    ∃ p conn m t, n = m + 1 ∧ N.peers[i]? = some p ∧ N.system.thread i = some conn ∧
      conn.control ≠ .closed ∧ p.origin = v.origin ∧ p.client.name = v.origin.name ∧
      Underway cpp py v.text v.origin.file (N.view i p) m ∧
      OkStep cpp py (Quiet cpp py) (N.view i p) e t ∧ Runs N' i (.of p.origin t) t := by
  obtain ⟨p, t, hpeer, hview, hreceive, hpeers⟩ := step_transfer hstep
  have hunstarted : ∀ w, N.peers[i]? = some (.of v.origin (v.origin.start w)) →
      N.system.thread i ≠ none := by
    intro w hsome hthread
    cases hpeer.symm.trans hsome
    have hstart : N.view i (.of v.origin (v.origin.start w)) =
        v.origin.start N.system.world := by
      rw [view_unstarted hthread, peer_start]
    cases (no_transfer_unstarted hthread hstart hview).symm.trans hreceive
  cases hrank with
  | awaited hnone => cases hnone.symm.trans hpeer
  | connected w hsome haccepted => exact absurd (ho.fresh.unused i haccepted) (hunstarted w hsome)
  | accepted w hsome hwaiting =>
    exact absurd (ho.fresh.waiting i hwaiting).1 (hunstarted w hsome)
  | serving p' conn m hsome hconn horigin hname hunderway =>
    cases hsome.symm.trans hpeer
    have hopen : conn.control ≠ .closed := by
      intro hclosed
      have hawaits := stage_awaits hunderway.stage
      rw [view_started hconn] at hawaits
      change conn.control.awaits = true at hawaits
      rw [hclosed] at hawaits
      cases hawaits
    have hruns : Runs N i p (N.view i p) :=
      ⟨hpeer, rfl, conn, hconn, fun _ => ho.exclusive.held i conn hconn hopen⟩
    obtain ⟨N'', hstep'', hruns''⟩ := runs_step hruns hview
    cases Option.some.inj (hstep''.1.symm.trans hstep.1)
    exact ⟨p, conn, m, t, rfl, hpeer, hconn, hopen, horigin, hname, hunderway, hview, hruns''⟩
  | served h =>
    obtain ⟨p', conn, hsome, -, hended, hconn, hclosed, -⟩ := h
    cases hsome.symm.trans hpeer
    exact absurd hview (no_transfer_served hconn hclosed hended)

theorem transfer_elsewhere {u t : Transfer} {o : Origin} {j : ℕ} (ho : Orderly k N)
    (hreceive : N.receive py i u e = some N'.system) (hpeers : N'.peers = N.peers.set i (.of o t))
    (hj : j ≠ i) : Elsewhere N N' j := by
  obtain ⟨-, -, haccepted, hframe⟩ := receive_frame ho.fresh ho.exclusive hreceive
  refine ⟨?_, (hframe j hj).1, ?_, ?_⟩
  · rw [hpeers, List.getElem?_set_ne hj.symm]
  · intro hle _
    rwa [haccepted]
  · intro hwaiting
    rcases receive_cases hreceive with ⟨-, hsame⟩ | ⟨r, env, -, hsystem⟩
    · rwa [hsame]
    · obtain ⟨conn, -, -, hfinish⟩ := ServerSystem.step_recv hsystem
      rwa [hfinish, finish_waiting]

/-- A step of the client that is being served lowers its rank. -/
theorem transfer_moves (hplan : Planned cpp py plan) (ho : Orderly k N)
    (hrank : ∀ i : Fin k, Standing cpp py N i (plan i) (rank i))
    (hstep : PlanStep cpp py plan N (.transfer i e) N') :
    Moves cpp py plan rank N' ∧
      N'.system.world.db.server.length ≤ N.system.world.db.server.length + 1 := by
  obtain ⟨q, u, hq, -, hreceive, hpeers⟩ := step_transfer hstep.1
  have hlt : i < k := (List.getElem?_eq_some_iff.mp hq).1.trans_le ho.planned
  obtain ⟨p, conn, m, t, hsteps, hpeer, hconn, hopen, horigin, hname, hunderway, hview, hruns⟩ :=
    transfer_serving ho (hrank ⟨i, hlt⟩) hstep.1
  have hworld : N'.system.world = t.world := congrArg Transfer.world hruns.view
  obtain ⟨conn', hconn', -⟩ := hruns.started
  have hcontrol : conn'.control = t.thread := by
    have hthread := congrArg Transfer.thread hruns.view
    rwa [view_started hconn'] at hthread
  have helse : ∀ j, j ≠ i → Elsewhere N N' j := fun j hj =>
    transfer_elsewhere ho hreceive hpeers hj
  rcases quiet_step hunderway.stage hview with
    hcalm | ⟨hclient, hclosed, hsame, hended, hrests⟩
  · obtain ⟨m', hless, hunderway'⟩ := underway_step hunderway hcalm
    have hbeside := stage_beside hunderway.suited hunderway.stage hcalm
    rw [← hworld] at hbeside
    have hname' : t.client.name = (plan ⟨i, hlt⟩).origin.name := (step_name hview.1).trans hname
    refine ⟨⟨⟨i, hlt⟩, m' + 1, by omega, .serving _ conn' m' hruns.peer hconn' horigin hname'
      (hruns.view ▸ hunderway'), fun j hj => ?_⟩, hbeside.length⟩
    have hne : (j : ℕ) ≠ i := fun heq => hj (Fin.ext heq)
    refine standing_beside (hrank j) (helse j hne) hbeside (hplan.texts j ⟨i, hlt⟩ hj)
      (hplan.suited j).plain (fun hnew => ?_) fun conn₂ hconn₂ => ?_
    · rw [show (N.view i p).client.name = (plan ⟨i, hlt⟩).origin.name from hname]
      exact hplan.names ⟨i, hlt⟩ j hj.symm hnew
    · -- the lock is held for one thread only
      by_contra hawaits
      refine hne (ho.exclusive.single i conn j conn₂ hconn hopen hconn₂ ?_)
      intro hclosed
      rw [hclosed] at hawaits
      exact hawaits rfl
  · rw [hunderway.file] at hrests
    refine ⟨⟨⟨i, hlt⟩, 0, by omega, .served ⟨_, conn', hruns.peer, horigin, ?_, hconn',
      hcontrol.trans hclosed, ?_⟩, fun j hj => ?_⟩, ?_⟩
    · exact (congrArg Client.control hclient).trans hended
    · show Rests N'.system.world t.client.id _ _
      rw [hworld, hsame, hclient]
      exact hrests
    · exact standing_same (hrank j) (helse j fun heq => hj (Fin.ext heq)) (hworld.trans hsame)
    · rw [hworld, hsame]
      exact Nat.le_succ _

end Steps

section Runs

theorem event_moves {rank : Fin k → ℕ} {e : ClientNetwork.Event} (hplan : Planned cpp py plan)
    (ho : Orderly k N) (hrank : ∀ i : Fin k, Standing cpp py N i (plan i) (rank i))
    (hids : N.system.world.db.server.length < 256 ^ clientIdSize)
    (hstep : PlanStep cpp py plan N e N') : Moves cpp py plan rank N' ∧
      N'.system.world.db.server.length ≤ N.system.world.db.server.length + 1 := by
  cases e with
  | connect o =>
    obtain ⟨hmoves, hsystem⟩ := connect_moves ho hrank hstep
    exact ⟨hmoves, by rw [hsystem]; exact Nat.le_succ _⟩
  | accept =>
    obtain ⟨hmoves, hworld⟩ := accept_moves ho hrank hstep
    exact ⟨hmoves, by rw [hworld]; exact Nat.le_succ _⟩
  | start =>
    obtain ⟨hmoves, hworld⟩ := start_moves hplan ho hrank hids hstep
    exact ⟨hmoves, by rw [hworld]; exact Nat.le_succ _⟩
  | transfer i e => exact transfer_moves hplan ho hrank hstep

theorem going_step {e : ClientNetwork.Event} (hplan : Planned cpp py plan)
    (h : Going cpp py plan N n) (hstep : PlanStep cpp py plan N e N') :
    ∃ m < n, Going cpp py plan N' m := by
  have hids := h.ids
  obtain ⟨rank, hrank, -⟩ := h.standing
  have hrows := (event_moves hplan h.orderly hrank (by omega) hstep).2
  obtain ⟨m, hlt, hstanding⟩ := Simulation.together_step h.standing fun rank hrank =>
    (event_moves hplan h.orderly hrank (by omega) hstep).1
  exact ⟨m, hlt, orderly_step h.orderly hstep, hstanding, by omega⟩

/-- When the lock is free and nobody waits, a client that has connected is served. -/
theorem standing_quiescent (h : Standing cpp py N i v n) (ho : Orderly k N)
    (hpeer : i < N.peers.length) (haccepted : N.peers.length ≤ N.system.accepted)
    (hwaiting : N.system.waiting = none) (hlock : N.system.lock = false) : Served N i v := by
  cases h with
  | awaited hnone =>
    rw [List.getElem?_eq_none_iff] at hnone
    omega
  | connected w _ hle => omega
  | accepted w _ hsome => cases hwaiting.symm.trans hsome
  | serving p conn m _ hconn _ _ hunderway =>
    have hawaits := stage_awaits hunderway.stage
    rw [view_started hconn] at hawaits
    have hheld := ho.exclusive.held i conn hconn fun hclosed => by
      change conn.control.awaits = true at hawaits
      rw [hclosed] at hawaits
      cases hawaits
    cases hlock.symm.trans hheld
  | served h => exact h

theorem going_progress (h : Going cpp py plan N n)
    (hrest : ¬∀ i : Fin k, Served N i (plan i)) : ∃ e N', PlanStep cpp py plan N e N' := by
  have ho := h.orderly
  obtain ⟨rank, hrank, -⟩ := h.standing
  by_cases hlock : N.system.lock = true
  · obtain ⟨c, conn, hconn, hopen⟩ := ho.locked hlock
    have hlt : c < N.system.accepted := by
      by_contra hge
      cases hconn.symm.trans (ho.fresh.unused c (Nat.not_lt.mp hge))
    have hplanned : c < k := hlt.trans_le (ho.accepted.trans ho.planned)
    obtain ⟨p, m, -, hpeer, -, -, hunderway⟩ :=
      standing_started (hrank ⟨c, hplanned⟩) ho hconn hopen
    obtain ⟨e, t, hstep⟩ := quiet_progress hunderway.suited hunderway.stage
    obtain ⟨N', hN', -⟩ := runs_step ⟨hpeer, rfl, conn, hconn, fun _ => hlock⟩ hstep
    exact ⟨.transfer c e, N', hN', trivial⟩
  · rw [Bool.not_eq_true] at hlock
    cases hwaiting : N.system.waiting with
    | some c =>
      obtain ⟨s, hs⟩ : ∃ s, N.system.next py .start = some s := by
        simp [System.next, hwaiting, hlock]
      exact ⟨.start, ⟨s, N.peers⟩, ⟨by rw [Network.next, hs]; rfl, trivial⟩, trivial⟩
    | none =>
      by_cases hlt : N.system.accepted < N.peers.length
      · obtain ⟨s, hs⟩ : ∃ s, N.system.next py .accept = some s := by
          simp [System.next, hwaiting]
        refine ⟨.accept, ⟨s, N.peers⟩, ⟨?_, trivial⟩, trivial⟩
        rw [Network.next, if_pos hlt, hs]
        rfl
      · by_cases hmore : N.peers.length < k
        · exact ⟨.connect (plan ⟨_, hmore⟩).origin, _, ⟨rfl, trivial⟩, hmore, rfl⟩
        · refine absurd (fun i => ?_) hrest
          exact standing_quiescent (hrank i) ho (i.isLt.trans_le (Nat.not_lt.mp hmore))
            (Nat.not_lt.mp hlt) hwaiting hlock

theorem going_initial (hinvited : ∀ i, Invited (plan i) w (plan i).origin.isRegistered)
    (hids : w.db.server.length + ∑ i, (plan i).steps < 256 ^ clientIdSize) :
    Going cpp py plan (.initial w) (∑ i, (plan i).steps) where
  orderly := ⟨(LockRelease.initial_invariant w).fresh, exclusive_initial w, nofun, le_rfl,
    Nat.zero_le k⟩
  standing := ⟨fun i => (plan i).steps, fun i => .awaited rfl (hinvited i), rfl⟩
  ids := hids

theorem no_step_of_served {e : ClientNetwork.Event} (ho : Orderly k N)
    (h : ∀ i : Fin k, Served N i (plan i)) : ¬PlanStep cpp py plan N e N' := by
  rintro ⟨hstep, hfollows⟩
  have hthread : ∀ c, c < k → N.system.thread c ≠ none := by
    intro c hc hnone
    obtain ⟨p, conn, -, -, -, hconn, -⟩ := h ⟨c, hc⟩
    cases hconn.symm.trans hnone
  cases e with
  | connect o =>
    obtain ⟨hlt, -⟩ := hfollows
    obtain ⟨p, conn, hpeer, -⟩ := h ⟨N.peers.length, hlt⟩
    exact absurd (List.getElem?_eq_some_iff.mp hpeer).1 (Nat.lt_irrefl _)
  | accept =>
    obtain ⟨hlt, -⟩ := step_accept hstep
    exact hthread _ (hlt.trans_le ho.planned) (ho.fresh.unused _ le_rfl)
  | start =>
    obtain ⟨c, hwaiting, -⟩ := ServerSystem.step_start (step_start hstep).1
    obtain ⟨hnone, hlt⟩ := ho.fresh.waiting c hwaiting
    exact hthread c (hlt.trans_le (ho.accepted.trans ho.planned)) hnone
  | transfer i e =>
    obtain ⟨p, t, hpeer, hview, -⟩ := step_transfer hstep
    have hlt := (List.getElem?_eq_some_iff.mp hpeer).1.trans_le ho.planned
    obtain ⟨p', conn, hsome, -, hended, hconn, hclosed, -⟩ := h ⟨i, hlt⟩
    cases hsome.symm.trans hpeer
    exact no_transfer_served hconn hclosed hended hview

def newOrigin : Origin :=
  ⟨[0x62], emptyId, samplePublicKey, filled symmetricKeySize 0, [0x79], [0x61], false,
    fun _ => 0, packetSize⟩

/-- One client that the server knows, and a new one. -/
def samplePlan : Fin 2 → Visit
  | 0 => ⟨sampleOrigin, [0x78]⟩
  | 1 => ⟨newOrigin, [0x79]⟩

theorem sample_planned : Planned sampleCpp samplePy samplePlan := by
  have hx : fieldText (nameField [0x78]).val = some [0x78] := by decide
  have hy : fieldText (nameField [0x79]).val = some [0x79] := by decide
  refine ⟨Fin.forall_fin_two.mpr ⟨?_, ?_⟩, Fin.forall_fin_two.mpr ⟨le_rfl, le_rfl⟩, by decide,
    by decide⟩
  · exact sample_suited rfl (.inr rfl) rfl hx (by decide)
  · exact sample_suited rfl (.inl rfl) rfl hy (by decide)

theorem sample_invited : ∀ i : Fin 2,
    Invited (samplePlan i) .withClient (samplePlan i).origin.isRegistered := by
  refine Fin.forall_fin_two.mpr ⟨sample_expected, ?_⟩
  refine ⟨by decide, ⟨[0x62], by decide, by decide, by decide⟩, fun id _ => ?_⟩
  exact ⟨.inr ⟨rfl, by decide, rfl⟩, rfl, .inr (by decide)⟩

end Runs

end CalmNetwork
