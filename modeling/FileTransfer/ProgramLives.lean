import FileTransfer.ClientProgram

/-! # The lives of the client program

The client and the server each keep what a registration gave them, the one in `me.info` and the
other in its table. A process that dies between the two leaves a name that is taken, and no
client that has it. -/
namespace ProgramLives

open ByteField PathWalk ServerProtocol ServerTables ServerState ServerHandlers ServerThread
  ClientChannel ClientFile ClientLogic ClientLogic.Client StepRun TransferAnswers TransferSession
  ClientConfig SocketParams CalmServer CalmClient CalmTransfer ClientProgram
open RegisteredRestart (Accepted)

section Definitions

/-- What the two sides have of the registration: nothing, the id with the server alone and on
its way, both the id, or the server alone for ever. -/
inductive Bond where
  | free
  | granted (id : ClientId)
  | known (id : ClientId) (key : Bytes)
  | orphaned

inductive Bond.Step : Bond → Bond → Prop where
  | stays (o : Bond) : Step o o
  | grants (id : ClientId) : Step .free (.granted id)
  | settles (id : ClientId) (key : Bytes) : Step (.granted id) (.known id key)
  | loses (id : ClientId) : Step (.granted id) .orphaned
  | strands : Step .free .orphaned

structure Nobody (user text : Text) (w : World) : Prop where
  name : w.db.hasName user = false
  fresh : ∃ id, (∀ row ∈ w.db.server, row.id ≠ id) ∧ Room w id text

def Follows (t₀ t : Transfer) : Prop := t = t₀ ∨ t = killed t₀

structure New (cpp : CppCrypto) (py : PyCrypto) (info : TransferInfo) (text : Text)
    (t : Transfer) : Prop where
  suited : Suited cpp py t.client text
  name : t.client.name = info.name
  id : t.client.id = emptyId
  queue : t.client.Alone

/-- A client without an id that has heard refusals at most. -/
structure Declined (c : Client) : Prop where
  id : c.id = emptyId
  unfinished : c.control ≠ .ended false
  waits : c.control.awaits = true → c.control = .running ∧
    ∀ data, c.buffer = some data → responseCode data = registrationFailed

structure Refused (info : TransferInfo) (user : Text) (t : Transfer) : Prop where
  name : t.world.db.hasName user = true
  client : Declined t.client
  thread : ¬t.thread.awaits ∨ t.thread = .reading ∧
    (t.toServer = [] ∧ ¬t.client.control.awaits ∨
      ∃ beyond, t.toServer = (writePackets (registrationRequestMessage info.name) beyond).flatten)
  packets : t.client.control.awaits = true →
    (∀ packet ∈ t.toClient, packet ∈ responsePackets .registrationFailed) ∧
      (t.thread.awaits = true → t.toClient = [])

variable (b : TextLibrary) (lib : CppLibrary) (py : PyCrypto) (info : TransferInfo)
  (user text : Text)

inductive Stands : Bond → Program → Prop where
  | unused {file : Option Bytes} {w : World} : file = none ∨ file = madeFile info.name →
      Nobody user text w → Stands .free (.resting file w)
  | asking {config : ConfigManager} {key : Bytes} {t₀ t : Transfer} :
      config.file = madeFile info.name → KeyWorks lib py key →
      New (lib.under key) py info text t₀ → Asked t₀ (registrationRequestMessage t₀.client.name) →
      Nobody user text t₀.world → Follows t₀ t → Stands .free (.going config key t)
  | unheard {config : ConfigManager} {key : Bytes} {t : Transfer} :
      config.file = madeFile info.name → t.client.id = emptyId →
      t.client.control ≠ .ended false → Nobody user text t.world → Over t →
      Stands .free (.going config key t)
  | told {config : ConfigManager} {id : ClientId} {key : Bytes} {t : Transfer} :
      config.file = madeFile info.name → KeyWorks lib py key →
      New (lib.under key) py info text t → Told t (.registrationSucceeded id) →
      t.world.db.hasName user = true → Welcome t.world id text →
      Stands (.granted id) (.going config key t)
  | between {id : ClientId} {key : Bytes} {w : World} : KeyWorks lib py key →
      Welcome w id text → Stands (.known id key) (.resting (registeredFile b info.name id key) w)
  | underway {config : ConfigManager} {id : ClientId} {key content : Bytes} {t₀ t : Transfer}
      {n : ℕ} : config.file = registeredFile b info.name id key → KeyWorks lib py key →
      t₀.client.id = id → Underway (lib.under key) py text content t₀ n →
      n < cipherSize content + 8 → Follows t₀ t → Stands (.known id key) (.going config key t)
  | ended {config : ConfigManager} {id : ClientId} {key : Bytes} {t : Transfer} :
      config.file = registeredFile b info.name id key → KeyWorks lib py key → t.client.id = id →
      Welcome t.world id text → Over t → Stands (.known id key) (.going config key t)
  | locked {w : World} : w.db.hasName user = true →
      Stands .orphaned (.resting (madeFile info.name) w)
  | refused {config : ConfigManager} {key : Bytes} {t : Transfer} :
      config.file = madeFile info.name → Refused info user t →
      Stands .orphaned (.going config key t)

def Leads (o : Bond) (p : Program) : Prop :=
  ∃ o', Bond.Step o o' ∧ Stands b lib py info user text o' p

inductive Goes (config : ConfigManager) (key : Bytes) (t : Transfer) : Program → Prop where
  | transfer {e : TransferSession.Event} {t' : Transfer} :
      TransferStep (lib.under key) py t e t' → Natural py (lib.under key) t e →
      Goes config key t (.going (configured b config key t e) key t')
  | stop : t.client.control.awaits = true → Goes config key t (.going config key (killed t))
  | close : ¬t.client.control.awaits = true → t.thread = .closed →
      Goes config key t (.resting config.file t.world)
  | reboot : ¬t.client.control.awaits = true →
      Goes config key t (.resting config.file (reboot t.world))

inductive Starts (file : Option Bytes) (w : World) : Program → Prop where
  | opened {l : Launch} {built : Built} : initializeClient b lib info file l = built →
      LaunchWorks lib py l → Starts file w (.going built.config built.privateKey
        (.start built.client built.isRegistered w l.beyond l.delivered))
  | unopened {l : Launch} {built : Built} : initializeClient b lib info file l = built →
      Starts file w (.resting built.config.file w)
  | reboot : Starts file w (.resting file (reboot w))

/-- The client of the program has ended without an error, and the file is on the disk. -/
def Completed (content : Bytes) (p : Program) : Prop :=
  ∃ config key t, p = .going config key t ∧ Done content t text

/-- `me.info` holds the registration, the server has the client, and a process works under the
id and the key. -/
structure Bound (p : Program) (id : ClientId) (key : Bytes) : Prop where
  file : Holds b info p.file id key
  client : p.world.db.hasClient id = true
  process : ∀ config k t, p = .going config k t → k = key ∧ t.client.id = id

end Definitions

variable {b : TextLibrary} {lib : CppLibrary} {py : PyCrypto} {info : TransferInfo}
  {user text : Text}
  {cpp : CppCrypto} {t t' t₀ : Transfer} {w : World} {n : ℕ}

section Worlds

theorem welcome_reboot {id : ClientId} (h : Welcome w id text) : Welcome (reboot w) id text :=
  ⟨h.client, h.room.dir, h.room.place, h.room.name⟩

theorem nobody_reboot (h : Nobody user text w) : Nobody user text (reboot w) := by
  obtain ⟨id, hnew, hroom⟩ := h.fresh
  exact ⟨h.name, id, hnew, hroom.dir, hroom.place, hroom.name⟩

theorem calm_of_natural {e : TransferSession.Event} (hawaits : t.client.control.awaits = true)
    (hthread : t.thread ≠ .closed) (hnext : TransferStep cpp py t e t')
    (h : Natural py cpp t e) : CalmStep cpp py t e t' := by
  refine ⟨hnext, ?_⟩
  cases e with
  | read fails beyond delivered =>
    rcases h with hcalm | ⟨-, hclosed, -⟩
    · exact hcalm
    · exact absurd hclosed hthread
  | recv n env => exact h
  | recvEnds env => exact absurd hawaits (step_recvEnds hnext).2.2.1
  | recvRaises env => exact absurd hawaits h.2

end Worlds

section Refusals

variable {c : Client} {packet : Option Bytes} {e : TransferSession.Event}

theorem declined_gone (hid : c.id = emptyId) (hended : c.control ≠ .ended false)
    (hgone : ¬c.control.awaits) : Declined c :=
  ⟨hid, hended, fun hawaits => absurd hawaits hgone⟩

theorem declined_stopped (h : Declined c) :
    Declined { c with isOpen := false, control := .stopped } :=
  declined_gone h.id nofun nofun

theorem declined_failed (h : Declined c) : Declined c.writeFailed := by
  unfold writeFailed
  split
  · exact declined_stopped h
  · exact declined_gone h.id nofun nofun
  · next hrunning hresending =>
    refine declined_gone h.id h.unfinished fun hawaits => ?_
    exact hrunning (h.waits hawaits).1

theorem failed_declined (hid : c.id = emptyId) (hrunning : c.control = .running)
    (hbuffer : ∀ data, c.buffer = some data → responseCode data = registrationFailed) :
    Declined c.handelRegistrationFailed.1 := by
  have hsame : ∀ attempts, Declined { c with numOfAttempts := attempts } := by
    intro attempts
    refine ⟨hid, ?_, fun _ => ⟨hrunning, hbuffer⟩⟩
    rw [show ({ c with numOfAttempts := attempts } : Client).control = _ from hrunning]
    nofun
  unfold handelRegistrationFailed
  split
  · split
    · exact declined_gone hid nofun nofun
    · exact hsame _
  · exact declined_gone hid nofun nofun

theorem receive_declined (hid : c.id = emptyId) (hrunning : c.control = .running)
    (hbuffer : ∀ data, (c.buffered packet).buffer = some data →
      responseCode data = registrationFailed) : Declined (c.receive cpp packet).1 := by
  have hdispatch : Declined (dispatch cpp (c.buffered packet)).1 := by
    cases hdata : (c.buffered packet).buffer with
    | none =>
      unfold dispatch
      rw [hdata]
      exact declined_gone hid nofun nofun
    | some data =>
      rw [dispatch_failed hdata (hbuffer data hdata)]
      exact failed_declined hid hrunning hbuffer
  rw [receive_running hrunning]
  rcases (dispatch cpp (c.buffered packet)).1.atLoopHead_cases with hsame | hstopped
  · dsimp only
    rwa [hsame]
  · dsimp only
    rw [hstopped]
    exact declined_gone hdispatch.id nofun nofun

theorem buffered_declined (hbuffer : ∀ data, c.buffer = some data →
      responseCode data = registrationFailed)
    (hpacket : ∀ p, packet = some p → p ∈ responsePackets .registrationFailed) :
    ∀ data, (c.buffered packet).buffer = some data → responseCode data = registrationFailed := by
  intro data hdata
  cases packet with
  | none => exact hbuffer data hdata
  | some p =>
    have hother : (Response.registrationFailed).code ≠ publicKeyReceived :=
      (by decide : registrationFailed ≠ publicKeyReceived)
    obtain ⟨-, hlength, hcode, -⟩ := mem_responsePackets (onePacket_of_code hother) (hpacket p rfl)
    have haccepts := accepts_response (onePacket_of_code hother) (hpacket p rfl)
      fun hkey => absurd hkey hother
    obtain ⟨-, rest, hread⟩ := buffered_accepted haccepts c
    have hheader : headerSize ≤ p.length := by
      rw [hlength]
      decide
    cases hread.symm.trans hdata
    rw [(header_copied hheader (getHeader p) rest).1, hcode]
    rfl

theorem registration_refuses {env : Env} {q : RegistrationRequest} {handled : Option Request}
    (hcalm : Calm env) (hname : w.db.hasName q.name = true) :
    let out := settle env w handled (registration env q)
    out.control = .closed ∧ out.sent = [.registrationFailed, .registrationFailed] ∧
      out.world = w := by
  intro out
  have hclosed : ¬Registrable (Turn.start w env) q.name :=
    fun hopen => hopen.2 ⟨hcalm.sql 0, hname⟩
  rw [show out = _ from settle_refused env (registration_refused env hclosed), hcalm.sendOk]
  by_cases hascii : isAscii q.name = true
  · rw [if_pos hascii]
    exact ⟨rfl, rfl, rfl⟩
  · rw [if_neg hascii]
    exact ⟨rfl, rfl, rfl⟩

theorem react_world (t : Transfer) (r : Reaction) (beyond : ℕ → UInt8) (delivered : ℕ) :
    (t.react r beyond delivered).world = t.world := by
  unfold Transfer.react
  split <;> rfl

theorem refused_read {fails : Bool} {beyond : ℕ → UInt8} {delivered : ℕ}
    (h : Refused info user t) (hnext : TransferStep cpp py t (.read fails beyond delivered) t')
    (hnatural : Natural py cpp t (.read fails beyond delivered)) :
    Refused info user t' ∧ approved t (.read fails beyond delivered) = none := by
  obtain ⟨hawaits, hsome, toClient, hsuffix, rfl⟩ := step_reads hnext
  obtain ⟨hrunning, hbuffer⟩ := h.client.waits hawaits
  obtain ⟨hpackets, hfirst⟩ := h.packets hawaits
  have hthread : ¬t.thread.awaits = true := by
    intro hreads
    rcases hnatural with ⟨hfails, -⟩ | ⟨-, hclosed, -⟩
    · exact hsome hfails (hfirst hreads)
    · rw [hclosed] at hreads
      cases hreads
  have hpacket : ∀ p, (if fails then none else t.toClient.head?) = some p →
      p ∈ responsePackets .registrationFailed := by
    intro p hp
    split at hp
    · cases hp
    · exact hpackets p (List.mem_of_head? hp)
  have hread := buffered_declined hbuffer hpacket
  have hdeclined := @receive_declined cpp _ _ h.client.id hrunning hread
  obtain ⟨hsameThread, hsameClient, hclient⟩ := react_leaves { t with toClient }
    (t.client.receive cpp (if fails then none else t.toClient.head?)) beyond delivered
  refine ⟨⟨?_, ?_, .inl ?_, ?_⟩, ?_⟩
  · rw [react_world]
    exact h.name
  · rcases hclient with hclient | hclient
    · rw [hclient]
      exact hdeclined
    · rw [hclient]
      exact declined_failed hdeclined
  · rw [hsameThread]
    exact hthread
  · intro _
    rw [hsameThread, hsameClient]
    exact ⟨fun packet hp => hpackets packet (hsuffix.mem hp), fun hreads => absurd hreads hthread⟩
  · unfold approved approvedId
    dsimp only
    rw [if_pos hrunning]
    cases hdata : (t.client.buffered (if fails then none else t.toClient.head?)).buffer with
    | none => rfl
    | some data =>
      rw [Option.bind_some, hread data hdata]
      rfl

theorem refused_step (huser : fieldText (clientName info.name) = some user)
    (h : Refused info user t) (hnext : TransferStep cpp py t e t')
    (hnatural : Natural py cpp t e) : Refused info user t' ∧ approved t e = none := by
  -- a connection that ends behind a client that is gone
  have hends : ∀ {env : Env} {r : RecvResult}, t.thread.awaits = true →
      ¬t.client.control.awaits = true → (r = .raises ∨ r = .chunk []) →
        Refused info user (t.serve py r env) := by
    intro env r hreads hgone hr
    obtain ⟨hthread, -⟩ := h.thread.resolve_left fun hnot => hnot hreads
    obtain ⟨control, hquiet, hended⟩ := readStep_ended py env t.world hr
    have hout : readStep py env t.world t.thread r = .quiet t.world control := by
      rw [hthread]
      exact hquiet
    refine ⟨?_, h.client, .inl ?_, fun hawaits => absurd hawaits hgone⟩
    · show (readStep py env t.world t.thread r).world.db.hasName user = true
      rw [hout]
      exact h.name
    · show ¬(readStep py env t.world t.thread r).control.awaits = true
      rw [hout, ReadStep.quiet, hended]
      exact Bool.false_ne_true
  cases e with
  | read fails beyond delivered => exact refused_read h hnext hnatural
  | recv n env =>
    refine ⟨?_, rfl⟩
    obtain ⟨hreads, hpos, -, hlength, -⟩ := step_recv hnext
    obtain ⟨hthread, hserver⟩ := h.thread.resolve_left fun hnot => hnot hreads
    rcases hserver with ⟨hempty, -⟩ | hserver
    · rw [hempty, List.length_nil] at hlength
      omega
    · obtain ⟨q, rfl, hparsed⟩ := ofData_registration huser
      have hmessage := length_registrationMessage info.name
      obtain ⟨hcalm, -, -, hafter⟩ := recv_short hthread hserver
        (List.ne_nil_of_length_pos (by omega)) (by rw [hmessage]; decide) hparsed hnext hnatural
      obtain ⟨hcontrol, hsent, hworld⟩ := registration_refuses hcalm h.name
      have hclosed : ¬t'.thread.awaits = true := by
        rw [hafter.thread, show (settle env t.world _ (handle py env _)).control = _ from hcontrol]
        exact Bool.false_ne_true
      refine ⟨?_, ?_, .inl hclosed, ?_⟩
      · rw [hafter.world, show (settle env t.world _ (handle py env _)).world = _ from hworld]
        exact h.name
      · rw [hafter.client]
        exact h.client
      · intro hawaits
        rw [hafter.client] at hawaits
        refine ⟨?_, fun hreads' => absurd hreads' hclosed⟩
        rw [hafter.toClient, (h.packets hawaits).2 hreads,
          show (settle env t.world _ (handle py env _)).sent = _ from hsent]
        intro packet hp
        simpa using hp
  | recvEnds env =>
    obtain ⟨hreads, -, hgone, rfl⟩ := step_recvEnds hnext
    exact ⟨hends hreads hgone (.inr rfl), rfl⟩
  | recvRaises env =>
    obtain ⟨hreads, rfl⟩ := step_recvRaises hnext
    exact ⟨hends hreads hnatural.2 (.inl rfl), rfl⟩

theorem refused_killed (h : Refused info user t) : Refused info user (killed t) where
  name := h.name
  client := declined_stopped h.client
  thread := by
    refine h.thread.imp_right fun ⟨hthread, hserver⟩ => ⟨hthread, ?_⟩
    exact hserver.imp_left fun hempty => ⟨hempty.1, Bool.false_ne_true⟩
  packets hawaits := nomatch hawaits

end Refusals

section Steps

variable {config : ConfigManager} {key : Bytes} {id : ClientId} {file : Option Bytes}
  {p p' : Program} {o : Bond} {e : ClientProgram.Event} {f : TransferSession.Event}

theorem going_step (h : ProgramStep b lib py info (.going config key t) e p') :
    Goes b lib py config key t p' := by
  obtain ⟨hnext, hoccurs⟩ := h
  cases e with
  | launch l => cases hnext
  | transfer f =>
    obtain ⟨t', ht', rfl⟩ := Option.map_eq_some_iff.mp hnext
    exact .transfer ht' hoccurs
  | stop =>
    simp only [Program.next] at hnext
    split at hnext
    · next hawaits =>
      cases hnext
      exact .stop hawaits
    · cases hnext
  | close =>
    simp only [Program.next] at hnext
    split at hnext
    · next hends =>
      cases hnext
      exact .close hends.1 hends.2
    · cases hnext
  | reboot =>
    simp only [Program.next] at hnext
    split at hnext
    · next hgone =>
      cases hnext
      exact .reboot hgone
    · cases hnext

theorem resting_step (h : ProgramStep b lib py info (.resting file w) e p') :
    Starts b lib py info file w p' := by
  obtain ⟨hnext, hoccurs⟩ := h
  cases e with
  | launch l =>
    simp only [Program.next] at hnext
    split at hnext
    · cases hnext
      exact .opened rfl hoccurs
    · cases hnext
      exact .unopened rfl
  | reboot =>
    cases hnext
    exact .reboot
  | transfer f => cases hnext
  | stop => cases hnext
  | close => cases hnext

theorem configured_none (h : approved t f = none) : configured b config key t f = config := by
  rw [configured, h]
  rfl

theorem approved_gone (hgone : ¬t.client.control.awaits = true)
    (hnext : TransferStep cpp py t f t') : approved t f = none := by
  cases f with
  | read fails beyond delivered => exact absurd (step_reads hnext).1 hgone
  | recv n env => rfl
  | recvEnds env => rfl
  | recvRaises env => rfl

theorem start_new {l : Launch} {built : Built} (hb : b.Lawful) (hinfo : InfoWorks b info user text)
    (hl : LaunchWorks lib py l) (hfile : file = none ∨ file = madeFile info.name)
    (hbuilt : initializeClient b lib info file l = built) :
    let t := Transfer.start built.client built.isRegistered w l.beyond l.delivered
    built.config.file = madeFile info.name ∧ KeyWorks lib py built.privateKey ∧
      New (lib.under built.privateKey) py info text t ∧
      Asked t (registrationRequestMessage t.client.name) ∧ t.world = w ∧
      t.client.buffer = none := by
  subst hbuilt
  obtain ⟨hnew, hmade, hkey, hclient⟩ :=
    @initializeClient_new b lib info file l hb hinfo.accepted hfile
  rw [hnew, hmade, hkey, hclient]
  have hsuited := suited_client hinfo hl.key hl.file emptyId
  obtain ⟨hasked, hworld, hsame⟩ := @start_registering w l.beyond l.delivered
    (.opened info.name emptyId (lib.buildRsaKeySet l.privateKey) (filled symmetricKeySize 0)
      info.filePath l.file) rfl rfl rfl rfl hl.delivered
  refine ⟨rfl, hl.key, ⟨?_, ?_, ?_, ?_⟩, hasked, hworld, ?_⟩
  · rw [hsame]
    refine @suited_congr _ _ _ _ _ ?_ hsuited
    rfl
  · rw [hsame]
    rfl
  · rw [hsame]
    rfl
  · rw [hsame]
    exact ⟨rfl, rfl⟩
  · rw [hsame]
    rfl

theorem leads_stays (h : Stands b lib py info user text o p) :
    Leads b lib py info user text o p := ⟨o, .stays o, h⟩

theorem unused_leads (hb : b.Lawful) (hinfo : InfoWorks b info user text)
    (hfile : file = none ∨ file = madeFile info.name) (hw : Nobody user text w)
    (h : Starts b lib py info file w p') : Leads b lib py info user text .free p' := by
  cases h with
  | @opened l built hbuilt hl =>
    obtain ⟨hmade, hkey, hnew, hasked, hworld, -⟩ := @start_new b lib py info user text w file l
      built hb hinfo hl hfile hbuilt
    refine leads_stays (.asking hmade hkey hnew hasked ?_ (.inl rfl))
    rw [hworld]
    exact hw
  | @unopened l built hbuilt =>
    obtain ⟨-, hmade, -⟩ := @initializeClient_new b lib info file l hb hinfo.accepted hfile
    rw [hbuilt] at hmade
    exact leads_stays (.unused (.inr hmade) hw)
  | reboot => exact leads_stays (.unused hfile (nobody_reboot hw))

theorem refused_served (hid : t.client.id = emptyId) (htold : Told t (.registrationSucceeded id))
    (hname : t.world.db.hasName user = true) : Refused info user (killed t) where
  name := hname
  client := declined_gone hid nofun Bool.false_ne_true
  thread := .inr ⟨htold.thread, .inl ⟨htold.server, Bool.false_ne_true⟩⟩
  packets hawaits := nomatch hawaits

theorem new_nameless (hinfo : InfoWorks b info user text) (hnew : New cpp py info text t)
    (hw : Nobody user text t.world) : Nameless t.client t.world text where
  id := by
    rw [hnew.id]
    decide
  name := by
    rw [hnew.name]
    exact ⟨user, hinfo.userName, hinfo.ascii, hw.name⟩
  fresh := hw.fresh

theorem asking_server {message : Bytes} (hpos : 0 < message.length) (h : Asked t message) :
    t.toServer ≠ [] := by
  obtain ⟨beyond, hserver⟩ := h.server
  apply List.ne_nil_of_length_pos
  rw [hserver, length_stream]
  simp only [packetSize, packetCount]
  omega

theorem not_closed {control : ServerThread.Control}
    (h : control = .reading ∨ ∃ p, control = .receiving p ∧ 0 < p.need) : control ≠ .closed := by
  rcases h with rfl | ⟨p, rfl, -⟩
  · nofun
  · nofun

theorem asking_granted (hinfo : InfoWorks b info user text)
    (hfile : config.file = madeFile info.name) (hkey : KeyWorks lib py key)
    (hnew : New (lib.under key) py info text t)
    (hasked : Asked t (registrationRequestMessage t.client.name))
    (hw : Nobody user text t.world) {e : TransferSession.Event}
    (hstep : CalmStep (lib.under key) py t e t') :
    configured b config key t e = config ∧
      ∃ id, Stands b lib py info user text (.granted id) (.going config key t') := by
  obtain ⟨id, htold, hclient, hwelcome, hname⟩ :=
    registering_told hnew.suited hasked (new_nameless hinfo hnew hw) hstep
  have hother : approved t e = none := by
    cases e with
    | read fails beyond delivered => exact (no_read hasked.client hstep).elim
    | recv n env => rfl
    | recvEnds env => rfl
    | recvRaises env => rfl
  refine ⟨configured_none hother, id, .told hfile hkey ⟨?_, ?_, ?_, ?_⟩ htold ?_ hwelcome⟩
  · rw [hclient]
    exact hnew.suited
  · rw [hclient]
    exact hnew.name
  · rw [hclient]
    exact hnew.id
  · rw [hclient]
    exact hnew.queue
  · exact hname user (by rw [hnew.name]; exact hinfo.userName)

theorem asking_leads (hinfo : InfoWorks b info user text)
    (hfile : config.file = madeFile info.name) (hkey : KeyWorks lib py key)
    (hnew : New (lib.under key) py info text t₀)
    (hasked : Asked t₀ (registrationRequestMessage t₀.client.name))
    (hw : Nobody user text t₀.world) (hfollows : Follows t₀ t)
    (h : Goes b lib py config key t p') : Leads b lib py info user text .free p' := by
  have hlength := length_registrationMessage t₀.client.name
  have hnameless := new_nameless hinfo hnew hw
  have hreading : t₀.thread ≠ .closed := by
    rw [hasked.thread]
    nofun
  rcases hfollows with rfl | rfl
  · have hawaits : t.client.control.awaits = true := by
      rw [hasked.running]
      rfl
    cases h with
    | @transfer e t' hnext hnatural =>
      obtain ⟨hconfigured, id, hstands⟩ := asking_granted (b := b) hinfo hfile hkey hnew hasked hw
        (calm_of_natural hawaits hreading hnext hnatural)
      rw [hconfigured]
      exact ⟨.granted id, .grants id, hstands⟩
    | stop => exact leads_stays (.asking hfile hkey hnew hasked hw (.inr rfl))
    | close hgone => exact absurd hawaits hgone
    | reboot hgone => exact absurd hawaits hgone
  · have hgone : ¬(killed t₀).client.control.awaits = true := Bool.false_ne_true
    cases h with
    | @transfer e t' hnext hnatural =>
      rw [configured_none (approved_gone hgone hnext)]
      cases e with
      | read fails beyond delivered => exact absurd (step_reads hnext).1 hgone
      | recv n env =>
        obtain ⟨t₁, hstep, rfl⟩ := killed_recv hnext
        obtain ⟨id, htold, hclient, -, hname⟩ :=
          registering_told hnew.suited hasked hnameless ⟨hstep, hnatural⟩
        refine ⟨.orphaned, .strands, .refused hfile (refused_served ?_ htold ?_)⟩
        · rw [hclient]
          exact hnew.id
        · exact hname user (by rw [hnew.name]; exact hinfo.userName)
      | recvEnds env =>
        have hserver : t₀.toServer = [] := (step_recvEnds hnext).2.1
        exact absurd hserver (asking_server (by omega) hasked)
      | recvRaises env =>
        obtain ⟨hover, hworld, hclient⟩ := ends_over hgone (.inl hasked.thread) (.inr rfl) hnext
        refine leads_stays (.unheard hfile ?_ ?_ ?_ hover)
        · rw [hclient]
          exact hnew.id
        · rw [hclient]
          nofun
        · rw [hworld]
          exact hw
    | stop hawaits => exact absurd hawaits hgone
    | close _ hclosed => exact absurd hclosed hreading
    | reboot =>
      rw [hfile]
      exact leads_stays (.unused (.inr rfl) (nobody_reboot hw))

theorem unheard_leads (hfile : config.file = madeFile info.name) (hid : t.client.id = emptyId)
    (hended : t.client.control ≠ .ended false) (hw : Nobody user text t.world) (hover : Over t)
    (h : Goes b lib py config key t p') : Leads b lib py info user text .free p' := by
  cases h with
  | transfer hnext =>
    obtain ⟨hover', hworld, hclient⟩ := over_step hover hnext
    rw [configured_none (approved_gone hover.client hnext)]
    refine leads_stays (.unheard hfile ?_ ?_ ?_ hover')
    · rw [hclient]
      exact hid
    · rw [hclient]
      exact hended
    · rw [hworld]
      exact hw
  | stop hawaits => exact absurd hawaits hover.client
  | close =>
    rw [hfile]
    exact leads_stays (.unused (.inr rfl) hw)
  | reboot =>
    rw [hfile]
    exact leads_stays (.unused (.inr rfl) (nobody_reboot hw))

theorem configured_file (hb : b.Lawful) (hfile : config.file = madeFile info.name)
    (hid : t.client.id = emptyId) (h : approved t f = some id) :
    (configured b config key t f).file = registeredFile b info.name id key := by
  rw [configured, h, Option.map_some, Option.getD_some, hid,
    RegisteredRestart.setClientId_file hb hfile, registeredFile,
    RegisteredRestart.registered_none hb]

theorem told_reads {r : Response} (h : Told t r) (hstep : CalmStep cpp py t f t') :
    ∃ beyond delivered, f = .read false beyond delivered := by
  obtain ⟨hnext, hcalm⟩ := hstep
  cases f with
  | read fails beyond delivered =>
    obtain ⟨rfl, -⟩ := hcalm
    exact ⟨beyond, delivered, rfl⟩
  | recv n env =>
    obtain ⟨-, hpos, -, hlength, -⟩ := step_recv hnext
    rw [h.server, List.length_nil] at hlength
    omega
  | recvEnds env => exact hcalm.elim
  | recvRaises env => exact hcalm.elim

theorem told_leads (hb : b.Lawful) (hinfo : InfoWorks b info user text)
    (hfile : config.file = madeFile info.name) (hkey : KeyWorks lib py key)
    (hnew : New (lib.under key) py info text t) (htold : Told t (.registrationSucceeded id))
    (hname : t.world.db.hasName user = true) (hwelcome : Welcome t.world id text)
    (h : Goes b lib py config key t p') : Leads b lib py info user text (.granted id) p' := by
  have hawaits : t.client.control.awaits = true := by
    rw [htold.running]
    rfl
  cases h with
  | @transfer e t' hnext hnatural =>
    have hreading : t.thread ≠ .closed := by
      rw [htold.thread]
      nofun
    have hstep := calm_of_natural hawaits hreading hnext hnatural
    obtain ⟨beyond, delivered, rfl⟩ := told_reads htold hstep
    have happroved : approved t (.read false beyond delivered) = some id := approved_told htold
    have hempty : idIsEmpty t.client.id = some true := by
      rw [hnew.id]
      decide
    have hvalid : (fieldText (clientName t.client.name)).isSome = true := by
      rw [hnew.name]
      exact userName_valid hinfo
    have hfixed := TransferIntegrity.step_fixed hnext
    have hid : t'.client.id = id := by
      rw [step_id hnext, happroved, Option.map_some, Option.getD_some, setClientId, hempty]
    have hstage := registered_step htold hnew.queue hempty hvalid hwelcome hstep
    refine ⟨.known id key, .settles id key, .underway (configured_file hb hfile hnew.id happroved)
      hkey hid ⟨suited_congr hfixed hnew.suited, hstage, rfl⟩ (by omega) (.inl rfl)⟩
  | stop => exact ⟨.orphaned, .loses id, .refused hfile (refused_served hnew.id htold hname)⟩
  | close hgone => exact absurd hawaits hgone
  | reboot hgone => exact absurd hawaits hgone

theorem between_leads (hb : b.Lawful) (hinfo : InfoWorks b info user text)
    (hkey : KeyWorks lib py key) (hw : Welcome w id text)
    (h : Starts b lib py info (registeredFile b info.name id key) w p') :
    Leads b lib py info user text (.known id key) p' := by
  have hholds := @holds_registered b info hb hinfo.accepted id key
  cases h with
  | @opened l built hbuilt hl =>
    obtain ⟨hknown, hfile, hsame, hclient⟩ := @initializeClient_known b lib info _ id key hholds l
    rw [hbuilt] at hknown hfile hsame hclient
    rw [hknown, hsame, hclient]
    obtain ⟨hunderway, hid⟩ := @start_keying (lib.under key) py text w l.beyond l.delivered
      (.opened info.name id (lib.buildRsaKeySet key) (filled symmetricKeySize 0) info.filePath
        l.file) rfl rfl rfl rfl (suited_client hinfo hkey hl.file id) ⟨userName_valid hinfo, hw⟩
      hl.delivered
    exact leads_stays (.underway hfile hkey hid hunderway (by exact Nat.lt_succ_self _) (.inl rfl))
  | @unopened l built hbuilt =>
    obtain ⟨-, hfile, -⟩ := @initializeClient_known b lib info _ id key hholds l
    rw [hbuilt] at hfile
    rw [hfile]
    exact leads_stays (.between hkey hw)
  | reboot => exact leads_stays (.between hkey (welcome_reboot hw))

theorem underway_over {content : Bytes} (hfile : config.file = registeredFile b info.name id key)
    (hkey : KeyWorks lib py key) (hid : t₀.client.id = id)
    (hunderway : Underway (lib.under key) py text content t₀ n)
    (hn : n < cipherSize t₀.client.file + 8) (hfollows : Follows t₀ t)
    (hgone : ¬t.client.control.awaits = true) {env : Env}
    (hf : f = .recvEnds env ∨ f = .recvRaises env)
    (hnext : TransferStep (lib.under key) py t f t') : Stands b lib py info user text
      (.known id key) (.going (configured b config key t f) key t') := by
  have hwelcome := stage_welcome hunderway.stage hn
  have hthread := stage_thread hunderway.stage
  have hsame : t.thread = t₀.thread ∧ t.world = t₀.world ∧ t.client.id = t₀.client.id := by
    rcases hfollows with rfl | rfl
    · exact ⟨rfl, rfl, rfl⟩
    · exact ⟨rfl, rfl, rfl⟩
  obtain ⟨hsameThread, hsameWorld, hsameId⟩ := hsame
  rw [← hsameThread] at hthread
  obtain ⟨hover, hworld, hclient⟩ := ends_over hgone hthread hf hnext
  rw [configured_none (approved_gone hgone hnext)]
  refine .ended hfile hkey ?_ ?_ hover
  · rw [hclient, hsameId]
    exact hid
  · rw [hworld, hsameWorld, ← hid]
    exact hwelcome

theorem underway_leads {content : Bytes} (hfile : config.file = registeredFile b info.name id key)
    (hkey : KeyWorks lib py key) (hid : t₀.client.id = id)
    (hunderway : Underway (lib.under key) py text content t₀ n) (hn : n < cipherSize content + 8)
    (hfollows : Follows t₀ t) (h : Goes b lib py config key t p') :
    Leads b lib py info user text (.known id key) p' := by
  have hn' : n < cipherSize t₀.client.file + 8 := by
    rw [hunderway.file]
    exact hn
  have hopen := not_closed (stage_thread hunderway.stage)
  have hwelcome := stage_welcome hunderway.stage hn'
  rw [hid] at hwelcome
  -- a step that the client or the server makes when nothing is in the way
  have hcalm : ∀ {e : TransferSession.Event} {t₁ : Transfer},
      CalmStep (lib.under key) py t₀ e t₁ → approved t₀ e = none ∧ t₁.client.id = id ∧
        ∃ m < cipherSize content + 8, Underway (lib.under key) py text content t₁ m := by
    intro e t₁ hstep
    have hother := stage_approved hunderway.stage hn' hstep
    obtain ⟨m, hlt, hunderway'⟩ := underway_step hunderway hstep
    refine ⟨hother, ?_, m, hlt.trans hn, hunderway'⟩
    rw [step_id hstep.1, hother]
    exact hid
  cases h with
  | @transfer e t' hnext hnatural =>
    by_cases hawaits : t.client.control.awaits = true
    · obtain rfl : t = t₀ := hfollows.resolve_right fun hkilled => by
        rw [hkilled] at hawaits
        cases hawaits
      have hstep := calm_of_natural hawaits hopen hnext hnatural
      obtain ⟨hother, hid', m, hm, hunderway'⟩ := hcalm hstep
      rw [configured_none hother]
      exact leads_stays (.underway hfile hkey hid' hunderway' hm (.inl rfl))
    · cases e with
      | read fails beyond delivered => exact absurd (step_reads hnext).1 hawaits
      | recv n env =>
        rcases hfollows with rfl | rfl
        · obtain ⟨hother, hid', m, hm, hunderway'⟩ := hcalm ⟨hnext, hnatural⟩
          rw [configured_none hother]
          exact leads_stays (.underway hfile hkey hid' hunderway' hm (.inl rfl))
        · obtain ⟨t₁, hstep, rfl⟩ := killed_recv hnext
          obtain ⟨-, hid', m, hm, hunderway'⟩ := hcalm ⟨hstep, hnatural⟩
          exact leads_stays (.underway hfile hkey hid' hunderway' hm (.inr rfl))
      | recvEnds env =>
        exact leads_stays (underway_over hfile hkey hid hunderway hn' hfollows hawaits (.inl rfl)
          hnext)
      | recvRaises env =>
        exact leads_stays (underway_over hfile hkey hid hunderway hn' hfollows hawaits (.inr rfl)
          hnext)
  | stop hawaits =>
    obtain rfl : t = t₀ := hfollows.resolve_right fun hkilled => by
      rw [hkilled] at hawaits
      cases hawaits
    exact leads_stays (.underway hfile hkey hid hunderway hn (.inr rfl))
  | close _ hclosed =>
    rcases hfollows with rfl | rfl
    · exact absurd hclosed hopen
    · exact absurd hclosed hopen
  | reboot =>
    rw [hfile]
    rcases hfollows with rfl | rfl
    · exact leads_stays (.between hkey (welcome_reboot hwelcome))
    · exact leads_stays (.between hkey (welcome_reboot hwelcome))

theorem ended_leads (hfile : config.file = registeredFile b info.name id key)
    (hkey : KeyWorks lib py key) (hid : t.client.id = id) (hw : Welcome t.world id text)
    (hover : Over t) (h : Goes b lib py config key t p') :
    Leads b lib py info user text (.known id key) p' := by
  cases h with
  | transfer hnext =>
    obtain ⟨hover', hworld, hclient⟩ := over_step hover hnext
    rw [configured_none (approved_gone hover.client hnext)]
    refine leads_stays (.ended hfile hkey ?_ ?_ hover')
    · rw [hclient]
      exact hid
    · rw [hworld]
      exact hw
  | stop hawaits => exact absurd hawaits hover.client
  | close =>
    rw [hfile]
    exact leads_stays (.between hkey hw)
  | reboot =>
    rw [hfile]
    exact leads_stays (.between hkey (welcome_reboot hw))

theorem locked_leads (hb : b.Lawful) (hinfo : InfoWorks b info user text)
    (hname : w.db.hasName user = true)
    (h : Starts b lib py info (madeFile info.name) w p') :
    Leads b lib py info user text .orphaned p' := by
  cases h with
  | @opened l built hbuilt hl =>
    obtain ⟨hmade, -, hnew, hasked, hworld, hbuffer⟩ := @start_new b lib py info user text w _ l
      built hb hinfo hl (.inr rfl) hbuilt
    refine leads_stays (.refused hmade ⟨?_, ⟨hnew.id, ?_, fun _ => ⟨hasked.running, ?_⟩⟩, .inr ?_,
      fun _ => ⟨?_, fun _ => hasked.client⟩⟩)
    · rw [hworld]
      exact hname
    · rw [hasked.running]
      nofun
    · intro data hdata
      cases hbuffer.symm.trans hdata
    · refine ⟨hasked.thread, .inr ?_⟩
      rw [← hnew.name]
      exact hasked.server
    · rw [hasked.client]
      exact List.forall_mem_nil _
  | @unopened l built hbuilt =>
    obtain ⟨-, hmade, -⟩ := @initializeClient_new b lib info _ l hb hinfo.accepted (.inr rfl)
    rw [hbuilt] at hmade
    rw [hmade]
    exact leads_stays (.locked hname)
  | reboot => exact leads_stays (.locked hname)

theorem refused_leads (hinfo : InfoWorks b info user text)
    (hfile : config.file = madeFile info.name) (hrefused : Refused info user t)
    (h : Goes b lib py config key t p') : Leads b lib py info user text .orphaned p' := by
  cases h with
  | transfer hnext hnatural =>
    obtain ⟨hrefused', hother⟩ := refused_step hinfo.userName hrefused hnext hnatural
    rw [configured_none hother]
    exact leads_stays (.refused hfile hrefused')
  | stop => exact leads_stays (.refused hfile (refused_killed hrefused))
  | close =>
    rw [hfile]
    exact leads_stays (.locked hrefused.name)
  | reboot =>
    rw [hfile]
    exact leads_stays (.locked hrefused.name)

/-- Each step of the program is a step of the bond. -/
theorem stands_step (hb : b.Lawful) (hinfo : InfoWorks b info user text)
    (h : Stands b lib py info user text o p) (hstep : ProgramStep b lib py info p e p') :
    Leads b lib py info user text o p' := by
  cases h with
  | unused hfile hw => exact unused_leads hb hinfo hfile hw (resting_step hstep)
  | asking hfile hkey hnew hasked hw hfollows =>
    exact asking_leads hinfo hfile hkey hnew hasked hw hfollows (going_step hstep)
  | unheard hfile hid hended hw hover =>
    exact unheard_leads hfile hid hended hw hover (going_step hstep)
  | told hfile hkey hnew htold hname hwelcome =>
    exact told_leads hb hinfo hfile hkey hnew htold hname hwelcome (going_step hstep)
  | between hkey hw => exact between_leads hb hinfo hkey hw (resting_step hstep)
  | underway hfile hkey hid hunderway hn hfollows =>
    exact underway_leads hfile hkey hid hunderway hn hfollows (going_step hstep)
  | ended hfile hkey hid hw hover =>
    exact ended_leads hfile hkey hid hw hover (going_step hstep)
  | locked hname => exact locked_leads hb hinfo hname (resting_step hstep)
  | refused hfile hrefused => exact refused_leads hinfo hfile hrefused (going_step hstep)

end Steps

section Runs

variable {config : ConfigManager} {key : Bytes} {id : ClientId} {file : Option Bytes}
  {p p' : Program} {o o' : Bond} {es fs : List ClientProgram.Event} {l : Launch}

theorem final_bond (hfinal : ∀ o', Bond.Step o o' → o' = o)
    (h : Relation.ReflTransGen Bond.Step o o') : o' = o := by
  induction h with
  | refl => rfl
  | tail _ hstep ih =>
    subst ih
    exact hfinal _ hstep

theorem known_final (h : Relation.ReflTransGen Bond.Step (.known id key) o') :
    o' = .known id key := by
  refine final_bond (fun o' hstep => ?_) h
  cases hstep
  rfl

theorem orphaned_final (h : Relation.ReflTransGen Bond.Step .orphaned o') : o' = .orphaned := by
  refine final_bond (fun o' hstep => ?_) h
  cases hstep
  rfl

theorem run_bonds (hb : b.Lawful) (hinfo : InfoWorks b info user text)
    (h : Stands b lib py info user text o p) (hrun : Run (ProgramStep b lib py info) p es p') :
    ∃ o', Relation.ReflTransGen Bond.Step o o' ∧ Stands b lib py info user text o' p' := by
  refine hrun.invariant (I := fun p => ∃ o', Relation.ReflTransGen Bond.Step o o' ∧
    Stands b lib py info user text o' p) ⟨o, .refl, h⟩ ?_
  rintro q e q' ⟨o', hreach, hstands⟩ hstep
  obtain ⟨o'', hbond, hstands'⟩ := stands_step hb hinfo hstands hstep
  exact ⟨o'', hreach.tail hbond, hstands'⟩

theorem not_holds_new (hb : b.Lawful) (hname : Accepted b info.name)
    (hfile : file = none ∨ file = madeFile info.name) : ¬Holds b info file id key := by
  rintro ⟨hregistered, -⟩
  rcases hfile with rfl | rfl
  · cases hregistered
  · cases (isRegistered_made hb hname).1.symm.trans hregistered

theorem known_file (h : Stands b lib py info user text (.known id key) p) :
    p.file = registeredFile b info.name id key := by
  cases h with
  | between => rfl
  | underway hfile => exact hfile
  | ended hfile => exact hfile

theorem known_bound (hb : b.Lawful) (hinfo : InfoWorks b info user text)
    (h : Stands b lib py info user text (.known id key) p) : Bound b info p id key := by
  have hholds : Holds b info p.file id key := by
    rw [known_file h]
    exact holds_registered hb hinfo.accepted id key
  cases h with
  | between hkey hw =>
    refine ⟨hholds, hw.client, ?_⟩
    intro config k t heq
    cases heq
  | underway hfile hkey hid hunderway hn hfollows =>
    have hwelcome := stage_welcome hunderway.stage (by rw [hunderway.file]; exact hn)
    rw [hid] at hwelcome
    rcases hfollows with rfl | rfl
    · refine ⟨hholds, hwelcome.client, ?_⟩
      intro config k t heq
      cases heq
      exact ⟨rfl, hid⟩
    · refine ⟨hholds, hwelcome.client, ?_⟩
      intro config k t heq
      cases heq
      exact ⟨rfl, hid⟩
  | ended hfile hkey hid hw =>
    refine ⟨hholds, hw.client, ?_⟩
    intro config k t heq
    cases heq
    exact ⟨rfl, hid⟩

theorem bond_of_holds (hb : b.Lawful) (hinfo : InfoWorks b info user text)
    (h : Stands b lib py info user text o p) (hholds : Holds b info p.file id key) :
    o = .known id key := by
  cases o with
  | known id' key' =>
    rw [known_file h] at hholds
    have hsame := (holds_registered hb hinfo.accepted id' key').clientInfo.symm.trans
      hholds.clientInfo
    simp only [ClientInfo.mk.injEq] at hsame
    obtain ⟨-, hid, rfl⟩ := hsame
    rw [Subtype.ext hid]
  | free =>
    cases h with
    | unused hfile => exact absurd hholds (not_holds_new hb hinfo.accepted hfile)
    | asking hfile => exact absurd hholds (not_holds_new hb hinfo.accepted (.inr hfile))
    | unheard hfile => exact absurd hholds (not_holds_new hb hinfo.accepted (.inr hfile))
  | granted id' =>
    cases h with
    | told hfile => exact absurd hholds (not_holds_new hb hinfo.accepted (.inr hfile))
  | orphaned =>
    cases h with
    | locked => exact absurd hholds (not_holds_new hb hinfo.accepted (.inr rfl))
    | refused hfile => exact absurd hholds (not_holds_new hb hinfo.accepted (.inr hfile))

theorem unknown_process {t : Transfer}
    (h : Stands b lib py info user text o (.going config key t))
    (ho : ∀ id key, o ≠ .known id key) :
    t.client.id = emptyId ∧ t.client.control ≠ .ended false := by
  cases h with
  | asking _ _ hnew hasked _ hfollows =>
    rcases hfollows with rfl | rfl
    · refine ⟨hnew.id, ?_⟩
      rw [hasked.running]
      intro habsurd
      cases habsurd
    · refine ⟨hnew.id, ?_⟩
      intro habsurd
      cases habsurd
  | unheard _ hid hended => exact ⟨hid, hended⟩
  | told _ _ hnew htold =>
    refine ⟨hnew.id, ?_⟩
    rw [htold.running]
    intro habsurd
    cases habsurd
  | underway => exact absurd rfl (ho _ _)
  | ended => exact absurd rfl (ho _ _)
  | refused _ hrefused => exact ⟨hrefused.client.id, hrefused.client.unfinished⟩

theorem calm_goes {t t' : Transfer} {e : TransferSession.Event}
    (hstep : CalmStep (lib.under key) py t e t') : ProgramStep b lib py info (.going config key t)
      (.transfer e) (.going (configured b config key t e) key t') := by
  refine ⟨Option.map_eq_some_iff.mpr ⟨t', hstep.1, rfl⟩, ?_⟩
  cases e with
  | read fails beyond delivered => exact .inl hstep.2
  | recv n env => exact hstep.2
  | recvEnds env => exact hstep.2.elim
  | recvRaises env => exact hstep.2.elim

theorem calm_lifts {t t' : Transfer} {gs : List TransferSession.Event}
    (hrun : Run (CalmStep (lib.under key) py) t gs t') : ∃ config', Run (ProgramStep b lib py info)
      (.going config key t) (gs.map .transfer) (.going config' key t') := by
  induction hrun with
  | nil => exact ⟨config, .nil _⟩
  | snoc _ hstep ih =>
    obtain ⟨config₁, hrun⟩ := ih
    rw [List.map_append]
    exact ⟨_, hrun.snoc (calm_goes hstep)⟩

theorem launch_goes {built : Built} (hl : LaunchWorks lib py l) (hopens : l.opens = true)
    (hbuilt : initializeClient b lib info file l = built) :
    ProgramStep b lib py info (.resting file w) (.launch l) (.going built.config built.privateKey
      (.start built.client built.isRegistered w l.beyond l.delivered)) := by
  refine ⟨?_, hl⟩
  simp only [Program.next]
  rw [if_pos hopens, hbuilt]

theorem launch_completes {built : Built} {c : Client} {isRegistered : Bool}
    (hl : LaunchWorks lib py l) (hopens : l.opens = true)
    (hbuilt : initializeClient b lib info file l = built)
    (hclient : built.client = c) (hregistered : built.isRegistered = isRegistered)
    (hcontrol : c.control = .running) (hopen : c.isOpen = true) (hend : c.overrun = false)
    (hqueue : c.messageQueue = []) (hfile : c.file = l.file)
    (hsuited : Suited (lib.under built.privateKey) py c text)
    (hexpects : Expects c w text isRegistered) : ∃ fs p, Run (ProgramStep b lib py info)
      (.resting file w) (.launch l :: fs) p ∧ Completed text l.file p := by
  obtain ⟨n, -, hunderway⟩ := @start_underway _ _ _ isRegistered w l.beyond l.delivered c hcontrol
    hopen hend hqueue hsuited hexpects hl.delivered
  obtain ⟨gs, t, hrun, hdone⟩ := Simulation.completes hunderway underway_step underway_progress
  obtain ⟨config', hlifted⟩ := @calm_lifts b lib py info built.config built.privateKey _ _ _ hrun
  have hlaunch := @launch_goes b lib py info w file l built hl hopens hbuilt
  rw [hclient, hregistered] at hlaunch
  rw [hfile] at hdone
  exact ⟨_, _, .cons hlaunch hlifted, config', built.privateKey, t, rfl, hdone⟩

theorem free_completes (hb : b.Lawful) (hinfo : InfoWorks b info user text)
    (hl : LaunchWorks lib py l)
    (hopens : l.opens = true) (hfile : file = none ∨ file = madeFile info.name)
    (hw : Nobody user text w) : ∃ fs p, Run (ProgramStep b lib py info)
      (.resting file w) (.launch l :: fs) p ∧ Completed text l.file p := by
  obtain ⟨hnew, -, hkey, hclient⟩ := @initializeClient_new b lib info file l hb hinfo.accepted hfile
  have hempty : idIsEmpty emptyId = some true := by decide
  refine launch_completes hl hopens rfl hclient hnew rfl rfl rfl rfl rfl ?_
    (⟨hempty, ⟨user, hinfo.userName, hinfo.ascii, hw.name⟩, hw.fresh⟩ : Nameless _ w text)
  rw [hkey]
  exact suited_client hinfo hl.key hl.file emptyId

theorem known_completes (hb : b.Lawful) (hinfo : InfoWorks b info user text)
    (hl : LaunchWorks lib py l) (hopens : l.opens = true) (hkey : KeyWorks lib py key)
    (hw : Welcome w id text) : ∃ fs p, Run (ProgramStep b lib py info)
      (.resting (registeredFile b info.name id key) w) (.launch l :: fs) p ∧
        Completed text l.file p := by
  obtain ⟨hknown, -, hsame, hclient⟩ := @initializeClient_known b lib info _ id key
    (holds_registered hb hinfo.accepted id key) l
  refine launch_completes hl hopens rfl hclient hknown rfl rfl rfl rfl rfl ?_
    (⟨userName_valid hinfo, hw⟩ : _ ∧ Welcome w id text)
  rw [hsame]
  exact suited_client hinfo hkey hl.file id

theorem nobody_sample : Nobody [0x61] [0x78] .sample :=
  ⟨by decide, ⟨sampleId, by decide, by decide, by decide, by decide⟩⟩

theorem orphaned_unfinished (hb : b.Lawful) (hinfo : InfoWorks b info user text)
    (h : Stands b lib py info user text .orphaned p)
    (hrun : Run (ProgramStep b lib py info) p es p') (content : Bytes) :
    ¬Completed text content p' := by
  rintro ⟨config, key, t, rfl, hdone⟩
  obtain ⟨o, hreach, hstands⟩ := run_bonds hb hinfo h hrun
  obtain rfl := orphaned_final hreach
  exact (unknown_process hstands fun _ _ habsurd => by cases habsurd).2 hdone.1

theorem free_loses (hb : b.Lawful) (hinfo : InfoWorks b info user text)
    (hl : LaunchWorks lib py l)
    (hopens : l.opens = true) (hfile : file = none ∨ file = madeFile info.name)
    (hw : Nobody user text w) : ∃ fs w', Run (ProgramStep b lib py info)
      (.resting file w) (.launch l :: fs) (.resting (madeFile info.name) w') ∧
        w'.db.hasName user = true := by
  obtain ⟨built, hbuilt⟩ : ∃ built, initializeClient b lib info file l = built := ⟨_, rfl⟩
  obtain ⟨hmade, hkey, hnew, hasked, hworld, -⟩ := @start_new b lib py info user text w file l
    built hb hinfo hl hfile hbuilt
  have hfree : Nobody user text (Transfer.start built.client built.isRegistered w l.beyond
      l.delivered).world := by
    rw [hworld]
    exact hw
  obtain ⟨e, t', hstep⟩ := stage_progress hnew.suited
    (.registering hasked hnew.queue (new_nameless hinfo hnew hfree)) fun hended => by
      cases hasked.running.symm.trans hended
  obtain ⟨hconfigured, id, hstands⟩ := asking_granted (b := b) hinfo hmade hkey hnew hasked hfree
    hstep
  have hserved := @calm_goes b lib py info built.config built.privateKey _ _ _ hstep
  rw [hconfigured] at hserved
  cases hstands with
  | told _ _ _ htold hname _ =>
    have hstopped : ProgramStep b lib py info (.going built.config built.privateKey t') .stop
        (.going built.config built.privateKey (killed t')) := by
      refine ⟨if_pos ?_, trivial⟩
      rw [htold.running]
      rfl
    have hrebooted : ProgramStep b lib py info (.going built.config built.privateKey (killed t'))
        .reboot (.resting (madeFile info.name) (reboot t'.world)) := by
      have hgone : ¬(killed t').client.control.awaits = true := Bool.false_ne_true
      refine ⟨?_, trivial⟩
      simp only [Program.next]
      rw [if_pos hgone, hmade]
      rfl
    exact ⟨[.transfer e, .stop, .reboot], reboot t'.world, .cons (launch_goes hl hopens hbuilt)
      (.cons hserved (.cons hstopped (.cons hrebooted (.nil _)))), hname⟩

end Runs

end ProgramLives
