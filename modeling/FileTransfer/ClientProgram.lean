import FileTransfer.CalmTransfer
import FileTransfer.ClientStart

/-! # The client program

`main` over its processes: a start reads `me.info`, makes the keys and runs the client, and
`SetClientId` writes the file while the client runs. The client can be killed at any of its
reads, so not while `me.info` is created nor between the two writes of `SetClientId`, and the
server can be started again when no client waits for it. -/
namespace ClientProgram

open ByteField PathWalk ServerProtocol ServerTables ServerState ServerHandlers ServerThread
  ClientChannel ClientFile ClientLogic ClientLogic.Client MessageRoundTrip SendFileReassembly
  StepRun TransferAnswers TransferSession LineStream ClientConfig SocketParams CalmServer CalmClient
  CalmTransfer
open RegisteredRestart (Accepted)
open ReadBuffers (accepts_iff)
open TransferIntegrity (Laws Sendable)

section Definitions

/-- What the program uses of boost and Crypto++, from the text of a private key. -/
structure CppLibrary where
  crc32 : Bytes → ℕ
  aesEncrypt : Bytes → Bytes → Bytes
  /-- `RSAPrivateWrapper::getPublicKey`, `none` when the key cannot be loaded -/
  getPublicKey : Bytes → Option Bytes
  rsaDecrypt : Bytes → Bytes → Option Bytes

def CppLibrary.under (lib : CppLibrary) (privateKey : Bytes) : CppCrypto :=
  ⟨lib.crc32, lib.aesEncrypt, lib.rsaDecrypt privateKey⟩

/-- `BuildRsaKeySet`: a key that cannot be loaded leaves the public key empty. -/
def CppLibrary.buildRsaKeySet (lib : CppLibrary) (privateKey : Bytes) : Field publicKeySize :=
  ⟨padded publicKeySize ((lib.getPublicKey privateKey).getD []), length_padded _ _⟩

def clientIdOf (uuid : Bytes) : ClientId := ⟨padded clientIdSize uuid, length_padded _ _⟩

/-- What a start finds besides the configuration: the content of the file to send, the key that
`RSAPrivateWrapper` makes for a new client, whether the channel can be opened, and what a first
message goes out with. -/
structure Launch where
  file : Bytes
  privateKey : Bytes
  opens : Bool
  beyond : ℕ → UInt8
  delivered : ℕ

structure Built where
  isRegistered : Bool
  config : ConfigManager
  privateKey : Bytes
  client : Client

variable (b : TextLibrary) (lib : CppLibrary) (py : PyCrypto) (info : TransferInfo)

/-- `ClientManager::Initialize` and the constructor of `ClientLogic` that it calls -/
def initializeClient (file : Option Bytes) (l : Launch) : Built :=
  let r := (ConfigManager.start file info.name).isRegistered b
  let known := r.2.clientInfo
  let privateKey := if r.1 then known.privateKey else l.privateKey
  { isRegistered := r.1
    config := r.2
    privateKey
    client := .opened (if r.1 then known.name else info.name)
      (if r.1 then clientIdOf known.uuid else emptyId)
      (lib.buildRsaKeySet privateKey) (filled symmetricKeySize 0) info.filePath l.file }

/-- The id that `SetClientId` is called with at a read. A failed read leaves the last response to
be handled again. -/
def approvedId (c : Client) (packet : Option Bytes) : Option ClientId :=
  if c.control = .running then
    (c.buffered packet).buffer.bind fun data =>
      if responseCode data = registrationSucceeded then
        some (clientIdOf (slice data headerSize clientIdSize))
      else none
  else none

def approved (t : Transfer) : TransferSession.Event → Option ClientId
  | .read fails _ _ => approvedId t.client (if fails then none else t.toClient.head?)
  | _ => none

def configured (config : ConfigManager) (privateKey : Bytes) (t : Transfer)
    (e : TransferSession.Event) : ConfigManager :=
  ((approved t e).map (config.setClientId b t.client.id privateKey)).getD config

/-- Between two connections there are `me.info` and the world of the server; in one, the
configuration and the private key of the process too. -/
inductive Program where
  | resting (file : Option Bytes) (w : World)
  | going (config : ConfigManager) (privateKey : Bytes) (t : Transfer)

/-- A client that is killed does no more than one that has left the loop of `Run`. -/
def killed (t : Transfer) : Transfer :=
  { t with client := { t.client with isOpen := false, control := .stopped } }

def reboot (w : World) : World := .boot w.db w.disk w.cwd w.srcDir

/-- `stop` kills the client; `close` is the end of a connection that both sides have left;
`reboot` starts the server again, which no client is connected to. -/
inductive Event where
  | launch (l : Launch)
  | transfer (e : TransferSession.Event)
  | stop
  | close
  | reboot

def Program.next : Program → Event → Option Program
  | .resting file w, .launch l =>
    let built := initializeClient b lib info file l
    if l.opens then
      some (.going built.config built.privateKey
        (.start built.client built.isRegistered w l.beyond l.delivered))
    else some (.resting built.config.file w)
  | .resting file w, .reboot => some (.resting file (reboot w))
  | .going config key t, .transfer e =>
    (t.next (lib.under key) py e).map (.going (configured b config key t e) key)
  | .going config key t, .stop =>
    if t.client.control.awaits then some (.going config key (killed t)) else none
  | .going config _ t, .close =>
    if ¬t.client.control.awaits ∧ t.thread = .closed then some (.resting config.file t.world)
    else none
  | .going config _ t, .reboot =>
    if ¬t.client.control.awaits then some (.resting config.file (reboot t.world)) else none
  | _, _ => none

/-- Nothing fails but the processes: a read fails where the server has closed the connection,
and `recv` can raise where the client is gone. -/
def Natural (cpp : CppCrypto) (t : Transfer) : TransferSession.Event → Prop
  | .read fails beyond delivered => CalmEvent cpp py t (.read fails beyond delivered) ∨
      fails = true ∧ t.thread = .closed ∧ t.toClient = []
  | .recv n env => CalmEvent cpp py t (.recv n env)
  | .recvEnds env => Calm env
  | .recvRaises env => Calm env ∧ ¬t.client.control.awaits

structure KeyWorks (key : Bytes) : Prop where
  laws : Laws (lib.under key) py (lib.buildRsaKeySet key)
  encrypts : ∃ seed, ∃ aesKey : Field symmetricKeySize,
    (py.rsaOaepEncrypt (lib.buildRsaKeySet key).val seed aesKey.val).isSome = true

structure FileWorks (file : Bytes) : Prop where
  crc : lib.crc32 (fileBuffer file) = py.crc32 (fileBuffer file)
  crcFits : py.crc32 (fileBuffer file) < 256 ^ 4
  sendable : Sendable file
  reassembled : cipherSize file ≤ 742 ∨ packetSize < cipherSize file

structure InfoWorks (user text : Text) : Prop where
  accepted : Accepted b info.name
  userName : fieldText (clientName info.name) = some user
  ascii : isAscii user = true
  nameFits : info.filePath.length ≤ fileNameSize
  named : fieldText (nameField info.filePath).val = some text
  plain : Plain text

structure LaunchWorks (l : Launch) : Prop where
  file : FileWorks lib py l.file
  key : KeyWorks lib py l.privateKey
  delivered : packetSize ≤ l.delivered

def Occurs : Program → Event → Prop
  | _, .launch l => LaunchWorks lib py l
  | .going _ key t, .transfer e => Natural py (lib.under key) t e
  | _, _ => True

def ProgramStep (p : Program) (e : Event) (p' : Program) : Prop :=
  p.next b lib py info e = some p' ∧ Occurs lib py p e

def Program.file : Program → Option Bytes
  | .resting file _ => file
  | .going config _ _ => config.file

def Program.world : Program → World
  | .resting _ w => w
  | .going _ _ t => t.world

end Definitions

variable {cpp : CppCrypto} {py : PyCrypto} {t t' : Transfer} {e : TransferSession.Event}
  {text : Text} {n : ℕ}

section Approvals

variable {r : Response} {packet : Bytes} {beyond : ℕ → UInt8} {delivered : ℕ}

theorem step_reads {fails : Bool} (h : TransferStep cpp py t (.read fails beyond delivered) t') :
    t.client.control.awaits = true ∧ (fails = false → t.toClient ≠ []) ∧ ∃ toClient,
      toClient <:+ t.toClient ∧ t' = Transfer.react { t with toClient }
        (t.client.receive cpp (if fails then none else t.toClient.head?)) beyond delivered := by
  simp only [TransferStep, Transfer.next] at h
  split at h
  · next hawaits =>
    refine ⟨hawaits, ?_⟩
    cases fails with
    | true =>
      refine ⟨?_, t.toClient, List.suffix_rfl, (Option.some.inj h).symm⟩
      intro habsurd
      cases habsurd
    | false =>
      cases hpackets : t.toClient with
      | nil =>
        rw [hpackets] at h
        cases h
      | cons packet toClient =>
        rw [hpackets] at h
        exact ⟨fun _ => List.cons_ne_nil packet _, toClient, List.suffix_cons packet toClient,
          (Option.some.inj h).symm⟩
  · cases h

theorem receive_id (cpp : CppCrypto) (c : Client) (packet : Option Bytes) :
    (c.receive cpp packet).1.id =
      ((approvedId c packet).map fun id => (c.setClientId id).id).getD c.id := by
  unfold approvedId
  by_cases hrunning : c.control = .running
  · rw [if_pos hrunning]
    cases hbuffer : (c.buffered packet).buffer with
    | none =>
      have hother := @receive_identity cpp c packet fun _ data hdata => by
        cases hbuffer.symm.trans hdata
      exact congrArg Prod.snd hother
    | some data =>
      rw [Option.bind_some]
      by_cases hcode : responseCode data = registrationSucceeded
      · rw [if_pos hcode]
        exact congrArg Prod.snd (receive_approval c hrunning hbuffer hcode)
      · have hother := @receive_identity cpp c packet fun _ data' hdata => by
          cases hbuffer.symm.trans hdata
          exact hcode
        rw [if_neg hcode]
        exact congrArg Prod.snd hother
  · rw [if_neg hrunning]
    exact congrArg Prod.snd (receive_identity c fun h => absurd h hrunning)

theorem step_id (h : TransferStep cpp py t e t') : t'.client.id =
    ((approved t e).map fun id => (t.client.setClientId id).id).getD t.client.id := by
  cases e with
  | read fails beyond delivered =>
    obtain ⟨-, -, toClient, -, rfl⟩ := step_reads h
    refine Eq.trans ?_ (receive_id cpp t.client (if fails then none else t.toClient.head?))
    obtain ⟨-, -, hclient | hclient⟩ := react_leaves { t with toClient }
      (t.client.receive cpp (if fails then none else t.toClient.head?)) beyond delivered
    · rw [hclient]
    · rw [hclient]
      exact congrArg Prod.snd (writeFailed_identity _)
  | recv n env =>
    obtain ⟨-, -, -, -, rfl⟩ := step_recv h
    rfl
  | recvEnds env =>
    obtain ⟨-, -, -, rfl⟩ := step_recvEnds h
    rfl
  | recvRaises env =>
    obtain ⟨-, rfl⟩ := step_recvRaises h
    rfl

theorem approved_other (htold : Told t r) (hone : OnePacket r)
    (hpacket : packet ∈ responsePackets r)
    (hkey : r.code = publicKeyReceived → 0 < r.payloadSize ∧ r.payloadSize ≤ packetSize)
    (hcode : r.code ≠ registrationSucceeded) :
    approved t (.read false beyond delivered) = none := by
  obtain ⟨hpackets, hlength, hcode', -⟩ := mem_responsePackets hone hpacket
  have haccepts := accepts_response hone hpacket hkey
  obtain ⟨-, rest, hdata⟩ := buffered_accepted haccepts t.client
  have hheader : headerSize ≤ packet.length := by
    rw [hlength]
    decide
  have hread : responseCode (packet.take (getHeader packet + headerSize) ++ rest) ≠
      registrationSucceeded := by
    rw [(header_copied hheader (getHeader packet) rest).1, hcode']
    exact hcode
  have hhead : t.toClient.head? = some packet := by
    rw [htold.client, hpackets]
    rfl
  unfold approved approvedId
  dsimp only
  rw [if_pos htold.running, if_neg Bool.false_ne_true, hhead, hdata, Option.bind_some, if_neg hread]

theorem approved_told {id : ClientId} (htold : Told t (.registrationSucceeded id)) :
    approved t (.read false beyond delivered) = some id := by
  obtain ⟨packet, hcarries⟩ := exists_carries (r := .registrationSucceeded id)
    (onePacket_of_code (by decide : registrationSucceeded ≠ _)) rfl
  obtain ⟨-, data, hdata, hcode, hid⟩ := buffered_approval hcarries t.client
  have hhead : t.toClient.head? = some packet := by
    rw [htold.client, hcarries.packets]
    rfl
  unfold approved approvedId
  dsimp only
  rw [if_pos htold.running, if_neg Bool.false_ne_true, hhead, hdata, Option.bind_some, if_pos hcode]
  exact congrArg some hid

theorem stage_approved (h : Stage cpp py t text n) (hn : n < cipherSize t.client.file + 8)
    (hstep : CalmStep cpp py t e t') : approved t e = none := by
  cases e with
  | recv n env => rfl
  | recvEnds env => rfl
  | recvRaises env => rfl
  | read fails beyond delivered =>
    obtain ⟨hnext, rfl, hdelivered⟩ := hstep
    have hpackets := (step_reads hnext).2.1 rfl
    cases h with
    | registering => omega
    | registered id => omega
    | keying hasked => exact absurd hasked.client hpackets
    | keyed encrypted key htold hsize =>
      obtain ⟨packet, hcarries⟩ := exists_carries
        (onePacket_publicKey t.client.id (hsize.le.trans (by decide))) rfl
      refine approved_other htold (onePacket_publicKey t.client.id (hsize.le.trans (by decide)))
        (by rw [hcarries.packets]; exact List.mem_singleton_self packet) (fun _ => ?_) ?_
      · rw [Response.payloadSize, hsize]
        decide
      · exact (by decide : publicKeyReceived ≠ registrationSucceeded)
    | uploading hasked => exact absurd hasked.client hpackets
    | receiving p _ hclient => exact absurd hclient hpackets
    | stored r htold htells hpacket =>
      obtain ⟨packet, hpacket⟩ := hpacket
      obtain ⟨id, size, fileName, rfl⟩ := htells
      have hother : (Response.fileReceivedCrcValue id size fileName
          (py.crc32 (fileBuffer t.client.file))).code ≠ publicKeyReceived :=
        (by decide : msgReceivedCrc ≠ publicKeyReceived)
      exact approved_other htold (onePacket_of_code hother) hpacket (fun hkey => absurd hkey hother)
        (by decide : msgReceivedCrc ≠ registrationSucceeded)
    | approving hasked => exact absurd hasked.client hpackets
    | approved htold =>
      have hother : (Response.receivingApproved).code ≠ publicKeyReceived :=
        (by decide : msgReceived ≠ publicKeyReceived)
      obtain ⟨packet, hcarries⟩ := exists_carries (r := .receivingApproved)
        (onePacket_of_code hother) rfl
      exact approved_other htold (onePacket_of_code hother)
        (by rw [hcarries.packets]; exact List.mem_singleton_self packet)
        (fun hkey => absurd hkey hother) (by decide : msgReceived ≠ registrationSucceeded)
    | done _ _ hended =>
      refine if_neg fun hrunning => ?_
      cases hended.symm.trans hrunning

end Approvals

section Endings

variable {env : Env} {r : RecvResult}

/-- The client is gone, and nothing that it has sent is left to parse. -/
structure Over (t : Transfer) : Prop where
  client : ¬t.client.control.awaits
  thread : ¬t.thread.awaits ∨ t.toServer = [] ∧
    (t.thread = .reading ∨ ∃ p, t.thread = .receiving p ∧ 0 < p.need)

/-- A thread whose connection ends leaves the world as it is. In the middle of a file it goes
on to wait at the end of the stream. -/
theorem readStep_ends {w : World} {control : ServerThread.Control}
    (hcontrol : control = .reading ∨ ∃ p, control = .receiving p ∧ 0 < p.need)
    (hr : r = .raises ∨ r = .chunk []) :
    let out := readStep py env w control r
    out.world = w ∧ (¬out.control.awaits ∨ r = .chunk [] ∧
      ∃ p, out.control = .receiving p ∧ 0 < p.need) := by
  intro out
  rcases hcontrol with rfl | ⟨p, rfl, hneed⟩
  · obtain ⟨control, hquiet, hended⟩ := readStep_ended py env w hr
    rw [show out = _ from hquiet]
    refine ⟨rfl, .inl ?_⟩
    rw [ReadStep.quiet, hended]
    exact Bool.false_ne_true
  · rcases hr with rfl | rfl
    · have hout : out = ServerThread.react py env w (.malformed true) :=
        readStep_eq_react py env w rfl .raises
      obtain ⟨hended, -⟩ := react_malformed py env w true
      rw [hout]
      refine ⟨?_, .inl ?_⟩
      · exact (settle_world env w none _).1.trans (refuse_world env _)
      · rw [hended]
        exact Bool.false_ne_true
    · have hsame : (p.feed []).need = p.need := (feed_need p []).1
      have hmore : ¬(p.feed []).complete = true := by
        rw [complete_iff, hsame]
        exact hneed.ne'
      have hout : out = ServerThread.react py env w (.ofFile (p.feed [])) :=
        readStep_eq_react py env w rfl (.chunk [])
      rw [hout, Received.ofFile, if_neg hmore]
      exact ⟨rfl, .inr ⟨rfl, _, rfl, by rw [hsame]; exact hneed⟩⟩

theorem ends_over (hclient : ¬t.client.control.awaits)
    (hthread : t.thread = .reading ∨ ∃ p, t.thread = .receiving p ∧ 0 < p.need)
    (he : e = .recvEnds env ∨ e = .recvRaises env) (hstep : TransferStep cpp py t e t') :
    Over t' ∧ t'.world = t.world ∧ t'.client = t.client := by
  rcases he with rfl | rfl
  · obtain ⟨-, hserver, -, rfl⟩ := step_recvEnds hstep
    obtain ⟨hworld, hcontrol⟩ := @readStep_ends py env (.chunk []) t.world t.thread hthread
      (.inr rfl)
    refine ⟨⟨hclient, ?_⟩, hworld, rfl⟩
    exact hcontrol.imp_right fun h => ⟨hserver, .inr h.2⟩
  · obtain ⟨-, rfl⟩ := step_recvRaises hstep
    obtain ⟨hworld, hcontrol⟩ := @readStep_ends py env .raises t.world t.thread hthread (.inl rfl)
    refine ⟨⟨hclient, .inl ?_⟩, hworld, rfl⟩
    exact hcontrol.resolve_right fun h => nomatch h.1

theorem over_step (h : Over t) (hstep : TransferStep cpp py t e t') :
    Over t' ∧ t'.world = t.world ∧ t'.client = t.client := by
  cases e with
  | read fails beyond delivered => exact absurd (step_reads hstep).1 h.client
  | recv n env =>
    obtain ⟨hawaits, hpos, -, hlength, -⟩ := step_recv hstep
    obtain ⟨hserver, -⟩ := h.thread.resolve_left fun hnot => hnot hawaits
    rw [hserver, List.length_nil] at hlength
    omega
  | recvEnds env =>
    obtain ⟨-, hthread⟩ := h.thread.resolve_left fun hnot => hnot (step_recvEnds hstep).1
    exact ends_over h.client hthread (.inl rfl) hstep
  | recvRaises env =>
    obtain ⟨-, hthread⟩ := h.thread.resolve_left fun hnot => hnot (step_recvRaises hstep).1
    exact ends_over h.client hthread (.inr rfl) hstep

/-- What a killed client has sent is received as if it still waited. -/
theorem killed_recv (hstep : TransferStep cpp py (killed t) (.recv n env) t') :
    ∃ t₁, TransferStep cpp py t (.recv n env) t₁ ∧ t' = killed t₁ := by
  obtain ⟨hawaits, hpos, hsize, hlength, rfl⟩ := step_recv hstep
  exact ⟨_, if_pos ⟨hawaits, hpos, hsize, hlength⟩, rfl⟩

theorem stage_thread (h : Stage cpp py t text n) :
    t.thread = .reading ∨ ∃ p, t.thread = .receiving p ∧ 0 < p.need := by
  cases h with
  | registering hasked => exact .inl hasked.thread
  | registered id htold => exact .inl htold.thread
  | keying hasked => exact .inl hasked.thread
  | keyed encrypted key htold => exact .inl htold.thread
  | uploading hasked => exact .inl hasked.thread
  | receiving p hthread _ _ _ _ hneed => exact .inr ⟨p, hthread, hneed⟩
  | stored r htold => exact .inl htold.thread
  | approving hasked => exact .inl hasked.thread
  | approved htold => exact .inl htold.thread
  | done hthread => exact .inl hthread

theorem stage_welcome (h : Stage cpp py t text n) (hn : n < cipherSize t.client.file + 8) :
    Welcome t.world t.client.id text := by
  cases h with
  | registering => omega
  | registered id => omega
  | keying _ _ hwelcome => exact hwelcome
  | keyed _ _ _ _ _ _ _ hwelcome => exact hwelcome
  | uploading _ hsent => exact hsent.welcome
  | receiving p _ _ _ _ _ _ _ hsent => exact hsent.welcome
  | stored _ _ _ _ _ hkept => exact welcome_kept hkept
  | approving _ hkept => exact welcome_kept hkept
  | approved _ _ hkept => exact welcome_kept hkept
  | done _ _ _ _ hkept => exact welcome_kept hkept

end Endings

section Starts

variable {b : TextLibrary} {lib : CppLibrary} {info : TransferInfo} {file : Option Bytes}
  {l : Launch} {id : ClientId} {key : Bytes} {user : Text}

def madeFile (name : Bytes) : Option Bytes := some (name ++ [newline])

theorem userName_valid (h : InfoWorks b info user text) :
    (fieldText (clientName info.name)).isSome = true := by
  rw [h.userName]
  rfl

def registeredFile (b : TextLibrary) (name : Bytes) (id : ClientId) (key : Bytes) : Option Bytes :=
  (RegisteredRestart.registered b none name id key).file

theorem suited_client {content : Bytes} (hinfo : InfoWorks b info user text)
    (hkey : KeyWorks lib py key) (hfile : FileWorks lib py content) (id : ClientId) :
    Suited (lib.under key) py (.opened info.name id (lib.buildRsaKeySet key)
      (filled symmetricKeySize 0) info.filePath content) text where
  laws := hkey.laws
  encrypts := hkey.encrypts
  crc := hfile.crc
  crcFits := hfile.crcFits
  sendable := hfile.sendable
  reassembled := hfile.reassembled
  nameFits := decide_eq_true hinfo.nameFits
  named := hinfo.named
  plain := hinfo.plain

theorem isRegistered_made {name : Bytes} (hb : b.Lawful) (hname : Accepted b name) :
    let r := (ConfigManager.start (madeFile name) name).isRegistered b
    r.1 = false ∧ r.2.file = madeFile name := by
  intro r
  refine ⟨?_, ConfigManager.isRegistered_file rfl⟩
  obtain ⟨hplain, htrim, hlength⟩ := RegisteredRestart.accepted_spec hb hname
  have hid : (ClientIdentity.fields b (name ++ [newline])).idLine = [] := by
    unfold ClientIdentity.fields
    rw [InStream.getline_append hplain]
    rfl
  have hnot : ¬ClientIdentity.IdTaken b (ClientIdentity.fields b (name ++ [newline])).idLine :=
    fun htaken => htaken.1 hid
  rw [show r = _ from ClientIdentity.isRegistered_fields rfl]
  split_ifs
  · rfl
  · rfl

theorem initializeClient_new (hb : b.Lawful) (hname : Accepted b info.name)
    (hfile : file = none ∨ file = madeFile info.name) :
    let built := initializeClient b lib info file l
    built.isRegistered = false ∧ built.config.file = madeFile info.name ∧
      built.privateKey = l.privateKey ∧
      built.client = .opened info.name emptyId (lib.buildRsaKeySet l.privateKey)
        (filled symmetricKeySize 0) info.filePath l.file := by
  have hunregistered : ((ConfigManager.start file info.name).isRegistered b).1 = false ∧
      ((ConfigManager.start file info.name).isRegistered b).2.file = madeFile info.name := by
    rcases hfile with rfl | rfl
    · refine ⟨rfl, ?_⟩
      have hlines : inserted info.name nameLineIndex (lines []) = [info.name] := rfl
      unfold ConfigManager.isRegistered ConfigManager.start ConfigManager.createRegistrationFile
      dsimp only
      rw [writeAtLine_some, hlines, unlines_cons, unlines_nil]
      rfl
    · exact isRegistered_made hb hname
  obtain ⟨hregistered, hmade⟩ := hunregistered
  unfold initializeClient
  dsimp only
  rw [hregistered]
  exact ⟨rfl, hmade, rfl, rfl⟩

/-- The file holds this registration, and the next start reads it. -/
structure Holds (b : TextLibrary) (info : TransferInfo) (file : Option Bytes) (id : ClientId)
    (key : Bytes) : Prop where
  isRegistered : ((ConfigManager.start file info.name).isRegistered b).1 = true
  clientInfo : ((ConfigManager.start file info.name).isRegistered b).2.clientInfo =
    ⟨info.name, id.val, key⟩

theorem holds_registered (hb : b.Lawful) (hname : Accepted b info.name) (id : ClientId)
    (key : Bytes) : Holds b info (registeredFile b info.name id key) id key := by
  obtain ⟨hregistered, hclient⟩ := @RegisteredRestart.survives_none b info.name info.name key id
    hb hname
  exact ⟨hregistered, hclient⟩

theorem isRegistered_kept {name : Bytes}
    (h : ((ConfigManager.start file name).isRegistered b).1 = true) :
    ((ConfigManager.start file name).isRegistered b).2.file = file := by
  cases file with
  | none => cases h
  | some text => exact ConfigManager.isRegistered_file rfl

theorem initializeClient_known (h : Holds b info file id key) (l : Launch) :
    let built := initializeClient b lib info file l
    built.isRegistered = true ∧ built.config.file = file ∧ built.privateKey = key ∧
      built.client = .opened info.name id (lib.buildRsaKeySet key)
        (filled symmetricKeySize 0) info.filePath l.file := by
  have hfile := isRegistered_kept h.isRegistered
  have hid : clientIdOf id.val = id := Subtype.ext (padded_of_length id.property)
  unfold initializeClient
  dsimp only
  rw [h.isRegistered, h.clientInfo]
  dsimp only
  rw [hid]
  exact ⟨rfl, hfile, rfl, rfl⟩

end Starts

section Samples

/-- The modulus of an RSA key as `RSAPrivateWrapper` makes it. -/
def keyModulus : Bytes :=
  [0xF4, 0x82, 0x22, 0x7B, 0x16, 0x35, 0xB7, 0x02, 0xF2, 0x4D, 0xAA, 0x78, 0x52, 0xF3, 0x46, 0xB6,
   0x92, 0x3D, 0x60, 0x8F, 0xA6, 0xF0, 0x10, 0x85, 0x0F, 0x32, 0x9D, 0x13, 0x64, 0x6B, 0xFC, 0x63,
   0xF4, 0x23, 0xBE, 0x26, 0x74, 0x14, 0x89, 0xD8, 0x31, 0x22, 0x51, 0xAB, 0x16, 0x65, 0xAB, 0x41,
   0xF3, 0x56, 0xB2, 0x2F, 0xA6, 0x6C, 0xC1, 0x35, 0x96, 0x84, 0x49, 0xC6, 0x72, 0x31, 0xF2, 0x33,
   0x71, 0xE8, 0x40, 0xA6, 0x24, 0xBD, 0xC4, 0x6B, 0xEB, 0x6B, 0x60, 0x16, 0x83, 0xD2, 0x9F, 0xB2,
   0x23, 0xFD, 0x21, 0x4E, 0x70, 0x85, 0xA0, 0x49, 0xD7, 0x83, 0x4F, 0x5F, 0x73, 0x0A, 0xDB, 0xA7,
   0xB1, 0x51, 0xF1, 0xD7, 0x1A, 0xC1, 0x10, 0xCE, 0x5C, 0x33, 0x8A, 0xFB, 0x01, 0x19, 0xFB, 0x75,
   0xD1, 0xE8, 0xF5, 0x53, 0x0D, 0xF3, 0xA8, 0x43, 0x45, 0x02, 0x07, 0x4C, 0x4D, 0x43, 0x98, 0xD3]

def savedPublicKey : Bytes :=
  [0x30, 0x81, 0x9D, 0x30, 0x0D, 0x06, 0x09, 0x2A, 0x86, 0x48, 0x86, 0xF7, 0x0D, 0x01, 0x01, 0x01,
   0x05, 0x00, 0x03, 0x81, 0x8B, 0x00, 0x30, 0x81, 0x87, 0x02, 0x81, 0x81, 0x00] ++ keyModulus ++
  [0x02, 0x01, 0x11]

def savedPrivateKey : Bytes :=
  [0x30, 0x82, 0x02, 0x73, 0x02, 0x01, 0x00, 0x30, 0x0D, 0x06, 0x09, 0x2A, 0x86, 0x48, 0x86, 0xF7,
   0x0D, 0x01, 0x01, 0x01, 0x05, 0x00, 0x04, 0x82, 0x02, 0x5D, 0x30, 0x82, 0x02, 0x59, 0x02, 0x01,
   0x00, 0x02, 0x81, 0x81, 0x00] ++ keyModulus ++
  [0x02, 0x01, 0x11, 0x02, 0x81, 0x80, 0x0E, 0x62, 0x02, 0x07, 0x3D, 0x8A, 0xB0, 0x69, 0x95, 0xC8,
   0x55, 0x52, 0x5F, 0x3B, 0x7C, 0xA1, 0x53, 0xE5, 0x7E, 0x26, 0x91, 0x59, 0x6A, 0x62, 0x2E, 0x12,
   0x09, 0x3D, 0x60, 0x42, 0x96, 0x60, 0x3B, 0x89, 0xA1, 0xC6, 0x06, 0xD4, 0x08, 0x1B, 0xC6, 0xA7,
   0xAA, 0x73, 0x79, 0xC9, 0xBE, 0xC7, 0xA4, 0xE6, 0xFB, 0x6C, 0x36, 0xF7, 0x56, 0xA8, 0xCC, 0x9E,
   0x5E, 0xB1, 0x52, 0x02, 0xF0, 0x21, 0x07, 0x61, 0x69, 0x70, 0x6E, 0x00, 0xD3, 0xDE, 0x40, 0x79,
   0x15, 0x5A, 0x04, 0x24, 0x93, 0x19, 0xA4, 0x6E, 0xD7, 0x0E, 0xB8, 0xEB, 0x98, 0xC8, 0xFC, 0x1D,
   0x48, 0x49, 0x61, 0x9D, 0x03, 0x48, 0xAA, 0x8F, 0x5E, 0x66, 0xA2, 0x0B, 0x9F, 0x24, 0xF3, 0xDA,
   0x55, 0x9A, 0xDF, 0x3A, 0x4C, 0x7C, 0x43, 0xA4, 0x49, 0x02, 0x25, 0xAE, 0x65, 0xFD, 0xDF, 0x4D,
   0xB3, 0x24, 0xE9, 0xB1, 0x17, 0x11, 0x02, 0x41, 0x00, 0xFE, 0x29, 0x13, 0xE0, 0x40, 0xA6, 0xE1,
   0x3A, 0xD2, 0x31, 0xB6, 0x45, 0x90, 0xF6, 0x1D, 0xC5, 0x02, 0x5E, 0x74, 0x05, 0x02, 0xAA, 0x5E,
   0x42, 0xB6, 0x5B, 0x98, 0x38, 0x57, 0xF9, 0xA0, 0x03, 0x4E, 0xD4, 0xA1, 0xE9, 0x0F, 0xD3, 0xBC,
   0xBE, 0xCB, 0x81, 0x50, 0x6F, 0x2D, 0x8E, 0x49, 0x02, 0xEE, 0x69, 0x56, 0x32, 0x33, 0xB7, 0x70,
   0x74, 0x2C, 0x9D, 0xD1, 0xFE, 0xD4, 0x43, 0xC9, 0xA3, 0x02, 0x41, 0x00, 0xF6, 0x47, 0x2C, 0x4E,
   0x96, 0x08, 0xD1, 0x6E, 0xD1, 0x2F, 0x3E, 0xD6, 0xAC, 0x6E, 0xBD, 0x39, 0x36, 0x42, 0x65, 0x4F,
   0x26, 0x36, 0x1C, 0xAE, 0x63, 0x35, 0xEA, 0x47, 0x9F, 0xA4, 0x03, 0xD1, 0x0E, 0xF8, 0x0B, 0x1D,
   0x48, 0x27, 0xC2, 0x9B, 0x5F, 0x32, 0x8B, 0x43, 0x00, 0xAC, 0x9E, 0x32, 0x65, 0x96, 0xC5, 0xFC,
   0x59, 0xA7, 0x71, 0xF3, 0x44, 0x3B, 0x4F, 0xD9, 0xF4, 0x3D, 0x47, 0x11, 0x02, 0x40, 0x77, 0x9A,
   0xDC, 0x2D, 0x4B, 0x99, 0xD3, 0x66, 0xF9, 0x80, 0xCE, 0x3E, 0xDA, 0xCE, 0x2C, 0x20, 0x79, 0x95,
   0xDC, 0x3E, 0x97, 0xD7, 0xB3, 0xE3, 0x28, 0xA3, 0x92, 0xED, 0x56, 0x93, 0x96, 0x98, 0x25, 0x18,
   0xC4, 0xA9, 0xE9, 0x54, 0x95, 0x0E, 0x7D, 0xE2, 0x80, 0x34, 0x51, 0xAC, 0x5E, 0x97, 0xF7, 0xB9,
   0x19, 0x81, 0x09, 0x47, 0x43, 0xFA, 0x6F, 0x59, 0x53, 0xC3, 0x36, 0xB6, 0x7D, 0x01, 0x02, 0x40,
   0x1C, 0xF9, 0x50, 0x81, 0xB7, 0x4C, 0x54, 0xDF, 0xDC, 0x5F, 0xE9, 0x46, 0x6E, 0xA3, 0x9D, 0xCA,
   0x7E, 0xDA, 0xA2, 0x81, 0xC8, 0x42, 0x99, 0xF6, 0x66, 0x06, 0x57, 0xCC, 0x30, 0xE6, 0x1E, 0x91,
   0x10, 0xD1, 0xE3, 0x30, 0x9F, 0x13, 0xBC, 0x8A, 0xBF, 0xE7, 0xD4, 0x26, 0x00, 0x14, 0x4E, 0xD8,
   0xC0, 0xA8, 0x53, 0x87, 0x19, 0x9B, 0x3A, 0x95, 0x17, 0x16, 0x09, 0x64, 0xEF, 0x8E, 0xBD, 0x11,
   0x02, 0x40, 0x2F, 0x7B, 0xBA, 0x97, 0x05, 0x5C, 0x4E, 0x01, 0xAB, 0xF8, 0xFC, 0xD1, 0xAF, 0x67,
   0xE5, 0x5F, 0x70, 0x30, 0xCD, 0x81, 0x02, 0xB9, 0xEA, 0xAF, 0x1A, 0x0E, 0x4A, 0xAF, 0xC0, 0x86,
   0x25, 0xD9, 0x56, 0x39, 0xBE, 0x96, 0x3D, 0x60, 0x2C, 0xDB, 0x1E, 0xC9, 0x6A, 0x2A, 0x4A, 0x05,
   0x4C, 0x64, 0x7A, 0x2B, 0x80, 0x58, 0xEA, 0x51, 0x3E, 0x4B, 0x18, 0x57, 0xDE, 0x64, 0xCA, 0xF7,
   0xDD, 0x23]

def encryptedKey : Bytes :=
  [0x74, 0xE4, 0x82, 0x38, 0x4D, 0xDA, 0xF5, 0xF8, 0xFC, 0xAF, 0xD7, 0x68, 0xBC, 0x11, 0x2B, 0xC0,
   0xDE, 0x4C, 0xA4, 0x13, 0x2E, 0xB3, 0x65, 0x4A, 0x1D, 0x7C, 0xD9, 0xFD, 0xB0, 0x16, 0x22, 0x92,
   0x34, 0xA7, 0xBD, 0x3F, 0x02, 0x57, 0xE6, 0xA4, 0xCD, 0x2C, 0x95, 0xC7, 0x8B, 0x68, 0x36, 0xC6,
   0x78, 0x71, 0x9F, 0x8A, 0x08, 0x74, 0xB3, 0x45, 0xA4, 0x91, 0xD5, 0x23, 0xA6, 0x50, 0xBE, 0x27,
   0x65, 0x3B, 0x8F, 0x53, 0x21, 0x24, 0x6F, 0x9B, 0x19, 0xEC, 0x2A, 0x42, 0x44, 0x00, 0xE7, 0xAE,
   0x92, 0xA0, 0x8E, 0x3E, 0x1A, 0xE2, 0x6D, 0x59, 0x3F, 0x6C, 0xFA, 0xD9, 0x08, 0x8A, 0x53, 0x30,
   0xA4, 0x73, 0xA5, 0x22, 0xEA, 0x6B, 0xD1, 0x23, 0xE5, 0x1E, 0x6E, 0x23, 0xD1, 0xD5, 0x83, 0x88,
   0x25, 0x8A, 0x35, 0x12, 0x5D, 0x60, 0x13, 0x3F, 0xA5, 0xA9, 0xD3, 0x68, 0x8A, 0x6C, 0x70, 0x74]

/-- Libraries that know this key, and the AES key and the block of the other samples. -/
def savedLibrary : CppLibrary where
  crc32 := sampleCrc
  aesEncrypt := sampleCpp.aesEncrypt
  getPublicKey key := if key = savedPrivateKey then some savedPublicKey else none
  rsaDecrypt key encrypted :=
    if key = savedPrivateKey ∧ encrypted = encryptedKey then some sampleKey.val else none

def savedPy : PyCrypto where
  crc32 := sampleCrc
  aesCbcDecrypt := samplePy.aesCbcDecrypt
  rsaOaepEncrypt publicKey seed data :=
    if publicKey = savedPublicKey ∧ seed = sampleSeed ∧ data = sampleKey.val then
      some encryptedKey
    else none

def savedInfo : TransferInfo := ⟨sampleLine.take 9, sampleLine.drop 10, [0x61], [0x78]⟩

def savedLaunch : Launch := ⟨sampleBlock, savedPrivateKey, true, fun _ => 0, packetSize⟩

theorem saved_public : (savedLibrary.buildRsaKeySet savedPrivateKey).val = savedPublicKey := by
  unfold CppLibrary.buildRsaKeySet savedLibrary
  dsimp only
  rw [if_pos rfl]
  exact padded_of_length (by decide +kernel)

theorem saved_key : KeyWorks savedLibrary savedPy savedPrivateKey where
  laws := by
    have hsample := TransferIntegrity.sample_laws
    refine ⟨hsample.aes, hsample.aesLength, ?_⟩
    intro seed data encrypted h
    rw [saved_public] at h
    simp only [savedPy, true_and] at h
    split at h
    · next hdata =>
      cases h
      rw [hdata.2]
      exact ⟨by decide +kernel, by simp only [CppLibrary.under, savedLibrary, and_self, if_true]⟩
    · cases h
  encrypts := by
    refine ⟨sampleSeed, sampleKey, ?_⟩
    rw [saved_public]
    simp only [savedPy]
    rw [if_pos ⟨trivial, trivial, trivial⟩]
    rfl

theorem saved_info : InfoWorks .standard savedInfo [0x61] [0x78] where
  accepted := ⟨by decide, [0x61], by decide, by decide⟩
  userName := by decide
  ascii := by decide
  nameFits := by decide
  named := by decide
  plain := by decide

theorem saved_launch : LaunchWorks savedLibrary savedPy savedLaunch where
  file := by
    have hsuited := setup_suited (.inr rfl) emptyId
    exact ⟨rfl, hsuited.crcFits, hsuited.sendable, hsuited.reassembled⟩
  key := saved_key
  delivered := le_rfl

end Samples

end ClientProgram
