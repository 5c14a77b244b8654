import FileTransfer.TransferAnswers
import FileTransfer.TransferSession

/-! # Integrity of a transfer

What is on the server's disk when the client reports success. The two ends ask and answer
in turn, so the bytes in flight are those of one message, and a run keeps to its phases. -/
namespace TransferIntegrity

open ByteField ServerProtocol ServerState ServerFiles ServerHandlers ServerThread ClientChannel
  ClientFile ClientLogic MessageRoundTrip SendFileReassembly StepRun TransferAnswers TransferSession
open ClientLogic.Client (Unapproved Failed Harmless fileMessage crcStatusMessage)

section Definitions

/-- What the libraries of the two sides promise: the cipher pads and the other side leaves
the padding, and the private key of the client decrypts what its public key encrypts. -/
structure Laws (cpp : CppCrypto) (py : PyCrypto) (publicKey : Field publicKeySize) : Prop where
  aes : ∀ key plain, key.length = symmetricKeySize → ∃ padding,
    py.aesCbcDecrypt key (cpp.aesEncrypt key plain) = some (plain ++ padding)
  aesLength : ∀ key plain, key.length = symmetricKeySize →
    (cpp.aesEncrypt key plain).length = plain.length + (16 - plain.length % 16)
  rsa : ∀ seed data encrypted, py.rsaOaepEncrypt publicKey.val seed data = some encrypted →
    encrypted.length = 128 ∧ cpp.rsaDecrypt encrypted = some data

/-- The sizes of the file and of its message fit into 32 bits. -/
def Sendable (file : Bytes) : Prop :=
  file.length < 2 ^ 32 ∧ 4 + fileNameSize +
    ((fileBuffer file).length + (16 - (fileBuffer file).length % 16)) < 256 ^ 4

variable (cpp : CppCrypto) (py : PyCrypto)

/-- A recv result that completes a request takes the rest of its message, and a save that
is approved is complete. -/
def Clean (t : Transfer) : Event → Prop
  | .recv n env =>
    (∀ request, received t.thread (.chunk (t.toServer.take n)) = .parsed request →
      n = t.toServer.length) ∧
    ∀ q, received t.thread (.chunk (t.toServer.take n)) = .parsed (.crcValid q) →
      SavesWhole env t.world q
  | _ => True

def CleanStep (t : Transfer) (e : Event) (t' : Transfer) : Prop :=
  TransferStep cpp py t e t' ∧ Clean t e

/-- `EndSession(false)` after the server answered the approval with 2104. -/
def ReportsSuccess (t : Transfer) : Prop :=
  t.client.control = .ended false ∧ ∃ q responses, (Request.crcValid q, responses) ∈ t.served ∧
    q.header.clientID = t.client.id ∧ Response.receivingApproved ∈ responses

def OnDisk (c : Client) (w : World) (bytes : Bytes) : Prop :=
  ∃ text, fieldText (nameField c.fileToSend).val = some text ∧
    HoldsFile w.disk (filePath w c.id text) bytes

def InMemory (c : Client) (w : World) : Prop :=
  ∀ text, fieldText (nameField c.fileToSend).val = some text →
    ContentIs w c.id text (fileBuffer c.file)

inductive Asks (c : Client) (w : World) : Bytes → Prop where
  | registration : c.control = .running → c.messageQueue.tail = [] →
      Asks c w (registrationRequestMessage c.name)
  | publicKey : c.control = .running → Asks c w (publicKeyRequestMessage c.id c.name c.publicKey)
  | file : c.control = .running → KeyIs w c.id c.symmetricKey.val → Asks c w (fileMessage cpp c)
  | crcValid : c.control = .running → InMemory c w → Asks c w (c.crcStatusMessage requestCrcValid)
  | crcResend (v : Bytes) : c.control = .resending v → InMemory c w →
      Asks c w (c.crcStatusMessage invalidCrcResendRequest)

/-- The answer that is on its way to the client, and what it says about the server. -/
inductive Answers (c : Client) (w : World) : Response → Prop where
  | registration (clientId : ClientId) : c.control = .running → c.messageQueue.tail = [] →
      Answers c w (.registrationSucceeded clientId)
  | publicKey (encrypted key : Bytes) : c.control = .running → encrypted.length = 128 →
      cpp.rsaDecrypt encrypted = some key → key.length = symmetricKeySize → KeyIs w c.id key →
      Answers c w (.publicKey c.id encrypted (clientIdSize + encrypted.length))
  | crcValue (r : Response) : c.control.awaits = true → r.code = msgReceivedCrc → InMemory c w →
      Answers c w r

def Awaited (c : Client) (w : World) (r : Response) : Prop :=
  Answers cpp c w r ∨
    r = .receivingApproved ∧ c.control = .running ∧ OnDisk c w (fileBuffer c.file)

def AtRest (t : Transfer) : Prop := t.thread = .reading ∧ t.toServer = [] ∨ t.thread.awaits = false

inductive Phase (t : Transfer) : Prop where
  | asking (message : Bytes) (beyond : ℕ → UInt8) : t.thread = .reading →
      t.toServer = (writePackets message beyond).flatten → t.toClient = [] →
      t.client.Unapproved → Asks cpp t.client t.world message → Phase t
  | receiving (p : PartialFile) (text : Text) : t.thread = .receiving p →
      fieldText (nameField t.client.fileToSend).val = some text →
      PartOf (sentRequest t.client.id (getFileLengthWithPadding t.client.file) text
        (cpp.aesEncrypt t.client.symmetricKey.val (fileBuffer t.client.file))) p t.toServer →
      t.toClient = [] → t.client.Unapproved → t.client.control = .running →
      KeyIs t.world t.client.id t.client.symmetricKey.val → Phase t
  | answered (r : Response) : t.thread = .reading → t.toServer = [] →
      t.toClient = responsePackets r → t.client.Unapproved → Answers cpp t.client t.world r →
      Phase t
  | approved : AtRest t → t.toClient = responsePackets .receivingApproved →
      t.client.Unapproved → t.client.control = .running →
      OnDisk t.client t.world (fileBuffer t.client.file) → Phase t
  | closed : t.thread.awaits = false → t.client.control.awaits = true → t.client.Unapproved →
      (∀ packet ∈ t.toClient, Harmless (some packet)) → Phase t
  | failed : t.client.Failed → Phase t
  | done : AtRest t → t.client.control = .ended false →
      OnDisk t.client t.world (fileBuffer t.client.file) → Phase t

end Definitions

variable {cpp : CppCrypto} {py : PyCrypto} {t t' : Transfer}

section ClientSteps

variable {beyond : ℕ → UInt8} {delivered : ℕ} {r : Reaction}

theorem react_failed (t : Transfer) (h : r.1.Failed) : Phase cpp (t.react r beyond delivered) :=
  .failed (failed_react h t beyond delivered)

theorem react_asks {message : Bytes} (hthread : t.thread = .reading) (hserver : t.toServer = [])
    (hclient : t.toClient = []) (hmessage : r.2 = some message) (hun : r.1.Unapproved)
    (hcontrol : r.1.control ≠ .ended false) (hasks : Asks cpp r.1 t.world message) :
    Phase cpp (t.react r beyond delivered) := by
  unfold Transfer.react
  rw [hmessage]
  dsimp only
  split
  · exact .failed (Client.writeFailed_failed hcontrol)
  · next hall =>
    refine .asking message beyond hthread ?_ hclient hun hasks
    dsimp only
    rw [hserver, List.nil_append, List.take_of_length_le (by omega)]

/-- After the thread ended, only an approval that is on its way could help. -/
theorem react_closed (hthread : t.thread.awaits = false)
    (hclient : ∀ packet ∈ t.toClient, Harmless (some packet)) (hun : r.1.Unapproved)
    (hcontrol : r.1.control ≠ .ended false) : Phase cpp (t.react r beyond delivered) := by
  obtain ⟨hthread', htoClient, hreacts⟩ := react_leaves t r beyond delivered
  by_cases hawaits : (t.react r beyond delivered).client.control.awaits = true
  · rcases hreacts with hsame | hfails
    · refine .closed (by rwa [hthread']) hawaits ?_ ?_
      · rwa [hsame]
      · rwa [htoClient]
    · rw [hfails, Client.writeFailed_ends] at hawaits
      cases hawaits
  · refine .failed ⟨by simpa using hawaits, ?_⟩
    rcases hreacts with hsame | hfails
    · rwa [hsame]
    · rw [hfails]
      exact (Client.writeFailed_failed hcontrol).2

theorem asks_unfinished {c : Client} {w : World} {message : Bytes} (h : Asks cpp c w message) :
    c.control.awaits = true ∧ c.control ≠ .ended false := by
  cases h with
  | registration hc => rw [hc]; exact ⟨rfl, nofun⟩
  | publicKey hc => rw [hc]; exact ⟨rfl, nofun⟩
  | file hc => rw [hc]; exact ⟨rfl, nofun⟩
  | crcValid hc => rw [hc]; exact ⟨rfl, nofun⟩
  | crcResend v hc => rw [hc]; exact ⟨rfl, nofun⟩

theorem answers_awaits {c : Client} {w : World} {r : Response} (h : Answers cpp c w r) :
    c.control.awaits = true ∧ OnePacket r ∧ r.code ≠ msgReceived := by
  cases h with
  | registration clientId hc =>
    have hne : registrationSucceeded ≠ publicKeyReceived := by decide
    have hno : registrationSucceeded ≠ msgReceived := by decide
    rw [hc]
    exact ⟨rfl, onePacket_of_code hne, hno⟩
  | publicKey encrypted key hc hlength =>
    have hno : publicKeyReceived ≠ msgReceived := by decide
    rw [hc]
    exact ⟨rfl, onePacket_publicKey _ (hlength.le.trans (by decide)), hno⟩
  | crcValue r hawaits hcode =>
    exact ⟨hawaits, onePacket_of_code (by rw [hcode]; decide), by rw [hcode]; decide⟩

theorem inMemory_congr {c c' : Client} {w : World} (hid : c'.id = c.id)
    (hfixed : c'.fixed = c.fixed) (h : InMemory c w) : InMemory c' w := by
  simp only [Client.fixed, Prod.mk.injEq] at hfixed
  obtain ⟨-, hname, hfile⟩ := hfixed
  unfold InMemory at h ⊢
  rwa [hid, hname, hfile]

theorem onDisk_congr {c c' : Client} {w : World} (hid : c'.id = c.id)
    (hfixed : c'.fixed = c.fixed) (h : OnDisk c w (fileBuffer c.file)) :
    OnDisk c' w (fileBuffer c'.file) := by
  simp only [Client.fixed, Prod.mk.injEq] at hfixed
  obtain ⟨-, hname, hfile⟩ := hfixed
  unfold OnDisk at h ⊢
  rwa [hid, hname, hfile]

theorem answer_phase {packet : Bytes} {response : Response} (hthread : t.thread = .reading)
    (hserver : t.toServer = []) (hpackets : responsePackets response = packet :: t.toClient)
    (hun : t.client.Unapproved) (hanswers : Answers cpp t.client t.world response) :
    Phase cpp (t.react (t.client.receive cpp (some packet)) beyond delivered) := by
  obtain ⟨hawaits, hone, hne⟩ := answers_awaits hanswers
  obtain ⟨hsingle, hlength, hcode, hsize, payload, hpayload, hslice⟩ :=
    mem_responsePackets hone (by simp [hpackets] : packet ∈ _)
  have hclient : t.toClient = [] := by
    rw [hsingle] at hpackets
    exact (List.cons.inj hpackets).2.symm
  have hheader : headerSize ≤ packet.length := by rw [hlength]; decide
  have hharmless : Harmless (some packet) := by
    rintro p ⟨⟩
    exact ⟨hheader, by rw [hcode]; exact hne⟩
  obtain ⟨hcontrol, hun'⟩ := @Client.receive_harmless cpp _ hawaits hun _ hharmless
  have hfixed := @Client.receive_fixed cpp _ hawaits (some packet)
  have hasks : ∀ message, (t.client.receive cpp (some packet)).2 = some message →
      Asks cpp (t.client.receive cpp (some packet)).1 t.world message →
      Phase cpp (t.react (t.client.receive cpp (some packet)) beyond delivered) :=
    fun message hm ha => react_asks hthread hserver hclient hm hun' hcontrol ha
  cases haccepts : readAccepts packet with
  | false =>
    have hfails := @Client.receive_fails cpp _ hawaits hun (some packet) fun p hp => by
      cases hp
      exact haccepts
    exact react_failed t hfails.2
  | true =>
    cases hanswers with
    | registration clientId hc hqueue =>
      rcases Client.receive_registration haccepts hheader hc hcode hqueue with
        hfailed | ⟨hrunning, hmessage⟩
      · exact react_failed t hfailed
      · exact hasks _ hmessage (.publicKey hrunning)
    | publicKey encrypted key hc henc hkey hkeySize hkeyIs =>
      cases hpayload
      have hencrypted : slice packet (headerSize + clientIdSize)
          (responsePayloadSize packet + headerSize - (headerSize + clientIdSize)) = encrypted := by
        have hdrop := congrArg (List.drop clientIdSize) hslice
        rw [slice, List.drop_take, List.drop_drop, List.length_append, length_padded,
          Nat.add_sub_cancel_left, List.drop_left' (length_padded _ _)] at hdrop
        have hcount : responsePayloadSize packet + headerSize - (headerSize + clientIdSize) =
            encrypted.length := by
          rw [hsize, Response.payloadSize]
          omega
        rw [slice, hcount, hdrop]
      rcases Client.receive_publicKey haccepts hheader hc hcode
          (by rw [hsize, Response.payloadSize]; omega)
          (by rw [hsize, Response.payloadSize, hlength, henc]; decide)
          (by rw [hencrypted]; exact hkey) hkeySize with
        hfailed | ⟨hrunning, hid, hsymmetric, hmessage⟩
      · exact react_failed t hfailed
      · exact hasks _ hmessage (.file hrunning (by rw [hid, hsymmetric]; exact hkeyIs))
    | crcValue _ _ hcode' hmemory =>
      rcases @Client.receive_crcValue cpp _ _ haccepts hheader hawaits (hcode.trans hcode') with
        hfailed | ⟨-, hid, ⟨hrunning, hmessage⟩ | ⟨⟨v, hresending⟩, hmessage⟩⟩
      · exact react_failed t hfailed
      · exact hasks _ hmessage (.crcValid hrunning (inMemory_congr hid hfixed hmemory))
      · exact hasks _ hmessage (.crcResend v hresending (inMemory_congr hid hfixed hmemory))

theorem approval_phase {packet : Bytes} (hrest : AtRest t)
    (hpackets : responsePackets .receivingApproved = packet :: t.toClient)
    (hcontrol : t.client.control = .running)
    (hdisk : OnDisk t.client t.world (fileBuffer t.client.file)) :
    Phase cpp (t.react (t.client.receive cpp (some packet)) beyond delivered) := by
  have hone : OnePacket .receivingApproved := onePacket_of_code (by decide)
  obtain ⟨-, hlength, hcode, -⟩ :=
    mem_responsePackets hone (by simp [hpackets] : packet ∈ _)
  have hcode' : responseCode packet = msgReceived := hcode
  have haccepts : readAccepts packet = true := by simp [readAccepts, hcode']
  have hfixed := @Client.receive_fixed cpp _ (by rw [hcontrol]; rfl) (some packet)
  obtain ⟨hended, hid, hmessage⟩ := @Client.receive_approved cpp _ _ haccepts
    (by rw [hlength]; decide) hcontrol hcode'
  rw [Transfer.react, hmessage]
  exact .done hrest hended (onDisk_congr hid hfixed hdisk)

theorem read_phase {fails : Bool} (h : Phase cpp t)
    (hstep : TransferStep cpp py t (.read fails beyond delivered) t') : Phase cpp t' := by
  obtain ⟨hawaits, packet, toClient, hpacket, rfl⟩ := step_read hstep
  have hfailed : t.client.Unapproved → packet = none → Phase cpp
      (Transfer.react { t with toClient } (t.client.receive cpp packet) beyond delivered) := by
    rintro hun rfl
    exact react_failed _ (Client.receive_fails hawaits hun fun p hp => by cases hp).2
  cases h with
  | asking message beyond' hthread hserver hclient hun hasks =>
    rcases hpacket with hnone | ⟨p, -, hp⟩
    · exact hfailed hun hnone
    · rw [hclient] at hp
      cases hp
  | receiving p text hthread htext hpart hclient hun hcontrol hkey =>
    rcases hpacket with hnone | ⟨p, -, hp⟩
    · exact hfailed hun hnone
    · rw [hclient] at hp
      cases hp
  | answered response hthread hserver hclient hun hanswers =>
    rcases hpacket with hnone | ⟨p, rfl, hp⟩
    · exact hfailed hun hnone
    · exact @answer_phase cpp { t with toClient } _ _ _ _ hthread hserver (hclient ▸ hp) hun
        hanswers
  | approved hrest hclient hun hcontrol hdisk =>
    rcases hpacket with hnone | ⟨p, rfl, hp⟩
    · exact hfailed hun hnone
    · exact @approval_phase cpp { t with toClient } _ _ _ hrest (hclient ▸ hp) hcontrol hdisk
  | closed hthread _ hun hharmless =>
    rcases hpacket with hnone | ⟨p, rfl, hp⟩
    · exact hfailed hun hnone
    · obtain ⟨hcontrol, hun'⟩ := @Client.receive_harmless cpp _ hawaits hun (some p)
        (hharmless p (by simp [hp]))
      exact @react_closed cpp { t with toClient } _ _ _ hthread
        (fun q hq => hharmless q (by rw [hp]; exact List.mem_cons_of_mem p hq)) hun' hcontrol
  | failed hf =>
    rw [hf.1] at hawaits
    cases hawaits
  | done _ hended =>
    rw [hended] at hawaits
    cases hawaits

end ClientSteps

section ServerSteps

variable {r : RecvResult} {env : Env} {out : ReadStep}

theorem serve_react (t : Transfer) (hawaits : t.thread.awaits = true) (r : RecvResult) (env : Env) :
    readStep py env t.world t.thread r =
      ServerThread.react py env t.world (received t.thread r) :=
  readStep_eq_react py env t.world hawaits r

structure After (t : Transfer) (out : ReadStep) (t' : Transfer) : Prop where
  client : t'.client = t.client
  thread : t'.thread = out.control
  world : t'.world = out.world
  toClient : t'.toClient = t.toClient ++ out.sent.flatMap responsePackets

theorem givesUp_harmless {responses : List Response} (h : ∀ r ∈ responses, GivesUp r) :
    ∀ packet ∈ responses.flatMap responsePackets, Harmless (some packet) := by
  intro packet hp
  obtain ⟨r, hr, hpacket⟩ := List.mem_flatMap.mp hp
  have hcode : r.code ≠ publicKeyReceived ∧ r.code ≠ msgReceived := by
    rcases h r hr with rfl | rfl <;> exact ⟨by decide, by decide⟩
  obtain ⟨-, hlength, hpcode, -⟩ := mem_responsePackets (onePacket_of_code hcode.1) hpacket
  rintro p ⟨⟩
  exact ⟨by rw [hlength]; decide, by rw [hpcode]; exact hcode.2⟩

theorem closed_after (hafter : After t out t') (hawaits : t.client.control.awaits = true)
    (hun : t.client.Unapproved) (hclient : ∀ packet ∈ t.toClient, Harmless (some packet))
    (hcontrol : out.control.awaits = false) (hsent : ∀ r ∈ out.sent, GivesUp r) : Phase cpp t' := by
  refine .closed ?_ ?_ ?_ ?_
  · rw [hafter.thread, hcontrol]
  · rw [hafter.client, hawaits]
  · rw [hafter.client]
    exact hun
  · intro packet hp
    rw [hafter.toClient] at hp
    rcases List.mem_append.mp hp with hp | hp
    · exact hclient packet hp
    · exact givesUp_harmless hsent packet hp

theorem settled_after (hafter : After t out t') (hsettles : Settles (Awaited cpp t.client) out)
    (hawaits : t.client.control.awaits = true) (hun : t.client.Unapproved)
    (hclient : t.toClient = []) (hserver : t'.toServer = []) : Phase cpp t' := by
  rcases hsettles with ⟨hcontrol, hsent⟩ | ⟨hcontrol, r, hsent, hr⟩
  · exact closed_after hafter hawaits hun (by simp [hclient]) hcontrol hsent
  · have hthread := hafter.thread.trans hcontrol
    have hpackets : t'.toClient = responsePackets r := by
      rw [hafter.toClient, hclient, hsent]
      simp
    rcases hr with hanswers | ⟨rfl, hrunning, hdisk⟩
    · refine .answered r hthread hserver hpackets ?_ ?_
      · rwa [hafter.client]
      · rwa [hafter.client, hafter.world]
    · refine .approved (.inl ⟨hthread, hserver⟩) hpackets ?_ ?_ ?_
      · rwa [hafter.client]
      · rwa [hafter.client]
      · rwa [hafter.client, hafter.world]

theorem serve_after (t : Transfer) (stream : Bytes) (r : RecvResult) (env : Env) :
    After t (readStep py env t.world t.thread r)
      (Transfer.serve py { t with toServer := stream } r env) := ⟨rfl, rfl, rfl, rfl⟩

theorem received_piece {n : ℕ} (hthread : t.thread = .reading) (hpos : 0 < n)
    (hlength : n ≤ t.toServer.length) : received t.thread (.chunk (t.toServer.take n)) =
      Received.ofData (t.toServer.take n) := by
  rw [hthread]
  cases hchunk : t.toServer.take n with
  | nil =>
    have hzero := congrArg List.length hchunk
    rw [List.length_take, List.length_nil] at hzero
    omega
  | cons b bs => rfl

theorem piece_phase {n : ℕ} (hreads : t.thread.awaits = true) (hclean : Clean t (.recv n env))
    (hclient : t.toClient = []) (hun : t.client.Unapproved)
    (hawaits : t.client.control.awaits = true)
    (hpartly : ∀ p, received t.thread (.chunk (t.toServer.take n)) ≠ .partly p)
    (hsettles : ∀ request, received t.thread (.chunk (t.toServer.take n)) = .parsed request →
      Settles (Awaited cpp t.client)
        (settle env t.world (some request) (handle py env request))) :
    Phase cpp (Transfer.serve py { t with toServer := t.toServer.drop n }
      (.chunk (t.toServer.take n)) env) := by
  have hafter := @serve_after py t (t.toServer.drop n) (.chunk (t.toServer.take n)) env
  rw [serve_react t hreads] at hafter
  by_cases hparsed : ∃ request, received t.thread (.chunk (t.toServer.take n)) = .parsed request
  · obtain ⟨request, hparsed⟩ := hparsed
    have hsettled := hsettles request hparsed
    rw [hparsed] at hafter
    refine settled_after hafter hsettled hawaits hun hclient ?_
    exact List.drop_eq_nil_of_le (hclean.1 request hparsed).ge
  · have hsettled : Settles (fun _ _ => False)
        (ServerThread.react py env t.world (received t.thread (.chunk (t.toServer.take n)))) :=
      react_settles hpartly fun request h => absurd ⟨request, h⟩ hparsed
    rcases hsettled with ⟨hcontrol, hsent⟩ | ⟨-, r, -, hfalse⟩
    · exact closed_after hafter hawaits hun (by simp [hclient]) hcontrol hsent
    · exact hfalse.elim

theorem recv_short {n : ℕ} {id : ClientId} {code size : ℕ} {message rest : Bytes}
    (hstep : TransferStep cpp py t (.recv n env) t') (hclean : Clean t (.recv n env))
    (hthread : t.thread = .reading) (hclient : t.toClient = []) (hun : t.client.Unapproved)
    (hawaits : t.client.control.awaits = true) (hserver : t.toServer = message ++ rest)
    (hmessage : ∃ payload, message = requestHeader id code size ++ payload)
    (hcode : code < 256 ^ 2) (hsize : size < 256 ^ 4) (hne : code ≠ requestToSendFile)
    (hsettles : ∀ request, Received.ofData (message ++ rest) = .parsed request →
      (∀ q, request = .crcValid q → SavesWhole env t.world q) →
      Settles (Awaited cpp t.client)
        (settle env t.world (some request) (handle py env request))) : Phase cpp t' := by
  obtain ⟨hreads, hpos, -, hlength, rfl⟩ := step_recv hstep
  have hdata := received_piece hthread hpos hlength
  obtain ⟨payload, rfl⟩ := hmessage
  refine piece_phase hreads hclean hclient hun hawaits ?_ ?_
  · intro p
    rw [hdata, hserver, List.append_assoc]
    exact not_partly_of_header hcode hsize hne p
  · intro request hparsed
    have hwhole := hclean.1 request hparsed
    refine hsettles request ?_ ?_
    · rw [← hserver, ← hparsed, hdata, hwhole, List.take_length]
    · rintro q rfl
      exact hclean.2 q hparsed

theorem upload_settles {text : Text} (hlaws : Laws cpp py t.client.publicKey)
    (hsend : Sendable t.client.file) (hrunning : t.client.control = .running)
    (hkey : KeyIs t.world t.client.id t.client.symmetricKey.val)
    (htext : fieldText (nameField t.client.fileToSend).val = some text) :
    Settles (Awaited cpp t.client) (settle env t.world
      (some (.sendFile (sentRequest t.client.id (getFileLengthWithPadding t.client.file) text
        (cpp.aesEncrypt t.client.symmetricKey.val (fileBuffer t.client.file)))))
      (handle py env (.sendFile (sentRequest t.client.id
        (getFileLengthWithPadding t.client.file) text
        (cpp.aesEncrypt t.client.symmetricKey.val (fileBuffer t.client.file)))))) := by
  obtain ⟨padding, hdecrypt⟩ := hlaws.aes _ (fileBuffer t.client.file)
    t.client.symmetricKey.property
  refine (sendFile_settles hkey hdecrypt (length_fileBuffer hsend.1).1.symm).mono ?_
  rintro w r ⟨hcode, hcontent⟩
  refine .inl (.crcValue r (by rw [hrunning]; rfl) hcode fun text' htext' => ?_)
  cases htext.symm.trans htext'
  exact hcontent

theorem part_phase {n : ℕ} {text : Text} (hlaws : Laws cpp py t.client.publicKey)
    (hsend : Sendable t.client.file) (hreads : t.thread.awaits = true)
    (hclean : Clean t (.recv n env)) (hclient : t.toClient = []) (hun : t.client.Unapproved)
    (hrunning : t.client.control = .running)
    (hkey : KeyIs t.world t.client.id t.client.symmetricKey.val)
    (htext : fieldText (nameField t.client.fileToSend).val = some text)
    (hpiece : received t.thread (.chunk (t.toServer.take n)) =
        .parsed (.sendFile (sentRequest t.client.id (getFileLengthWithPadding t.client.file) text
          (cpp.aesEncrypt t.client.symmetricKey.val (fileBuffer t.client.file)))) ∨
      ∃ p, received t.thread (.chunk (t.toServer.take n)) = .partly p ∧
        PartOf (sentRequest t.client.id (getFileLengthWithPadding t.client.file) text
          (cpp.aesEncrypt t.client.symmetricKey.val (fileBuffer t.client.file))) p
          (t.toServer.drop n)) :
    Phase cpp (Transfer.serve py { t with toServer := t.toServer.drop n }
      (.chunk (t.toServer.take n)) env) := by
  have hawaits : t.client.control.awaits = true := by rw [hrunning]; rfl
  rcases hpiece with hparsed | ⟨p, hpartly, hpart⟩
  · refine piece_phase hreads hclean hclient hun hawaits ?_ ?_
    · rw [hparsed]
      exact fun p h => by cases h
    · rw [hparsed]
      rintro request ⟨⟩
      exact upload_settles hlaws hsend hrunning hkey htext
  · have hafter := @serve_after py t (t.toServer.drop n) (.chunk (t.toServer.take n)) env
    rw [serve_react t hreads, hpartly] at hafter
    refine .receiving p text hafter.thread ?_ ?_ ?_ ?_ ?_ ?_
    · exact htext
    · exact hpart
    · rw [hafter.toClient, hclient]
      rfl
    · exact hun
    · exact hrunning
    · rw [hafter.world]
      exact hkey

theorem recv_asking {n : ℕ} {message : Bytes} {beyond : ℕ → UInt8}
    (hlaws : Laws cpp py t.client.publicKey) (hsend : Sendable t.client.file)
    (hstep : TransferStep cpp py t (.recv n env) t') (hclean : Clean t (.recv n env))
    (hthread : t.thread = .reading) (hserver : t.toServer = (writePackets message beyond).flatten)
    (hclient : t.toClient = []) (hun : t.client.Unapproved)
    (hasks : Asks cpp t.client t.world message) : Phase cpp t' := by
  have hawaits := (asks_unfinished hasks).1
  rw [flatten_writePackets] at hserver
  generalize (List.range _).map beyond = rest at hserver
  cases hasks with
  | registration hrunning hqueue =>
    refine recv_short hstep hclean hthread hclient hun hawaits hserver ⟨_, rfl⟩ (by decide)
      (by decide) (by decide) fun request hparsed _ => ?_
    obtain ⟨q, rfl⟩ := parsed_registration hparsed
    refine (registration_settles q).mono ?_
    rintro w r ⟨clientId, rfl⟩
    exact .inl (.registration clientId hrunning hqueue)
  | publicKey hrunning =>
    refine recv_short hstep hclean hthread hclient hun hawaits hserver
      ⟨_, List.append_assoc _ _ _⟩ (by decide) (by decide) (by decide)
      fun request hparsed _ => ?_
    obtain ⟨q, rfl, hid, hpublic⟩ := parsed_publicKey hparsed
    refine (publicKey_settles q).mono ?_
    rintro w r ⟨encrypted, hencrypted, rfl, hkey⟩
    rw [hpublic] at hencrypted
    rw [hid] at hkey ⊢
    obtain ⟨hlength, hdecrypt⟩ := hlaws.rsa _ _ _ hencrypted
    exact .inl (.publicKey encrypted _ hrunning hlength hdecrypt env.aesKey.property hkey)
  | file hrunning hkey =>
    obtain ⟨hreads, hpos, hrecv, hlength, rfl⟩ := step_recv hstep
    have hdata := received_piece hthread hpos hlength
    have hfits : 4 + fileNameSize + (cpp.aesEncrypt t.client.symmetricKey.val
        (fileBuffer t.client.file)).length < 256 ^ 4 := by
      rw [hlaws.aesLength _ _ t.client.symmetricKey.property]
      exact hsend.2
    have hfront : t.toServer = sendFileFront t.client.id (getFileLengthWithPadding t.client.file)
        t.client.fileToSend (cpp.aesEncrypt t.client.symmetricKey.val
          (fileBuffer t.client.file)).length ++ (cpp.aesEncrypt t.client.symmetricKey.val
            (fileBuffer t.client.file) ++ rest) := by
      rw [hserver, fileMessage, requestToSendFileMessage_eq, List.append_assoc]
    rw [hthread] at hrecv
    rw [hfront] at hdata
    rcases first_piece (getFileLengthWithPadding_lt _) hfits hrecv hdata.symm with
      ⟨refused, hrefused⟩ | ⟨text, htext, hpiece⟩
    · refine piece_phase hreads hclean hclient hun hawaits ?_ ?_
      · rw [hfront, hrefused]
        exact fun p h => by cases h
      · rw [hfront, hrefused]
        exact fun request h => by cases h
    · rw [← hfront] at hpiece
      exact part_phase hlaws hsend hreads hclean hclient hun hrunning hkey htext hpiece
  | crcValid hrunning hmemory =>
    refine recv_short hstep hclean hthread hclient hun hawaits hserver
      ⟨_, List.append_assoc _ _ _⟩ (by decide) (by decide) (by decide)
      fun request hparsed hsaves => ?_
    obtain ⟨q, rfl, -, hid, htext⟩ := parsed_crcStatus (.inl rfl) hparsed
    have hcontent := hmemory _ htext
    rw [← hid] at hcontent
    refine (crcValid_settles hcontent (hsaves q rfl)).mono ?_
    rintro w r ⟨rfl, hdisk⟩
    rw [hid] at hdisk
    exact .inr ⟨rfl, hrunning, _, htext, hdisk⟩
  | crcResend v hresending hmemory =>
    refine recv_short hstep hclean hthread hclient hun hawaits hserver
      ⟨_, List.append_assoc _ _ _⟩ (by decide) (by decide) (by decide)
      fun request hparsed _ => ?_
    obtain ⟨q, rfl, -, hid, htext⟩ := parsed_crcStatus (.inr rfl) hparsed
    have hcontent := hmemory _ htext
    rw [← hid] at hcontent
    refine (crcResend_settles hcontent).mono ?_
    rintro w r ⟨⟨_, _, _, rfl⟩, hfound⟩
    refine .inl (.crcValue _ hawaits rfl fun text htext' => ?_)
    cases htext.symm.trans htext'
    rw [← hid]
    exact hfound

theorem recv_receiving {n : ℕ} {p : PartialFile} {text : Text}
    (hlaws : Laws cpp py t.client.publicKey) (hsend : Sendable t.client.file)
    (hstep : TransferStep cpp py t (.recv n env) t') (hclean : Clean t (.recv n env))
    (hthread : t.thread = .receiving p)
    (htext : fieldText (nameField t.client.fileToSend).val = some text)
    (hpart : PartOf (sentRequest t.client.id (getFileLengthWithPadding t.client.file) text
      (cpp.aesEncrypt t.client.symmetricKey.val (fileBuffer t.client.file))) p t.toServer)
    (hclient : t.toClient = []) (hun : t.client.Unapproved)
    (hrunning : t.client.control = .running)
    (hkey : KeyIs t.world t.client.id t.client.symmetricKey.val) : Phase cpp t' := by
  obtain ⟨hreads, -, -, hlength, rfl⟩ := step_recv hstep
  apply part_phase hlaws hsend hreads hclean hclient hun hrunning hkey htext
  rw [hthread]
  cases hreceived : received (.receiving p) (.chunk (t.toServer.take n)) with
  | parsed request => exact .inl (by rw [parsed_of_part hpart hreceived])
  | partly p' => exact .inr ⟨p', rfl, part_of_partly hpart hlength hreceived⟩
  | malformed refused =>
    simp only [received, Received.ofFile] at hreceived
    split at hreceived <;> cases hreceived
  | endOfStream =>
    simp only [received, Received.ofFile] at hreceived
    split at hreceived <;> cases hreceived
  | failure =>
    simp only [received, Received.ofFile] at hreceived
    split at hreceived <;> cases hreceived

theorem raises_phase (hreads : t.thread.awaits = true) (hun : t.client.Unapproved)
    (hawaits : t.client.control.awaits = true)
    (hclient : ∀ packet ∈ t.toClient, Harmless (some packet)) :
    Phase cpp (t.serve py .raises env) := by
  have hafter := @serve_after py t t.toServer .raises env
  rw [serve_react t hreads] at hafter
  have hsettled : Settles (fun _ _ => False)
      (ServerThread.react py env t.world (received t.thread .raises)) := by
    cases hthread : t.thread with
    | receiving p => exact malformed_settles true
    | reading => exact .inl ⟨rfl, List.forall_mem_nil _⟩
    | closed => rw [hthread] at hreads; cases hreads
    | dead e => rw [hthread] at hreads; cases hreads
    | spinning => rw [hthread] at hreads; cases hreads
  rcases hsettled with ⟨hcontrol, hsent⟩ | ⟨-, r, -, hfalse⟩
  · exact closed_after hafter hawaits hun hclient hcontrol hsent
  · exact hfalse.elim

theorem rest_after {r : RecvResult} (hr : r = .raises ∨ r = .chunk []) (hrest : AtRest t)
    (hreads : t.thread.awaits = true) :
    AtRest (t.serve py r env) ∧ (t.serve py r env).client = t.client ∧
      (t.serve py r env).world = t.world ∧ (t.serve py r env).toClient = t.toClient := by
  have hthread : t.thread = .reading := by
    rcases hrest with hrest | hended
    · exact hrest.1
    · rw [hended] at hreads
      cases hreads
  obtain ⟨control, hquiet, hended⟩ := readStep_ended py env t.world hr
  rw [← hthread] at hquiet
  have hafter : After t (.quiet t.world control) (t.serve py r env) :=
    hquiet ▸ serve_after t t.toServer r env
  refine ⟨.inr ?_, rfl, hafter.world, ?_⟩
  · rw [hafter.thread]
    exact hended
  · rw [hafter.toClient]
    simp

theorem not_recv_of_rest {n : ℕ} (hrest : AtRest t)
    (hstep : TransferStep cpp py t (.recv n env) t') : False := by
  obtain ⟨hreads, hpos, -, hlength, -⟩ := step_recv hstep
  rcases hrest with ⟨-, hserver⟩ | hended
  · rw [hserver, List.length_nil] at hlength
    omega
  · rw [hended] at hreads
    cases hreads

theorem ends_phase {r : RecvResult} (hr : r = .raises ∨ r = .chunk [])
    (hreads : t.thread.awaits = true)
    (hawaits : r = .chunk [] → ¬t.client.control.awaits = true) (h : Phase cpp t) :
    Phase cpp (t.serve py r env) := by
  have hraises : t.client.control.awaits = true → r = .raises :=
    fun hc => hr.resolve_right fun hend => hawaits hend hc
  cases h with
  | asking message beyond hthread hserver hclient hun hasks =>
    have hc := (asks_unfinished hasks).1
    rw [hraises hc]
    exact raises_phase hreads hun hc (by simp [hclient])
  | receiving p text hthread htext hpart hclient hun hrunning hkey =>
    have hc : t.client.control.awaits = true := by rw [hrunning]; rfl
    rw [hraises hc]
    exact raises_phase hreads hun hc (by simp [hclient])
  | answered response hthread hserver hclient hun hanswers =>
    obtain ⟨hc, hone, hne⟩ := answers_awaits hanswers
    rw [hraises hc]
    refine raises_phase hreads hun hc fun packet hp => ?_
    rw [hclient] at hp
    obtain ⟨-, hlength, hcode, -⟩ := mem_responsePackets hone hp
    rintro p ⟨⟩
    exact ⟨by rw [hlength]; decide, by rw [hcode]; exact hne⟩
  | approved hrest hclient hun hcontrol hdisk =>
    obtain ⟨hrest', hc, hw, hp⟩ := @rest_after py _ env _ hr hrest hreads
    exact .approved hrest' (hp.trans hclient) hun hcontrol (by rw [hc, hw]; exact hdisk)
  | closed hthread =>
    rw [hthread] at hreads
    cases hreads
  | failed hfailed => exact .failed hfailed
  | done hrest hended hdisk =>
    obtain ⟨hrest', hc, hw, -⟩ := @rest_after py _ env _ hr hrest hreads
    exact .done hrest' hended (by rw [hc, hw]; exact hdisk)

theorem recv_phase {n : ℕ} (hlaws : Laws cpp py t.client.publicKey)
    (hsend : Sendable t.client.file) (hstep : CleanStep cpp py t (.recv n env) t')
    (h : Phase cpp t) : Phase cpp t' := by
  obtain ⟨hstep, hclean⟩ := hstep
  cases h with
  | asking message beyond hthread hserver hclient hun hasks =>
    exact recv_asking hlaws hsend hstep hclean hthread hserver hclient hun hasks
  | receiving p text hthread htext hpart hclient hun hrunning hkey =>
    exact recv_receiving hlaws hsend hstep hclean hthread htext hpart hclient hun hrunning hkey
  | answered response hthread hserver =>
    exact (not_recv_of_rest (.inl ⟨hthread, hserver⟩) hstep).elim
  | approved hrest => exact (not_recv_of_rest hrest hstep).elim
  | closed hthread => exact (not_recv_of_rest (.inr hthread) hstep).elim
  | failed hfailed =>
    obtain ⟨-, -, -, -, rfl⟩ := step_recv hstep
    exact .failed hfailed
  | done hrest => exact (not_recv_of_rest hrest hstep).elim

end ServerSteps

section Runs

variable {e : Event} {es : List Event} {c : Client} {w : World} {isRegistered : Bool}
  {beyond : ℕ → UInt8} {delivered : ℕ}

theorem step_phase (hlaws : Laws cpp py t.client.publicKey) (hsend : Sendable t.client.file)
    (hstep : CleanStep cpp py t e t') (h : Phase cpp t) : Phase cpp t' := by
  cases e with
  | read fails beyond delivered => exact read_phase h hstep.1
  | recv n env => exact recv_phase hlaws hsend hstep h
  | recvEnds env =>
    obtain ⟨hreads, -, hawaits, rfl⟩ := step_recvEnds hstep.1
    exact ends_phase (.inr rfl) hreads (fun _ => hawaits) h
  | recvRaises env =>
    obtain ⟨hreads, rfl⟩ := step_recvRaises hstep.1
    exact ends_phase (.inl rfl) hreads nofun h

theorem react_fixed (t : Transfer) (r : Reaction) :
    (t.react r beyond delivered).client.fixed = r.1.fixed := by
  obtain ⟨-, -, hclient | hclient⟩ := react_leaves t r beyond delivered
  · rw [hclient]
  · rw [hclient, Client.writeFailed_fixed]

theorem step_fixed (h : TransferStep cpp py t e t') : t'.client.fixed = t.client.fixed := by
  cases e with
  | read fails beyond delivered =>
    obtain ⟨hawaits, packet, toClient, -, rfl⟩ := step_read h
    rw [react_fixed, Client.receive_fixed hawaits]
  | recv n env =>
    obtain ⟨-, -, -, -, rfl⟩ := step_recv h
    rfl
  | recvEnds env =>
    obtain ⟨-, -, -, rfl⟩ := step_recvEnds h
    rfl
  | recvRaises env =>
    obtain ⟨-, rfl⟩ := step_recvRaises h
    rfl

theorem run_phase (hlaws : Laws cpp py t.client.publicKey) (hsend : Sendable t.client.file)
    (hrun : Run (CleanStep cpp py) t es t') (h : Phase cpp t) :
    Phase cpp t' ∧ t'.client.fixed = t.client.fixed := by
  induction hrun with
  | nil => exact ⟨h, rfl⟩
  | snoc hrun hstep ih =>
    obtain ⟨hphase, hfixed⟩ := ih
    have hkept := hfixed
    simp only [Client.fixed, Prod.mk.injEq] at hkept
    refine ⟨step_phase ?_ ?_ hstep hphase, (step_fixed hstep.1).trans hfixed⟩
    · rw [hkept.1]
      exact hlaws
    · rw [hkept.2.2]
      exact hsend

theorem start_phase {name : Bytes} {id : ClientId} {publicKey : Field publicKeySize}
    {symmetricKey : Field symmetricKeySize} {fileToSend file : Bytes} :
    Phase cpp (Transfer.start (.opened name id publicKey symmetricKey fileToSend file)
      isRegistered w beyond delivered) := by
  unfold Transfer.start Client.run
  split
  · rw [Client.sendPublicKeyToServer, Client.addMessageToQueue_open rfl rfl rfl]
    apply react_asks rfl rfl rfl rfl
    · rintro _ ⟨⟩
    · rintro ⟨⟩
    · exact .publicKey rfl
  · rw [Client.sendRegistrationRequest, Client.addMessageToQueue_open rfl rfl rfl]
    apply react_asks rfl rfl rfl rfl
    · rintro _ ⟨⟩
    · rintro ⟨⟩
    · exact .registration rfl rfl

theorem onDisk_unique {c : Client} {w : World} {bytes bytes' : Bytes} (h : OnDisk c w bytes)
    (h' : OnDisk c w bytes') : bytes = bytes' := by
  obtain ⟨text, htext, dir, name, htarget, hnode⟩ := h
  obtain ⟨text', htext', dir', name', htarget', hnode'⟩ := h'
  cases htext.symm.trans htext'
  cases htarget.symm.trans htarget'
  cases hnode.symm.trans hnode'
  rfl

theorem padded_of_success {name : Bytes} {id : ClientId} {publicKey : Field publicKeySize}
    {symmetricKey : Field symmetricKeySize} {fileToSend file : Bytes}
    (hlaws : Laws cpp py publicKey) (hsend : Sendable file)
    (hrun : Run (CleanStep cpp py) (.start (.opened name id publicKey symmetricKey fileToSend file)
      isRegistered w beyond delivered) es t) (hreports : ReportsSuccess t) :
    OnDisk t.client t.world (fileBuffer file) := by
  have hstart : (Transfer.start (.opened name id publicKey symmetricKey fileToSend file)
      isRegistered w beyond delivered).client.fixed = (publicKey, fileToSend, file) := by
    rw [Transfer.start, react_fixed]
    unfold Client.run
    split
    · rw [Client.sendPublicKeyToServer, Client.addMessageToQueue_open rfl rfl rfl]
      rfl
    · rw [Client.sendRegistrationRequest, Client.addMessageToQueue_open rfl rfl rfl]
      rfl
  have hkept := hstart
  simp only [Client.fixed, Prod.mk.injEq] at hkept
  obtain ⟨hphase, hfixed⟩ := run_phase (by rw [hkept.1]; exact hlaws)
    (by rw [hkept.2.2]; exact hsend) hrun start_phase
  rw [hstart] at hfixed
  simp only [Client.fixed, Prod.mk.injEq] at hfixed
  have hended := hreports.1
  cases hphase with
  | asking message beyond hthread hserver hclient hun hasks =>
    exact absurd hended (asks_unfinished hasks).2
  | receiving p text _ _ _ _ _ hrunning =>
    rw [hended] at hrunning
    cases hrunning
  | answered r _ _ _ _ hanswers =>
    have hawaits := (answers_awaits hanswers).1
    rw [hended] at hawaits
    cases hawaits
  | approved _ _ _ hrunning =>
    rw [hended] at hrunning
    cases hrunning
  | closed _ hawaits =>
    rw [hended] at hawaits
    cases hawaits
  | failed hfailed => exact absurd hended hfailed.2
  | done _ _ hdisk => rwa [hfixed.2.2] at hdisk

/-- Main theorem: after a clean run that reports success, the client's file is on the
server's disk exactly when it is a whole number of blocks or its size is no `int`. -/
theorem intact_iff {name : Bytes} {id : ClientId} {publicKey : Field publicKeySize}
    {symmetricKey : Field symmetricKeySize} {fileToSend file : Bytes}
    (hlaws : Laws cpp py publicKey) (hsend : Sendable file)
    (hrun : Run (CleanStep cpp py) (.start (.opened name id publicKey symmetricKey fileToSend file)
      isRegistered w beyond delivered) es t) (hreports : ReportsSuccess t) :
    OnDisk t.client t.world file ↔ 16 ∣ file.length ∨ 2 ^ 31 ≤ file.length := by
  have hdisk := padded_of_success hlaws hsend hrun hreports
  rw [← fileBuffer_eq_iff hsend.1]
  constructor
  · exact fun h => onDisk_unique hdisk h
  · intro h
    rwa [h] at hdisk

end Runs

section Sessions

theorem sample_laws : Laws sampleCpp samplePy samplePublicKey where
  aes key plain hkey := by
    unfold sampleCpp samplePy
    dsimp only
    by_cases h : key = sampleKey.val ∧ plain = sampleBlock
    · refine ⟨List.replicate 16 16, ?_⟩
      rw [if_pos h, if_pos ⟨hkey, by decide⟩, if_pos ⟨h.1, rfl⟩, h.2]
    · refine ⟨List.replicate (16 - plain.length % 16) 0, ?_⟩
      -- the last byte of the one ciphertext in the table is not zero
      have hlast : plain ++ List.replicate (16 - plain.length % 16) 0 ≠ sampleCiphertext := by
        intro heq
        have hend := congrArg List.getLast? heq
        rw [List.getLast?_append_of_ne_nil _ (by simp; omega), List.getLast?_replicate,
          if_neg (by omega)] at hend
        exact absurd hend (by decide)
      rw [if_neg h, if_pos ⟨hkey, by simp; omega⟩, if_neg fun hc => hlast hc.2]
  aesLength key plain _ := by
    unfold sampleCpp
    dsimp only
    split
    · next h =>
      rw [h.2]
      decide
    · simp
  rsa seed data encrypted h := by
    unfold samplePy at h
    dsimp only at h
    split at h
    · next hdata =>
      cases h
      rw [hdata.2.2]
      exact ⟨rfl, by simp [sampleCpp]⟩
    · cases h

def cleanNow (t : Transfer) : Event → Bool
  | .recv n env =>
    match received t.thread (.chunk (t.toServer.take n)) with
    | .parsed request => n = t.toServer.length && match request with
      | .crcValid q => match getFileInstance t.world q.clientID q.fileName with
        | some file => (saved env t.world.disk file.fullPath file.content).2
        | none => true
      | _ => true
    | _ => true
  | _ => true

theorem clean_of_cleanNow {e : Event} (h : cleanNow t e = true) : Clean t e := by
  cases e with
  | recv n env =>
    unfold cleanNow at h
    dsimp only at h
    constructor
    · intro request hparsed
      rw [hparsed] at h
      simp only [Bool.and_eq_true, decide_eq_true_eq] at h
      exact h.1
    · intro q hparsed _ _ _ file hfile
      rw [hparsed] at h
      simp only [hfile, Bool.and_eq_true, decide_eq_true_eq] at h
      exact (saved_eq_true_iff _ _ _ _).mp h.2
  | read fails beyond delivered => trivial
  | recvEnds env => trivial
  | recvRaises env => trivial

def session (file : Bytes) : Option Transfer :=
  (Transfer.sample file).bind fun t => (List.replicate 3 sampleEnv).foldlM (fun t env =>
    if cleanNow t (.recv packetSize env) then t.round sampleCpp samplePy env else none) t

theorem rounds_run {envs : List Env} (h : envs.foldlM (fun t env =>
    if cleanNow t (.recv packetSize env) then t.round cpp py env else none) t = some t') :
    Run (CleanStep cpp py) t (envs.flatMap exchange) t' := by
  induction envs generalizing t with
  | nil =>
    cases h
    exact .nil _
  | cons env envs ih =>
    obtain ⟨u, hround, hrest⟩ := Option.bind_eq_some_iff.mp h
    dsimp only at hround
    split at hround
    · next hclean =>
      obtain ⟨v, hrecv, hread⟩ := round_steps hround
      have hfirst : Run (CleanStep cpp py) t (exchange env) u :=
        .cons ⟨hrecv, clean_of_cleanNow hclean⟩ (.cons ⟨hread, trivial⟩ (.nil _))
      exact hfirst.append (ih hrest)
    · cases hround

theorem session_run {file : Bytes} (h : session file = some t) :
    Run (CleanStep sampleCpp samplePy) (.start (sampleClient file) true .withClient (fun _ => 0)
      packetSize) ((List.replicate 3 sampleEnv).flatMap exchange) t := by
  obtain ⟨s, hs, hrest⟩ := Option.bind_eq_some_iff.mp h
  have hstart := asked_eq hs
  rw [Transfer.start, hstart]
  exact rounds_run hrest

def outcome (t : Transfer) : Bool × Option (PathWalk.Node Bytes) :=
  (t.client.control = .ended false && t.served.any fun (request, responses) =>
      match request with
      | .crcValid q => q.header.clientID = t.client.id && responses.contains .receivingApproved
      | _ => false,
    (PathWalk.openTarget t.world.disk (filePath t.world t.client.id [0x78])).bind
      fun (dir, name) => t.world.disk.node (dir ++ [name]))

theorem session_reports {file : Bytes} {node : PathWalk.Node Bytes}
    (h : (session file).map outcome = some (true, some node)) :
    ∃ t, session file = some t ∧ ReportsSuccess t ∧ (outcome t).2 = some node := by
  obtain ⟨t, ht, hout⟩ := Option.map_eq_some_iff.mp h
  simp only [outcome, Prod.mk.injEq, Bool.and_eq_true, decide_eq_true_eq, List.any_eq_true,
    Prod.exists] at hout
  obtain ⟨⟨hended, request, responses, hserved, happroved⟩, hnode⟩ := hout
  refine ⟨t, ht, ⟨hended, ?_⟩, hnode⟩
  split at happroved
  · next q =>
    simp only [Bool.and_eq_true, decide_eq_true_eq, List.contains_iff_mem] at happroved
    exact ⟨q, responses, hserved, happroved⟩
  · cases happroved

theorem intact_iff_block : ∃ t, ReportsSuccess t ∧
    (OnDisk t.client t.world sampleBlock ↔
      16 ∣ sampleBlock.length ∨ 2 ^ 31 ≤ sampleBlock.length) := by
  have hout : (session sampleBlock).map outcome = some (true, some (.file sampleBlock)) := by
    decide +kernel
  obtain ⟨t, ht, hreports, -⟩ := session_reports hout
  exact ⟨t, hreports, intact_iff sample_laws ⟨by decide, by decide⟩ (session_run ht) hreports⟩

theorem not_intact_letter :
    ¬∀ (cpp : CppCrypto) (py : PyCrypto) (name : Bytes) (id : ClientId)
      (publicKey : Field publicKeySize) (symmetricKey : Field symmetricKeySize)
      (fileToSend file : Bytes) (isRegistered : Bool) (w : World) (beyond : ℕ → UInt8)
      (delivered : ℕ) (es : List Event) (t : Transfer), Laws cpp py publicKey →
      Run (TransferStep cpp py) (.start
        (.opened name id publicKey symmetricKey fileToSend file) isRegistered w beyond delivered)
        es t → ReportsSuccess t → OnDisk t.client t.world file := by
  intro h
  have hout : (session [0x61]).map outcome = some (true, some (.file sampleBlock)) := by
    decide +kernel
  obtain ⟨t, ht, hreports, -⟩ := session_reports hout
  have hrun := session_run ht
  have hletter := h _ _ _ _ _ _ _ _ _ _ _ _ _ _ sample_laws (hrun.mono fun hs => hs.1) hreports
  have hblock : OnDisk t.client t.world (fileBuffer [0x61]) :=
    padded_of_success sample_laws ⟨by decide, by decide⟩ hrun hreports
  exact absurd (onDisk_unique hletter hblock) (by decide)

end Sessions

end TransferIntegrity
