import FileTransfer.CalmClient
import FileTransfer.CalmServer
import FileTransfer.Segmentation
import FileTransfer.Simulation

/-! # A transfer when nothing fails

Every run goes on to its end, and at its end the file is delivered. A stage says what is in
flight and what the two ends know, and its rank how many steps are left. -/
namespace CalmTransfer

open ByteField PathWalk ServerProtocol ServerTables ServerState ServerFiles ServerHandlers
  ServerThread StoreAtomicity ClientChannel ClientFile ClientLogic MessageRoundTrip
  SendFileReassembly StepRun TransferAnswers TransferSession CalmServer CalmClient
open TransferIntegrity (Laws Sendable After serve_after serve_react received_piece step_fixed)
open ClientLogic.Client (idIsEmpty fileMessage)

section Definitions

def cipherSize (file : Bytes) : ℕ :=
  (fileBuffer file).length + (16 - (fileBuffer file).length % 16)

variable (cpp : CppCrypto) (py : PyCrypto)

/-- A client with a file that the server can receive: the libraries keep their promises and
agree on the checksum, the sizes fit, the first packet is not the one size that is refused, and
the name is a plain one. -/
structure Suited (c : Client) (text : Text) : Prop where
  laws : Laws cpp py c.publicKey
  encrypts : ∃ seed, ∃ key : Field symmetricKeySize,
    (py.rsaOaepEncrypt c.publicKey.val seed key.val).isSome = true
  crc : cpp.crc32 (fileBuffer c.file) = py.crc32 (fileBuffer c.file)
  crcFits : py.crc32 (fileBuffer c.file) < 256 ^ 4
  sendable : Sendable c.file
  reassembled : cipherSize c.file ≤ 742 ∨ packetSize < cipherSize c.file
  nameFits : c.nameFits = true
  named : fieldText (nameField c.fileToSend).val = some text
  plain : Plain text

/-- What a request asks of the random source: a new id with room for the file, and a key that
the library encrypts. -/
def Obliges (t : Transfer) (env : Env) : Request → Prop
  | .registration _ => (∀ row ∈ t.world.db.server, row.id ≠ env.uuid) ∧
      ∀ text, fieldText (nameField t.client.fileToSend).val = some text →
        Room t.world env.uuid text
  | .publicKey q =>
    (py.rsaOaepEncrypt q.publicKey.val env.oaepSeed env.aesKey.val).isSome = true
  | _ => True

/-- Nothing fails: what is written arrives whole, a first `recv` takes a packet, and one that
completes a request takes the rest of its message. -/
def CalmEvent (t : Transfer) : Event → Prop
  | .read fails beyond delivered => fails = false ∧ ∀ packet message,
      t.toClient.head? = some packet → (t.client.receive cpp (some packet)).2 = some message →
        (writePackets message beyond).flatten.length ≤ delivered
  | .recv n env => Calm env ∧ (t.thread = .reading → n = packetSize) ∧
      ∀ q, received t.thread (.chunk (t.toServer.take n)) = .parsed q →
        t.toServer.drop n = [] ∧ Obliges py t env q
  | .recvEnds _ => False
  | .recvRaises _ => False

def CalmStep (t : Transfer) (e : Event) (t' : Transfer) : Prop :=
  TransferStep cpp py t e t' ∧ CalmEvent cpp py t e

structure Asked (t : Transfer) (message : Bytes) : Prop where
  thread : t.thread = .reading
  server : ∃ beyond, t.toServer = (writePackets message beyond).flatten
  client : t.toClient = []
  running : t.client.control = .running

structure Told (t : Transfer) (r : Response) : Prop where
  thread : t.thread = .reading
  server : t.toServer = []
  client : t.toClient = responsePackets r
  running : t.client.control = .running

structure Sent (t : Transfer) (text : Text) : Prop where
  welcome : Welcome t.world t.client.id text
  key : KeyIs t.world t.client.id t.client.symmetricKey.val
  crc : t.client.calculatedCrc = cpp.crc32 (fileBuffer t.client.file)

/-- The client has no id yet, its name is free, and there are ids to give. -/
structure Nameless (c : Client) (w : World) (text : Text) : Prop where
  id : idIsEmpty c.id = some true
  name : ∃ name, fieldText (clientName c.name) = some name ∧ isAscii name = true ∧
    w.db.hasName name = false
  fresh : ∃ id, (∀ row ∈ w.db.server, row.id ≠ id) ∧ Room w id text

def Expects (c : Client) (w : World) (text : Text) : Bool → Prop
  | true => (fieldText (clientName c.name)).isSome = true ∧ Welcome w c.id text
  | false => Nameless c w text

def fileRequest (c : Client) (text : Text) : RequestToSendFile :=
  sentRequest c.id (getFileLengthWithPadding c.file) text
    (cpp.aesEncrypt c.symmetricKey.val (fileBuffer c.file))

/-- The stages of a transfer, with the steps that are left. -/
inductive Stage (t : Transfer) (text : Text) : ℕ → Prop where
  | registering : Asked t (registrationRequestMessage t.client.name) →
      t.client.Alone → Nameless t.client t.world text →
      Stage t text (cipherSize t.client.file + 9)
  | registered (id : ClientId) : Told t (.registrationSucceeded id) →
      t.client.Alone → idIsEmpty t.client.id = some true →
      (fieldText (clientName t.client.name)).isSome = true → Welcome t.world id text →
      Stage t text (cipherSize t.client.file + 8)
  | keying : Asked t (publicKeyRequestMessage t.client.id t.client.name t.client.publicKey) →
      (fieldText (clientName t.client.name)).isSome = true → Welcome t.world t.client.id text →
      Stage t text (cipherSize t.client.file + 7)
  | keyed (encrypted key : Bytes) :
      Told t (.publicKey t.client.id encrypted (clientIdSize + encrypted.length)) →
      encrypted.length = 128 → cpp.rsaDecrypt encrypted = some key →
      key.length = symmetricKeySize → KeyIs t.world t.client.id key →
      Welcome t.world t.client.id text → Stage t text (cipherSize t.client.file + 6)
  | uploading : Asked t (fileMessage cpp t.client) → Sent cpp t text →
      Stage t text (cipherSize t.client.file + 5)
  | receiving (p : PartialFile) : t.thread = .receiving p → t.toClient = [] →
      t.client.control = .running → p.packetSize = packetSize →
      PartOf (fileRequest cpp t.client text) p t.toServer → 0 < p.need →
      t.toServer.length < p.need + packetSize → Sent cpp t text →
      Stage t text (p.need + 4)
  | stored (r : Response) : Told t r → Tells py (fileBuffer t.client.file) r →
      (∃ packet, packet ∈ responsePackets r) →
      t.client.calculatedCrc = cpp.crc32 (fileBuffer t.client.file) →
      Kept t.world t.client.id text (fileBuffer t.client.file) → Stage t text 4
  | approving : Asked t (t.client.crcStatusMessage requestCrcValid) →
      Kept t.world t.client.id text (fileBuffer t.client.file) → Stage t text 3
  | approved : Told t .receivingApproved →
      Delivered t.world t.client.id text (fileBuffer t.client.file) →
      Kept t.world t.client.id text (fileBuffer t.client.file) → Stage t text 2
  | done : t.thread = .reading → t.toServer = [] → t.client.control = .ended false →
      Delivered t.world t.client.id text (fileBuffer t.client.file) →
      Kept t.world t.client.id text (fileBuffer t.client.file) → Stage t text 1

/-- What is the same in every run of a client. -/
structure Setup where
  name : Bytes
  publicKey : Field publicKeySize
  symmetricKey : Field symmetricKeySize
  fileToSend : Bytes

def Setup.client (s : Setup) (id : ClientId) (file : Bytes) : Client :=
  .opened s.name id s.publicKey s.symmetricKey s.fileToSend file

/-- The client has ended without an error, and its file is on the disk. -/
def Done (file : Bytes) (t : Transfer) (text : Text) : Prop :=
  t.client.control = .ended false ∧ Delivered t.world t.client.id text (fileBuffer file)

end Definitions

variable {cpp : CppCrypto} {py : PyCrypto} {t t' : Transfer} {text : Text} {env : Env} {n : ℕ}

section Suited

theorem suited_congr {c c' : Client} (h : c'.fixed = c.fixed) (hsuited : Suited cpp py c text) :
    Suited cpp py c' text := by
  simp only [Client.fixed, Prod.mk.injEq] at h
  obtain ⟨hkey, hname, hfile⟩ := h
  obtain ⟨hlaws, hencrypts, hcrc, hcrcFits, hsendable, hreassembled, hnameFits, hnamed, hplain⟩ :=
    hsuited
  refine ⟨?_, ?_, ?_, ?_, ?_, ?_, ?_, ?_, hplain⟩
  · rwa [hkey]
  · rwa [hkey]
  · rwa [hfile]
  · rwa [hfile]
  · rwa [hfile]
  · rwa [hfile]
  · rwa [Client.nameFits, hname]
  · rwa [hname]

theorem length_encrypted {c : Client} (h : Suited cpp py c text) :
    (cpp.aesEncrypt c.symmetricKey.val (fileBuffer c.file)).length = cipherSize c.file :=
  h.laws.aesLength _ _ c.symmetricKey.property

end Suited

section Pieces

variable {id : ClientId} {q : Request} {rest : Bytes}

theorem ofData_parsed {code size : ℕ} (hcode : code < 256 ^ 2) (hsize : size < 256 ^ 4)
    (hne : code ≠ requestToSendFile)
    (h : parsedRequest code (requestHeader id code size ++ rest) = some q) :
    Received.ofData (requestHeader id code size ++ rest) = .parsed q := by
  rw [Received.ofData, unpack_requestHeader id code size rest hcode hsize]
  dsimp only
  rw [if_neg hne, h]
  rfl

theorem ofData_registration {name : Bytes} (h : fieldText (clientName name) = some text) :
    ∃ q : RegistrationRequest, q.name = text ∧ ∀ rest,
      Received.ofData (registrationRequestMessage name ++ rest) = .parsed (.registration q) := by
  refine ⟨⟨⟨emptyId, clientVersion, requestRegistration, clientNameSize⟩, text⟩, rfl, ?_⟩
  intro rest
  have hunpack := unpack_registrationRequest name rest
  rw [h] at hunpack
  rw [registrationRequestMessage, List.append_assoc] at hunpack ⊢
  refine ofData_parsed (by decide) (by decide) (by decide) ?_
  rw [parsedRequest, if_pos rfl, hunpack]
  rfl

theorem ofData_publicKey {name : Bytes} {key : Field publicKeySize}
    (h : (fieldText (clientName name)).isSome = true) :
    ∃ q : PublicKeyRequest, q.header.clientID = id ∧ q.publicKey = key ∧ ∀ rest,
      Received.ofData (publicKeyRequestMessage id name key ++ rest) = .parsed (.publicKey q) := by
  obtain ⟨text, htext⟩ := Option.isSome_iff_exists.mp h
  refine ⟨⟨⟨id, clientVersion, requestPublicKey, clientNameSize + publicKeySize⟩, text, key⟩,
    rfl, rfl, ?_⟩
  intro rest
  have hunpack := unpack_publicKeyRequest id name key rest
  rw [htext] at hunpack
  rw [publicKeyRequestMessage, List.append_assoc, List.append_assoc] at hunpack ⊢
  refine ofData_parsed (by decide) (by decide) (by decide) ?_
  rw [parsedRequest, if_neg (by decide), if_pos rfl, hunpack]
  rfl

theorem ofData_crcValid {name : Bytes} (h : fieldText (nameField name).val = some text) :
    ∃ q : CrcStatusRequest, q.header.clientID = id ∧ q.clientID = id ∧ q.fileName = text ∧
      ∀ rest, Received.ofData (crcStatusRequestMessage requestCrcValid id (nameField name) ++
        rest) = .parsed (.crcValid q) := by
  refine ⟨⟨⟨id, clientVersion, requestCrcValid, clientIdSize + fileNameSize⟩, id, text⟩, rfl,
    rfl, rfl, ?_⟩
  intro rest
  have hunpack := @unpack_crcStatusRequest requestCrcValid id name rest (by decide)
  rw [h] at hunpack
  rw [crcStatusRequestMessage, List.append_assoc, List.append_assoc] at hunpack ⊢
  refine ofData_parsed (by decide) (by decide) (by decide) ?_
  rw [parsedRequest, if_neg (by decide), if_neg (by decide), if_pos rfl, hunpack]
  rfl

theorem ofData_file (id : ClientId) {contentSize : ℕ} {name encrypted tail : Bytes}
    (hsize : contentSize < 256 ^ 4)
    (hn : 4 + fileNameSize + encrypted.length < 256 ^ 4)
    (htext : fieldText (nameField name).val = some text)
    (hgap : encrypted.length ≤ 742 ∨ packetSize < encrypted.length)
    (hfull : 742 ≤ (encrypted ++ tail).length) :
    let stream := sendFileFront id contentSize name encrypted.length ++ (encrypted ++ tail)
    let sent := sentRequest id contentSize text encrypted
    encrypted.length ≤ 742 ∧
        Received.ofData (stream.take packetSize) = .parsed (.sendFile sent) ∨
      packetSize < encrypted.length ∧ ∃ p, Received.ofData (stream.take packetSize) = .partly p ∧
        PartOf sent p (stream.drop packetSize) ∧ p.packetSize = packetSize ∧
        p.need = encrypted.length - 742 := by
  intro stream sent
  have hfront := length_sendFileFront id contentSize name encrypted.length
  have htake : stream.take packetSize =
      sendFileFront id contentSize name encrypted.length ++ (encrypted ++ tail).take 742 := by
    rw [List.take_append, hfront, List.take_of_length_le (by rw [hfront]; decide)]
    rfl
  have hbegin := begin_sendFile id name ((encrypted ++ tail).take 742) hsize hn
  have hdata := @Segmentation.ofData_sendFileFront id contentSize name encrypted.length
    ((encrypted ++ tail).take 742) hn
  have hlength : ((encrypted ++ tail).take 742).length = 742 := by
    rw [List.length_take]
    omega
  rw [htext, Option.bind_some, hlength] at hbegin
  rw [htake, hdata]
  rcases hgap with hsmall | hlarge
  · left
    have hread : firstRead encrypted.length = encrypted.length :=
      if_neg (by simp only [packetSize]; omega)
    rw [hread, if_pos hsmall, List.take_take, min_eq_left hsmall, List.take_left] at hbegin
    rw [hbegin]
    exact ⟨hsmall, if_pos (decide_eq_true le_rfl)⟩
  · -- the packet is full, and the ciphertext goes on behind it
    right
    have hread : firstRead encrypted.length = 742 := if_pos hlarge
    have hlong : 742 < encrypted.length := lt_trans (by decide) hlarge
    have hdrop : stream.drop packetSize = (encrypted ++ tail).drop 742 := by
      rw [List.drop_append, hfront, List.drop_of_length_le (by rw [hfront]; decide),
        List.nil_append]
      rfl
    rw [hread, if_pos le_rfl, List.take_take, Nat.min_self] at hbegin
    rw [hbegin]
    refine ⟨hlarge, _, if_neg ?_, ⟨rfl, ⟨tail, ?_⟩, ?_⟩, rfl, rfl⟩
    · simpa [PartialFile.complete] using hlong
    · rw [hdrop, List.take_append_drop]
      rfl
    · rw [hlength]
      exact Nat.add_sub_cancel' hlong.le

end Pieces

section Asking

variable {message : Bytes} {q : Request} {e : Event} {r : Response}

theorem length_stream (message : Bytes) (beyond : ℕ → UInt8) :
    (writePackets message beyond).flatten.length = packetSize * packetCount message.length := by
  rw [flatten_writePackets, List.length_append, List.length_map, List.length_range]
  simp only [packetCount, packetSize]
  omega

theorem no_read {fails : Bool} {beyond : ℕ → UInt8} {delivered : ℕ} (hclient : t.toClient = []) :
    ¬CalmStep cpp py t (.read fails beyond delivered) t' := by
  rintro ⟨hnext, rfl, -⟩
  unfold TransferStep Transfer.next at hnext
  dsimp only at hnext
  rw [if_neg Bool.false_ne_true, hclient, ite_self] at hnext
  cases hnext

theorem asked_step (h : Asked t message) (hstep : CalmStep cpp py t e t') : ∃ env, Calm env ∧
    packetSize ≤ t.toServer.length ∧
    t' = Transfer.serve py { t with toServer := t.toServer.drop packetSize }
      (.chunk (t.toServer.take packetSize)) env ∧
    ∀ q, Received.ofData (t.toServer.take packetSize) = .parsed q →
      t.toServer.drop packetSize = [] ∧ Obliges py t env q := by
  obtain ⟨hnext, hcalm⟩ := hstep
  cases e with
  | read fails beyond delivered => exact (no_read h.client ⟨hnext, hcalm⟩).elim
  | recv n env =>
    obtain ⟨henv, hsize, hparsed⟩ := hcalm
    obtain ⟨-, -, -, hlength, rfl⟩ := step_recv hnext
    obtain rfl := hsize h.thread
    rw [received_piece h.thread (by decide) hlength] at hparsed
    exact ⟨env, henv, hlength, rfl, hparsed⟩
  | recvEnds env => exact hcalm.elim
  | recvRaises env => exact hcalm.elim

theorem told_after {out : ReadStep} (hafter : After t out t') (hserves : Serves out r)
    (hserver : t'.toServer = []) (hclient : t.toClient = [])
    (hrunning : t.client.control = .running) :
    Told t' r ∧ t'.client = t.client ∧ t'.world = out.world := by
  refine ⟨⟨hafter.thread.trans hserves.control, hserver, ?_, ?_⟩, hafter.client, hafter.world⟩
  · rw [hafter.toClient, hclient, hserves.sent]
    simp
  · rw [hafter.client, hrunning]

theorem recv_short {n : ℕ} {env : Env} (hthread : t.thread = .reading)
    (hserver : ∃ beyond, t.toServer = (writePackets message beyond).flatten)
    (hne : message ≠ []) (hshort : message.length ≤ packetSize)
    (hparsed : ∀ rest, Received.ofData (message ++ rest) = .parsed q)
    (hnext : TransferStep cpp py t (.recv n env) t') (hcalm : CalmEvent cpp py t (.recv n env)) :
    Calm env ∧ Obliges py t env q ∧ t'.toServer = [] ∧
      After t (settle env t.world (some q) (handle py env q)) t' := by
  obtain ⟨henv, hsize, hpiece⟩ := hcalm
  obtain ⟨hreads, -, -, hlength, rfl⟩ := step_recv hnext
  obtain rfl := hsize hthread
  rw [received_piece hthread (by decide) hlength] at hpiece
  obtain ⟨beyond, hserver⟩ := hserver
  have hpos := List.length_pos_of_ne_nil hne
  have htotal : t.toServer.length = packetSize := by
    rw [hserver, length_stream]
    simp only [packetCount, packetSize] at hshort ⊢
    omega
  have hwhole : t.toServer.take packetSize = t.toServer := List.take_of_length_le htotal.le
  have hdata : Received.ofData (t.toServer.take packetSize) = .parsed q := by
    rw [hwhole, hserver, flatten_writePackets]
    exact hparsed _
  obtain ⟨hdrop, hobliges⟩ := hpiece q hdata
  refine ⟨henv, hobliges, hdrop, ?_⟩
  have hafter := @serve_after py t (t.toServer.drop packetSize)
    (.chunk (t.toServer.take packetSize)) env
  rwa [serve_react t hreads, received_piece hthread (by decide) hlength, hdata] at hafter

theorem short_step (h : Asked t message) (hne : message ≠ []) (hshort : message.length ≤ packetSize)
    (hparsed : ∀ rest, Received.ofData (message ++ rest) = .parsed q)
    (hstep : CalmStep cpp py t e t') : ∃ env, Calm env ∧ Obliges py t env q ∧
      t'.toServer = [] ∧ After t (settle env t.world (some q) (handle py env q)) t' := by
  have hnext := hstep.1
  have hcalm := hstep.2
  cases e with
  | read fails beyond delivered => exact (no_read h.client hstep).elim
  | recv n env => exact ⟨env, recv_short h.thread h.server hne hshort hparsed hnext hcalm⟩
  | recvEnds env => exact hcalm.elim
  | recvRaises env => exact hcalm.elim

end Asking

section Served

variable {e : Event}

theorem length_registrationMessage (name : Bytes) :
    (registrationRequestMessage name).length = 278 := by
  simp [registrationRequestMessage, clientName, requestHeaderSize, clientIdSize, headerSize,
    clientNameSize]

theorem length_publicKeyMessage (id : ClientId) (name : Bytes) (key : Field publicKeySize) :
    (publicKeyRequestMessage id name key).length = 438 := by
  simp [publicKeyRequestMessage, clientName, requestHeaderSize, clientIdSize, headerSize,
    clientNameSize, publicKeySize, key.property]

theorem length_crcStatusMessage (code : ℕ) (id : ClientId) (name : Bytes) :
    (crcStatusRequestMessage code id (nameField name)).length = 294 := by
  simp [crcStatusRequestMessage, requestHeaderSize, clientIdSize, headerSize, fileNameSize,
    id.property, (nameField name).property]

theorem registering_told (hsuited : Suited cpp py t.client text)
    (hasked : Asked t (registrationRequestMessage t.client.name))
    (hnameless : Nameless t.client t.world text) (hstep : CalmStep cpp py t e t') :
    ∃ id, Told t' (.registrationSucceeded id) ∧ t'.client = t.client ∧ Welcome t'.world id text ∧
      ∀ name, fieldText (clientName t.client.name) = some name →
        t'.world.db.hasName name = true := by
  obtain ⟨name, hname, hascii, hfree⟩ := hnameless.name
  obtain ⟨q, rfl, hparsed⟩ := ofData_registration hname
  have hlength := length_registrationMessage t.client.name
  obtain ⟨env, henv, ⟨hfresh, hroom⟩, hserver, hafter⟩ := short_step hasked
    (List.ne_nil_of_length_pos (by omega)) (by rw [hlength]; decide) hparsed hstep
  obtain ⟨hserves, hsame, hclient, htaken⟩ := registration_serves henv hascii hfree hfresh
  obtain ⟨htold, hclientSame, hworld⟩ :=
    told_after hafter hserves hserver hasked.client hasked.running
  refine ⟨env.uuid, htold, hclientSame, ?_, ?_⟩
  · rw [hworld]
    exact ⟨hclient, room_congr hsame (hroom text hsuited.named)⟩
  · intro name' hname'
    cases hname.symm.trans hname'
    rw [hworld]
    exact htaken

theorem registering_step (hsuited : Suited cpp py t.client text)
    (hasked : Asked t (registrationRequestMessage t.client.name))
    (hqueue : t.client.Alone) (hnameless : Nameless t.client t.world text)
    (hstep : CalmStep cpp py t e t') : Stage cpp py t' text (cipherSize t'.client.file + 8) := by
  obtain ⟨id, htold, hclient, hwelcome, -⟩ := registering_told hsuited hasked hnameless hstep
  obtain ⟨name, hname, -⟩ := hnameless.name
  refine .registered id htold ?_ ?_ ?_ hwelcome
  · rw [hclient]
    exact hqueue
  · rw [hclient]
    exact hnameless.id
  · rw [hclient, hname]
    rfl

theorem keying_step (hsuited : Suited cpp py t.client text)
    (hasked : Asked t (publicKeyRequestMessage t.client.id t.client.name t.client.publicKey))
    (hname : (fieldText (clientName t.client.name)).isSome = true)
    (hwelcome : Welcome t.world t.client.id text) (hstep : CalmStep cpp py t e t') :
    Stage cpp py t' text (cipherSize t'.client.file + 6) := by
  obtain ⟨q, hid, hpublic, hparsed⟩ := ofData_publicKey hname
  have hlength := length_publicKeyMessage t.client.id t.client.name t.client.publicKey
  obtain ⟨env, henv, hencrypts, hserver, hafter⟩ := short_step hasked
    (List.ne_nil_of_length_pos (by omega)) (by rw [hlength]; decide) hparsed hstep
  obtain ⟨encrypted, hencrypted⟩ := Option.isSome_iff_exists.mp hencrypts
  obtain ⟨hserves, hsame, hclient, hkey⟩ :=
    publicKey_serves henv (by rw [hid]; exact hwelcome.client) hencrypted
  obtain ⟨htold, hclientSame, hworld⟩ :=
    told_after hafter hserves hserver hasked.client hasked.running
  rw [hid] at htold hclient hkey
  rw [hpublic] at hencrypted
  obtain ⟨hsize, hdecrypt⟩ := hsuited.laws.rsa _ _ _ hencrypted
  rw [← hclientSame] at htold
  refine .keyed encrypted env.aesKey.val htold hsize hdecrypt env.aesKey.property ?_ ?_
  · rw [hclientSame, hworld]
    exact hkey
  · rw [hclientSame, hworld]
    exact ⟨hclient, room_congr hsame hwelcome.room⟩

theorem approving_step (hsuited : Suited cpp py t.client text)
    (hasked : Asked t (t.client.crcStatusMessage requestCrcValid))
    (hkept : Kept t.world t.client.id text (fileBuffer t.client.file))
    (hstep : CalmStep cpp py t e t') : Stage cpp py t' text 2 := by
  obtain ⟨q, hheader, hid, rfl, hparsed⟩ := @ofData_crcValid text t.client.id _ hsuited.named
  have hlength := length_crcStatusMessage requestCrcValid t.client.id t.client.fileToSend
  obtain ⟨env, henv, -, hserver, hafter⟩ := short_step hasked
    (List.ne_nil_of_length_pos (by rw [Client.crcStatusMessage]; omega))
    (by rw [Client.crcStatusMessage, hlength]; decide) hparsed hstep
  obtain ⟨hserves, hdelivered, hkept'⟩ := crcValid_serves henv (hheader.trans hid.symm)
    hsuited.plain (by rw [hid]; exact hkept)
  obtain ⟨htold, hclientSame, hworld⟩ :=
    told_after hafter hserves hserver hasked.client hasked.running
  refine .approved htold ?_ ?_
  · rw [hclientSame, hworld, ← hid]
    exact hdelivered
  · rw [hclientSame, hworld, ← hid]
    exact hkept'

theorem exists_told {size crc : ℕ} (id fileName : Bytes) (hsize : size < 256 ^ 4)
    (hcrc : crc < 256 ^ 4) :
    ∃ packet, packet ∈ responsePackets (.fileReceivedCrcValue id size fileName crc) := by
  have hpayload : (Response.fileReceivedCrcValue id size fileName crc).packPayload =
      some (padded clientIdSize id ++ leBytes 4 size ++ padded fileNameSize fileName ++
        leBytes 4 crc) := by
    rw [Response.packPayload, packUnsigned, packUnsigned, if_pos hsize, if_pos hcrc]
    rfl
  have hcode : (Response.fileReceivedCrcValue id size fileName crc).code ≠ publicKeyReceived :=
    (by decide : msgReceivedCrc ≠ publicKeyReceived)
  obtain ⟨packet, hcarries⟩ := exists_carries (onePacket_of_code hcode) hpayload
  exact ⟨packet, by rw [hcarries.packets]; exact List.mem_singleton.mpr rfl⟩

theorem stored_after {out : ReadStep} (hsuited : Suited cpp py t.client text)
    (hcalm : Calm env) (hsent : Sent cpp t text) (hclient : t.toClient = [])
    (hrunning : t.client.control = .running) (hserver : t'.toServer = [])
    (hout : out = settle env t.world (some (.sendFile (fileRequest cpp t.client text)))
      (handle py env (.sendFile (fileRequest cpp t.client text))))
    (hafter : After t out t') : Stage cpp py t' text 4 := by
  obtain ⟨padding, hdecrypt⟩ := hsuited.laws.aes _ (fileBuffer t.client.file)
    t.client.symmetricKey.property
  have hsize : getFileLengthWithPadding t.client.file = (fileBuffer t.client.file).length :=
    (length_fileBuffer hsuited.sendable.1).1.symm
  obtain ⟨hserves, hkept⟩ := @sendFile_serves py env t.world
    (some (.sendFile (fileRequest cpp t.client text))) (fileRequest cpp t.client text) _ _ _ hcalm
    hsent.welcome.client hsent.key hdecrypt hsize hsent.welcome.room
  rw [hout] at hafter
  obtain ⟨htold, hclientSame, hworld⟩ := told_after hafter hserves hserver hclient hrunning
  refine .stored _ htold ?_ ?_ ?_ ?_
  · rw [hclientSame]
    exact ⟨_, _, _, rfl⟩
  · exact exists_told _ _ ((getFileLengthWithPadding_lt _).trans_le (by decide)) hsuited.crcFits
  · rw [hclientSame]
    exact hsent.crc
  · rw [hclientSame, hworld]
    exact hkept

theorem sent_congr (hclient : t'.client = t.client) (hworld : t'.world = t.world)
    (h : Sent cpp t text) : Sent cpp t' text := by
  obtain ⟨hwelcome, hkey, hcrc⟩ := h
  refine ⟨?_, ?_, ?_⟩
  · rwa [hclient, hworld]
  · rwa [hclient, hworld]
  · rwa [hclient]

theorem fileStream {c : Client} (beyond : ℕ → UInt8) : ∃ tail,
    (writePackets (fileMessage cpp c) beyond).flatten =
      sendFileFront c.id (getFileLengthWithPadding c.file) c.fileToSend
        (cpp.aesEncrypt c.symmetricKey.val (fileBuffer c.file)).length ++
        (cpp.aesEncrypt c.symmetricKey.val (fileBuffer c.file) ++ tail) := by
  rw [flatten_writePackets, fileMessage, requestToSendFileMessage_eq, List.append_assoc]
  exact ⟨_, rfl⟩

theorem file_piece (hsuited : Suited cpp py t.client text)
    (hasked : Asked t (fileMessage cpp t.client)) (hlength : packetSize ≤ t.toServer.length) :
    Received.ofData (t.toServer.take packetSize) =
        .parsed (.sendFile (fileRequest cpp t.client text)) ∧ t.toServer.length = packetSize ∨
      ∃ p, Received.ofData (t.toServer.take packetSize) = .partly p ∧
        PartOf (fileRequest cpp t.client text) p (t.toServer.drop packetSize) ∧
        p.packetSize = packetSize ∧ 0 < p.need ∧ p.need < cipherSize t.client.file ∧
        (t.toServer.drop packetSize).length < p.need + packetSize := by
  obtain ⟨beyond, hserver⟩ := hasked.server
  have hstream := length_stream (fileMessage cpp t.client) beyond
  have hencrypted := length_encrypted hsuited
  rw [← hserver, fileMessage, requestToSendFileMessage_eq, List.length_append,
    length_sendFileFront, hencrypted] at hstream
  obtain ⟨tail, htail⟩ := @fileStream cpp t.client beyond
  rw [← hserver] at htail
  have htotal := congrArg List.length htail
  rw [List.length_append, length_sendFileFront] at htotal
  have hfits : 4 + fileNameSize + (cpp.aesEncrypt t.client.symmetricKey.val
      (fileBuffer t.client.file)).length < 256 ^ 4 := by
    rw [hencrypted]
    exact hsuited.sendable.2
  have hpiece := ofData_file t.client.id (getFileLengthWithPadding_lt t.client.file) hfits
    hsuited.named (by rw [hencrypted]; exact hsuited.reassembled)
    (show 742 ≤ (_ ++ tail).length by simp only [packetSize] at hlength; omega)
  rw [← htail, hencrypted] at hpiece
  rcases hpiece with ⟨hsmall, hdata⟩ | ⟨hlarge, p, hdata, hpart, hpacket, hneed⟩
  · refine .inl ⟨hdata, ?_⟩
    rw [hstream]
    simp only [packetCount, packetSize]
    omega
  · refine .inr ⟨p, hdata, hpart, hpacket, ?_⟩
    rw [List.length_drop, hstream, hneed]
    simp only [packetCount, packetSize] at hlarge ⊢
    omega

theorem uploading_step (hsuited : Suited cpp py t.client text)
    (hasked : Asked t (fileMessage cpp t.client)) (hsent : Sent cpp t text)
    (hstep : CalmStep cpp py t e t') :
    ∃ m < cipherSize t.client.file + 5, Stage cpp py t' text m := by
  obtain ⟨env, henv, hlength, rfl, hpiece⟩ := asked_step hasked hstep
  have hreads : t.thread.awaits = true := by
    rw [hasked.thread]
    rfl
  have hafter := @serve_after py t (t.toServer.drop packetSize)
    (.chunk (t.toServer.take packetSize)) env
  rw [serve_react t hreads, received_piece hasked.thread (by decide) hlength] at hafter
  rcases file_piece hsuited hasked hlength with
    ⟨hdata, hwhole⟩ | ⟨p, hdata, hpart, hpacket, hpos, hneed, hrest⟩
  · rw [hdata] at hafter
    refine ⟨4, by omega, stored_after hsuited henv hsent hasked.client hasked.running ?_ rfl hafter⟩
    exact List.drop_eq_nil_of_le hwhole.le
  · rw [hdata] at hafter
    have hclient := hafter.client
    refine ⟨p.need + 4, by omega, .receiving p hafter.thread ?_ ?_ hpacket ?_ hpos hrest ?_⟩
    · rw [hafter.toClient, hasked.client]
      rfl
    · rw [hclient, hasked.running]
    · rw [hclient]
      exact hpart
    · exact sent_congr hclient hafter.world hsent

theorem receiving_step {p : PartialFile} (hsuited : Suited cpp py t.client text)
    (hthread : t.thread = .receiving p) (hclient : t.toClient = [])
    (hrunning : t.client.control = .running) (hpacket : p.packetSize = packetSize)
    (hpart : PartOf (fileRequest cpp t.client text) p t.toServer)
    (hmore : 0 < p.need) (hrest : t.toServer.length < p.need + packetSize)
    (hsent : Sent cpp t text) (hstep : CalmStep cpp py t e t') :
    ∃ m < p.need + 4, Stage cpp py t' text m := by
  obtain ⟨hnext, hcalm⟩ := hstep
  cases e with
  | read fails beyond delivered => exact (no_read hclient ⟨hnext, hcalm⟩).elim
  | recv n env =>
    obtain ⟨henv, -, hparsed⟩ := hcalm
    obtain ⟨hreads, hpos, -, hlength, rfl⟩ := step_recv hnext
    have hafter := @serve_after py t (t.toServer.drop n) (.chunk (t.toServer.take n)) env
    rw [serve_react t hreads] at hafter
    obtain ⟨hneed, -⟩ := feed_need p (t.toServer.take n)
    rw [List.length_take, min_eq_left hlength] at hneed
    have hreceived : received t.thread (.chunk (t.toServer.take n)) =
        .ofFile (p.feed (t.toServer.take n)) := by
      rw [hthread]
      rfl
    rw [hreceived] at hafter hparsed
    by_cases hcomplete : (p.feed (t.toServer.take n)).complete = true
    · have hdata : Received.ofFile (p.feed (t.toServer.take n)) = .parsed (.sendFile _) :=
        if_pos hcomplete
      have hrequest := parsed_of_part hpart hdata
      rw [hdata] at hafter hparsed
      obtain ⟨hdrop, -⟩ := hparsed _ rfl
      rw [hrequest] at hafter
      exact ⟨4, by omega, stored_after hsuited henv hsent hclient hrunning hdrop rfl hafter⟩
    · have hdata : Received.ofFile (p.feed (t.toServer.take n)) = .partly _ := if_neg hcomplete
      have hpart' := part_of_partly hpart hlength hdata
      rw [complete_iff, hneed] at hcomplete
      rw [hdata] at hafter
      refine ⟨(p.feed (t.toServer.take n)).need + 4, by omega, .receiving _ hafter.thread ?_ ?_ ?_
        ?_ (by omega) ?_ (sent_congr hafter.client hafter.world hsent)⟩
      · rw [hafter.toClient, hclient]
        rfl
      · rw [hafter.client, hrunning]
      · exact hpacket
      · rw [hafter.client]
        exact hpart'
      · show (t.toServer.drop n).length < _
        rw [List.length_drop]
        omega
  | recvEnds env => exact hcalm.elim
  | recvRaises env => exact hcalm.elim

end Served

section Answered

variable {e : Event} {r : Response} {packet message : Bytes}

theorem told_step (h : Told t r) (hpackets : responsePackets r = [packet])
    (hstep : CalmStep cpp py t e t') : ∃ beyond delivered,
      t' = Transfer.react { t with toClient := [] } (t.client.receive cpp (some packet)) beyond
        delivered ∧
      ∀ message, (t.client.receive cpp (some packet)).2 = some message →
        (writePackets message beyond).flatten.length ≤ delivered := by
  obtain ⟨hnext, hcalm⟩ := hstep
  have hclient : t.toClient = [packet] := h.client.trans hpackets
  cases e with
  | read fails beyond delivered =>
    obtain ⟨rfl, hdelivered⟩ := hcalm
    have hawaits : t.client.control.awaits = true := by
      rw [h.running]
      rfl
    unfold TransferStep Transfer.next at hnext
    dsimp only at hnext
    rw [if_pos hawaits, if_neg Bool.false_ne_true, hclient] at hnext
    refine ⟨beyond, delivered, (Option.some.inj hnext).symm, fun message hmessage => ?_⟩
    exact hdelivered packet message (by rw [hclient]; rfl) hmessage
  | recv n env =>
    obtain ⟨-, hpos, -, hlength, -⟩ := step_recv hnext
    rw [h.server, List.length_nil] at hlength
    omega
  | recvEnds env => exact hcalm.elim
  | recvRaises env => exact hcalm.elim

theorem asked_after (h : Told t r) (hpackets : responsePackets r = [packet])
    (hstep : CalmStep cpp py t e t')
    (hmessage : (t.client.receive cpp (some packet)).2 = some message)
    (hrunning : (t.client.receive cpp (some packet)).1.control = .running) :
    Asked t' message ∧ t'.client = (t.client.receive cpp (some packet)).1 ∧
      t'.world = t.world := by
  obtain ⟨beyond, delivered, rfl, hdelivered⟩ := told_step h hpackets hstep
  have hwhole := hdelivered message hmessage
  have hreact : Transfer.react { t with toClient := [] } (t.client.receive cpp (some packet))
      beyond delivered = { t with
        toClient := [], client := (t.client.receive cpp (some packet)).1
        toServer := (writePackets message beyond).flatten } := by
    rw [Transfer.react, hmessage]
    dsimp only
    rw [if_neg (by omega), h.server, List.nil_append, List.take_of_length_le hwhole]
  rw [hreact]
  exact ⟨⟨h.thread, ⟨beyond, rfl⟩, rfl, hrunning⟩, rfl, rfl⟩

theorem file_receive {c : Client} (h : c.control = .running) (packet : Bytes) :
    (c.receive cpp (some packet)).1.publicKey = c.publicKey ∧
      (c.receive cpp (some packet)).1.fileToSend = c.fileToSend ∧
      (c.receive cpp (some packet)).1.file = c.file := by
  have hawaits : c.control.awaits = true := by
    rw [h]
    rfl
  have hfixed := @Client.receive_fixed cpp c hawaits (some packet)
  simpa only [Client.fixed, Prod.mk.injEq] using hfixed

theorem registered_step {id : ClientId} (htold : Told t (.registrationSucceeded id))
    (hqueue : t.client.Alone) (hid : idIsEmpty t.client.id = some true)
    (hname : (fieldText (clientName t.client.name)).isSome = true)
    (hwelcome : Welcome t.world id text) (hstep : CalmStep cpp py t e t') :
    Stage cpp py t' text (cipherSize t'.client.file + 7) := by
  obtain ⟨packet, hcarries⟩ := exists_carries (r := .registrationSucceeded id)
    (onePacket_of_code (by decide : registrationSucceeded ≠ _)) rfl
  obtain ⟨hrunning, hid', hname', hmessage⟩ :=
    @receive_registered cpp _ _ _ hcarries htold.running hqueue hid
  obtain ⟨hasked, hclient, hworld⟩ := asked_after htold hcarries.packets hstep hmessage hrunning
  have hkey := (@file_receive cpp _ htold.running packet).1
  refine .keying ?_ ?_ ?_
  · rw [hclient, hid', hname', hkey]
    exact hasked
  · rw [hclient, hname']
    exact hname
  · rw [hclient, hworld, hid']
    exact hwelcome

theorem keyed_step {encrypted key : Bytes} (hsuited : Suited cpp py t.client text)
    (htold : Told t (.publicKey t.client.id encrypted (clientIdSize + encrypted.length)))
    (hsize : encrypted.length = 128) (hdecrypt : cpp.rsaDecrypt encrypted = some key)
    (hkeySize : key.length = symmetricKeySize) (hkey : KeyIs t.world t.client.id key)
    (hwelcome : Welcome t.world t.client.id text) (hstep : CalmStep cpp py t e t') :
    Stage cpp py t' text (cipherSize t'.client.file + 5) := by
  obtain ⟨packet, hcarries⟩ := exists_carries
    (onePacket_publicKey t.client.id (hsize.le.trans (by decide))) rfl
  obtain ⟨hrunning, hid, hsymmetric, hcrc, hmessage⟩ :=
    @receive_keyed cpp _ _ _ _ hcarries htold.running hsuited.nameFits hdecrypt hkeySize
  obtain ⟨hasked, hclient, hworld⟩ := asked_after htold hcarries.packets hstep hmessage hrunning
  have hfile := (@file_receive cpp _ htold.running packet).2.2
  refine .uploading ?_ ⟨?_, ?_, ?_⟩
  · rw [hclient]
    exact hasked
  · rw [hclient, hworld, hid]
    exact hwelcome
  · rw [hclient, hworld, hid, hsymmetric]
    exact hkey
  · rw [hclient, hcrc, hfile]

theorem stored_step (hsuited : Suited cpp py t.client text) (htold : Told t r)
    (htells : Tells py (fileBuffer t.client.file) r) (hpacket : packet ∈ responsePackets r)
    (hcrc : t.client.calculatedCrc = cpp.crc32 (fileBuffer t.client.file))
    (hkept : Kept t.world t.client.id text (fileBuffer t.client.file))
    (hstep : CalmStep cpp py t e t') : Stage cpp py t' text 3 := by
  obtain ⟨hpackets, -⟩ := CorruptedUpload.tells_packet htells hpacket
  obtain ⟨hrunning, hid, hmessage⟩ := @receive_told cpp py _ _ _ _ htells hpacket htold.running
    hsuited.nameFits (hsuited.crc.symm.trans hcrc.symm)
  obtain ⟨hasked, hclient, hworld⟩ := asked_after htold hpackets hstep hmessage hrunning
  obtain ⟨-, hname, hfile⟩ := @file_receive cpp _ htold.running packet
  refine .approving ?_ ?_
  · rw [hclient, Client.crcStatusMessage, hid, hname]
    exact hasked
  · rw [hclient, hworld, hid, hfile]
    exact hkept

theorem approved_step (htold : Told t .receivingApproved)
    (hdelivered : Delivered t.world t.client.id text (fileBuffer t.client.file))
    (hkept : Kept t.world t.client.id text (fileBuffer t.client.file))
    (hstep : CalmStep cpp py t e t') : Stage cpp py t' text 1 := by
  obtain ⟨packet, hcarries⟩ := exists_carries (r := .receivingApproved)
    (onePacket_of_code (by decide : msgReceived ≠ _)) rfl
  have hcode : responseCode packet = msgReceived := hcarries.code
  have haccepts : readAccepts packet = true := by simp [readAccepts, hcode]
  obtain ⟨beyond, delivered, rfl, -⟩ := told_step htold hcarries.packets hstep
  obtain ⟨hended, hid, hmessage⟩ := @Client.receive_approved cpp _ _ haccepts
    (by rw [hcarries.length]; decide) htold.running hcode
  obtain ⟨-, -, hfile⟩ := @file_receive cpp _ htold.running packet
  rw [react_silent hmessage]
  refine .done htold.thread htold.server hended ?_ ?_
  · show Delivered t.world _ text (fileBuffer _)
    rwa [hid, hfile]
  · show Kept t.world _ text (fileBuffer _)
    rwa [hid, hfile]

end Answered

section Stages

variable {e : Event}

theorem ended_step (hserver : t.toServer = [])
    (hended : t.client.control = .ended false) : ¬CalmStep cpp py t e t' := by
  rintro ⟨hnext, hcalm⟩
  cases e with
  | read fails beyond delivered =>
    obtain ⟨hawaits, -⟩ := step_read hnext
    rw [hended] at hawaits
    cases hawaits
  | recv n env =>
    obtain ⟨-, hpos, -, hlength, -⟩ := step_recv hnext
    rw [hserver, List.length_nil] at hlength
    omega
  | recvEnds env => exact hcalm
  | recvRaises env => exact hcalm

/-- A step that nothing disturbs comes to a later stage. -/
theorem stage_step (hsuited : Suited cpp py t.client text) (h : Stage cpp py t text n)
    (hstep : CalmStep cpp py t e t') : ∃ m < n, Stage cpp py t' text m := by
  have hfile : t'.client.file = t.client.file := by
    have hfixed := step_fixed hstep.1
    simp only [Client.fixed, Prod.mk.injEq] at hfixed
    exact hfixed.2.2
  cases h with
  | registering hasked hqueue hnameless =>
    exact ⟨_, by rw [hfile]; omega, registering_step hsuited hasked hqueue hnameless hstep⟩
  | registered id htold hqueue hid hname hwelcome =>
    exact ⟨_, by rw [hfile]; omega, registered_step htold hqueue hid hname hwelcome hstep⟩
  | keying hasked hname hwelcome =>
    exact ⟨_, by rw [hfile]; omega, keying_step hsuited hasked hname hwelcome hstep⟩
  | keyed encrypted key htold hsize hdecrypt hkeySize hkey hwelcome =>
    exact ⟨_, by rw [hfile]; omega,
      keyed_step hsuited htold hsize hdecrypt hkeySize hkey hwelcome hstep⟩
  | uploading hasked hsent => exact uploading_step hsuited hasked hsent hstep
  | receiving p hthread hclient hrunning hpacket hpart hmore hrest hsent =>
    exact receiving_step hsuited hthread hclient hrunning hpacket hpart hmore hrest hsent hstep
  | stored r htold htells hpacket hcrc hkept =>
    obtain ⟨packet, hpacket⟩ := hpacket
    exact ⟨3, by decide, stored_step hsuited htold htells hpacket hcrc hkept hstep⟩
  | approving hasked hkept => exact ⟨2, by decide, approving_step hsuited hasked hkept hstep⟩
  | approved htold hdelivered hkept =>
    exact ⟨1, by decide, approved_step htold hdelivered hkept hstep⟩
  | done _ hserver hended => exact (ended_step hserver hended hstep).elim

end Stages

section Progress

variable {message : Bytes} {q : Request} {r : Response} {packet : Bytes}

def calmEnv (id : ClientId) (key : Field symmetricKeySize) (seed : Bytes) : Env :=
  { Env.undisturbed with uuid := id, aesKey := key, oaepSeed := seed }

theorem calm_calmEnv (id : ClientId) (key : Field symmetricKeySize) (seed : Bytes) :
    Calm (calmEnv id key seed) := ⟨fun _ => rfl, rfl, rfl, rfl, rfl⟩

theorem recv_progress (hreads : t.thread.awaits = true) (hpos : 0 < n)
    (hsize : n ≤ t.thread.recvSize) (hlength : n ≤ t.toServer.length)
    (hcalm : CalmEvent cpp py t (.recv n env)) : ∃ e t', CalmStep cpp py t e t' :=
  ⟨.recv n env, _, if_pos ⟨hreads, hpos, hsize, hlength⟩, hcalm⟩

theorem asked_length (h : Asked t message) (hne : message ≠ []) :
    packetSize ≤ t.toServer.length := by
  obtain ⟨beyond, hserver⟩ := h.server
  have hpos := List.length_pos_of_ne_nil hne
  rw [hserver, length_stream]
  simp only [packetCount, packetSize]
  omega

theorem asked_progress (h : Asked t message) (hne : message ≠ []) (hcalm : Calm env)
    (hparsed : ∀ q, Received.ofData (t.toServer.take packetSize) = .parsed q →
      t.toServer.drop packetSize = [] ∧ Obliges py t env q) :
    ∃ e t', CalmStep cpp py t e t' := by
  have hlength := asked_length h hne
  have hreads : t.thread.awaits = true := by
    rw [h.thread]
    rfl
  have hsize : packetSize ≤ t.thread.recvSize := by
    rw [h.thread]
    exact le_rfl
  refine recv_progress hreads (by decide) hsize hlength ⟨hcalm, fun _ => rfl, ?_⟩
  rw [received_piece h.thread (by decide) hlength]
  exact hparsed

theorem short_progress (h : Asked t message) (hne : message ≠ [])
    (hshort : message.length ≤ packetSize) (hcalm : Calm env)
    (hparsed : ∀ rest, Received.ofData (message ++ rest) = .parsed q)
    (hobliges : Obliges py t env q) : ∃ e t', CalmStep cpp py t e t' := by
  refine asked_progress h hne hcalm fun q' hq' => ?_
  obtain ⟨beyond, hserver⟩ := h.server
  have hpos := List.length_pos_of_ne_nil hne
  have hlength : t.toServer.length = packetSize := by
    rw [hserver, length_stream]
    simp only [packetCount, packetSize] at hshort ⊢
    omega
  rw [List.take_of_length_le hlength.le, hserver, flatten_writePackets, hparsed] at hq'
  cases hq'
  exact ⟨List.drop_eq_nil_of_le hlength.le, hobliges⟩

theorem told_progress (h : Told t r) (hpacket : responsePackets r = [packet]) :
    ∃ e t', CalmStep cpp py t e t' := by
  have hclient : t.toClient = [packet] := h.client.trans hpacket
  have hawaits : t.client.control.awaits = true := by
    rw [h.running]
    rfl
  have hnext : ∀ delivered, TransferStep cpp py t (.read false (fun _ => 0) delivered)
      (Transfer.react { t with toClient := [] } (t.client.receive cpp (some packet)) (fun _ => 0)
        delivered) := by
    intro delivered
    unfold TransferStep Transfer.next
    dsimp only
    rw [if_pos hawaits, if_neg Bool.false_ne_true, hclient]
  cases hanswer : (t.client.receive cpp (some packet)).2 with
  | none =>
    refine ⟨_, _, hnext 0, rfl, fun packet' message hhead hmessage => ?_⟩
    rw [hclient] at hhead
    cases hhead
    cases hanswer.symm.trans hmessage
  | some answer =>
    refine ⟨_, _, hnext (writePackets answer fun _ => 0).flatten.length, rfl,
      fun packet' message hhead hmessage => ?_⟩
    rw [hclient] at hhead
    cases hhead
    cases hanswer.symm.trans hmessage
    exact le_rfl

theorem receiving_progress {p : PartialFile} {sent : RequestToSendFile}
    (hthread : t.thread = .receiving p) (hpacket : p.packetSize = packetSize)
    (hpart : PartOf sent p t.toServer) (hmore : 0 < p.need)
    (hrest : t.toServer.length < p.need + packetSize) : ∃ e t', CalmStep cpp py t e t' := by
  have hcalm := calm_calmEnv emptyId (filled symmetricKeySize 0) []
  have hlength : p.need ≤ t.toServer.length := by
    obtain ⟨tail, htail⟩ := hpart.content
    have hboth := congrArg List.length htail
    have hneed := hpart.need
    simp only [List.length_append] at hboth
    omega
  have hawaits : t.thread.awaits = true := by
    rw [hthread]
    rfl
  have hsize : t.thread.recvSize = packetSize := by
    rw [hthread]
    exact hpacket
  have hreading : t.thread = .reading → ∀ n, n = packetSize := by
    rw [hthread]
    rintro ⟨⟩
  by_cases hlast : t.toServer.length ≤ packetSize
  · -- the rest fits into one piece
    refine recv_progress hawaits (by omega) (hlast.trans hsize.ge) le_rfl
      ⟨hcalm, fun h => hreading h _, fun q hq => ?_⟩
    rw [hthread] at hq
    rw [parsed_of_part hpart hq]
    exact ⟨List.drop_length, trivial⟩
  · -- less than a packet is left over behind the piece
    have hpiece : min packetSize (t.toServer.length - packetSize) ≤ t.toServer.length := by omega
    refine recv_progress hawaits (lt_min (by decide) (by omega))
      ((min_le_left _ _).trans hsize.ge) hpiece ⟨hcalm, fun h => hreading h _, fun q hq => ?_⟩
    exfalso
    have hneed := (feed_need p
      (t.toServer.take (min packetSize (t.toServer.length - packetSize)))).1
    rw [List.length_take] at hneed
    have hpartly : ¬(p.feed (t.toServer.take
        (min packetSize (t.toServer.length - packetSize)))).complete = true := by
      rw [complete_iff, hneed]
      omega
    rw [hthread, received, Received.ofFile, if_neg hpartly] at hq
    cases hq

/-- There is a step that nothing disturbs until the transfer is done. -/
theorem stage_progress (hsuited : Suited cpp py t.client text) (h : Stage cpp py t text n)
    (hrunning : t.client.control ≠ .ended false) : ∃ e t', CalmStep cpp py t e t' := by
  cases h with
  | registering hasked hqueue hnameless =>
    obtain ⟨name, hname, -, -⟩ := hnameless.name
    obtain ⟨id, hfresh, hroom⟩ := hnameless.fresh
    obtain ⟨q, -, hparsed⟩ := ofData_registration hname
    have hlength := length_registrationMessage t.client.name
    refine short_progress hasked (List.ne_nil_of_length_pos (by omega)) (by rw [hlength]; decide)
      (calm_calmEnv id (filled symmetricKeySize 0) []) hparsed ⟨hfresh, fun text' htext' => ?_⟩
    cases htext'.symm.trans hsuited.named
    exact hroom
  | registered id htold =>
    obtain ⟨packet, hcarries⟩ := exists_carries (r := .registrationSucceeded id)
      (onePacket_of_code (by decide : registrationSucceeded ≠ _)) rfl
    exact told_progress htold hcarries.packets
  | keying hasked hname hwelcome =>
    obtain ⟨seed, key, hencrypts⟩ := hsuited.encrypts
    obtain ⟨q, -, hpublic, hparsed⟩ := @ofData_publicKey t.client.id _ t.client.publicKey hname
    have hlength := length_publicKeyMessage t.client.id t.client.name t.client.publicKey
    refine short_progress hasked (List.ne_nil_of_length_pos (by omega)) (by rw [hlength]; decide)
      (calm_calmEnv emptyId key seed) hparsed ?_
    show (py.rsaOaepEncrypt q.publicKey.val seed key.val).isSome = true
    rw [hpublic]
    exact hencrypts
  | keyed encrypted key htold hsize =>
    obtain ⟨packet, hcarries⟩ := exists_carries
      (onePacket_publicKey t.client.id (hsize.le.trans (by decide))) rfl
    exact told_progress htold hcarries.packets
  | uploading hasked hsent =>
    have hne : fileMessage cpp t.client ≠ [] := by
      refine List.ne_nil_of_length_pos ?_
      rw [fileMessage, requestToSendFileMessage_eq, List.length_append, length_sendFileFront]
      omega
    refine asked_progress hasked hne (calm_calmEnv emptyId (filled symmetricKeySize 0) [])
      fun q hq => ?_
    rcases file_piece hsuited hasked (asked_length hasked hne) with
      ⟨hdata, hwhole⟩ | ⟨p, hdata, -⟩
    · cases hdata.symm.trans hq
      exact ⟨List.drop_eq_nil_of_le hwhole.le, trivial⟩
    · cases hdata.symm.trans hq
  | receiving p hthread hclient hrun hpacket hpart hmore hrest hsent =>
    exact receiving_progress hthread hpacket hpart hmore hrest
  | stored r htold htells hpacket =>
    obtain ⟨packet, hpacket⟩ := hpacket
    exact told_progress htold (CorruptedUpload.tells_packet htells hpacket).1
  | approving hasked hkept =>
    obtain ⟨q, -, -, -, hparsed⟩ := @ofData_crcValid text t.client.id _ hsuited.named
    have hlength := length_crcStatusMessage requestCrcValid t.client.id t.client.fileToSend
    exact short_progress hasked (List.ne_nil_of_length_pos (by rw [Client.crcStatusMessage]; omega))
      (by rw [Client.crcStatusMessage, hlength]; decide)
      (calm_calmEnv emptyId (filled symmetricKeySize 0) []) hparsed trivial
  | approved htold =>
    obtain ⟨packet, hcarries⟩ := exists_carries (r := .receivingApproved)
      (onePacket_of_code (by decide : msgReceived ≠ _)) rfl
    exact told_progress htold hcarries.packets
  | done _ _ hended => exact absurd hended hrunning

end Progress

section Runs

variable {s : Setup} {file : Bytes} {id : ClientId} {isRegistered : Bool} {w : World}
  {beyond : ℕ → UInt8} {delivered : ℕ} {es : List Event}

structure Underway (cpp : CppCrypto) (py : PyCrypto) (text : Text) (file : Bytes) (t : Transfer)
    (n : ℕ) : Prop where
  suited : Suited cpp py t.client text
  stage : Stage cpp py t text n
  file : t.client.file = file

theorem underway_step (h : Underway cpp py text file t n) (hstep : CalmStep cpp py t e t') :
    ∃ m < n, Underway cpp py text file t' m := by
  obtain ⟨m, hlt, hstage⟩ := stage_step h.suited h.stage hstep
  have hfixed := step_fixed hstep.1
  refine ⟨m, hlt, suited_congr hfixed h.suited, hstage, ?_⟩
  simp only [Client.fixed, Prod.mk.injEq] at hfixed
  exact hfixed.2.2.trans h.file

theorem stage_ends (h : Stage cpp py t text n) : t.client.control = .running ∨
    t.client.control = .ended false ∧ t.toServer = [] ∧
      Delivered t.world t.client.id text (fileBuffer t.client.file) ∧
      Kept t.world t.client.id text (fileBuffer t.client.file) := by
  cases h with
  | registering hasked => exact .inl hasked.running
  | registered id htold => exact .inl htold.running
  | keying hasked => exact .inl hasked.running
  | keyed encrypted key htold => exact .inl htold.running
  | uploading hasked => exact .inl hasked.running
  | receiving p _ _ hrunning => exact .inl hrunning
  | stored r htold => exact .inl htold.running
  | approving hasked => exact .inl hasked.running
  | approved htold => exact .inl htold.running
  | done _ hserver hended hdelivered hkept => exact .inr ⟨hended, hserver, hdelivered, hkept⟩

theorem done_of_ended (h : Underway cpp py text file t n)
    (hended : t.client.control = .ended false) : Done file t text := by
  rcases stage_ends h.stage with hrunning | ⟨-, -, hdelivered, -⟩
  · cases hended.symm.trans hrunning
  · rw [h.file] at hdelivered
    exact ⟨hended, hdelivered⟩

theorem underway_progress (h : Underway cpp py text file t n) (hdone : ¬Done file t text) :
    ∃ e t', CalmStep cpp py t e t' :=
  stage_progress h.suited h.stage fun hended => hdone (done_of_ended h hended)

theorem no_step_of_done (h : Underway cpp py text file t n) (hdone : Done file t text) {e : Event} :
    ¬CalmStep cpp py t e t' := by
  rcases stage_ends h.stage with hrunning | ⟨hended, hserver, -⟩
  · cases hdone.1.symm.trans hrunning
  · exact ended_step hserver hended

theorem react_first {r : Reaction} {message : Bytes} (hmessage : r.2 = some message)
    (hne : message ≠ []) (hshort : message.length ≤ packetSize)
    (hdelivered : packetSize ≤ delivered) (t : Transfer) (hserver : t.toServer = []) :
    t.react r beyond delivered =
      { t with client := r.1, toServer := (writePackets message beyond).flatten } := by
  have hpos := List.length_pos_of_ne_nil hne
  have hlength : (writePackets message beyond).flatten.length = packetSize := by
    rw [length_stream]
    simp only [packetCount, packetSize] at hshort ⊢
    omega
  rw [Transfer.react, hmessage]
  dsimp only
  rw [if_neg (by omega), hserver, List.nil_append, List.take_of_length_le (by omega)]

theorem start_registering {c : Client} (hcontrol : c.control = .running) (hopen : c.isOpen = true)
    (hend : c.overrun = false) (hqueue : c.messageQueue = [])
    (hdelivered : packetSize ≤ delivered) :
    let t := Transfer.start c false w beyond delivered
    Asked t (registrationRequestMessage t.client.name) ∧ t.world = w ∧
      t.client = { c with
        messageQueue := [registrationRequestMessage c.name], numOfAttempts := maxAttempts } := by
  have hlength := length_registrationMessage c.name
  unfold Transfer.start Client.run
  rw [if_neg Bool.false_ne_true, Client.sendRegistrationRequest,
    Client.addMessageToQueue_open hopen hend hqueue,
    react_first rfl (List.ne_nil_of_length_pos (by omega)) (by rw [hlength]; decide) hdelivered _
      rfl]
  exact ⟨⟨rfl, ⟨beyond, by dsimp only⟩, rfl, hcontrol⟩, rfl, rfl⟩

theorem start_keying {c : Client} (hcontrol : c.control = .running) (hopen : c.isOpen = true)
    (hend : c.overrun = false) (hqueue : c.messageQueue = []) (hsuited : Suited cpp py c text)
    (hexpects : Expects c w text true) (hdelivered : packetSize ≤ delivered) :
    let t := Transfer.start c true w beyond delivered
    Underway cpp py text c.file t (cipherSize c.file + 7) ∧ t.client.id = c.id := by
  obtain ⟨hname, hwelcome⟩ := hexpects
  have hlength := length_publicKeyMessage c.id c.name c.publicKey
  unfold Transfer.start Client.run
  rw [if_pos rfl, Client.sendPublicKeyToServer, Client.addMessageToQueue_open hopen hend hqueue,
    react_first rfl (List.ne_nil_of_length_pos (by omega)) (by rw [hlength]; decide) hdelivered _
      rfl]
  exact ⟨⟨@suited_congr _ _ _ c _ rfl hsuited,
    .keying ⟨rfl, ⟨beyond, rfl⟩, rfl, hcontrol⟩ hname hwelcome, rfl⟩, rfl⟩

theorem start_underway {c : Client} (hcontrol : c.control = .running) (hopen : c.isOpen = true)
    (hend : c.overrun = false) (hqueue : c.messageQueue = []) (hsuited : Suited cpp py c text)
    (hexpects : Expects c w text isRegistered) (hdelivered : packetSize ≤ delivered) :
    ∃ n ≤ cipherSize c.file + 9,
      Underway cpp py text c.file (.start c isRegistered w beyond delivered) n := by
  cases isRegistered with
  | true =>
    exact ⟨_, by omega, (start_keying hcontrol hopen hend hqueue hsuited hexpects hdelivered).1⟩
  | false =>
    obtain ⟨hid, hname, hfresh⟩ := hexpects
    have hasked := @start_registering w beyond delivered c hcontrol hopen hend hqueue hdelivered
    generalize Transfer.start c false w beyond delivered = t at hasked ⊢
    obtain ⟨hasked, rfl, hclient⟩ := hasked
    refine ⟨cipherSize c.file + 9, le_rfl, ?_, ?_, ?_⟩
    · rw [hclient]
      exact @suited_congr _ _ _ c _ rfl hsuited
    · have hregistering : Stage cpp py t text (cipherSize t.client.file + 9) := by
        refine .registering hasked ?_ ⟨?_, ?_, hfresh⟩
        · rw [hclient]
          exact ⟨rfl, hend⟩
        · rw [hclient]
          exact hid
        · rw [hclient]
          exact hname
      rwa [hclient] at hregistering
    · rw [hclient]

theorem setup_underway (hsuited : Suited cpp py (s.client id file) text)
    (hexpects : Expects (s.client id file) w text isRegistered) (beyond : ℕ → UInt8)
    (hdelivered : packetSize ≤ delivered) : ∃ n ≤ cipherSize file + 9,
      Underway cpp py text file (.start (s.client id file) isRegistered w beyond delivered) n :=
  start_underway (c := s.client id file) rfl rfl rfl rfl hsuited hexpects hdelivered

def sampleSetup : Setup := ⟨[0x61], samplePublicKey, filled symmetricKeySize 0, [0x78]⟩

/-- The data of the samples are for files of one letter or one block. -/
theorem sample_suited {c : Client} (hkey : c.publicKey = samplePublicKey)
    (h : c.file = [0x61] ∨ c.file = sampleBlock) (hfits : c.nameFits = true)
    (hnamed : fieldText (nameField c.fileToSend).val = some text) (hplain : Plain text) :
    Suited sampleCpp samplePy c text := by
  have hblock : fileBuffer c.file = sampleBlock := by
    rcases h with heq | heq
    · rw [heq]
      decide
    · rw [heq]
      decide
  have hfile : c.file.length < 2 ^ 32 := by
    rcases h with heq | heq
    · rw [heq]
      decide
    · rw [heq]
      decide
  have hencrypts : (samplePy.rsaOaepEncrypt samplePublicKey.val sampleSeed sampleKey.val).isSome =
      true := by
    decide +kernel
  refine ⟨?_, ⟨sampleSeed, sampleKey, ?_⟩, rfl, ?_, ⟨hfile, ?_⟩, ?_, hfits, hnamed, hplain⟩
  · rw [hkey]
    exact TransferIntegrity.sample_laws
  · rwa [hkey]
  · show sampleCrc (fileBuffer c.file) < 256 ^ 4
    rw [hblock]
    decide
  · show 4 + fileNameSize + cipherSize c.file < _
    rw [cipherSize, hblock]
    decide
  · refine .inl ?_
    show cipherSize c.file ≤ 742
    rw [cipherSize, hblock]
    decide

theorem setup_suited {file : Bytes} (h : file = [0x61] ∨ file = sampleBlock) (id : ClientId) :
    Suited sampleCpp samplePy (sampleSetup.client id file) [0x78] := by
  have hname : fieldText (nameField [0x78]).val = some [0x78] := by decide
  exact sample_suited rfl h rfl hname (by decide)

theorem sample_expected :
    Expects (sampleSetup.client sampleId sampleBlock) .withClient [0x78] true :=
  ⟨by decide, by decide, by decide, by decide, by decide⟩

end Runs

section Uploads

/-- Runs of a client one after another, each with a file of its own and up to its end. The id
of a run is that of the next one, which is a registered client. -/
inductive Uploads (cpp : CppCrypto) (py : PyCrypto) (s : Setup) (text : Text) :
    ClientId → Bool → World → List Bytes → ClientId → World → Prop where
  | nil (id : ClientId) (isRegistered : Bool) (w : World) :
      Uploads cpp py s text id isRegistered w [] id w
  | cons {id id' : ClientId} {isRegistered : Bool} {w w' : World} {file : Bytes}
      {files : List Bytes} {beyond : ℕ → UInt8} {delivered : ℕ} {es : List Event} {t : Transfer} :
      packetSize ≤ delivered →
      Run (CalmStep cpp py) (.start (s.client id file) isRegistered w beyond delivered) es t →
      Done file t text → Uploads cpp py s text t.client.id true t.world files id' w' →
      Uploads cpp py s text id isRegistered w (file :: files) id' w'

variable {s : Setup} {id id' : ClientId} {isRegistered : Bool} {w w' : World}
  {file : Bytes} {files : List Bytes} {beyond : ℕ → UInt8} {delivered : ℕ} {es : List Event}

theorem name_expected {c : Client} (h : Expects c w text isRegistered) :
    (fieldText (clientName c.name)).isSome = true := by
  cases isRegistered with
  | true => exact h.1
  | false =>
    obtain ⟨name, hname, -⟩ := h.name
    rw [hname]
    rfl

theorem expects_congr {c c' : Client} (hname : c'.name = c.name) (hid : c'.id = c.id)
    (h : Expects c w text isRegistered) : Expects c' w text isRegistered := by
  cases isRegistered with
  | true =>
    obtain ⟨hvalid, hwelcome⟩ := h
    exact ⟨by rwa [hname], by rwa [hid]⟩
  | false =>
    obtain ⟨hempty, hfree, hfresh⟩ := h
    exact ⟨by rwa [hid], by rwa [hname], hfresh⟩

theorem expected_again (hsuited : Suited cpp py (s.client id file) text)
    (hexpects : Expects (s.client id file) w text isRegistered)
    (hdelivered : packetSize ≤ delivered)
    (hrun : Run (CalmStep cpp py) (.start (s.client id file) isRegistered w beyond delivered) es t)
    (hdone : Done file t text) (file' : Bytes) :
    Expects (s.client t.client.id file') t.world text true := by
  obtain ⟨n, -, hstart⟩ := setup_underway hsuited hexpects beyond hdelivered
  obtain ⟨m, hunderway, -⟩ := Simulation.length_le_rank hrun hstart underway_step
  have hname := name_expected hexpects
  refine ⟨hname, ?_⟩
  rcases stage_ends hunderway.stage with hrunning | ⟨-, -, -, hkept⟩
  · cases hdone.1.symm.trans hrunning
  · exact welcome_kept hkept

theorem uploads_exist (hsuited : ∀ file ∈ files, ∀ id, Suited cpp py (s.client id file) text)
    (hexpects : Expects (s.client id []) w text isRegistered) :
    ∃ id' w', Uploads cpp py s text id isRegistered w files id' w' := by
  induction files generalizing id isRegistered w with
  | nil => exact ⟨id, w, .nil id isRegistered w⟩
  | cons file files ih =>
    have hfile := hsuited file List.mem_cons_self id
    have hexpects : Expects (s.client id file) w text isRegistered :=
      expects_congr (c := s.client id []) rfl rfl hexpects
    obtain ⟨n, -, hstart⟩ := setup_underway hfile hexpects (fun _ => 0) le_rfl
    obtain ⟨es, t, hrun, hdone⟩ :=
      Simulation.completes hstart underway_step underway_progress
    obtain ⟨id', w', hrest⟩ := ih (fun f hf => hsuited f (List.mem_cons_of_mem file hf))
      (expected_again hfile hexpects le_rfl hrun hdone [])
    exact ⟨id', w', .cons le_rfl hrun hdone hrest⟩

theorem uploads_last (hsuited : ∀ file ∈ files, ∀ id, Suited cpp py (s.client id file) text)
    (hexpects : Expects (s.client id []) w text isRegistered)
    (h : Uploads cpp py s text id isRegistered w files id' w') :
    ∀ file, files.getLast? = some file → Delivered w' id' text (fileBuffer file) := by
  induction h with
  | nil => intro file hfile; cases hfile
  | @cons id id' isRegistered w w' file files beyond delivered es t hdelivered hrun hdone hrest
      ih =>
    intro last hlast
    have hfile := hsuited file List.mem_cons_self id
    have hagain := expected_again hfile (expects_congr (c := s.client id []) rfl rfl hexpects)
      hdelivered hrun hdone []
    cases hrest with
    | nil =>
      cases hlast
      exact hdone.2
    | cons _ _ _ _ =>
      refine ih (fun f hf => hsuited f (List.mem_cons_of_mem file hf)) hagain last ?_
      rwa [List.getLast?_cons_cons] at hlast

end Uploads

end CalmTransfer
