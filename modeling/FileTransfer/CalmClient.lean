import FileTransfer.CorruptedUpload
import FileTransfer.ReadBuffers

/-! # The client when nothing fails

The answer to each request of a transfer makes the client send the next one. -/
namespace CalmClient

open ByteField ServerProtocol ServerState ClientChannel ClientFile ClientLogic ClientLogic.Client
  MessageRoundTrip TransferSession TransferAnswers
open ReadBuffers (accepts_iff accepts_of_getHeader getHeader_sized getHeader_publicKey)

variable {cpp : CppCrypto} {py : PyCrypto} {c : Client} {r : Response} {payload packet : Bytes}

section Packets

/-- The packet of a response, as it comes to the client. -/
structure Carries (r : Response) (payload packet : Bytes) : Prop where
  packets : responsePackets r = [packet]
  length : packet.length = packetSize
  code : responseCode packet = r.code
  size : responsePayloadSize packet = r.payloadSize
  payload : slice packet headerSize payload.length = payload

theorem exists_carries (hone : OnePacket r) (h : r.packPayload = some payload) :
    ∃ packet, Carries r payload packet := by
  rcases responsePackets_eq hone with ⟨hnone, -⟩ | ⟨payload', rest, hsome, hpackets, -⟩
  · cases hnone.symm.trans h
  · obtain ⟨-, hlength, hcode, hsize, payload'', hsome', hslice⟩ :=
      mem_responsePackets hone (hpackets ▸ List.mem_singleton.mpr rfl)
    cases h.symm.trans hsome'
    exact ⟨_, hpackets, hlength, hcode, hsize, hslice⟩

/-- What `Run` has in its buffer behind a response with a payload. -/
structure Buffered (r : Response) (payload : Bytes) (c : Client) : Prop where
  isOpen : c.isOpen = true
  buffer : ∃ data, c.buffer = some data ∧ responseCode data = r.code ∧
    responsePayloadSize data = r.payloadSize ∧
    ∀ off len, off + len ≤ payload.length →
      slice data (headerSize + off) len = slice payload off len

theorem accepts_response (hone : OnePacket r) (hpacket : packet ∈ responsePackets r)
    (hkey : r.code = publicKeyReceived → 0 < r.payloadSize ∧ r.payloadSize ≤ packetSize) :
    readAccepts packet = true := by
  obtain ⟨-, -, hcode, hsize, -⟩ := mem_responsePackets hone hpacket
  rw [accepts_iff, hcode, hsize]
  cases r with
  | registrationSucceeded id => exact .inr (.inl ⟨.inl rfl, rfl⟩)
  | registrationFailed => exact .inl (.inl rfl)
  | publicKey id encrypted size => exact .inr (.inr ⟨rfl, hkey rfl⟩)
  | fileReceivedCrcValue id size fileName crc => exact .inr (.inl ⟨.inr rfl, rfl⟩)
  | receivingApproved => exact .inl (.inr rfl)

theorem payload_fits (h : Carries r payload packet) :
    headerSize + payload.length ≤ packetSize := by
  have hlength := congrArg List.length h.payload
  rw [length_slice, h.length] at hlength
  simp only [headerSize, packetSize] at hlength ⊢
  omega

theorem buffered_carries (h : Carries r payload packet)
    (hheader : getHeader packet = payload.length) (hpos : 0 < payload.length) (c : Client) :
    Buffered r payload (c.buffered (some packet)) := by
  have haccepts : readAccepts packet = true := accepts_of_getHeader (by omega)
  have hlength := h.length
  have hfits := payload_fits h
  obtain ⟨hopen, rest, hdata⟩ := buffered_accepted haccepts c
  have hfront : headerSize ≤ packet.length := by omega
  obtain ⟨hcode, hsize⟩ := header_copied hfront (getHeader packet) rest
  refine ⟨hopen, _, hdata, hcode.trans h.code, hsize.trans h.size, ?_⟩
  intro off len hfield
  rw [slice_copied rest (by omega) (by omega), ← h.payload, slice_slice hfield]

end Packets

section Answers

theorem buffered_approval {id : ClientId}
    (h : Carries (.registrationSucceeded id) (padded clientIdSize id.val) packet) (c : Client) :
    (c.buffered (some packet)).isOpen = true ∧ ∃ data,
      (c.buffered (some packet)).buffer = some data ∧ responseCode data = registrationSucceeded ∧
        (⟨padded clientIdSize (slice data headerSize clientIdSize), length_padded _ _⟩ :
          ClientId) = id := by
  have hcode : responseCode packet = registrationSucceeded := h.code
  have hheader : getHeader packet = (padded clientIdSize id.val).length := by
    rw [getHeader_sized (.inl hcode) (by rw [hcode, h.size]; rfl), h.size, length_padded]
    rfl
  obtain ⟨hopen, data, hdata, hcode', -, hfields⟩ := buffered_carries h hheader
    (by rw [length_padded]; decide) c
  have hfield : slice data headerSize clientIdSize = id.val := by
    have hslice := hfields 0 clientIdSize (by rw [length_padded]; decide)
    rw [padded_of_length id.property] at hslice
    exact hslice.trans (List.take_of_length_le id.property.le)
  refine ⟨hopen, data, hdata, hcode', Subtype.ext ?_⟩
  dsimp only
  rw [hfield, padded_of_length id.property]

theorem receive_registered {id : ClientId}
    (h : Carries (.registrationSucceeded id) (padded clientIdSize id.val) packet)
    (hcontrol : c.control = .running) (hqueue : c.Alone) (hid : idIsEmpty c.id = some true) :
    let r := c.receive cpp (some packet)
    r.1.control = .running ∧ r.1.id = id ∧ r.1.name = c.name ∧
      r.2 = some (publicKeyRequestMessage id c.name c.publicKey) := by
  intro r
  obtain ⟨hopen, data, hdata, hcode, hfull⟩ := buffered_approval h c
  obtain ⟨hempty, hend⟩ := @alone_popFront (c.buffered (some packet)) hqueue
  have hset : (c.buffered (some packet)).popFront.setClientId
      ⟨padded clientIdSize (slice data headerSize clientIdSize), length_padded _ _⟩ =
        { (c.buffered (some packet)).popFront with id := id } := by
    have hid' : idIsEmpty (c.buffered (some packet)).popFront.id = some true := hid
    rw [hfull, setClientId, hid']
  have hreacts : r = ({ (c.buffered (some packet)).popFront with
      id := id, messageQueue := [publicKeyRequestMessage id c.name c.publicKey]
      numOfAttempts := maxAttempts },
      some (publicKeyRequestMessage id c.name c.publicKey)) := by
    have hnot : ¬({ (c.buffered (some packet)).popFront with id := id } : Client).control =
        .lost := by
      show ¬c.control = .lost
      rw [hcontrol]
      decide
    rw [show r = _ from receive_running hcontrol (some packet), dispatch_registration hdata hcode,
      handelRegistrationApproved]
    dsimp only
    rw [hset, if_neg hnot, sendPublicKeyToServer,
      @addMessageToQueue_open { (c.buffered (some packet)).popFront with id := id } hopen hend
        hempty]
    exact congrArg (·, some _) (atLoopHead_open hopen)
  rw [hreacts]
  exact ⟨hcontrol, rfl, rfl, rfl⟩

theorem sendEncryptedFile_fits (hopen : c.isOpen = true) (hfits : c.nameFits = true) :
    sendEncryptedFileToServer cpp c = ({ c with calculatedCrc := cpp.crc32 (fileBuffer c.file) },
      some (fileMessage cpp c)) := by
  rw [sendEncryptedFileToServer, if_pos hfits, sendMessageToChannel]
  exact congrArg (_, ·) (if_pos hopen)

theorem receive_keyed {encrypted key : Bytes}
    (h : Carries (.publicKey c.id encrypted (clientIdSize + encrypted.length))
      (padded clientIdSize c.id.val ++ encrypted) packet)
    (hcontrol : c.control = .running) (hfits : c.nameFits = true)
    (hkey : cpp.rsaDecrypt encrypted = some key) (hkeySize : key.length = symmetricKeySize) :
    let r := c.receive cpp (some packet)
    r.1.control = .running ∧ r.1.id = c.id ∧ r.1.symmetricKey.val = key ∧
      r.1.calculatedCrc = cpp.crc32 (fileBuffer c.file) ∧ r.2 = some (fileMessage cpp r.1) := by
  intro r
  have hcode : responseCode packet = publicKeyReceived := h.code
  have hsize : responsePayloadSize packet = clientIdSize + encrypted.length := h.size
  have hlength : (padded clientIdSize c.id.val ++ encrypted).length =
      clientIdSize + encrypted.length := by
    rw [List.length_append, length_padded]
  have hfitsPacket := payload_fits h
  have hheader : getHeader packet = (padded clientIdSize c.id.val ++ encrypted).length := by
    rw [getHeader_publicKey hcode, hsize, hlength, if_neg (by omega)]
  obtain ⟨hopen, data, hdata, hcode', hsize', hfields⟩ := buffered_carries h hheader
    (by rw [hlength]; simp [clientIdSize]) c
  have hpayload : responsePayloadSize data + headerSize - (headerSize + clientIdSize) =
      encrypted.length := by
    rw [hsize', Response.payloadSize]
    omega
  have hfield : slice data (headerSize + clientIdSize) encrypted.length = encrypted := by
    rw [hfields clientIdSize encrypted.length hlength.ge, slice,
      List.drop_left' (length_padded _ _), List.take_length]
  rw [show r = _ from receive_running hcontrol (some packet), dispatch_publicKey hdata hcode',
    handelSymmetricKeyResponseFromServer]
  dsimp only
  rw [hpayload, hfield, hkey]
  dsimp only
  generalize hset : ({ popFront _ with symmetricKey := _ } : Client) = c'
  have hopen' : c'.isOpen = true := by
    rw [← hset]
    exact hopen
  have hfits' : c'.nameFits = true := by
    rw [← hset]
    exact hfits
  rw [sendEncryptedFile_fits hopen' hfits', @atLoopHead_open
    { c' with calculatedCrc := cpp.crc32 (fileBuffer c'.file) } hopen', ← hset]
  exact ⟨hcontrol, rfl, assignKey_eq _ hkeySize, rfl, rfl⟩

theorem receive_told {content : Bytes} (h : Tells py content r)
    (hpacket : packet ∈ responsePackets r) (hcontrol : c.control = .running)
    (hfits : c.nameFits = true) (hcrc : py.crc32 content = c.calculatedCrc) :
    let r := c.receive cpp (some packet)
    r.1.control = .running ∧ r.1.id = c.id ∧ r.2 = some (c.crcStatusMessage requestCrcValid) := by
  intro r
  obtain ⟨-, hlength, hcode, hchecksum⟩ := CorruptedUpload.tells_packet h hpacket
  have haccepts : readAccepts packet = true := by
    obtain ⟨id, size, fileName, rfl⟩ := h
    have hother : (Response.fileReceivedCrcValue id size fileName (py.crc32 content)).code ≠
        publicKeyReceived := (by decide : msgReceivedCrc ≠ publicKeyReceived)
    exact accepts_response (onePacket_of_code hother) hpacket fun hkey => absurd hkey hother
  have hheader : headerSize ≤ packet.length := by
    rw [hlength]
    decide
  obtain ⟨hopen, rest, hdata⟩ := buffered_accepted haccepts c
  have hcode' := (header_copied hheader (getHeader packet) rest).1.trans hcode
  have hcrc' := ClientDialogue.checksum_copied hlength haccepts hcode rest
  have hfits' : (c.buffered (some packet)).popFront.nameFits = true := hfits
  have hsame : checksum (packet.take (getHeader packet + headerSize) ++ rest) =
      (c.buffered (some packet)).popFront.calculatedCrc := (hcrc'.trans hchecksum).trans hcrc
  have hopen' : (c.buffered (some packet)).popFront.isOpen = true := hopen
  rw [show r = _ from receive_running hcontrol (some packet), dispatch_crcValue hdata hcode',
    handelMessageReceivedWithCrc, if_pos hfits', if_pos hsame, sendMessageToChannel, if_pos hopen',
    atLoopHead_open hopen']
  exact ⟨hcontrol, rfl, rfl⟩

end Answers

section Identities

variable (c : Client)

def identity (c : Client) : Bytes × ClientId := (c.name, c.id)

theorem addMessageToQueue_identity (message : Bytes) :
    identity (c.addMessageToQueue message).1 = identity c := by
  unfold addMessageToQueue sendNextMessage
  split
  · rfl
  · split <;> rfl

theorem sendEncryptedFile_identity :
    identity (sendEncryptedFileToServer cpp c).1 = identity c := by
  unfold sendEncryptedFileToServer
  split <;> rfl

theorem crcLoop_identity (v : Bytes) : identity (c.crcLoop v).1 = identity c := by
  unfold crcLoop
  split
  · split <;> rfl
  · rfl

theorem checkResponse_identity (v : Bytes) : identity (c.checkResponse v).1 = identity c := by
  unfold checkResponse
  split
  · split
    · rfl
    · exact crcLoop_identity ..
  · exact crcLoop_identity ..

theorem atLoopHead_identity : identity c.atLoopHead = identity c := by
  unfold atLoopHead
  split <;> rfl

theorem writeFailed_identity : identity c.writeFailed = identity c := by
  unfold writeFailed
  split <;> rfl

theorem registrationFailed_identity : identity c.handelRegistrationFailed.1 = identity c := by
  unfold handelRegistrationFailed
  split
  · split <;> rfl
  · rfl

theorem symmetricKey_identity (data : Bytes) (size : ℕ) :
    identity (handelSymmetricKeyResponseFromServer cpp c data size).1 = identity c := by
  unfold handelSymmetricKeyResponseFromServer
  dsimp only
  split
  · rfl
  · exact sendEncryptedFile_identity _

theorem receivedWithCrc_identity (data : Bytes) :
    identity (c.handelMessageReceivedWithCrc data).1 = identity c := by
  unfold handelMessageReceivedWithCrc
  split
  · split
    · rfl
    · exact crcLoop_identity ..
  · rfl

theorem registrationApproved_identity (data : Bytes) :
    identity (c.handelRegistrationApproved data).1 = (c.name, (c.setClientId
      ⟨padded clientIdSize (slice data headerSize clientIdSize), length_padded _ _⟩).id) := by
  have hname : ∀ id, (c.setClientId id).name = c.name := by
    intro id
    unfold setClientId
    split <;> rfl
  unfold handelRegistrationApproved
  dsimp only
  split
  · exact congrArg (·, _) (hname _)
  · exact (addMessageToQueue_identity ..).trans (congrArg (·, _) (hname _))

/-- The other handlers set neither the name nor the id. -/
theorem dispatch_identity
    (h : ∀ data, c.buffer = some data → responseCode data ≠ registrationSucceeded) :
    identity (dispatch cpp c).1 = identity c := by
  unfold dispatch
  split
  · rfl
  · next data hdata =>
    dsimp only
    rw [if_neg (h data hdata)]
    split_ifs
    · exact registrationFailed_identity c
    · exact symmetricKey_identity ..
    · exact receivedWithCrc_identity ..
    · rfl
    · rfl

theorem receive_identity {packet : Option Bytes} (h : c.control = .running → ∀ data,
    (c.buffered packet).buffer = some data → responseCode data ≠ registrationSucceeded) :
    identity (c.receive cpp packet).1 = identity c := by
  rcases c.control_cases with hrunning | ⟨v, hresending⟩ | hquiet
  · rw [receive_running hrunning]
    exact (atLoopHead_identity _).trans (dispatch_identity _ (h hrunning))
  · rw [receive_resending hresending]
    exact (atLoopHead_identity _).trans (checkResponse_identity ..)
  · unfold receive
    split
    · next hrunning => rw [hrunning] at hquiet; cases hquiet
    · next v hresending => rw [hresending] at hquiet; cases hquiet
    · rfl

theorem setClientId_congr {c c' : Client} (h : c'.id = c.id) (id : ClientId) :
    (c'.setClientId id).id = (c.setClientId id).id := by
  unfold setClientId
  rw [h]
  cases idIsEmpty c.id with
  | none => rfl
  | some empty =>
    cases empty with
    | true => rfl
    | false => exact h

theorem receive_approval {packet : Option Bytes} {data : Bytes} (hrunning : c.control = .running)
    (hdata : (c.buffered packet).buffer = some data)
    (hcode : responseCode data = registrationSucceeded) :
    identity (c.receive cpp packet).1 = (c.name, (c.setClientId
      ⟨padded clientIdSize (slice data headerSize clientIdSize), length_padded _ _⟩).id) := by
  have hid : (c.buffered packet).popFront.id = c.id := rfl
  rw [receive_running hrunning, dispatch_registration hdata hcode, atLoopHead_identity,
    registrationApproved_identity, setClientId_congr hid]
  rfl

theorem receive_name (packet : Option Bytes) : (c.receive cpp packet).1.name = c.name := by
  by_cases h : c.control = .running ∧ ∃ data, (c.buffered packet).buffer = some data ∧
      responseCode data = registrationSucceeded
  · obtain ⟨hrunning, data, hdata, hcode⟩ := h
    exact congrArg Prod.fst (receive_approval c hrunning hdata hcode)
  · refine congrArg Prod.fst (receive_identity c fun hrunning data hdata hcode => h ?_)
    exact ⟨hrunning, data, hdata, hcode⟩

end Identities
end CalmClient
