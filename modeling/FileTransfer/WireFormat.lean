import FileTransfer.TransferSession
import Mathlib.Data.List.Forall2

/-! # The two wire formats

Each format is written down twice, as packed structs of the client and as struct formats of
the server. Requests are read from one packet, responses from a stream of packets. -/
namespace WireFormat

open ByteField ServerProtocol ServerState ServerHandlers ServerThread ClientChannel
  MessageRoundTrip TransferSession RaisingProgram

section Requests

inductive ClientRequest where
  | registration (name : Bytes)
  | publicKey (id : ClientId) (name : Bytes) (key : Field publicKeySize)
  | crcValid (id : ClientId) (fileName : Bytes)
  | crcResend (id : ClientId) (fileName : Bytes)
  | crcAbort (id : ClientId) (fileName : Bytes)

namespace ClientRequest

def code : ClientRequest → ℕ
  | .registration _ => requestRegistration
  | .publicKey .. => requestPublicKey
  | .crcValid .. => requestCrcValid
  | .crcResend .. => invalidCrcResendRequest
  | .crcAbort .. => invalidCrcAbort

/-- The id in the header; a registration request has none yet. -/
def id : ClientRequest → ClientId
  | .registration _ => emptyId
  | .publicKey id .. => id
  | .crcValid id _ => id
  | .crcResend id _ => id
  | .crcAbort id _ => id

def name : ClientRequest → Bytes
  | .registration name => name
  | .publicKey _ name _ => name
  | .crcValid _ fileName => fileName
  | .crcResend _ fileName => fileName
  | .crcAbort _ fileName => fileName

def pack : ClientRequest → Bytes
  | .registration name => registrationRequestMessage name
  | .publicKey id name key => publicKeyRequestMessage id name key
  | .crcValid id fileName => crcStatusRequestMessage requestCrcValid id (nameField fileName)
  | .crcResend id fileName =>
    crcStatusRequestMessage invalidCrcResendRequest id (nameField fileName)
  | .crcAbort id fileName => crcStatusRequestMessage invalidCrcAbort id (nameField fileName)

def payloadSize : ClientRequest → ℕ
  | .registration _ => clientNameSize
  | .publicKey .. => clientNameSize + publicKeySize
  | _ => clientIdSize + fileNameSize

def header (m : ClientRequest) : RequestHeader := ⟨m.id, clientVersion, m.code, m.payloadSize⟩

def UnpackedFrom (header : RequestHeader) (data : Bytes) : ClientRequest → Prop
  | .registration name => RegistrationRequest.unpack data = some ⟨header, name⟩
  | .publicKey _ name key => PublicKeyRequest.unpack data = some ⟨header, name, key⟩
  | .crcValid id fileName => CrcStatusRequest.unpack data = some ⟨header, id, fileName⟩
  | .crcResend id fileName => CrcStatusRequest.unpack data = some ⟨header, id, fileName⟩
  | .crcAbort id fileName => CrcStatusRequest.unpack data = some ⟨header, id, fileName⟩

def handler (crypto : PyCrypto) (env : Env) (data : Bytes) : ClientRequest → ServerM Bool
  | .registration _ => handleRegistrationRequest env data
  | .publicKey .. => handlePublicKeyRequest crypto env data
  | .crcValid .. => handleCrcValidRequest env data
  | .crcResend .. => handleInvalidCrcResendRequest crypto env data
  | .crcAbort .. => handleInvalidCrcAbortInteractionRequest data

theorem length_pack (m : ClientRequest) : m.pack.length = requestHeaderSize + m.payloadSize := by
  have hstatus : ∀ code (id : ClientId) (fileName : Bytes),
      (crcStatusRequestMessage code id (nameField fileName)).length =
        requestHeaderSize + (clientIdSize + fileNameSize) := by
    intro code id fileName
    rw [crcStatusRequestMessage, List.length_append, List.length_append, length_requestHeader,
      id.property, (nameField fileName).property, Nat.add_assoc]
  cases m with
  | registration name =>
    simp [pack, payloadSize, registrationRequestMessage, clientName]
  | publicKey id name key =>
    simp [pack, payloadSize, publicKeyRequestMessage, clientName, key.property]
  | crcValid id fileName => exact hstatus _ id fileName
  | crcResend id fileName => exact hstatus _ id fileName
  | crcAbort id fileName => exact hstatus _ id fileName

theorem unpackedFrom (m : ClientRequest) (h : WireName m.name) (rest : Bytes) :
    m.UnpackedFrom m.header (m.pack ++ rest) := by
  have htext := fieldText_padded h
  cases m with
  | registration name =>
    have hunpack := unpack_registrationRequest name rest
    rwa [show fieldText (clientName name) = some name from htext] at hunpack
  | publicKey id name key =>
    have hunpack := unpack_publicKeyRequest id name key rest
    rwa [show fieldText (clientName name) = some name from htext] at hunpack
  | crcValid id fileName =>
    have hunpack := @unpack_crcStatusRequest requestCrcValid id fileName rest (by decide)
    rwa [show fieldText (nameField fileName).val = some fileName from htext] at hunpack
  | crcResend id fileName =>
    have hunpack := @unpack_crcStatusRequest invalidCrcResendRequest id fileName rest (by decide)
    rwa [show fieldText (nameField fileName).val = some fileName from htext] at hunpack
  | crcAbort id fileName =>
    have hunpack := @unpack_crcStatusRequest invalidCrcAbort id fileName rest (by decide)
    rwa [show fieldText (nameField fileName).val = some fileName from htext] at hunpack

theorem unpack_header (m : ClientRequest) (rest : Bytes) :
    RequestHeader.unpack (m.pack ++ rest) = some m.header := by
  cases m with
  | registration name =>
    rw [pack, registrationRequestMessage, List.append_assoc]
    exact unpack_requestHeader _ _ _ _ (by decide) (by decide)
  | publicKey id name key =>
    rw [pack, publicKeyRequestMessage, List.append_assoc, List.append_assoc]
    exact unpack_requestHeader _ _ _ _ (by decide) (by decide)
  | crcValid id fileName =>
    rw [pack, crcStatusRequestMessage, List.append_assoc, List.append_assoc]
    exact unpack_requestHeader _ _ _ _ (by decide) (by decide)
  | crcResend id fileName =>
    rw [pack, crcStatusRequestMessage, List.append_assoc, List.append_assoc]
    exact unpack_requestHeader _ _ _ _ (by decide) (by decide)
  | crcAbort id fileName =>
    rw [pack, crcStatusRequestMessage, List.append_assoc, List.append_assoc]
    exact unpack_requestHeader _ _ _ _ (by decide) (by decide)

theorem requestHandle_code (crypto : PyCrypto) (env : Env) (m : ClientRequest) (data : Bytes) :
    requestHandle crypto env m.code data = m.handler crypto env data := by
  cases m <;> rfl

end ClientRequest

/-- Main theorem: a packed request, whatever follows it, is unpacked to what the client put
into it, is sent to its handler, and is as long as its header says. -/
theorem request_roundTrip (crypto : PyCrypto) (env : Env) (m : ClientRequest) (rest : Bytes)
    (h : WireName m.name) :
    RequestHeader.unpack (m.pack ++ rest) = some m.header ∧
      m.UnpackedFrom m.header (m.pack ++ rest) ∧
      requestHandle crypto env m.header.code (m.pack ++ rest) =
        m.handler crypto env (m.pack ++ rest) ∧
      requestHeaderSize + m.header.payloadSize = m.pack.length :=
  ⟨m.unpack_header rest, m.unpackedFrom h rest, m.requestHandle_code crypto env _,
    m.length_pack.symm⟩

theorem request_roundTrip_full :
    let m := ClientRequest.registration (.replicate 255 0x61)
    RequestHeader.unpack (m.pack ++ [1]) = some m.header ∧
      m.UnpackedFrom m.header (m.pack ++ [1]) ∧
      requestHandle .trivial .undisturbed m.header.code (m.pack ++ [1]) =
        m.handler .trivial .undisturbed (m.pack ++ [1]) ∧
      requestHeaderSize + m.header.payloadSize = m.pack.length :=
  request_roundTrip .trivial .undisturbed _ [1] (by decide +kernel)

end Requests

section Responses

/-- A response whose fields have the sizes of the protocol, with a payload size as the
handler sets it. The 2103 without any field set has an id of no bytes. -/
def WellFormed : Response → Prop
  | .publicKey _ key size => size = clientIdSize + key.length ∧ headerSize + size ≤ packetSize
  | .fileReceivedCrcValue id size fileName checksum =>
    id.length ≤ clientIdSize ∧ size < 256 ^ 4 ∧ fileName.length ≤ fileNameSize ∧
      checksum < 256 ^ 4
  | _ => True

def stream (responses : List Response) : Bytes := (responses.flatMap responsePackets).flatten

def readFrom (stream buffer : Bytes) : (Bool × Bytes) × Bytes :=
  if packetSize ≤ stream.length then
    (read (some (stream.take packetSize)) buffer, stream.drop packetSize)
  else (read none buffer, [])

/-- Successive calls of `Read` into one buffer: their results and the rest of the stream. -/
def reads : (n : ℕ) → (stream buffer : Bytes) → List (Bool × Bytes) × Bytes
  | 0, stream, _ => ([], stream)
  | n + 1, stream, buffer =>
    let (result, rest) := readFrom stream buffer
    let (results, rest) := reads n rest result.2
    (result :: results, rest)

/-- What the structs of the client show in a buffer: the fields of the response. -/
def Shows (buffer : Bytes) : Response → Prop
  | .registrationSucceeded id => slice buffer headerSize clientIdSize = id.val
  | .publicKey id key size =>
    slice buffer headerSize clientIdSize = id.val ∧
      slice buffer (headerSize + clientIdSize) (size - clientIdSize) = key
  | .fileReceivedCrcValue id size fileName checksum =>
    slice buffer headerSize clientIdSize = padded clientIdSize id ∧
      leValue (slice buffer (headerSize + clientIdSize) 4) = size ∧
      slice buffer (headerSize + clientIdSize + 4) fileNameSize = padded fileNameSize fileName ∧
      ClientLogic.Client.checksum buffer = checksum
  | _ => True

/-- A `Read` that succeeds and leaves the response in its buffer. -/
def Delivers (r : Response) (result : Bool × Bytes) : Prop :=
  result.1 = true ∧ responseCode result.2 = r.code ∧
    responsePayloadSize result.2 = r.payloadSize ∧ Shows result.2 r

variable {r : Response}

theorem WellFormed.packs (h : WellFormed r) :
    ∃ payload, r.packPayload = some payload ∧ payload.length = r.payloadSize ∧
      headerSize + r.payloadSize ≤ packetSize := by
  cases r with
  | registrationSucceeded id =>
    exact ⟨_, rfl, length_padded _ _, (by decide : headerSize + clientIdSize ≤ packetSize)⟩
  | registrationFailed => exact ⟨[], rfl, rfl, by decide⟩
  | publicKey id key size =>
    obtain ⟨rfl, hsize⟩ := h
    exact ⟨_, rfl, by simp [Response.payloadSize], hsize⟩
  | fileReceivedCrcValue id size fileName checksum =>
    obtain ⟨-, hsize, -, hchecksum⟩ := h
    refine ⟨padded clientIdSize id ++ leBytes 4 size ++ padded fileNameSize fileName ++
      leBytes 4 checksum, ?_, ?_,
      (by decide : headerSize + (clientIdSize + fileNameSize + 8) ≤ packetSize)⟩
    · simp only [Response.packPayload, packUnsigned, if_pos hsize, if_pos hchecksum]
      rfl
    · simp only [List.length_append, length_padded, length_leBytes, Response.payloadSize]
      omega
  | receivingApproved => exact ⟨[], rfl, rfl, by decide⟩

theorem WellFormed.onePacket (h : WellFormed r) : OnePacket r := by
  obtain ⟨payload, hpayload, hlength, hfits⟩ := h.packs
  refine ⟨?_, fun payload' hpayload' => ?_⟩
  · simp only [headerSize, packetSize] at hfits
    omega
  · cases hpayload.symm.trans hpayload'
    omega

theorem WellFormed.accepted (h : WellFormed r) {packet : Bytes}
    (hcode : responseCode packet = r.code) (hsize : responsePayloadSize packet = r.payloadSize) :
    readAccepts packet = true ∧ getHeader packet = r.payloadSize := by
  have hheader : getHeader packet = r.payloadSize := by
    unfold getHeader
    dsimp only
    rw [hcode, hsize]
    cases r with
    | registrationSucceeded id => rfl
    | registrationFailed => rfl
    | publicKey id key size =>
      have hfits : ¬packetSize < size := by
        have := h.2
        omega
      exact if_neg hfits
    | fileReceivedCrcValue id size fileName checksum => rfl
    | receivingApproved => rfl
  refine ⟨?_, hheader⟩
  unfold readAccepts
  rw [hheader, hcode]
  cases r with
  | registrationSucceeded id => rfl
  | registrationFailed => rfl
  | publicKey id key size =>
    have hpos : size ≠ 0 := by
      have := h.1
      simp only [clientIdSize] at this
      omega
    simp [Response.payloadSize, hpos]
  | fileReceivedCrcValue id size fileName checksum => rfl
  | receivingApproved => rfl

theorem WellFormed.shows (h : WellFormed r) {payload buffer : Bytes}
    (hpayload : r.packPayload = some payload)
    (hbuffer : slice buffer headerSize r.payloadSize = payload) : Shows buffer r := by
  have hfield : ∀ {o len : ℕ}, o + len ≤ r.payloadSize →
      slice buffer (headerSize + o) len = slice payload o len := by
    intro o len hle
    rw [← hbuffer, slice_slice hle]
  cases r with
  | registrationSucceeded id =>
    cases hpayload
    rw [Shows]
    exact hbuffer.trans (padded_of_length id.property)
  | registrationFailed => trivial
  | publicKey id key size =>
    cases hpayload
    obtain ⟨rfl, -⟩ := h
    have hid := @hfield 0 clientIdSize (by simp [Response.payloadSize])
    have hkey := @hfield clientIdSize key.length le_rfl
    rw [slice_front _ _ (length_padded _ _), padded_of_length id.property] at hid
    have hlast := slice_middle (padded clientIdSize id.val) key [] (length_padded _ _) rfl
    rw [List.append_nil] at hlast
    rw [hlast] at hkey
    exact ⟨hid, by rw [Nat.add_sub_cancel_left]; exact hkey⟩
  | fileReceivedCrcValue id size fileName checksum =>
    obtain ⟨-, hsize, -, hchecksum⟩ := h
    have hlayout : payload = padded clientIdSize id ++ (leBytes 4 size ++
        (padded fileNameSize fileName ++ (leBytes 4 checksum ++ []))) := by
      simp only [Response.packPayload, packUnsigned, if_pos hsize, if_pos hchecksum] at hpayload
      cases hpayload
      simp only [List.append_assoc, List.append_nil]
    have hfour : (padded clientIdSize id ++ leBytes 4 size).length = clientIdSize + 4 := by
      rw [List.length_append, length_padded, length_leBytes]
    have hlast : (padded clientIdSize id ++ leBytes 4 size ++
        padded fileNameSize fileName).length = clientIdSize + 4 + fileNameSize := by
      rw [List.length_append, hfour, length_padded]
    have h₁ := @hfield 0 clientIdSize (by simp only [Response.payloadSize]; omega)
    have h₂ := @hfield clientIdSize 4 (by simp only [Response.payloadSize]; omega)
    have h₃ := @hfield (clientIdSize + 4) fileNameSize (by simp only [Response.payloadSize]; omega)
    have h₄ := @hfield (clientIdSize + 4 + fileNameSize) 4
      (by simp only [Response.payloadSize]; omega)
    rw [hlayout, slice_front _ _ (length_padded _ _)] at h₁
    rw [hlayout, slice_middle _ _ _ (length_padded _ _) (length_leBytes 4 _)] at h₂
    rw [hlayout, ← List.append_assoc, slice_middle _ _ _ hfour (length_padded _ _)] at h₃
    rw [hlayout, ← List.append_assoc, ← List.append_assoc,
      slice_middle _ _ _ hlast (length_leBytes 4 _)] at h₄
    refine ⟨h₁, ?_, h₃, ?_⟩
    · rw [h₂, leValue_leBytes_of_lt hsize]
    · exact (congrArg leValue h₄).trans (leValue_leBytes_of_lt hchecksum)
  | receivingApproved => trivial

theorem WellFormed.delivered (h : WellFormed r) : ∃ packet, responsePackets r = [packet] ∧
    packet.length = packetSize ∧ ∀ buffer, Delivers r (read (some packet) buffer) := by
  obtain ⟨payload, hpayload, hlength, hfits⟩ := h.packs
  rcases responsePackets_eq h.onePacket with ⟨hnone, -⟩ | ⟨payload', rest, hpayload', hpackets, -⟩
  · cases hnone.symm.trans hpayload
  · obtain ⟨-, hpacket, hcode, hsize, payload'', hpayload'', hslice⟩ :=
      mem_responsePackets h.onePacket (by rw [hpackets]; exact List.mem_singleton_self _)
    refine ⟨_, hpackets, hpacket, fun buffer => ?_⟩
    generalize leBytes 1 serverVersion ++ (leBytes 2 r.code ++ (leBytes 4 r.payloadSize ++
      (payload' ++ rest))) = packet at hpacket hcode hsize hslice ⊢
    obtain ⟨haccepts, hheader⟩ := h.accepted hcode hsize
    cases hpayload.symm.trans hpayload''
    rw [hlength] at hslice
    have hcopied := header_copied (by rw [hpacket]; decide : headerSize ≤ packet.length)
      (getHeader packet) (buffer.drop (getHeader packet + headerSize))
    rw [read_accepted haccepts]
    refine ⟨rfl, hcopied.1.trans hcode, hcopied.2.trans hsize, h.shows hpayload ?_⟩
    rw [hheader, slice_copied _ (by omega) (by rw [hpacket]; omega), hslice]

/-- Main theorem: as many reads as responses were written deliver the responses in their
order, a packet each, and leave what comes behind them in the stream. -/
theorem reads_stream {responses : List Response} (h : ∀ r ∈ responses, WellFormed r)
    (more buffer : Bytes) : (stream responses).length = packetSize * responses.length ∧
      ∃ results, reads responses.length (stream responses ++ more) buffer = (results, more) ∧
        List.Forall₂ Delivers responses results := by
  induction responses generalizing buffer with
  | nil => exact ⟨rfl, [], rfl, .nil⟩
  | cons r responses ih =>
    obtain ⟨packet, hpackets, hlength, hdelivers⟩ := (h r (List.mem_cons_self ..)).delivered
    have hrest := fun r' hr' => h r' (List.mem_cons_of_mem r hr')
    have hstream : stream (r :: responses) = packet ++ stream responses := by
      rw [stream, List.flatMap_cons, hpackets, List.singleton_append, List.flatten_cons]
      rfl
    have hread : readFrom (stream (r :: responses) ++ more) buffer =
        (read (some packet) buffer, stream responses ++ more) := by
      rw [hstream, List.append_assoc, readFrom, if_pos (by simp [hlength]), ← hlength,
        List.take_left, List.drop_left]
    obtain ⟨hsize, results, hresults, hall⟩ := ih hrest (read (some packet) buffer).2
    refine ⟨?_, (read (some packet) buffer) :: results, ?_, .cons (hdelivers buffer) hall⟩
    · rw [hstream, List.length_append, hlength, hsize, List.length_cons, Nat.mul_succ,
        Nat.add_comm]
    · rw [List.length_cons, reads, hread]
      dsimp only
      rw [hresults]

theorem reads_stream_short :
    let responses : List Response :=
      [.publicKey sampleId [] clientIdSize, .receivingApproved, .emptyCrcValue]
    (stream responses).length = packetSize * responses.length ∧
      ∃ results, reads responses.length (stream responses ++ [1]) [] = (results, [1]) ∧
        List.Forall₂ Delivers responses results :=
  reads_stream (by
    intro r hr
    simp only [List.mem_cons, List.not_mem_nil, or_false] at hr
    rcases hr with rfl | rfl | rfl
    · exact ⟨rfl, by decide⟩
    · trivial
    · exact ⟨by decide, by decide, by decide, by decide⟩) [1] []

end Responses

end WireFormat
