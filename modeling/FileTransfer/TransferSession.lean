import FileTransfer.ClientLogic
import FileTransfer.SendFileReassembly
import FileTransfer.ServerThread
import FileTransfer.StepRun

/-! # A transfer

The client and a read thread as the two ends of a connection. The bytes from the client
come in whatever pieces `recv` returns; the server sends whole packets. -/
namespace TransferSession

open ByteField ServerProtocol ServerState ServerHandlers ServerThread ClientChannel ClientFile
  ClientLogic MessageRoundTrip SendFileReassembly StepRun

section Definitions

/-- The while loop of `Server.write` on a socket that takes every packet. Each round raises
`sent`, so the length of `data` is fuel enough. -/
def writeFrom (data : Bytes) : (fuel sent : ℕ) → List Bytes
  | 0, _ => []
  | fuel + 1, sent =>
    if sent < data.length then
      padded packetSize (data.drop sent) :: writeFrom data fuel (sent + packetSize)
    else []

def responsePackets (r : Response) : List Bytes := writeFrom r.pack r.pack.length 0

/-- `toServer` and `toClient` are in flight. `served` are the requests that were handled, with
what was sent meanwhile. -/
structure Transfer where
  client : Client
  thread : ServerThread.Control
  world : World
  toServer : Bytes
  toClient : List Bytes
  served : List (Request × List Response)

/-- In `read` the socket of the client fails, or gives it the next packet. A message that
it writes then goes out with what lies behind it, up to `delivered` bytes. -/
inductive Event where
  | read (fails : Bool) (beyond : ℕ → UInt8) (delivered : ℕ)
  | recv (n : ℕ) (env : Env)
  | recvEnds (env : Env)
  | recvRaises (env : Env)

def Transfer.react (t : Transfer) (r : Reaction) (beyond : ℕ → UInt8) (delivered : ℕ) :
    Transfer :=
  match r.2 with
  | none => { t with client := r.1 }
  | some message =>
    let stream := (writePackets message beyond).flatten
    { t with
      client := if delivered < stream.length then r.1.writeFailed else r.1
      toServer := t.toServer ++ stream.take delivered }

variable (cpp : CppCrypto) (py : PyCrypto)

def Transfer.serve (t : Transfer) (r : RecvResult) (env : Env) : Transfer :=
  let out := readStep py env t.world t.thread r
  { t with
    thread := out.control
    world := out.world
    toClient := t.toClient ++ out.sent.flatMap responsePackets
    served := t.served ++ out.handled.toList.map fun request => (request, out.sent) }

def Transfer.next (t : Transfer) : Event → Option Transfer
  | .read fails beyond delivered =>
    if t.client.control.awaits then
      if fails then some (t.react (t.client.receive cpp none) beyond delivered)
      else match t.toClient with
        | [] => none
        | packet :: toClient =>
          some (Transfer.react { t with toClient } (t.client.receive cpp (some packet)) beyond
            delivered)
    else none
  | .recv n env =>
    if t.thread.awaits ∧ 0 < n ∧ n ≤ t.thread.recvSize ∧ n ≤ t.toServer.length then
      some (Transfer.serve py { t with toServer := t.toServer.drop n }
        (.chunk (t.toServer.take n)) env)
    else none
  | .recvEnds env =>
    if t.thread.awaits ∧ t.toServer = [] ∧ ¬t.client.control.awaits then
      some (t.serve py (.chunk []) env)
    else none
  | .recvRaises env => if t.thread.awaits then some (t.serve py .raises env) else none

def TransferStep (t : Transfer) (e : Event) (t' : Transfer) : Prop := t.next cpp py e = some t'

def Transfer.start (c : Client) (isRegistered : Bool) (w : World) (beyond : ℕ → UInt8)
    (delivered : ℕ) : Transfer :=
  Transfer.react ⟨c, .reading, w, [], [], []⟩ (c.run isRegistered) beyond delivered

end Definitions

section Steps

variable {cpp : CppCrypto} {py : PyCrypto} {t t' : Transfer}

theorem react_silent {r : Reaction} (h : r.2 = none) (t : Transfer) (beyond : ℕ → UInt8)
    (delivered : ℕ) : t.react r beyond delivered = { t with client := r.1 } := by
  unfold Transfer.react
  rw [h]

theorem react_leaves (t : Transfer) (r : Reaction) (beyond : ℕ → UInt8) (delivered : ℕ) :
    (t.react r beyond delivered).thread = t.thread ∧
      (t.react r beyond delivered).toClient = t.toClient ∧
      ((t.react r beyond delivered).client = r.1 ∨
        (t.react r beyond delivered).client = r.1.writeFailed) := by
  unfold Transfer.react
  split
  · exact ⟨rfl, rfl, .inl rfl⟩
  · refine ⟨rfl, rfl, ?_⟩
    dsimp only
    split
    · exact .inr rfl
    · exact .inl rfl

theorem failed_react {r : Reaction} (h : r.1.Failed) (t : Transfer) (beyond : ℕ → UInt8)
    (delivered : ℕ) : (t.react r beyond delivered).client.Failed := by
  obtain ⟨-, -, hclient | hclient⟩ := react_leaves t r beyond delivered
  · rwa [hclient]
  · rw [hclient]
    exact Client.writeFailed_failed h.2

theorem step_read {fails : Bool} {beyond : ℕ → UInt8} {delivered : ℕ}
    (h : TransferStep cpp py t (.read fails beyond delivered) t') :
    t.client.control.awaits = true ∧ ∃ packet toClient,
      (packet = none ∨ ∃ p, packet = some p ∧ t.toClient = p :: toClient) ∧
      t' = Transfer.react { t with toClient } (t.client.receive cpp packet) beyond delivered := by
  simp only [TransferStep, Transfer.next] at h
  split at h
  · next hawaits =>
    refine ⟨hawaits, ?_⟩
    split at h
    · exact ⟨none, t.toClient, .inl rfl, (Option.some.inj h).symm⟩
    · split at h
      · cases h
      · next packet toClient htoClient =>
        exact ⟨some packet, toClient, .inr ⟨packet, rfl, htoClient⟩, (Option.some.inj h).symm⟩
  · cases h

theorem step_recv {n : ℕ} {env : Env} (h : TransferStep cpp py t (.recv n env) t') :
    t.thread.awaits = true ∧ 0 < n ∧ n ≤ t.thread.recvSize ∧ n ≤ t.toServer.length ∧
      t' = Transfer.serve py { t with toServer := t.toServer.drop n }
        (.chunk (t.toServer.take n)) env := by
  simp only [TransferStep, Transfer.next] at h
  split at h
  · next henabled =>
    obtain ⟨hawaits, hpos, hsize, hlength⟩ := henabled
    exact ⟨hawaits, hpos, hsize, hlength, (Option.some.inj h).symm⟩
  · cases h

theorem step_recvEnds {env : Env} (h : TransferStep cpp py t (.recvEnds env) t') :
    t.thread.awaits = true ∧ t.toServer = [] ∧ ¬t.client.control.awaits = true ∧
      t' = t.serve py (.chunk []) env := by
  simp only [TransferStep, Transfer.next] at h
  split at h
  · next henabled =>
    obtain ⟨hawaits, hempty, hclient⟩ := henabled
    exact ⟨hawaits, hempty, hclient, (Option.some.inj h).symm⟩
  · cases h

theorem step_recvRaises {env : Env} (h : TransferStep cpp py t (.recvRaises env) t') :
    t.thread.awaits = true ∧ t' = t.serve py .raises env := by
  simp only [TransferStep, Transfer.next] at h
  split at h
  · next hawaits => exact ⟨hawaits, (Option.some.inj h).symm⟩
  · cases h

end Steps

section Packets

variable {r : Response}

theorem writeFrom_short {data : Bytes} (hne : data ≠ []) (h : data.length ≤ packetSize) :
    writeFrom data data.length 0 = [padded packetSize data] := by
  have hpos := List.length_pos_of_ne_nil hne
  obtain ⟨fuel, hfuel⟩ := Nat.exists_eq_succ_of_ne_zero hpos.ne'
  rw [hfuel, writeFrom, if_pos hpos, List.drop_zero, Nat.zero_add]
  cases fuel with
  | zero => rfl
  | succ fuel => rw [writeFrom, if_neg (by omega)]

def OnePacket (r : Response) : Prop :=
  r.payloadSize < 256 ^ 4 ∧
    ∀ payload, r.packPayload = some payload → headerSize + payload.length ≤ packetSize

theorem code_lt (r : Response) : r.code < 256 ^ 2 := by
  have hle : r.code ≤ msgReceived := by
    cases r <;> exact Nat.le_of_ble_eq_true rfl
  exact hle.trans_lt (by decide)

theorem onePacket_of_code (h : r.code ≠ publicKeyReceived) : OnePacket r := by
  cases r with
  | registrationSucceeded clientID =>
    refine ⟨(by decide : clientIdSize < 256 ^ 4), fun payload hp => ?_⟩
    cases hp
    simp [headerSize, packetSize, clientIdSize]
  | registrationFailed => exact ⟨by decide, fun payload hp => by cases hp; decide⟩
  | publicKey => exact absurd rfl h
  | fileReceivedCrcValue clientID size fileName checksum =>
    refine ⟨(by decide : clientIdSize + fileNameSize + 8 < 256 ^ 4), fun payload hp => ?_⟩
    simp only [Response.packPayload, packUnsigned] at hp
    split at hp
    · split at hp
      · cases hp
        simp [headerSize, packetSize, clientIdSize, fileNameSize]
      · cases hp
    · cases hp
  | receivingApproved => exact ⟨by decide, fun payload hp => by cases hp; decide⟩

theorem onePacket_publicKey (clientId : ClientId) {encrypted : Bytes}
    (h : encrypted.length ≤ publicKeySize) :
    OnePacket (.publicKey clientId encrypted (clientIdSize + encrypted.length)) := by
  unfold publicKeySize at h
  refine ⟨?_, fun payload hp => ?_⟩
  · simp only [Response.payloadSize, clientIdSize]
    omega
  · cases hp
    simp only [List.length_append, length_padded, headerSize, clientIdSize, packetSize]
    omega

theorem pack_header {code size : ℕ} (hcode : code < 256 ^ 2) (hsize : size < 256 ^ 4) :
    ResponseHeader.pack code size =
      leBytes 1 serverVersion ++ (leBytes 2 code ++ leBytes 4 size) := by
  have hversion : serverVersion < 256 ^ 1 := by decide
  rw [ResponseHeader.pack, packUnsigned, packUnsigned, packUnsigned, if_pos hcode, if_pos hsize,
    if_pos hversion]
  simp

theorem responsePackets_eq (h : OnePacket r) : r.packPayload = none ∧ responsePackets r = [] ∨
    ∃ payload rest, r.packPayload = some payload ∧
      responsePackets r = [leBytes 1 serverVersion ++ (leBytes 2 r.code ++
        (leBytes 4 r.payloadSize ++ (payload ++ rest)))] ∧
      headerSize + (payload ++ rest).length = packetSize := by
  cases hpayload : r.packPayload with
  | none =>
    refine .inl ⟨rfl, ?_⟩
    rw [responsePackets, Response.pack, hpayload]
    rfl
  | some payload =>
    right
    have hfits := h.2 payload hpayload
    have hpack : r.pack =
        leBytes 1 serverVersion ++ (leBytes 2 r.code ++ leBytes 4 r.payloadSize) ++ payload := by
      rw [Response.pack, hpayload, ← pack_header (code_lt r) h.1]
    have hlength : r.pack.length = headerSize + payload.length := by
      rw [hpack]
      simp [headerSize]
      omega
    refine ⟨payload, List.replicate (packetSize - r.pack.length) 0, rfl, ?_, ?_⟩
    · rw [responsePackets, writeFrom_short, padded, List.take_of_length_le (by omega), hpack]
      · simp
      · intro hnil
        rw [hnil] at hlength
        simp [headerSize] at hlength
        omega
      · omega
    · simp
      omega

theorem mem_responsePackets (h : OnePacket r) {packet : Bytes} (hp : packet ∈ responsePackets r) :
    responsePackets r = [packet] ∧ packet.length = packetSize ∧ responseCode packet = r.code ∧
      responsePayloadSize packet = r.payloadSize ∧ ∃ payload, r.packPayload = some payload ∧
        slice packet headerSize payload.length = payload := by
  rcases responsePackets_eq h with ⟨-, hnil⟩ | ⟨payload, rest, hpayload, hpackets, hlength⟩
  · rw [hnil] at hp
    cases hp
  · rw [hpackets, List.mem_singleton] at hp
    subst hp
    have hcode := slice_middle (leBytes 1 serverVersion) (leBytes 2 r.code)
      (leBytes 4 r.payloadSize ++ (payload ++ rest)) (length_leBytes 1 _) (length_leBytes 2 _)
    have hthree : (leBytes 1 serverVersion ++ leBytes 2 r.code).length = 3 := by simp
    have hseven : (leBytes 1 serverVersion ++ leBytes 2 r.code ++
        leBytes 4 r.payloadSize).length = headerSize := by simp [headerSize]
    have hsize := slice_middle _ (leBytes 4 r.payloadSize) (payload ++ rest) hthree
      (length_leBytes 4 _)
    have hslice := slice_middle _ payload rest hseven rfl
    simp only [List.append_assoc] at hsize hslice
    refine ⟨hpackets, ?_, ?_, ?_, payload, hpayload, hslice⟩
    · simp only [List.length_append, length_leBytes, headerSize] at hlength ⊢
      omega
    · rw [responseCode, hcode, leValue_leBytes_of_lt (code_lt r)]
    · rw [responsePayloadSize, hsize, leValue_leBytes_of_lt h.1]

end Packets

section Parsing

variable {id : ClientId} {name rest data : Bytes} {request : Request}

theorem exactly_slice_take {off len n : ℕ} {field : Field len}
    (h : exactly len (slice (data.take n) off len) = some field) :
    exactly len (slice data off len) = some field := by
  have hslice := exactly_eq_some.mp h
  have hlength := congrArg List.length hslice
  rw [length_slice, List.length_take, field.property] at hlength
  rw [exactly_eq_some, ← hslice, slice, slice, List.drop_take, List.take_take]
  congr 1
  omega

theorem unpack_take {n : ℕ} {header : RequestHeader}
    (h : RequestHeader.unpack (data.take n) = some header) :
    RequestHeader.unpack data = some header := by
  unfold RequestHeader.unpack at h ⊢
  obtain ⟨clientID, hid, h⟩ := Option.bind_eq_some_iff.mp h
  obtain ⟨headerData, hheader, h⟩ := Option.bind_eq_some_iff.mp h
  rw [exactly_slice_take hid, exactly_slice_take hheader]
  exact h

theorem code_of_partly {p : PartialFile} (h : Received.ofData data = .partly p) :
    ∃ header, RequestHeader.unpack data = some header ∧ header.code = requestToSendFile := by
  unfold Received.ofData at h
  split at h
  · cases h
  · next header hheader =>
    split at h
    · next hcode => exact ⟨header, hheader, hcode⟩
    · unfold Received.ofParsed at h
      split at h <;> cases h

theorem not_partly_of_header {code size n : ℕ} (hcode : code < 256 ^ 2) (hsize : size < 256 ^ 4)
    (hne : code ≠ requestToSendFile) (p : PartialFile) :
    Received.ofData ((requestHeader id code size ++ rest).take n) ≠ .partly p := by
  intro h
  obtain ⟨header, hheader, hsend⟩ := code_of_partly h
  have hwhole := unpack_take hheader
  rw [unpack_requestHeader id code size rest hcode hsize] at hwhole
  cases hwhole
  exact hne hsend

theorem parsed_of_header {code size : ℕ} (hcode : code < 256 ^ 2) (hsize : size < 256 ^ 4)
    (hne : code ≠ requestToSendFile)
    (h : Received.ofData (requestHeader id code size ++ rest) = .parsed request) :
    parsedRequest code (requestHeader id code size ++ rest) = some request := by
  rw [Received.ofData, unpack_requestHeader id code size rest hcode hsize] at h
  dsimp only at h
  rw [if_neg hne] at h
  unfold Received.ofParsed at h
  split at h
  · next q hq =>
    cases h
    exact hq
  · cases h

theorem parsed_registration
    (h : Received.ofData (registrationRequestMessage name ++ rest) = .parsed request) :
    ∃ q, request = .registration q := by
  rw [registrationRequestMessage, List.append_assoc] at h
  have hparsed := parsed_of_header (by decide) (by decide) (by decide) h
  obtain ⟨q, -, hq⟩ := Option.map_eq_some_iff.mp hparsed
  exact ⟨q, hq.symm⟩

theorem parsed_publicKey {key : Field publicKeySize}
    (h : Received.ofData (publicKeyRequestMessage id name key ++ rest) = .parsed request) :
    ∃ q, request = .publicKey q ∧ q.header.clientID = id ∧ q.publicKey = key := by
  have hunpack := unpack_publicKeyRequest id name key rest
  rw [publicKeyRequestMessage, List.append_assoc, List.append_assoc] at h hunpack
  have hparsed := parsed_of_header (by decide) (by decide) (by decide) h
  obtain ⟨q, hq, hrequest⟩ := Option.map_eq_some_iff.mp hparsed
  rw [hunpack] at hq
  obtain ⟨text, -, rfl⟩ := Option.map_eq_some_iff.mp hq
  exact ⟨_, hrequest.symm, rfl, rfl⟩

theorem parsed_crcStatus {code : ℕ}
    (hcode : code = requestCrcValid ∨ code = invalidCrcResendRequest)
    (h : Received.ofData (crcStatusRequestMessage code id (nameField name) ++ rest) =
      .parsed request) : ∃ q : CrcStatusRequest,
    request = (if code = requestCrcValid then .crcValid q else .crcResend q) ∧
      q.header.clientID = id ∧ q.clientID = id ∧
      fieldText (nameField name).val = some q.fileName := by
  have hlt : code < 256 ^ 2 := by rcases hcode with rfl | rfl <;> decide
  have hne : code ≠ requestToSendFile := by rcases hcode with rfl | rfl <;> decide
  have hunpack := @unpack_crcStatusRequest code id name rest hlt
  rw [crcStatusRequestMessage, List.append_assoc, List.append_assoc] at h hunpack
  have hparsed := parsed_of_header hlt (by decide) hne h
  have hq : ∃ q, CrcStatusRequest.unpack (requestHeader id code (clientIdSize + fileNameSize) ++
      (id.val ++ ((nameField name).val ++ rest))) = some q ∧
      request = if code = requestCrcValid then .crcValid q else .crcResend q := by
    rcases hcode with rfl | rfl
    · obtain ⟨q, hq, hrequest⟩ := Option.map_eq_some_iff.mp hparsed
      exact ⟨q, hq, hrequest.symm⟩
    · obtain ⟨q, hq, hrequest⟩ := Option.map_eq_some_iff.mp hparsed
      exact ⟨q, hq, hrequest.symm⟩
  obtain ⟨q, hq, hrequest⟩ := hq
  rw [hunpack] at hq
  obtain ⟨text, htext, rfl⟩ := Option.map_eq_some_iff.mp hq
  exact ⟨_, hrequest, rfl, rfl, htext⟩

end Parsing

section FileMessages

variable {sent : RequestToSendFile} {p p' : PartialFile} {stream : Bytes} {n : ℕ}

/-- The server has the front of a file message, and the rest of it is in flight. -/
structure PartOf (sent : RequestToSendFile) (p : PartialFile) (stream : Bytes) : Prop where
  request : { p.request with fileContent := sent.fileContent } = sent
  content : ∃ tail, p.fileContent ++ stream = sent.fileContent ++ tail
  need : p.fileContent.length + p.need = sent.fileContent.length

theorem parsed_of_part (h : PartOf sent p stream) {request : Request}
    (hreceived : Received.ofFile (p.feed (stream.take n)) = .parsed request) :
    request = .sendFile sent := by
  obtain ⟨hneed, hcontent⟩ := feed_need p (stream.take n)
  unfold Received.ofFile at hreceived
  split at hreceived
  · next hcomplete =>
    cases hreceived
    rw [complete_iff, hneed, List.length_take] at hcomplete
    obtain ⟨tail, htail⟩ := h.content
    have hwhole : (p.feed (stream.take n)).fileContent = sent.fileContent := by
      have htake := congrArg (List.take sent.fileContent.length) htail
      rw [List.take_left, ← h.need, List.take_length_add_append] at htake
      rw [hcontent, List.take_take, min_eq_left (by omega), htake]
    have hrequest : (p.feed (stream.take n)).request =
        { p.request with fileContent := (p.feed (stream.take n)).fileContent } := rfl
    rw [hrequest, hwhole, h.request]
  · cases hreceived

theorem part_of_partly (h : PartOf sent p stream) (hn : n ≤ stream.length)
    (hreceived : Received.ofFile (p.feed (stream.take n)) = .partly p') :
    PartOf sent p' (stream.drop n) := by
  obtain ⟨hneed, hcontent⟩ := feed_need p (stream.take n)
  unfold Received.ofFile at hreceived
  split at hreceived
  · cases hreceived
  · next hcomplete =>
    cases hreceived
    rw [complete_iff, hneed, List.length_take] at hcomplete
    have hchunk : (p.feed (stream.take n)).fileContent = p.fileContent ++ stream.take n := by
      rw [hcontent, List.take_of_length_le (by rw [List.length_take]; omega)]
    refine ⟨h.request, ?_, ?_⟩
    · obtain ⟨tail, htail⟩ := h.content
      exact ⟨tail, by rw [hchunk, List.append_assoc, List.take_append_drop, htail]⟩
    · rw [hchunk, List.length_append, hneed, List.length_take, ← h.need]
      omega

theorem length_of_begin {data : Bytes} (h : RequestToSendFile.begin data = some p) :
    282 ≤ data.length := by
  unfold RequestToSendFile.begin at h
  obtain ⟨header, -, h⟩ := Option.bind_eq_some_iff.mp h
  obtain ⟨contentSize, -, h⟩ := Option.bind_eq_some_iff.mp h
  obtain ⟨fileName, hname, -⟩ := Option.bind_eq_some_iff.mp h
  have hlength := congrArg List.length (exactly_eq_some.mp hname)
  rw [length_slice, fileName.property] at hlength
  simp only [requestHeaderSize, clientIdSize, headerSize, fileNameSize] at hlength
  omega

variable {id : ClientId} {contentSize : ℕ} {name encrypted tail : Bytes}

theorem ofData_front (hn : 4 + fileNameSize + encrypted.length < 256 ^ 4) (content : Bytes) :
    (∃ refused, Received.ofData
      ((sendFileFront id contentSize name encrypted.length ++ content).take n) =
        .malformed refused) ∨
      282 ≤ n ∧ ∃ p, RequestToSendFile.begin
        (sendFileFront id contentSize name encrypted.length ++ content.take (n - 282)) = some p ∧
        Received.ofData ((sendFileFront id contentSize name encrypted.length ++ content).take n) =
          .ofFile p := by
  generalize hdata : (sendFileFront id contentSize name encrypted.length ++ content).take n = data
  cases hheader : RequestHeader.unpack data with
  | none => exact .inl ⟨false, by rw [Received.ofData, hheader]⟩
  | some header =>
    have hcode : header.code = requestToSendFile := by
      have hwhole := unpack_take (hdata ▸ hheader)
      have hfront := unpack_requestHeader id requestToSendFile
        (4 + fileNameSize + encrypted.length)
        (leBytes 4 contentSize ++ (nameField name).val ++ content) (by decide) hn
      simp only [sendFileFront, List.append_assoc] at hwhole hfront
      rw [hfront] at hwhole
      cases hwhole
      rfl
    cases hbegin : RequestToSendFile.begin data with
    | none =>
      left
      refine ⟨true, ?_⟩
      rw [Received.ofData, hheader]
      dsimp only
      rw [if_pos hcode, hbegin]
    | some p =>
      right
      have hlong : 282 ≤ n := by
        have hlength := length_of_begin hbegin
        rw [← hdata, List.length_take] at hlength
        omega
      have htake : data = sendFileFront id contentSize name encrypted.length ++
          content.take (n - 282) := by
        rw [← hdata, List.take_append, length_sendFileFront,
          List.take_of_length_le (by rw [length_sendFileFront]; exact hlong)]
      refine ⟨hlong, p, by rw [← htake]; exact hbegin, ?_⟩
      rw [Received.ofData, hheader]
      dsimp only
      rw [if_pos hcode, hbegin]

theorem first_piece (hsize : contentSize < 256 ^ 4)
    (hn : 4 + fileNameSize + encrypted.length < 256 ^ 4) (hpiece : n ≤ packetSize) {r : Received}
    (hr : Received.ofData ((sendFileFront id contentSize name encrypted.length ++
      (encrypted ++ tail)).take n) = r) :
    (∃ refused, r = .malformed refused) ∨ ∃ text, fieldText (nameField name).val = some text ∧
      (r = .parsed (.sendFile (sentRequest id contentSize text encrypted)) ∨ ∃ p, r = .partly p ∧
        PartOf (sentRequest id contentSize text encrypted) p
          ((sendFileFront id contentSize name encrypted.length ++
            (encrypted ++ tail)).drop n)) := by
  rcases @ofData_front n id contentSize name encrypted hn (encrypted ++ tail) with
    ⟨refused, hrefused⟩ | ⟨hlong, p, hbegin, hfile⟩
  · exact .inl ⟨refused, hr.symm.trans hrefused⟩
  · right
    rw [begin_sendFile id name _ hsize hn] at hbegin
    obtain ⟨text, htext, hbegin⟩ := Option.bind_eq_some_iff.mp hbegin
    split at hbegin
    · next hread =>
      rw [Option.some.injEq] at hbegin
      rw [hr] at hfile
      rw [List.length_take, List.length_append] at hread
      have hcontent : p.fileContent = ((encrypted ++ tail).take (n - 282)).take
          (firstRead encrypted.length) := by rw [← hbegin]
      refine ⟨text, htext, ?_⟩
      unfold Received.ofFile at hfile
      by_cases hlarge : encrypted.length > packetSize
      · -- the packet is full, and the ciphertext goes on behind it
        have hfirst : firstRead encrypted.length = 742 := if_pos hlarge
        have hfull : n = 1024 := by
          simp only [packetSize] at hpiece
          omega
        subst hfull
        have hneed : p.need = encrypted.length - 742 := by rw [← hbegin, PartialFile.need, hfirst]
        have hnot : ¬p.complete = true := by
          rw [complete_iff, hneed]
          simp only [packetSize] at hlarge
          omega
        rw [if_neg hnot] at hfile
        have hdrop : (sendFileFront id contentSize name encrypted.length ++
            (encrypted ++ tail)).drop 1024 = (encrypted ++ tail).drop 742 := by
          rw [List.drop_append, length_sendFileFront,
            List.drop_of_length_le (by rw [length_sendFileFront]; decide), List.nil_append]
        rw [hfirst, List.take_take, Nat.min_self] at hcontent
        refine .inr ⟨p, hfile, ?_, ⟨tail, ?_⟩, ?_⟩
        · rw [← hbegin]
          rfl
        · rw [hdrop, hcontent, List.take_append_drop]
          rfl
        · rw [hcontent, hneed, List.length_take, List.length_append]
          simp only [sentRequest]
          omega
      · have hfirst : firstRead encrypted.length = encrypted.length := if_neg hlarge
        have hcomplete : p.complete = true := by
          rw [complete_iff, ← hbegin, PartialFile.need, hfirst, Nat.sub_self]
        rw [if_pos hcomplete] at hfile
        rw [hfirst, List.take_take, min_eq_left (by omega), List.take_left] at hcontent
        left
        rw [hfile, PartialFile.request, hcontent, ← hbegin]
        rfl
    · cases hbegin

end FileMessages

section Samples

/-- One AES key, one block under it and one RSA key, with the values that the libraries give
for them. -/
def sampleKey : Field symmetricKeySize :=
  ⟨[1, 2, 3, 4, 5, 6, 7, 8, 9, 10, 11, 12, 13, 14, 15, 16], rfl⟩

def sampleBlock : Bytes := 0x61 :: List.replicate 15 0

def sampleCiphertext : Bytes :=
  [0xB0, 0x1D, 0x66, 0x51, 0x2C, 0xCF, 0x53, 0xE9, 0x5A, 0x79, 0xC0, 0x7F, 0xC6, 0x20, 0x60, 0x9F,
   0xAF, 0xA1, 0x19, 0x26, 0xD8, 0x2B, 0x19, 0xE0, 0xC8, 0xF4, 0x60, 0xE8, 0xD4, 0x27, 0x01, 0x32]

def samplePublicKey : Field publicKeySize := ⟨
  [0x30, 0x81, 0x9D, 0x30, 0x0D, 0x06, 0x09, 0x2A, 0x86, 0x48, 0x86, 0xF7, 0x0D, 0x01, 0x01, 0x01,
   0x05, 0x00, 0x03, 0x81, 0x8B, 0x00, 0x30, 0x81, 0x87, 0x02, 0x81, 0x81, 0x00, 0xC7, 0x07, 0xD1,
   0x0E, 0x67, 0xB4, 0x4C, 0xF1, 0x2B, 0xE6, 0x51, 0xE3, 0xD6, 0x5E, 0x25, 0xCC, 0xF9, 0x2B, 0xE2,
   0x5F, 0x55, 0x9C, 0x1B, 0xF4, 0x06, 0x7F, 0x0E, 0x64, 0x31, 0xDC, 0x60, 0x57, 0x07, 0x5E, 0xB3,
   0xF7, 0x2B, 0xEB, 0xD5, 0xE9, 0x47, 0x23, 0xBD, 0x27, 0x25, 0xA0, 0x28, 0xF5, 0xB8, 0xB3, 0xEC,
   0x64, 0x9C, 0x8F, 0x9E, 0x9C, 0x7B, 0x24, 0xC9, 0xC4, 0x05, 0xDF, 0x3E, 0xB2, 0x02, 0x1E, 0x05,
   0xB3, 0xD4, 0x84, 0x08, 0xA0, 0x1E, 0xB0, 0xDD, 0x9C, 0x45, 0x06, 0xA6, 0xA8, 0xF4, 0xBC, 0x1B,
   0x07, 0x98, 0xD8, 0x5F, 0xC9, 0x71, 0xEA, 0x21, 0x27, 0xF9, 0x86, 0x3F, 0x6B, 0xA5, 0x9C, 0xC4,
   0xB9, 0xA2, 0x62, 0xA5, 0x60, 0x93, 0x8E, 0x54, 0x79, 0xE2, 0x4D, 0x5C, 0x98, 0x40, 0x04, 0x3B,
   0x8B, 0x84, 0x9D, 0x0B, 0xBC, 0xA3, 0xF2, 0x74, 0xBE, 0x59, 0x2A, 0xCC, 0xD9, 0x02, 0x01, 0x11],
   rfl⟩

def sampleEncryptedKey : Bytes :=
  [0x57, 0x22, 0x3D, 0x09, 0xBE, 0x03, 0x0E, 0xD1, 0x1C, 0x16, 0x75, 0x71, 0xD1, 0xA8, 0x04, 0x96,
   0xE3, 0x87, 0xB5, 0xDC, 0x9A, 0x15, 0xA5, 0x13, 0x9C, 0x59, 0xB5, 0x5C, 0x83, 0xA4, 0xFC, 0x2E,
   0xA1, 0xCD, 0x44, 0x4A, 0xCD, 0x60, 0x1D, 0x86, 0xDB, 0xCA, 0x05, 0x5F, 0x96, 0x00, 0xD0, 0x30,
   0xA1, 0xBA, 0xAD, 0xAC, 0xEF, 0x02, 0x52, 0xEB, 0xC9, 0x0B, 0x16, 0x8F, 0x83, 0x4C, 0xAB, 0xF6,
   0xEF, 0xAE, 0x17, 0xD0, 0x71, 0xE7, 0xE1, 0x20, 0xF7, 0x7A, 0xF6, 0x31, 0x68, 0x85, 0xA9, 0xAB,
   0x96, 0x82, 0xF3, 0x81, 0xB4, 0xD0, 0x17, 0xFC, 0x32, 0xF6, 0xC1, 0x0D, 0x8B, 0x3B, 0x9A, 0xD3,
   0x34, 0x19, 0x34, 0xFA, 0xAD, 0x40, 0xA2, 0x12, 0x40, 0x96, 0x44, 0x3E, 0xCE, 0x87, 0xFA, 0x0D,
   0x64, 0xB8, 0x05, 0x56, 0x43, 0xC5, 0x99, 0x9B, 0xBC, 0x08, 0x07, 0x39, 0xA2, 0x62, 0x28, 0x59]

def sampleSeed : Bytes := List.replicate 20 7

def sampleCrc (data : Bytes) : ℕ := if data = sampleBlock then 2073188163 else 0

def sampleCpp : CppCrypto where
  crc32 := sampleCrc
  aesEncrypt key plain :=
    if key = sampleKey.val ∧ plain = sampleBlock then sampleCiphertext
    else plain ++ List.replicate (16 - plain.length % 16) 0
  rsaDecrypt encrypted := if encrypted = sampleEncryptedKey then some sampleKey.val else none

def samplePy : PyCrypto where
  crc32 := sampleCrc
  aesCbcDecrypt key ciphertext :=
    if key.length = symmetricKeySize ∧ ciphertext.length % 16 = 0 then
      if key = sampleKey.val ∧ ciphertext = sampleCiphertext then
        some (sampleBlock ++ List.replicate 16 16)
      else some ciphertext
    else none
  rsaOaepEncrypt publicKey seed data :=
    if publicKey = samplePublicKey.val ∧ seed = sampleSeed ∧ data = sampleKey.val then
      some sampleEncryptedKey
    else none

def sampleEnv : Env := { Env.undisturbed with aesKey := sampleKey, oaepSeed := sampleSeed }

def sampleClient (file : Bytes) : Client :=
  .opened [0x61] sampleId samplePublicKey (filled symmetricKeySize 0) [0x78] file

def Transfer.asked (t : Transfer) (r : Reaction) : Option Transfer :=
  match r.2 with
  | none => some { t with client := r.1 }
  | some message =>
    if message ≠ [] ∧ message.length ≤ packetSize then
      some { t with client := r.1, toServer := t.toServer ++ padded packetSize message }
    else none

theorem asked_eq {t t' : Transfer} {r : Reaction} (h : t.asked r = some t') :
    t.react r (fun _ => 0) packetSize = t' := by
  unfold Transfer.asked at h
  unfold Transfer.react
  split at h
  · exact Option.some.inj h
  · next message hmessage =>
    split at h
    · next hfits =>
      obtain ⟨hne, hlength⟩ := hfits
      have hpos := List.length_pos_of_ne_nil hne
      have hone : packetCount message.length = 1 := by
        simp only [packetCount, packetSize] at hlength ⊢
        omega
      have hstream : (writePackets message fun _ => 0).flatten = padded packetSize message := by
        rw [flatten_writePackets, hone, Nat.mul_one, padded, List.take_of_length_le hlength,
          List.map_const', List.length_range]
      dsimp only
      rw [hstream, length_padded, if_neg (lt_irrefl _),
        List.take_of_length_le (length_padded packetSize message).le]
      exact Option.some.inj h
    · cases h

def exchange (env : Env) : List Event :=
  [.recv packetSize env, .read false (fun _ => 0) packetSize]

def Transfer.round (cpp : CppCrypto) (py : PyCrypto) (t : Transfer) (env : Env) :
    Option Transfer :=
  if t.thread = .reading ∧ packetSize ≤ t.toServer.length then
    let u := Transfer.serve py { t with toServer := t.toServer.drop packetSize }
      (.chunk (t.toServer.take packetSize)) env
    match u.toClient with
    | [] => none
    | packet :: toClient =>
      if u.client.control.awaits then
        Transfer.asked { u with toClient } (u.client.receive cpp (some packet))
      else none
  else none

theorem round_steps {cpp : CppCrypto} {py : PyCrypto} {t t' : Transfer} {env : Env}
    (h : t.round cpp py env = some t') : ∃ u, TransferStep cpp py t (.recv packetSize env) u ∧
      TransferStep cpp py u (.read false (fun _ => 0) packetSize) t' := by
  unfold Transfer.round at h
  split at h
  · next henabled =>
    obtain ⟨hthread, hlength⟩ := henabled
    refine ⟨Transfer.serve py { t with toServer := t.toServer.drop packetSize }
      (.chunk (t.toServer.take packetSize)) env, ?_, ?_⟩
    · unfold TransferStep Transfer.next
      exact if_pos ⟨by rw [hthread]; rfl, by decide, by rw [hthread]; exact le_rfl, hlength⟩
    · dsimp only at h
      split at h
      · cases h
      · next packet toClient hpacket =>
        split at h
        · next hawaits =>
          unfold TransferStep Transfer.next
          dsimp only
          rw [if_pos hawaits, if_neg Bool.false_ne_true, hpacket]
          dsimp only
          rw [asked_eq h]
        · cases h
  · cases h

def Transfer.sample (file : Bytes) : Option Transfer :=
  Transfer.asked ⟨sampleClient file, .reading, .withClient, [], [], []⟩
    ((sampleClient file).run true)

end Samples

end TransferSession
