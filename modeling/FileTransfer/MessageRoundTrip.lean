import FileTransfer.ClientChannel

/-! # The server parses what the client packs

Each request parser undoes the client's packing, on the packed message and on whatever
longer buffer it stands at the front of. -/
namespace MessageRoundTrip

open ByteField ServerProtocol ClientChannel

/-- A file or client name that survives its 255-byte field. -/
structure WireName (name : Bytes) : Prop where
  valid : utf8Valid name = true
  nulFree : (0 : UInt8) ∉ name
  fits : name.length ≤ fileNameSize

instance (name : Bytes) : Decidable (WireName name) :=
  decidable_of_iff (utf8Valid name = true ∧ (0 : UInt8) ∉ name ∧ name.length ≤ fileNameSize)
    ⟨fun h => ⟨h.1, h.2.1, h.2.2⟩, fun h => ⟨h.valid, h.nulFree, h.fits⟩⟩

def nameField (name : Bytes) : Field fileNameSize := ⟨padded fileNameSize name, by simp⟩

theorem fieldText_padded {name : Bytes} (h : WireName name) :
    fieldText (padded fileNameSize name) = some name := by
  rw [fieldText, untilNul_padded h.nulFree h.fits]
  exact decodeUtf8_eq_some.mpr ⟨h.valid, rfl⟩

@[simp] theorem length_requestHeader (id : ClientId) (code payloadSize : ℕ) :
    (requestHeader id code payloadSize).length = requestHeaderSize := by
  simp [requestHeader, id.property, requestHeaderSize, headerSize]

theorem unpack_requestHeader (id : ClientId) (code payloadSize : ℕ) (rest : Bytes)
    (hcode : code < 256 ^ 2) (hsize : payloadSize < 256 ^ 4) :
    RequestHeader.unpack (requestHeader id code payloadSize ++ rest) =
      some ⟨id, clientVersion, code, payloadSize⟩ := by
  have hid : slice (requestHeader id code payloadSize ++ rest) 0 clientIdSize = id.val := by
    simp only [requestHeader, List.append_assoc]
    exact slice_front id.val _ id.property
  have hfields : slice (requestHeader id code payloadSize ++ rest) clientIdSize headerSize =
      leBytes 1 clientVersion ++ (leBytes 2 code ++ leBytes 4 payloadSize) := by
    simp only [requestHeader, List.append_assoc]
    have hlen : (leBytes 1 clientVersion ++ (leBytes 2 code ++ leBytes 4 payloadSize)).length =
        headerSize := by simp [headerSize]
    have h := slice_middle id.val _ rest id.property hlen
    simpa only [List.append_assoc] using h
  have hversion := slice_front _ (leBytes 2 code ++ leBytes 4 payloadSize)
    (length_leBytes 1 clientVersion)
  have hcode' := slice_middle _ _ (leBytes 4 payloadSize) (length_leBytes 1 clientVersion)
    (length_leBytes 2 code)
  have hthree : (leBytes 1 clientVersion ++ leBytes 2 code).length = 3 := by simp
  have hsize' := slice_middle _ _ [] hthree (length_leBytes 4 payloadSize)
  rw [List.append_nil, List.append_assoc] at hsize'
  have hlen : (leBytes 1 clientVersion ++ (leBytes 2 code ++ leBytes 4 payloadSize)).length =
      headerSize := by simp [headerSize]
  rw [RequestHeader.unpack, hid, hfields, exactly_field,
    exactly_eq_some (b := ⟨_, hlen⟩) |>.mpr rfl]
  simp only [Option.bind_eq_bind, Option.bind_some, Option.pure_def, hversion, hcode', hsize']
  rw [leValue_leBytes_of_lt (by decide), leValue_leBytes_of_lt hcode,
    leValue_leBytes_of_lt hsize]

theorem slice_payload (id : ClientId) (code payloadSize : ℕ) (before field rest : Bytes)
    {off len : ℕ} (hoff : requestHeaderSize + before.length = off) (hlen : field.length = len) :
    slice (requestHeader id code payloadSize ++ before ++ field ++ rest) off len = field := by
  have hfront : (requestHeader id code payloadSize ++ before).length = off := by
    simpa using hoff
  have h := slice_middle _ field rest hfront hlen
  simpa only [List.append_assoc] using h

/-- A name comes back as the text of its field, which is the name itself if it is a
`WireName` (`fieldText_padded`). -/
theorem unpack_registrationRequest (name rest : Bytes) :
    RegistrationRequest.unpack (registrationRequestMessage name ++ rest) =
      (fieldText (clientName name)).map fun text =>
        ⟨⟨emptyId, clientVersion, requestRegistration, clientNameSize⟩, text⟩ := by
  have hheader := unpack_requestHeader emptyId requestRegistration clientNameSize
    (clientName name ++ rest) (by decide) (by decide)
  have hfield : (clientName name).length = clientNameSize := length_padded _ _
  have hslice := slice_payload emptyId requestRegistration clientNameSize [] (clientName name)
    rest rfl hfield
  rw [List.append_nil, List.length_nil, Nat.add_zero] at hslice
  rw [← List.append_assoc] at hheader
  rw [RegistrationRequest.unpack, registrationRequestMessage, hheader, hslice]
  have hname' : exactly clientNameSize (clientName name) = some ⟨clientName name, hfield⟩ :=
    exactly_eq_some.mpr rfl
  rw [hname']
  cases htext : fieldText (clientName name) <;> simp [htext]

theorem unpack_publicKeyRequest (id : ClientId) (name : Bytes) (key : Field publicKeySize)
    (rest : Bytes) :
    PublicKeyRequest.unpack (publicKeyRequestMessage id name key ++ rest) =
      (fieldText (clientName name)).map fun text =>
        ⟨⟨id, clientVersion, requestPublicKey, clientNameSize + publicKeySize⟩, text, key⟩ := by
  have hheader := unpack_requestHeader id requestPublicKey (clientNameSize + publicKeySize)
    (clientName name ++ key.val ++ rest) (by decide) (by decide)
  have hfield : (clientName name).length = clientNameSize := length_padded _ _
  have hslice := slice_payload id requestPublicKey (clientNameSize + publicKeySize) []
    (clientName name) (key.val ++ rest) rfl hfield
  have hkey := slice_payload id requestPublicKey (clientNameSize + publicKeySize)
    (clientName name) key.val rest rfl key.property
  rw [hfield] at hkey
  simp only [List.append_nil, List.length_nil, Nat.add_zero, ← List.append_assoc] at hslice hheader
  have hname' : exactly clientNameSize (clientName name) = some ⟨clientName name, hfield⟩ :=
    exactly_eq_some.mpr rfl
  rw [PublicKeyRequest.unpack, publicKeyRequestMessage, hheader, hslice, hname']
  simp only [Option.bind_eq_bind, Option.bind_some, hkey, exactly_field]
  cases fieldText (clientName name) <;> rfl

theorem unpack_crcStatusRequest {code : ℕ} (id : ClientId) (name rest : Bytes)
    (hcode : code < 256 ^ 2) :
    CrcStatusRequest.unpack (crcStatusRequestMessage code id (nameField name) ++ rest) =
      (fieldText (nameField name).val).map fun text =>
        ⟨⟨id, clientVersion, code, clientIdSize + fileNameSize⟩, id, text⟩ := by
  have hheader := unpack_requestHeader id code (clientIdSize + fileNameSize)
    (id.val ++ (nameField name).val ++ rest) hcode (by decide)
  have hid := slice_payload id code (clientIdSize + fileNameSize) [] id.val
    ((nameField name).val ++ rest) rfl id.property
  have hfield := slice_payload id code (clientIdSize + fileNameSize) id.val (nameField name).val
    rest rfl (nameField name).property
  rw [id.property] at hfield
  simp only [List.append_nil, List.length_nil, Nat.add_zero, ← List.append_assoc] at hid hheader
  rw [CrcStatusRequest.unpack, crcStatusRequestMessage, hheader, hid, exactly_field id]
  simp only [Option.bind_eq_bind, Option.bind_some, hfield, exactly_field]
  cases fieldText (nameField name).val <;> rfl

section SendFile

/-- How many bytes the first packet must hold behind the file name. -/
def firstRead (n : ℕ) : ℕ :=
  if n > packetSize then packetSize - (requestHeaderSize + 4 + fileNameSize) else n

def sendFileFront (id : ClientId) (contentSize : ℕ) (name : Bytes) (n : ℕ) : Bytes :=
  requestHeader id requestToSendFile (4 + fileNameSize + n) ++ leBytes 4 contentSize ++
    (nameField name).val

theorem requestToSendFileMessage_eq (id : ClientId) (contentSize : ℕ) (name encrypted : Bytes) :
    requestToSendFileMessage id contentSize (nameField name) encrypted =
      sendFileFront id contentSize name encrypted.length ++ encrypted := rfl

@[simp] theorem length_sendFileFront (id : ClientId) (contentSize : ℕ) (name : Bytes) (n : ℕ) :
    (sendFileFront id contentSize name n).length = 282 := by
  simp [sendFileFront, (nameField name).property, requestHeaderSize, clientIdSize, headerSize,
    fileNameSize]

def sendFileHeader (id : ClientId) (n : ℕ) : RequestHeader :=
  ⟨id, clientVersion, requestToSendFile, 4 + fileNameSize + n⟩

/-- The first packet is accepted exactly when its name is a text and it holds what
`firstRead` asks for. -/
theorem begin_sendFile (id : ClientId) {contentSize : ℕ} (name : Bytes) {n : ℕ}
    (content : Bytes) (hsize : contentSize < 256 ^ 4) (hn : 4 + fileNameSize + n < 256 ^ 4) :
    RequestToSendFile.begin (sendFileFront id contentSize name n ++ content) =
      (fieldText (nameField name).val).bind fun text =>
      if firstRead n ≤ content.length then
        some {
          header := sendFileHeader id n, contentSize, fileName := text
          packetSize := 282 + content.length, encryptedContentSize := n
          bytesRead := firstRead n, fileContent := content.take (firstRead n) }
      else none := by
  have hheader := unpack_requestHeader id requestToSendFile (4 + fileNameSize + n)
    (leBytes 4 contentSize ++ (nameField name).val ++ content) (by decide) hn
  have hcs := slice_payload id requestToSendFile (4 + fileNameSize + n) []
    (leBytes 4 contentSize) ((nameField name).val ++ content) rfl (length_leBytes 4 contentSize)
  have hfield := slice_payload id requestToSendFile (4 + fileNameSize + n)
    (leBytes 4 contentSize) (nameField name).val content rfl (nameField name).property
  rw [length_leBytes] at hfield
  have hcontent : slice (sendFileFront id contentSize name n ++ content)
      (requestHeaderSize + 4 + fileNameSize) (firstRead n) = content.take (firstRead n) := by
    have hl : (sendFileFront id contentSize name n).length =
        requestHeaderSize + 4 + fileNameSize := length_sendFileFront ..
    rw [slice, ← hl, List.drop_left]
  simp only [List.append_nil, List.length_nil, Nat.add_zero, ← List.append_assoc] at hheader hcs
  have hdiff : 4 + fileNameSize + n - fileNameSize - 4 = n := by omega
  have hlen : (sendFileFront id contentSize name n ++ content).length = 282 + content.length := by
    simp
  have hvalue : leValue (leBytes 4 contentSize) = contentSize := leValue_leBytes_of_lt hsize
  unfold RequestToSendFile.begin
  rw [hlen]
  simp only [sendFileFront] at hcontent ⊢
  rw [hheader, hcs, hfield, exactly_field (nameField name),
    exactly_eq_some (b := ⟨_, length_leBytes 4 contentSize⟩) |>.mpr rfl]
  simp only [Option.bind_eq_bind, Option.bind_some, Option.pure_def]
  cases fieldText (nameField name).val with
  | none => rfl
  | some text => ?_
  simp only [Option.bind_some]
  -- the size is an index of the content field, so it is replaced everywhere at once
  generalize 4 + fileNameSize + n - fileNameSize - 4 = k at hdiff ⊢
  obtain rfl := hdiff.symm
  rw [← firstRead, hcontent]
  have hguard : fileNameSize + 4 ≤ 4 + fileNameSize + n := by omega
  simp only [guard, hguard, if_true, Option.pure_def, Option.bind_some, hvalue]
  split_ifs with h
  · have hl : (content.take (firstRead n)).length = firstRead n := by simpa using h
    rw [exactly_eq_some (b := ⟨_, hl⟩) |>.mpr rfl]
    rfl
  · have hl : (content.take (firstRead n)).length ≠ firstRead n := by
      simp only [List.length_take]
      omega
    rw [exactly_eq_none.mpr hl]
    rfl

theorem begin_sendFileFront (id : ClientId) {contentSize : ℕ} {name : Bytes} {n : ℕ}
    (content : Bytes) (hsize : contentSize < 256 ^ 4) (hname : WireName name)
    (hn : 4 + fileNameSize + n < 256 ^ 4) :
    RequestToSendFile.begin (sendFileFront id contentSize name n ++ content) =
      if firstRead n ≤ content.length then
        some {
          header := sendFileHeader id n, contentSize, fileName := name
          packetSize := 282 + content.length, encryptedContentSize := n
          bytesRead := firstRead n, fileContent := content.take (firstRead n) }
      else none := by
  have htext : fieldText (nameField name).val = some name := fieldText_padded hname
  rw [begin_sendFile id name content hsize hn, htext, Option.bind_some]

end SendFile

end MessageRoundTrip
