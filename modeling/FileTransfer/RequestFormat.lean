import FileTransfer.FileProvenance
import FileTransfer.FileReceiveLoop
import FileTransfer.PacketFormat
import FileTransfer.RequestAnswers

/-! # The requests that are taken

The parsers of `protocol.py` as one format. The fields of a request give its text, up to what
stands behind the zero of its name and behind its last field, and no other text is taken for it. -/
namespace RequestFormat

open ByteField ServerProtocol ServerState ServerHandlers ServerThread PacketFormat
open PacketFormat.Format (field ofOption parse_field)
open MessageRoundTrip (firstRead)
open RequestAnswers (codeOf)

section Formats

def header : Format RequestHeader := do
  let clientID ← field clientIdSize
  let headerData ← field headerSize
  return {
    clientID := clientID
    version := leValue (slice headerData.val 0 1)
    code := leValue (slice headerData.val 1 2)
    payloadSize := leValue (slice headerData.val 3 4) }

def text (n : ℕ) : Format Text := do
  let data ← field n
  ofOption (fieldText data.val)

def registration (header : RequestHeader) : Format Request := do
  let name ← text clientNameSize
  return .registration { header, name }

def publicKey (header : RequestHeader) : Format Request := do
  let clientName ← text clientNameSize
  let publicKey ← field publicKeySize
  return .publicKey { header, clientName, publicKey }

def crcStatus (kind : CrcStatusRequest → Request) (header : RequestHeader) : Format Request := do
  let clientID ← field clientIdSize
  let fileName ← text fileNameSize
  return kind { header, clientID, fileName }

def sendFile (header : RequestHeader) : Format Request := do
  let contentSize ← field 4
  let fileName ← text fileNameSize
  let size := header.payloadSize - (fileNameSize + 4)
  ofOption (guard (fileNameSize + 4 ≤ header.payloadSize ∧ size ≤ packetSize))
  let fileContent ← field size
  return .sendFile
    { header, contentSize := leValue contentSize.val, fileName, fileContent := fileContent.val }

def payload (header : RequestHeader) : Format Request :=
  if header.code = requestRegistration then registration header
  else if header.code = requestPublicKey then publicKey header
  else if header.code = requestToSendFile then sendFile header
  else if header.code = requestCrcValid then crcStatus .crcValid header
  else if header.code = invalidCrcResendRequest then crcStatus .crcResend header
  else if header.code = invalidCrcAbort then crcStatus .crcAbort header
  else ofOption none

def request : Format Request := do
  payload (← header)

end Formats

section Parsers

variable {data : Bytes} {q : Request}

theorem parse_header (data : Bytes) : header.parse data =
    (RequestHeader.unpack data).map fun h => (h, data.drop requestHeaderSize) := by
  have hid := parse_field data 0 clientIdSize
  rw [List.drop_zero, Nat.zero_add] at hid
  simp only [header, Format.parse_bind, hid, RequestHeader.unpack, Option.bind_eq_bind]
  cases exactly clientIdSize (slice data 0 clientIdSize) with
  | none => rfl
  | some clientID =>
    simp only [Option.map_some, Option.bind_some, parse_field]
    cases exactly headerSize (slice data clientIdSize headerSize) <;> rfl

theorem parse_text (data : Bytes) (off n : ℕ) : (text n).parse (data.drop off) =
    ((exactly n (slice data off n)).bind fun b => fieldText b.val).map
      fun name => (name, data.drop (off + n)) := by
  simp only [text, Format.parse_bind, parse_field]
  cases exactly n (slice data off n) <;> rfl

variable {h : RequestHeader} (hheader : RequestHeader.unpack data = some h)

include hheader

theorem parse_registration :
    ((registration h).parse (data.drop requestHeaderSize)).map Prod.fst =
      (RegistrationRequest.unpack data).map .registration := by
  simp only [registration, Format.parse_bind, parse_text, RegistrationRequest.unpack, hheader,
    Option.bind_eq_bind, Option.bind_some]
  cases exactly clientNameSize (slice data requestHeaderSize clientNameSize) with
  | none => rfl
  | some nameData =>
    simp only [Option.bind_some]
    cases fieldText nameData.val <;> rfl

theorem parse_publicKey :
    ((publicKey h).parse (data.drop requestHeaderSize)).map Prod.fst =
      (PublicKeyRequest.unpack data).map .publicKey := by
  simp only [publicKey, Format.parse_bind, parse_text, PublicKeyRequest.unpack, hheader,
    Option.bind_eq_bind, Option.bind_some]
  cases exactly clientNameSize (slice data requestHeaderSize clientNameSize) with
  | none => rfl
  | some nameData =>
    simp only [Option.bind_some]
    cases fieldText nameData.val with
    | none => rfl
    | some name =>
      simp only [Option.map_some, Option.bind_some, parse_field]
      cases exactly publicKeySize
          (slice data (requestHeaderSize + clientNameSize) publicKeySize) <;>
        rfl

theorem parse_crcStatus (kind : CrcStatusRequest → Request) :
    ((crcStatus kind h).parse (data.drop requestHeaderSize)).map Prod.fst =
      (CrcStatusRequest.unpack data).map kind := by
  simp only [crcStatus, Format.parse_bind, parse_field, CrcStatusRequest.unpack, hheader,
    Option.bind_eq_bind, Option.bind_some]
  cases exactly clientIdSize (slice data requestHeaderSize clientIdSize) with
  | none => rfl
  | some clientID =>
    simp only [Option.map_some, Option.bind_some, parse_text]
    cases exactly fileNameSize (slice data (requestHeaderSize + clientIdSize) fileNameSize) with
    | none => rfl
    | some nameData =>
      simp only [Option.bind_some]
      cases fieldText nameData.val <;> rfl

theorem parse_sendFile : ((sendFile h).parse (data.drop requestHeaderSize)).map Prod.fst =
    (RequestToSendFile.begin data).bind fun p =>
      if p.complete then some (.sendFile p.request) else none := by
  simp only [sendFile, Format.parse_bind, parse_field, RequestToSendFile.begin, hheader,
    Option.bind_eq_bind, Option.bind_some]
  cases exactly 4 (slice data requestHeaderSize 4) with
  | none => rfl
  | some contentSize =>
    simp only [Option.map_some, Option.bind_some, parse_text]
    cases exactly fileNameSize (slice data (requestHeaderSize + 4) fileNameSize) with
    | none => rfl
    | some nameData =>
      simp only [Option.bind_some]
      cases fieldText nameData.val with
      | none => rfl
      | some name =>
        simp only [Option.map_some, Option.bind_some, Format.parse_ofOption]
        generalize hread : (if h.payloadSize - fileNameSize - 4 > packetSize then
          packetSize - (requestHeaderSize + 4 + fileNameSize)
          else h.payloadSize - fileNameSize - 4) = bytesRead
        by_cases hsize : fileNameSize + 4 ≤ h.payloadSize
        · rw [guard, guard, if_pos hsize]
          by_cases hfits : h.payloadSize - (fileNameSize + 4) ≤ packetSize
          · have hshort : ¬h.payloadSize - fileNameSize - 4 > packetSize := by
              rw [Nat.sub_sub]
              exact Nat.not_lt.2 hfits
            rw [if_neg hshort, Nat.sub_sub] at hread
            subst hread
            rw [if_pos ⟨hsize, hfits⟩]
            simp only [Option.pure_def, Option.map_some, Option.bind_some, parse_field]
            cases exactly (h.payloadSize - (fileNameSize + 4)) _ with
            | none => rfl
            | some content => simp [PartialFile.complete, PartialFile.request, Nat.sub_sub]
          · -- the first packet holds less than such a file
            rw [if_neg (fun hc => hfits hc.2)]
            have hlong : h.payloadSize - fileNameSize - 4 > packetSize := by
              rw [Nat.sub_sub]
              exact Nat.lt_of_not_le hfits
            rw [if_pos hlong] at hread
            cases exactly bytesRead
                (slice data (requestHeaderSize + 4 + fileNameSize) bytesRead) with
            | none => rfl
            | some content =>
              have hshort : bytesRead < h.payloadSize - fileNameSize - 4 := by omega
              simp [PartialFile.complete, Nat.not_le.2 hshort]
        · rw [guard, if_neg (fun hc => hsize hc.1), guard, if_neg hsize]
          rfl

theorem parse_payload : ((payload h).parse (data.drop requestHeaderSize)).map Prod.fst =
    if h.code = requestToSendFile then (RequestToSendFile.begin data).bind fun p =>
      if p.complete then some (.sendFile p.request) else none
    else parsedRequest h.code data := by
  unfold payload parsedRequest
  by_cases hregistration : h.code = requestRegistration
  · rw [if_pos hregistration, if_pos hregistration, if_neg (by rw [hregistration]; decide)]
    exact parse_registration hheader
  rw [if_neg hregistration, if_neg hregistration]
  by_cases hkey : h.code = requestPublicKey
  · rw [if_pos hkey, if_pos hkey, if_neg (by rw [hkey]; decide)]
    exact parse_publicKey hheader
  rw [if_neg hkey, if_neg hkey]
  by_cases hfile : h.code = requestToSendFile
  · rw [if_pos hfile, if_pos hfile]
    exact parse_sendFile hheader
  rw [if_neg hfile, if_neg hfile]
  by_cases hvalid : h.code = requestCrcValid
  · rw [if_pos hvalid, if_pos hvalid]
    exact parse_crcStatus hheader _
  rw [if_neg hvalid, if_neg hvalid]
  by_cases hresend : h.code = invalidCrcResendRequest
  · rw [if_pos hresend, if_pos hresend]
    exact parse_crcStatus hheader _
  rw [if_neg hresend, if_neg hresend]
  by_cases habort : h.code = invalidCrcAbort
  · rw [if_pos habort, if_pos habort]
    exact parse_crcStatus hheader _
  · rw [if_neg habort, if_neg habort]
    rfl

omit hheader

/-- What the read thread takes for a request is what the format parses. -/
theorem ofData_parse : Received.ofData data = .parsed q ↔
    (request.parse data).map Prod.fst = some q := by
  rw [Received.ofData, request, Format.parse_bind, parse_header]
  cases hheader : RequestHeader.unpack data with
  | none =>
    constructor
    · intro habsurd
      cases habsurd
    · intro habsurd
      cases habsurd
  | some h =>
    simp only [Option.map_some, Option.bind_some]
    rw [parse_payload hheader]
    by_cases hfile : h.code = requestToSendFile
    · rw [if_pos hfile, if_pos hfile]
      cases hbegin : RequestToSendFile.begin data with
      | none =>
        constructor
        · intro habsurd
          cases habsurd
        · intro habsurd
          cases habsurd
      | some p =>
        simp only [Received.ofFile, Option.bind_some]
        by_cases hcomplete : p.complete = true
        · simp [hcomplete]
        · simp [hcomplete]
    · rw [if_neg hfile, if_neg hfile]
      cases hparsed : parsedRequest h.code data with
      | none =>
        constructor
        · intro habsurd
          cases habsurd
        · intro habsurd
          cases habsurd
      | some q' => simp [Received.ofParsed]

end Parsers

section Texts

def headerBytes (h : RequestHeader) : Bytes :=
  h.clientID.val ++ (leBytes 1 h.version ++ leBytes 2 h.code ++ leBytes 4 h.payloadSize)

def payloadBytes (tail : Bytes) : Request → Bytes
  | .registration q => q.name ++ tail
  | .publicKey q => q.clientName ++ tail ++ q.publicKey.val
  | .sendFile q => leBytes 4 q.contentSize ++ (q.fileName ++ tail ++ q.fileContent)
  | .crcValid q => q.clientID.val ++ (q.fileName ++ tail)
  | .crcResend q => q.clientID.val ++ (q.fileName ++ tail)
  | .crcAbort q => q.clientID.val ++ (q.fileName ++ tail)

def pack (tail : Bytes) (q : Request) : Bytes := headerBytes q.header ++ payloadBytes tail q

def name : Request → Text
  | .registration q => q.name
  | .publicKey q => q.clientName
  | .sendFile q => q.fileName
  | .crcValid q => q.fileName
  | .crcResend q => q.fileName
  | .crcAbort q => q.fileName

/-- A name and what may stand behind it in its field. -/
structure Spells (n : ℕ) (name tail : Bytes) : Prop where
  valid : utf8Valid name = true
  nulFree : (0 : UInt8) ∉ name
  fills : (name ++ tail).length = n
  ends : tail = [] ∨ tail.head? = some 0

def SizesFit : Request → Prop
  | .sendFile q => q.contentSize < 256 ^ 4 ∧
    q.header.payloadSize = fileNameSize + 4 + q.fileContent.length
  | _ => True

/-- A request that some text stands for. -/
structure Formed (q : Request) (tail : Bytes) : Prop where
  version : q.header.version < 256
  code : q.header.code = codeOf q
  payloadSize : q.header.payloadSize < 256 ^ 4
  name : Spells fileNameSize (name q) tail
  sizes : SizesFit q

def FitsPacket : Request → Prop
  | .sendFile q => q.fileContent.length ≤ packetSize
  | _ => True

theorem leBytes_leValue {bs : Bytes} {w : ℕ} (h : bs.length = w) : leBytes w (leValue bs) = bs := by
  subst h
  induction bs with
  | nil => rfl
  | cons b bs ih =>
    have hlow : UInt8.ofNat (b.toNat + 256 * leValue bs) = b := by
      apply UInt8.toNat_inj.1
      simp
    have hhigh : (b.toNat + 256 * leValue bs) / 256 = leValue bs := by
      have hb := b.toNat_lt
      omega
    rw [List.length_cons, leValue, leBytes, hlow, hhigh, ih]

theorem leValue_field_lt {bs : Bytes} {w : ℕ} (h : bs.length = w) : leValue bs < 256 ^ w :=
  h ▸ leValue_lt bs

theorem take_slice (data : Bytes) (off len : ℕ) :
    data.take off ++ slice data off len = data.take (off + len) := List.take_add.symm

theorem fieldText_iff {field name : Bytes} : fieldText field = some name ↔
    ∃ tail, field = name ++ tail ∧ Spells field.length name tail := by
  rw [fieldText, decodeUtf8_eq_some]
  constructor
  · rintro ⟨hvalid, rfl⟩
    refine ⟨field.dropWhile (· ≠ 0), (List.takeWhile_append_dropWhile ..).symm, hvalid,
      untilNul_nulFree field, ?_, ?_⟩
    · rw [untilNul, List.takeWhile_append_dropWhile]
    · cases hrest : field.dropWhile (· ≠ 0) with
      | nil => exact .inl rfl
      | cons b rest =>
        have hhead := List.head?_dropWhile_not (fun b : UInt8 => decide (b ≠ 0)) field
        rw [hrest] at hhead
        simpa using hhead
  · rintro ⟨tail, hfield, h⟩
    have hname : untilNul field = name := by
      have hall : ∀ b ∈ name, decide (b ≠ 0) = true := by
        intro b hb
        simpa using ne_of_mem_of_not_mem hb h.nulFree
      rw [hfield, untilNul, List.takeWhile_append_of_pos hall]
      rcases h.ends with rfl | hend
      · simp
      · cases tail with
        | nil => cases hend
        | cons b tail =>
          cases hend
          simp
    rw [hname]
    exact ⟨h.valid, rfl⟩

theorem writes_text {n : ℕ} {name bs : Bytes} : (text n).Writes name bs ↔
    ∃ tail, bs = name ++ tail ∧ Spells n name tail := by
  simp only [text, Format.writes_bind, Format.writes_field, Format.writes_ofOption]
  constructor
  · rintro ⟨data, x, y, rfl, ⟨htext, rfl⟩, rfl⟩
    obtain ⟨tail, hdata, hspells⟩ := fieldText_iff.1 htext
    rw [data.property] at hspells
    exact ⟨tail, by rw [List.append_nil, hdata], hspells⟩
  · rintro ⟨tail, rfl, hspells⟩
    refine ⟨⟨name ++ tail, hspells.fills⟩, _, [], rfl, ⟨fieldText_iff.2 ⟨tail, rfl, ?_⟩, rfl⟩,
      (List.append_nil _).symm⟩
    rw [hspells.fills]
    exact hspells

theorem writes_header {h : RequestHeader} {bs : Bytes} : header.Writes h bs ↔
    bs = headerBytes h ∧ h.version < 256 ∧ h.code < 256 ^ 2 ∧ h.payloadSize < 256 ^ 4 := by
  simp only [header, Format.writes_bind, Format.writes_field, Format.writes_pure]
  constructor
  · rintro ⟨clientID, x, y, rfl, ⟨data, x', y', rfl, ⟨rfl, rfl⟩, rfl⟩, rfl⟩
    have hlength : data.val.length = 7 := data.property
    have hversion : (slice data.val 0 1).length = 1 := by simp [length_slice, hlength]
    have hcode : (slice data.val 1 2).length = 2 := by simp [length_slice, hlength]
    have hsize : (slice data.val 3 4).length = 4 := by simp [length_slice, hlength]
    have hsplit : slice data.val 0 1 ++ slice data.val 1 2 ++ slice data.val 3 4 = data.val := by
      rw [show slice data.val 0 1 = data.val.take 1 from rfl, take_slice, take_slice]
      exact List.take_of_length_le (Nat.le_of_eq hlength)
    refine ⟨?_, leValue_field_lt hversion, leValue_field_lt hcode, leValue_field_lt hsize⟩
    rw [headerBytes, leBytes_leValue hversion, leBytes_leValue hcode, leBytes_leValue hsize,
      hsplit, List.append_nil]
  · rintro ⟨rfl, hversion, hcode, hsize⟩
    have hlength : (leBytes 1 h.version ++ leBytes 2 h.code ++ leBytes 4 h.payloadSize).length =
        headerSize := by
      simp [headerSize]
    refine ⟨h.clientID, _, _, rfl, ⟨⟨_, hlength⟩, _, [], rfl, ⟨?_, rfl⟩, rfl⟩, by
      rw [headerBytes, List.append_nil]⟩
    have hfirst := slice_front (leBytes 1 h.version) (leBytes 2 h.code ++ leBytes 4 h.payloadSize)
      (length_leBytes 1 _)
    have hmiddle := slice_middle (leBytes 1 h.version) (leBytes 2 h.code)
      (leBytes 4 h.payloadSize) (length_leBytes 1 _) (length_leBytes 2 _)
    have hlast : slice _ 3 4 = _ := slice_middle (leBytes 1 h.version ++ leBytes 2 h.code)
      (leBytes 4 h.payloadSize) [] (by simp) (length_leBytes 4 _)
    rw [List.append_nil] at hlast
    simp only [List.append_assoc] at hfirst hmiddle hlast ⊢
    rw [hfirst, hmiddle, hlast, leValue_leBytes_of_lt hversion, leValue_leBytes_of_lt hcode,
      leValue_leBytes_of_lt hsize]

variable {h : RequestHeader} {q : Request} {bs : Bytes}

theorem writes_registration : (registration h).Writes q bs ↔ ∃ name tail,
    q = .registration ⟨h, name⟩ ∧ Spells clientNameSize name tail ∧ bs = name ++ tail := by
  simp only [registration, Format.writes_bind, Format.writes_pure, writes_text]
  constructor
  · rintro ⟨name, x, y, ⟨tail, rfl, hspells⟩, ⟨rfl, rfl⟩, rfl⟩
    exact ⟨name, tail, rfl, hspells, List.append_nil _⟩
  · rintro ⟨name, tail, rfl, hspells, rfl⟩
    exact ⟨name, _, [], ⟨tail, rfl, hspells⟩, ⟨rfl, rfl⟩, (List.append_nil _).symm⟩

theorem writes_publicKey : (publicKey h).Writes q bs ↔ ∃ name tail key,
    q = .publicKey ⟨h, name, key⟩ ∧ Spells clientNameSize name tail ∧
      bs = name ++ tail ++ key.val := by
  simp only [publicKey, Format.writes_bind, Format.writes_pure, Format.writes_field, writes_text]
  constructor
  · rintro ⟨name, x, y, ⟨tail, rfl, hspells⟩, ⟨key, _, _, rfl, ⟨rfl, rfl⟩, rfl⟩, rfl⟩
    exact ⟨name, tail, key, rfl, hspells, by rw [List.append_nil]⟩
  · rintro ⟨name, tail, key, rfl, hspells, rfl⟩
    exact ⟨name, _, key.val, ⟨tail, rfl, hspells⟩, ⟨key, _, [], rfl, ⟨rfl, rfl⟩,
      (List.append_nil _).symm⟩, rfl⟩

theorem writes_crcStatus {kind : CrcStatusRequest → Request} : (crcStatus kind h).Writes q bs ↔
    ∃ id name tail, q = kind ⟨h, id, name⟩ ∧ Spells fileNameSize name tail ∧
      bs = id.val ++ (name ++ tail) := by
  simp only [crcStatus, Format.writes_bind, Format.writes_pure, Format.writes_field, writes_text]
  constructor
  · rintro ⟨id, x, y, rfl, ⟨name, _, _, ⟨tail, rfl, hspells⟩, ⟨rfl, rfl⟩, rfl⟩, rfl⟩
    exact ⟨id, name, tail, rfl, hspells, by rw [List.append_nil]⟩
  · rintro ⟨id, name, tail, rfl, hspells, rfl⟩
    exact ⟨id, id.val, name ++ tail, rfl, ⟨name, _, [], ⟨tail, rfl, hspells⟩, ⟨rfl, rfl⟩,
      (List.append_nil _).symm⟩, rfl⟩

theorem writes_sendFile : (sendFile h).Writes q bs ↔ ∃ size name tail content,
    q = .sendFile ⟨h, size, name, content⟩ ∧ size < 256 ^ 4 ∧
      h.payloadSize = fileNameSize + 4 + content.length ∧ content.length ≤ packetSize ∧
      Spells fileNameSize name tail ∧ bs = leBytes 4 size ++ (name ++ tail ++ content) := by
  simp only [sendFile, Format.writes_bind, Format.writes_pure, Format.writes_field,
    Format.writes_ofOption, writes_text]
  constructor
  · rintro ⟨size, x, y, rfl, ⟨name, _, _, ⟨tail, rfl, hspells⟩, ⟨_, _, _, ⟨hguard, rfl⟩,
      ⟨content, _, _, rfl, ⟨rfl, rfl⟩, rfl⟩, rfl⟩, rfl⟩, rfl⟩
    obtain ⟨hsize, hfits⟩ := (Option.guard_eq_some' ()).1 hguard
    refine ⟨leValue size.val, name, tail, content.val, rfl, leValue_field_lt size.property, ?_, ?_,
      hspells, ?_⟩
    · rw [content.property]
      omega
    · rw [content.property]
      exact hfits
    · rw [leBytes_leValue size.property, List.append_nil, List.nil_append]
  · rintro ⟨size, name, tail, content, rfl, hsize, hpayload, hfits, hspells, rfl⟩
    have hlength : content.length = h.payloadSize - (fileNameSize + 4) := by omega
    refine ⟨⟨leBytes 4 size, length_leBytes 4 size⟩, _, _, rfl, ⟨name, _, _, ⟨tail, rfl, hspells⟩,
      ⟨(), [], content, ⟨(Option.guard_eq_some' ()).2 ⟨by omega, hlength ▸ hfits⟩, rfl⟩,
        ⟨⟨content, hlength⟩, _, [], rfl, ⟨?_, rfl⟩, (List.append_nil _).symm⟩, rfl⟩, rfl⟩, rfl⟩
    rw [leValue_leBytes_of_lt hsize]

structure Carries (h : RequestHeader) (q : Request) (tail bs : Bytes) : Prop where
  header : q.header = h
  code : h.code = codeOf q
  name : Spells fileNameSize (name q) tail
  sizes : SizesFit q
  fits : FitsPacket q
  bytes : bs = payloadBytes tail q

theorem carries_crcStatus {kind : CrcStatusRequest → Request}
    (hkind : kind = .crcValid ∨ kind = .crcResend ∨ kind = .crcAbort)
    (hcode : ∀ q, h.code = codeOf (kind q)) (hwrites : (crcStatus kind h).Writes q bs) :
    ∃ tail, Carries h q tail bs := by
  obtain ⟨id, name, tail, rfl, hspells, hbytes⟩ := writes_crcStatus.1 hwrites
  refine ⟨tail, ?_⟩
  rcases hkind with rfl | rfl | rfl
  · exact ⟨rfl, hcode _, hspells, trivial, trivial, hbytes⟩
  · exact ⟨rfl, hcode _, hspells, trivial, trivial, hbytes⟩
  · exact ⟨rfl, hcode _, hspells, trivial, trivial, hbytes⟩

theorem carries_of_writes (hwrites : (payload h).Writes q bs) : ∃ tail, Carries h q tail bs := by
  unfold payload at hwrites
  split_ifs at hwrites with hregistration hkey hfile hvalid hresend habort
  · obtain ⟨name, tail, rfl, hspells, hbytes⟩ := writes_registration.1 hwrites
    exact ⟨tail, rfl, hregistration, hspells, trivial, trivial, hbytes⟩
  · obtain ⟨name, tail, key, rfl, hspells, hbytes⟩ := writes_publicKey.1 hwrites
    exact ⟨tail, rfl, hkey, hspells, trivial, trivial, hbytes⟩
  · obtain ⟨size, name, tail, content, rfl, hsize, hpayload, hfits, hspells, hbytes⟩ :=
      writes_sendFile.1 hwrites
    exact ⟨tail, rfl, hfile, hspells, ⟨hsize, hpayload⟩, hfits, hbytes⟩
  · exact carries_crcStatus (.inl rfl) (fun _ => hvalid) hwrites
  · exact carries_crcStatus (.inr (.inl rfl)) (fun _ => hresend) hwrites
  · exact carries_crcStatus (.inr (.inr rfl)) (fun _ => habort) hwrites
  · exact nomatch hwrites.1

def payloadOf (h : RequestHeader) : Request → Format Request
  | .registration _ => registration h
  | .publicKey _ => publicKey h
  | .sendFile _ => sendFile h
  | .crcValid _ => crcStatus .crcValid h
  | .crcResend _ => crcStatus .crcResend h
  | .crcAbort _ => crcStatus .crcAbort h

/-- The codes are different, so that each request has a format of its own. -/
theorem payload_code (hcode : h.code = codeOf q) : payload h = payloadOf h q := by
  rw [payload, hcode]
  cases q <;> rfl

theorem writes_of_carries {tail : Bytes} (hcarries : Carries h q tail bs) :
    (payload h).Writes q bs := by
  obtain ⟨rfl, hcode, hspells, hsizes, hfits, rfl⟩ := hcarries
  rw [payload_code hcode]
  cases q with
  | registration q => exact writes_registration.2 ⟨q.name, tail, rfl, hspells, rfl⟩
  | publicKey q => exact writes_publicKey.2 ⟨q.clientName, tail, q.publicKey, rfl, hspells, rfl⟩
  | sendFile q =>
    exact writes_sendFile.2 ⟨q.contentSize, q.fileName, tail, q.fileContent, rfl, hsizes.1,
      hsizes.2, hfits, hspells, rfl⟩
  | crcValid q => exact writes_crcStatus.2 ⟨q.clientID, q.fileName, tail, rfl, hspells, rfl⟩
  | crcResend q => exact writes_crcStatus.2 ⟨q.clientID, q.fileName, tail, rfl, hspells, rfl⟩
  | crcAbort q => exact writes_crcStatus.2 ⟨q.clientID, q.fileName, tail, rfl, hspells, rfl⟩

theorem codeOf_lt (q : Request) : codeOf q < 256 ^ 2 := by
  cases q <;> simp [codeOf, requestRegistration, requestPublicKey, requestToSendFile,
    requestCrcValid, invalidCrcResendRequest, invalidCrcAbort]

theorem writes_request : request.Writes q bs ↔
    ∃ tail, Formed q tail ∧ FitsPacket q ∧ bs = pack tail q := by
  simp only [request, Format.writes_bind, writes_header]
  constructor
  · rintro ⟨h, x, y, ⟨rfl, hversion, -, hsize⟩, hpayload, rfl⟩
    obtain ⟨tail, rfl, hcode, hspells, hsizes, hfits, rfl⟩ := carries_of_writes hpayload
    exact ⟨tail, ⟨hversion, hcode, hsize, hspells, hsizes⟩, hfits, rfl⟩
  · rintro ⟨tail, ⟨hversion, hcode, hsize, hspells, hsizes⟩, hfits, rfl⟩
    exact ⟨q.header, _, _, ⟨rfl, hversion, hcode ▸ codeOf_lt q, hsize⟩,
      writes_of_carries ⟨rfl, hcode, hspells, hsizes, hfits, rfl⟩, rfl⟩

/-- Main theorem: the packets that are taken for a request. -/
theorem packet_parsed_iff {data : Bytes} : Received.ofData data = .parsed q ↔
    ∃ tail rest, Formed q tail ∧ FitsPacket q ∧ data = pack tail q ++ rest := by
  rw [ofData_parse, Option.map_eq_some_iff]
  constructor
  · rintro ⟨⟨q', rest⟩, hparse, rfl⟩
    obtain ⟨front, hwrites, rfl⟩ := request.exact.1 hparse
    obtain ⟨tail, hformed, hfits, rfl⟩ := writes_request.1 hwrites
    exact ⟨tail, rest, hformed, hfits, rfl⟩
  · rintro ⟨tail, rest, hformed, hfits, rfl⟩
    exact ⟨(q, rest), request.exact.2 ⟨_, writes_request.2 ⟨tail, hformed, hfits, rfl⟩, rfl⟩, rfl⟩

end Texts

section Runs

open ServerSystem ServerEffects StepRun

variable {crypto : PyCrypto} {data : Bytes} {p : PartialFile} {q : Request}

structure Part (p : PartialFile) (tail : Bytes) : Prop where
  version : p.header.version < 256
  code : p.header.code = requestToSendFile
  payloadSize : p.header.payloadSize < 256 ^ 4
  contentSize : p.contentSize < 256 ^ 4
  name : Spells fileNameSize p.fileName tail
  declared : p.header.payloadSize = fileNameSize + 4 + p.encryptedContentSize
  read : p.fileContent.length = p.bytesRead
  room : p.bytesRead ≤ p.encryptedContentSize

theorem formed_complete {tail : Bytes} (h : Part p tail) (hcomplete : p.complete = true) :
    Formed (.sendFile p.request) tail := by
  have hall : p.encryptedContentSize ≤ p.bytesRead := of_decide_eq_true hcomplete
  have hlength : p.fileContent.length = p.encryptedContentSize :=
    h.read.trans (Nat.le_antisymm h.room hall)
  have hdeclared : p.header.payloadSize = fileNameSize + 4 + p.fileContent.length := by
    rw [hlength]
    exact h.declared
  exact ⟨h.version, h.code, h.payloadSize, h.name, h.contentSize, hdeclared⟩

theorem part_feed {tail : Bytes} (h : Part p tail) (data : Bytes) : Part (p.feed data) tail := by
  have hroom := h.room
  refine ⟨h.version, h.code, h.payloadSize, h.contentSize, h.name, h.declared, ?_, ?_⟩
  · simp only [PartialFile.feed, List.length_append, List.length_take, h.read]
    split <;> omega
  · show p.bytesRead + (if p.need < data.length then p.need else data.length) ≤
      p.encryptedContentSize
    have hneed : p.need = p.encryptedContentSize - p.bytesRead := rfl
    split <;> omega

theorem part_begin {h : RequestHeader} (hheader : RequestHeader.unpack data = some h)
    (hcode : h.code = requestToSendFile) (hbegin : RequestToSendFile.begin data = some p) :
    ∃ tail, Part p tail := by
  have hwrites : header.parse data = some (h, data.drop requestHeaderSize) := by
    rw [parse_header, hheader]
    rfl
  obtain ⟨front, hfront, -⟩ := header.exact.1 hwrites
  obtain ⟨-, hversion, -, hsize⟩ := writes_header.1 hfront
  unfold RequestToSendFile.begin at hbegin
  simp only [hheader, Option.bind_eq_bind, Option.bind_some] at hbegin
  obtain ⟨contentSize, -, hbegin⟩ := Option.bind_eq_some_iff.1 hbegin
  obtain ⟨nameData, -, hbegin⟩ := Option.bind_eq_some_iff.1 hbegin
  obtain ⟨fileName, hname, hbegin⟩ := Option.bind_eq_some_iff.1 hbegin
  obtain ⟨_, hguard, hbegin⟩ := Option.bind_eq_some_iff.1 hbegin
  generalize hread : (if h.payloadSize - fileNameSize - 4 > packetSize then
    packetSize - (requestHeaderSize + 4 + fileNameSize)
    else h.payloadSize - fileNameSize - 4) = bytesRead at hbegin
  obtain ⟨content, -, hbegin⟩ := Option.bind_eq_some_iff.1 hbegin
  cases hbegin
  obtain ⟨tail, -, hspells⟩ := fieldText_iff.1 hname
  rw [nameData.property] at hspells
  have hdeclared : fileNameSize + 4 ≤ h.payloadSize := (Option.guard_eq_some' ()).1 hguard
  refine ⟨tail, hversion, hcode, hsize, leValue_field_lt contentSize.property, hspells, ?_,
    content.property, ?_⟩
  · rw [Nat.sub_sub, Nat.add_sub_cancel' hdeclared]
  · rw [← firstRead] at hread
    have hroom := FileReceiveLoop.firstRead_le (h.payloadSize - fileNameSize - 4)
    rwa [hread] at hroom

def Holds : Received → Prop
  | .parsed q => ∃ tail, Formed q tail
  | .partly p => ∃ tail, Part p tail
  | _ => True

theorem holds_ofFile {tail : Bytes} (h : Part p tail) : Holds (.ofFile p) := by
  unfold Received.ofFile
  split
  · next hcomplete => exact ⟨tail, formed_complete h hcomplete⟩
  · exact ⟨tail, h⟩

theorem holds_ofData (data : Bytes) : Holds (.ofData data) := by
  cases hdata : Received.ofData data with
  | parsed q =>
    obtain ⟨tail, -, hformed, -⟩ := packet_parsed_iff.1 hdata
    exact ⟨tail, hformed⟩
  | partly p =>
    unfold Received.ofData at hdata
    split at hdata
    · cases hdata
    · next h hheader =>
      split at hdata
      · next hcode =>
        split at hdata
        · cases hdata
        · next p' hbegin =>
          unfold Received.ofFile at hdata
          split at hdata
          · cases hdata
          · cases hdata
            exact part_begin hheader hcode hbegin
      · unfold Received.ofParsed at hdata
        split at hdata <;> cases hdata
  | malformed refused => trivial
  | endOfStream => trivial
  | failure => trivial

def PartOf (control : Control) : Prop := ∀ p, control = .receiving p → ∃ tail, Part p tail

theorem holds_received {control : Control} (h : PartOf control) (r : RecvResult) :
    Holds (received control r) := by
  cases control with
  | receiving p =>
    obtain ⟨tail, hpart⟩ := h p rfl
    cases r with
    | raises => trivial
    | chunk data => exact holds_ofFile (part_feed hpart data)
  | _ =>
    cases r with
    | raises => trivial
    | chunk data =>
      cases data with
      | nil => trivial
      | cons b data => exact holds_ofData _

structure Parsed (p : System × History) : Prop where
  threads : ∀ c conn, p.1.thread c = some conn → PartOf conn.control
  history : ∀ d ∈ p.2, ∃ tail, Formed d.request tail

theorem partOf_settle {env : Env} (w : World) (handled : Option Request)
    (handler : ServerM Bool) : PartOf (settle env w handled handler).control := by
  intro p hp
  have hcontrol : controlAfter ((answer env handler).run (Turn.start w env)).1 = .receiving p := hp
  cases houtcome : ((answer env handler).run (Turn.start w env)).1 with
  | value b =>
    rw [houtcome] at hcontrol
    cases b <;> cases hcontrol
  | raised e =>
    rw [houtcome] at hcontrol
    cases hcontrol
  | hangs =>
    rw [houtcome] at hcontrol
    cases hcontrol

theorem partOf_react {env : Env} (w : World) {received : Received} (h : Holds received) :
    PartOf (react crypto env w received).control := by
  cases received with
  | parsed q => exact partOf_settle w _ _
  | malformed refused => exact partOf_settle w _ _
  | partly p =>
    intro p' hp'
    cases hp'
    exact h
  | endOfStream =>
    intro p' habsurd
    cases habsurd
  | failure =>
    intro p' habsurd
    cases habsurd

theorem partOf_finish {s : System} {c : ℕ} {conn : Connection} {out : ReadStep}
    (hthreads : ∀ d conn, s.thread d = some conn → PartOf conn.control)
    (hout : PartOf out.control) :
    ∀ d conn', (s.finish c conn out).thread d = some conn' → PartOf conn'.control := by
  intro d conn' hd
  by_cases hdc : d = c
  · subst hdc
    unfold System.finish at hd
    split at hd
    · cases (Function.update_self ..).symm.trans hd
      intro p' habsurd
      cases habsurd
    · cases (Function.update_self ..).symm.trans hd
      intro p' habsurd
      cases habsurd
    · cases (Function.update_self ..).symm.trans hd
      exact hout
  · rw [finish_other hdc] at hd
    exact hthreads d conn' hd

theorem step_parsed {p p' : System × History} {e : Event} (h : Parsed p)
    (hstep : HistoryStep crypto p e p') : Parsed p' := by
  obtain ⟨s, hs, rfl⟩ := Option.map_eq_some_iff.1 hstep
  cases e with
  | accept =>
    obtain ⟨-, rfl⟩ := step_accept hs
    exact ⟨h.threads, by simpa [completed] using h.history⟩
  | start =>
    obtain ⟨c, -, -, rfl⟩ := step_start hs
    refine ⟨?_, by simpa [completed] using h.history⟩
    intro d conn hd
    by_cases hdc : d = c
    · subst hdc
      cases (Function.update_self ..).symm.trans hd
      intro p' habsurd
      cases habsurd
    · exact h.threads d conn ((Function.update_of_ne hdc ..).symm.trans hd)
  | recv c r env =>
    obtain ⟨conn, hc, hawaits, rfl⟩ := step_recv hs
    have hholds := holds_received (h.threads c conn hc) r
    have hout := readStep_eq_react crypto env p.1.world hawaits r
    have hserved : p.1.served crypto c r env =
        some (readStep crypto env p.1.world conn.control r) := by
      rw [System.served, hc]
      exact if_pos hawaits
    refine ⟨partOf_finish h.threads (hout ▸ partOf_react p.1.world hholds), ?_⟩
    intro d hd
    rcases List.mem_append.1 hd with hd | hd
    · exact h.history d hd
    · rw [completed, hserved, Option.mem_toList] at hd
      obtain ⟨q, hq, rfl⟩ := Option.map_eq_some_iff.1 hd
      have hparsed := (readStep_handled_iff crypto env p.1.world hawaits).1 hq
      rwa [hparsed] at hholds

/-- Main theorem: every request that a handler is given in a run is one of the format. -/
theorem run_formed {w : World} {es : List Event} {p : System × History}
    (h : Run (HistoryStep crypto) (historyStart w) es p) :
    ∀ d ∈ p.2, ∃ tail, Formed d.request tail := by
  have hstart : Parsed (historyStart w) := ⟨nofun, nofun⟩
  exact (h.invariant hstart step_parsed).history

theorem run_formed_pieces : ∃ p, Run (HistoryStep .trivial)
      (historyStart (.boot World.withClient.db .empty .root .root))
      (FileProvenance.pieces ++ [FileProvenance.approves]) p ∧
    p.2.map (codeOf ·.request) = [requestToSendFile, requestCrcValid] ∧
    ∀ d ∈ p.2, ∃ tail, Formed d.request tail := by
  obtain ⟨p, hrun, hcodes, -⟩ := FileProvenance.pieces_saved
  exact ⟨p, hrun, hcodes, run_formed hrun⟩

end Runs

end RequestFormat
