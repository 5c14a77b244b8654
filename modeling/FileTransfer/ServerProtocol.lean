import FileTransfer.ByteField

/-! # Messages as the server reads and writes them

`protocol.py`: slice offsets and struct formats of the requests, the receive loop of a
file message, and the packed responses. -/
namespace ServerProtocol

open ByteField

def serverVersion : ℕ := 3
def clientIdSize : ℕ := 16
def clientNameSize : ℕ := 255
def publicKeySize : ℕ := 160
def symmetricKeySize : ℕ := 16
def fileNameSize : ℕ := 255
def headerSize : ℕ := 7
def packetSize : ℕ := 1024

abbrev ClientId := Field clientIdSize
/-- A decoded `str`, as its UTF-8 bytes. -/
abbrev Text := Bytes

def requestRegistration : ℕ := 1100
def requestPublicKey : ℕ := 1101
def requestToSendFile : ℕ := 1102
def requestCrcValid : ℕ := 1104
def invalidCrcResendRequest : ℕ := 1105
def invalidCrcAbort : ℕ := 1106

def fieldText (field : Bytes) : Option Text := decodeUtf8 (untilNul field)

structure RequestHeader where
  clientID : ClientId
  version : ℕ
  code : ℕ
  payloadSize : ℕ
  deriving DecidableEq

def requestHeaderSize : ℕ := clientIdSize + headerSize

def RequestHeader.unpack (data : Bytes) : Option RequestHeader := do
  let clientID ← exactly clientIdSize (slice data 0 clientIdSize)
  let headerData ← exactly headerSize (slice data clientIdSize headerSize)
  return {
    clientID := clientID
    version := leValue (slice headerData 0 1)
    code := leValue (slice headerData 1 2)
    payloadSize := leValue (slice headerData 3 4) }

structure RegistrationRequest where
  header : RequestHeader
  name : Text
  deriving DecidableEq

def RegistrationRequest.unpack (data : Bytes) : Option RegistrationRequest := do
  let header ← RequestHeader.unpack data
  let nameData ← exactly clientNameSize (slice data requestHeaderSize clientNameSize)
  let name ← fieldText nameData
  return { header, name }

structure PublicKeyRequest where
  header : RequestHeader
  clientName : Text
  publicKey : Field publicKeySize
  deriving DecidableEq

def PublicKeyRequest.unpack (data : Bytes) : Option PublicKeyRequest := do
  let header ← RequestHeader.unpack data
  let nameData ← exactly clientNameSize (slice data requestHeaderSize clientNameSize)
  let clientName ← fieldText nameData
  let offset := requestHeaderSize + clientNameSize
  let publicKey ← exactly publicKeySize (slice data offset publicKeySize)
  return { header, clientName, publicKey }

/-- `CrcValidRequest`, `CrcNotValidRequest` and `CrcNotValidAbortingRequest` add nothing. -/
structure CrcStatusRequest where
  header : RequestHeader
  clientID : ClientId
  fileName : Text
  deriving DecidableEq

def CrcStatusRequest.unpack (data : Bytes) : Option CrcStatusRequest := do
  let header ← RequestHeader.unpack data
  let clientID ← exactly clientIdSize (slice data requestHeaderSize clientIdSize)
  let offset := requestHeaderSize + clientIdSize
  let fileNameData ← exactly fileNameSize (slice data offset fileNameSize)
  let fileName ← fieldText fileNameData
  return { header, clientID, fileName }

structure RequestToSendFile where
  header : RequestHeader
  contentSize : ℕ
  fileName : Text
  fileContent : Bytes
  deriving DecidableEq

/-- What one `conn.recv` gives. The empty chunk is the closed peer. -/
inductive RecvResult where
  | chunk (data : Bytes)
  | raises
  deriving DecidableEq, Repr

/-- The local variables of `RequestToSendFile.unpack` at the head of its while loop. -/
structure PartialFile where
  header : RequestHeader
  contentSize : ℕ
  fileName : Text
  packetSize : ℕ
  encryptedContentSize : ℕ
  bytesRead : ℕ
  fileContent : Bytes
  deriving DecidableEq

def PartialFile.complete (p : PartialFile) : Bool := p.encryptedContentSize ≤ p.bytesRead

def PartialFile.need (p : PartialFile) : ℕ := p.encryptedContentSize - p.bytesRead

def PartialFile.request (p : PartialFile) : RequestToSendFile :=
  { header := p.header, contentSize := p.contentSize, fileName := p.fileName
    fileContent := p.fileContent }

def RequestToSendFile.begin (data : Bytes) : Option PartialFile := do
  let header ← RequestHeader.unpack data
  let contentSize ← exactly 4 (slice data requestHeaderSize 4)
  let offset := requestHeaderSize + 4
  let fileNameData ← exactly fileNameSize (slice data offset fileNameSize)
  let fileName ← fieldText fileNameData
  let offset := offset + fileNameSize
  -- a negative size is not a struct format
  guard (fileNameSize + 4 ≤ header.payloadSize)
  let encryptedContentSize := header.payloadSize - fileNameSize - 4
  let bytesRead :=
    if encryptedContentSize > packetSize then packetSize - offset else encryptedContentSize
  let fileContent ← exactly bytesRead (slice data offset bytesRead)
  return {
    header, contentSize := leValue contentSize, fileName, packetSize := data.length
    encryptedContentSize, bytesRead, fileContent := fileContent }

def PartialFile.feed (p : PartialFile) (data : Bytes) : PartialFile :=
  let dataSize := if p.need < data.length then p.need else data.length
  { p with fileContent := p.fileContent ++ data.take dataSize, bytesRead := p.bytesRead + dataSize }

inductive Unpacked where
  | accepted (request : RequestToSendFile) (unread : List RecvResult)
  | rejected (unread : List RecvResult)
  | waiting (p : PartialFile)
  deriving DecidableEq

def PartialFile.receive (conn : List RecvResult) (p : PartialFile) : Unpacked :=
  if p.complete then .accepted p.request conn
  else match conn with
    | [] => .waiting p
    | .raises :: conn => .rejected conn
    | .chunk data :: conn => receive conn (p.feed data)

def RequestToSendFile.unpack (conn : List RecvResult) (data : Bytes) : Unpacked :=
  match RequestToSendFile.begin data with
  | none => .rejected conn
  | some p => p.receive conn

section Responses

def registrationSucceeded : ℕ := 2100
def registrationFailed : ℕ := 2101
def publicKeyReceived : ℕ := 2102
def msgReceivedCrc : ℕ := 2103
def msgReceived : ℕ := 2104

/-- The response classes. `publicKey` has the payload size that the handler overwrites. -/
inductive Response where
  | registrationSucceeded (clientID : ClientId)
  | registrationFailed
  | publicKey (clientID : ClientId) (symmetricKey : Bytes) (payloadSize : ℕ)
  | fileReceivedCrcValue (clientID : Bytes) (contentSize : ℕ) (fileName : Text) (checksum : ℕ)
  | receivingApproved
  deriving DecidableEq, Repr

def Response.code : Response → ℕ
  | .registrationSucceeded _ => ServerProtocol.registrationSucceeded
  | .registrationFailed => ServerProtocol.registrationFailed
  | .publicKey .. => publicKeyReceived
  | .fileReceivedCrcValue .. => msgReceivedCrc
  | .receivingApproved => msgReceived

def Response.payloadSize : Response → ℕ
  | .registrationSucceeded _ => clientIdSize
  | .registrationFailed => 0
  | .publicKey _ _ payloadSize => payloadSize
  | .fileReceivedCrcValue .. => clientIdSize + fileNameSize + 8
  | .receivingApproved => 0

/-- `FileReceivedCrcValueResponse()` before a field is set. -/
def Response.emptyCrcValue : Response := .fileReceivedCrcValue [] 0 [] 0

/-- An unsigned struct field of `w` bytes, `none` for `struct.error`. -/
def packUnsigned (w n : ℕ) : Option Bytes := if n < 256 ^ w then some (leBytes w n) else none

def ResponseHeader.pack (code payloadSize : ℕ) : Bytes :=
  (do return (← packUnsigned 1 serverVersion) ++ (← packUnsigned 2 code) ++
    (← packUnsigned 4 payloadSize) : Option Bytes).getD []

def Response.packPayload : Response → Option Bytes
  | .registrationSucceeded clientID => some (padded clientIdSize clientID.val)
  | .registrationFailed => some []
  | .publicKey clientID symmetricKey _ => some (padded clientIdSize clientID.val ++ symmetricKey)
  | .fileReceivedCrcValue clientID contentSize fileName checksum => do
    return padded clientIdSize clientID ++ (← packUnsigned 4 contentSize) ++
      padded fileNameSize fileName ++ (← packUnsigned 4 checksum)
  | .receivingApproved => some []

def Response.pack (r : Response) : Bytes :=
  match r.packPayload with
  | some payload => ResponseHeader.pack r.code r.payloadSize ++ payload
  | none => []

end Responses

end ServerProtocol
