import FileTransfer.ClientChannel
import FileTransfer.ClientFile
import FileTransfer.MessageRoundTrip

/-! # The client

`ClientLogic`: the reactor of `Run` and the response handlers. Between two reads the client
runs to its next `Read`, to its end, or for ever, and hands at most one message to `Write`.
Configuration files and console output are left out. -/
namespace ClientLogic

open ByteField ServerProtocol ClientChannel ClientFile MessageRoundTrip

/-- The third-party code the client calls: boost and Crypto++. -/
structure CppCrypto where
  /-- `boost::crc_32_type` -/
  crc32 : Bytes → ℕ
  /-- `AESWrapper::encrypt`, from the key and the plaintext -/
  aesEncrypt : Bytes → Bytes → Bytes
  /-- `RSAPrivateWrapper::decrypt` under the key of the client, `none` when it throws -/
  rsaDecrypt : Bytes → Option Bytes

/-- Where the client stands. `running` is at the `Read` of `Run` and `resending` at the one of
the CRC loop, with the loop's `validresponse`. `stopped` has left the loop of `Run`, `stuck`
is in the CRC loop for ever, and `lost` has thrown or has used what C++ leaves undefined. -/
inductive Control where
  | running
  | resending (validresponse : Bytes)
  | ended (error : Bool)
  | stopped
  | stuck
  | lost
  deriving DecidableEq

def Control.awaits : Control → Bool
  | .running => true
  | .resending _ => true
  | _ => false

/-- The members that the handlers use. `file` is what the file of the name `fileToSend`
holds, and `buffer` is that of `Run`, `none` before anything was copied into it. -/
structure Client where
  control : Control
  isOpen : Bool
  name : Bytes
  id : ClientId
  publicKey : Field publicKeySize
  symmetricKey : Field symmetricKeySize
  fileToSend : Bytes
  file : Bytes
  calculatedCrc : ℕ
  messageQueue : List Bytes
  /-- The queue was popped past its end. -/
  overrun : Bool
  numOfAttempts : ℕ
  crcAttempts : ℕ
  buffer : Option Bytes
  deriving DecidableEq

def maxAttempts : ℕ := 3

abbrev Reaction := Client × Option Bytes

namespace Client

variable (cpp : CppCrypto)

def sendMessageToChannel (c : Client) (message : Bytes) : Reaction :=
  (c, if c.isOpen then some message else none)

def endSession (c : Client) (error : Bool) : Client :=
  { c with isOpen := false, control := .ended error }

/-- `std::bitset<CLIENT_ID_SIZE>(uuid).none()`: the bytes up to the first zero are taken for
the digits of a bitset, and any other digit throws. -/
def idIsEmpty (id : ClientId) : Option Bool :=
  let digits := untilNul id.val
  if digits.all fun b => b = 0x30 ∨ b = 0x31 then some (digits.all (· = 0x30)) else none

def setClientId (c : Client) (id : ClientId) : Client :=
  match idIsEmpty c.id with
  | none => { c with control := .lost }
  | some true => { c with id }
  | some false => c

/-- `SendNextMessage`; `m_WaitingForResponse` is never set. -/
def sendNextMessage (c : Client) : Reaction :=
  match c.isOpen, c.messageQueue with
  | true, message :: _ => sendMessageToChannel { c with numOfAttempts := maxAttempts } message
  | _, _ => (c, none)

/-- Behind an end that was passed a new message is not found, or what is found is no message. -/
def addMessageToQueue (c : Client) (message : Bytes) : Reaction :=
  if c.overrun then ({ c with control := .lost }, none)
  else sendNextMessage { c with
    messageQueue := c.messageQueue ++ [message], numOfAttempts := maxAttempts }

def sendRegistrationRequest (c : Client) : Reaction :=
  c.addMessageToQueue (registrationRequestMessage c.name)

def sendPublicKeyToServer (c : Client) : Reaction :=
  c.addMessageToQueue (publicKeyRequestMessage c.id c.name c.publicKey)

def fileMessage (c : Client) : Bytes :=
  requestToSendFileMessage c.id (getFileLengthWithPadding c.file) (nameField c.fileToSend)
    (cpp.aesEncrypt c.symmetricKey.val (fileBuffer c.file))

/-- A name that is longer than its field is copied past the end of the message. -/
def nameFits (c : Client) : Bool := c.fileToSend.length ≤ fileNameSize

def sendEncryptedFileToServer (c : Client) : Reaction :=
  if c.nameFits then
    sendMessageToChannel { c with calculatedCrc := cpp.crc32 (fileBuffer c.file) }
      (fileMessage cpp c)
  else ({ c with control := .lost }, none)

def crcStatusMessage (c : Client) (code : ℕ) : Bytes :=
  crcStatusRequestMessage code c.id (nameField c.fileToSend)

/-- `SymmetricKey::operator=` -/
def assignKey (old : Field symmetricKeySize) (key : Bytes) : Field symmetricKeySize :=
  ⟨key.take symmetricKeySize ++ old.val.drop key.length, by
    have hold := old.property
    simp only [List.length_append, List.length_take, List.length_drop, hold]
    omega⟩

def handelRegistrationApproved (c : Client) (data : Bytes) : Reaction :=
  let c := c.setClientId ⟨padded clientIdSize (slice data headerSize clientIdSize),
    length_padded _ _⟩
  if c.control = .lost then (c, none) else c.sendPublicKeyToServer

/-- `m_MessageQueue.pop_front()`. On an empty deque libstdc++ moves the start past the end, which
shows when a message is added. -/
def popFront (c : Client) : Client :=
  { c with
    messageQueue := c.messageQueue.tail, overrun := c.overrun || c.messageQueue.isEmpty }

def handelRegistrationFailed (c : Client) : Reaction :=
  if 0 < c.numOfAttempts then
    match c.messageQueue with
    | [] => ({ c with control := .lost }, none)
    | message :: _ =>
      sendMessageToChannel { c with numOfAttempts := c.numOfAttempts - 1 } message
  else (endSession c.popFront true, none)

def handelSymmetricKeyResponseFromServer (c : Client) (data : Bytes) (size : ℕ) : Reaction :=
  let offset := headerSize + clientIdSize
  match cpp.rsaDecrypt (slice data offset (size - offset)) with
  | none => ({ c with control := .lost }, none)
  | some key =>
    sendEncryptedFileToServer cpp { c with symmetricKey := assignKey c.symmetricKey key }

def checksum (data : Bytes) : ℕ :=
  leValue (slice data (headerSize + clientIdSize + 4 + fileNameSize) 4)

/-- The CRC loop at its head. On a closed channel nothing is sent and nothing counted. -/
def crcLoop (c : Client) (validresponse : Bytes) : Reaction :=
  if c.crcAttempts < maxAttempts then
    if c.isOpen then
      ({ c with control := .resending validresponse },
        some (c.crcStatusMessage invalidCrcResendRequest))
    else ({ c with control := .stuck }, none)
  else
    let (c, message) := c.sendMessageToChannel (c.crcStatusMessage invalidCrcAbort)
    (c.endSession true, message)

def checkResponse (c : Client) (validresponse : Bytes) : Reaction :=
  if responseCode validresponse = msgReceivedCrc then
    if checksum validresponse = c.calculatedCrc then
      sendMessageToChannel { c with control := .running } (c.crcStatusMessage requestCrcValid)
    else crcLoop { c with crcAttempts := c.crcAttempts + 1 } validresponse
  else crcLoop c validresponse

def handelMessageReceivedWithCrc (c : Client) (data : Bytes) : Reaction :=
  if c.nameFits then
    if checksum data = c.calculatedCrc then
      c.sendMessageToChannel (c.crcStatusMessage requestCrcValid)
    else c.crcLoop (List.replicate (headerSize + clientIdSize + 4 + fileNameSize + 4) 0)
  else ({ c with control := .lost }, none)

/-- The handlers of `m_HandlersMap` on what the buffer of `Run` holds. -/
def dispatch (c : Client) : Reaction :=
  match c.buffer with
  | none => ({ c with control := .lost }, none)
  | some data =>
    let code := responseCode data
    if code = registrationSucceeded then c.popFront.handelRegistrationApproved data
    else if code = registrationFailed then c.handelRegistrationFailed
    else if code = publicKeyReceived then
      handelSymmetricKeyResponseFromServer cpp c.popFront data
        (responsePayloadSize data + headerSize)
    else if code = msgReceivedCrc then c.popFront.handelMessageReceivedWithCrc data
    else if code = msgReceived then (c.popFront.endSession false, none)
    else (c, none)

/-- `while(m_socketHandler->isOpen())` -/
def atLoopHead (c : Client) : Client :=
  if c.control = .running ∧ c.isOpen = false then { c with control := .stopped } else c

/-- One `Read` and what follows it: `none` when the socket raises. The result of `Read` is not
looked at, so a failed one leaves the channel closed and the last response to be handled
again. -/
def receive (c : Client) (packet : Option Bytes) : Reaction :=
  match c.control with
  | .running =>
    let (ok, buffer) := read packet (c.buffer.getD [])
    let (c, message) := dispatch cpp { c with
      isOpen := ok
      buffer := if ok then some buffer else c.buffer }
    (c.atLoopHead, message)
  | .resending validresponse =>
    let (ok, validresponse) := read packet validresponse
    let (c, message) := checkResponse { c with isOpen := ok } validresponse
    (c.atLoopHead, message)
  | _ => (c, none)

/-- The client after `Write` gave up: the next turn of its loop finds the channel closed. -/
def writeFailed (c : Client) : Client :=
  match c.control with
  | .running => { c with isOpen := false, control := .stopped }
  | .resending _ => { c with isOpen := false, control := .stuck }
  | _ => { c with isOpen := false }

def opened (name : Bytes) (id : ClientId) (publicKey : Field publicKeySize)
    (symmetricKey : Field symmetricKeySize) (fileToSend file : Bytes) : Client where
  control := .running
  isOpen := true
  name := name
  id := id
  publicKey := publicKey
  symmetricKey := symmetricKey
  fileToSend := fileToSend
  file := file
  calculatedCrc := 0
  messageQueue := []
  overrun := false
  numOfAttempts := maxAttempts
  crcAttempts := 0
  buffer := none

/-- One message is in the queue, which was never popped past its end. -/
def Alone (c : Client) : Prop := c.messageQueue.length = 1 ∧ c.overrun = false

/-- `Run` up to its first `Read`, on a channel that could be opened. -/
def run (c : Client) (isRegistered : Bool) : Reaction :=
  if isRegistered then c.sendPublicKeyToServer else c.sendRegistrationRequest

section Reactions

variable {cpp : CppCrypto} {c c' : Client} {data packet : Bytes}

def fixed (c : Client) : Field publicKeySize × Bytes × Bytes := (c.publicKey, c.fileToSend, c.file)

def Continues (c c' : Client) : Prop :=
  c'.fixed = c.fixed ∧ c'.buffer = c.buffer ∧ c'.isOpen = c.isOpen

def Unapproved (c : Client) : Prop := ∀ data, c.buffer = some data → responseCode data ≠ msgReceived

/-- What the client does with a response that is no 2104. On a closed channel it sends
nothing and does not come to a `Read` again. -/
structure Proceeds (c : Client) (r : Reaction) : Prop where
  fixed : r.1.fixed = c.fixed
  buffer : r.1.buffer = c.buffer
  unfinished : r.1.control ≠ .ended false
  silent : c.isOpen = false → r.2 = none ∧ r.1.isOpen = false ∧ ∀ v, r.1.control ≠ .resending v

theorem proceeds_sends (h : Continues c c') (hcontrol : c'.control = .running) (message : Bytes) :
    Proceeds c (c'.sendMessageToChannel message) := by
  obtain ⟨hfixed, hbuffer, hopen⟩ := h
  refine ⟨hfixed, hbuffer, ?_, ?_⟩
  · intro hend
    rw [sendMessageToChannel, hcontrol] at hend
    cases hend
  · intro hclosed
    have hclosed' := hopen.trans hclosed
    rw [sendMessageToChannel, hclosed', hcontrol]
    exact ⟨rfl, rfl, nofun⟩

theorem proceeds_quiet (h : Continues c c') (hend : c'.control ≠ .ended false)
    (hresend : ∀ v, c'.control ≠ .resending v) : Proceeds c (c', none) :=
  ⟨h.1, h.2.1, hend, fun hclosed => ⟨rfl, h.2.2.trans hclosed, hresend⟩⟩

theorem proceeds_lost (h : Continues c c') : Proceeds c ({ c' with control := .lost }, none) :=
  proceeds_quiet h nofun nofun

theorem proceeds_next (h : Continues c c') (hcontrol : c'.control = .running) :
    Proceeds c c'.sendNextMessage := by
  unfold sendNextMessage
  split
  · exact @proceeds_sends c { c' with numOfAttempts := maxAttempts } h hcontrol _
  · apply proceeds_quiet h <;> simp [hcontrol]

theorem proceeds_crcLoop (h : Continues c c') (v : Bytes) : Proceeds c (c'.crcLoop v) := by
  obtain ⟨hfixed, hbuffer, hopen⟩ := h
  unfold crcLoop
  split
  · split
    · next hopen' =>
      refine ⟨hfixed, hbuffer, nofun, fun hclosed => ?_⟩
      rw [hopen, hclosed] at hopen'
      cases hopen'
    · exact proceeds_quiet ⟨hfixed, hbuffer, hopen⟩ nofun nofun
  · refine ⟨hfixed, hbuffer, nofun, fun hclosed => ⟨?_, rfl, nofun⟩⟩
    simp [sendMessageToChannel, hopen, hclosed]

theorem checkResponse_proceeds (c : Client) (v : Bytes) : Proceeds c (c.checkResponse v) := by
  unfold checkResponse
  split
  · split
    · apply proceeds_sends
      · exact ⟨rfl, rfl, rfl⟩
      · rfl
    · apply proceeds_crcLoop
      exact ⟨rfl, rfl, rfl⟩
  · apply proceeds_crcLoop
    exact ⟨rfl, rfl, rfl⟩

theorem setClientId_cases (c : Client) (clientId : ClientId) :
    c.setClientId clientId = { c with control := .lost } ∨
      ∃ id, c.setClientId clientId = { c with id } := by
  unfold setClientId
  split
  · exact .inl rfl
  · exact .inr ⟨clientId, rfl⟩
  · exact .inr ⟨c.id, rfl⟩

theorem setClientId_continues (c : Client) (clientId : ClientId) :
    Continues c (c.setClientId clientId) ∧
      (c.setClientId clientId).messageQueue = c.messageQueue ∧
      ((c.setClientId clientId).control = .lost ∨
        (c.setClientId clientId).control = c.control) := by
  rcases c.setClientId_cases clientId with heq | ⟨id, heq⟩
  · rw [heq]
    exact ⟨⟨rfl, rfl, rfl⟩, rfl, .inl rfl⟩
  · rw [heq]
    exact ⟨⟨rfl, rfl, rfl⟩, rfl, .inr rfl⟩

structure Keeps (c c' : Client) : Prop where
  continues : Continues c c'
  control : c'.control = c.control
  crcAttempts : c'.crcAttempts = c.crcAttempts
  queue : ∀ message ∈ c'.messageQueue, message ∈ c.messageQueue

/-- Every way in which the table of handlers reacts to the buffer of `Run`. -/
inductive Reacts (cpp : CppCrypto) (c : Client) : Reaction → Prop where
  | lost {c' : Client} : Keeps c c' → Reacts cpp c ({ c' with control := .lost }, none)
  | ends {c' : Client} {data : Bytes} (error : Bool) : Keeps c c' → c.buffer = some data →
      (error = false → responseCode data = msgReceived) → Reacts cpp c (c'.endSession error, none)
  | asksKey {c' : Client} {data : Bytes} : Keeps c c' → c'.overrun = false →
      c'.messageQueue = c.messageQueue.tail → c.buffer = some data →
      responseCode data = registrationSucceeded → Reacts cpp c c'.sendPublicKeyToServer
  | repeats {c' : Client} {data message : Bytes} {rest : List Bytes} : Keeps c c' →
      c'.messageQueue = c.messageQueue → c.messageQueue = message :: rest →
      c.buffer = some data → responseCode data = registrationFailed →
      Reacts cpp c (c'.sendMessageToChannel message)
  | sendsFile {c' : Client} {data : Bytes} : Keeps c c' →
      c'.messageQueue = c.messageQueue.tail → c.nameFits = true → c.buffer = some data →
      responseCode data = publicKeyReceived →
      Reacts cpp c (c'.sendMessageToChannel (fileMessage cpp c'))
  | approves {c' : Client} {data : Bytes} : Keeps c c' →
      c'.messageQueue = c.messageQueue.tail → c.buffer = some data →
      responseCode data = msgReceivedCrc → checksum data = c.calculatedCrc →
      Reacts cpp c (c'.sendMessageToChannel (c'.crcStatusMessage requestCrcValid))
  | doubts {c' : Client} {data : Bytes} (v : Bytes) : Keeps c c' →
      c'.messageQueue = c.messageQueue.tail → c.buffer = some data →
      responseCode data = msgReceivedCrc → Reacts cpp c (c'.crcLoop v)
  | nothing {data : Bytes} : c.buffer = some data → responseCode data ≠ registrationSucceeded →
      responseCode data ≠ registrationFailed → responseCode data ≠ publicKeyReceived →
      responseCode data ≠ msgReceivedCrc → responseCode data ≠ msgReceived →
      Reacts cpp c (c, none)

theorem keeps_queue (h : Continues c c') (hcontrol : c'.control = c.control)
    (hattempts : c'.crcAttempts = c.crcAttempts) (hqueue : c'.messageQueue = c.messageQueue) :
    Keeps c c' :=
  ⟨h, hcontrol, hattempts, fun _ hm => hqueue ▸ hm⟩

theorem keeps_popped (h : Continues c c') (hcontrol : c'.control = c.control)
    (hattempts : c'.crcAttempts = c.crcAttempts)
    (hqueue : c'.messageQueue = c.messageQueue.tail) : Keeps c c' :=
  ⟨h, hcontrol, hattempts, fun _ hm => List.mem_of_mem_tail (hqueue ▸ hm)⟩

theorem alone_popFront (h : c.Alone) :
    c.popFront.messageQueue = [] ∧ c.popFront.overrun = false := by
  obtain ⟨hlength, hend⟩ := h
  obtain ⟨message, hqueue⟩ := List.length_eq_one_iff.mp hlength
  unfold popFront
  dsimp only
  rw [hqueue, hend]
  exact ⟨rfl, rfl⟩

theorem keeps_popFront (c : Client) : Keeps c c.popFront :=
  keeps_popped ⟨rfl, rfl, rfl⟩ rfl rfl rfl

section Handlers

variable (hdata : c.buffer = some data)
include hdata

theorem registrationApproved_reacts (hcontrol : c.control = .running)
    (hcode : responseCode data = registrationSucceeded) :
    Reacts cpp c (c.popFront.handelRegistrationApproved data) := by
  unfold handelRegistrationApproved
  dsimp only
  rcases c.popFront.setClientId_cases
    ⟨padded clientIdSize (slice data headerSize clientIdSize), length_padded _ _⟩ with
    heq | ⟨id, heq⟩
  · rw [heq, if_pos rfl]
    exact .lost (keeps_popFront c)
  · rw [heq, if_neg (by simp [popFront, hcontrol])]
    by_cases hend : c.popFront.overrun = true
    · rw [sendPublicKeyToServer, addMessageToQueue, if_pos (by exact hend)]
      exact @Reacts.lost cpp c { c.popFront with id } (keeps_popped ⟨rfl, rfl, rfl⟩ rfl rfl rfl)
    · exact .asksKey (keeps_popped ⟨rfl, rfl, rfl⟩ rfl rfl rfl) (eq_false_of_ne_true hend) rfl
        hdata hcode

theorem registrationFailed_reacts (hcode : responseCode data = registrationFailed) :
    Reacts cpp c c.handelRegistrationFailed := by
  unfold handelRegistrationFailed
  split
  · split
    · exact .lost (keeps_queue ⟨rfl, rfl, rfl⟩ rfl rfl rfl)
    · next message rest hfront =>
      exact .repeats (keeps_queue ⟨rfl, rfl, rfl⟩ rfl rfl rfl) rfl hfront hdata hcode
  · exact .ends true (keeps_popFront c) hdata nofun

theorem symmetricKey_reacts (hcode : responseCode data = publicKeyReceived) (size : ℕ) :
    Reacts cpp c (handelSymmetricKeyResponseFromServer cpp c.popFront data size) := by
  unfold handelSymmetricKeyResponseFromServer sendEncryptedFileToServer
  dsimp only
  split
  · exact .lost (keeps_popFront c)
  · next key _ =>
    split
    · next hfits =>
      exact @Reacts.sendsFile cpp c
        { c.popFront with
          symmetricKey := assignKey c.symmetricKey key
          calculatedCrc := cpp.crc32 (fileBuffer c.file) } data
        (keeps_popped ⟨rfl, rfl, rfl⟩ rfl rfl rfl) rfl hfits hdata hcode
    · exact @Reacts.lost cpp c
        { c.popFront with symmetricKey := assignKey c.symmetricKey key }
        (keeps_popped ⟨rfl, rfl, rfl⟩ rfl rfl rfl)

theorem receivedWithCrc_reacts (hcode : responseCode data = msgReceivedCrc) :
    Reacts cpp c (c.popFront.handelMessageReceivedWithCrc data) := by
  unfold handelMessageReceivedWithCrc
  split
  · split
    · next hcrc => exact .approves (keeps_popFront c) rfl hdata hcode hcrc
    · exact .doubts _ (keeps_popFront c) rfl hdata hcode
  · exact .lost (keeps_popFront c)

end Handlers

/-- The spec of the dispatcher, from which each of its invariants follows. -/
theorem dispatch_reacts (hcontrol : c.control = .running) : Reacts cpp c (dispatch cpp c) := by
  unfold dispatch
  split
  · exact .lost (keeps_queue ⟨rfl, rfl, rfl⟩ rfl rfl rfl)
  · next data hdata =>
    dsimp only
    split_ifs with h₁ h₂ h₃ h₄ h₅
    · exact registrationApproved_reacts hdata hcontrol h₁
    · exact registrationFailed_reacts hdata h₂
    · exact symmetricKey_reacts hdata h₃ _
    · exact receivedWithCrc_reacts hdata h₄
    · exact .ends false (keeps_popFront c) hdata fun _ => h₅
    · exact .nothing hdata h₁ h₂ h₃ h₄ h₅

theorem Reacts.proceeds {r : Reaction} (h : Reacts cpp c r) (hcontrol : c.control = .running)
    (hun : c.Unapproved) : Proceeds c r := by
  cases h with
  | lost hc => exact proceeds_lost hc.continues
  | ends error hc hdata hcode =>
    refine ⟨hc.continues.1, hc.continues.2.1, ?_, fun _ => ⟨rfl, rfl, nofun⟩⟩
    rintro ⟨⟩
    exact hun _ hdata (hcode rfl)
  | @asksKey c' _ hc hend =>
    rw [sendPublicKeyToServer, addMessageToQueue, if_neg (by rw [hend]; exact Bool.false_ne_true)]
    exact @proceeds_next c { c' with messageQueue := _, numOfAttempts := _ } hc.continues
      (hc.control.trans hcontrol)
  | repeats hc => exact proceeds_sends hc.continues (hc.control.trans hcontrol) _
  | sendsFile hc => exact proceeds_sends hc.continues (hc.control.trans hcontrol) _
  | approves hc => exact proceeds_sends hc.continues (hc.control.trans hcontrol) _
  | doubts v hc => exact proceeds_crcLoop hc.continues v
  | nothing => apply proceeds_quiet ⟨rfl, rfl, rfl⟩ <;> simp [hcontrol]

theorem dispatch_proceeds (hcontrol : c.control = .running) (h : c.Unapproved) :
    Proceeds c (dispatch cpp c) :=
  (dispatch_reacts hcontrol).proceeds hcontrol h

section Dispatch

variable (hdata : c.buffer = some data)
include hdata

theorem dispatch_registration (hcode : responseCode data = registrationSucceeded) :
    dispatch cpp c = c.popFront.handelRegistrationApproved data := by
  rw [dispatch, hdata]
  exact if_pos hcode

theorem dispatch_failed (hcode : responseCode data = registrationFailed) :
    dispatch cpp c = c.handelRegistrationFailed := by
  rw [dispatch, hdata]
  dsimp only
  rw [hcode]
  rfl

theorem dispatch_publicKey (hcode : responseCode data = publicKeyReceived) :
    dispatch cpp c = handelSymmetricKeyResponseFromServer cpp c.popFront data
      (responsePayloadSize data + headerSize) := by
  rw [dispatch, hdata]
  dsimp only
  rw [hcode]
  rfl

theorem dispatch_crcValue (hcode : responseCode data = msgReceivedCrc) :
    dispatch cpp c = c.popFront.handelMessageReceivedWithCrc data := by
  rw [dispatch, hdata]
  dsimp only
  rw [hcode]
  rfl

theorem dispatch_approved (hcode : responseCode data = msgReceived) :
    dispatch cpp c = (c.popFront.endSession false, none) := by
  rw [dispatch, hdata]
  dsimp only
  rw [hcode]
  rfl

end Dispatch

theorem addMessageToQueue_fst (hend : c.overrun = false) (message : Bytes) :
    (c.addMessageToQueue message).1 =
      { c with messageQueue := c.messageQueue ++ [message], numOfAttempts := maxAttempts } := by
  unfold addMessageToQueue sendNextMessage
  rw [if_neg (by rw [hend]; exact Bool.false_ne_true)]
  split
  · rfl
  · rfl

theorem crcLoop_fst (c : Client) (v : Bytes) :
    ∃ control isOpen, (c.crcLoop v).1 = { c with control, isOpen } := by
  unfold crcLoop
  split
  · split
    · exact ⟨_, c.isOpen, rfl⟩
    · exact ⟨_, c.isOpen, rfl⟩
  · exact ⟨_, _, rfl⟩

theorem Keeps.members (h : Keeps c c') :
    c'.fixed = c.fixed ∧ c'.buffer = c.buffer ∧ c'.crcAttempts = c.crcAttempts :=
  ⟨h.continues.1, h.continues.2.1, h.crcAttempts⟩

theorem Reacts.members {r : Reaction} (h : Reacts cpp c r) :
    r.1.fixed = c.fixed ∧ r.1.buffer = c.buffer ∧ r.1.crcAttempts = c.crcAttempts := by
  cases h with
  | lost hc => exact hc.members
  | ends error hc => exact hc.members
  | asksKey hc hend =>
    rw [sendPublicKeyToServer, addMessageToQueue_fst hend]
    exact hc.members
  | repeats hc => exact hc.members
  | sendsFile hc => exact hc.members
  | approves hc => exact hc.members
  | @doubts c' _ v hc =>
    obtain ⟨control, isOpen, heq⟩ := c'.crcLoop_fst v
    rw [heq]
    exact hc.members
  | nothing => exact ⟨rfl, rfl, rfl⟩

theorem dispatch_fixed (hcontrol : c.control = .running) : (dispatch cpp c).1.fixed = c.fixed :=
  (dispatch_reacts hcontrol).members.1

theorem atLoopHead_cases (c : Client) :
    c.atLoopHead = c ∨ c.atLoopHead = { c with control := .stopped } := by
  unfold atLoopHead
  split
  · exact .inr rfl
  · exact .inl rfl

def buffered (c : Client) (packet : Option Bytes) : Client :=
  { c with
    isOpen := (read packet (c.buffer.getD [])).1
    buffer := if (read packet (c.buffer.getD [])).1 then some (read packet (c.buffer.getD [])).2
      else c.buffer }

theorem receive_running (h : c.control = .running) (packet : Option Bytes) :
    c.receive cpp packet = ((dispatch cpp (c.buffered packet)).1.atLoopHead,
      (dispatch cpp (c.buffered packet)).2) := by
  unfold receive
  split
  · rfl
  · next hc => rw [h] at hc; cases hc
  · next hc _ => exact absurd h hc

theorem receive_resending {v : Bytes} (h : c.control = .resending v) (packet : Option Bytes) :
    c.receive cpp packet =
      ((checkResponse { c with isOpen := (read packet v).1 } (read packet v).2).1.atLoopHead,
        (checkResponse { c with isOpen := (read packet v).1 } (read packet v).2).2) := by
  unfold receive
  split
  · next hc => rw [h] at hc; cases hc
  · next v' hc =>
    rw [h] at hc
    cases hc
    rfl
  · next hc => exact absurd h (hc v)

theorem awaits_cases (h : c.control.awaits = true) :
    c.control = .running ∨ ∃ v, c.control = .resending v := by
  cases hc : c.control with
  | running => exact .inl rfl
  | resending v => exact .inr ⟨v, rfl⟩
  | ended error => rw [hc] at h; cases h
  | stopped => rw [hc] at h; cases h
  | stuck => rw [hc] at h; cases h
  | lost => rw [hc] at h; cases h

theorem control_cases (c : Client) :
    c.control = .running ∨ (∃ v, c.control = .resending v) ∨ c.control.awaits = false := by
  cases hawaits : c.control.awaits with
  | false => exact .inr (.inr rfl)
  | true => exact (awaits_cases hawaits).imp_right .inl

theorem receive_fixed (h : c.control.awaits = true) (packet : Option Bytes) :
    (c.receive cpp packet).1.fixed = c.fixed := by
  have hhead : ∀ c : Client, c.atLoopHead.fixed = c.fixed := by
    intro c
    rcases c.atLoopHead_cases with heq | heq <;> rw [heq]
    rfl
  rcases awaits_cases h with hc | ⟨v, hc⟩
  · rw [receive_running hc, hhead]
    exact dispatch_fixed hc
  · rw [receive_resending hc, hhead, (checkResponse_proceeds _ _).fixed]
    rfl

def Harmless (packet : Option Bytes) : Prop :=
  ∀ p, packet = some p → headerSize ≤ p.length ∧ responseCode p ≠ msgReceived

theorem buffered_unapproved (h : c.Unapproved) {packet : Option Bytes} (hp : Harmless packet) :
    (c.buffered packet).Unapproved := by
  intro data hdata
  unfold buffered at hdata
  dsimp only at hdata
  cases packet with
  | none => exact h data hdata
  | some p =>
    cases haccepts : readAccepts p with
    | false =>
      have hno : ∀ p', some p = some p' → readAccepts p' = false := by
        rintro _ ⟨⟩
        exact haccepts
      rw [read_rejected hno, if_neg Bool.false_ne_true] at hdata
      exact h data hdata
    | true =>
      rw [read_accepted haccepts, if_pos rfl, Option.some.injEq] at hdata
      rw [← hdata, (header_copied (hp p rfl).1 _ _).1]
      exact (hp p rfl).2

theorem receive_harmless (hawaits : c.control.awaits = true) (h : c.Unapproved)
    {packet : Option Bytes} (hp : Harmless packet) :
    (c.receive cpp packet).1.control ≠ .ended false ∧ (c.receive cpp packet).1.Unapproved := by
  have hhead : ∀ {c' : Client} {r : Reaction}, c'.Unapproved → Proceeds c' r →
      r.1.atLoopHead.control ≠ .ended false ∧ r.1.atLoopHead.Unapproved := by
    intro c' r hun hr
    have hbuffer : r.1.Unapproved := by
      intro data hdata
      exact hun data (hr.buffer ▸ hdata)
    rcases r.1.atLoopHead_cases with heq | heq
    · rw [heq]
      exact ⟨hr.unfinished, hbuffer⟩
    · rw [heq]
      exact ⟨nofun, hbuffer⟩
  rcases awaits_cases hawaits with hc | ⟨v, hc⟩
  · rw [receive_running hc]
    have hun := buffered_unapproved h hp
    exact hhead hun (dispatch_proceeds hc hun)
  · rw [receive_resending hc]
    exact hhead (by exact h) (checkResponse_proceeds _ _)

def Failed (c : Client) : Prop := c.control.awaits = false ∧ c.control ≠ .ended false

theorem writeFailed_ends (c : Client) : c.writeFailed.control.awaits = false := by
  unfold writeFailed
  split
  · rfl
  · rfl
  · next hrunning hresending =>
    by_contra hawaits
    rcases awaits_cases (by simpa using hawaits) with hc | ⟨v, hc⟩
    · exact hrunning hc
    · exact hresending v hc

theorem writeFailed_failed (h : c.control ≠ .ended false) : c.writeFailed.Failed := by
  refine ⟨writeFailed_ends c, ?_⟩
  unfold writeFailed
  split
  · intro hended
    cases hended
  · intro hended
    cases hended
  · exact h

theorem writeFailed_fixed (c : Client) : c.writeFailed.fixed = c.fixed := by
  unfold writeFailed
  split <;> rfl

theorem receive_fails (hawaits : c.control.awaits = true) (h : c.Unapproved)
    {packet : Option Bytes} (hp : ∀ p, packet = some p → readAccepts p = false) :
    (c.receive cpp packet).2 = none ∧ (c.receive cpp packet).1.Failed := by
  have hhead : ∀ {c' : Client} {r : Reaction}, c'.isOpen = false → Proceeds c' r →
      r.2 = none ∧ r.1.atLoopHead.Failed := by
    intro c' r hclosed hr
    obtain ⟨hsilent, hopen, hresend⟩ := hr.silent hclosed
    refine ⟨hsilent, ?_⟩
    have hend := hr.unfinished
    unfold atLoopHead
    split
    · exact ⟨rfl, nofun⟩
    · next hnot =>
      refine ⟨?_, hend⟩
      by_contra hawaits
      rcases awaits_cases (by simpa using hawaits) with hcontrol | ⟨v, hcontrol⟩
      · exact hnot ⟨hcontrol, hopen⟩
      · exact hresend v hcontrol
  rcases awaits_cases hawaits with hc | ⟨v, hc⟩
  · have hbuffered : c.buffered packet = { c with isOpen := false } := by
      rw [buffered, read_rejected hp]
      rfl
    rw [receive_running hc, hbuffered]
    exact @hhead { c with isOpen := false } _ rfl (dispatch_proceeds hc h)
  · rw [receive_resending hc, read_rejected hp]
    exact @hhead { c with isOpen := false } _ rfl (checkResponse_proceeds _ _)

theorem atLoopHead_open (h : c.isOpen = true) : c.atLoopHead = c := by
  unfold atLoopHead
  rw [if_neg]
  rintro ⟨-, hclosed⟩
  rw [h] at hclosed
  cases hclosed

theorem addMessageToQueue_open (hopen : c.isOpen = true) (hend : c.overrun = false)
    (hqueue : c.messageQueue = []) (message : Bytes) : c.addMessageToQueue message =
      ({ c with messageQueue := [message], numOfAttempts := maxAttempts }, some message) := by
  unfold addMessageToQueue sendNextMessage sendMessageToChannel
  dsimp only
  rw [if_neg (by rw [hend]; exact Bool.false_ne_true), hopen, hqueue]
  rfl

theorem assignKey_eq (old : Field symmetricKeySize) {key : Bytes}
    (h : key.length = symmetricKeySize) : (assignKey old key).val = key := by
  have hold : old.val.drop key.length = [] :=
    List.drop_eq_nil_iff.mpr (by rw [old.property, h])
  rw [assignKey]
  dsimp only
  rw [hold, List.append_nil, ← h, List.take_length]

theorem sendEncryptedFile_open (hopen : c.isOpen = true) :
    (sendEncryptedFileToServer cpp c).1.isOpen = true ∧
      ((sendEncryptedFileToServer cpp c).1.control = .lost ∧
          (sendEncryptedFileToServer cpp c).2 = none ∨
        (sendEncryptedFileToServer cpp c).1.control = c.control ∧
          (sendEncryptedFileToServer cpp c).1.id = c.id ∧
          (sendEncryptedFileToServer cpp c).1.symmetricKey = c.symmetricKey ∧
          (sendEncryptedFileToServer cpp c).2 =
            some (fileMessage cpp (sendEncryptedFileToServer cpp c).1)) := by
  unfold sendEncryptedFileToServer
  split
  · refine ⟨hopen, .inr ⟨rfl, rfl, rfl, ?_⟩⟩
    rw [sendMessageToChannel, if_pos hopen]
    rfl
  · exact ⟨hopen, .inl ⟨rfl, rfl⟩⟩

def AnswersCrc (c : Client) (r : Reaction) : Prop :=
  r.1.Failed ∨ r.1.isOpen = true ∧ r.1.id = c.id ∧
    (r.1.control = .running ∧ r.2 = some (r.1.crcStatusMessage requestCrcValid) ∨
      (∃ v, r.1.control = .resending v) ∧
        r.2 = some (r.1.crcStatusMessage invalidCrcResendRequest))

theorem failed_atLoopHead (h : c.Failed) : c.atLoopHead.Failed := by
  rcases c.atLoopHead_cases with heq | heq
  · rwa [heq]
  · rw [heq]
    exact ⟨rfl, nofun⟩

theorem answersCrc_atLoopHead {r : Reaction} (h : AnswersCrc c r) :
    AnswersCrc c (r.1.atLoopHead, r.2) := by
  rcases h with hfailed | ⟨hopen, hrest⟩
  · exact .inl (failed_atLoopHead hfailed)
  · have hsame := atLoopHead_open hopen
    rw [AnswersCrc]
    dsimp only
    rw [hsame]
    exact .inr ⟨hopen, hrest⟩

theorem answersCrc_sends (hopen : c.isOpen = true) (hcontrol : c.control = .running) :
    AnswersCrc c (c.sendMessageToChannel (c.crcStatusMessage requestCrcValid)) := by
  rw [sendMessageToChannel, if_pos hopen]
  exact .inr ⟨hopen, rfl, .inl ⟨hcontrol, rfl⟩⟩

theorem answersCrc_loop (hopen : c.isOpen = true) (v : Bytes) : AnswersCrc c (c.crcLoop v) := by
  unfold crcLoop
  split
  · exact .inr ⟨hopen, rfl, .inr ⟨⟨v, rfl⟩, rfl⟩⟩
  · exact .inl ⟨rfl, nofun⟩

section Accepted

variable (hp : readAccepts packet = true) (hlength : headerSize ≤ packet.length)
include hp

theorem buffered_accepted (c : Client) : (c.buffered (some packet)).isOpen = true ∧
    ∃ rest, (c.buffered (some packet)).buffer =
      some (packet.take (getHeader packet + headerSize) ++ rest) := by
  unfold buffered
  rw [read_accepted hp]
  exact ⟨rfl, _, rfl⟩

include hlength

theorem receive_approved (hcontrol : c.control = .running)
    (hcode : responseCode packet = msgReceived) :
    (c.receive cpp (some packet)).1.control = .ended false ∧
      (c.receive cpp (some packet)).1.id = c.id ∧ (c.receive cpp (some packet)).2 = none := by
  obtain ⟨-, rest, hdata⟩ := buffered_accepted hp c
  have hcode' := (header_copied hlength (getHeader packet) rest).1.trans hcode
  rw [receive_running hcontrol, dispatch_approved hdata hcode']
  exact ⟨rfl, rfl, rfl⟩

theorem receive_registration (hcontrol : c.control = .running)
    (hcode : responseCode packet = registrationSucceeded) (hqueue : c.messageQueue.tail = []) :
    (c.receive cpp (some packet)).1.Failed ∨
      (c.receive cpp (some packet)).1.control = .running ∧
        (c.receive cpp (some packet)).2 = some (publicKeyRequestMessage
          (c.receive cpp (some packet)).1.id (c.receive cpp (some packet)).1.name
          (c.receive cpp (some packet)).1.publicKey) := by
  obtain ⟨hopen, rest, hdata⟩ := buffered_accepted hp c
  have hcode' := (header_copied hlength (getHeader packet) rest).1.trans hcode
  rw [receive_running hcontrol, dispatch_registration hdata hcode', handelRegistrationApproved]
  generalize hset : setClientId _ _ = c'
  obtain ⟨⟨-, -, hopen'⟩, hqueue', hlost⟩ := hset ▸ setClientId_continues _ _
  have hopen'' : c'.isOpen = true := hopen'.trans hopen
  dsimp only
  split
  · next hl =>
    rw [atLoopHead_open hopen'']
    exact .inl ⟨by rw [hl]; rfl, by rw [hl]; exact nofun⟩
  · next hl =>
    by_cases hend : c'.overrun = true
    · rw [sendPublicKeyToServer, addMessageToQueue, if_pos hend,
        atLoopHead_open (by exact hopen'')]
      exact .inl ⟨rfl, nofun⟩
    · rw [sendPublicKeyToServer, addMessageToQueue_open hopen'' (eq_false_of_ne_true hend)
        (hqueue'.trans hqueue), atLoopHead_open (by exact hopen'')]
      exact .inr ⟨(hlost.resolve_left hl).trans hcontrol, rfl⟩

theorem receive_publicKey (hcontrol : c.control = .running)
    (hcode : responseCode packet = publicKeyReceived) {key : Bytes}
    (hsize : clientIdSize ≤ responsePayloadSize packet)
    (hfits : headerSize + responsePayloadSize packet ≤ packet.length)
    (hkey : cpp.rsaDecrypt (slice packet (headerSize + clientIdSize)
      (responsePayloadSize packet + headerSize - (headerSize + clientIdSize))) = some key)
    (hkeySize : key.length = symmetricKeySize) :
    (c.receive cpp (some packet)).1.Failed ∨
      (c.receive cpp (some packet)).1.control = .running ∧
        (c.receive cpp (some packet)).1.id = c.id ∧
        (c.receive cpp (some packet)).1.symmetricKey.val = key ∧
        (c.receive cpp (some packet)).2 =
          some (fileMessage cpp (c.receive cpp (some packet)).1) := by
  obtain ⟨hopen, rest, hdata⟩ := buffered_accepted hp c
  obtain ⟨hcode', hpayload⟩ := header_copied hlength (getHeader packet) rest
  have hheader : getHeader packet = responsePayloadSize packet := by
    have hne : getHeader packet ≠ 0 := by
      intro hzero
      simp [readAccepts, hzero, hcode, publicKeyReceived, registrationFailed, msgReceived] at hp
    unfold getHeader at hne ⊢
    dsimp only at hne ⊢
    rw [hcode, if_neg (by decide), if_pos rfl] at hne ⊢
    split at hne
    · exact absurd rfl hne
    · next h => rw [if_neg h]
  have hencrypted := @slice_copied packet (headerSize + clientIdSize)
    (responsePayloadSize packet + headerSize - (headerSize + clientIdSize))
    (getHeader packet + headerSize) rest (by omega) (by omega)
  rw [receive_running hcontrol, dispatch_publicKey hdata (hcode'.trans hcode), hpayload,
    handelSymmetricKeyResponseFromServer, hencrypted, hkey]
  dsimp only
  generalize hset : ({ popFront _ with symmetricKey := _ } : Client) = c'
  have hopen' : c'.isOpen = true := by rw [← hset]; exact hopen
  obtain ⟨hsent, hlost | ⟨hrunning, hid, hsymmetric, hmessage⟩⟩ :=
    @sendEncryptedFile_open cpp c' hopen'
  · rw [atLoopHead_open hsent]
    exact .inl ⟨by rw [hlost.1]; rfl, by rw [hlost.1]; exact nofun⟩
  · rw [atLoopHead_open hsent]
    refine .inr ⟨?_, ?_, ?_, hmessage⟩
    · rw [hrunning, ← hset]
      exact hcontrol
    · rw [hid, ← hset]
      rfl
    · rw [hsymmetric, ← hset]
      exact assignKey_eq _ hkeySize

theorem receive_crcValue (hawaits : c.control.awaits = true)
    (hcode : responseCode packet = msgReceivedCrc) :
    AnswersCrc c (c.receive cpp (some packet)) := by
  rcases awaits_cases hawaits with hcontrol | ⟨v, hcontrol⟩
  · obtain ⟨hopen, rest, hdata⟩ := buffered_accepted hp c
    have hcode' := (header_copied hlength (getHeader packet) rest).1.trans hcode
    rw [receive_running hcontrol, dispatch_crcValue hdata hcode']
    apply answersCrc_atLoopHead
    unfold handelMessageReceivedWithCrc
    split
    · split
      · exact @answersCrc_sends (c.buffered (some packet)).popFront hopen hcontrol
      · exact @answersCrc_loop (c.buffered (some packet)).popFront hopen _
    · exact .inl ⟨rfl, nofun⟩
  · have hread := read_accepted hp v
    have hcode' := (header_copied hlength (getHeader packet)
      (v.drop (getHeader packet + headerSize))).1.trans hcode
    rw [receive_resending hcontrol, hread]
    apply answersCrc_atLoopHead
    unfold checkResponse
    rw [if_pos hcode']
    split
    · exact @answersCrc_sends { c with isOpen := true, control := .running } rfl rfl
    · exact @answersCrc_loop { c with isOpen := true, crcAttempts := c.crcAttempts + 1 } rfl _

end Accepted

end Reactions

end Client

end ClientLogic
