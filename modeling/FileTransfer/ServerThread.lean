import FileTransfer.ServerHandlers

/-! # The read thread of a connection

`Server.read` as a machine driven by the results of `recv`. The thread waits at the head
of the read loop or inside the receive loop of a file message; all other code runs to the
next `recv`, to the end of the thread, or for ever. -/
namespace ServerThread

open ByteField ServerProtocol ServerState ServerHandlers RaisingProgram

/-- Where the thread stands. `closed` released the lock and closed the connection, `dead`
was left by an exception, `spinning` is stuck in `write`. -/
inductive Control where
  | reading
  | receiving (p : PartialFile)
  | closed
  | dead (e : Option PyError)
  | spinning
  deriving DecidableEq

def Control.awaits : Control → Bool
  | .reading => true
  | .receiving _ => true
  | _ => false

def Control.ended : Control → Bool
  | .closed => true
  | .dead _ => true
  | _ => false

def Control.recvSize : Control → ℕ
  | .receiving p => p.packetSize
  | _ => packetSize

structure ReadStep where
  control : Control
  world : World
  handled : Option Request
  sent : List Response
  opened : List Text

variable (crypto : PyCrypto) (env : Env)

/-- `self.requestHandle[code](conn, data)`, without the file message. -/
def requestHandle (code : ℕ) (data : Bytes) : ServerM Bool :=
  if code = requestRegistration then handleRegistrationRequest env data
  else if code = requestPublicKey then handlePublicKeyRequest crypto env data
  else if code = requestCrcValid then handleCrcValidRequest env data
  else if code = invalidCrcResendRequest then handleInvalidCrcResendRequest crypto env data
  else if code = invalidCrcAbort then handleInvalidCrcAbortInteractionRequest data
  else return false

def parsedRequest (code : ℕ) (data : Bytes) : Option Request :=
  if code = requestRegistration then (RegistrationRequest.unpack data).map .registration
  else if code = requestPublicKey then (PublicKeyRequest.unpack data).map .publicKey
  else if code = requestCrcValid then (CrcStatusRequest.unpack data).map .crcValid
  else if code = invalidCrcResendRequest then (CrcStatusRequest.unpack data).map .crcResend
  else if code = invalidCrcAbort then (CrcStatusRequest.unpack data).map .crcAbort
  else none

/-- The read loop after the handler: a failure is answered with 2101 and ends the loop. -/
def answer (handler : ServerM Bool) : ServerM Bool := do
  if ← handler then return true else refuse env

def controlAfter : Outcome PyError Bool → Control
  | .value true => .reading
  | .value false => .closed
  | .raised e => .dead (some e)
  | .hangs => .spinning

def settle (w : World) (handled : Option Request) (handler : ServerM Bool) : ReadStep :=
  let (outcome, turn) := (answer env handler).run (Turn.start w env)
  { control := controlAfter outcome, world := turn.world, handled, sent := turn.sent
    opened := turn.opened }

def ReadStep.quiet (w : World) (control : Control) : ReadStep :=
  { control, world := w, handled := none, sent := [], opened := [] }

@[simp] theorem quiet_handled (w : World) (control : Control) :
    (ReadStep.quiet w control).handled = none := rfl
@[simp] theorem quiet_sent (w : World) (control : Control) :
    (ReadStep.quiet w control).sent = [] := rfl
@[simp] theorem quiet_world (w : World) (control : Control) :
    (ReadStep.quiet w control).world = w := rfl
@[simp] theorem quiet_opened (w : World) (control : Control) :
    (ReadStep.quiet w control).opened = [] := rfl

/-- The receive loop at its head: the handler runs on when the file is complete. -/
def receiveFile (w : World) (p : PartialFile) : ReadStep :=
  if p.complete then
    settle env w (some (.sendFile p.request)) (handleSendFileRequest crypto env (some p.request))
  else .quiet w (.receiving p)

def readData (w : World) (data : Bytes) : ReadStep :=
  match RequestHeader.unpack data with
  | none => settle env w none (return false)
  | some header =>
    if header.code = requestToSendFile then
      match RequestToSendFile.begin data with
      | none => settle env w none (handleSendFileRequest crypto env none)
      | some p => receiveFile crypto env w p
    else
      settle env w (parsedRequest header.code data) (requestHandle crypto env header.code data)

def readStep (w : World) (control : Control) (r : RecvResult) : ReadStep :=
  match control, r with
  | .reading, .raises => .quiet w (.dead none)
  | .reading, .chunk [] => .quiet w .closed
  | .reading, .chunk data => readData crypto env w data
  | .receiving _, .raises => settle env w none (handleSendFileRequest crypto env none)
  | .receiving p, .chunk data => receiveFile crypto env w (p.feed data)
  | control, _ => .quiet w control

section Reactions

/-- What a recv result is to the read thread, before any handler runs. -/
inductive Received where
  | parsed (request : Request)
  | malformed (refused : Bool)
  | partly (p : PartialFile)
  | endOfStream
  | failure
  deriving DecidableEq

/-- The registration, public key and abort handlers do not answer what they cannot parse. -/
def Received.ofParsed (refused : Bool) : Option Request → Received
  | some request => .parsed request
  | none => .malformed refused

def Received.ofFile (p : PartialFile) : Received :=
  if p.complete then .parsed (.sendFile p.request) else .partly p

def Received.ofData (data : Bytes) : Received :=
  match RequestHeader.unpack data with
  | none => .malformed false
  | some header =>
    if header.code = requestToSendFile then
      match RequestToSendFile.begin data with
      | none => .malformed true
      | some p => .ofFile p
    else .ofParsed (header.code = requestCrcValid ∨ header.code = invalidCrcResendRequest)
      (parsedRequest header.code data)

def received : Control → RecvResult → Received
  | .receiving _, .raises => .malformed true
  | .receiving p, .chunk data => .ofFile (p.feed data)
  | _, .raises => .failure
  | _, .chunk [] => .endOfStream
  | _, .chunk data => .ofData data

def react (w : World) : Received → ReadStep
  | .parsed request => settle env w (some request) (handle crypto env request)
  | .malformed refused => settle env w none (if refused then refuse env else return false)
  | .partly p => .quiet w (.receiving p)
  | .endOfStream => .quiet w .closed
  | .failure => .quiet w (.dead none)

theorem receiveFile_eq (w : World) (p : PartialFile) :
    receiveFile crypto env w p = react crypto env w (.ofFile p) := by
  rw [receiveFile, Received.ofFile]
  split <;> rfl

theorem requestHandle_eq (code : ℕ) (data : Bytes) :
    requestHandle crypto env code data = match parsedRequest code data with
      | some request => handle crypto env request
      | none => if code = requestCrcValid ∨ code = invalidCrcResendRequest then refuse env
          else return false := by
  unfold requestHandle parsedRequest
  by_cases h₁ : code = requestRegistration
  · simp only [h₁, if_true]
    unfold handleRegistrationRequest
    cases RegistrationRequest.unpack data <;> rfl
  by_cases h₂ : code = requestPublicKey
  · simp only [h₂, if_true]
    unfold handlePublicKeyRequest
    cases PublicKeyRequest.unpack data <;> rfl
  by_cases h₃ : code = requestCrcValid
  · simp only [h₃, if_true]
    unfold handleCrcValidRequest
    cases CrcStatusRequest.unpack data <;> rfl
  by_cases h₄ : code = invalidCrcResendRequest
  · simp only [h₄, if_true]
    unfold handleInvalidCrcResendRequest
    cases CrcStatusRequest.unpack data <;> rfl
  by_cases h₅ : code = invalidCrcAbort
  · simp only [h₅, if_true]
    unfold handleInvalidCrcAbortInteractionRequest
    cases CrcStatusRequest.unpack data <;> rfl
  simp only [h₁, h₂, h₃, h₄, h₅, if_false, or_self]

theorem readData_eq (w : World) (data : Bytes) :
    readData crypto env w data = react crypto env w (.ofData data) := by
  unfold readData Received.ofData
  cases RequestHeader.unpack data with
  | none => rfl
  | some header =>
    dsimp only
    split
    · cases RequestToSendFile.begin data with
      | none => rfl
      | some p => exact receiveFile_eq crypto env w p
    · rw [requestHandle_eq]
      cases parsedRequest header.code data with
      | some request => rfl
      | none =>
        dsimp only [Received.ofParsed, react]
        congr 1
        split_ifs with h <;> simp_all

/-- A waiting thread parses first and then runs the handler of what it parsed. -/
theorem readStep_eq_react (w : World) {control : Control} (h : control.awaits = true)
    (r : RecvResult) :
    readStep crypto env w control r = react crypto env w (received control r) := by
  cases control with
  | reading =>
    match r with
    | .raises => rfl
    | .chunk [] => rfl
    | .chunk (b :: bs) => exact readData_eq crypto env w (b :: bs)
  | receiving p =>
    cases r with
    | raises => rfl
    | chunk data => exact receiveFile_eq crypto env w (p.feed data)
  | closed => cases h
  | dead e => cases h
  | spinning => cases h

variable {w : World} {handled : Option Request} {handler : ServerM Bool} {u : Turn}

theorem settle_value {b : Bool} (h : handler.run (Turn.start w env) = (.value b, u)) :
    settle env w handled handler =
      ⟨if b then .reading else if env.sendOk then .closed else .spinning, u.world, handled,
        if b = false ∧ env.sendOk = true then u.sent ++ [.registrationFailed] else u.sent,
        u.opened⟩ := by
  have hans : (answer env handler).run (Turn.start w env) =
      if b then (.value true, u) else (refuse env).run u := by
    rw [answer, Prog.run_bind, h]
    cases b <;> rfl
  rw [settle, hans]
  cases b with
  | true => rfl
  | false =>
    rw [if_neg (by decide), refuse_run]
    cases env.sendOk <;> rfl

theorem settle_raised {e : PyError} (h : handler.run (Turn.start w env) = (.raised e, u)) :
    settle env w handled handler = ⟨.dead (some e), u.world, handled, u.sent, u.opened⟩ := by
  rw [settle, answer, Prog.run_bind, h]
  rfl

theorem settle_hangs (h : handler.run (Turn.start w env) = (.hangs, u)) :
    settle env w handled handler = ⟨.spinning, u.world, handled, u.sent, u.opened⟩ := by
  rw [settle, answer, Prog.run_bind, h]
  rfl

theorem settle_written {response : Response}
    (h : handler.run (Turn.start w env) = (write env response).run u) :
    settle env w handled handler =
      ⟨if env.sendOk then .reading else .spinning, u.world, handled,
        if env.sendOk then u.sent ++ [response] else u.sent, u.opened⟩ := by
  rw [write_run] at h
  split at h
  · next hok => rw [settle_value env h, hok]; rfl
  · next hok => rw [settle_hangs env h]; simp [hok]

theorem settle_refused (h : handler.run (Turn.start w env) = (refuse env).run u) :
    settle env w handled handler =
      ⟨if env.sendOk then .closed else .spinning, u.world, handled,
        if env.sendOk then u.sent ++ [.registrationFailed, .registrationFailed] else u.sent,
        u.opened⟩ := by
  rw [refuse_run] at h
  split at h
  · next hok => rw [settle_value env h, hok]; simp
  · next hok => rw [settle_hangs env h]; simp [hok]

theorem settle_world (w : World) (handled : Option Request) (handler : ServerM Bool) :
    (settle env w handled handler).world = (handler.run (Turn.start w env)).2.world ∧
      (settle env w handled handler).opened = (handler.run (Turn.start w env)).2.opened ∧
      (settle env w handled handler).handled = handled := by
  rcases h : handler.run (Turn.start w env) with ⟨o, u⟩
  cases o with
  | value b => rw [settle_value env h]; exact ⟨rfl, rfl, rfl⟩
  | raised e => rw [settle_raised env h]; exact ⟨rfl, rfl, rfl⟩
  | hangs => rw [settle_hangs env h]; exact ⟨rfl, rfl, rfl⟩

theorem react_malformed (w : World) (refused : Bool) :
    (react crypto env w (.malformed refused)).control.awaits = false ∧
      (react crypto env w (.malformed refused)).handled = none ∧
      ∀ r ∈ (react crypto env w (.malformed refused)).sent, r = .registrationFailed := by
  cases refused with
  | true =>
    rw [react, if_pos rfl, settle_refused env rfl]
    cases env.sendOk <;> simp [Control.awaits, Turn.start]
  | false =>
    rw [react, if_neg Bool.false_ne_true, settle_value env rfl]
    cases env.sendOk <;> simp [Control.awaits, Turn.start]

theorem readStep_ended (w : World) {r : RecvResult} (hr : r = .raises ∨ r = .chunk []) :
    ∃ control, readStep crypto env w .reading r = .quiet w control ∧ control.awaits = false := by
  rcases hr with rfl | rfl
  · exact ⟨_, rfl, rfl⟩
  · exact ⟨_, rfl, rfl⟩

theorem readStep_handled_iff (w : World) {control : Control} (h : control.awaits = true)
    {r : RecvResult} {request : Request} :
    (readStep crypto env w control r).handled = some request ↔
      received control r = .parsed request := by
  rw [readStep_eq_react crypto env w h]
  cases received control r with
  | parsed q => rw [react, (settle_world env w _ _).2.2]; simp
  | malformed refused => rw [react, (settle_world env w _ _).2.2]; simp
  | partly p => simp [react]
  | endOfStream => simp [react]
  | failure => simp [react]

theorem settle_dead_iff (w : World) (handled : Option Request) (handler : ServerM Bool) :
    (∃ e, (settle env w handled handler).control = .dead e) ↔
      (handler.run (Turn.start w env)).1.isRaised = true := by
  rcases h : handler.run (Turn.start w env) with ⟨o, u⟩
  cases o with
  | value b =>
    rw [settle_value env h]
    cases b <;> cases env.sendOk <;> simp [Outcome.isRaised]
  | raised e => rw [settle_raised env h]; simp [Outcome.isRaised]
  | hangs => rw [settle_hangs env h]; simp [Outcome.isRaised]

end Reactions

end ServerThread
