import FileTransfer.ClientLogic
import FileTransfer.StepRun

/-! # The dialogue of the client with its server

The client and the code of the last request that it wrote, driven by what its socket gives.
A run may stop being read or written to at any point. `Run` and the CRC loop do not look at
what `Read` returns, so a response that was handled once is handled again when a later `Read`
fails. -/
namespace ClientDialogue

open ByteField ServerProtocol ClientChannel ClientLogic ClientLogic.Client MessageRoundTrip StepRun

section Definitions

def requestCode (message : Bytes) : ℕ := leValue (slice message (clientIdSize + 1) 2)

structure Dialogue where
  client : Client
  outstanding : Option ℕ

/-- What one `Read` gets, and whether the `Write` behind it goes through. -/
structure Exchange where
  packet : Option (Field packetSize)
  writeOk : Bool

def Exchange.bytes (e : Exchange) : Option Bytes := e.packet.map (·.val)

def Dialogue.react (d : Dialogue) (r : Reaction) (writeOk : Bool) : Dialogue :=
  match r.2 with
  | none => { d with client := r.1 }
  | some message =>
    if writeOk then ⟨r.1, some (requestCode message)⟩ else ⟨r.1.writeFailed, none⟩

def Dialogue.next (cpp : CppCrypto) (d : Dialogue) (e : Exchange) : Dialogue :=
  d.react (d.client.receive cpp e.bytes) e.writeOk

def Dialogue.start (c : Client) (isRegistered writeOk : Bool) : Dialogue :=
  Dialogue.react ⟨c, none⟩ (c.run isRegistered) writeOk

def Reached (cpp : CppCrypto) (d : Dialogue) : Prop :=
  ∃ (name : Bytes) (id : ClientId) (publicKey : Field publicKeySize)
    (symmetricKey : Field symmetricKeySize) (fileToSend file : Bytes) (isRegistered ok : Bool)
    (es : List Exchange), d = es.foldl (Dialogue.next cpp)
      (.start (.opened name id publicKey symmetricKey fileToSend file) isRegistered ok)

def successOf (request : ℕ) : Option ℕ :=
  if request = requestRegistration then some registrationSucceeded
  else if request = requestPublicKey then some publicKeyReceived
  else if request = requestToSendFile ∨ request = invalidCrcResendRequest then some msgReceivedCrc
  else if request = requestCrcValid then some msgReceived
  else none

def Dialogue.Answers (d : Dialogue) (code : ℕ) : Prop := d.outstanding.bind successOf = some code

instance (d : Dialogue) (code : ℕ) : Decidable (d.Answers code) :=
  inferInstanceAs (Decidable (_ = _))

def IsSuccess (code : ℕ) : Prop :=
  code = registrationSucceeded ∨ code = publicKeyReceived ∨ code = msgReceivedCrc ∨
    code = msgReceived

instance (code : ℕ) : Decidable (IsSuccess code) := inferInstanceAs (Decidable (_ ∨ _))

def Exchange.Accepts (e : Exchange) (packet : Bytes) : Prop :=
  e.bytes = some packet ∧ readAccepts packet = true

/-- The client stands before its dispatcher or in the CRC loop and acts on a success response
of this code. -/
def Acts (c : Client) (packet : Option Bytes) (code : ℕ) : Prop :=
  match c.control with
  | .running =>
    (∃ data, (c.buffered packet).buffer = some data ∧ responseCode data = code) ∧ IsSuccess code
  | .resending validresponse =>
    responseCode (read packet validresponse).2 = code ∧ code = msgReceivedCrc
  | _ => False

def zeroResponse (code payloadSize : ℕ) : Field packetSize :=
  ⟨padded packetSize ([2] ++ leBytes 2 code ++ leBytes 4 payloadSize), length_padded ..⟩

end Definitions

section Requests

theorem requestCode_header {id : ClientId} {code size : ℕ} (h : code < 256 ^ 2) (rest : Bytes) :
    requestCode (requestHeader id code size ++ rest) = code := by
  have hcode : slice (requestHeader id code size ++ rest) (clientIdSize + 1) 2 =
      leBytes 2 code := by
    simp only [requestHeader, List.append_assoc]
    rw [← List.append_assoc]
    apply slice_middle
    · simp [id.property]
    · simp
  rw [requestCode, hcode, leValue_leBytes_of_lt h]

theorem requestCode_registration (name : Bytes) :
    requestCode (registrationRequestMessage name) = requestRegistration := by
  apply requestCode_header
  decide

theorem requestCode_publicKey (id : ClientId) (name : Bytes) (publicKey : Field publicKeySize) :
    requestCode (publicKeyRequestMessage id name publicKey) = requestPublicKey := by
  rw [publicKeyRequestMessage, List.append_assoc]
  apply requestCode_header
  decide

theorem requestCode_sendFile (id : ClientId) (contentSize : ℕ) (fileName : Field fileNameSize)
    (encrypted : Bytes) :
    requestCode (requestToSendFileMessage id contentSize fileName encrypted) =
      requestToSendFile := by
  rw [requestToSendFileMessage, List.append_assoc, List.append_assoc]
  apply requestCode_header
  decide

theorem requestCode_crcStatus {code : ℕ} (h : code < 256 ^ 2) (id : ClientId)
    (fileName : Field fileNameSize) :
    requestCode (crcStatusRequestMessage code id fileName) = code := by
  rw [crcStatusRequestMessage, List.append_assoc]
  exact requestCode_header h _

end Requests

section Reading

variable {cpp : CppCrypto} {c : Client} {d : Dialogue} {e : Exchange} {packet : Bytes}

theorem accepted_code (h : readAccepts packet = true) :
    responseCode packet = registrationFailed ∨ IsSuccess (responseCode packet) := by
  by_contra hno
  unfold IsSuccess at hno
  push Not at hno
  obtain ⟨hfailed, hregistration, hkey, hcrc, happroved⟩ := hno
  have hzero : getHeader packet ≠ 0 := by
    intro hzero
    simp [readAccepts, hzero, hfailed, happroved] at h
  unfold getHeader at hzero
  dsimp only at hzero
  split at hzero
  · exact hzero rfl
  · next hrange =>
    rw [not_or, not_lt, not_lt] at hrange
    unfold registrationSucceeded registrationFailed publicKeyReceived msgReceivedCrc msgReceived
      at *
    omega

theorem Exchange.Accepts.length (h : e.Accepts packet) : packet.length = packetSize := by
  obtain ⟨field, -, rfl⟩ := Option.map_eq_some_iff.mp h.1
  exact field.property

theorem header_le (h : e.Accepts packet) : headerSize ≤ packet.length := by
  rw [h.length]
  decide

theorem buffered_accepts (h : e.Accepts packet) (c : Client) :
    (c.buffered e.bytes).isOpen = true ∧ ∃ data, (c.buffered e.bytes).buffer = some data ∧
      responseCode data = responseCode packet := by
  rw [h.1]
  obtain ⟨hopen, rest, hdata⟩ := buffered_accepted h.2 c
  exact ⟨hopen, _, hdata, (header_copied (header_le h) _ _).1⟩

theorem read_accepts (h : e.Accepts packet) (validresponse : Bytes) :
    (read e.bytes validresponse).1 = true ∧
      responseCode (read e.bytes validresponse).2 = responseCode packet := by
  rw [h.1, read_accepted h.2]
  exact ⟨rfl, (header_copied (header_le h) _ _).1⟩

theorem getHeader_crcValue (h : readAccepts packet = true)
    (hcode : responseCode packet = msgReceivedCrc) :
    getHeader packet = clientIdSize + 4 + fileNameSize + 4 := by
  have hne : getHeader packet ≠ 0 := by
    intro hzero
    simp [readAccepts, hzero, hcode, msgReceivedCrc, registrationFailed, msgReceived] at h
  unfold getHeader at hne ⊢
  dsimp only at hne ⊢
  rw [hcode, if_neg (by decide), if_neg (by decide)] at hne ⊢
  split at hne
  · next hsize =>
    rw [if_pos hsize, hsize]
    rfl
  · exact absurd rfl hne

theorem crcField_copied {off len : ℕ} (hlength : packet.length = packetSize)
    (h : readAccepts packet = true) (hcode : responseCode packet = msgReceivedCrc)
    (hfield : off + len ≤ headerSize + (clientIdSize + 4 + fileNameSize + 4)) (rest : Bytes) :
    slice (packet.take (getHeader packet + headerSize) ++ rest) off len = slice packet off len := by
  apply slice_copied
  · rw [getHeader_crcValue h hcode]
    omega
  · rw [hlength]
    exact hfield.trans (by decide)

theorem checksum_copied (hlength : packet.length = packetSize)
    (h : readAccepts packet = true) (hcode : responseCode packet = msgReceivedCrc)
    (rest : Bytes) :
    checksum (packet.take (getHeader packet + headerSize) ++ rest) = checksum packet := by
  unfold checksum
  rw [crcField_copied hlength h hcode]
  decide

theorem rejects_iff : (¬∃ packet, e.Accepts packet) ↔
    ∀ packet, e.bytes = some packet → readAccepts packet = false := by
  constructor
  · intro h packet hpacket
    by_contra haccepts
    exact h ⟨packet, hpacket, by simpa using haccepts⟩
  · rintro h ⟨packet, hpacket, haccepts⟩
    rw [h packet hpacket] at haccepts
    cases haccepts

theorem buffered_rejects (h : ¬∃ packet, e.Accepts packet) (c : Client) :
    c.buffered e.bytes = { c with isOpen := false } := by
  rw [buffered, read_rejected (rejects_iff.mp h)]
  rfl

theorem read_rejects (h : ¬∃ packet, e.Accepts packet) (validresponse : Bytes) :
    read e.bytes validresponse = (false, validresponse) :=
  read_rejected (rejects_iff.mp h) validresponse

theorem acts_running (h : c.control = .running) (bytes : Option Bytes) (code : ℕ) :
    Acts c bytes code ↔ (∃ data, (c.buffered bytes).buffer = some data ∧
      responseCode data = code) ∧ IsSuccess code := by
  unfold Acts
  rw [h]

theorem acts_resending {v : Bytes} (h : c.control = .resending v) (bytes : Option Bytes)
    (code : ℕ) : Acts c bytes code ↔ responseCode (read bytes v).2 = code ∧
      code = msgReceivedCrc := by
  unfold Acts
  rw [h]

theorem awaits_of_acts {bytes : Option Bytes} {code : ℕ} (h : Acts c bytes code) :
    c.control.awaits = true := by
  unfold Acts at h
  split at h
  · next hc => rw [hc]; rfl
  · next hc => rw [hc]; rfl
  · exact h.elim

theorem receive_idle (h : c.control.awaits = false) (packet : Option Bytes) :
    c.receive cpp packet = (c, none) := by
  unfold receive
  split
  · next hc => rw [hc] at h; cases h
  · next hc => rw [hc] at h; cases h
  · rfl

theorem next_idle (h : d.client.control.awaits = false) : d.next cpp e = d := by
  rw [Dialogue.next, receive_idle h]
  rfl

theorem dispatch_buffer (h : c.control = .running) : (dispatch cpp c).1.buffer = c.buffer :=
  (dispatch_reacts h).members.2.1

theorem react_client {P : Client → Prop} {r : Reaction} (d : Dialogue) (ok : Bool) (h : P r.1)
    (hfailed : P r.1.writeFailed) : P (d.react r ok).client := by
  unfold Dialogue.react
  split
  · exact h
  · split
    · exact h
    · exact hfailed

theorem react_buffer (d : Dialogue) (r : Reaction) (ok : Bool) :
    (d.react r ok).client.buffer = r.1.buffer := by
  apply react_client (P := fun c => c.buffer = r.1.buffer)
  · rfl
  · unfold writeFailed
    split <;> rfl

theorem atLoopHead_buffer (c : Client) : c.atLoopHead.buffer = c.buffer := by
  rcases c.atLoopHead_cases with heq | heq
  · rw [heq]
  · rw [heq]

theorem addMessageToQueue_buffer (c : Client) (message : Bytes) :
    (c.addMessageToQueue message).1.buffer = c.buffer := by
  unfold addMessageToQueue sendNextMessage
  split
  · rfl
  · split <;> rfl

theorem run_buffer (c : Client) (isRegistered : Bool) :
    (c.run isRegistered).1.buffer = c.buffer := by
  unfold run
  split
  · rw [sendPublicKeyToServer, addMessageToQueue_buffer]
  · rw [sendRegistrationRequest, addMessageToQueue_buffer]

/-- What holds at the first `Read` of `Run` and is kept by every step holds in every run. -/
theorem Reached.induct {P : Dialogue → Prop} (h : Reached cpp d)
    (hstart : ∀ (name : Bytes) (id : ClientId) (publicKey : Field publicKeySize)
      (symmetricKey : Field symmetricKeySize) (fileToSend file : Bytes) (isRegistered ok : Bool),
      P (.start (.opened name id publicKey symmetricKey fileToSend file) isRegistered ok))
    (hstep : ∀ d e, P d → P (d.next cpp e)) : P d := by
  obtain ⟨name, id, publicKey, symmetricKey, fileToSend, file, isRegistered, ok, es, rfl⟩ := h
  induction es using List.reverseRecOn with
  | nil => exact hstart ..
  | append_singleton es e ih =>
    rw [List.foldl_append]
    exact hstep _ e ih

theorem next_buffer :
    (d.client.control = .running →
      (d.next cpp e).client.buffer = (d.client.buffered e.bytes).buffer) ∧
    (∀ v, d.client.control = .resending v → (d.next cpp e).client.buffer = d.client.buffer) := by
  rw [Dialogue.next, react_buffer]
  constructor
  · intro hrunning
    rw [receive_running hrunning, atLoopHead_buffer]
    exact dispatch_buffer hrunning
  · intro v hresending
    rw [receive_resending hresending, atLoopHead_buffer]
    exact (checkResponse_proceeds _ _).buffer

end Reading

section Speaking

variable {cpp : CppCrypto} {c c' : Client} {r : Reaction} {message : Bytes}

def IsRequest (message : Bytes) : Prop :=
  requestHeaderSize ≤ message.length ∧ requestCode message ≠ invalidCrcAbort

theorem isRequest_header {id : ClientId} {code size : ℕ} (h : code < 256 ^ 2)
    (hne : code ≠ invalidCrcAbort) (rest : Bytes) :
    IsRequest (requestHeader id code size ++ rest) := by
  constructor
  · rw [List.length_append, length_requestHeader]
    exact Nat.le_add_right _ _
  · rw [requestCode_header h]
    exact hne

theorem isRequest_registration (name : Bytes) : IsRequest (registrationRequestMessage name) := by
  apply isRequest_header
  · decide
  · decide

theorem isRequest_publicKey (id : ClientId) (name : Bytes) (publicKey : Field publicKeySize) :
    IsRequest (publicKeyRequestMessage id name publicKey) := by
  rw [publicKeyRequestMessage, List.append_assoc]
  apply isRequest_header
  · decide
  · decide

theorem isRequest_sendFile (id : ClientId) (contentSize : ℕ) (fileName : Field fileNameSize)
    (encrypted : Bytes) :
    IsRequest (requestToSendFileMessage id contentSize fileName encrypted) := by
  rw [requestToSendFileMessage, List.append_assoc, List.append_assoc]
  apply isRequest_header
  · decide
  · decide

theorem isRequest_crcStatus {code : ℕ} (h : code < 256 ^ 2) (hne : code ≠ invalidCrcAbort)
    (id : ClientId) (fileName : Field fileNameSize) :
    IsRequest (crcStatusRequestMessage code id fileName) := by
  rw [crcStatusRequestMessage, List.append_assoc]
  exact isRequest_header h hne _

def Sayable (c : Client) (message : Bytes) : Prop := message ∈ c.messageQueue ∨ IsRequest message

/-- What the client says in a reaction: a client that goes on has asked for something, unless
its channel is closed. -/
structure Speaks (c : Client) (r : Reaction) : Prop where
  queue : ∀ message ∈ r.1.messageQueue, Sayable c message
  message : ∀ message, r.2 = some message → r.1.control.awaits = true → Sayable c message
  silent : r.2 = none → r.1.control.awaits = true → r.1.control = .running ∧ r.1.isOpen = false
  resending : ∀ v, r.1.control = .resending v →
    ∃ message, r.2 = some message ∧ requestCode message = invalidCrcResendRequest

theorem speaks_last (hqueue : ∀ message ∈ c'.messageQueue, Sayable c message)
    (h : c'.control.awaits = false) (message : Option Bytes) : Speaks c (c', message) := by
  refine ⟨hqueue, fun _ _ hawaits => ?_, fun _ hawaits => ?_, fun v hv => ?_⟩
  · exact nomatch h.symm.trans hawaits
  · exact nomatch h.symm.trans hawaits
  · dsimp only at hv
    rw [hv] at h
    cases h

theorem speaks_sends (hqueue : ∀ message ∈ c'.messageQueue, Sayable c message)
    (h : c'.control = .running) (hmessage : Sayable c message) :
    Speaks c (c'.sendMessageToChannel message) := by
  refine ⟨hqueue, fun message' hsome _ => ?_, fun hnone _ => ?_, fun v hv => ?_⟩
  · unfold sendMessageToChannel at hsome
    dsimp only at hsome
    split at hsome
    · cases hsome
      exact hmessage
    · cases hsome
  · unfold sendMessageToChannel at hnone ⊢
    dsimp only at hnone ⊢
    split at hnone
    · cases hnone
    · next hclosed => exact ⟨h, by simpa using hclosed⟩
  · exact nomatch h.symm.trans hv

theorem speaks_crcLoop (hqueue : ∀ message ∈ c'.messageQueue, Sayable c message) (v : Bytes) :
    Speaks c (c'.crcLoop v) := by
  unfold crcLoop
  split
  · split
    · refine ⟨hqueue, ?_, nofun, ?_⟩
      · rintro message ⟨⟩ -
        exact .inr (isRequest_crcStatus (by decide) (by decide) _ _)
      · intro _ _
        exact ⟨_, rfl, requestCode_crcStatus (by decide) _ _⟩
    · apply speaks_last
      · exact hqueue
      · rfl
  · apply speaks_last
    · exact hqueue
    · rfl

theorem speaks_checkResponse (c : Client) (v : Bytes) : Speaks c (c.checkResponse v) := by
  have hqueue : ∀ message ∈ c.messageQueue, Sayable c message := fun _ hm => .inl hm
  unfold checkResponse
  split
  · split
    · apply speaks_sends
      · exact hqueue
      · rfl
      · exact .inr (isRequest_crcStatus (by decide) (by decide) _ _)
    · apply speaks_crcLoop
      exact hqueue
  · exact speaks_crcLoop hqueue v

theorem speaks_addMessage (hqueue : ∀ message ∈ c'.messageQueue, Sayable c message)
    (h : c'.control = .running) (hmessage : IsRequest message) :
    Speaks c (c'.addMessageToQueue message) := by
  have hlonger : ∀ m ∈ c'.messageQueue ++ [message], Sayable c m := by
    intro m hm
    rcases List.mem_append.mp hm with hm | hm
    · exact hqueue m hm
    · rw [List.mem_singleton.mp hm]
      exact .inr hmessage
  unfold addMessageToQueue
  by_cases hend : c'.overrun = true
  · rw [if_pos hend]
    apply speaks_last
    · exact hqueue
    · rfl
  rw [if_neg hend, sendNextMessage]
  dsimp only
  split
  · next front rest _ hfront =>
    apply speaks_sends
    · exact hlonger
    · exact h
    · apply hlonger
      rw [hfront]
      exact List.mem_cons_self
  · next hno =>
    refine ⟨hlonger, nofun, fun _ _ => ⟨h, ?_⟩, fun v hv => nomatch h.symm.trans hv⟩
    cases hopen : c'.isOpen with
    | false => rfl
    | true =>
      obtain ⟨front, rest, hfront⟩ := List.exists_cons_of_ne_nil
        (List.append_ne_nil_of_right_ne_nil c'.messageQueue (List.cons_ne_nil message []))
      exact absurd hfront (hno front rest hopen)

theorem speaks_reacts (hreacts : Reacts cpp c r) (h : c.control = .running)
    (hcode : c.isOpen = true → ∀ data, c.buffer = some data →
      responseCode data = registrationFailed ∨ IsSuccess (responseCode data)) : Speaks c r := by
  have hqueue : ∀ {c'}, Keeps c c' → ∀ message ∈ c'.messageQueue, Sayable c message :=
    fun hc message hm => .inl (hc.queue message hm)
  cases hreacts with
  | lost hc =>
    apply speaks_last
    · exact (hqueue hc :)
    · rfl
  | ends error hc =>
    apply speaks_last
    · exact (hqueue hc :)
    · rfl
  | asksKey hc =>
    apply speaks_addMessage (hqueue hc)
    · exact hc.control.trans h
    · exact isRequest_publicKey ..
  | repeats hc _ hfront =>
    apply speaks_sends (hqueue hc)
    · exact hc.control.trans h
    · exact .inl (hfront ▸ List.mem_cons_self)
  | sendsFile hc =>
    apply speaks_sends (hqueue hc)
    · exact hc.control.trans h
    · exact .inr (isRequest_sendFile ..)
  | approves hc =>
    apply speaks_sends (hqueue hc)
    · exact hc.control.trans h
    · exact .inr (isRequest_crcStatus (by decide) (by decide) _ _)
  | doubts v hc => exact speaks_crcLoop (hqueue hc) v
  | nothing hdata h₁ h₂ h₃ h₄ h₅ =>
    refine ⟨fun _ hm => .inl hm, nofun, fun _ _ => ⟨h, ?_⟩, fun v hv => nomatch h.symm.trans hv⟩
    by_contra hopen
    rcases hcode (by simpa using hopen) _ hdata with hfailed | hr | hk | hc | ha
    · exact h₂ hfailed
    · exact h₁ hr
    · exact h₃ hk
    · exact h₄ hc
    · exact h₅ ha

theorem speaks_atLoopHead (h : Speaks c r) : Speaks c (r.1.atLoopHead, r.2) ∧
    (r.2 = none → r.1.atLoopHead.control.awaits = false) := by
  unfold atLoopHead
  split
  · refine ⟨?_, fun _ => rfl⟩
    apply speaks_last
    · exact h.queue
    · rfl
  · next hopen =>
    refine ⟨h, fun hnone => ?_⟩
    by_contra hawaits
    exact hopen (h.silent hnone (by simpa using hawaits))

/-- The spec of a reaction: what it says, and that a client that goes on has spoken. -/
theorem receive_speaks (hawaits : c.control.awaits = true) {packet : Option Bytes}
    (hlength : ∀ p, packet = some p → headerSize ≤ p.length) :
    Speaks c (c.receive cpp packet) ∧
      ((c.receive cpp packet).2 = none → (c.receive cpp packet).1.control.awaits = false) := by
  rcases awaits_cases hawaits with hc | ⟨v, hc⟩
  · rw [receive_running hc]
    apply speaks_atLoopHead
    have hdispatch : Speaks (c.buffered packet) (dispatch cpp (c.buffered packet)) := by
      apply speaks_reacts (dispatch_reacts (by exact hc))
      · exact hc
      intro hopen data hdata
      cases haccepts : (read packet (c.buffer.getD [])).1 with
      | false =>
        have hclosed : (c.buffered packet).isOpen = false := haccepts
        exact nomatch hclosed.symm.trans hopen
      | true =>
        cases packet with
        | none => cases haccepts
        | some p =>
          have hp : readAccepts p = true := by
            by_contra hno
            rw [read_rejected] at haccepts
            · cases haccepts
            · rintro _ ⟨⟩
              simpa using hno
          obtain ⟨-, rest, hbuffer⟩ := buffered_accepted hp c
          cases hbuffer.symm.trans hdata
          rw [(header_copied (hlength p rfl) _ _).1]
          exact accepted_code hp
    exact ⟨hdispatch.queue, hdispatch.message, hdispatch.silent, hdispatch.resending⟩
  · rw [receive_resending hc]
    apply speaks_atLoopHead
    have hcheck := speaks_checkResponse { c with isOpen := (read packet v).1 } (read packet v).2
    exact ⟨hcheck.queue, hcheck.message, hcheck.silent, hcheck.resending⟩

theorem receive_rejected (hawaits : c.control.awaits = true) {packet : Option Bytes}
    (hp : ∀ p, packet = some p → readAccepts p = false) : (c.receive cpp packet).2 = none := by
  rcases awaits_cases hawaits with hc | ⟨v, hc⟩
  · by_cases h : c.Unapproved
    · exact (receive_fails hawaits h hp).1
    · unfold Unapproved at h
      push Not at h
      obtain ⟨data, hdata, hcode⟩ := h
      have hbuffered : (c.buffered packet).buffer = some data := by
        rw [buffered, read_rejected hp]
        exact hdata
      rw [receive_running hc, dispatch_approved hbuffered hcode]
  · rw [receive_resending hc, read_rejected hp]
    exact ((checkResponse_proceeds { c with isOpen := false } v).silent rfl).1

theorem run_speaks (h : c.control = .running) (isRegistered : Bool) :
    Speaks c (c.run isRegistered) := by
  have hqueue : ∀ message ∈ c.messageQueue, Sayable c message := fun _ hm => .inl hm
  unfold run
  split
  · exact speaks_addMessage hqueue h (isRequest_publicKey ..)
  · exact speaks_addMessage hqueue h (isRequest_registration _)

end Speaking

end ClientDialogue
