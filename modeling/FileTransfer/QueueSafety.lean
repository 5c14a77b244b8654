import FileTransfer.ClientDialogue

/-! # The message queue of the client

Every handler of the table takes the front of the queue, but only the registration and the
public key go through it. With a server that keeps the protocol a run is safe as long as the
file message is not answered. -/
namespace QueueSafety

open ByteField ServerProtocol ClientChannel ClientLogic ClientLogic.Client ClientDialogue StepRun

section Definitions

/-- The server answers with the success response of the outstanding request or with a 2101. -/
def Conforms (d : Dialogue) (e : Exchange) : Prop :=
  d.client.control.awaits = true → ∃ packet, e.Accepts packet ∧
    (responseCode packet = registrationFailed ∨ d.Answers (responseCode packet))

/-- A handler of the table begins with `pop_front`, and that of a 2101 with `front` or
`pop_front`. -/
def QueueSafe (d : Dialogue) (e : Exchange) : Prop :=
  d.client.control = .running → ∀ data, (d.client.buffered e.bytes).buffer = some data →
    responseCode data = registrationFailed ∨ IsSuccess (responseCode data) →
      d.client.messageQueue ≠ []

def Queued (d : Dialogue) (_ : Exchange) : Prop :=
  d.client.control = .running →
    d.outstanding = some requestRegistration ∨ d.outstanding = some requestPublicKey

def IsQueued (message : Bytes) : Prop :=
  requestCode message = requestRegistration ∨ requestCode message = requestPublicKey

/-- The queue holds the outstanding request, or the file message is outstanding. -/
structure Tidy (d : Dialogue) : Prop where
  queue : d.client.control = .running →
    (∃ message, d.client.messageQueue = [message] ∧ IsQueued message ∧
      d.outstanding = some (requestCode message)) ∨
    d.client.messageQueue = [] ∧ d.outstanding = some requestToSendFile
  control : ∀ v, d.client.control ≠ .resending v

structure Tidies (r : Reaction) : Prop where
  queue : r.1.control = .running →
    (∃ message, r.1.messageQueue = [message] ∧ IsQueued message ∧ r.2 = some message) ∨
    r.1.messageQueue = [] ∧ ∃ message, r.2 = some message ∧
      requestCode message = requestToSendFile
  control : ∀ v, r.1.control ≠ .resending v

end Definitions

section Reactions

variable {cpp : CppCrypto} {c : Client} {d : Dialogue} {e : Exchange} {r : Reaction}
  {data packet : Bytes}

theorem tidies_atLoopHead (h : Tidies r) : Tidies (r.1.atLoopHead, r.2) := by
  rcases r.1.atLoopHead_cases with heq | heq
  · rw [heq]
    exact h
  · rw [heq]
    exact ⟨nofun, nofun⟩

theorem tidy_react (h : Tidies r) (ok : Bool) : Tidy (d.react r ok) := by
  unfold Dialogue.react
  split
  · next hnone =>
    refine ⟨fun hrunning => ?_, h.control⟩
    rcases h.queue hrunning with ⟨message, -, -, hsome⟩ | ⟨-, message, hsome, -⟩
    · cases hnone.symm.trans hsome
    · cases hnone.symm.trans hsome
  · next message hmessage =>
    split
    · refine ⟨fun hrunning => ?_, h.control⟩
      rcases h.queue hrunning with
        ⟨message', hqueue, hqueued, hsome⟩ | ⟨hqueue, message', hsome, hcode⟩
      · cases hmessage.symm.trans hsome
        exact .inl ⟨message, hqueue, hqueued, rfl⟩
      · cases hmessage.symm.trans hsome
        exact .inr ⟨hqueue, congrArg some hcode⟩
    · constructor
      · intro hrunning
        unfold writeFailed at hrunning
        split at hrunning
        · cases hrunning
        · cases hrunning
        · next hno _ => exact absurd hrunning hno
      · intro v hresending
        unfold writeFailed at hresending
        split at hresending
        · cases hresending
        · cases hresending
        · exact absurd hresending (h.control v)

theorem tidies_publicKey (hcontrol : c.control = .running) (hopen : c.isOpen = true)
    (hend : c.overrun = false) (hqueue : c.messageQueue = []) :
    Tidies c.sendPublicKeyToServer := by
  rw [sendPublicKeyToServer, addMessageToQueue_open hopen hend hqueue]
  refine ⟨fun _ => .inl ⟨_, rfl, .inr (requestCode_publicKey ..), rfl⟩, ?_⟩
  intro v hv
  cases hcontrol.symm.trans hv

theorem tidies_stopped (h : r.1.control.awaits = false) : Tidies r := by
  constructor
  · intro hrunning
    rw [hrunning] at h
    cases h
  · intro v hresending
    rw [hresending] at h
    cases h

theorem tidies_reacts (hreacts : Reacts cpp c r) (hcontrol : c.control = .running)
    (hopen : c.isOpen = true) {message : Bytes} (hqueue : c.messageQueue = [message])
    (hqueued : IsQueued message) (hdata : c.buffer = some data)
    (hcode : responseCode data = registrationFailed ∨ responseCode data = registrationSucceeded ∨
      responseCode data = publicKeyReceived) : Tidies r := by
  have htail : c.messageQueue.tail = [] := congrArg List.tail hqueue
  cases hreacts with
  | lost => exact tidies_stopped rfl
  | ends => exact tidies_stopped rfl
  | asksKey hc hend hpop =>
    apply tidies_publicKey
    · exact hc.control.trans hcontrol
    · exact hc.continues.2.2.trans hopen
    · exact hend
    · exact hpop.trans htail
  | repeats hc hsame hfront =>
    cases hqueue.symm.trans hfront
    rw [sendMessageToChannel, if_pos (hc.continues.2.2.trans hopen)]
    refine ⟨fun _ => .inl ⟨message, hsame.trans hqueue, hqueued, rfl⟩, fun v hv => ?_⟩
    cases (hc.control.trans hcontrol).symm.trans hv
  | sendsFile hc hpop =>
    rw [sendMessageToChannel, if_pos (hc.continues.2.2.trans hopen)]
    refine ⟨fun _ => .inr ⟨hpop.trans htail, _, rfl, requestCode_sendFile ..⟩, fun v hv => ?_⟩
    cases (hc.control.trans hcontrol).symm.trans hv
  | approves _ _ hdata' hcrc =>
    cases hdata.symm.trans hdata'
    rw [hcrc] at hcode
    exact absurd hcode (by decide)
  | doubts v _ _ hdata' hcrc =>
    cases hdata.symm.trans hdata'
    rw [hcrc] at hcode
    exact absurd hcode (by decide)
  | nothing hdata' h₁ h₂ h₃ =>
    cases hdata.symm.trans hdata'
    rcases hcode with hcode | hcode | hcode
    · exact absurd hcode h₂
    · exact absurd hcode h₁
    · exact absurd hcode h₃

end Reactions

section Steps

variable {cpp : CppCrypto} {d : Dialogue} {e : Exchange}

theorem answers_queued {message : Bytes} {code : ℕ} (hqueued : IsQueued message)
    (houtstanding : d.outstanding = some (requestCode message)) (h : d.Answers code) :
    code = registrationSucceeded ∨ code = publicKeyReceived := by
  rw [Dialogue.Answers, houtstanding, Option.bind_some] at h
  rcases hqueued with hcode | hcode
  · rw [hcode] at h
    exact .inl (Option.some.inj h).symm
  · rw [hcode] at h
    exact .inr (Option.some.inj h).symm

theorem queueSafe_iff (hd : Tidy d) (h : Conforms d e) : QueueSafe d e ↔ Queued d e := by
  constructor
  · intro hsafe hrunning
    obtain ⟨packet, hpacket, -⟩ := h (by rw [hrunning]; rfl)
    obtain ⟨-, data, hdata, hcode⟩ := buffered_accepts hpacket d.client
    rcases hd.queue hrunning with ⟨message, -, hqueued, houtstanding⟩ | ⟨hempty, -⟩
    · rw [houtstanding]
      exact hqueued.imp (congrArg some) (congrArg some)
    · have hhandled := accepted_code hpacket.2
      rw [← hcode] at hhandled
      exact absurd hempty (hsafe hrunning data hdata hhandled)
  · intro hqueued hrunning data _ _
    rcases hd.queue hrunning with ⟨message, hqueue, -, -⟩ | ⟨-, houtstanding⟩
    · rw [hqueue]
      exact List.cons_ne_nil _ _
    · rcases hqueued hrunning with hcode | hcode
      · cases houtstanding.symm.trans hcode
      · cases houtstanding.symm.trans hcode

/-- The step lemma: an answer to a queued request leaves the queue tidy. -/
theorem tidy_next (hd : Tidy d) (h : Conforms d e) (hqueued : Queued d e) :
    Tidy (d.next cpp e) := by
  rcases d.client.control_cases with hrunning | ⟨v, hresending⟩ | hidle
  · obtain ⟨message, hqueue, hmessage, houtstanding⟩ : ∃ message,
        d.client.messageQueue = [message] ∧ IsQueued message ∧
          d.outstanding = some (requestCode message) := by
      rcases hd.queue hrunning with htidy | ⟨-, houtstanding⟩
      · exact htidy
      · rcases hqueued hrunning with hcode | hcode
        · cases houtstanding.symm.trans hcode
        · cases houtstanding.symm.trans hcode
    obtain ⟨packet, hpacket, hanswer⟩ := h (by rw [hrunning]; rfl)
    obtain ⟨hopen, data, hdata, hcode⟩ := buffered_accepts hpacket d.client
    have hthree : responseCode data = registrationFailed ∨
        responseCode data = registrationSucceeded ∨ responseCode data = publicKeyReceived := by
      rw [hcode]
      exact hanswer.imp_right fun hanswers => answers_queued hmessage houtstanding hanswers
    apply tidy_react
    rw [receive_running hrunning]
    apply tidies_atLoopHead
    exact tidies_reacts (dispatch_reacts (by exact hrunning)) hrunning hopen hqueue hmessage hdata
      hthree
  · exact absurd hresending (hd.control v)
  · rw [next_idle hidle]
    exact hd

end Steps

section Runs

variable {cpp : CppCrypto} {c : Client} {es : List Exchange}

/-- Main theorem: with a server that keeps the protocol the queue is never empty under a
handler exactly when every response that `Run` reads answers a queued request. -/
theorem run_queueSafe_iff {name : Bytes} {id : ClientId} {publicKey : Field publicKeySize}
    {symmetricKey : Field symmetricKeySize} {fileToSend file : Bytes} {isRegistered ok : Bool}
    (h : Along (Dialogue.next cpp) Conforms
      (.start (.opened name id publicKey symmetricKey fileToSend file) isRegistered ok) es) :
    Along (Dialogue.next cpp) QueueSafe
        (.start (.opened name id publicKey symmetricKey fileToSend file) isRegistered ok) es ↔
      Along (Dialogue.next cpp) Queued
        (.start (.opened name id publicKey symmetricKey fileToSend file) isRegistered ok) es := by
  have hstart : Tidy (.start (.opened name id publicKey symmetricKey fileToSend file)
      isRegistered ok) := by
    apply tidy_react
    unfold run
    split
    · exact tidies_publicKey rfl rfl rfl rfl
    · rw [sendRegistrationRequest, addMessageToQueue_open rfl rfl rfl]
      refine ⟨fun _ => .inl ⟨_, rfl, .inl (requestCode_registration _), rfl⟩, ?_⟩
      intro v hended
      cases hended
  have hboth := @along_iff_along _ _ (Dialogue.next cpp) (fun d e => Conforms d e ∧ QueueSafe d e)
    (fun d e => Conforms d e ∧ Queued d e) Tidy
    (fun e hd => and_congr_right fun hconforms => queueSafe_iff hd hconforms)
    (fun e hd h => tidy_next hd h.1 h.2) _ hstart es
  rw [along_and, along_and] at hboth
  exact (and_congr_right_iff.mp hboth) h

section Samples

def zeroCpp : CppCrypto :=
  ⟨fun _ => 0, fun _ plain => plain, fun _ => some (.replicate symmetricKeySize 0)⟩

def zeroStart : Dialogue :=
  .start (.opened [0x61] emptyId (filled _ 0) (filled _ 0) [0x78] []) true true

theorem run_queueSafe_iff_refused :
    Along (Dialogue.next zeroCpp) QueueSafe zeroStart
      [⟨some (zeroResponse registrationFailed 0), true⟩] := by
  apply (run_queueSafe_iff ?_).mpr
  · refine ⟨fun _ => .inr ?_, trivial⟩
    decide +kernel
  · refine ⟨fun _ => ⟨_, ⟨rfl, ?_⟩, .inl ?_⟩, trivial⟩
    · decide +kernel
    · decide +kernel

/-- A registered client gets its key and then a checksum, and pops an empty queue. -/
theorem not_queueSafe_checksum : ¬∀ (cpp : CppCrypto) (name : Bytes) (id : ClientId)
    (publicKey : Field publicKeySize) (symmetricKey : Field symmetricKeySize)
    (fileToSend file : Bytes) (isRegistered ok : Bool) (es : List Exchange),
    Along (Dialogue.next cpp) Conforms
      (.start (.opened name id publicKey symmetricKey fileToSend file) isRegistered ok) es →
    Along (Dialogue.next cpp) QueueSafe
      (.start (.opened name id publicKey symmetricKey fileToSend file) isRegistered ok) es := by
  intro h
  let key : Exchange := ⟨some (zeroResponse publicKeyReceived 144), true⟩
  let crc : Exchange := ⟨some (zeroResponse msgReceivedCrc 279), true⟩
  have hkey : Conforms zeroStart key := by
    refine fun _ => ⟨_, ⟨rfl, ?_⟩, .inr ?_⟩
    · decide +kernel
    · decide +kernel
  have hcrc : Conforms (zeroStart.next zeroCpp key) crc := by
    refine fun _ => ⟨_, ⟨rfl, ?_⟩, .inr ?_⟩
    · decide +kernel
    · decide +kernel
  have hsafe := h zeroCpp [0x61] emptyId (filled _ 0) (filled _ 0) [0x78] [] true true [key, crc]
    ⟨hkey, hcrc, trivial⟩
  obtain ⟨-, hunsafe, -⟩ := hsafe
  have hrunning : (zeroStart.next zeroCpp key).client.control = .running := by
    decide +kernel
  have hempty : (zeroStart.next zeroCpp key).client.messageQueue = [] := by
    decide +kernel
  have hcode : ((zeroStart.next zeroCpp key).client.buffered crc.bytes).buffer.map responseCode =
      some msgReceivedCrc := by
    decide +kernel
  obtain ⟨data, hdata, hreceived⟩ := Option.map_eq_some_iff.mp hcode
  exact hunsafe hrunning data hdata (.inr (.inr (.inr (.inl hreceived)))) hempty

end Samples

end Runs

end QueueSafety
