import FileTransfer.CrcRetryLoop
import FileTransfer.QueueSafety

/-! # The retries of the client

A 2101 has the front of the message queue sent again. Only the registration and the public key
wait in the queue: the file message and the requests about its checksum bypass it, and a 2101
behind one of them finds the queue empty. -/
namespace RetryLaw

open ByteField ServerProtocol ClientChannel ClientLogic ClientLogic.Client ClientDialogue StepRun
open QueueSafety (IsQueued)
open CrcRetryLoop (isRight attemptsAfter receive_right receive_wrong crcLoop_open crcLoop_last)

section Definitions

variable (cpp : CppCrypto)

/-- The dialogue with the request that was sent most recently, how often it was sent, and how
many 2101s were handled since. -/
structure Tracked where
  dialogue : Dialogue
  last : Option Bytes
  transmissions : ℕ
  refusals : ℕ

def refuses (d : Dialogue) (e : Exchange) : Bool :=
  decide (d.client.control = .running) && (d.client.buffered e.bytes).buffer.any fun data =>
    responseCode data = registrationFailed

/-- The client sends its last request once more: behind a 2101, or from the CRC loop. -/
def resends (d : Dialogue) (e : Exchange) : Bool :=
  refuses d e || decide (d.client.control ≠ .running) &&
    decide ((d.client.receive cpp e.bytes).2.map requestCode = some invalidCrcResendRequest)

def Tracked.next (m : Tracked) (e : Exchange) : Tracked where
  dialogue := m.dialogue.next cpp e
  last := (m.dialogue.client.receive cpp e.bytes).2.or m.last
  transmissions :=
    if (m.dialogue.client.receive cpp e.bytes).2 = none then m.transmissions
    else if resends cpp m.dialogue e then m.transmissions + 1 else 1
  refusals := if refuses m.dialogue e then m.refusals + 1 else 0

def Tracked.start (c : Client) (isRegistered ok : Bool) : Tracked :=
  ⟨.start c isRegistered ok, (c.run isRegistered).2, 1, 0⟩

/-- A 2101 has the last request sent again, or ends the session. -/
structure Lawful (m : Tracked) (e : Exchange) : Prop where
  repeats : refuses m.dialogue e = true → 0 < m.dialogue.client.numOfAttempts →
    (m.dialogue.client.receive cpp e.bytes).2 =
        (if (m.dialogue.client.buffered e.bytes).isOpen then m.last else none) ∧
      (m.dialogue.client.receive cpp e.bytes).1.control ≠ .lost
  bounded : (m.next cpp e).transmissions ≤ 1 + maxAttempts
  ends : refuses m.dialogue e = true → m.refusals = maxAttempts →
    (m.dialogue.client.receive cpp e.bytes).2 = none ∧
      (m.next cpp e).dialogue.client.control = .ended true

/-- A response that lets the CRC loop send another 1105. -/
def Reasks (c : Client) (e : Exchange) : Prop :=
  ∃ packet, e.Accepts packet ∧ isRight c.calculatedCrc packet = false ∧
    attemptsAfter packet c.crcAttempts < maxAttempts

/-- A 2101 finds a registration or a public key request outstanding, and no loop comes to a fifth
1105. -/
structure Repeatable (m : Tracked) (e : Exchange) : Prop where
  queued : refuses m.dialogue e = true → 0 < m.dialogue.client.numOfAttempts →
    m.dialogue.outstanding = some requestRegistration ∨
      m.dialogue.outstanding = some requestPublicKey
  settled : (∃ v, m.dialogue.client.control = .resending v) → m.transmissions = 1 + maxAttempts →
    ¬Reasks m.dialogue.client e

/-- The last request is alone in the queue and its attempts are counted, or it bypassed the empty
queue. -/
def Booked (m : Tracked) : Prop :=
  ∃ message, m.last = some message ∧ m.dialogue.outstanding = some (requestCode message) ∧
    (m.dialogue.client.messageQueue = [message] ∧ IsQueued message ∧
        m.dialogue.client.control = .running ∧ m.transmissions = m.refusals + 1 ∧
        m.dialogue.client.numOfAttempts + m.refusals = maxAttempts ∨
      m.dialogue.client.messageQueue = [] ∧ ¬IsQueued message ∧ m.refusals = 0)

structure Ledger (m : Tracked) : Prop where
  bounded : m.transmissions ≤ 1 + maxAttempts
  last : m.dialogue.client.control.awaits = true → Booked m

def Renews (r : Reaction) : Prop :=
  r.1.control.awaits = true → ∃ message, r.2 = some message ∧
    (r.1.messageQueue = [message] ∧ IsQueued message ∧ r.1.control = .running ∧
        r.1.numOfAttempts = maxAttempts ∨
      r.1.messageQueue = [] ∧ ¬IsQueued message)

end Definitions

section Reactions

variable {cpp : CppCrypto} {c : Client} {r : Reaction} {data : Bytes}

theorem renews_ends (h : r.1.control.awaits = false) : Renews r := by
  intro hawaits
  rw [h] at hawaits
  cases hawaits

theorem renews_atLoopHead (h : Renews r) : Renews (r.1.atLoopHead, r.2) := by
  rcases r.1.atLoopHead_cases with heq | heq
  · rw [heq]
    exact h
  · rw [heq]
    exact renews_ends rfl

theorem renews_addMessage (hopen : c.isOpen = true) (hend : c.overrun = false)
    (hqueue : c.messageQueue = []) (hcontrol : c.control = .running) {message : Bytes}
    (h : IsQueued message) : Renews (c.addMessageToQueue message) := by
  rw [addMessageToQueue_open hopen hend hqueue]
  exact fun _ => ⟨message, rfl, .inl ⟨rfl, h, hcontrol, rfl⟩⟩

theorem renews_sends (hopen : c.isOpen = true) (hqueue : c.messageQueue = []) {message : Bytes}
    (h : ¬IsQueued message) : Renews (c.sendMessageToChannel message) := by
  rw [sendMessageToChannel, if_pos hopen]
  exact fun _ => ⟨message, rfl, .inr ⟨hqueue, h⟩⟩

theorem not_queued_sendFile (id : ClientId) (contentSize : ℕ) (fileName : Field fileNameSize)
    (encrypted : Bytes) :
    ¬IsQueued (requestToSendFileMessage id contentSize fileName encrypted) := by
  unfold IsQueued
  rw [requestCode_sendFile]
  decide

theorem not_queued_crcStatus {code : ℕ} (hcode : code < 256 ^ 2)
    (h : code ≠ requestRegistration ∧ code ≠ requestPublicKey) (id : ClientId)
    (fileName : Field fileNameSize) : ¬IsQueued (crcStatusRequestMessage code id fileName) := by
  unfold IsQueued
  rw [requestCode_crcStatus hcode, not_or]
  exact h

theorem renews_crcLoop (hqueue : c.messageQueue = []) (v : Bytes) : Renews (c.crcLoop v) := by
  unfold crcLoop
  split
  · split
    · refine fun _ => ⟨_, rfl, .inr ⟨hqueue, ?_⟩⟩
      apply not_queued_crcStatus
      · decide
      · decide
    · exact renews_ends rfl
  · exact renews_ends rfl

theorem renews_checkResponse (hopen : c.isOpen = true) (hqueue : c.messageQueue = [])
    (v : Bytes) : Renews (c.checkResponse v) := by
  unfold checkResponse
  split
  · split
    · apply renews_sends
      · exact hopen
      · exact hqueue
      · apply not_queued_crcStatus
        · decide
        · decide
    · apply renews_crcLoop
      exact hqueue
  · exact renews_crcLoop hqueue v

theorem renews_reacts (hreacts : Reacts cpp c r) (hopen : c.isOpen = true)
    (hqueue : c.messageQueue.tail = []) (hcontrol : c.control = .running)
    (hdata : c.buffer = some data) (hcode : IsSuccess (responseCode data)) : Renews r := by
  cases hreacts with
  | lost => exact renews_ends rfl
  | ends => exact renews_ends rfl
  | asksKey hc hend hpop =>
    apply renews_addMessage
    · exact hc.continues.2.2.trans hopen
    · exact hend
    · exact hpop.trans hqueue
    · exact hc.control.trans hcontrol
    · exact .inr (requestCode_publicKey ..)
  | repeats _ _ _ hdata' hfailed =>
    cases hdata.symm.trans hdata'
    rw [hfailed] at hcode
    exact absurd hcode (by decide)
  | sendsFile hc hpop =>
    apply renews_sends
    · exact hc.continues.2.2.trans hopen
    · exact hpop.trans hqueue
    · apply not_queued_sendFile
  | approves hc hpop =>
    apply renews_sends
    · exact hc.continues.2.2.trans hopen
    · exact hpop.trans hqueue
    · apply not_queued_crcStatus
      · decide
      · decide
  | doubts v _ hpop => exact renews_crcLoop (hpop.trans hqueue) v
  | nothing hdata' h₁ h₂ h₃ h₄ h₅ =>
    cases hdata.symm.trans hdata'
    rcases hcode with hcode | hcode | hcode | hcode
    · exact absurd hcode h₁
    · exact absurd hcode h₃
    · exact absurd hcode h₄
    · exact absurd hcode h₅

end Reactions

section Steps

variable {cpp : CppCrypto} {c : Client} {m : Tracked} {d : Dialogue} {e : Exchange}
  {data packet message : Bytes} {r : Reaction}

theorem refuses_iff : refuses d e = true ↔ d.client.control = .running ∧
    ∃ data, (d.client.buffered e.bytes).buffer = some data ∧
      responseCode data = registrationFailed := by
  unfold refuses
  rw [Bool.and_eq_true, decide_eq_true_eq]
  apply and_congr_right
  intro _
  cases (d.client.buffered e.bytes).buffer with
  | none => simp
  | some data => simp

theorem receive_refused (h : refuses d e = true) : d.client.receive cpp e.bytes =
    let r := (d.client.buffered e.bytes).handelRegistrationFailed
    (r.1.atLoopHead, r.2) := by
  obtain ⟨hrunning, data, hdata, hcode⟩ := refuses_iff.mp h
  rw [receive_running hrunning, dispatch_failed hdata hcode]

theorem refused_empty (hattempts : 0 < c.numOfAttempts) (hqueue : c.messageQueue = []) :
    c.handelRegistrationFailed = ({ c with control := .lost }, none) := by
  rw [handelRegistrationFailed, if_pos hattempts, hqueue]

theorem refused_queued (hattempts : 0 < c.numOfAttempts) (hqueue : c.messageQueue = [message]) :
    c.handelRegistrationFailed = ({ c with numOfAttempts := c.numOfAttempts - 1 },
      if c.isOpen then some message else none) := by
  rw [handelRegistrationFailed, if_pos hattempts, hqueue]
  rfl

theorem refused_last (hattempts : c.numOfAttempts = 0) :
    c.handelRegistrationFailed = (endSession c.popFront true, none) := by
  rw [handelRegistrationFailed, if_neg (by omega)]

theorem repeats_queued (h : refuses m.dialogue e = true)
    (hattempts : 0 < m.dialogue.client.numOfAttempts)
    (hqueue : m.dialogue.client.messageQueue = [message]) :
    m.dialogue.client.receive cpp e.bytes =
      (({ m.dialogue.client.buffered e.bytes with
          numOfAttempts := m.dialogue.client.numOfAttempts - 1 } : Client).atLoopHead,
        if (m.dialogue.client.buffered e.bytes).isOpen then some message else none) := by
  rw [receive_refused h,
    @refused_queued (m.dialogue.client.buffered e.bytes) message hattempts hqueue]
  rfl

theorem repeats_empty (h : refuses m.dialogue e = true)
    (hattempts : 0 < m.dialogue.client.numOfAttempts)
    (hqueue : m.dialogue.client.messageQueue = []) :
    (m.dialogue.client.receive cpp e.bytes).1.control = .lost := by
  rw [receive_refused h, @refused_empty (m.dialogue.client.buffered e.bytes) hattempts hqueue]
  rfl

theorem repeats_last (h : refuses m.dialogue e = true)
    (hattempts : m.dialogue.client.numOfAttempts = 0) :
    (m.dialogue.client.receive cpp e.bytes).2 = none ∧
      (m.dialogue.client.receive cpp e.bytes).1.control = .ended true := by
  rw [receive_refused h, @refused_last (m.dialogue.client.buffered e.bytes) hattempts]
  exact ⟨rfl, rfl⟩

theorem reasks_iff {v : Bytes} (hv : c.control = .resending v) :
    (c.receive cpp e.bytes).2.map requestCode = some invalidCrcResendRequest ↔ Reasks c e := by
  by_cases haccepts : ∃ packet, e.Accepts packet
  · obtain ⟨packet, hp⟩ := haccepts
    have hpacket : ∀ packet', e.Accepts packet' → packet' = packet := by
      intro packet' hp'
      exact Option.some.inj (hp'.1.symm.trans hp.1)
    cases hright : isRight c.calculatedCrc packet with
    | true =>
      rw [receive_right hv hp hright, Option.map_some, crcStatusMessage,
        requestCode_crcStatus (by decide)]
      constructor
      · intro hcode
        exact absurd hcode (by decide)
      · rintro ⟨packet', hp', hwrong, -⟩
        rw [hpacket packet' hp', hright] at hwrong
        cases hwrong
    | false =>
      obtain ⟨data, hreceive⟩ := @receive_wrong cpp _ _ _ _ hv hp hright
      rw [hreceive]
      by_cases hbelow : attemptsAfter packet c.crcAttempts < maxAttempts
      · rw [crcLoop_open rfl hbelow]
        dsimp only
        rw [Option.map_some, crcStatusMessage, requestCode_crcStatus (by decide)]
        exact ⟨fun _ => ⟨packet, hp, hright, hbelow⟩, fun _ => rfl⟩
      · rw [crcLoop_last rfl hbelow]
        dsimp only
        rw [Option.map_some, crcStatusMessage, requestCode_crcStatus (by decide)]
        constructor
        · intro hcode
          exact absurd hcode (by decide)
        · rintro ⟨packet', hp', -, hbelow'⟩
          rw [hpacket packet' hp'] at hbelow'
          exact absurd hbelow' hbelow
  · rw [receive_rejected (by rw [hv]; rfl) (rejects_iff.mp haccepts)]
    constructor
    · intro hcode
      cases hcode
    · rintro ⟨packet, hp, -⟩
      exact absurd ⟨packet, hp⟩ haccepts

theorem transmissions_le_iff (hm : m.transmissions ≤ 1 + maxAttempts) :
    (m.next cpp e).transmissions ≤ 1 + maxAttempts ↔
      (resends cpp m.dialogue e = true → (m.dialogue.client.receive cpp e.bytes).2 ≠ none →
        m.transmissions ≠ 1 + maxAttempts) := by
  unfold Tracked.next
  dsimp only
  split
  · next hnone => exact ⟨fun _ _ hsome => absurd hnone hsome, fun _ => hm⟩
  · next hsome =>
    split
    · next hresends =>
      constructor
      · intro hle _ _ hmost
        omega
      · intro hless
        have hne := hless hresends hsome
        omega
    · next hnew => exact ⟨fun _ hresends => absurd hresends hnew, fun _ => by decide⟩

theorem resends_running (h : m.dialogue.client.control = .running) :
    resends cpp m.dialogue e = refuses m.dialogue e := by
  unfold resends
  rw [h]
  exact Bool.or_false _

theorem resends_resending {v : Bytes} (h : m.dialogue.client.control = .resending v) :
    resends cpp m.dialogue e = true ↔ Reasks m.dialogue.client e := by
  have hnot : refuses m.dialogue e = false := by
    unfold refuses
    rw [h]
    rfl
  rw [← @reasks_iff cpp _ _ _ h]
  unfold resends
  rw [hnot, h]
  simp

theorem transmissions_running (hm : Ledger m) (h : m.dialogue.client.control = .running)
    (hrefuses : refuses m.dialogue e = true)
    (hsome : (m.dialogue.client.receive cpp e.bytes).2 ≠ none) :
    m.transmissions ≠ 1 + maxAttempts := by
  have hattempts : 0 < m.dialogue.client.numOfAttempts := by
    by_contra hno
    exact hsome (repeats_last hrefuses (by omega)).1
  obtain ⟨message, -, -, hrest⟩ := hm.last (by rw [h]; rfl)
  rcases hrest with ⟨-, -, -, hcount, hleft⟩ | ⟨hqueue, -⟩
  · omega
  · exfalso
    apply hsome
    rw [receive_refused hrefuses,
      @refused_empty (m.dialogue.client.buffered e.bytes) hattempts hqueue]

theorem bounded_iff (hm : Ledger m) : (m.next cpp e).transmissions ≤ 1 + maxAttempts ↔
    ((∃ v, m.dialogue.client.control = .resending v) → m.transmissions = 1 + maxAttempts →
      ¬Reasks m.dialogue.client e) := by
  rw [transmissions_le_iff hm.bounded]
  rcases m.dialogue.client.control_cases with hrunning | ⟨v, hv⟩ | hidle
  · constructor
    · rintro - ⟨v, hv⟩
      cases hrunning.symm.trans hv
    · intro _ hresends hsome
      rw [resends_running hrunning] at hresends
      exact transmissions_running hm hrunning hresends hsome
  · rw [resends_resending hv]
    constructor
    · intro hless _ hmost hreasks
      refine hless hreasks ?_ hmost
      intro hnone
      have hcode := (@reasks_iff cpp _ _ _ hv).mpr hreasks
      rw [hnone] at hcode
      cases hcode
    · intro hsettled hreasks _ hmost
      exact hsettled ⟨v, hv⟩ hmost hreasks
  · rw [receive_idle hidle]
    constructor
    · rintro - ⟨v, hv⟩
      rw [hv] at hidle
      cases hidle
    · exact fun _ _ hsome => absurd rfl hsome

/-- The step rule: under the invariant a step keeps the law exactly where the request can be
repeated. -/
theorem lawful_iff (hm : Ledger m) : Lawful cpp m e ↔ Repeatable m e := by
  constructor
  · intro h
    refine ⟨fun hrefuses hattempts => ?_, (bounded_iff hm).mp h.bounded⟩
    have hrunning := (refuses_iff.mp hrefuses).1
    obtain ⟨message, -, houtstanding, hrest⟩ := hm.last (by rw [hrunning]; rfl)
    rcases hrest with ⟨-, hqueued, -⟩ | ⟨hqueue, -⟩
    · rw [houtstanding]
      exact hqueued.imp (congrArg some) (congrArg some)
    · exact absurd (repeats_empty hrefuses hattempts hqueue) (h.repeats hrefuses hattempts).2
  · intro h
    refine ⟨fun hrefuses hattempts => ?_, (bounded_iff hm).mpr h.settled,
      fun hrefuses hcount => ?_⟩
    · have hrunning := (refuses_iff.mp hrefuses).1
      obtain ⟨message, hlast, houtstanding, hrest⟩ := hm.last (by rw [hrunning]; rfl)
      rcases hrest with ⟨hqueue, -⟩ | ⟨-, hother, -⟩
      · rw [repeats_queued hrefuses hattempts hqueue, hlast]
        refine ⟨rfl, ?_⟩
        have hcontrol : ({ m.dialogue.client.buffered e.bytes with
          numOfAttempts := m.dialogue.client.numOfAttempts - 1 } : Client).control = .running :=
            hrunning
        intro hlost
        rcases atLoopHead_cases ({ m.dialogue.client.buffered e.bytes with
          numOfAttempts := m.dialogue.client.numOfAttempts - 1 } : Client) with heq | heq
        · rw [heq, hcontrol] at hlost
          cases hlost
        · rw [heq] at hlost
          cases hlost
      · exfalso
        apply hother
        rcases h.queued hrefuses hattempts with hcode | hcode
        · exact .inl (Option.some.inj (houtstanding.symm.trans hcode))
        · exact .inr (Option.some.inj (houtstanding.symm.trans hcode))
    · have hrunning := (refuses_iff.mp hrefuses).1
      have hattempts : m.dialogue.client.numOfAttempts = 0 := by
        obtain ⟨message, -, -, hrest⟩ := hm.last (by rw [hrunning]; rfl)
        rcases hrest with ⟨-, -, -, -, hleft⟩ | ⟨-, -, hzero⟩
        · omega
        · rw [hzero] at hcount
          cases hcount
      obtain ⟨hnone, hended⟩ := @repeats_last cpp _ _ hrefuses hattempts
      refine ⟨hnone, ?_⟩
      unfold Tracked.next Dialogue.next Dialogue.react
      dsimp only
      rw [hnone]
      exact hended

theorem next_awaits (hawaits : d.client.control.awaits = true)
    (h : (d.next cpp e).client.control.awaits = true) :
    (∃ packet, e.Accepts packet) ∧ ∃ message, (d.client.receive cpp e.bytes).2 = some message ∧
      d.next cpp e = ⟨(d.client.receive cpp e.bytes).1, some (requestCode message)⟩ := by
  have hlength : ∀ packet, e.bytes = some packet → headerSize ≤ packet.length := by
    intro packet hpacket
    obtain ⟨field, -, rfl⟩ := Option.map_eq_some_iff.mp hpacket
    rw [field.property]
    decide
  have hspoken := (@receive_speaks cpp _ hawaits _ hlength).2
  unfold Dialogue.next Dialogue.react at h ⊢
  cases hmessage : (d.client.receive cpp e.bytes).2 with
  | none =>
    rw [hmessage] at h
    exact nomatch (hspoken hmessage).symm.trans h
  | some message =>
    rw [hmessage] at h
    cases hok : e.writeOk with
    | true =>
      refine ⟨?_, message, rfl, rfl⟩
      by_contra hrejects
      rw [receive_rejected hawaits (rejects_iff.mp hrejects)] at hmessage
      cases hmessage
    | false =>
      rw [hok] at h
      exact nomatch (writeFailed_ends _).symm.trans h

theorem isQueued_code (h : IsQueued message) : requestCode message ≠ invalidCrcResendRequest := by
  rcases h with hcode | hcode
  · rw [hcode]
    decide
  · rw [hcode]
    decide

theorem next_books (hmessage : (m.dialogue.client.receive cpp e.bytes).2 = some message)
    (hdialogue : m.dialogue.next cpp e =
      ⟨(m.dialogue.client.receive cpp e.bytes).1, some (requestCode message)⟩) :
    (m.next cpp e).last = some message ∧
      (m.next cpp e).dialogue.outstanding = some (requestCode message) ∧
      (m.next cpp e).dialogue.client = (m.dialogue.client.receive cpp e.bytes).1 ∧
      (m.next cpp e).transmissions =
        (if resends cpp m.dialogue e then m.transmissions + 1 else 1) ∧
      (m.next cpp e).refusals = (if refuses m.dialogue e then m.refusals + 1 else 0) := by
  unfold Tracked.next
  dsimp only
  rw [hdialogue, hmessage]
  exact ⟨rfl, rfl, rfl, if_neg (Option.some_ne_none _), rfl⟩

theorem booked_refused (hm : Booked m) (hrefuses : refuses m.dialogue e = true)
    (hmessage : (m.dialogue.client.receive cpp e.bytes).2 = some message)
    (hdialogue : m.dialogue.next cpp e =
      ⟨(m.dialogue.client.receive cpp e.bytes).1, some (requestCode message)⟩) :
    Booked (m.next cpp e) := by
  obtain ⟨hlast, houtstanding, hclient, htransmissions, hrefusals⟩ :=
    next_books hmessage hdialogue
  have hrunning := (refuses_iff.mp hrefuses).1
  have hattempts : 0 < m.dialogue.client.numOfAttempts := by
    by_contra hno
    rw [(repeats_last hrefuses (by omega)).1] at hmessage
    cases hmessage
  obtain ⟨message', hlast', -, hrest⟩ := hm
  rcases hrest with ⟨hqueue, hqueued, -, hcount, hleft⟩ | ⟨hqueue, -⟩
  · have hreceive := @repeats_queued cpp _ _ _ hrefuses hattempts hqueue
    have hopen : (m.dialogue.client.buffered e.bytes).isOpen = true := by
      by_contra hclosed
      rw [hreceive, if_neg hclosed] at hmessage
      cases hmessage
    rw [hopen, if_pos rfl, atLoopHead_open (by exact hopen)] at hreceive
    rw [hreceive] at hmessage hclient
    cases hmessage
    refine ⟨message, hlast, houtstanding, .inl ?_⟩
    rw [hclient, htransmissions, hrefusals, resends_running hrunning, hrefuses]
    refine ⟨hqueue, hqueued, hrunning, ?_, ?_⟩
    · rw [if_pos rfl, if_pos rfl, hcount]
    · rw [if_pos rfl]
      dsimp only
      omega
  · rw [receive_refused hrefuses,
      @refused_empty (m.dialogue.client.buffered e.bytes) hattempts hqueue] at hmessage
    cases hmessage

theorem booked_renews (hrefuses : refuses m.dialogue e = false)
    (hrenews : Renews (m.dialogue.client.receive cpp e.bytes))
    (hmessage : (m.dialogue.client.receive cpp e.bytes).2 = some message)
    (hdialogue : m.dialogue.next cpp e =
      ⟨(m.dialogue.client.receive cpp e.bytes).1, some (requestCode message)⟩)
    (hnext : (m.next cpp e).dialogue.client.control.awaits = true) : Booked (m.next cpp e) := by
  obtain ⟨hlast, houtstanding, hclient, htransmissions, hrefusals⟩ :=
    next_books hmessage hdialogue
  rw [hrefuses, if_neg Bool.false_ne_true] at hrefusals
  rw [hclient] at hnext
  obtain ⟨message', hmessage', hrest⟩ := hrenews hnext
  cases hmessage.symm.trans hmessage'
  refine ⟨message, hlast, houtstanding, ?_⟩
  rw [hclient, hrefusals]
  rcases hrest with ⟨hqueue, hqueued, hrunning, hattempts⟩ | ⟨hqueue, hother⟩
  · have hnew : resends cpp m.dialogue e = false := by
      unfold resends
      rw [hrefuses, hmessage]
      simp [isQueued_code hqueued]
    rw [htransmissions, hnew, hattempts]
    exact .inl ⟨hqueue, hqueued, hrunning, rfl, rfl⟩
  · exact .inr ⟨hqueue, hother, rfl⟩

theorem renews_receive (hm : Booked m) (hawaits : m.dialogue.client.control.awaits = true)
    (hp : e.Accepts packet) (hrefuses : refuses m.dialogue e = false) :
    Renews (m.dialogue.client.receive cpp e.bytes) := by
  obtain ⟨message, -, -, hrest⟩ := hm
  rcases awaits_cases hawaits with hrunning | ⟨v, hv⟩
  · obtain ⟨hopen, data, hdata, hcode⟩ := buffered_accepts hp m.dialogue.client
    have hqueue : (m.dialogue.client.buffered e.bytes).messageQueue.tail = [] := by
      rcases hrest with ⟨hqueue, -⟩ | ⟨hqueue, -⟩
      · exact congrArg List.tail hqueue
      · exact congrArg List.tail hqueue
    rw [receive_running hrunning]
    apply renews_atLoopHead
    apply renews_reacts (dispatch_reacts (by exact hrunning)) hopen hqueue hrunning hdata
    rw [hcode]
    apply (accepted_code hp.2).resolve_left
    intro hfailed
    rw [refuses_iff.mpr ⟨hrunning, data, hdata, hcode.trans hfailed⟩] at hrefuses
    cases hrefuses
  · have hqueue : m.dialogue.client.messageQueue = [] := by
      rcases hrest with ⟨-, -, hrunning, -⟩ | ⟨hqueue, -⟩
      · cases hv.symm.trans hrunning
      · exact hqueue
    rw [receive_resending hv]
    apply renews_atLoopHead
    apply renews_checkResponse
    · exact (read_accepts hp v).1
    · exact hqueue

/-- The step lemma: a step with a request that can be repeated keeps the books. -/
theorem ledger_next (hm : Ledger m) (h : Repeatable m e) : Ledger (m.next cpp e) := by
  refine ⟨(bounded_iff hm).mpr h.settled, fun hnext => ?_⟩
  cases hawaits : m.dialogue.client.control.awaits with
  | false =>
    have hsame : (m.next cpp e).dialogue = m.dialogue := next_idle hawaits
    rw [hsame, hawaits] at hnext
    cases hnext
  | true =>
    have hbooked := hm.last hawaits
    obtain ⟨⟨packet, hp⟩, message, hmessage, hdialogue⟩ := next_awaits hawaits hnext
    cases hrefuses : refuses m.dialogue e with
    | true => exact booked_refused hbooked hrefuses hmessage hdialogue
    | false =>
      exact booked_renews hrefuses (renews_receive hbooked hawaits hp hrefuses) hmessage hdialogue
        hnext

end Steps

section Runs

theorem booked_start {c : Client} {isRegistered ok : Bool} (h : Renews (c.run isRegistered))
    (hspoken : (c.run isRegistered).2 ≠ none)
    (hawaits : (Tracked.start c isRegistered ok).dialogue.client.control.awaits = true) :
    Booked (.start c isRegistered ok) := by
  unfold Tracked.start Dialogue.start Dialogue.react at hawaits ⊢
  obtain ⟨message, hmessage⟩ := Option.ne_none_iff_exists'.mp hspoken
  cases ok with
  | true =>
    rw [hmessage] at hawaits ⊢
    obtain ⟨message', hmessage', hrest⟩ := h hawaits
    cases hmessage.symm.trans hmessage'
    refine ⟨message, rfl, rfl, ?_⟩
    rcases hrest with ⟨hqueue, hqueued, hrunning, hattempts⟩ | ⟨hqueue, hother⟩
    · exact .inl ⟨hqueue, hqueued, hrunning, rfl, hattempts⟩
    · exact .inr ⟨hqueue, hother, rfl⟩
  | false =>
    rw [hmessage] at hawaits
    exact nomatch (writeFailed_ends _).symm.trans hawaits

theorem ledger_start (name : Bytes) (id : ClientId) (publicKey : Field publicKeySize)
    (symmetricKey : Field symmetricKeySize) (fileToSend file : Bytes) (isRegistered ok : Bool) :
    Ledger (.start (.opened name id publicKey symmetricKey fileToSend file) isRegistered ok) := by
  constructor
  · exact Nat.le_add_right 1 maxAttempts
  · apply booked_start
    · unfold run
      split
      · exact renews_addMessage rfl rfl rfl rfl (.inr (requestCode_publicKey ..))
      · exact renews_addMessage rfl rfl rfl rfl (.inl (requestCode_registration _))
    · unfold run
      split
      · rw [sendPublicKeyToServer, addMessageToQueue_open rfl rfl rfl]
        exact Option.some_ne_none _
      · rw [sendRegistrationRequest, addMessageToQueue_open rfl rfl rfl]
        exact Option.some_ne_none _

/-- Main theorem: a run keeps the retry law exactly when its refused requests can be repeated. -/
theorem run_lawful_iff (cpp : CppCrypto) (name : Bytes) (id : ClientId)
    (publicKey : Field publicKeySize) (symmetricKey : Field symmetricKeySize)
    (fileToSend file : Bytes) (isRegistered ok : Bool) (es : List Exchange) :
    Along (Tracked.next cpp) (Lawful cpp)
        (.start (.opened name id publicKey symmetricKey fileToSend file) isRegistered ok) es ↔
      Along (Tracked.next cpp) Repeatable
        (.start (.opened name id publicKey symmetricKey fileToSend file) isRegistered ok) es := by
  apply along_iff_along (I := Ledger)
  · exact fun _ hm => lawful_iff hm
  · exact fun _ hm h => ledger_next hm h
  · apply ledger_start

/-- The file message is refused: nothing is sent again, and the queue is empty. -/
theorem not_lawful_upload : ¬∀ (cpp : CppCrypto) (name : Bytes) (id : ClientId)
    (publicKey : Field publicKeySize) (symmetricKey : Field symmetricKeySize)
    (fileToSend file : Bytes) (isRegistered ok : Bool) (es : List Exchange),
    Along (Tracked.next cpp) (Lawful cpp)
      (.start (.opened name id publicKey symmetricKey fileToSend file) isRegistered ok) es := by
  intro h
  let key : Exchange := ⟨some (zeroResponse publicKeyReceived 144), true⟩
  let refusal : Exchange := ⟨some (zeroResponse registrationFailed 0), true⟩
  obtain ⟨-, hlawful, -⟩ := h QueueSafety.zeroCpp [0x61] emptyId (filled _ 0) (filled _ 0) [0x78] []
    true true [key, refusal]
  have hlost := (hlawful.repeats (by decide +kernel) (by decide +kernel)).2
  apply hlost
  decide +kernel

end Runs

end RetryLaw
