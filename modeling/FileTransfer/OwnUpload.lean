import FileTransfer.ChecksumAgreement
import FileTransfer.CrcRetryLoop
import FileTransfer.QueueSafety

/-! # Whose checksum the client approves

A 2103 carries the client id, the file name and the size that its checksum is about. The
client looks at the checksum only, in `Run` as in the CRC loop. -/
namespace OwnUpload

open ByteField ServerProtocol ClientChannel ClientLogic ClientLogic.Client ClientDialogue
  MessageRoundTrip StepRun
open QueueSafety (IsQueued)
open ChecksumAgreement (declaredSize)
open CrcRetryLoop (isRight isRight_iff buffered_response receive_right receive_wrong crcLoop_open
  crcLoop_last)

section Definitions

variable (cpp : CppCrypto)

/-- The dialogue with the file message that was handed to the channel last. -/
structure Tracked where
  dialogue : Dialogue
  upload : Option Bytes

def uploadOf (message upload : Option Bytes) : Option Bytes :=
  if message.map requestCode = some requestToSendFile then message else upload

def Tracked.next (m : Tracked) (e : Exchange) : Tracked where
  dialogue := m.dialogue.next cpp e
  upload := uploadOf (m.dialogue.client.receive cpp e.bytes).2 m.upload

def Tracked.start (c : Client) (isRegistered ok : Bool) : Tracked :=
  ⟨.start c isRegistered ok, none⟩

/-- A 2103 about the file that the client has sent. -/
structure Own (m : Tracked) (packet : Bytes) : Prop where
  id : slice packet headerSize clientIdSize = m.dialogue.client.id.val
  fileName : untilNul (slice packet (headerSize + clientIdSize + 4) fileNameSize) =
    untilNul (nameField m.dialogue.client.fileToSend).val
  contentSize : m.upload.map declaredSize =
    some (leValue (slice packet (headerSize + clientIdSize) 4))
  checksum : checksum packet = m.dialogue.client.calculatedCrc

structure ReadsCrc (m : Tracked) (e : Exchange) (packet : Bytes) : Prop where
  awaits : m.dialogue.client.control.awaits = true
  accepts : e.Accepts packet
  code : responseCode packet = msgReceivedCrc

/-- A 1104 is sent for a 2103 about the client's own upload. Any other one is answered with a 1105
or a 1106. -/
structure ApprovesOwn (m : Tracked) (e : Exchange) : Prop where
  approved : ∀ message, (m.dialogue.client.receive cpp e.bytes).2 = some message →
    requestCode message = requestCrcValid → ∃ packet, ReadsCrc m e packet ∧ Own m packet
  doubted : ∀ packet, ReadsCrc m e packet → ¬Own m packet →
    ∃ message, (m.dialogue.client.receive cpp e.bytes).2 = some message ∧
      (requestCode message = invalidCrcResendRequest ∨ requestCode message = invalidCrcAbort)

/-- No foreign 2103 has the checksum of the client, and the name fits the messages about it. -/
def Distinct (m : Tracked) (e : Exchange) : Prop :=
  ∀ packet, ReadsCrc m e packet →
    (m.dialogue.client.control = .running → m.dialogue.client.nameFits = true) ∧
      (checksum packet = m.dialogue.client.calculatedCrc → Own m packet)

def AllQueued (c : Client) : Prop := ∀ message ∈ c.messageQueue, IsQueued message

/-- The queue has registration and public key requests only, and a file was sent under a name that
fits. -/
structure Tidy (m : Tracked) : Prop where
  queue : AllQueued m.dialogue.client
  upload : m.upload ≠ none → m.dialogue.client.nameFits = true

/-- What a client may say whose file name fits, and which was given the right checksum. -/
inductive Says (fits right : Prop) : Bytes → Prop where
  | queued {message} : IsQueued message → Says fits right message
  | file {message} : requestCode message = requestToSendFile → fits → Says fits right message
  | approves {message} : requestCode message = requestCrcValid → right → Says fits right message
  | doubts {message} : requestCode message = invalidCrcResendRequest ∨
      requestCode message = invalidCrcAbort → Says fits right message

structure Replies (fits right : Prop) (r : Reaction) : Prop where
  queue : AllQueued r.1
  message : ∀ message, r.2 = some message → Says fits right message

end Definitions

section Reactions

variable {cpp : CppCrypto} {c : Client} {r : Reaction} {data message v : Bytes}
  {fits right : Prop}

theorem replies_nothing (h : AllQueued c) : Replies fits right (c, none) := by
  refine ⟨h, ?_⟩
  intro message hmessage
  cases hmessage

theorem replies_sends (h : AllQueued c) (hmessage : Says fits right message) :
    Replies fits right (c.sendMessageToChannel message) := by
  refine ⟨h, ?_⟩
  intro message' hsent
  unfold sendMessageToChannel at hsent
  dsimp only at hsent
  split at hsent
  · cases hsent
    exact hmessage
  · cases hsent

theorem replies_addMessage (h : AllQueued c) (hmessage : IsQueued message) :
    Replies fits right (c.addMessageToQueue message) := by
  have hlonger : ∀ m ∈ c.messageQueue ++ [message], IsQueued m := by
    intro m hm
    rcases List.mem_append.mp hm with hm | hm
    · exact h m hm
    · rwa [List.mem_singleton.mp hm]
  unfold addMessageToQueue
  split
  · apply replies_nothing
    exact h
  unfold sendNextMessage
  dsimp only
  split
  · next front rest _ hfront =>
    apply replies_sends
    · exact hlonger
    · apply Says.queued
      apply hlonger
      rw [hfront]
      exact List.mem_cons_self
  · apply replies_nothing
    exact hlonger

theorem replies_crcLoop (h : AllQueued c) (v : Bytes) : Replies fits right (c.crcLoop v) := by
  unfold crcLoop
  split
  · split
    · refine ⟨h, ?_⟩
      rintro message ⟨⟩
      exact .doubts (.inl (requestCode_crcStatus (by decide) _ _))
    · apply replies_nothing
      exact h
  · obtain ⟨hqueue, hmessage⟩ := @replies_sends c _ fits right h
      (.doubts (.inr (requestCode_crcStatus (by decide) c.id (nameField c.fileToSend))))
    exact ⟨hqueue, hmessage⟩

theorem replies_checkResponse (h : AllQueued c)
    (hright : responseCode v = msgReceivedCrc → checksum v = c.calculatedCrc → right) :
    Replies fits right (c.checkResponse v) := by
  unfold checkResponse
  split
  · next hcode =>
    split
    · next hcrc =>
      apply replies_sends
      · exact h
      · exact .approves (requestCode_crcStatus (by decide) _ _) (hright hcode hcrc)
    · apply replies_crcLoop
      exact h
  · exact replies_crcLoop h v

theorem replies_reacts (hreacts : Reacts cpp c r) (h : AllQueued c)
    (hfits : c.nameFits = true → fits)
    (hright : ∀ data, c.buffer = some data → responseCode data = msgReceivedCrc →
      checksum data = c.calculatedCrc → right) : Replies fits right r := by
  have hkept : ∀ {c'}, Keeps c c' → AllQueued c' :=
    fun hc message hm => h message (hc.queue message hm)
  cases hreacts with
  | lost hc => exact replies_nothing (hkept hc :)
  | ends error hc => exact replies_nothing (hkept hc :)
  | asksKey hc => exact replies_addMessage (hkept hc) (.inr (requestCode_publicKey ..))
  | repeats hc _ hfront =>
    apply replies_sends (hkept hc)
    apply Says.queued
    apply h
    rw [hfront]
    exact List.mem_cons_self
  | sendsFile hc _ hname =>
    apply replies_sends (hkept hc)
    exact .file (requestCode_sendFile ..) (hfits hname)
  | approves hc _ hdata hcode hcrc =>
    apply replies_sends (hkept hc)
    exact .approves (requestCode_crcStatus (by decide) _ _) (hright _ hdata hcode hcrc)
  | doubts v hc => exact replies_crcLoop (hkept hc) v
  | nothing => exact replies_nothing h

theorem replies_atLoopHead (h : Replies fits right r) :
    Replies fits right (r.1.atLoopHead, r.2) := by
  rcases r.1.atLoopHead_cases with heq | heq
  · rw [heq]
    exact h
  · rw [heq]
    exact ⟨h.queue, h.message⟩

end Reactions

section Steps

variable {cpp : CppCrypto} {c : Client} {m : Tracked} {d : Dialogue} {e : Exchange}
  {packet message : Bytes}

def ReadsRight (c : Client) (e : Exchange) : Prop :=
  ∃ packet, e.Accepts packet ∧ isRight c.calculatedCrc packet = true

theorem queue_receive (h : AllQueued c) (packet : Option Bytes) :
    AllQueued (c.receive cpp packet).1 := by
  rcases c.control_cases with hrunning | ⟨v, hv⟩ | hidle
  · rw [receive_running hrunning]
    apply (@replies_atLoopHead _ True True _).queue
    apply replies_reacts (dispatch_reacts (by exact hrunning))
    · exact h
    · exact fun _ => trivial
    · exact fun _ _ _ _ => trivial
  · rw [receive_resending hv]
    apply (@replies_atLoopHead _ True True _).queue
    apply replies_checkResponse
    · exact h
    · exact fun _ _ => trivial
  · rw [receive_idle hidle]
    exact h

theorem says_receive (h : AllQueued c) (hmessage : (c.receive cpp e.bytes).2 = some message) :
    Says (c.nameFits = true) (ReadsRight c e) message := by
  cases hawaits : c.control.awaits with
  | false =>
    rw [receive_idle hawaits] at hmessage
    cases hmessage
  | true =>
    by_cases haccepts : ∃ packet, e.Accepts packet
    · obtain ⟨packet, hp⟩ := haccepts
      rcases awaits_cases hawaits with hrunning | ⟨v, hv⟩
      · rw [receive_running hrunning] at hmessage
        have hreacts : Reacts cpp (c.buffered e.bytes) (dispatch cpp (c.buffered e.bytes)) :=
          dispatch_reacts hrunning
        apply (replies_atLoopHead (replies_reacts hreacts _ _ _)).message message hmessage
        · exact h
        · exact fun hfits => hfits
        · intro data hdata hcode hcrc
          obtain ⟨data', hdata', hright⟩ := buffered_response hp c c.calculatedCrc
          cases hdata.symm.trans hdata'
          exact ⟨packet, hp, hright ▸ isRight_iff.mpr ⟨hcode, hcrc⟩⟩
      · rw [receive_resending hv] at hmessage
        apply (replies_atLoopHead (replies_checkResponse _ _)).message message hmessage
        · exact h
        · intro hcode hcrc
          obtain ⟨data', hread, hright, -⟩ := CrcRetryLoop.read_response hp v c.calculatedCrc
          rw [hread] at hcode hcrc
          exact ⟨packet, hp, hright ▸ isRight_iff.mpr ⟨hcode, hcrc⟩⟩
    · rw [receive_rejected hawaits (rejects_iff.mp haccepts)] at hmessage
      cases hmessage

theorem right_of_approves (h : AllQueued c) (hmessage : (c.receive cpp e.bytes).2 = some message)
    (hcode : requestCode message = requestCrcValid) : ReadsRight c e := by
  cases says_receive h hmessage with
  | queued hqueued =>
    rcases hqueued with hother | hother
    · exact absurd (hother.symm.trans hcode) (by decide)
    · exact absurd (hother.symm.trans hcode) (by decide)
  | file hother => exact absurd (hother.symm.trans hcode) (by decide)
  | approves _ hright => exact hright
  | doubts hother =>
    rcases hother with hother | hother
    · exact absurd (hother.symm.trans hcode) (by decide)
    · exact absurd (hother.symm.trans hcode) (by decide)

theorem fits_of_file (h : AllQueued c) (hmessage : (c.receive cpp e.bytes).2 = some message)
    (hcode : requestCode message = requestToSendFile) : c.nameFits = true := by
  cases says_receive h hmessage with
  | queued hqueued =>
    rcases hqueued with hother | hother
    · exact absurd (hother.symm.trans hcode) (by decide)
    · exact absurd (hother.symm.trans hcode) (by decide)
  | file _ hfits => exact hfits
  | approves hother => exact absurd (hother.symm.trans hcode) (by decide)
  | doubts hother =>
    rcases hother with hother | hother
    · exact absurd (hother.symm.trans hcode) (by decide)
    · exact absurd (hother.symm.trans hcode) (by decide)

theorem crcLoop_doubts (hopen : c.isOpen = true) (v : Bytes) : ∃ message,
    (c.crcLoop v).2 = some message ∧ (requestCode message = invalidCrcResendRequest ∨
      requestCode message = invalidCrcAbort) := by
  by_cases hbelow : c.crcAttempts < maxAttempts
  · rw [crcLoop_open hopen hbelow]
    exact ⟨_, rfl, .inl (requestCode_crcStatus (by decide) _ _)⟩
  · rw [crcLoop_last hopen hbelow]
    exact ⟨_, rfl, .inr (requestCode_crcStatus (by decide) _ _)⟩

section Checksums

variable (h : ReadsCrc m e packet)
include h

theorem receive_crc (hrunning : m.dialogue.client.control = .running) : ∃ data,
    isRight m.dialogue.client.calculatedCrc data =
        isRight m.dialogue.client.calculatedCrc packet ∧ responseCode data = msgReceivedCrc ∧
      (m.dialogue.client.receive cpp e.bytes).2 =
        ((m.dialogue.client.buffered e.bytes).popFront.handelMessageReceivedWithCrc data).2 := by
  obtain ⟨-, data, hdata, hcode⟩ := buffered_accepts h.accepts m.dialogue.client
  obtain ⟨data', hdata', hright⟩ := buffered_response h.accepts m.dialogue.client
    m.dialogue.client.calculatedCrc
  cases hdata.symm.trans hdata'
  refine ⟨data, hright, hcode.trans h.code, ?_⟩
  rw [receive_running hrunning, dispatch_crcValue hdata (hcode.trans h.code)]

theorem isRight_reads : isRight m.dialogue.client.calculatedCrc packet = true ↔
    checksum packet = m.dialogue.client.calculatedCrc := by
  rw [isRight_iff]
  exact and_iff_right h.code

theorem receive_approves
    (hfits : m.dialogue.client.control = .running → m.dialogue.client.nameFits = true)
    (hcrc : checksum packet = m.dialogue.client.calculatedCrc) : ∃ message,
    (m.dialogue.client.receive cpp e.bytes).2 = some message ∧
      requestCode message = requestCrcValid := by
  have hright := (isRight_reads h).mpr hcrc
  rcases awaits_cases h.awaits with hrunning | ⟨v, hv⟩
  · obtain ⟨data, hsame, hcode, hreceive⟩ := @receive_crc cpp _ _ _ h hrunning
    rw [hright] at hsame
    have hopen : (m.dialogue.client.buffered e.bytes).popFront.isOpen = true :=
      (buffered_accepts h.accepts _).1
    have hname : (m.dialogue.client.buffered e.bytes).popFront.nameFits = true := hfits hrunning
    have hchecksum : checksum data =
        (m.dialogue.client.buffered e.bytes).popFront.calculatedCrc := (isRight_iff.mp hsame).2
    rw [hreceive, handelMessageReceivedWithCrc, if_pos hname, if_pos hchecksum,
      sendMessageToChannel]
    dsimp only
    rw [hopen, if_pos rfl]
    exact ⟨_, rfl, requestCode_crcStatus (by decide) _ _⟩
  · rw [receive_right hv h.accepts hright]
    exact ⟨_, rfl, requestCode_crcStatus (by decide) _ _⟩

theorem receive_doubts
    (hfits : m.dialogue.client.control = .running → m.dialogue.client.nameFits = true)
    (hcrc : checksum packet ≠ m.dialogue.client.calculatedCrc) : ∃ message,
    (m.dialogue.client.receive cpp e.bytes).2 = some message ∧
      (requestCode message = invalidCrcResendRequest ∨
        requestCode message = invalidCrcAbort) := by
  have hwrong : isRight m.dialogue.client.calculatedCrc packet = false := by
    rw [Bool.eq_false_iff]
    exact fun hright => hcrc ((isRight_reads h).mp hright)
  rcases awaits_cases h.awaits with hrunning | ⟨v, hv⟩
  · obtain ⟨data, hsame, hcode, hreceive⟩ := @receive_crc cpp _ _ _ h hrunning
    rw [hwrong] at hsame
    have hname : (m.dialogue.client.buffered e.bytes).popFront.nameFits = true := hfits hrunning
    have hchecksum : checksum data ≠
        (m.dialogue.client.buffered e.bytes).popFront.calculatedCrc := by
      intro hcrc'
      have hright : isRight m.dialogue.client.calculatedCrc data = true :=
        isRight_iff.mpr ⟨hcode, hcrc'⟩
      rw [hright] at hsame
      cases hsame
    rw [hreceive, handelMessageReceivedWithCrc, if_pos hname, if_neg hchecksum]
    apply crcLoop_doubts
    exact (buffered_accepts h.accepts m.dialogue.client).1
  · obtain ⟨data, hreceive⟩ := @receive_wrong cpp _ _ _ _ hv h.accepts hwrong
    rw [hreceive]
    exact crcLoop_doubts rfl data

/-- A name that does not fit is copied past the end of a message. -/
theorem receive_unfit (hrunning : m.dialogue.client.control = .running)
    (hfits : m.dialogue.client.nameFits = false) :
    (m.dialogue.client.receive cpp e.bytes).2 = none := by
  obtain ⟨data, -, -, hreceive⟩ := @receive_crc cpp _ _ _ h hrunning
  have hname : ¬(m.dialogue.client.buffered e.bytes).popFront.nameFits = true := by
    intro hname
    exact nomatch hfits.symm.trans hname
  rw [hreceive, handelMessageReceivedWithCrc, if_neg hname]

end Checksums

/-- The step rule: under the invariant the client approves its own upload only exactly where no
other one has the same checksum. -/
theorem approvesOwn_iff (hm : Tidy m) : ApprovesOwn cpp m e ↔ Distinct m e := by
  constructor
  · intro h packet hreads
    have hfits : m.dialogue.client.control = .running → m.dialogue.client.nameFits = true := by
      intro hrunning
      by_contra hno
      have hunfit := @receive_unfit cpp _ _ _ hreads hrunning (by simpa using hno)
      by_cases hown : Own m packet
      · apply hno
        apply hm.upload
        intro hnone
        have hsize := hown.contentSize
        rw [hnone] at hsize
        cases hsize
      · obtain ⟨message, hmessage, -⟩ := h.doubted packet hreads hown
        cases hunfit.symm.trans hmessage
    refine ⟨hfits, fun hcrc => ?_⟩
    obtain ⟨message, hmessage, hcode⟩ := @receive_approves cpp _ _ _ hreads hfits hcrc
    obtain ⟨packet', hreads', hown⟩ := h.approved message hmessage hcode
    cases hreads.accepts.1.symm.trans hreads'.accepts.1
    exact hown
  · intro h
    constructor
    · intro message hmessage hcode
      obtain ⟨packet, hp, hright⟩ := right_of_approves hm.queue hmessage hcode
      obtain ⟨hcrcCode, hcrc⟩ := isRight_iff.mp hright
      have hawaits : m.dialogue.client.control.awaits = true := by
        by_contra hidle
        rw [receive_idle (by simpa using hidle)] at hmessage
        cases hmessage
      have hreads : ReadsCrc m e packet := ⟨hawaits, hp, hcrcCode⟩
      exact ⟨packet, hreads, (h packet hreads).2 hcrc⟩
    · intro packet hreads hown
      obtain ⟨hfits, hsame⟩ := h packet hreads
      exact receive_doubts hreads hfits fun hcrc => hown (hsame hcrc)

theorem next_nameFits : (d.next cpp e).client.nameFits = d.client.nameFits := by
  cases hawaits : d.client.control.awaits with
  | false => rw [next_idle hawaits]
  | true =>
    have hfixed : (d.next cpp e).client.fixed = d.client.fixed := by
      rw [← @receive_fixed cpp _ hawaits e.bytes]
      apply react_client (P := fun c => c.fixed = _)
      · rfl
      · exact writeFailed_fixed _
    have hname : (d.next cpp e).client.fileToSend = d.client.fileToSend :=
      congrArg (fun fixed => fixed.2.1) hfixed
    unfold nameFits
    rw [hname]

theorem queue_react {r : Reaction} (h : AllQueued r.1) (ok : Bool) :
    AllQueued (d.react r ok).client := by
  apply react_client (P := AllQueued)
  · exact h
  · unfold writeFailed
    split
    · exact h
    · exact h
    · exact h

/-- The step lemma: every step keeps the queue and the name. -/
theorem tidy_next (hm : Tidy m) (e : Exchange) : Tidy (m.next cpp e) := by
  refine ⟨queue_react (queue_receive hm.queue _) _, fun hupload => ?_⟩
  have hname : (m.next cpp e).dialogue.client.nameFits = m.dialogue.client.nameFits :=
    next_nameFits
  rw [hname]
  unfold Tracked.next uploadOf at hupload
  dsimp only at hupload
  split at hupload
  · next hfile =>
    obtain ⟨message, hmessage, hcode⟩ := Option.map_eq_some_iff.mp hfile
    exact fits_of_file hm.queue hmessage hcode
  · exact hm.upload hupload

end Steps

section Runs

theorem tidy_start (name : Bytes) (id : ClientId) (publicKey : Field publicKeySize)
    (symmetricKey : Field symmetricKeySize) (fileToSend file : Bytes) (isRegistered ok : Bool) :
    Tidy (.start (.opened name id publicKey symmetricKey fileToSend file) isRegistered ok) := by
  refine ⟨?_, fun hupload => absurd rfl hupload⟩
  have hempty : AllQueued (opened name id publicKey symmetricKey fileToSend file) := by
    intro message hmessage
    exact absurd hmessage List.not_mem_nil
  have hrun : AllQueued ((opened name id publicKey symmetricKey fileToSend file).run
      isRegistered).1 := by
    unfold run
    split
    · exact (@replies_addMessage _ _ True True hempty (.inr (requestCode_publicKey ..))).queue
    · exact (@replies_addMessage _ _ True True hempty (.inl (requestCode_registration _))).queue
  exact queue_react hrun ok

end Runs

end OwnUpload
