import FileTransfer.ClientDialogue
import FileTransfer.DrivenLoop

/-! # The CRC loop of the client

A call of `HandelMessageReceivedWithCrc` from the response that `Run` dispatches to its end.
Only a 2103 with another checksum advances `crcAttempts`: a closed channel leaves the loop
turning for ever, and any other response lets it send a 1105 again. -/
namespace CrcRetryLoop

open ByteField ServerProtocol ClientChannel ClientLogic ClientLogic.Client ClientDialogue StepRun
  DrivenLoop

section Definitions

variable (cpp : CppCrypto)

def written (d : Dialogue) (e : Exchange) : List ℕ :=
  match (d.client.receive cpp e.bytes).2 with
  | some message => if e.writeOk then [requestCode message] else []
  | none => []

def isRight (crc : ℕ) (data : Bytes) : Bool :=
  responseCode data = msgReceivedCrc ∧ checksum data = crc

/-- The call is given a 2103 with the checksum of the client, by `Run` or by its own `Read`. -/
def receivesRight (d : Dialogue) (e : Exchange) : Bool :=
  match d.client.control with
  | .running => (d.client.buffered e.bytes).buffer.any (isRight d.client.calculatedCrc)
  | .resending v => (read e.bytes v).1 && isRight d.client.calculatedCrc (read e.bytes v).2
  | _ => false

/-- A `Read` of the loop fails, and the 2103 that was read before it is compared again. -/
def comparesFailed (d : Dialogue) (e : Exchange) : Bool :=
  match d.client.control with
  | .resending v => !(read e.bytes v).1 && decide (responseCode v = msgReceivedCrc)
  | _ => false

/-- A call: its dialogue, the codes of the requests that it wrote, whether it was given the
right checksum, and whether it took a failed `Read` for a checksum. -/
structure Call where
  dialogue : Dialogue
  requests : List ℕ
  right : Bool
  stale : Bool

def Call.turn (s : Call) (e : Exchange) : Call where
  dialogue := s.dialogue.next cpp e
  requests := s.requests ++ written cpp s.dialogue e
  right := s.right || receivesRight s.dialogue e
  stale := s.stale || comparesFailed s.dialogue e

/-- The while loop. Once it is stuck no answer of the channel lets it go on. -/
def crcRetryLoop : Loop Call Exchange where
  returned s :=
    match s.dialogue.client.control with
    | .resending _ => false
    | .stuck => false
    | _ => true
  turn := Call.turn cpp

/-- `HandelMessageReceivedWithCrc` up to the first `Read` of its loop. -/
def Call.start (d : Dialogue) (e : Exchange) : Call := Call.turn cpp ⟨d, [], false, false⟩ e

inductive Outcome where
  | approved
  | aborted
  | channelFailed

def Call.EndsAs (s : Call) : Outcome → Prop
  | .approved => s.requests.count requestCrcValid = 1 ∧ invalidCrcAbort ∉ s.requests ∧
      s.right = true ∧ s.dialogue.client.control = .running
  | .aborted => s.requests.count invalidCrcAbort = 1 ∧ requestCrcValid ∉ s.requests ∧
      s.dialogue.client.control = .ended true
  | .channelFailed => requestCrcValid ∉ s.requests ∧ invalidCrcAbort ∉ s.requests ∧
      s.dialogue.client.isOpen = false ∧
      (s.dialogue.client.control = .stopped ∨ s.dialogue.client.control = .ended true)

structure Call.Settled (s : Call) : Prop where
  resends : s.requests.count invalidCrcResendRequest ≤ maxAttempts
  outcome : ∃! outcome, s.EndsAs outcome
  fresh : s.stale = false

/-- The call that `Run` makes for what `e` left in its buffer comes to an end, with the exchanges
of `env` behind it. -/
def Settles (d : Dialogue) (e : Exchange) (env : ℕ → Exchange) : Prop :=
  ∃ s, (crcRetryLoop cpp).Returns env (Call.start cpp d e) s ∧ s.Settled

def attemptsAfter (data : Bytes) (crcAttempts : ℕ) : ℕ :=
  if responseCode data = msgReceivedCrc then crcAttempts + 1 else crcAttempts

/-- After so many 1105s the loop reads accepted responses only, until it gets the right checksum
or counts the last wrong one. Each 1105 that it sends in between goes out. -/
inductive Resolves (crc : ℕ) : (crcAttempts resends : ℕ) → (ℕ → Exchange) → Prop where
  | right {crcAttempts resends env packet} : (env 0).Accepts packet → isRight crc packet = true →
      Resolves crc crcAttempts resends env
  | last {crcAttempts resends env packet} : (env 0).Accepts packet → isRight crc packet = false →
      attemptsAfter packet crcAttempts = maxAttempts → Resolves crc crcAttempts resends env
  | again {crcAttempts resends env packet} : (env 0).Accepts packet → isRight crc packet = false →
      attemptsAfter packet crcAttempts < maxAttempts → resends < maxAttempts →
      (env 0).writeOk = true →
      Resolves crc (attemptsAfter packet crcAttempts) (resends + 1) (behind env) →
      Resolves crc crcAttempts resends env

/-- The name fits its field, and the first checksum is the right one, or the loop resolves on an
open channel. -/
def Resolvable (d : Dialogue) (data : Bytes) (e : Exchange) (env : ℕ → Exchange) : Prop :=
  d.client.nameFits = true ∧ (checksum data = d.client.calculatedCrc ∨
    (∃ packet, e.Accepts packet) ∧ e.writeOk = true ∧
      Resolves d.client.calculatedCrc d.client.crcAttempts 1 env)

structure Retrying (crc crcAttempts resends : ℕ) (s : Call) : Prop where
  control : ∃ v, s.dialogue.client.control = .resending v
  attempts : s.dialogue.client.crcAttempts = crcAttempts
  below : crcAttempts < maxAttempts
  crc : s.dialogue.client.calculatedCrc = crc
  requests : s.requests = List.replicate resends invalidCrcResendRequest
  fresh : s.stale = false

end Definitions

section Responses

variable {cpp : CppCrypto} {c : Client} {e : Exchange} {packet data v : Bytes}

theorem isRight_iff {crc : ℕ} :
    isRight crc data = true ↔ responseCode data = msgReceivedCrc ∧ checksum data = crc :=
  decide_eq_true_iff

theorem read_response (h : e.Accepts packet) (v : Bytes) (crc : ℕ) :
    ∃ data, read e.bytes v = (true, data) ∧ isRight crc data = isRight crc packet ∧
      ∀ crcAttempts, attemptsAfter data crcAttempts = attemptsAfter packet crcAttempts := by
  have hread := read_accepted h.2 v
  rw [← h.1] at hread
  refine ⟨_, hread, ?_, ?_⟩
  · have hcode := (header_copied (header_le h) (getHeader packet)
      (v.drop (getHeader packet + headerSize))).1
    apply Bool.eq_iff_iff.mpr
    rw [isRight_iff, isRight_iff, hcode]
    apply and_congr_right
    intro hcrc
    rw [checksum_copied h.length h.2 hcrc]
  · intro crcAttempts
    unfold attemptsAfter
    rw [(header_copied (header_le h) _ _).1]

theorem buffered_response (h : e.Accepts packet) (c : Client) (crc : ℕ) :
    ∃ data, (c.buffered e.bytes).buffer = some data ∧ isRight crc data = isRight crc packet := by
  obtain ⟨data, hread, hright, -⟩ := read_response h (c.buffer.getD []) crc
  refine ⟨data, ?_, hright⟩
  unfold buffered
  rw [hread]
  rfl

theorem checkResponse_right (h : isRight c.calculatedCrc data = true) :
    c.checkResponse data = sendMessageToChannel { c with control := .running }
      (c.crcStatusMessage requestCrcValid) := by
  obtain ⟨hcode, hcrc⟩ := isRight_iff.mp h
  unfold checkResponse
  rw [if_pos hcode, if_pos hcrc]

theorem checkResponse_wrong (h : isRight c.calculatedCrc data = false) :
    c.checkResponse data =
      crcLoop { c with crcAttempts := attemptsAfter data c.crcAttempts } data := by
  unfold checkResponse attemptsAfter
  split
  · next hcode =>
    rw [if_neg]
    intro hcrc
    rw [isRight_iff.mpr ⟨hcode, hcrc⟩] at h
    cases h
  · rfl

theorem crcLoop_open (hopen : c.isOpen = true) (h : c.crcAttempts < maxAttempts) (v : Bytes) :
    c.crcLoop v = ({ c with control := .resending v },
      some (c.crcStatusMessage invalidCrcResendRequest)) := by
  rw [crcLoop, if_pos h, if_pos hopen]

theorem crcLoop_closed (hclosed : c.isOpen = false) (h : c.crcAttempts < maxAttempts) (v : Bytes) :
    c.crcLoop v = ({ c with control := .stuck }, none) := by
  rw [crcLoop, if_pos h, if_neg (by rw [hclosed]; exact Bool.false_ne_true)]

theorem crcLoop_last (hopen : c.isOpen = true) (h : ¬c.crcAttempts < maxAttempts) (v : Bytes) :
    c.crcLoop v = (c.endSession true, some (c.crcStatusMessage invalidCrcAbort)) := by
  rw [crcLoop, if_neg h]
  dsimp only [sendMessageToChannel]
  rw [if_pos hopen]

end Responses

section Turns

variable {cpp : CppCrypto} {s t : Call} {c' : Client} {e : Exchange} {message packet : Bytes}
  {crc crcAttempts resends : ℕ}

theorem turn_silent (h : s.dialogue.client.receive cpp e.bytes = (c', none)) :
    (s.turn cpp e).dialogue.client = c' ∧ (s.turn cpp e).requests = s.requests := by
  unfold Call.turn Dialogue.next Dialogue.react written
  dsimp only
  rw [h]
  exact ⟨rfl, List.append_nil _⟩

theorem turn_sends (h : s.dialogue.client.receive cpp e.bytes = (c', some message))
    (hok : e.writeOk = true) : (s.turn cpp e).dialogue.client = c' ∧
      (s.turn cpp e).requests = s.requests ++ [requestCode message] := by
  unfold Call.turn Dialogue.next Dialogue.react written
  dsimp only
  rw [h, hok]
  exact ⟨rfl, rfl⟩

theorem turn_unsent (h : s.dialogue.client.receive cpp e.bytes = (c', some message))
    (hok : e.writeOk = false) : (s.turn cpp e).dialogue.client = c'.writeFailed ∧
      (s.turn cpp e).requests = s.requests := by
  unfold Call.turn Dialogue.next Dialogue.react written
  dsimp only
  rw [h, hok]
  exact ⟨rfl, List.append_nil _⟩

theorem endsAs_unique {outcome outcome' : Outcome} (h : s.EndsAs outcome)
    (h' : s.EndsAs outcome') : outcome' = outcome := by
  have hcount : ∀ {code : ℕ}, s.requests.count code = 1 → code ∉ s.requests → False := by
    intro code hone hno
    rw [List.count_eq_zero_of_not_mem hno] at hone
    cases hone
  cases outcome with
  | approved =>
    cases outcome' with
    | approved => rfl
    | aborted => exact (hcount h.1 h'.2.1).elim
    | channelFailed => exact (hcount h.1 h'.1).elim
  | aborted =>
    cases outcome' with
    | approved => exact (hcount h'.1 h.2.1).elim
    | aborted => rfl
    | channelFailed => exact (hcount h.1 h'.2.1).elim
  | channelFailed =>
    cases outcome' with
    | approved => exact (hcount h'.1 h.1).elim
    | aborted => exact (hcount h'.1 h.2.1).elim
    | channelFailed => rfl

theorem settled_of_endsAs {outcome : Outcome} (hresends : resends ≤ maxAttempts) {rest : List ℕ}
    (hrequests : s.requests = List.replicate resends invalidCrcResendRequest ++ rest)
    (hrest : invalidCrcResendRequest ∉ rest) (hfresh : s.stale = false) (h : s.EndsAs outcome) :
    s.Settled := by
  refine ⟨?_, ⟨outcome, h, fun _ h' => endsAs_unique h h'⟩, hfresh⟩
  rw [hrequests, List.count_append, List.count_replicate_self, List.count_eq_zero_of_not_mem hrest]
  exact hresends

theorem not_mem_resends {code : ℕ} (h : code ≠ invalidCrcResendRequest) (resends : ℕ) :
    code ∉ List.replicate resends invalidCrcResendRequest := by
  intro hmem
  exact h (List.eq_of_mem_replicate hmem)

theorem settled_ends {code : ℕ} {outcome : Outcome} (hresends : resends ≤ maxAttempts)
    (hrequests : s.requests = List.replicate resends invalidCrcResendRequest)
    (hfresh : (s.turn cpp e).stale = false)
    (hreceive : s.dialogue.client.receive cpp e.bytes = (c', some message))
    (hmessage : requestCode message = code) (hcode : code ≠ invalidCrcResendRequest)
    (hsent : (s.turn cpp e).dialogue.client = c' → (s.turn cpp e).requests =
      List.replicate resends invalidCrcResendRequest ++ [code] → (s.turn cpp e).EndsAs outcome)
    (hfailed : c'.writeFailed.isOpen = false ∧
      (c'.writeFailed.control = .stopped ∨ c'.writeFailed.control = .ended true)) :
    (s.turn cpp e).Settled := by
  cases hok : e.writeOk with
  | true =>
    obtain ⟨hclient, hwritten⟩ := turn_sends hreceive hok
    rw [hrequests, hmessage] at hwritten
    apply settled_of_endsAs hresends hwritten _ hfresh (hsent hclient hwritten)
    rw [List.mem_singleton]
    exact hcode.symm
  | false =>
    obtain ⟨hclient, hwritten⟩ := turn_unsent hreceive hok
    rw [hrequests] at hwritten
    apply @settled_of_endsAs _ resends .channelFailed hresends [] _ List.not_mem_nil hfresh
    · refine ⟨?_, ?_, ?_, ?_⟩
      · rw [hwritten]
        exact not_mem_resends (by decide) _
      · rw [hwritten]
        exact not_mem_resends (by decide) _
      · rw [hclient]
        exact hfailed.1
      · rw [hclient]
        exact hfailed.2
    · rw [hwritten, List.append_nil]

theorem endsAs_approved (hcontrol : s.dialogue.client.control = .running) (hright : s.right = true)
    (hrequests : s.requests =
      List.replicate resends invalidCrcResendRequest ++ [requestCrcValid]) :
    s.EndsAs .approved := by
  refine ⟨?_, ?_, hright, hcontrol⟩
  · rw [hrequests, List.count_append,
      List.count_eq_zero_of_not_mem (not_mem_resends (by decide) _)]
    rfl
  · rw [hrequests, List.mem_append, not_or]
    exact ⟨not_mem_resends (by decide) _, by decide⟩

theorem endsAs_aborted (hcontrol : s.dialogue.client.control = .ended true)
    (hrequests : s.requests =
      List.replicate resends invalidCrcResendRequest ++ [invalidCrcAbort]) :
    s.EndsAs .aborted := by
  refine ⟨?_, ?_, hcontrol⟩
  · rw [hrequests, List.count_append,
      List.count_eq_zero_of_not_mem (not_mem_resends (by decide) _)]
    rfl
  · rw [hrequests, List.mem_append, not_or]
    exact ⟨not_mem_resends (by decide) _, by decide⟩

theorem returned_of_settled (h : s.Settled) : (crcRetryLoop cpp).returned s = true := by
  obtain ⟨outcome, hends, -⟩ := h.outcome
  unfold crcRetryLoop
  dsimp only
  cases outcome with
  | approved => rw [hends.2.2.2]
  | aborted => rw [hends.2.2]
  | channelFailed =>
    rcases hends.2.2.2 with hstopped | hended
    · rw [hstopped]
    · rw [hended]

theorem settled_approves (hresends : resends ≤ maxAttempts)
    (hrequests : s.requests = List.replicate resends invalidCrcResendRequest)
    (hfresh : (s.turn cpp e).stale = false) (hright : (s.turn cpp e).right = true)
    (hcontrol : c'.control = .running) {id : ClientId} {fileName : Field fileNameSize}
    (hreceive : s.dialogue.client.receive cpp e.bytes =
      (c', some (crcStatusRequestMessage requestCrcValid id fileName))) :
    (s.turn cpp e).Settled := by
  apply settled_ends hresends hrequests hfresh hreceive (requestCode_crcStatus (by decide) _ _)
  · decide
  · intro hclient hwritten
    exact endsAs_approved (hclient ▸ hcontrol) hright hwritten
  · unfold writeFailed
    rw [hcontrol]
    exact ⟨rfl, .inl rfl⟩

theorem settled_aborts (hresends : resends ≤ maxAttempts)
    (hrequests : s.requests = List.replicate resends invalidCrcResendRequest)
    (hfresh : (s.turn cpp e).stale = false) (hcontrol : c'.control = .ended true)
    {id : ClientId} {fileName : Field fileNameSize}
    (hreceive : s.dialogue.client.receive cpp e.bytes =
      (c', some (crcStatusRequestMessage invalidCrcAbort id fileName))) :
    (s.turn cpp e).Settled := by
  apply settled_ends hresends hrequests hfresh hreceive (requestCode_crcStatus (by decide) _ _)
  · decide
  · intro hclient hwritten
    exact endsAs_aborted (hclient ▸ hcontrol) hwritten
  · unfold writeFailed
    rw [hcontrol]
    exact ⟨rfl, .inr rfl⟩

theorem turn_resends (hrequests : s.requests = List.replicate resends invalidCrcResendRequest)
    (hfresh : (s.turn cpp e).stale = false) {v : Bytes} (hcontrol : c'.control = .resending v)
    (hattempts : c'.crcAttempts = crcAttempts) (hbelow : crcAttempts < maxAttempts)
    (hcrc : c'.calculatedCrc = crc) {id : ClientId} {fileName : Field fileNameSize}
    (hreceive : s.dialogue.client.receive cpp e.bytes =
      (c', some (crcStatusRequestMessage invalidCrcResendRequest id fileName))) :
    (e.writeOk = true → Retrying crc crcAttempts (resends + 1) (s.turn cpp e)) ∧
      (e.writeOk = false → (s.turn cpp e).dialogue.client.control = .stuck) := by
  constructor
  · intro hok
    obtain ⟨hclient, hwritten⟩ := turn_sends hreceive hok
    refine ⟨⟨v, hclient ▸ hcontrol⟩, hclient ▸ hattempts, hbelow, hclient ▸ hcrc, ?_, hfresh⟩
    rw [hwritten, hrequests, requestCode_crcStatus (by decide), ← List.replicate_succ']
  · intro hok
    rw [(turn_unsent hreceive hok).1, writeFailed, hcontrol]

end Turns

section Loops

variable {cpp : CppCrypto} {s t : Call} {e : Exchange} {env : ℕ → Exchange} {packet : Bytes}
  {crc crcAttempts resends : ℕ}

theorem returned_resending {v : Bytes} (h : s.dialogue.client.control = .resending v) :
    (crcRetryLoop cpp).returned s = false := by
  unfold crcRetryLoop
  dsimp only
  rw [h]

theorem receive_right {c : Client} {v : Bytes} (hv : c.control = .resending v)
    (h : e.Accepts packet) (hright : isRight c.calculatedCrc packet = true) :
    c.receive cpp e.bytes = ({ c with isOpen := true, control := .running },
      some (c.crcStatusMessage requestCrcValid)) := by
  obtain ⟨data, hread, hsame, -⟩ := read_response h v c.calculatedCrc
  rw [hright] at hsame
  rw [receive_resending hv, hread, @checkResponse_right { c with isOpen := true } data hsame,
    sendMessageToChannel]
  dsimp only
  rw [atLoopHead_open rfl]
  rfl

theorem receive_wrong {c : Client} {v : Bytes} (hv : c.control = .resending v)
    (h : e.Accepts packet) (hwrong : isRight c.calculatedCrc packet = false) :
    ∃ data, c.receive cpp e.bytes =
      let r := crcLoop { c with
        isOpen := true, crcAttempts := attemptsAfter packet c.crcAttempts } data
      (r.1.atLoopHead, r.2) := by
  obtain ⟨data, hread, hsame, hattempts⟩ := read_response h v c.calculatedCrc
  rw [hwrong] at hsame
  refine ⟨data, ?_⟩
  rw [receive_resending hv, hread, @checkResponse_wrong { c with isOpen := true } data hsame,
    hattempts]

theorem receivesRight_resending {d : Dialogue} {v : Bytes}
    (h : d.client.control = .resending v) (haccepts : e.Accepts packet) :
    receivesRight d e = isRight d.client.calculatedCrc packet := by
  obtain ⟨data, hread, hsame, -⟩ := read_response haccepts v d.client.calculatedCrc
  unfold receivesRight
  rw [h]
  dsimp only
  rw [hread, Bool.true_and, hsame]

theorem comparesFailed_resending {d : Dialogue} {v : Bytes}
    (h : d.client.control = .resending v) : comparesFailed d e =
      (!(read e.bytes v).1 && decide (responseCode v = msgReceivedCrc)) := by
  unfold comparesFailed
  rw [h]

theorem stale_turn (hfresh : s.stale = false) (haccepts : e.Accepts packet) :
    (s.turn cpp e).stale = false := by
  unfold Call.turn comparesFailed
  dsimp only
  rw [hfresh, Bool.false_or]
  split
  · next v _ =>
    rw [(read_accepts haccepts v).1]
    rfl
  · rfl

theorem turn_right (h : Retrying crc crcAttempts resends s) (hresends : resends ≤ maxAttempts)
    (haccepts : e.Accepts packet) (hright : isRight crc packet = true) :
    (s.turn cpp e).Settled := by
  obtain ⟨v, hv⟩ := h.control
  rw [← h.crc] at hright
  apply settled_approves hresends h.requests (stale_turn h.fresh haccepts) _ _
    (receive_right hv haccepts hright)
  · unfold Call.turn
    dsimp only
    rw [receivesRight_resending hv haccepts, hright, Bool.or_true]
  · rfl

theorem turn_last (h : Retrying crc crcAttempts resends s) (hresends : resends ≤ maxAttempts)
    (haccepts : e.Accepts packet) (hwrong : isRight crc packet = false)
    (hlast : attemptsAfter packet crcAttempts = maxAttempts) : (s.turn cpp e).Settled := by
  obtain ⟨v, hv⟩ := h.control
  rw [← h.crc] at hwrong
  obtain ⟨data, hreceive⟩ := @receive_wrong cpp _ _ _ _ hv haccepts hwrong
  rw [h.attempts, hlast, crcLoop_last rfl (lt_irrefl _)] at hreceive
  apply settled_aborts hresends h.requests (stale_turn h.fresh haccepts) _ hreceive
  unfold atLoopHead
  rw [if_neg]
  · rfl
  · rintro ⟨hrunning, -⟩
    cases hrunning

theorem turn_again (h : Retrying crc crcAttempts resends s) (haccepts : e.Accepts packet)
    (hwrong : isRight crc packet = false)
    (hbelow : attemptsAfter packet crcAttempts < maxAttempts) :
    (e.writeOk = true →
      Retrying crc (attemptsAfter packet crcAttempts) (resends + 1) (s.turn cpp e)) ∧
    (e.writeOk = false → (s.turn cpp e).dialogue.client.control = .stuck) := by
  obtain ⟨v, hv⟩ := h.control
  rw [← h.crc] at hwrong
  obtain ⟨data, hreceive⟩ := @receive_wrong cpp _ _ _ _ hv haccepts hwrong
  rw [h.attempts, crcLoop_open rfl hbelow] at hreceive
  dsimp only at hreceive
  rw [atLoopHead_open rfl] at hreceive
  apply turn_resends h.requests (stale_turn h.fresh haccepts) _ _ hbelow _ hreceive
  · exact data
  · rfl
  · rfl
  · exact h.crc

theorem turn_rejects (h : Retrying crc crcAttempts resends s)
    (hrejects : ¬∃ packet, e.Accepts packet) :
    (s.turn cpp e).stale = true ∨ (s.turn cpp e).dialogue.client.control = .stuck := by
  obtain ⟨v, hv⟩ := h.control
  have hread := read_rejects hrejects v
  by_cases hcode : responseCode v = msgReceivedCrc
  · left
    unfold Call.turn
    dsimp only
    rw [comparesFailed_resending hv, hread, decide_eq_true hcode, Bool.not_false, Bool.and_self,
      Bool.or_true]
  · right
    have hreceive := @receive_resending cpp s.dialogue.client v hv e.bytes
    rw [hread, checkResponse, if_neg hcode, crcLoop_closed rfl (by rw [h.attempts]; exact h.below)]
      at hreceive
    rw [(turn_silent hreceive).1]
    unfold atLoopHead
    rw [if_neg]
    rintro ⟨hrunning, -⟩
    cases hrunning

theorem not_returns_stuck (h : s.dialogue.client.control = .stuck) :
    ¬(crcRetryLoop cpp).Returns env s t := by
  apply Loop.not_returns (I := fun _ s => s.dialogue.client.control = .stuck) h
  · intro env s hs
    unfold crcRetryLoop
    dsimp only
    rw [hs]
  · intro env s hs
    have hidle : s.dialogue.client.control.awaits = false := by
      rw [hs]
      rfl
    unfold crcRetryLoop Call.turn
    dsimp only
    rw [next_idle hidle]
    exact hs

theorem stale_returns (h : (crcRetryLoop cpp).Returns env s t) (hs : s.stale = true) :
    t.stale = true := by
  apply h.invariant (I := fun s => s.stale = true) hs
  intro s e _ hs
  unfold crcRetryLoop Call.turn
  dsimp only
  rw [hs, Bool.true_or]

theorem requests_returns (h : (crcRetryLoop cpp).Returns env s t) : s.requests <+: t.requests := by
  apply h.invariant (I := fun u => s.requests <+: u.requests) (List.prefix_refl _)
  intro u e _ hu
  exact hu.trans (List.prefix_append _ _)

theorem resends_le (h : Retrying crc crcAttempts resends s)
    (hreturns : (crcRetryLoop cpp).Returns env s t) (ht : t.Settled) : resends ≤ maxAttempts := by
  calc resends = s.requests.count invalidCrcResendRequest := by
        rw [h.requests, List.count_replicate_self]
    _ ≤ t.requests.count invalidCrcResendRequest :=
        (requests_returns hreturns).sublist.count_le _
    _ ≤ maxAttempts := ht.resends

theorem returns_resolves (h : Resolves crc crcAttempts resends env)
    (hs : Retrying crc crcAttempts resends s) (hresends : resends ≤ maxAttempts) :
    ∃ t, (crcRetryLoop cpp).Returns env s t ∧ t.Settled := by
  have hend : ∀ {env : ℕ → Exchange} {s : Call} {crcAttempts resends : ℕ},
      Retrying crc crcAttempts resends s → (s.turn cpp (env 0)).Settled →
        ∃ t, (crcRetryLoop cpp).Returns env s t ∧ t.Settled := by
    intro env s _ _ hs hsettled
    obtain ⟨v, hv⟩ := hs.control
    refine ⟨_, ?_, hsettled⟩
    rw [Loop.returns_turn (returned_resending hv)]
    exact (Loop.returns_of_returned (returned_of_settled hsettled)).mpr rfl
  induction h generalizing s with
  | right haccepts hright => exact hend hs (turn_right hs hresends haccepts hright)
  | last haccepts hwrong hlast => exact hend hs (turn_last hs hresends haccepts hwrong hlast)
  | again haccepts hwrong hbelow hroom hok _ ih =>
    obtain ⟨v, hv⟩ := hs.control
    obtain ⟨t, hreturns, ht⟩ := ih ((turn_again hs haccepts hwrong hbelow).1 hok) hroom
    exact ⟨t, (Loop.returns_turn (returned_resending hv)).mpr hreturns, ht⟩

theorem attemptsAfter_le (packet : Bytes) (crcAttempts : ℕ) :
    attemptsAfter packet crcAttempts ≤ crcAttempts + 1 := by
  unfold attemptsAfter
  split
  · exact le_rfl
  · exact Nat.le_succ _

/-- By induction over the turns: a turn that does not resolve leaves the loop stuck or a failed
`Read` compared. -/
theorem resolves_returns (h : (crcRetryLoop cpp).Returns env s t) (ht : t.Settled)
    (hs : Retrying crc crcAttempts resends s) : Resolves crc crcAttempts resends env := by
  suffices hall : (crcRetryLoop cpp).Returns env s t → ∀ crcAttempts resends,
      Retrying crc crcAttempts resends s → Resolves crc crcAttempts resends env from
    hall h _ _ hs
  apply h.induct (P := fun env s => (crcRetryLoop cpp).Returns env s t → ∀ crcAttempts resends,
    Retrying crc crcAttempts resends s → Resolves crc crcAttempts resends env)
  · intro env hreturned _ crcAttempts resends hretry
    obtain ⟨v, hv⟩ := hretry.control
    rw [returned_resending hv] at hreturned
    cases hreturned
  · intro env s hrunning ih hreturns crcAttempts resends hretry
    have hbehind := (Loop.returns_turn hrunning).mp hreturns
    by_cases haccepts : ∃ packet, (env 0).Accepts packet
    · obtain ⟨packet, haccepts⟩ := haccepts
      cases hright : isRight crc packet with
      | true => exact .right haccepts hright
      | false =>
        by_cases hbelow : attemptsAfter packet crcAttempts < maxAttempts
        · have hturn := @turn_again cpp _ _ _ _ _ _ hretry haccepts hright hbelow
          cases hok : (env 0).writeOk with
          | true =>
            have hnext := hturn.1 hok
            exact .again haccepts hright hbelow (resends_le hnext hbehind ht) hok
              (ih hbehind _ _ hnext)
          | false => exact absurd hbehind (not_returns_stuck (hturn.2 hok))
        · have hle := attemptsAfter_le packet crcAttempts
          have hbelow' := hretry.below
          exact .last haccepts hright (by omega)
    · rcases @turn_rejects cpp _ _ _ _ _ hretry haccepts with hstale | hstuck
      · have hcompared := stale_returns hbehind hstale
        rw [ht.fresh] at hcompared
        cases hcompared
      · exact absurd hbehind (not_returns_stuck hstuck)

end Loops

section Attempts

variable {cpp : CppCrypto} {c : Client} {d : Dialogue} {r : Reaction} {data : Bytes}

def AttemptsLeft (c : Client) : Prop := c.control.awaits = true → c.crcAttempts < maxAttempts

theorem attemptsLeft_crcLoop (c : Client) (v : Bytes) : AttemptsLeft (c.crcLoop v).1 := by
  unfold AttemptsLeft crcLoop
  split
  · next h =>
    split
    · exact fun _ => h
    · intro hawaits
      cases hawaits
  · intro hawaits
    cases hawaits

theorem attemptsLeft_checkResponse (h : c.crcAttempts < maxAttempts) (v : Bytes) :
    AttemptsLeft (c.checkResponse v).1 := by
  unfold checkResponse
  split
  · split
    · exact fun _ => h
    · apply attemptsLeft_crcLoop
  · apply attemptsLeft_crcLoop

theorem attemptsLeft_atLoopHead (h : AttemptsLeft c) : AttemptsLeft c.atLoopHead := by
  rcases c.atLoopHead_cases with heq | heq
  · rwa [heq]
  · rw [heq]
    intro hawaits
    cases hawaits

theorem attemptsLeft_react (h : AttemptsLeft r.1) (ok : Bool) :
    AttemptsLeft (d.react r ok).client := by
  apply react_client (P := AttemptsLeft)
  · exact h
  · intro hawaits
    rw [writeFailed_ends] at hawaits
    cases hawaits

theorem reached_attempts (h : Reached cpp d) : AttemptsLeft d.client := by
  apply h.induct (P := fun d => AttemptsLeft d.client)
  · intro name id publicKey symmetricKey fileToSend file isRegistered ok
    apply attemptsLeft_react
    intro _
    unfold run
    split
    · rw [sendPublicKeyToServer, addMessageToQueue_fst rfl]
      exact Nat.zero_lt_succ _
    · rw [sendRegistrationRequest, addMessageToQueue_fst rfl]
      exact Nat.zero_lt_succ _
  · intro d e hd
    rcases d.client.control_cases with hrunning | ⟨v, hresending⟩ | hidle
    · apply attemptsLeft_react
      rw [receive_running hrunning]
      apply attemptsLeft_atLoopHead
      intro _
      rw [(dispatch_reacts (by exact hrunning)).members.2.2]
      exact hd (by rw [hrunning]; rfl)
    · apply attemptsLeft_react
      rw [receive_resending hresending]
      apply attemptsLeft_atLoopHead
      exact @attemptsLeft_checkResponse { d.client with isOpen := (read e.bytes v).1 }
        (hd (by rw [hresending]; rfl)) _
    · rwa [next_idle hidle]

end Attempts

section Calls

variable {cpp : CppCrypto} {d : Dialogue} {e : Exchange} {env : ℕ → Exchange} {data : Bytes}

structure Called (cpp : CppCrypto) (d : Dialogue) (e : Exchange) (data : Bytes) : Prop where
  reached : Reached cpp d
  control : d.client.control = .running
  buffer : (d.client.buffered e.bytes).buffer = some data
  code : responseCode data = msgReceivedCrc

theorem receive_called (h : Called cpp d e data) : d.client.receive cpp e.bytes =
    let r := (d.client.buffered e.bytes).popFront.handelMessageReceivedWithCrc data
    (r.1.atLoopHead, r.2) := by
  rw [receive_running h.control, dispatch_crcValue h.buffer h.code]

theorem start_fresh (h : Called cpp d e data) : (Call.start cpp d e).stale = false := by
  unfold Call.start Call.turn comparesFailed
  dsimp only
  rw [h.control]
  rfl

theorem start_right (h : Called cpp d e data) (hright : checksum data = d.client.calculatedCrc) :
    (Call.start cpp d e).right = true := by
  unfold Call.start Call.turn receivesRight
  dsimp only
  rw [h.control, h.buffer]
  exact isRight_iff.mpr ⟨h.code, hright⟩

/-- A name that does not fit is copied past the end of a message, which is no end of a call. -/
theorem not_settles_name (h : Called cpp d e data) (hname : d.client.nameFits = false) :
    ¬Settles cpp d e env := by
  rintro ⟨t, hreturns, ht⟩
  have hreceive := receive_called h
  rw [handelMessageReceivedWithCrc, if_neg (by
    intro hfits
    exact nomatch hname.symm.trans hfits)] at hreceive
  have hlost : (Call.start cpp d e).dialogue.client.control = .lost := by
    rw [Call.start, (turn_silent hreceive).1]
    rfl
  have hreturned : (crcRetryLoop cpp).returned (Call.start cpp d e) = true := by
    unfold crcRetryLoop
    dsimp only
    rw [hlost]
  obtain rfl := (Loop.returns_of_returned hreturned).mp hreturns
  obtain ⟨outcome, hends, -⟩ := ht.outcome
  cases outcome with
  | approved => exact nomatch hlost.symm.trans hends.2.2.2
  | aborted => exact nomatch hlost.symm.trans hends.2.2
  | channelFailed =>
    rcases hends.2.2.2 with hstopped | hended
    · exact nomatch hlost.symm.trans hstopped
    · exact nomatch hlost.symm.trans hended

theorem running_called (h : Called cpp d e data) :
    (d.client.buffered e.bytes).popFront.control = .running := h.control

/-- The first comparison ends the call, on a closed channel without a request. -/
theorem settles_right (h : Called cpp d e data) (hname : d.client.nameFits = true)
    (hright : checksum data = d.client.calculatedCrc) : Settles cpp d e env := by
  suffices hsettled : (Call.start cpp d e).Settled from
    ⟨_, (Loop.returns_of_returned (returned_of_settled hsettled)).mpr rfl, hsettled⟩
  have hreceive := receive_called h
  have hcontrol := running_called h
  generalize hc : (d.client.buffered e.bytes).popFront = c at hreceive hcontrol
  have hname' : c.nameFits = true := by
    rw [← hc]
    exact hname
  have hright' : checksum data = c.calculatedCrc := by
    rw [← hc]
    exact hright
  rw [handelMessageReceivedWithCrc, if_pos hname', if_pos hright', sendMessageToChannel] at hreceive
  dsimp only at hreceive
  cases hopen : c.isOpen with
  | true =>
    rw [hopen, if_pos rfl, atLoopHead_open hopen] at hreceive
    exact @settled_approves cpp ⟨d, [], false, false⟩ c e 0 (Nat.zero_le _) rfl (start_fresh h)
      (start_right h hright) hcontrol _ _ hreceive
  | false =>
    have hstopped : c.atLoopHead = { c with control := .stopped } := by
      unfold atLoopHead
      exact if_pos ⟨hcontrol, hopen⟩
    rw [hopen, if_neg Bool.false_ne_true, hstopped] at hreceive
    obtain ⟨hclient, hrequests⟩ := @turn_silent cpp ⟨d, [], false, false⟩ _ _ hreceive
    apply @settled_of_endsAs _ 0 .channelFailed (Nat.zero_le _) [] hrequests List.not_mem_nil
      (start_fresh h)
    have hempty : ∀ code, code ∉ (Call.start cpp d e).requests := by
      intro code
      rw [Call.start, hrequests]
      exact List.not_mem_nil
    refine ⟨hempty _, hempty _, ?_, .inl ?_⟩
    · rw [hclient]
      exact hopen
    · rw [hclient]

theorem start_wrong (h : Called cpp d e data) (hname : d.client.nameFits = true)
    (hwrong : checksum data ≠ d.client.calculatedCrc) :
    ((∃ packet, e.Accepts packet) ∧ e.writeOk = true →
      Retrying d.client.calculatedCrc d.client.crcAttempts 1 (Call.start cpp d e)) ∧
    (¬((∃ packet, e.Accepts packet) ∧ e.writeOk = true) →
      (Call.start cpp d e).dialogue.client.control = .stuck) := by
  have hbelow := reached_attempts h.reached (by
    rw [h.control]
    rfl)
  have hreceive := receive_called h
  have hopen : (∃ packet, e.Accepts packet) ↔
      (d.client.buffered e.bytes).popFront.isOpen = true := by
    constructor
    · rintro ⟨packet, hp⟩
      exact (buffered_accepts hp d.client).1
    · intro hopen
      by_contra hrejects
      rw [buffered_rejects hrejects] at hopen
      cases hopen
  generalize hc : (d.client.buffered e.bytes).popFront = c at hreceive hopen
  have hname' : c.nameFits = true := by
    rw [← hc]
    exact hname
  have hwrong' : checksum data ≠ c.calculatedCrc := by
    rw [← hc]
    exact hwrong
  have hbelow' : c.crcAttempts < maxAttempts := by
    rw [← hc]
    exact hbelow
  rw [handelMessageReceivedWithCrc, if_pos hname', if_neg hwrong'] at hreceive
  rw [hopen]
  cases hchannel : c.isOpen with
  | true =>
    rw [crcLoop_open hchannel hbelow'] at hreceive
    dsimp only at hreceive
    rw [atLoopHead_open (by exact hchannel)] at hreceive
    have hresends := @turn_resends cpp ⟨d, [], false, false⟩ _ e d.client.calculatedCrc
      d.client.crcAttempts 0 rfl (start_fresh h) _ rfl (by rw [← hc]; rfl) hbelow
      (by rw [← hc]; rfl) _ _ hreceive
    constructor
    · rintro ⟨-, hok⟩
      exact hresends.1 hok
    · intro hno
      apply hresends.2
      simpa using hno
  | false =>
    rw [crcLoop_closed hchannel hbelow'] at hreceive
    constructor
    · rintro ⟨hopen, -⟩
      cases hopen
    · intro _
      rw [Call.start, (turn_silent hreceive).1]
      rfl

section Samples

def constantCpp (crc : ℕ) : CppCrypto :=
  ⟨fun _ => crc, fun _ plain => plain, fun _ => some (.replicate symmetricKeySize 0)⟩

def uploaded (crc : ℕ) : Dialogue :=
  [⟨some (zeroResponse publicKeyReceived 144), true⟩].foldl (Dialogue.next (constantCpp crc))
    (.start (.opened [0x61] emptyId (filled _ 0) (filled _ 0) [0x78] []) true true)

def zeroChecksum : Exchange := ⟨some (zeroResponse msgReceivedCrc 279), true⟩

def oneChecksum : Exchange :=
  ⟨some ⟨padded packetSize ((zeroResponse msgReceivedCrc 279).val.take 282 ++ leBytes 4 1),
    length_padded ..⟩, true⟩

/-- Behind the first 2103 with the checksum 0 comes another one, and then the right one. -/
def correctedChannel : ℕ → Exchange
  | 0 => zeroChecksum
  | _ => oneChecksum

def closedChannel (_ : ℕ) : Exchange := ⟨none, false⟩

theorem called_uploaded {crc : ℕ} (hcontrol : (uploaded crc).client.control = .running)
    (hbuffer : ((uploaded crc).client.buffered zeroChecksum.bytes).buffer.map
      (fun data => (responseCode data, checksum data)) = some (msgReceivedCrc, 0)) :
    ∃ data, Called (constantCpp crc) (uploaded crc) zeroChecksum data ∧ checksum data = 0 := by
  obtain ⟨data, hdata, hfields⟩ := Option.map_eq_some_iff.mp hbuffer
  obtain ⟨hcode, hchecksum⟩ := Prod.mk.inj hfields
  exact ⟨data, ⟨⟨_, _, _, _, _, _, _, _, _, rfl⟩, hcontrol, hdata, hcode⟩, hchecksum⟩

end Samples

end Calls

end CrcRetryLoop
