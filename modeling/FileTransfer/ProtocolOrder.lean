import FileTransfer.ClientDialogue

/-! # Protocol order on the client

The dispatcher is a table of codes and does not know the outstanding request. Which runs keep
the order of the protocol all the same is a condition on each response and on the response
before it. -/
namespace ProtocolOrder

open ByteField ServerProtocol ClientChannel ClientLogic ClientLogic.Client ClientDialogue StepRun

section Definitions

/-- What a response changes that is rejected as an error. An ended client has no queue. -/
structure Unchanged (c c' : Client) : Prop where
  id : c'.id = c.id
  symmetricKey : c'.symmetricKey = c.symmetricKey
  messageQueue : c'.messageQueue = c.messageQueue ∨ c'.control = .ended true
  control : c'.control = .lost → c.control = .lost

/-- The client acts on a success response only when it was just read and answers the
outstanding request, and otherwise stays as it is. -/
structure InOrder (cpp : CppCrypto) (d : Dialogue) (e : Exchange) : Prop where
  acted : ∀ code, Acts d.client e.bytes code →
    (∃ packet, e.Accepts packet ∧ responseCode packet = code) ∧ d.Answers code
  approved : d.client.control ≠ .ended false → (d.next cpp e).client.control = .ended false →
    d.outstanding = some requestCrcValid
  rejected : (∀ packet, e.Accepts packet → ¬d.Answers (responseCode packet)) →
    Unchanged d.client (d.next cpp e).client

/-- A 2101 finds a message to send again, or no attempt left. -/
def Refusable (c : Client) : Prop := c.messageQueue ≠ [] ∨ c.numOfAttempts = 0

def Rejectable (c : Client) : Prop :=
  match c.control with
  | .running => ∃ data, c.buffer = some data ∧ ¬IsSuccess (responseCode data) ∧
      (responseCode data = registrationFailed → Refusable c)
  | .resending validresponse => responseCode validresponse ≠ msgReceivedCrc
  | _ => True

/-- The dispatcher gets no other response than a 2101 or the answer to the outstanding
request. -/
structure Ordered (d : Dialogue) (e : Exchange) : Prop where
  expected : ∀ packet, e.Accepts packet → d.client.control = .running →
    responseCode packet = registrationFailed ∧ Refusable d.client ∨
      d.Answers (responseCode packet)
  fresh : (¬∃ packet, e.Accepts packet) → Rejectable d.client

def Resends (d : Dialogue) : Prop :=
  ∀ v, d.client.control = .resending v → d.outstanding = some invalidCrcResendRequest

end Definitions

section Reactions

variable {cpp : CppCrypto} {c c' : Client} {d : Dialogue} {e : Exchange} {packet : Bytes}
  {r : Reaction} {ok error : Bool} {data : Bytes}

theorem ended_atLoopHead (h : c.atLoopHead.control = .ended error) : c.control = .ended error := by
  rcases c.atLoopHead_cases with heq | heq
  · rwa [heq] at h
  · rw [heq] at h
    cases h

theorem ended_writeFailed (h : c.writeFailed.control = .ended error) :
    c.control = .ended error := by
  unfold writeFailed at h
  split at h
  · cases h
  · cases h
  · exact h

theorem ended_react (h : (d.react r ok).client.control = .ended error) :
    r.1.control = .ended error := by
  revert h
  apply react_client (P := fun c => c.control = .ended error → r.1.control = .ended error)
  · exact fun h => h
  · exact ended_writeFailed

theorem Unchanged.refl (c : Client) : Unchanged c c := ⟨rfl, rfl, .inl rfl, fun h => h⟩

theorem unchanged_atLoopHead (h : Unchanged c c') : Unchanged c c'.atLoopHead := by
  unfold atLoopHead
  split
  · next hrunning =>
    refine ⟨h.id, h.symmetricKey, .inl (h.messageQueue.resolve_right ?_), nofun⟩
    rw [hrunning.1]
    exact nofun
  · exact h

theorem unchanged_writeFailed (h : Unchanged c c') : Unchanged c c'.writeFailed := by
  have hopen : c'.control ≠ .ended true → c'.messageQueue = c.messageQueue :=
    h.messageQueue.resolve_right
  unfold writeFailed
  split
  · next hcontrol =>
    refine ⟨h.id, h.symmetricKey, .inl (hopen ?_), nofun⟩
    rw [hcontrol]
    exact nofun
  · next hcontrol =>
    refine ⟨h.id, h.symmetricKey, .inl (hopen ?_), nofun⟩
    rw [hcontrol]
    exact nofun
  · exact ⟨h.id, h.symmetricKey, h.messageQueue, h.control⟩

theorem unchanged_react (h : Unchanged c r.1) : Unchanged c (d.react r ok).client := by
  apply react_client (P := Unchanged c)
  · exact h
  · exact unchanged_writeFailed h

theorem unchanged_crcLoop (c : Client) (v : Bytes) : Unchanged c (c.crcLoop v).1 := by
  unfold crcLoop
  split
  · split
    · exact ⟨rfl, rfl, .inl rfl, nofun⟩
    · exact ⟨rfl, rfl, .inl rfl, nofun⟩
  · exact ⟨rfl, rfl, .inr rfl, nofun⟩

theorem unchanged_checkResponse (c : Client) (v : Bytes) : Unchanged c (c.checkResponse v).1 := by
  unfold checkResponse
  split
  · split
    · exact ⟨rfl, rfl, .inl rfl, nofun⟩
    · obtain ⟨hid, hkey, hqueue, hcontrol⟩ :=
        unchanged_crcLoop { c with crcAttempts := c.crcAttempts + 1 } v
      exact ⟨hid, hkey, hqueue, hcontrol⟩
  · exact unchanged_crcLoop c v

theorem unchanged_registrationFailed (h : Refusable c) :
    Unchanged c c.handelRegistrationFailed.1 := by
  unfold handelRegistrationFailed
  split
  · next hattempts =>
    split
    · next hqueue =>
      rcases h with hne | hzero
      · exact absurd hqueue hne
      · omega
    · exact ⟨rfl, rfl, .inl rfl, fun h => h⟩
  · exact ⟨rfl, rfl, .inr rfl, nofun⟩

theorem unchanged_dispatch (hdata : c.buffer = some data) (hno : ¬IsSuccess (responseCode data))
    (hfailed : responseCode data = registrationFailed → Refusable c) :
    Unchanged c (dispatch cpp c).1 := by
  unfold IsSuccess at hno
  push Not at hno
  obtain ⟨h₁, h₃, h₄, h₅⟩ := hno
  unfold dispatch
  rw [hdata]
  dsimp only
  rw [if_neg h₁, if_neg h₃, if_neg h₄, if_neg h₅]
  split
  · next h₂ => exact unchanged_registrationFailed (hfailed h₂)
  · exact .refl c

theorem lost_of_not_refusable (h : ¬Refusable c) :
    c.handelRegistrationFailed.1.control = .lost := by
  unfold Refusable at h
  push Not at h
  unfold handelRegistrationFailed
  rw [if_pos (Nat.pos_of_ne_zero h.2), h.1]

theorem lost_react (h : r.1.control = .lost) : (d.react r ok).client.control = .lost := by
  apply react_client (P := fun c => c.control = .lost)
  · exact h
  · unfold writeFailed
    rw [h]

theorem lost_atLoopHead (h : c.control = .lost) : c.atLoopHead.control = .lost := by
  unfold atLoopHead
  rw [if_neg]
  · exact h
  · rw [h]
    exact nofun

end Reactions

section Steps

variable {cpp : CppCrypto} {d : Dialogue} {e : Exchange} {packet : Bytes}

theorem rejectable_running (h : d.client.control = .running) : Rejectable d.client ↔
    ∃ data, d.client.buffer = some data ∧ ¬IsSuccess (responseCode data) ∧
      (responseCode data = registrationFailed → Refusable d.client) := by
  unfold Rejectable
  rw [h]

theorem rejectable_resending {v : Bytes} (h : d.client.control = .resending v) :
    Rejectable d.client ↔ responseCode v ≠ msgReceivedCrc := by
  unfold Rejectable
  rw [h]

theorem acts_accepted (h : e.Accepts packet) (hcontrol : d.client.control = .running) (code : ℕ) :
    Acts d.client e.bytes code ↔ code = responseCode packet ∧ IsSuccess code := by
  obtain ⟨-, data, hdata, hcode⟩ := buffered_accepts h d.client
  rw [acts_running hcontrol]
  constructor
  · rintro ⟨⟨data', hdata', rfl⟩, hsuccess⟩
    cases hdata.symm.trans hdata'
    exact ⟨hcode, hsuccess⟩
  · rintro ⟨rfl, hsuccess⟩
    exact ⟨⟨data, hdata, hcode⟩, hsuccess⟩

theorem acts_rejected (h : ¬∃ packet, e.Accepts packet) {code : ℕ}
    (hacts : Acts d.client e.bytes code) : ¬Rejectable d.client := by
  rcases awaits_cases (awaits_of_acts hacts) with hcontrol | ⟨v, hcontrol⟩
  · rw [acts_running hcontrol, buffered_rejects h] at hacts
    rw [rejectable_running hcontrol]
    obtain ⟨⟨data, hdata, rfl⟩, hsuccess⟩ := hacts
    rintro ⟨data', hdata', hno, -⟩
    cases hdata.symm.trans hdata'
    exact hno hsuccess
  · rw [acts_resending hcontrol, read_rejects h] at hacts
    rw [rejectable_resending hcontrol]
    obtain ⟨rfl, hcode⟩ := hacts
    exact not_not.mpr hcode

theorem answers_success {code : ℕ} (h : d.Answers code) : IsSuccess code := by
  obtain ⟨request, -, hsuccess⟩ := Option.bind_eq_some_iff.mp h
  unfold successOf at hsuccess
  split_ifs at hsuccess
  all_goals
    cases hsuccess
    decide

theorem not_answers_failed : ¬d.Answers registrationFailed := by
  intro h
  exact absurd (answers_success h) (by decide)

theorem next_lost (hcontrol : d.client.control = .running)
    (h : (dispatch cpp (d.client.buffered e.bytes)).1.control = .lost) :
    (d.next cpp e).client.control = .lost := by
  apply lost_react
  rw [receive_running hcontrol]
  exact lost_atLoopHead h

theorem accepts_unique {packet packet' : Bytes} (h : e.Accepts packet) (h' : e.Accepts packet') :
    packet' = packet := Option.some.inj (h'.1.symm.trans h.1)

theorem refusable_of_inOrder (h : InOrder cpp d e) (hcontrol : d.client.control = .running)
    {data : Bytes} (hdata : (d.client.buffered e.bytes).buffer = some data)
    (hcode : responseCode data = registrationFailed)
    (hno : ∀ packet, e.Accepts packet → ¬d.Answers (responseCode packet)) :
    Refusable d.client := by
  by_contra hlost
  have hnext : (d.next cpp e).client.control = .lost := by
    apply next_lost hcontrol
    rw [dispatch_failed hdata hcode]
    exact @lost_of_not_refusable (d.client.buffered e.bytes) hlost
  have hsame := (h.rejected hno).control hnext
  rw [hcontrol] at hsame
  cases hsame

theorem rejectable_of_inOrder (h : InOrder cpp d e) (hnone : ¬∃ packet, e.Accepts packet) :
    Rejectable d.client := by
  have hno : ∀ packet, e.Accepts packet → ¬d.Answers (responseCode packet) :=
    fun packet hpacket => absurd ⟨packet, hpacket⟩ hnone
  have hidle : ∀ code, ¬Acts d.client e.bytes code := by
    intro code hacts
    obtain ⟨⟨packet, hpacket, -⟩, -⟩ := h.acted code hacts
    exact hnone ⟨packet, hpacket⟩
  by_cases hawaits : d.client.control.awaits = true
  · rcases awaits_cases hawaits with hcontrol | ⟨v, hcontrol⟩
    · rw [rejectable_running hcontrol]
      have hbuffered := buffered_rejects hnone d.client
      cases hbuffer : d.client.buffer with
      | none =>
        have hnext : (d.next cpp e).client.control = .lost := by
          apply next_lost hcontrol
          rw [hbuffered, dispatch]
          dsimp only
          rw [hbuffer]
        have hsame := (h.rejected hno).control hnext
        rw [hcontrol] at hsame
        cases hsame
      | some data =>
        have hdata : (d.client.buffered e.bytes).buffer = some data := by
          rw [hbuffered]
          exact hbuffer
        refine ⟨data, rfl, ?_, ?_⟩
        · intro hsuccess
          exact hidle _ ((acts_running hcontrol _ _).mpr ⟨⟨data, hdata, rfl⟩, hsuccess⟩)
        · intro hcode
          exact refusable_of_inOrder h hcontrol hdata hcode hno
    · rw [rejectable_resending hcontrol]
      intro hcode
      apply hidle msgReceivedCrc
      rw [acts_resending hcontrol, read_rejects hnone]
      exact ⟨hcode, rfl⟩
  · unfold Rejectable
    split
    · next hcontrol => rw [hcontrol] at hawaits; exact absurd rfl hawaits
    · next hcontrol => rw [hcontrol] at hawaits; exact absurd rfl hawaits
    · trivial

theorem ordered_of_inOrder (h : InOrder cpp d e) : Ordered d e := by
  constructor
  · intro packet hpacket hcontrol
    rcases accepted_code hpacket.2 with hfailed | hsuccess
    · obtain ⟨-, data, hdata, hcode⟩ := buffered_accepts hpacket d.client
      refine .inl ⟨hfailed, refusable_of_inOrder h hcontrol hdata (hcode.trans hfailed) ?_⟩
      intro packet' hpacket'
      rw [accepts_unique hpacket hpacket', hfailed]
      exact not_answers_failed
    · have hacts := (acts_accepted hpacket hcontrol _).mpr ⟨rfl, hsuccess⟩
      exact .inr (h.acted _ hacts).2
  · exact rejectable_of_inOrder h

theorem acted_of_ordered (hd : Resends d) (h : Ordered d e) {code : ℕ}
    (hacts : Acts d.client e.bytes code) :
    (∃ packet, e.Accepts packet ∧ responseCode packet = code) ∧ d.Answers code := by
  by_cases haccepts : ∃ packet, e.Accepts packet
  · obtain ⟨packet, hpacket⟩ := haccepts
    by_cases hcontrol : d.client.control = .running
    · obtain ⟨rfl, hsuccess⟩ := (acts_accepted hpacket hcontrol code).mp hacts
      refine ⟨⟨packet, hpacket, rfl⟩, (h.expected packet hpacket hcontrol).resolve_left ?_⟩
      rintro ⟨hfailed, -⟩
      rw [hfailed] at hsuccess
      revert hsuccess
      decide
    · rcases awaits_cases (awaits_of_acts hacts) with hrunning | ⟨v, hresending⟩
      · exact absurd hrunning hcontrol
      · obtain ⟨hcode, rfl⟩ := (acts_resending hresending _ _).mp hacts
        refine ⟨⟨packet, hpacket, (read_accepts hpacket v).2.symm.trans hcode⟩, ?_⟩
        rw [Dialogue.Answers, hd v hresending]
        rfl
  · exact absurd (h.fresh haccepts) (acts_rejected haccepts hacts)

theorem answers_approved (h : d.Answers msgReceived) : d.outstanding = some requestCrcValid := by
  obtain ⟨request, hrequest, hsuccess⟩ := Option.bind_eq_some_iff.mp h
  rw [hrequest]
  unfold successOf at hsuccess
  split at hsuccess
  · cases hsuccess
  · split at hsuccess
    · cases hsuccess
    · split at hsuccess
      · cases hsuccess
      · split at hsuccess
        · next heq => rw [heq]
        · cases hsuccess

theorem approved_acts (hunended : d.client.control ≠ .ended false)
    (h : (d.next cpp e).client.control = .ended false) : Acts d.client e.bytes msgReceived := by
  have hreceive := ended_react h
  rcases d.client.control_cases with hcontrol | ⟨v, hcontrol⟩ | hidle
  · rw [receive_running hcontrol] at hreceive
    have hdispatch := ended_atLoopHead hreceive
    have happroved : ¬(d.client.buffered e.bytes).Unapproved := by
      intro hno
      exact (@dispatch_proceeds cpp (d.client.buffered e.bytes) hcontrol hno).unfinished hdispatch
    unfold Unapproved at happroved
    push Not at happroved
    obtain ⟨data, hdata, hcode⟩ := happroved
    exact (acts_running hcontrol _ _).mpr ⟨⟨data, hdata, hcode⟩, by decide⟩
  · rw [receive_resending hcontrol] at hreceive
    have hcheck := ended_atLoopHead hreceive
    exact absurd hcheck (checkResponse_proceeds _ _).unfinished
  · rw [receive_idle hidle] at hreceive
    exact absurd hreceive hunended

theorem unchanged_of_ordered (h : Ordered d e)
    (hno : ∀ packet, e.Accepts packet → ¬d.Answers (responseCode packet)) :
    Unchanged d.client (d.next cpp e).client := by
  apply unchanged_react
  rcases d.client.control_cases with hcontrol | ⟨v, hcontrol⟩ | hidle
  · rw [receive_running hcontrol]
    apply unchanged_atLoopHead
    by_cases haccepts : ∃ packet, e.Accepts packet
    · obtain ⟨packet, hpacket⟩ := haccepts
      obtain ⟨-, data, hdata, hcode⟩ := buffered_accepts hpacket d.client
      obtain ⟨hfailed, hrefusable⟩ :=
        (h.expected packet hpacket hcontrol).resolve_right (hno packet hpacket)
      have hrejected : ¬IsSuccess (responseCode data) := by
        rw [hcode, hfailed]
        decide
      obtain ⟨hid, hkey, hqueue, hlost⟩ := @unchanged_dispatch cpp
        (d.client.buffered e.bytes) data hdata hrejected fun _ => hrefusable
      exact ⟨hid, hkey, hqueue, hlost⟩
    · obtain ⟨data, hdata, hrejected, hrefusable⟩ :=
        (rejectable_running hcontrol).mp (h.fresh haccepts)
      rw [buffered_rejects haccepts]
      obtain ⟨hid, hkey, hqueue, hlost⟩ := @unchanged_dispatch cpp
        { d.client with isOpen := false } data hdata hrejected hrefusable
      exact ⟨hid, hkey, hqueue, hlost⟩
  · rw [receive_resending hcontrol]
    apply unchanged_atLoopHead
    obtain ⟨hid, hkey, hqueue, hlost⟩ :=
      unchanged_checkResponse { d.client with isOpen := (read e.bytes v).1 } (read e.bytes v).2
    exact ⟨hid, hkey, hqueue, hlost⟩
  · rw [receive_idle hidle]
    exact .refl _

/-- One exchange keeps the order exactly when the condition on it is met. -/
theorem inOrder_iff (hd : Resends d) : InOrder cpp d e ↔ Ordered d e := by
  constructor
  · exact ordered_of_inOrder
  · intro h
    refine ⟨fun code => acted_of_ordered hd h, ?_, unchanged_of_ordered h⟩
    intro hunended hended
    exact answers_approved (acted_of_ordered hd h (approved_acts hunended hended)).2

end Steps

section Resending

variable {cpp : CppCrypto} {c : Client} {d : Dialogue} {e : Exchange} {r : Reaction}

theorem resends_react (h : Speaks c r) (ok : Bool) : Resends (d.react r ok) := by
  intro v hv
  unfold Dialogue.react at hv ⊢
  split
  · next hnone =>
    rw [hnone] at hv
    obtain ⟨message, hmessage, -⟩ := h.resending v hv
    cases hnone.symm.trans hmessage
  · next message hmessage =>
    rw [hmessage] at hv
    dsimp only at hv
    split
    · next hok =>
      rw [if_pos hok] at hv
      obtain ⟨message', hmessage', hcode⟩ := h.resending v hv
      cases hmessage.symm.trans hmessage'
      exact congrArg some hcode
    · next hok =>
      rw [if_neg hok] at hv
      unfold writeFailed at hv
      split at hv
      · cases hv
      · cases hv
      · next hno => exact absurd hv (hno v)

theorem resends_next (hd : Resends d) : Resends (d.next cpp e) := by
  by_cases hawaits : d.client.control.awaits = true
  · have hlength : ∀ p, e.bytes = some p → headerSize ≤ p.length := by
      intro p hp
      obtain ⟨field, -, rfl⟩ := Option.map_eq_some_iff.mp hp
      rw [field.property]
      decide
    exact resends_react (receive_speaks hawaits hlength).1 _
  · have hidle : d.client.control.awaits = false := by simpa using hawaits
    rw [next_idle hidle]
    exact hd

theorem resends_start (h : c.control = .running) (isRegistered ok : Bool) :
    Resends (.start c isRegistered ok) :=
  resends_react (run_speaks h isRegistered) ok

end Resending

section Runs

variable (cpp : CppCrypto) (name : Bytes) (id : ClientId) (publicKey : Field publicKeySize)
  (symmetricKey : Field symmetricKeySize) (fileToSend file : Bytes) (isRegistered ok : Bool)

end Runs

end ProtocolOrder
