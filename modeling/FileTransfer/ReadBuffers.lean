import FileTransfer.ClientDialogue

/-! # The buffers that the client reads into

`TcpClientChannel::Read` copies from its `tempBuffer` to the buffer of the caller, and does not
look at the size that the caller gives for it. `GetHeader` answers 0 for an invalid header
and for a response without a payload. -/
namespace ReadBuffers

open ByteField ServerProtocol ClientChannel ClientLogic ClientLogic.Client ClientDialogue StepRun

section Definitions

/-- A `memcpy` from the front of `tempBuffer` into the caller's buffer. -/
structure Copy where
  tempBuffer : Bytes
  offset : ℕ
  size : ℕ

def Copy.apply (buffer : Bytes) (copy : Copy) : Bytes :=
  buffer.take copy.offset ++ copy.tempBuffer.take copy.size ++
    buffer.drop (copy.offset + copy.size)

structure ReadCall where
  ok : Bool
  isOpen : Bool
  copies : List Copy

/-- The while loop of `Read` behind the first packet, with what arrives before the socket
raises. Each round lowers `bytesToRead`, so `fuel` rounds are enough from `bytesToRead ≤ fuel`
on. -/
def readRest (isOpen : Bool) :
    (fuel : ℕ) → (stream : Bytes) → (bytesToRead payloadSizeLeft offset : ℕ) → ReadCall
  | 0, _, _, _, _ => ⟨true, isOpen, []⟩
  | fuel + 1, stream, bytesToRead, payloadSizeLeft, offset =>
    if 0 < bytesToRead ∧ 0 < payloadSizeLeft then
      let bytesToRead := min bytesToRead packetSize
      if bytesToRead ≤ stream.length then
        let rest := readRest isOpen fuel (stream.drop bytesToRead) (bytesToRead - bytesToRead)
          (payloadSizeLeft - bytesToRead) (offset + bytesToRead)
        { rest with copies := ⟨stream.take bytesToRead, offset, bytesToRead⟩ :: rest.copies }
      else ⟨false, false, []⟩
    else ⟨true, isOpen, []⟩

/-- `TcpClientChannel::Read` with every copy that it makes. The first read takes a whole packet
or raises. -/
def readCall (isOpen : Bool) (packet : Option (Field packetSize)) (stream : Bytes) : ReadCall :=
  match packet with
  | none => ⟨false, false, []⟩
  | some tempBuffer =>
    let payloadSizeLeft := getHeader tempBuffer.val
    let code := responseCode tempBuffer.val
    if payloadSizeLeft = 0 ∧ code ≠ registrationFailed ∧ code ≠ msgReceived then
      ⟨false, false, []⟩
    else
      let copySize :=
        if packetSize < payloadSizeLeft then packetSize else payloadSizeLeft + headerSize
      if responsePayloadSize tempBuffer.val = 0 then
        ⟨true, isOpen, [⟨tempBuffer.val, 0, copySize⟩]⟩
      else
        let rest := readRest isOpen payloadSizeLeft stream (payloadSizeLeft - copySize)
          payloadSizeLeft copySize
        { rest with copies := ⟨tempBuffer.val, 0, copySize⟩ :: rest.copies }

def crcMessageSize : ℕ := headerSize + sizeExpected msgReceivedCrc

/-- The payload sizes of the protocol. The key has a varying one, behind the client id. -/
def Prescribed (packet : Bytes) : Prop :=
  let code := responseCode packet
  let size := responsePayloadSize packet
  code = registrationSucceeded ∧ size = clientIdSize ∨
    code = registrationFailed ∧ size = 0 ∨
    code = publicKeyReceived ∧ clientIdSize < size ∧ headerSize + size ≤ packetSize ∨
    code = msgReceivedCrc ∧ size = clientIdSize + 4 + fileNameSize + 4 ∨
    code = msgReceived ∧ size = 0

/-- `Read` accepts what the protocol prescribes, and closes the channel over anything else. -/
def Validates (packet : Field packetSize) : Prop :=
  ∀ isOpen stream, ((readCall isOpen (some packet) stream).ok = true ↔ Prescribed packet.val) ∧
    (¬Prescribed packet.val → (readCall isOpen (some packet) stream).isOpen = false)

/-- A payload behind a response that has none, or a key response that is too short for the
client id or too long for the packet. -/
def Misjudged (packet : Bytes) : Prop :=
  let code := responseCode packet
  let size := responsePayloadSize packet
  (code = registrationFailed ∨ code = msgReceived) ∧ size ≠ 0 ∨
    code = publicKeyReceived ∧ (0 < size ∧ size ≤ clientIdSize ∨
      packetSize < headerSize + size ∧ size ≤ packetSize)

/-- The dialogue, and how many bytes the last `Read` of `Run` stored. -/
structure Monitored where
  dialogue : Dialogue
  stored : ℕ

def ReadCall.stored (call : ReadCall) : ℕ := (call.copies.map (·.size)).sum

def Monitored.next (cpp : CppCrypto) (m : Monitored) (e : Exchange) : Monitored where
  dialogue := m.dialogue.next cpp e
  stored :=
    let call := readCall m.dialogue.client.isOpen e.packet []
    if m.dialogue.client.control = .running ∧ call.ok then call.stored else m.stored

def sizeArgument : Control → ℕ
  | .resending _ => crcMessageSize
  | _ => packetSize

/-- The copies stay inside `tempBuffer` and inside the caller's buffer, and a handler gets no
more bytes than were stored for it. -/
structure Bounded (cpp : CppCrypto) (m : Monitored) (e : Exchange) : Prop where
  copies : m.dialogue.client.control.awaits = true → ∀ stream,
    ∀ copy ∈ (readCall m.dialogue.client.isOpen e.packet stream).copies,
      copy.size ≤ packetSize ∧
        copy.offset + copy.size ≤ sizeArgument m.dialogue.client.control
  handed : m.dialogue.client.control = .running →
    ∃ data, (m.dialogue.client.buffered e.bytes).buffer = some data ∧
      responsePayloadSize data + headerSize ≤ (m.next cpp e).stored

/-- `Run` and the CRC loop are sent no more than they have room for, and `Run` has a response
in its buffer. -/
structure Fits (m : Monitored) (e : Exchange) : Prop where
  running : m.dialogue.client.control = .running → ∀ packet, e.Accepts packet →
    (responseCode packet = registrationFailed ∨ responseCode packet = msgReceived →
      responsePayloadSize packet = 0) ∧
    (responseCode packet = publicKeyReceived →
      headerSize + responsePayloadSize packet ≤ packetSize)
  filled : m.dialogue.client.control = .running →
    (∃ packet, e.Accepts packet) ∨ m.dialogue.client.buffer ≠ none
  resending : ∀ v, m.dialogue.client.control = .resending v → ∀ packet, e.Accepts packet →
    responseCode packet = publicKeyReceived →
      headerSize + responsePayloadSize packet ≤ crcMessageSize

def Stored (m : Monitored) : Prop :=
  ∀ data, m.dialogue.client.buffer = some data → responsePayloadSize data + headerSize ≤ m.stored

end Definitions

section Validation

variable {packet : Bytes}

theorem getHeader_sized (h : responseCode packet = registrationSucceeded ∨
    responseCode packet = msgReceivedCrc) (hsize : responsePayloadSize packet =
      sizeExpected (responseCode packet)) :
    getHeader packet = responsePayloadSize packet := by
  unfold getHeader
  dsimp only
  rcases h with hcode | hcode
  · rw [hcode] at hsize ⊢
    exact if_pos hsize
  · rw [hcode] at hsize ⊢
    exact if_pos hsize

theorem getHeader_mismatch (h : responseCode packet ≠ publicKeyReceived)
    (hsize : responsePayloadSize packet ≠ sizeExpected (responseCode packet)) :
    getHeader packet = 0 := by
  unfold getHeader
  dsimp only
  rw [if_neg h, if_neg hsize, ite_self]

theorem getHeader_empty (h : responseCode packet = registrationFailed ∨
    responseCode packet = msgReceived) : getHeader packet = 0 := by
  by_cases hsize : responsePayloadSize packet = sizeExpected (responseCode packet)
  · unfold getHeader
    dsimp only
    rcases h with hcode | hcode
    · rw [hcode] at hsize ⊢
      exact (if_pos hsize).trans hsize
    · rw [hcode] at hsize ⊢
      exact (if_pos hsize).trans hsize
  · apply getHeader_mismatch _ hsize
    rcases h with hcode | hcode
    · rw [hcode]
      decide
    · rw [hcode]
      decide

theorem getHeader_publicKey (h : responseCode packet = publicKeyReceived) :
    getHeader packet =
      if packetSize < responsePayloadSize packet then 0 else responsePayloadSize packet := by
  unfold getHeader
  dsimp only
  rw [h]
  rfl

theorem getHeader_le (packet : Bytes) : getHeader packet ≤ packetSize := by
  by_cases hkey : responseCode packet = publicKeyReceived
  · rw [getHeader_publicKey hkey]
    split
    · exact Nat.zero_le _
    · next h => exact not_lt.mp h
  · by_cases hsize : responsePayloadSize packet = sizeExpected (responseCode packet)
    · unfold getHeader
      dsimp only
      rw [if_neg hkey, if_pos hsize]
      split
      · exact Nat.zero_le _
      · rw [hsize]
        unfold sizeExpected
        split_ifs <;> decide
    · rw [getHeader_mismatch hkey hsize]
      exact Nat.zero_le _

theorem sized_pos (h : responseCode packet = registrationSucceeded ∨
    responseCode packet = msgReceivedCrc) : 0 < sizeExpected (responseCode packet) := by
  rcases h with hcode | hcode
  · rw [hcode]
    decide
  · rw [hcode]
    decide

theorem accepts_of_getHeader (h : 0 < getHeader packet) : readAccepts packet = true := by
  rw [readAccepts, decide_eq_true_eq]
  exact .inl h.ne'

theorem accepts_iff : readAccepts packet = true ↔
    (responseCode packet = registrationFailed ∨ responseCode packet = msgReceived) ∨
    (responseCode packet = registrationSucceeded ∨ responseCode packet = msgReceivedCrc) ∧
      responsePayloadSize packet = sizeExpected (responseCode packet) ∨
    responseCode packet = publicKeyReceived ∧ 0 < responsePayloadSize packet ∧
      responsePayloadSize packet ≤ packetSize := by
  constructor
  · intro h
    by_cases hempty : responseCode packet = registrationFailed ∨ responseCode packet = msgReceived
    · exact .inl hempty
    have hpos : getHeader packet ≠ 0 := by
      rw [readAccepts, decide_eq_true_eq] at h
      exact h.resolve_right hempty
    by_cases hkey : responseCode packet = publicKeyReceived
    · rw [getHeader_publicKey hkey] at hpos
      split at hpos
      · exact absurd rfl hpos
      · next hle => exact .inr (.inr ⟨hkey, Nat.pos_of_ne_zero hpos, not_lt.mp hle⟩)
    · have hsize : responsePayloadSize packet = sizeExpected (responseCode packet) := by
        by_contra hsize
        exact hpos (getHeader_mismatch hkey hsize)
      rw [not_or] at hempty
      rcases accepted_code h with hcode | hcode | hcode | hcode | hcode
      · exact absurd hcode hempty.1
      · exact .inr (.inl ⟨.inl hcode, hsize⟩)
      · exact absurd hcode hkey
      · exact .inr (.inl ⟨.inr hcode, hsize⟩)
      · exact absurd hcode hempty.2
  · rintro (hcode | ⟨hcode, hsize⟩ | ⟨hcode, hpos, hle⟩)
    · rw [readAccepts, decide_eq_true_eq]
      exact .inr hcode
    · apply accepts_of_getHeader
      rw [getHeader_sized hcode hsize, hsize]
      exact sized_pos hcode
    · apply accepts_of_getHeader
      rwa [getHeader_publicKey hcode, if_neg (not_lt.mpr hle)]

end Validation

section Calls

variable {packet : Field packetSize} {isOpen : Bool} {stream : Bytes}

theorem readRest_done (isOpen : Bool) (fuel : ℕ) (stream : Bytes) (payloadSizeLeft offset : ℕ) :
    readRest isOpen fuel stream 0 payloadSizeLeft offset = ⟨true, isOpen, []⟩ := by
  cases fuel with
  | zero => rfl
  | succ fuel => rw [readRest, if_neg (by simp)]

/-- The copy of the header is longer than the payload, so the loop behind it never runs. -/
theorem readCall_accepted (h : readAccepts packet.val = true) :
    readCall isOpen (some packet) stream =
      ⟨true, isOpen, [⟨packet.val, 0, getHeader packet.val + headerSize⟩]⟩ := by
  have hpasses : ¬(getHeader packet.val = 0 ∧ responseCode packet.val ≠ registrationFailed ∧
      responseCode packet.val ≠ msgReceived) := by
    rw [readAccepts, decide_eq_true_eq] at h
    rintro ⟨hzero, hfailed, happroved⟩
    rcases h with hne | hcode | hcode
    · exact hne hzero
    · exact hfailed hcode
    · exact happroved hcode
  unfold readCall
  dsimp only
  rw [if_neg hpasses, if_neg (not_lt.mpr (getHeader_le _)), Nat.sub_eq_zero_of_le (by omega),
    readRest_done, ite_self]

theorem readCall_rejected (h : readAccepts packet.val = false) :
    readCall isOpen (some packet) stream = ⟨false, false, []⟩ := by
  have hfails : getHeader packet.val = 0 ∧ responseCode packet.val ≠ registrationFailed ∧
      responseCode packet.val ≠ msgReceived := by
    rw [readAccepts, decide_eq_false_iff_not, not_or, not_or, not_not] at h
    exact h
  unfold readCall
  dsimp only
  rw [if_pos hfails]

theorem readCall_read (packet : Option (Field packetSize)) (isOpen : Bool) (stream buffer : Bytes) :
    read (packet.map (·.val)) buffer = ((readCall isOpen packet stream).ok,
      (readCall isOpen packet stream).copies.foldl Copy.apply buffer) := by
  cases packet with
  | none => rfl
  | some packet =>
    cases h : readAccepts packet.val with
    | true =>
      rw [readCall_accepted h, Option.map_some, read_accepted h, List.foldl_cons, List.foldl_nil,
        Copy.apply, List.take_zero, List.nil_append, Nat.zero_add]
    | false =>
      rw [readCall_rejected h, Option.map_some, read_rejected]
      · rfl
      · rintro _ ⟨⟩
        exact h

end Calls

section Responses

variable {packet : Bytes}

theorem accepts_prescribed (h : Prescribed packet) : readAccepts packet = true := by
  apply accepts_iff.mpr
  rcases h with
    ⟨hcode, hsize⟩ | ⟨hcode, -⟩ | ⟨hcode, hlt, hfits⟩ | ⟨hcode, hsize⟩ | ⟨hcode, -⟩
  · exact .inr (.inl ⟨.inl hcode, by rw [hcode, hsize]; rfl⟩)
  · exact .inl (.inl hcode)
  · refine .inr (.inr ⟨hcode, ?_, ?_⟩)
    · exact (Nat.zero_le _).trans_lt hlt
    · exact (Nat.le_add_left _ _).trans hfits
  · exact .inr (.inl ⟨.inr hcode, by rw [hcode, hsize]; rfl⟩)
  · exact .inl (.inr hcode)

theorem accepts_misjudged (h : Misjudged packet) : readAccepts packet = true := by
  apply accepts_iff.mpr
  rcases h with ⟨hcode, -⟩ | ⟨hcode, ⟨hpos, hle⟩ | ⟨hlt, hle⟩⟩
  · exact .inl hcode
  · exact .inr (.inr ⟨hcode, hpos, hle.trans (by decide)⟩)
  · refine .inr (.inr ⟨hcode, ?_, hle⟩)
    have : headerSize < packetSize := by decide
    omega

theorem not_prescribed_misjudged (h : Misjudged packet) : ¬Prescribed packet := by
  rintro hprescribed
  unfold Misjudged at h
  unfold Prescribed at hprescribed
  dsimp only at h hprescribed
  unfold registrationSucceeded registrationFailed publicKeyReceived msgReceivedCrc msgReceived at *
  omega

theorem prescribed_or_misjudged (h : readAccepts packet = true) :
    Prescribed packet ∨ Misjudged packet := by
  rcases accepts_iff.mp h with hcode | ⟨hcode, hsize⟩ | ⟨hcode, hpos, hle⟩
  · by_cases hsize : responsePayloadSize packet = 0
    · rcases hcode with hcode | hcode
      · exact .inl (.inr (.inl ⟨hcode, hsize⟩))
      · exact .inl (.inr (.inr (.inr (.inr ⟨hcode, hsize⟩))))
    · exact .inr (.inl ⟨hcode, hsize⟩)
  · rcases hcode with hcode | hcode
    · rw [hcode] at hsize
      exact .inl (.inl ⟨hcode, hsize⟩)
    · rw [hcode] at hsize
      exact .inl (.inr (.inr (.inr (.inl ⟨hcode, hsize⟩))))
  · by_cases hshort : responsePayloadSize packet ≤ clientIdSize
    · exact .inr (.inr ⟨hcode, .inl ⟨hpos, hshort⟩⟩)
    by_cases hlong : headerSize + responsePayloadSize packet ≤ packetSize
    · exact .inl (.inr (.inr (.inl ⟨hcode, not_le.mp hshort, hlong⟩)))
    · exact .inr (.inr ⟨hcode, .inr ⟨not_le.mp hlong, hle⟩⟩)

/-- Main theorem: `Read` judges a response by the protocol exactly when it is none of those that
it misjudges. -/
theorem validates_iff (packet : Field packetSize) :
    Validates packet ↔ ¬Misjudged packet.val := by
  constructor
  · intro h hmisjudged
    have haccepted := (h true []).1
    rw [readCall_accepted (accepts_misjudged hmisjudged)] at haccepted
    exact not_prescribed_misjudged hmisjudged (haccepted.mp rfl)
  · intro hjudged isOpen stream
    cases h : readAccepts packet.val with
    | true =>
      have hprescribed := (prescribed_or_misjudged h).resolve_right hjudged
      rw [readCall_accepted h]
      exact ⟨⟨fun _ => hprescribed, fun _ => rfl⟩, fun hno => absurd hprescribed hno⟩
    | false =>
      have hno : ¬Prescribed packet.val := by
        intro hprescribed
        rw [accepts_prescribed hprescribed] at h
        cases h
      rw [readCall_rejected h]
      refine ⟨⟨?_, fun hprescribed => absurd hprescribed hno⟩, fun _ => rfl⟩
      intro hok
      cases hok

theorem not_validates_refusal : ¬∀ packet, Validates packet := by
  intro h
  have hcall := (h (zeroResponse registrationFailed 5) true []).1
  have hok : (readCall true (some (zeroResponse registrationFailed 5)) []).ok = true := by
    decide +kernel
  have hprescribed : ¬Prescribed (zeroResponse registrationFailed 5).val := by
    unfold Prescribed
    decide +kernel
  exact hprescribed (hcall.mp hok)

end Responses

section Steps

variable {cpp : CppCrypto} {m : Monitored} {e : Exchange} {packet : Bytes}

theorem accepts_stored (h : e.Accepts packet) (isOpen : Bool) (stream : Bytes) :
    readCall isOpen e.packet stream =
      ⟨true, isOpen, [⟨packet, 0, getHeader packet + headerSize⟩]⟩ := by
  obtain ⟨hpacket, haccepts⟩ := h
  obtain ⟨field, hfield, rfl⟩ := Option.map_eq_some_iff.mp hpacket
  rw [hfield, readCall_accepted haccepts]

theorem rejects_stored (h : ¬∃ packet, e.Accepts packet) (isOpen : Bool) (stream : Bytes) :
    readCall isOpen e.packet stream = ⟨false, false, []⟩ := by
  cases hpacket : e.packet with
  | none => rfl
  | some field =>
    apply readCall_rejected
    apply rejects_iff.mp h
    rw [Exchange.bytes, hpacket]
    rfl

/-- Only a key response can be longer than the struct of a checksum. -/
theorem copy_fits {limit : ℕ} (hlimit : crcMessageSize ≤ limit) (h : readAccepts packet = true) :
    getHeader packet + headerSize ≤ limit ↔ (responseCode packet = publicKeyReceived →
      headerSize + responsePayloadSize packet ≤ limit) := by
  rcases accepts_iff.mp h with hcode | ⟨hcode, hsize⟩ | ⟨hcode, -, hle⟩
  · have hother : responseCode packet ≠ publicKeyReceived := by
      rcases hcode with hcode | hcode <;> rw [hcode] <;> decide
    rw [getHeader_empty hcode, Nat.zero_add]
    refine ⟨fun _ hkey => absurd hkey hother, fun _ => ?_⟩
    exact (show headerSize ≤ crcMessageSize by decide).trans hlimit
  · have hother : responseCode packet ≠ publicKeyReceived := by
      rcases hcode with hcode | hcode <;> rw [hcode] <;> decide
    refine ⟨fun _ hkey => absurd hkey hother, fun _ => ?_⟩
    rw [getHeader_sized hcode hsize, hsize]
    apply le_trans _ hlimit
    rcases hcode with hcode | hcode <;> rw [hcode] <;> decide
  · rw [getHeader_publicKey hcode, if_neg (not_lt.mpr hle), Nat.add_comm]
    exact ⟨fun hfits _ => hfits, fun hfits => hfits hcode⟩

/-- Only a response without payload can declare more than is copied. -/
theorem handed_fits (h : readAccepts packet = true) :
    responsePayloadSize packet ≤ getHeader packet ↔
      (responseCode packet = registrationFailed ∨ responseCode packet = msgReceived →
        responsePayloadSize packet = 0) := by
  by_cases hempty : responseCode packet = registrationFailed ∨ responseCode packet = msgReceived
  · rw [getHeader_empty hempty, Nat.le_zero]
    exact ⟨fun hzero _ => hzero, fun hzero => hzero hempty⟩
  · refine ⟨fun _ hcode => absurd hcode hempty, fun _ => ?_⟩
    rcases (accepts_iff.mp h).resolve_left hempty with ⟨hcode, hsize⟩ | ⟨hcode, -, hle⟩
    · rw [getHeader_sized hcode hsize]
    · rw [getHeader_publicKey hcode, if_neg (not_lt.mpr hle)]

theorem buffered_payload (h : e.Accepts packet) (c : Client) :
    ∃ data, (c.buffered e.bytes).buffer = some data ∧
      responsePayloadSize data = responsePayloadSize packet := by
  rw [h.1]
  obtain ⟨-, rest, hdata⟩ := buffered_accepted h.2 c
  exact ⟨_, hdata, (header_copied (header_le h) _ _).2⟩

theorem stored_accepts (h : e.Accepts packet) (hrunning : m.dialogue.client.control = .running) :
    (m.next cpp e).stored = getHeader packet + headerSize := by
  unfold Monitored.next
  dsimp only
  rw [accepts_stored h, if_pos ⟨hrunning, rfl⟩]
  rfl

theorem stored_rejects (h : ¬∃ packet, e.Accepts packet) : (m.next cpp e).stored = m.stored := by
  unfold Monitored.next
  dsimp only
  rw [rejects_stored h, if_neg]
  rintro ⟨-, hok⟩
  cases hok

theorem stored_resending {v : Bytes} (h : m.dialogue.client.control = .resending v) :
    (m.next cpp e).stored = m.stored := by
  unfold Monitored.next
  dsimp only
  rw [if_neg]
  rintro ⟨hrunning, -⟩
  cases h.symm.trans hrunning

theorem copies_fit {limit : ℕ} (hlimit : crcMessageSize ≤ limit) (hmost : limit ≤ packetSize)
    (isOpen : Bool) : (∀ stream, ∀ copy ∈ (readCall isOpen e.packet stream).copies,
      copy.size ≤ packetSize ∧ copy.offset + copy.size ≤ limit) ↔
    ∀ packet, e.Accepts packet → responseCode packet = publicKeyReceived →
      headerSize + responsePayloadSize packet ≤ limit := by
  constructor
  · intro h packet hp
    apply (copy_fits hlimit hp.2).mp
    have hcopy := h [] ⟨packet, 0, getHeader packet + headerSize⟩ (by
      rw [accepts_stored hp]
      exact List.mem_singleton_self _)
    rw [← Nat.zero_add (getHeader packet + headerSize)]
    exact hcopy.2
  · intro h stream copy hcopy
    by_cases haccepts : ∃ packet, e.Accepts packet
    · obtain ⟨packet, hp⟩ := haccepts
      rw [accepts_stored hp, List.mem_singleton] at hcopy
      have hfits := (copy_fits hlimit hp.2).mpr (h packet hp)
      rw [hcopy]
      exact ⟨hfits.trans hmost, (Nat.zero_add _).trans_le hfits⟩
    · rw [rejects_stored haccepts] at hcopy
      exact absurd hcopy List.not_mem_nil

theorem handed_iff (hm : Stored m) (h : m.dialogue.client.control = .running) :
    (∃ data, (m.dialogue.client.buffered e.bytes).buffer = some data ∧
      responsePayloadSize data + headerSize ≤ (m.next cpp e).stored) ↔
    (∀ packet, e.Accepts packet →
      (responseCode packet = registrationFailed ∨ responseCode packet = msgReceived →
        responsePayloadSize packet = 0)) ∧
      ((∃ packet, e.Accepts packet) ∨ m.dialogue.client.buffer ≠ none) := by
  by_cases haccepts : ∃ packet, e.Accepts packet
  · obtain ⟨packet, hp⟩ := haccepts
    obtain ⟨data, hdata, hsize⟩ := buffered_payload hp m.dialogue.client
    rw [stored_accepts hp h]
    constructor
    · rintro ⟨data', hdata', hle⟩
      cases hdata.symm.trans hdata'
      refine ⟨fun packet' hp' => ?_, .inl ⟨packet, hp⟩⟩
      cases hp.1.symm.trans hp'.1
      apply (handed_fits hp.2).mp
      rw [← hsize]
      exact Nat.le_of_add_le_add_right hle
    · rintro ⟨hempty, -⟩
      refine ⟨data, hdata, Nat.add_le_add_right ?_ _⟩
      rw [hsize]
      exact (handed_fits hp.2).mpr (hempty packet hp)
  · rw [buffered_rejects haccepts, stored_rejects haccepts]
    constructor
    · rintro ⟨data, hdata, -⟩
      refine ⟨fun packet hp => absurd ⟨packet, hp⟩ haccepts, .inr ?_⟩
      rw [show m.dialogue.client.buffer = some data from hdata]
      exact Option.some_ne_none _
    · rintro ⟨-, hfilled⟩
      obtain ⟨data, hdata⟩ := Option.ne_none_iff_exists'.mp (hfilled.resolve_left haccepts)
      exact ⟨data, hdata, hm data hdata⟩

/-- The step rule: under the invariant the bounds are kept exactly where there is room. -/
theorem bounded_iff (hm : Stored m) : Bounded cpp m e ↔ Fits m e := by
  constructor
  · intro h
    refine ⟨fun hrunning packet hp => ⟨?_, ?_⟩, fun hrunning => ?_, fun v hresending => ?_⟩
    · exact ((handed_iff hm hrunning).mp (h.handed hrunning)).1 packet hp
    · have hcopies := h.copies (by rw [hrunning]; rfl)
      rw [hrunning] at hcopies
      exact (copies_fit (by decide) le_rfl _).mp hcopies packet hp
    · exact ((handed_iff hm hrunning).mp (h.handed hrunning)).2
    · have hcopies := h.copies (by rw [hresending]; rfl)
      rw [hresending] at hcopies
      exact (copies_fit le_rfl (by decide) _).mp hcopies
  · intro h
    refine ⟨fun hawaits => ?_, fun hrunning => ?_⟩
    · rcases awaits_cases hawaits with hrunning | ⟨v, hresending⟩
      · rw [hrunning]
        exact (copies_fit (by decide) le_rfl _).mpr
          fun packet hp => (h.running hrunning packet hp).2
      · rw [hresending]
        exact (copies_fit le_rfl (by decide) _).mpr (h.resending v hresending)
    · exact (handed_iff hm hrunning).mpr
        ⟨fun packet hp => (h.running hrunning packet hp).1, h.filled hrunning⟩

theorem stored_next (hm : Stored m) (h : Fits m e) : Stored (m.next cpp e) := by
  intro data hdata
  rcases m.dialogue.client.control_cases with hrunning | ⟨v, hresending⟩ | hidle
  · obtain ⟨data', hdata', hle⟩ := ((bounded_iff hm).mpr h).handed hrunning
    have hbuffer : (m.dialogue.next cpp e).client.buffer = some data := hdata
    rw [next_buffer.1 hrunning] at hbuffer
    cases hdata'.symm.trans hbuffer
    exact hle
  · rw [stored_resending hresending]
    apply hm
    rwa [← next_buffer.2 v hresending]
  · have hsame : (m.next cpp e).stored = m.stored := by
      unfold Monitored.next
      dsimp only
      rw [if_neg]
      rintro ⟨hrunning, -⟩
      rw [hrunning] at hidle
      cases hidle
    rw [hsame]
    apply hm
    rwa [← next_idle hidle]

end Steps

section Runs

def Monitored.start (name : Bytes) (id : ClientId) (publicKey : Field publicKeySize)
    (symmetricKey : Field symmetricKeySize) (fileToSend file : Bytes) (isRegistered ok : Bool) :
    Monitored :=
  ⟨.start (.opened name id publicKey symmetricKey fileToSend file) isRegistered ok, 0⟩

theorem stored_start (name : Bytes) (id : ClientId) (publicKey : Field publicKeySize)
    (symmetricKey : Field symmetricKeySize) (fileToSend file : Bytes) (isRegistered ok : Bool) :
    Stored (.start name id publicKey symmetricKey fileToSend file isRegistered ok) := by
  intro data hdata
  have hnone : (Dialogue.start (.opened name id publicKey symmetricKey fileToSend file)
      isRegistered ok).client.buffer = none := by
    rw [Dialogue.start, react_buffer, run_buffer]
    rfl
  cases hnone.symm.trans hdata

/-- Main theorem: in a run the copies stay inside their buffers, and the handlers inside what
was stored, exactly when every response has room. -/
theorem run_bounded_iff (cpp : CppCrypto) (name : Bytes) (id : ClientId)
    (publicKey : Field publicKeySize) (symmetricKey : Field symmetricKeySize)
    (fileToSend file : Bytes) (isRegistered ok : Bool) (es : List Exchange) :
    Along (Monitored.next cpp) (Bounded cpp)
        (.start name id publicKey symmetricKey fileToSend file isRegistered ok) es ↔
      Along (Monitored.next cpp) Fits
        (.start name id publicKey symmetricKey fileToSend file isRegistered ok) es := by
  apply along_iff_along (I := Stored)
  · exact fun _ hm => bounded_iff hm
  · exact fun _ hm h => stored_next hm h
  · apply stored_start

theorem not_bounded_key : ¬∀ (cpp : CppCrypto) (name : Bytes) (id : ClientId)
    (publicKey : Field publicKeySize) (symmetricKey : Field symmetricKeySize)
    (fileToSend file : Bytes) (isRegistered ok : Bool) (es : List Exchange),
    Along (Monitored.next cpp) (Bounded cpp)
      (.start name id publicKey symmetricKey fileToSend file isRegistered ok) es := by
  intro h
  let cpp : CppCrypto := ⟨fun _ => 0, fun _ plain => plain, fun _ => none⟩
  let key : Exchange := ⟨some (zeroResponse publicKeyReceived 1020), true⟩
  obtain ⟨hbounded, -⟩ :=
    h cpp [0x61] emptyId (filled _ 0) (filled _ 0) [0x78] [] true true [key]
  have haccepts : key.Accepts (zeroResponse publicKeyReceived 1020).val := by
    refine ⟨rfl, ?_⟩
    decide +kernel
  have hcopy := hbounded.copies (by decide +kernel) []
    ⟨_, 0, getHeader (zeroResponse publicKeyReceived 1020).val + headerSize⟩ (by
      rw [accepts_stored haccepts]
      exact List.mem_singleton_self _)
  have hlong : ¬getHeader (zeroResponse publicKeyReceived 1020).val + headerSize ≤ packetSize := by
    decide +kernel
  exact hlong hcopy.1

end Runs

end ReadBuffers
