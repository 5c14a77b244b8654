import FileTransfer.MessageRoundTrip

/-! # What the client writes

`Write` takes whole packets from memory. Which memory it reads is compared with the buffer
that it was given. -/
namespace ClientWrites

open ByteField ServerProtocol ClientChannel MessageRoundTrip

section Definitions

/-- The bytes of `Write(buffer, length)` on the wire when the socket takes `delivered` bytes
before it fails. -/
def wire (mem : ℕ → UInt8) (buffer length delivered : ℕ) : Bytes :=
  (writeLoop mem length buffer length).flatten.take delivered

def bytesAt (mem : ℕ → UInt8) (buffer length : ℕ) : Bytes :=
  (List.range length).map fun i => mem (buffer + i)

/-- The wire carries the buffer with a padding that is the same for all memories, and so two
memories with the same buffer cannot be told apart. -/
structure LeaksNothing (length delivered : ℕ) : Prop where
  padded : ∃ padding : Bytes, packetSize ∣ length + padding.length ∧ ∀ mem buffer,
    wire mem buffer length delivered = (bytesAt mem buffer length ++ padding).take delivered
  twoRuns : ∀ mem mem' buffer buffer',
    (∀ i < length, mem (buffer + i) = mem' (buffer' + i)) →
      wire mem buffer length delivered = wire mem' buffer' length delivered

end Definitions

variable {mem mem' : ℕ → UInt8} {buffer buffer' length delivered : ℕ}

@[simp] theorem length_bytesAt : (bytesAt mem buffer length).length = length := by
  simp [bytesAt]

theorem bytesAt_add (n : ℕ) : bytesAt mem buffer (length + n) =
    bytesAt mem buffer length ++ bytesAt mem (buffer + length) n := by
  simp [bytesAt, List.range_add, Function.comp_def, Nat.add_assoc]

theorem bytesAt_congr (h : ∀ i < length, mem (buffer + i) = mem' (buffer' + i)) :
    bytesAt mem buffer length = bytesAt mem' buffer' length := by
  apply List.map_congr_left
  intro i hi
  exact h i (List.mem_range.mp hi)

def overrun (length : ℕ) : ℕ := packetSize * packetCount length - length

theorem overrun_spec (length : ℕ) : length + overrun length = packetSize * packetCount length := by
  unfold overrun packetCount packetSize
  omega

theorem overrun_eq_zero_iff : overrun length = 0 ↔ packetSize ∣ length := by
  unfold overrun packetCount packetSize
  omega

theorem wire_eq : wire mem buffer length delivered =
    (bytesAt mem buffer length ++ bytesAt mem (buffer + length) (overrun length)).take
      delivered := by
  rw [wire, flatten_writeLoop le_rfl, ← bytesAt_add, overrun_spec]
  rfl

theorem wire_behind (hdelivered : length < delivered) (hoverrun : 0 < overrun length) :
    (wire mem buffer length delivered)[length]? = some (mem (buffer + length)) := by
  obtain ⟨n, hn⟩ := Nat.exists_eq_succ_of_ne_zero hoverrun.ne'
  rw [wire_eq, List.getElem?_take_of_lt hdelivered, List.getElem?_append_right (by simp)]
  simp [bytesAt, hn]

/-- Main theorem: `Write` leaks nothing exactly when the buffer is a whole number of packets
or the socket fails before its end. -/
theorem leaksNothing_iff (length delivered : ℕ) :
    LeaksNothing length delivered ↔ packetSize ∣ length ∨ delivered ≤ length := by
  constructor
  · intro h
    by_contra hnot
    push Not at hnot
    obtain ⟨hwhole, hdelivered⟩ := hnot
    have hoverrun : 0 < overrun length :=
      Nat.pos_of_ne_zero fun hzero => hwhole (overrun_eq_zero_iff.mp hzero)
    -- two memories that differ in the byte behind the buffer
    let zeros : ℕ → UInt8 := fun _ => 0
    let marked : ℕ → UInt8 := fun i => if i = length then 1 else 0
    have hsame := h.twoRuns zeros marked 0 0 fun i hi => by
      simp [zeros, marked, hi.ne]
    have hzeros := @wire_behind zeros 0 length delivered hdelivered hoverrun
    have hmarked := @wire_behind marked 0 length delivered hdelivered hoverrun
    rw [hsame, hmarked] at hzeros
    simp [zeros, marked] at hzeros
  · rintro (hwhole | hcut)
    · have hzero := overrun_eq_zero_iff.mpr hwhole
      have hwire : ∀ mem buffer, wire mem buffer length delivered =
          (bytesAt mem buffer length).take delivered := by
        intro mem buffer
        rw [wire_eq, hzero]
        simp [bytesAt]
      constructor
      · refine ⟨[], by simpa using hwhole, fun mem buffer => ?_⟩
        rw [hwire, List.append_nil]
      · intro mem mem' buffer buffer' h
        rw [hwire, hwire, bytesAt_congr h]
    · have hwire : ∀ mem buffer (padding : Bytes), wire mem buffer length delivered =
          (bytesAt mem buffer length ++ padding).take delivered := by
        intro mem buffer padding
        have hfits : delivered ≤ (bytesAt mem buffer length).length := by simpa using hcut
        rw [wire_eq, List.take_append_of_le_length hfits, List.take_append_of_le_length hfits]
      constructor
      · refine ⟨List.replicate (overrun length) 0, ?_, fun mem buffer => hwire mem buffer _⟩
        rw [List.length_replicate, overrun_spec]
        exact Nat.dvd_mul_right ..
      · intro mem mem' buffer buffer' h
        rw [hwire mem buffer [], hwire mem' buffer' [], bytesAt_congr h]

theorem not_leaksNothing_registration :
    ¬∀ (message : Bytes) (beyond beyond' : ℕ → UInt8),
      (writePackets message beyond).flatten = (writePackets message beyond').flatten := by
  intro h
  have hsame := h (registrationRequestMessage [0x61]) (fun _ => 0) (fun _ => 1)
  rw [flatten_writePackets, flatten_writePackets] at hsame
  have hbehind := List.append_cancel_left hsame
  rw [List.map_const', List.map_const', List.replicate_inj] at hbehind
  obtain ⟨-, hempty | hequal⟩ := hbehind
  · rw [List.length_range] at hempty
    revert hempty
    simp [registrationRequestMessage, clientName, requestHeaderSize, clientIdSize, headerSize,
      clientNameSize, packetCount, packetSize]
  · exact absurd hequal (by decide)

/-- No message of the client is a whole number of packets. -/
theorem message_overrun (id : ClientId) (name : Bytes) (publicKey : Field publicKeySize)
    (fileName : Field fileNameSize) (code contentSize : ℕ) {encrypted : Bytes}
    (hblocks : 16 ∣ encrypted.length) (message : Bytes)
    (h : message ∈ [registrationRequestMessage name, publicKeyRequestMessage id name publicKey,
      crcStatusRequestMessage code id fileName,
      requestToSendFileMessage id contentSize fileName encrypted]) :
    ¬packetSize ∣ message.length := by
  simp only [List.mem_cons, List.not_mem_nil, or_false] at h
  rcases h with rfl | rfl | rfl | rfl
  · simp [registrationRequestMessage, clientName, requestHeaderSize, clientIdSize, headerSize,
      clientNameSize, packetSize]
  · simp [publicKeyRequestMessage, clientName, publicKey.property, requestHeaderSize,
      clientIdSize, headerSize, clientNameSize, publicKeySize, packetSize]
  · simp [crcStatusRequestMessage, id.property, fileName.property, requestHeaderSize,
      clientIdSize, headerSize, fileNameSize, packetSize]
  · simp only [requestToSendFileMessage, List.length_append, length_requestHeader,
      length_leBytes, fileName.property, requestHeaderSize, clientIdSize, headerSize,
      fileNameSize, packetSize]
    omega

end ClientWrites
