import FileTransfer.MessageRoundTrip

/-! # Reassembly of file messages

The receive loop of `RequestToSendFile.unpack` on the packets that `Write` sends. -/
namespace SendFileReassembly

open ByteField ServerProtocol ClientChannel MessageRoundTrip

/-- Every chunk starts before `need` bytes are there and the last one reaches them. -/
def ExactFit : ℕ → List Bytes → Prop
  | need, [] => need = 0
  | need, chunk :: chunks => 0 < need ∧ ExactFit (need - chunk.length) chunks

instance decidableExactFit : (need : ℕ) → (chunks : List Bytes) → Decidable (ExactFit need chunks)
  | need, [] => inferInstanceAs (Decidable (need = 0))
  | need, chunk :: chunks =>
    have := decidableExactFit (need - chunk.length) chunks
    inferInstanceAs (Decidable (0 < need ∧ ExactFit (need - chunk.length) chunks))

theorem feed_need (p : PartialFile) (data : Bytes) :
    (p.feed data).need = p.need - data.length ∧
      (p.feed data).fileContent = p.fileContent ++ data.take p.need := by
  simp only [PartialFile.feed]
  split_ifs with h
  · refine ⟨?_, rfl⟩
    simp only [PartialFile.need] at h ⊢
    omega
  · refine ⟨?_, by rw [List.take_of_length_le le_rfl, List.take_of_length_le (by omega)]⟩
    simp only [PartialFile.need] at h ⊢
    omega

theorem complete_iff (p : PartialFile) : p.complete = true ↔ p.need = 0 := by
  simp only [PartialFile.complete, PartialFile.need, decide_eq_true_eq]
  omega

theorem receive_exactFit {p : PartialFile} {chunks : List Bytes}
    (h : ExactFit p.need chunks) (later : List RecvResult) :
    p.receive (chunks.map .chunk ++ later) =
      .accepted { p.request with
        fileContent := p.fileContent ++ chunks.flatten.take p.need } later := by
  induction chunks generalizing p with
  | nil =>
    have hc := (complete_iff p).mpr h
    rw [List.map_nil, List.nil_append, PartialFile.receive.eq_def, if_pos hc]
    simp [PartialFile.request]
  | cons chunk chunks ih =>
    obtain ⟨hpos, hfit⟩ := h
    obtain ⟨hneed, hcontent⟩ := feed_need p chunk
    have hc : ¬p.complete = true := by
      rw [complete_iff]
      omega
    rw [List.map_cons, List.cons_append, PartialFile.receive.eq_def, if_neg hc]
    dsimp only
    rw [ih (hneed ▸ hfit), hneed, hcontent, List.flatten_cons, List.take_append,
      List.append_assoc]
    rfl

theorem exactFit_packets {need : ℕ} {packets : List Bytes}
    (hsize : ∀ packet ∈ packets, packet.length = packetSize)
    (hcount : packets.length = packetCount need) : ExactFit need packets := by
  induction packets generalizing need with
  | nil =>
    simp only [List.length_nil, packetCount, packetSize] at hcount
    show need = 0
    omega
  | cons packet packets ih =>
    have hne : need ≠ 0 := by
      rintro rfl
      simp [packetCount, packetSize] at hcount
    have hp := packetCount_pos hne
    have hrest : packets.length = packetCount (need - packetSize) := by
      rw [List.length_cons] at hcount
      omega
    refine ⟨by omega, ?_⟩
    rw [hsize packet (by simp)]
    exact ih (fun q hq => hsize q (by simp [hq])) hrest

/-- `unpack` on the first packet gives the request and takes exactly the other packets
from the connection, whatever comes later. -/
def Reassembles (request : RequestToSendFile) (count : ℕ) (packets : List Bytes) : Prop :=
  packets.length = count ∧ ∃ first rest, packets = first :: rest ∧ ∀ later,
    RequestToSendFile.unpack (rest.map .chunk ++ later) first = .accepted request later

section Message

variable (id : ClientId) (contentSize : ℕ) (name encrypted : Bytes) (beyond : ℕ → UInt8)

def sentRequest : RequestToSendFile :=
  ⟨sendFileHeader id encrypted.length, contentSize, name, encrypted⟩

def sentPackets : List Bytes :=
  writePackets (requestToSendFileMessage id contentSize (nameField name) encrypted) beyond

theorem length_sentPackets :
    (sentPackets id contentSize name encrypted beyond).length =
      packetCount (282 + encrypted.length) := by
  rw [sentPackets, length_writePackets, requestToSendFileMessage_eq, List.length_append,
    length_sendFileFront]

theorem sentPackets_eq : ∃ first rest tail,
    sentPackets id contentSize name encrypted beyond = first :: rest ∧
      first = sendFileFront id contentSize name encrypted.length ++
        (encrypted ++ tail).take 742 ∧
      rest.flatten = (encrypted ++ tail).drop 742 ∧
      742 ≤ (encrypted ++ tail).length ∧ ∀ packet ∈ rest, packet.length = packetSize := by
  have hlen := length_sentPackets id contentSize name encrypted beyond
  have hflat := flatten_writePackets
    (requestToSendFileMessage id contentSize (nameField name) encrypted) beyond
  have hmem : ∀ packet ∈ sentPackets id contentSize name encrypted beyond,
      packet.length = packetSize := fun _ h => mem_writePackets h
  rw [← sentPackets, requestToSendFileMessage_eq, List.append_assoc] at hflat
  generalize (List.range _).map beyond = tail at hflat
  generalize sentPackets id contentSize name encrypted beyond = packets at hlen hflat hmem ⊢
  match packets with
  | [] =>
    simp only [List.length_nil, packetCount, packetSize] at hlen
    omega
  | first :: rest =>
    have hfirst : first.length = packetSize := hmem first (by simp)
    have hfront := length_sendFileFront id contentSize name encrypted.length
    rw [List.flatten_cons] at hflat
    have htotal := congrArg List.length hflat
    have htake := congrArg (List.take packetSize) hflat
    have hdrop := congrArg (List.drop packetSize) hflat
    rw [← hfirst, List.take_left, hfirst, List.take_append, hfront,
      List.take_of_length_le (by rw [hfront]; decide)] at htake
    rw [← hfirst, List.drop_left, hfirst, List.drop_append, hfront,
      List.drop_of_length_le (by rw [hfront]; decide), List.nil_append] at hdrop
    refine ⟨first, rest, tail, rfl, htake, hdrop, ?_, fun q hq => hmem q (by simp [hq])⟩
    simp only [List.length_append, hfront, hfirst, packetSize] at htotal ⊢
    omega

variable {id contentSize name encrypted beyond}

theorem reassembles_of_fits (hsize : contentSize < 256 ^ 4) (hname : WireName name)
    (hn : 4 + fileNameSize + encrypted.length < 256 ^ 4)
    (h : encrypted.length ≤ 742 ∨ 1024 < encrypted.length) :
    Reassembles (sentRequest id contentSize name encrypted)
      (packetCount (282 + encrypted.length))
      (sentPackets id contentSize name encrypted beyond) := by
  have hcount := length_sentPackets id contentSize name encrypted beyond
  obtain ⟨first, rest, tail, hpackets, hfirst, hrest, hlong, hmem⟩ :=
    sentPackets_eq id contentSize name encrypted beyond
  refine ⟨hcount, first, rest, hpackets, fun later => ?_⟩
  have hk : firstRead encrypted.length = encrypted.length ∧ encrypted.length ≤ 742 ∨
      firstRead encrypted.length = 742 ∧ 1024 < encrypted.length := by
    unfold firstRead
    rcases h with h | h
    · exact .inl ⟨if_neg (by simp only [packetSize]; omega), h⟩
    · exact .inr ⟨if_pos h, h⟩
  have hrestCount : rest.length = packetCount (encrypted.length - firstRead encrypted.length) := by
    rw [hpackets, List.length_cons] at hcount
    simp only [packetCount, packetSize] at hcount ⊢
    omega
  have hbegin := begin_sendFileFront id ((encrypted ++ tail).take 742) hsize hname hn
  rw [← hfirst, List.length_take, min_eq_left hlong, if_pos (by omega)] at hbegin
  rw [RequestToSendFile.unpack, hbegin]
  dsimp only
  rw [receive_exactFit (exactFit_packets hmem (by exact hrestCount)), hrest]
  simp only [PartialFile.request, PartialFile.need, sentRequest, Unpacked.accepted.injEq,
    RequestToSendFile.mk.injEq, true_and, and_true]
  rcases hk with ⟨hk, hle⟩ | ⟨hk, hlt⟩
  · rw [hk, Nat.sub_self, List.take_zero, List.append_nil, List.take_take, min_eq_left hle,
      List.take_left]
  · have hsplit : encrypted.length = 742 + (encrypted.length - 742) := by omega
    rw [hk, List.take_take, min_self, ← List.take_add, ← hsplit, List.take_left]

/-- The first packet has room for 742 bytes, but more packets are awaited from 1025 on. -/
theorem not_reassembles (hsize : contentSize < 256 ^ 4) (hname : WireName name)
    (hn : 4 + fileNameSize + encrypted.length < 256 ^ 4)
    (h : 742 < encrypted.length ∧ encrypted.length ≤ 1024) (request : RequestToSendFile)
    (count : ℕ) :
    ¬Reassembles request count (sentPackets id contentSize name encrypted beyond) := by
  rintro ⟨-, first', rest', hpackets', haccepted⟩
  obtain ⟨first, rest, tail, hpackets, hfirst, -, hlong, -⟩ :=
    sentPackets_eq id contentSize name encrypted beyond
  rw [hpackets, List.cons.injEq] at hpackets'
  have hk : firstRead encrypted.length = encrypted.length :=
    if_neg (by simp only [packetSize]; omega)
  have hbegin := begin_sendFileFront id ((encrypted ++ tail).take 742) hsize hname hn
  rw [← hfirst, List.length_take, min_eq_left hlong, hk, if_neg (by omega), hpackets'.1]
    at hbegin
  have h' := haccepted []
  rw [RequestToSendFile.unpack, hbegin] at h'
  cases h'

/-- Reassembly is exact outside of the gap between the two limits, and fails in it. -/
theorem reassembles_iff (hsize : contentSize < 256 ^ 4) (hname : WireName name)
    (hn : 4 + fileNameSize + encrypted.length < 256 ^ 4) :
    Reassembles (sentRequest id contentSize name encrypted)
        (packetCount (282 + encrypted.length))
        (sentPackets id contentSize name encrypted beyond) ↔
      encrypted.length ≤ 742 ∨ 1024 < encrypted.length := by
  constructor
  · intro h
    by_contra hgap
    exact not_reassembles hsize hname hn (by omega) _ _ h
  · exact reassembles_of_fits hsize hname hn

theorem reassembles_iff_two_packets :
    Reassembles (sentRequest emptyId 1024 [0x61] (List.replicate 1040 7)) (packetCount 1322)
      (sentPackets emptyId 1024 [0x61] (List.replicate 1040 7) fun _ => 0) := by
  have hlen : (List.replicate 1040 (7 : UInt8)).length = 1040 := List.length_replicate
  have h := @reassembles_iff emptyId 1024 [0x61] (List.replicate 1040 7) (fun _ => 0)
    (by decide) (by decide) (by rw [hlen]; decide)
  rw [hlen] at h
  exact h.mpr (by decide)

/-- A 736-byte file has a ciphertext of 752 bytes. -/
theorem not_reassembles_752 :
    ¬Reassembles (sentRequest emptyId 736 [0x61] (List.replicate 752 7)) (packetCount 1034)
      (sentPackets emptyId 736 [0x61] (List.replicate 752 7) fun _ => 0) :=
  @not_reassembles emptyId 736 [0x61] (List.replicate 752 7) (fun _ => 0) (by decide) (by decide)
    (by rw [List.length_replicate]; decide) (by rw [List.length_replicate]; decide) _ _

end Message

end SendFileReassembly
