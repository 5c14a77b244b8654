import FileTransfer.DrivenLoop
import FileTransfer.TransferSession

/-! # Writing a response to the socket

`Server.write` on a socket that may take a part of a packet or raise. The loop counts what it
offered and not what was taken, and goes on after an exception with the same packet. -/
namespace ServerWrite

open ByteField ServerProtocol ServerState ClientChannel TransferSession DrivenLoop

section Definitions

inductive SendResult where
  | accepts (n : { n : ℕ // 0 < n ∧ n ≤ packetSize })
  | raises

def whole : SendResult := .accepts ⟨packetSize, by decide⟩

/-- The local variable `sent`, and the bytes that the socket has accepted. -/
structure Writing where
  sent : ℕ
  wire : Bytes

def dataToSend (data : Bytes) (sent : ℕ) : Bytes :=
  let leftOver := data.length - sent
  let leftOver := if packetSize < leftOver then packetSize else leftOver
  let block := slice data sent leftOver
  if block.length ≠ 0 then block ++ List.replicate (packetSize - block.length) 0 else block

def writing (data : Bytes) : Loop Writing SendResult where
  returned s := data.length ≤ s.sent
  turn s
    | .accepts n => ⟨s.sent + (dataToSend data s.sent).length,
        s.wire ++ (dataToSend data s.sent).take n.val⟩
    | .raises => s

/-- `write(conn, data)` returns on this socket, which is then left with these bytes. There is no
other result than `True`. -/
def Writes (data : Bytes) (socket : ℕ → SendResult) (result : Bool) (wire : Bytes) : Prop :=
  result = true ∧ ∃ t, (writing data).Returns socket ⟨0, []⟩ t ∧ t.wire = wire

def inPackets (data : Bytes) : Bytes :=
  data ++ List.replicate (packetSize * packetCount data.length - data.length) 0

/-- `write` comes to an end, and reports success for a complete delivery only. -/
def DeliversOrFails (data : Bytes) (socket : ℕ → SendResult) : Prop :=
  ∃ result wire, Writes data socket result wire ∧ (result = true → wire = inPackets data) ∧
    (wire.length < (inPackets data).length → result = false)

/-- The socket takes so many packets as a whole. Before each it may raise. -/
inductive Takes : ℕ → (ℕ → SendResult) → Prop where
  | done (socket) : Takes 0 socket
  | raises {k socket} : socket 0 = .raises → Takes k (behind socket) → Takes k socket
  | whole {k socket} : socket 0 = whole → Takes k (behind socket) → Takes (k + 1) socket

end Definitions

section Packets

theorem padded_add (m n : ℕ) (text : Bytes) :
    padded (m + n) text = padded m text ++ padded n (text.drop m) := by
  unfold padded
  by_cases h : text.length ≤ m
  · rw [List.take_of_length_le (by omega), List.take_of_length_le h, List.drop_of_length_le h,
      List.take_nil, List.nil_append, List.length_nil, List.append_assoc,
      List.replicate_append_replicate]
    congr 2
    omega
  · have hnone : m - text.length = 0 := by omega
    have hrest : m + n - text.length = n - (text.drop m).length := by
      rw [List.length_drop]
      omega
    rw [hnone, hrest, List.replicate_zero, List.append_nil, List.take_add, List.append_assoc]

theorem inPackets_eq (data : Bytes) :
    inPackets data = padded (packetSize * packetCount data.length) data := by
  rw [inPackets, padded, List.take_of_length_le]
  unfold packetCount packetSize
  omega

theorem length_inPackets (data : Bytes) :
    (inPackets data).length = packetSize * packetCount data.length := by
  rw [inPackets_eq, length_padded]

theorem dataToSend_eq {data : Bytes} {sent : ℕ} (h : sent < data.length) :
    dataToSend data sent = padded packetSize (data.drop sent) := by
  have hleft : (if packetSize < data.length - sent then packetSize else data.length - sent) =
      min packetSize (data.drop sent).length := by
    rw [List.length_drop]
    split <;> omega
  have hpos : 0 < (data.drop sent).length := by
    rw [List.length_drop]
    omega
  have hpacket : 0 < packetSize := by decide
  unfold dataToSend slice padded
  dsimp only
  rw [hleft, ← List.take_take, List.take_length, if_pos, List.length_take]
  · congr 2
    omega
  · rw [List.length_take]
    omega

theorem flatten_writeFrom {data : Bytes} {fuel sent : ℕ} (h : data.length ≤ sent + fuel) :
    (writeFrom data fuel sent).flatten =
      padded (packetSize * packetCount (data.length - sent)) (data.drop sent) := by
  induction fuel generalizing sent with
  | zero =>
    have hzero : data.length - sent = 0 := by omega
    rw [hzero, List.drop_of_length_le (by omega)]
    rfl
  | succ fuel ih =>
    rw [writeFrom]
    split
    · next hlt =>
      have hle : data.length ≤ sent + packetSize + fuel := by
        unfold packetSize
        omega
      have hcount : packetCount (data.length - sent) =
          packetCount (data.length - (sent + packetSize)) + 1 := by
        rw [packetCount_pos (by omega), Nat.sub_sub]
      rw [List.flatten_cons, ih hle, hcount, Nat.mul_succ,
        Nat.add_comm (packetSize * _) packetSize, padded_add, List.drop_drop]
    · have hzero : data.length - sent = 0 := by omega
      rw [hzero, List.drop_of_length_le (by omega)]
      rfl

end Packets

section Turns

variable {data : Bytes} {socket : ℕ → SendResult} {s t : Writing}

def missing (data : Bytes) (s : Writing) : ℕ := packetCount (data.length - s.sent)

theorem running_iff : (writing data).returned s = false ↔ s.sent < data.length := by
  simp [writing]

theorem missing_returned (h : (writing data).returned s = true) : missing data s = 0 := by
  have hle : data.length ≤ s.sent := by simpa [writing] using h
  rw [missing, Nat.sub_eq_zero_of_le hle]
  rfl

theorem turn_raises (h : socket 0 = .raises) : (writing data).turn s (socket 0) = s := by
  rw [h]
  rfl

theorem turn_accepts {n : { n : ℕ // 0 < n ∧ n ≤ packetSize }} (h : socket 0 = .accepts n)
    (hrunning : s.sent < data.length) :
    missing data s = missing data ((writing data).turn s (socket 0)) + 1 ∧
      ((writing data).turn s (socket 0)).wire =
        s.wire ++ (padded packetSize (data.drop s.sent)).take n.val := by
  rw [h]
  simp only [writing, missing, dataToSend_eq hrunning, length_padded]
  refine ⟨?_, trivial⟩
  rw [packetCount_pos (by omega), Nat.sub_sub]

theorem length_turn_accepts {n : { n : ℕ // 0 < n ∧ n ≤ packetSize }}
    (h : socket 0 = .accepts n) (hrunning : s.sent < data.length) :
    ((writing data).turn s (socket 0)).wire.length = s.wire.length + n.val := by
  rw [(turn_accepts h hrunning).2, List.length_append, List.length_take, length_padded,
    min_eq_left n.property.2]

theorem wire_le (h : (writing data).Returns socket s t) :
    t.wire.length ≤ s.wire.length + packetSize * missing data s := by
  apply h.induct (P := fun _ s => t.wire.length ≤ s.wire.length + packetSize * missing data s)
  · intro _ _
    exact Nat.le_add_right _ _
  · intro socket s hs ih
    cases hr : socket 0 with
    | raises => rwa [turn_raises hr] at ih
    | accepts n =>
      have hrunning := running_iff.mp hs
      rw [length_turn_accepts hr hrunning] at ih
      rw [(turn_accepts hr hrunning).1, Nat.mul_succ]
      have hle := n.property.2
      omega

theorem takes_of_wire (h : (writing data).Returns socket s t)
    (hwire : t.wire.length = s.wire.length + packetSize * missing data s) :
    Takes (missing data s) socket := by
  have hreturns := h
  revert hreturns hwire
  apply h.induct (P := fun socket s =>
    t.wire.length = s.wire.length + packetSize * missing data s →
      (writing data).Returns socket s t → Takes (missing data s) socket)
  · intro socket ht _ _
    rw [missing_returned ht]
    exact .done socket
  · intro socket s hs ih hwire hreturns
    have hrest := (Loop.returns_turn hs).mp hreturns
    cases hr : socket 0 with
    | raises =>
      rw [turn_raises hr] at ih hrest
      exact .raises hr (ih hwire hrest)
    | accepts n =>
      have hrunning := running_iff.mp hs
      have hle := wire_le hrest
      have hlength := length_turn_accepts hr hrunning
      have hmissing := (turn_accepts hr hrunning).1
      rw [hmissing, Nat.mul_succ] at hwire
      have hn := n.property.2
      have hwhole : n.val = packetSize := by omega
      rw [hmissing]
      apply Takes.whole
      · rw [hr, whole, SendResult.accepts.injEq]
        exact Subtype.ext hwhole
      · exact ih (by omega) hrest

theorem returns_of_takes {k : ℕ} (h : Takes k socket) (hk : missing data s = k) :
    ∃ t, (writing data).Returns socket s t ∧
      t.wire = s.wire ++ padded (packetSize * k) (data.drop s.sent) := by
  induction h generalizing s with
  | done socket =>
    have hreturned : (writing data).returned s = true := by
      simp only [missing, packetCount, packetSize] at hk
      simp only [writing, decide_eq_true_eq]
      omega
    refine ⟨s, (Loop.returns_of_returned hreturned).mpr rfl, ?_⟩
    simp [padded]
  | @raises k socket hr _ ih =>
    cases hs : (writing data).returned s with
    | true =>
      have hle : data.length ≤ s.sent := by simpa [writing] using hs
      have hzero : k = 0 := hk.symm.trans (missing_returned hs)
      refine ⟨s, (Loop.returns_of_returned hs).mpr rfl, ?_⟩
      rw [hzero]
      simp [padded]
    | false =>
      obtain ⟨t, hreturns, hwire⟩ := ih hk
      refine ⟨t, (Loop.returns_turn hs).mpr ?_, hwire⟩
      rwa [turn_raises hr]
  | @whole k socket hr _ ih =>
    have hs : (writing data).returned s = false := by
      cases hs : (writing data).returned s with
      | false => rfl
      | true => cases hk.symm.trans (missing_returned hs)
    have hrunning := running_iff.mp hs
    obtain ⟨hmissing, hturn⟩ := turn_accepts hr hrunning
    have hsent : ((writing data).turn s (socket 0)).sent = s.sent + packetSize := by
      rw [hr]
      simp only [writing, whole, dataToSend_eq hrunning, length_padded]
    obtain ⟨t, hreturns, hwire⟩ := @ih ((writing data).turn s (socket 0)) (by omega)
    refine ⟨t, (Loop.returns_turn hs).mpr hreturns, ?_⟩
    rw [hwire, hturn, hsent, List.take_of_length_le (length_padded _ _).le, List.append_assoc,
      ← List.drop_drop, ← padded_add, Nat.mul_succ, Nat.add_comm packetSize]

theorem writes_packets (h : Takes (packetCount data.length) socket) :
    Writes data socket true (writeFrom data data.length 0).flatten := by
  obtain ⟨t, hreturns, hwire⟩ := @returns_of_takes data _ ⟨0, []⟩ _ h rfl
  refine ⟨rfl, t, hreturns, ?_⟩
  rw [hwire, flatten_writeFrom (by omega)]
  rfl

end Turns

/-- Main theorem: `write` delivers or fails exactly when the socket takes every packet as a
whole in the end. -/
theorem deliversOrFails_iff (data : Bytes) (socket : ℕ → SendResult) :
    DeliversOrFails data socket ↔ Takes (packetCount data.length) socket := by
  constructor
  · rintro ⟨result, wire, ⟨rfl, t, hreturns, rfl⟩, hdelivered, -⟩
    apply takes_of_wire hreturns
    rw [hdelivered rfl, length_inPackets]
    exact (Nat.zero_add _).symm
  · intro h
    refine ⟨true, _, writes_packets h, ?_, ?_⟩
    · intro _
      rw [flatten_writeFrom (by omega), inPackets_eq]
      rfl
    · rw [flatten_writeFrom (by omega), length_padded, length_inPackets]
      intro hlt
      exact absurd hlt (lt_irrefl _)

theorem not_deliversOrFails_raises :
    ¬∀ (data : Bytes) (socket : ℕ → SendResult), DeliversOrFails data socket := by
  intro h
  obtain ⟨result, wire, ⟨-, t, hreturns, -⟩, -⟩ := h [1] fun _ => .raises
  refine Loop.not_returns (I := fun socket s => (∀ i, socket i = .raises) ∧ s = ⟨0, []⟩)
    ⟨fun _ => rfl, rfl⟩ ?_ ?_ hreturns
  · rintro socket s ⟨-, rfl⟩
    rfl
  · rintro socket s ⟨hraises, rfl⟩
    exact ⟨fun i => hraises (i + 1), turn_raises (hraises 0)⟩

end ServerWrite
