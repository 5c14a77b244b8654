import FileTransfer.SendFileReassembly

/-! # The end of the receive loop

`RequestToSendFile.unpack` on recv results behind which the peer has closed the connection. An
empty chunk adds nothing to what the loop waits for. -/
namespace FileReceiveLoop

open ByteField ServerProtocol ClientChannel MessageRoundTrip SendFileReassembly

section Definitions

/-- The peer is closed behind the recv results: `recv` gives the empty chunk from then on. -/
def closedBehind (conn : List RecvResult) (n : ℕ) : List RecvResult :=
  conn ++ List.replicate n (.chunk [])

def Returns (conn : List RecvResult) (data : Bytes) (result : Bool) : Prop :=
  ∃ n, match RequestToSendFile.unpack (closedBehind conn n) data with
    | .accepted _ _ => result = true
    | .rejected _ => result = false
    | .waiting _ => False

/-- The number of ciphertext bytes that a first packet declares, `none` for a packet whose
header, content size and name are not well-formed. -/
def declaredBytes (data : Bytes) : Option ℕ := do
  let header ← RequestHeader.unpack data
  let _contentSize ← exactly 4 (slice data requestHeaderSize 4)
  let fileNameData ← exactly fileNameSize (slice data (requestHeaderSize + 4) fileNameSize)
  let _fileName ← fieldText fileNameData
  guard (fileNameSize + 4 ≤ header.payloadSize)
  return header.payloadSize - fileNameSize - 4

def bytesBehindName (data : Bytes) : ℕ := data.length - (requestHeaderSize + 4 + fileNameSize)

def receivedBytes : List RecvResult → ℕ
  | [] => 0
  | .raises :: _ => 0
  | .chunk data :: conn => data.length + receivedBytes conn

def Arrived (conn : List RecvResult) (data : Bytes) : Prop :=
  ∃ n, declaredBytes data = some n ∧ n ≤ bytesBehindName data + receivedBytes conn

/-- `unpack` returns, and says whether the declared bytes have arrived. -/
def Ends (conn : List RecvResult) (data : Bytes) : Prop :=
  ∃ result, Returns conn data result ∧ (result = true ↔ Arrived conn data)

/-- A first packet with the bytes that `unpack` takes from it is followed by the others before
the peer closes, or `recv` raises. Without these bytes the declared ones never arrive. -/
def Complete (conn : List RecvResult) (data : Bytes) : Prop :=
  ∀ n, declaredBytes data = some n →
    if firstRead n ≤ bytesBehindName data then
      n ≤ firstRead n + receivedBytes conn ∨
        .raises ∈ conn ∧ bytesBehindName data + receivedBytes conn < n
    else bytesBehindName data + receivedBytes conn < n

end Definitions

section Loop

variable {p : PartialFile} {conn : List RecvResult} {data : Bytes} {n : ℕ}

@[simp] theorem receivedBytes_closedBehind (conn : List RecvResult) (n : ℕ) :
    receivedBytes (closedBehind conn n) = receivedBytes conn := by
  have hnone : receivedBytes (List.replicate n (.chunk [])) = 0 := by
    induction n with
    | zero => rfl
    | succ n ih =>
      rw [List.replicate_succ, receivedBytes, ih]
      rfl
  unfold closedBehind
  induction conn with
  | nil => exact hnone
  | cons r conn ih =>
    cases r with
    | chunk data => simp [receivedBytes, ih]
    | raises => rfl

theorem raises_mem_closedBehind : .raises ∈ closedBehind conn n ↔ .raises ∈ conn := by
  simp [closedBehind]

theorem receive_incomplete (h : 0 < p.need) (conn : List RecvResult) :
    p.receive conn = match conn with
      | [] => .waiting p
      | .raises :: conn => .rejected conn
      | .chunk data :: conn => (p.feed data).receive conn := by
  have hc : ¬p.complete = true := by
    rw [complete_iff]
    omega
  cases conn with
  | nil => exact if_neg hc
  | cons r conn => cases r <;> exact if_neg hc

theorem receive_arrives (h : p.need ≤ receivedBytes conn) :
    ∃ request unread, p.receive conn = .accepted request unread := by
  induction conn generalizing p with
  | nil =>
    have hc : p.complete = true := (complete_iff p).mpr (Nat.le_zero.mp h)
    exact ⟨p.request, [], by rw [PartialFile.receive.eq_def, if_pos hc]⟩
  | cons r conn ih =>
    by_cases hneed : 0 < p.need
    · rw [receive_incomplete hneed]
      cases r with
      | raises => exact absurd h (by rw [receivedBytes]; omega)
      | chunk data =>
        rw [receivedBytes] at h
        apply ih
        rw [(feed_need p data).1]
        omega
    · have hc : p.complete = true := (complete_iff p).mpr (by omega)
      exact ⟨p.request, r :: conn, by rw [PartialFile.receive.eq_def, if_pos hc]⟩

theorem receive_raises (h : receivedBytes conn < p.need) (hraises : .raises ∈ conn) :
    ∃ unread, p.receive conn = .rejected unread := by
  induction conn generalizing p with
  | nil => cases hraises
  | cons r conn ih =>
    rw [receive_incomplete (by omega)]
    cases r with
    | raises => exact ⟨conn, rfl⟩
    | chunk data =>
      rw [receivedBytes] at h
      apply ih
      · rw [(feed_need p data).1]
        omega
      · simpa using hraises

/-- Empty chunks never fill the file up. -/
theorem receive_waits (h : receivedBytes conn < p.need) (hraises : .raises ∉ conn) :
    ∃ q, p.receive conn = .waiting q := by
  induction conn generalizing p with
  | nil => exact ⟨p, by rw [receive_incomplete (by omega)]⟩
  | cons r conn ih =>
    rw [receive_incomplete (by omega)]
    cases r with
    | raises => simp at hraises
    | chunk data =>
      rw [receivedBytes] at h
      apply ih
      · rw [(feed_need p data).1]
        omega
      · simpa using hraises

theorem receive_returns (hp : RequestToSendFile.begin data = some p) (result : Bool) :
    Returns conn data result ↔
      if p.need ≤ receivedBytes conn then result = true
      else .raises ∈ conn ∧ result = false := by
  have hunpack (n : ℕ) : RequestToSendFile.unpack (closedBehind conn n) data =
      p.receive (closedBehind conn n) := by
    rw [RequestToSendFile.unpack, hp]
  unfold Returns
  simp only [hunpack]
  split
  · next hneed =>
    have hstep (n : ℕ) : ∃ request unread,
        p.receive (closedBehind conn n) = .accepted request unread :=
      receive_arrives (by rwa [receivedBytes_closedBehind])
    constructor
    · rintro ⟨n, hn⟩
      obtain ⟨request, unread, hreceive⟩ := hstep n
      rwa [hreceive] at hn
    · intro hresult
      obtain ⟨request, unread, hreceive⟩ := hstep 0
      exact ⟨0, by rwa [hreceive]⟩
  · next hneed =>
    rw [not_le] at hneed
    have hlack (n : ℕ) : receivedBytes (closedBehind conn n) < p.need := by
      rwa [receivedBytes_closedBehind]
    constructor
    · rintro ⟨n, hn⟩
      by_cases hraises : .raises ∈ conn
      · obtain ⟨unread, hreceive⟩ := receive_raises (hlack n) (raises_mem_closedBehind.mpr hraises)
        rw [hreceive] at hn
        exact ⟨hraises, hn⟩
      · obtain ⟨q, hreceive⟩ := receive_waits (hlack n) (raises_mem_closedBehind.not.mpr hraises)
        rw [hreceive] at hn
        exact hn.elim
    · rintro ⟨hraises, hresult⟩
      obtain ⟨unread, hreceive⟩ := receive_raises (hlack 0) (raises_mem_closedBehind.mpr hraises)
      exact ⟨0, by rwa [hreceive]⟩

theorem rejected_returns (hp : RequestToSendFile.begin data = none) (result : Bool) :
    Returns conn data result ↔ result = false := by
  unfold Returns
  simp only [RequestToSendFile.unpack, hp]
  exact exists_const ℕ

end Loop

section FirstPacket

variable {data : Bytes} {n : ℕ}

theorem length_content (data : Bytes) (len : ℕ) :
    (slice data (requestHeaderSize + 4 + fileNameSize) len).length =
      min len (bytesBehindName data) := by
  rw [slice, List.length_take, List.length_drop, bytesBehindName]

theorem begin_malformed (h : declaredBytes data = none) :
    RequestToSendFile.begin data = none := by
  unfold declaredBytes at h
  unfold RequestToSendFile.begin
  simp only [Option.bind_eq_bind, Option.bind_eq_none_iff, guard, Option.pure_def] at h ⊢
  intro header hheader contentSize hsize fileNameData hdata fileName hname
  have hguard := h header hheader contentSize hsize fileNameData hdata fileName hname
  intro u hu
  exact absurd (hguard u hu) (by simp)

theorem begin_declared (h : declaredBytes data = some n) :
    if firstRead n ≤ bytesBehindName data then
      ∃ p, RequestToSendFile.begin data = some p ∧ p.need = n - firstRead n
    else RequestToSendFile.begin data = none := by
  unfold declaredBytes at h
  simp only [Option.bind_eq_bind, Option.bind_eq_some_iff, Option.pure_def] at h
  obtain ⟨header, hheader, contentSize, hsize, fileNameData, hdata, fileName, hname, u, hguard,
    hn⟩ := h
  unfold RequestToSendFile.begin
  rw [hheader, hsize]
  simp only [Option.bind_eq_bind, Option.bind_some, hdata, hname, hguard, Option.pure_def]
  have hn' : header.payloadSize - fileNameSize - 4 = n := Option.some.inj hn
  rw [hn', ← firstRead]
  split
  · next hfits =>
    have hlength : (slice data (requestHeaderSize + 4 + fileNameSize) (firstRead n)).length =
        firstRead n := by
      rw [length_content, min_eq_left hfits]
    rw [exactly_eq_some (b := ⟨_, hlength⟩) |>.mpr rfl]
    exact ⟨_, rfl, rfl⟩
  · next hshort =>
    rw [exactly_eq_none.mpr]
    · rfl
    · rw [length_content]
      omega

end FirstPacket

theorem firstRead_le (n : ℕ) : firstRead n ≤ n := by
  unfold firstRead
  split
  · next h => exact (Nat.sub_le _ _).trans h.le
  · exact le_rfl

/-- Main theorem: `unpack` ends with the right result exactly when the rest of the file arrives
behind a first packet that is taken. -/
theorem ends_iff (conn : List RecvResult) (data : Bytes) : Ends conn data ↔ Complete conn data := by
  unfold Ends Complete Arrived
  cases hn : declaredBytes data with
  | none =>
    simp only [rejected_returns (begin_malformed hn)]
    simp
  | some n =>
    have hbegin := begin_declared hn
    have hle := firstRead_le n
    simp only [Option.some.injEq, exists_eq_left', forall_eq']
    split
    · next hfits =>
      rw [if_pos hfits] at hbegin
      obtain ⟨p, hp, hneed⟩ := hbegin
      simp only [receive_returns hp, hneed]
      split
      · next harrives =>
        constructor
        · intro _
          left
          omega
        · intro _
          exact ⟨true, rfl, fun _ => by omega, fun _ => rfl⟩
      · next hlack =>
        constructor
        · rintro ⟨result, ⟨hraises, rfl⟩, harrived⟩
          refine .inr ⟨hraises, ?_⟩
          by_contra hno
          cases harrived.mpr (by omega)
        · rintro (hno | ⟨hraises, hfew⟩)
          · omega
          · refine ⟨false, ⟨hraises, rfl⟩, nofun, ?_⟩
            intro harrived
            omega
    · next hshort =>
      rw [if_neg hshort] at hbegin
      simp only [rejected_returns hbegin, exists_eq_left, Bool.false_eq_true, false_iff, not_le]

/-- A file message of 2000 bytes whose peer closes behind the first packet. -/
theorem not_ends_closed : ¬∀ (conn : List RecvResult) (data : Bytes), Ends conn data := by
  intro h
  let data := sendFileFront emptyId 2000 [0x61] 2000 ++ List.replicate 742 7
  have hbegin := @begin_sendFileFront emptyId 2000 [0x61] 2000 (List.replicate 742 7) (by decide)
    (by decide) (by decide)
  rw [List.length_replicate, if_pos (by decide)] at hbegin
  obtain ⟨result, hreturns, -⟩ := h [] data
  have hresult := (receive_returns hbegin result).mp hreturns
  rw [if_neg (by decide)] at hresult
  exact List.not_mem_nil hresult.1

end FileReceiveLoop
