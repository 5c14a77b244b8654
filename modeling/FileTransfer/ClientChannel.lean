import FileTransfer.ServerProtocol

/-! # The client's messages and its channel

The packed structs of `ServerIcd.h`, `TcpClientChannel::Write`, which hands whole packets to
the socket and so reads past the end of a buffer, and `TcpClientChannel::Read`, which takes
one packet from it. -/
namespace ClientChannel

open ByteField ServerProtocol

def clientVersion : ℕ := 2

def requestHeader (id : ClientId) (code payloadSize : ℕ) : Bytes :=
  id.val ++ leBytes 1 clientVersion ++ leBytes 2 code ++ leBytes 4 payloadSize

def clientName (name : Bytes) : Bytes := padded clientNameSize name

def emptyId : ClientId := filled clientIdSize 0

def registrationRequestMessage (name : Bytes) : Bytes :=
  requestHeader emptyId requestRegistration clientNameSize ++ clientName name

def publicKeyRequestMessage (id : ClientId) (name : Bytes) (publicKey : Field publicKeySize) :
    Bytes :=
  requestHeader id requestPublicKey (clientNameSize + publicKeySize) ++ clientName name ++
    publicKey.val

/-- The message of `SendEncryptedFileToServer`: the struct up to the name, then the
ciphertext. Both sizes are stored in 32 bits. -/
def requestToSendFileMessage (id : ClientId) (contentSize : ℕ) (fileName : Field fileNameSize)
    (encrypted : Bytes) : Bytes :=
  requestHeader id requestToSendFile (4 + fileNameSize + encrypted.length) ++
    leBytes 4 contentSize ++ fileName.val ++ encrypted

/-- `CrcValidRequestMessage`, `CrcNotValidResendRequestMessage` and
`CrcNotValidAbortRequestMessage` differ in the code. -/
def crcStatusRequestMessage (code : ℕ) (id : ClientId) (fileName : Field fileNameSize) : Bytes :=
  requestHeader id code (clientIdSize + fileNameSize) ++ id.val ++ fileName.val

section Write

/-- A buffer and what lies behind it. -/
def memory (buffer : Bytes) (beyond : ℕ → UInt8) (i : ℕ) : UInt8 :=
  if h : i < buffer.length then buffer[i] else beyond (i - buffer.length)

/-- The while loop of `Write` on a socket that takes every packet. Each round lowers
`bytesToWrite`, so `fuel` rounds are enough from `bytesToWrite ≤ fuel` on. -/
def writeLoop (mem : ℕ → UInt8) : (fuel buffPtr bytesToWrite : ℕ) → List Bytes
  | 0, _, _ => []
  | fuel + 1, buffPtr, bytesToWrite =>
    if bytesToWrite = 0 then []
    else
      (List.range packetSize).map (fun i => mem (buffPtr + i)) ::
        writeLoop mem fuel (buffPtr + packetSize) (bytesToWrite - packetSize)

/-- `TcpClientChannel::Write(buffer, length)` as the packets it sends. -/
def writePackets (buffer : Bytes) (beyond : ℕ → UInt8) : List Bytes :=
  writeLoop (memory buffer beyond) buffer.length 0 buffer.length

def packetCount (n : ℕ) : ℕ := (n + (packetSize - 1)) / packetSize

variable {mem : ℕ → UInt8}

theorem writeLoop_zero (fuel buffPtr : ℕ) : writeLoop mem fuel buffPtr 0 = [] := by
  cases fuel <;> simp [writeLoop]

theorem packetCount_pos {n : ℕ} (h : n ≠ 0) :
    packetCount n = packetCount (n - packetSize) + 1 := by
  simp only [packetCount, packetSize]
  omega

theorem length_writeLoop {fuel buffPtr n : ℕ} (h : n ≤ fuel) :
    (writeLoop mem fuel buffPtr n).length = packetCount n := by
  induction fuel generalizing buffPtr n with
  | zero =>
    obtain rfl : n = 0 := by omega
    rfl
  | succ fuel ih =>
    by_cases hn : n = 0
    · subst hn
      rw [writeLoop_zero]
      rfl
    · have hle : n - packetSize ≤ fuel := by
        simp only [packetSize]
        omega
      rw [writeLoop, if_neg hn, List.length_cons, ih hle, packetCount_pos hn]

theorem mem_writeLoop {fuel buffPtr n : ℕ} {packet : Bytes}
    (h : packet ∈ writeLoop mem fuel buffPtr n) : packet.length = packetSize := by
  induction fuel generalizing buffPtr n with
  | zero => simp [writeLoop] at h
  | succ fuel ih =>
    rw [writeLoop] at h
    split at h
    · simp at h
    · rcases List.mem_cons.mp h with hp | h
      · rw [hp, List.length_map, List.length_range]
      · exact ih h

theorem range_mul_succ (size k : ℕ) :
    List.range (size * (k + 1)) = List.range size ++ (List.range (size * k)).map (size + ·) := by
  rw [Nat.mul_succ, Nat.add_comm, List.range_add]

theorem flatten_writeLoop {fuel buffPtr n : ℕ} (h : n ≤ fuel) :
    (writeLoop mem fuel buffPtr n).flatten =
      (List.range (packetSize * packetCount n)).map fun i => mem (buffPtr + i) := by
  induction fuel generalizing buffPtr n with
  | zero =>
    obtain rfl : n = 0 := by omega
    rfl
  | succ fuel ih =>
    by_cases hn : n = 0
    · subst hn
      rw [writeLoop_zero]
      rfl
    · have hle : n - packetSize ≤ fuel := by
        simp only [packetSize]
        omega
      rw [writeLoop, if_neg hn, List.flatten_cons, ih hle, packetCount_pos hn, range_mul_succ,
        List.map_append, List.map_map]
      simp only [Function.comp_def, Nat.add_assoc]

theorem range_map_memory (buffer : Bytes) (beyond : ℕ → UInt8) {n : ℕ}
    (h : buffer.length ≤ n) :
    (List.range n).map (memory buffer beyond) =
      buffer ++ (List.range (n - buffer.length)).map beyond := by
  obtain ⟨k, rfl⟩ := Nat.exists_eq_add_of_le h
  rw [List.range_add, List.map_append, Nat.add_sub_cancel_left]
  congr 1
  · apply List.ext_getElem (by simp)
    intro i hi _
    have hi' : i < buffer.length := by simpa using hi
    simp [memory, hi']
  · simp [memory, Function.comp_def]

/-- Write sends the buffer and then whatever lies behind it, up to a whole packet. -/
theorem flatten_writePackets (buffer : Bytes) (beyond : ℕ → UInt8) :
    (writePackets buffer beyond).flatten = buffer ++
      (List.range (packetSize * packetCount buffer.length - buffer.length)).map beyond := by
  rw [writePackets, flatten_writeLoop le_rfl]
  simp only [Nat.zero_add]
  apply range_map_memory
  simp only [packetCount, packetSize]
  omega

theorem length_writePackets (buffer : Bytes) (beyond : ℕ → UInt8) :
    (writePackets buffer beyond).length = packetCount buffer.length := length_writeLoop le_rfl

theorem mem_writePackets {buffer packet : Bytes} {beyond : ℕ → UInt8}
    (h : packet ∈ writePackets buffer beyond) : packet.length = packetSize := mem_writeLoop h

end Write

section Read

def responseCode (data : Bytes) : ℕ := leValue (slice data 1 2)

def responsePayloadSize (data : Bytes) : ℕ := leValue (slice data 3 4)

/-- The payload size of the struct of a response, the public key response apart. -/
def sizeExpected (code : ℕ) : ℕ :=
  if code = registrationSucceeded then clientIdSize
  else if code = msgReceivedCrc then clientIdSize + 4 + fileNameSize + 4
  else 0

def getHeader (packet : Bytes) : ℕ :=
  let code := responseCode packet
  let size := responsePayloadSize packet
  if code < registrationSucceeded ∨ msgReceived < code then 0
  else if code = publicKeyReceived then
    if packetSize < size then 0 else size
  else if size = sizeExpected code then size else 0

/-- The two responses without a payload are told from an error by their code. -/
def readAccepts (packet : Bytes) : Bool :=
  getHeader packet ≠ 0 ∨ responseCode packet = registrationFailed ∨
    responseCode packet = msgReceived

/-- `TcpClientChannel::Read` into a buffer: whether it succeeds, and the buffer afterwards.
The packet is `none` when the socket raises. No payload that `GetHeader` lets pass makes the
loop behind the first packet run. -/
def read (packet : Option Bytes) (buffer : Bytes) : Bool × Bytes :=
  match packet with
  | none => (false, buffer)
  | some packet =>
    if readAccepts packet then
      let copySize := getHeader packet + headerSize
      (true, packet.take copySize ++ buffer.drop copySize)
    else (false, buffer)

theorem read_rejected {packet : Option Bytes} (h : ∀ p, packet = some p → readAccepts p = false)
    (buffer : Bytes) : read packet buffer = (false, buffer) := by
  cases packet with
  | none => rfl
  | some p => rw [read, h p rfl, if_neg Bool.false_ne_true]

theorem read_accepted {packet : Bytes} (h : readAccepts packet = true) (buffer : Bytes) :
    read (some packet) buffer = (true, packet.take (getHeader packet + headerSize) ++
      buffer.drop (getHeader packet + headerSize)) := by
  rw [read, if_pos h]

theorem slice_copied {packet : Bytes} {off len n : ℕ} (rest : Bytes) (h : off + len ≤ n)
    (hpacket : off + len ≤ packet.length) :
    slice (packet.take n ++ rest) off len = slice packet off len := by
  have hlen : len ≤ ((packet.take n).drop off).length := by
    rw [List.length_drop, List.length_take]
    omega
  have hoff : off ≤ (packet.take n).length := by
    rw [List.length_take]
    omega
  rw [slice, slice, List.drop_append_of_le_length hoff, List.take_append_of_le_length hlen,
    List.drop_take, List.take_take, min_eq_left (by omega)]

theorem header_copied {packet : Bytes} (h : headerSize ≤ packet.length) (n : ℕ) (rest : Bytes) :
    responseCode (packet.take (n + headerSize) ++ rest) = responseCode packet ∧
      responsePayloadSize (packet.take (n + headerSize) ++ rest) = responsePayloadSize packet := by
  unfold headerSize at h ⊢
  unfold responseCode responsePayloadSize
  constructor
  · rw [slice_copied rest (by omega) (by omega)]
  · rw [slice_copied rest (by omega) (by omega)]

end Read

end ClientChannel
