import FileTransfer.ClientStart

/-! # The file name in a request

`m_fileToSend` is copied into a request at five places, with the length of the string. The
parser of the configuration looks at whether the file exists, and not at that length. -/
namespace NameCopies

open ByteField ServerProtocol ClientChannel ClientConfig ClientLogic MessageRoundTrip
open ClientStart (Lookup getFileName)
open ClientLogic.Client (crcStatusMessage)

section Definitions

def memcpy (mem : ℕ → UInt8) (offset : ℕ) (source : Bytes) (i : ℕ) : UInt8 :=
  if h : offset ≤ i ∧ i < offset + source.length then source[i - offset] else mem i

/-- The copies of `m_fileToSend`: in `SendEncryptedFileToServer`, which has set `contentSize`
before, and in `HandelMessageReceivedWithCrc` for the request to resend, for a checksum that is
right at once or after a resend, and for the abort. -/
inductive Copy where
  | sendFile (contentSize : ℕ)
  | resend
  | valid
  | resentValid
  | abort

def Copy.code : Copy → ℕ
  | sendFile _ => requestToSendFile
  | resend => invalidCrcResendRequest
  | valid => requestCrcValid
  | resentValid => requestCrcValid
  | abort => invalidCrcAbort

/-- The fields before the name, at the time of the copy: `payloadSize` of a file message is
set behind it. -/
def Copy.front (id : ClientId) (copy : Copy) : Bytes :=
  match copy with
  | sendFile contentSize => requestHeader id copy.code 0 ++ leBytes 4 contentSize
  | _ => requestHeader id copy.code (clientIdSize + fileNameSize) ++ id.val

/-- The fields behind the name: the null pointer `data` of a file message. -/
def Copy.back : Copy → Bytes
  | sendFile _ => List.replicate 8 0
  | _ => []

def Copy.request (id : ClientId) (copy : Copy) : Bytes :=
  copy.front id ++ (List.replicate fileNameSize 0 ++ copy.back)

def Copy.copied (id : ClientId) (copy : Copy) (beyond : ℕ → UInt8) (path : Bytes) : ℕ → UInt8 :=
  memcpy (memory (copy.request id) beyond) (copy.front id).length path

/-- The copy stays in the field of the name, whatever lies behind the request. -/
structure Fits (id : ClientId) (copy : Copy) (path : Bytes) : Prop where
  size : path.length ≤ fileNameSize
  others : ∀ beyond i, i < (copy.front id).length ∨ (copy.front id).length + fileNameSize ≤ i →
    copy.copied id beyond path i = memory (copy.request id) beyond i

/-- Every path that `GetFileName` accepts fits at every place. -/
def NamesFit (b : TextLibrary) (lookup : Lookup) (fileLine : Bytes) : Prop :=
  ∀ path, getFileName b lookup fileLine = some (some path) → ∀ id copy, Fits id copy path

end Definitions

section Memory

variable {mem beyond : ℕ → UInt8} {offset i : ℕ} {source : Bytes}

theorem memcpy_outside (h : i < offset ∨ offset + source.length ≤ i) :
    memcpy mem offset source i = mem i := by
  rw [memcpy, dif_neg (by omega)]

theorem memcpy_zero (source : Bytes) :
    memcpy mem 0 source = memory source fun j => mem (source.length + j) := by
  funext i
  by_cases h : i < source.length
  · rw [memcpy, memory, dif_pos (by omega), dif_pos h]
    rfl
  · rw [memcpy_outside (by omega), memory, dif_neg h]
    congr 1
    omega

theorem memcpy_behind (a source : Bytes) :
    memcpy (memory a mem) a.length source = memory a (memcpy mem 0 source) := by
  funext i
  by_cases h : i < a.length
  · rw [memcpy_outside (.inl h), memory, memory, dif_pos h, dif_pos h]
  · rw [memory, dif_neg h]
    unfold memcpy memory
    by_cases hin : i - a.length < source.length
    · rw [dif_pos (by omega), dif_pos (by omega)]
      rfl
    · rw [dif_neg (by omega), dif_neg h, dif_neg (by omega)]

theorem memory_append (a b : Bytes) (beyond : ℕ → UInt8) :
    memory (a ++ b) beyond = memory a (memory b beyond) := by
  funext i
  unfold memory
  by_cases ha : i < a.length
  · rw [dif_pos (by simp; omega), dif_pos ha, List.getElem_append_left ha]
  · by_cases hb : i - a.length < b.length
    · rw [dif_pos (by simp; omega), dif_neg ha, dif_pos hb,
        List.getElem_append_right (by omega)]
    · rw [dif_neg (by simp; omega), dif_neg ha, dif_neg hb, List.length_append, Nat.sub_sub]

theorem memory_behind (buffer : Bytes) (beyond : ℕ → UInt8) :
    (fun j => memory buffer beyond (buffer.length + j)) = beyond := by
  funext j
  rw [memory, dif_neg (by omega), Nat.add_sub_cancel_left]

theorem memcpy_field (a : Bytes) {field : Bytes} (b : Bytes)
    (h : source.length ≤ field.length) :
    memcpy (memory (a ++ (field ++ b)) beyond) a.length source =
      memory (a ++ (source ++ field.drop source.length ++ b)) beyond := by
  have hfield : field ++ b =
      field.take source.length ++ (field.drop source.length ++ b) := by
    rw [← List.append_assoc, List.take_append_drop]
  have hrest := memory_behind (field.take source.length)
    (memory (field.drop source.length ++ b) beyond)
  rw [List.length_take, min_eq_left h] at hrest
  rw [memory_append, memcpy_behind, hfield, memory_append, memcpy_zero, hrest,
    ← memory_append, ← memory_append, List.append_assoc, List.append_assoc]

end Memory

section Copies

variable {id : ClientId} {copy : Copy} {path : Bytes}

theorem fits_iff : Fits id copy path ↔ path.length ≤ fileNameSize := by
  constructor
  · intro h
    exact h.size
  · intro h
    refine ⟨h, fun beyond i hi => ?_⟩
    apply memcpy_outside
    omega

theorem copied_field (h : path.length ≤ fileNameSize) (id : ClientId) (copy : Copy)
    (beyond : ℕ → UInt8) : copy.copied id beyond path =
      memory (copy.front id ++ ((nameField path).val ++ copy.back)) beyond := by
  have hfield : path.length ≤ (List.replicate fileNameSize (0 : UInt8)).length := by
    rwa [List.length_replicate]
  have hname : (nameField path).val =
      path ++ List.replicate (fileNameSize - path.length) 0 := by
    have htake : path.take fileNameSize = path := List.take_of_length_le h
    exact congrArg (· ++ _) htake
  rw [Copy.copied, Copy.request, memcpy_field _ _ hfield, List.drop_replicate, hname]

theorem crcStatusMessage_fields (c : Client) (hcrc : copy.back = []) :
    c.crcStatusMessage copy.code =
      copy.front c.id ++ ((nameField c.fileToSend).val ++ copy.back) := by
  rw [hcrc, List.append_nil]
  cases copy with
  | sendFile => cases hcrc
  | resend => rfl
  | valid => rfl
  | resentValid => rfl
  | abort => rfl

/-- The file message has its payload size set behind the copy, and the ciphertext packed in the
place of the pointer. -/
theorem requestToSendFileMessage_fields (id : ClientId) (contentSize : ℕ) (path : Bytes)
    (encrypted : Bytes) :
    requestToSendFileMessage id contentSize (nameField path) encrypted =
      requestHeader id requestToSendFile (4 + fileNameSize + encrypted.length) ++
        ((Copy.sendFile contentSize).front id).drop requestHeaderSize ++
        (nameField path).val ++ encrypted := by
  have hdrop : ((Copy.sendFile contentSize).front id).drop requestHeaderSize =
      leBytes 4 contentSize := List.drop_left' (length_requestHeader _ _ _)
  rw [hdrop]
  rfl

theorem copied_overflow (h : fileNameSize < path.length) (id : ClientId) (copy : Copy)
    (beyond : ℕ → UInt8) :
    copy.copied id beyond path ((copy.front id).length + fileNameSize) = path[fileNameSize] := by
  rw [Copy.copied, memcpy, dif_pos (by omega)]
  congr 1
  omega

/-- Where the name is the last field, the memory behind the request is written over. -/
theorem copied_beyond (hcrc : copy.back = []) (h : fileNameSize < path.length) (id : ClientId) :
    ∃ beyond, copy.copied id beyond path (copy.request id).length ≠ beyond 0 := by
  have hlength : (copy.request id).length = (copy.front id).length + fileNameSize := by
    rw [Copy.request, hcrc, List.append_nil, List.length_append, List.length_replicate]
  refine ⟨fun _ => path[fileNameSize] + 1, ?_⟩
  rw [hlength, copied_overflow h]
  simp

end Copies

section Names

variable {b : TextLibrary} {lookup : Lookup} {fileLine path : Bytes}

theorem getFileName_accepts : getFileName b lookup fileLine = some (some path) ↔
    fileLine ≠ [] ∧ lookup (b.trim fileLine) = some true ∧ path = b.trim fileLine := by
  unfold getFileName
  by_cases hempty : fileLine = []
  · simp [hempty]
  · rw [if_neg hempty, and_iff_right hempty]
    cases lookup (b.trim fileLine) with
    | none => simp
    | some found => cases found <;> simp [eq_comm]

/-- Main theorem: the lines whose paths are copied into their fields. -/
theorem namesFit_iff (b : TextLibrary) (lookup : Lookup) (fileLine : Bytes) :
    NamesFit b lookup fileLine ↔ fileLine = [] ∨ lookup (b.trim fileLine) ≠ some true ∨
      (b.trim fileLine).length ≤ fileNameSize := by
  unfold NamesFit
  constructor
  · intro h
    by_cases hempty : fileLine = []
    · exact .inl hempty
    · refine .inr (or_iff_not_imp_left.mpr fun hfound => ?_)
      rw [not_not] at hfound
      have haccepts := getFileName_accepts.mpr ⟨hempty, hfound, rfl⟩
      exact (h _ haccepts (filled clientIdSize 0) .valid).size
  · intro h path haccepts id copy
    obtain ⟨hne, hfound, rfl⟩ := getFileName_accepts.mp haccepts
    exact fits_iff.mpr ((h.resolve_left hne).resolve_left (not_not.mpr hfound))

def longPath : Bytes := List.replicate 128 0x61 ++ 0x2F :: List.replicate 127 0x61

theorem not_namesFit_long : ¬∀ (b : TextLibrary) (lookup : Lookup) (fileLine : Bytes),
    b.Lawful → NamesFit b lookup fileLine := by
  intro h
  have htrim : TextLibrary.standard.trim longPath = longPath :=
    trim_eq_self standard_lawful (by decide +kernel)
  have haccepts : getFileName .standard (fun path => some (path = longPath)) longPath =
      some (some longPath) := by
    rw [getFileName_accepts, htrim]
    exact ⟨by decide +kernel, by simp, rfl⟩
  have hsize := (h _ _ _ standard_lawful _ haccepts (filled clientIdSize 0) .valid).size
  exact absurd hsize (by decide +kernel)

end Names

end NameCopies
