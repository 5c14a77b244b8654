import FileTransfer.ChecksumAgreement
import Mathlib.Order.Bounds.Basic

/-! # The sizes of a file message

The size of the file goes through an `int` in both padding functions and into two fields of
32 bits. No size is refused. -/
namespace DeclaredSizes

open ByteField ServerProtocol ServerState ServerHandlers ClientChannel ClientFile ClientLogic
  MessageRoundTrip TransferSession ChecksumAgreement
open ClientLogic.Client (fileMessage)

section Definitions

/-- The stream encryption fills its last block up, and adds one where it is full. -/
def PadsBlocks (cpp : CppCrypto) : Prop :=
  ∀ key plain, key.length = symmetricKeySize →
    (cpp.aesEncrypt key plain).length = plain.length + (16 - plain.length % 16)

/-- The string stream of `ReadFileWithPadding`, which `length` bytes are copied of -/
def paddedContent (file : Bytes) : Bytes :=
  file ++ List.replicate (padding (toInt file.length)) 0

def payloadSize (message : Bytes) : Option ℕ :=
  (RequestHeader.unpack message).map RequestHeader.payloadSize

variable (cpp : CppCrypto) (c : Client)

/-- The sizes that the client computes of its file and declares in its message are the true
ones: `counted` and `filled` are `int count` before and behind the padding, and the last
index of the loop that pads. -/
structure Declared : Prop where
  counted : toInt c.file.length = c.file.length
  filled : toInt (paddedContent c.file).length = (paddedContent c.file).length
  least : IsLeast {m | 16 ∣ m ∧ c.file.length ≤ m} (getFileLengthWithPadding c.file)
  available : (paddedContent c.file).length = getFileLengthWithPadding c.file
  contentSize : declaredSize (fileMessage cpp c) = getFileLengthWithPadding c.file
  payload : payloadSize (fileMessage cpp c) =
    some (4 + fileNameSize + (ciphertext (fileMessage cpp c)).length)

end Definitions

section Sizes

variable {cpp : CppCrypto} {c : Client} {file : Bytes}

theorem isLeast_blocks (n : ℕ) : IsLeast {m | 16 ∣ m ∧ n ≤ m} (n + (16 - n % 16) % 16) := by
  constructor
  · constructor
    · omega
    · omega
  · rintro m ⟨hdvd, hle⟩
    omega

theorem length_paddedContent (h : file.length < 2 ^ 31) :
    (paddedContent file).length = file.length + (16 - file.length % 16) % 16 := by
  rw [paddedContent, List.length_append, List.length_replicate, (toInt_eq_iff _).mpr h,
    padding_of_nat]

theorem fileBuffer_eq (file : Bytes) :
    fileBuffer file = (paddedContent file).take (getFileLengthWithPadding file) := rfl

theorem length_fileBuffer_small (h : file.length < 2 ^ 31) :
    (fileBuffer file).length = file.length + (16 - file.length % 16) % 16 := by
  rw [fileBuffer_eq, List.length_take, length_paddedContent h,
    getFileLengthWithPadding_small h, min_self]

theorem payloadSize_message (id : ClientId) (contentSize : ℕ) (fileName : Field fileNameSize)
    {encrypted : Bytes} (h : 4 + fileNameSize + encrypted.length < 256 ^ 4) :
    payloadSize (requestToSendFileMessage id contentSize fileName encrypted) =
      some (4 + fileNameSize + encrypted.length) := by
  rw [payloadSize, requestToSendFileMessage, List.append_assoc, List.append_assoc,
    unpack_requestHeader id _ _ _ (by decide) h]
  rfl

theorem payload_fileMessage (hcpp : PadsBlocks cpp) (h : c.file.length ≤ 2 ^ 31 - 16) :
    payloadSize (fileMessage cpp c) =
      some (4 + fileNameSize + (ciphertext (fileMessage cpp c)).length) := by
  have hbuffer : (fileBuffer c.file).length ≤ 2 ^ 31 := by
    rw [length_fileBuffer_small (by omega)]
    omega
  have hlength := hcpp c.symmetricKey.val (fileBuffer c.file) c.symmetricKey.property
  rw [fileMessage, ciphertext_message]
  apply payloadSize_message
  rw [hlength, fileNameSize]
  omega

/-- Main theorem: the files whose sizes are declared as they are. -/
theorem declared_iff (hcpp : PadsBlocks cpp) (c : Client) :
    Declared cpp c ↔ c.file.length ≤ 2 ^ 31 - 16 := by
  constructor
  · rintro ⟨hcounted, hfilled, -⟩
    have hsmall := (toInt_eq_iff _).mp hcounted
    have hblocks := (toInt_eq_iff _).mp hfilled
    rw [length_paddedContent hsmall] at hblocks
    omega
  · intro h
    have hsmall : c.file.length < 2 ^ 31 := by omega
    have hlength := getFileLengthWithPadding_small hsmall
    refine ⟨(toInt_eq_iff _).mpr hsmall, ?_, ?_, ?_, ?_, payload_fileMessage hcpp h⟩
    · apply (toInt_eq_iff _).mpr
      rw [length_paddedContent hsmall]
      omega
    · rw [hlength]
      exact isLeast_blocks c.file.length
    · rw [length_paddedContent hsmall, hlength]
    · exact declaredSize_message _ _ _ (getFileLengthWithPadding_lt c.file)

theorem padding_pads : PadsBlocks paddingCpp := by
  intro key plain _
  unfold paddingCpp
  dsimp only
  split
  · next h =>
    rw [h.2]
    decide
  · rw [pkcs7, List.length_append, List.length_replicate]

theorem declared_iff_letter :
    Declared paddingCpp { sampleClient [0x61] with symmetricKey := sampleKey } :=
  (declared_iff padding_pads _).mpr (by decide)

/-- A file of 2 GiB and a byte is declared with that size, which is not one of whole blocks. -/
theorem not_declared_over : ¬∀ (cpp : CppCrypto) (c : Client),
    PadsBlocks cpp → Declared cpp c := by
  intro h
  let file : Bytes := List.replicate (2 ^ 31 + 1) 0
  have hsize : file.length = 2 ^ 31 + 1 := List.length_replicate
  have hleast := (h paddingCpp (sampleClient file) padding_pads).least
  have hdvd : 16 ∣ getFileLengthWithPadding file := hleast.1.1
  rw [getFileLengthWithPadding_large (by omega) (by omega), hsize] at hdvd
  omega

end Sizes

end DeclaredSizes
