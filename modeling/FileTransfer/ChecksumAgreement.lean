import FileTransfer.TransferSession

/-! # The two checksums of an upload

The client pads the file twice by hand, and the cipher pads what comes out again. The server
cuts the raw decryption at the size in the message, where both sides have the same bytes. -/
namespace ChecksumAgreement

open ByteField ServerProtocol ServerState ServerHandlers ClientChannel ClientFile ClientLogic
  MessageRoundTrip TransferSession
open ClientLogic.Client (sendEncryptedFileToServer fileMessage)

section Definitions

def pkcs7 (n : ℕ) : Bytes := List.replicate (16 - n % 16) (UInt8.ofNat (16 - n % 16))

/-- The two sides have one checksum function and one cipher. The encryption pads, and the raw
decryption leaves the padding. -/
structure Agrees (cpp : CppCrypto) (py : PyCrypto) : Prop where
  crc32 : cpp.crc32 = py.crc32
  aes : ∀ key plain, key.length = symmetricKeySize →
    py.aesCbcDecrypt key (cpp.aesEncrypt key plain) = some (plain ++ pkcs7 plain.length)

def declaredSize (message : Bytes) : ℕ := leValue (slice message requestHeaderSize 4)

def ciphertext (message : Bytes) : Bytes := message.drop (requestHeaderSize + 4 + fileNameSize)

end Definitions

section Messages

variable (id : ClientId) {contentSize : ℕ} (fileName : Field fileNameSize) (encrypted : Bytes)

theorem declaredSize_message (h : contentSize < 256 ^ 4) :
    declaredSize (requestToSendFileMessage id contentSize fileName encrypted) = contentSize := by
  have hfield := slice_payload id requestToSendFile (4 + fileNameSize + encrypted.length) []
    (leBytes 4 contentSize) (fileName.val ++ encrypted) rfl (length_leBytes 4 contentSize)
  rw [List.append_nil, ← List.append_assoc] at hfield
  rw [declaredSize, requestToSendFileMessage]
  exact (congrArg leValue hfield).trans (leValue_leBytes_of_lt h)

theorem ciphertext_message (contentSize : ℕ) :
    ciphertext (requestToSendFileMessage id contentSize fileName encrypted) = encrypted := by
  rw [ciphertext, requestToSendFileMessage]
  apply List.drop_left'
  simp [fileName.property, requestHeaderSize, Nat.add_assoc]

end Messages

variable {cpp : CppCrypto} {py : PyCrypto} {c c' : Client} {message : Bytes}

theorem decrypt_encrypted (h : Agrees cpp py) {key : Bytes} (hkey : key.length = symmetricKeySize)
    (plain : Bytes) :
    decrypt py (cpp.aesEncrypt key plain) (some key) plain.length = some plain := by
  simp only [decrypt, Option.bind_eq_bind, Option.bind_some, h.aes key plain hkey]
  exact congrArg some List.take_left

theorem sendEncryptedFile_sent (h : sendEncryptedFileToServer cpp c = (c', some message)) :
    c'.calculatedCrc = cpp.crc32 (fileBuffer c.file) ∧ message = fileMessage cpp c := by
  unfold sendEncryptedFileToServer Client.sendMessageToChannel at h
  dsimp only at h
  split at h
  · split at h
    · cases h
      exact ⟨rfl, rfl⟩
    · cases h
  · cases h

/-- Main theorem: the server decrypts what a file message carries to a content of the declared
size, with the checksum that the client keeps. -/
theorem checksums_agree (h : Agrees cpp py) (hfile : c.file.length < 2 ^ 31 - 16)
    (hsent : sendEncryptedFileToServer cpp c = (c', some message)) :
    ∃ content, decrypt py (ciphertext message) (some c.symmetricKey.val) (declaredSize message) =
        some content ∧
      content.length = declaredSize message ∧ c'.calculatedCrc = py.crc32 content := by
  obtain ⟨hcrc, rfl⟩ := sendEncryptedFile_sent hsent
  have hbound : c.file.length < 2 ^ 32 := by omega
  have hlength := (length_fileBuffer hbound).1
  have hdeclared : declaredSize (fileMessage cpp c) = (fileBuffer c.file).length := by
    rw [hlength]
    exact declaredSize_message _ _ _ (getFileLengthWithPadding_lt c.file)
  refine ⟨fileBuffer c.file, ?_, hdeclared.symm, ?_⟩
  · rw [hdeclared, fileMessage, ciphertext_message]
    exact decrypt_encrypted h c.symmetricKey.property _
  · rw [hcrc, h.crc32]

section Samples

/-- The cipher of the samples, with its padding on every other input too. -/
def paddingCpp : CppCrypto where
  crc32 := sampleCrc
  aesEncrypt key plain :=
    if key = sampleKey.val ∧ plain = sampleBlock then sampleCiphertext
    else plain ++ pkcs7 plain.length
  rsaDecrypt := sampleCpp.rsaDecrypt

theorem padding_agrees : Agrees paddingCpp samplePy where
  crc32 := rfl
  aes key plain hkey := by
    unfold paddingCpp samplePy
    dsimp only
    by_cases h : key = sampleKey.val ∧ plain = sampleBlock
    · rw [if_pos h, if_pos ⟨hkey, by decide⟩, if_pos ⟨h.1, rfl⟩, h.2]
      rfl
    · -- the last byte of the one ciphertext in the table is no padding
      have hlast : plain ++ pkcs7 plain.length ≠ sampleCiphertext := by
        intro heq
        have hend := congrArg List.getLast? heq
        rw [pkcs7, List.getLast?_append_of_ne_nil _ (by simp; omega), List.getLast?_replicate,
          if_neg (by omega)] at hend
        have hvalue : UInt8.ofNat (16 - plain.length % 16) = 0x32 := Option.some.inj hend
        have hnat := congrArg UInt8.toNat hvalue
        rw [UInt8.toNat_ofNat'] at hnat
        simp at hnat
        omega
      rw [if_neg h, if_pos ⟨hkey, by simp [pkcs7]; omega⟩, if_neg fun hc => hlast hc.2]

theorem checksums_agree_letter : ∃ content,
    decrypt samplePy sampleCiphertext (some sampleKey.val) 16 = some content ∧
      content.length = 16 ∧ 2073188163 = samplePy.crc32 content := by
  let c : Client := { sampleClient [0x61] with symmetricKey := sampleKey }
  have hsent : sendEncryptedFileToServer paddingCpp c =
      ({ c with calculatedCrc := 2073188163 }, some (fileMessage paddingCpp c)) := by
    decide +kernel
  have hcipher : ciphertext (fileMessage paddingCpp c) = sampleCiphertext := by
    decide +kernel
  have hsize : declaredSize (fileMessage paddingCpp c) = 16 := by
    decide +kernel
  have hagree := checksums_agree padding_agrees (by decide) hsent
  rwa [hcipher, hsize] at hagree

end Samples

end ChecksumAgreement
