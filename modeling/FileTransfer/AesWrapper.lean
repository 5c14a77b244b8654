import FileTransfer.BlockChaining
import FileTransfer.CalmTransfer
import FileTransfer.ChecksumAgreement
import FileTransfer.CorruptedUpload

/-! # Noise on the ciphertext of a file

The ciphers of `AESWrapper` and `keys_handler.py` are those of two libraries; what is assumed of
them is that both chain the blocks of one AES from a block of zeros. The server checks no
padding. -/
namespace AesWrapper

open ByteField ServerProtocol ServerState ServerFiles ServerHandlers ServerThread ClientChannel
  ClientFile ClientLogic BlockChaining
open ChecksumAgreement (pkcs7 declaredSize ciphertext ciphertext_message)
open TransferAnswers (KeyIs)
open CalmServer (Calm Room Kept Serves)
open ClientLogic.Client (fileMessage)

section Definitions

abbrev Block := Field 16

abbrev Aes := Bytes → Equiv.Perm Block

def xorBlock (a b : Block) : Block :=
  ⟨List.zipWith (· ^^^ ·) a.val b.val, by simp [a.property, b.property]⟩

theorem xorBlock_cancel (a b : Block) : xorBlock a (xorBlock a b) = b := by
  apply Subtype.ext
  apply List.ext_getElem
  · simp [xorBlock, a.property, b.property]
  · intro i _ _
    simp only [xorBlock, List.getElem_zipWith]
    rw [← UInt8.xor_assoc, UInt8.xor_self, UInt8.zero_xor]

def zeroBlock : Block := filled 16 0

variable (aes : Aes) (key : Bytes)

/-- A block is hidden under the last one and encrypted. -/
def round (last : Block) : Equiv.Perm Block :=
  (Function.Involutive.toPerm (xorBlock last) (xorBlock_cancel last)).trans (aes key)

def chained (plain : Bytes) : Bytes :=
  joined (encryptFrom (round aes key) zeroBlock (blocks 16 plain))

def unchained (ciphertext : Bytes) : Bytes :=
  joined (decryptFrom (round aes key) zeroBlock (blocks 16 ciphertext))

/-- What the two libraries promise of AES in CBC mode: one cipher, and padding on the side of
the client. -/
structure Chains (aes : Aes) (cpp : CppCrypto) (py : PyCrypto) : Prop where
  encrypts : ∀ key plain, key.length = symmetricKeySize →
    cpp.aesEncrypt key plain = chained aes key (plain ++ pkcs7 plain.length)
  decrypts : ∀ key ciphertext, key.length = symmetricKeySize → ciphertext.length % 16 = 0 →
    py.aesCbcDecrypt key ciphertext = some (unchained aes key ciphertext)

end Definitions

variable {aes : Aes} {key plain cipher cipher' : Bytes}

section Cipher

theorem padded_mod (plain : Bytes) : (plain ++ pkcs7 plain.length).length % 16 = 0 := by
  simp only [pkcs7, List.length_append, List.length_replicate]
  omega

variable (aes key) in
theorem length_chained (h : plain.length % 16 = 0) :
    (chained aes key plain).length = plain.length := by
  rw [chained, length_joined, length_encryptFrom, length_blocks]
  omega

theorem length_unchained (h : cipher.length % 16 = 0) :
    (unchained aes key cipher).length = cipher.length := by
  rw [unchained, length_joined, length_decryptFrom, length_blocks]
  omega

variable (aes key) in
theorem unchained_chained (h : plain.length % 16 = 0) :
    unchained aes key (chained aes key plain) = plain := by
  rw [unchained, chained, blocks_joined (by decide), decrypt_encrypt, joined_blocks h]

end Cipher

section Noise

/-- What the server stores of a ciphertext under noise: the file where the noise spares all of its
blocks, and otherwise each block under a clean one as the noise in the block before it. -/
structure Distorts (original ciphertext noisy content : Bytes) : Prop where
  kept : content = original ↔ noisy.take original.length = ciphertext.take original.length
  first : 16 ≤ original.length → slice noisy 0 16 = slice ciphertext 0 16 →
    slice content 0 16 = slice original 0 16
  next : ∀ i, 16 * (i + 2) ≤ original.length →
    slice noisy (16 * (i + 1)) 16 = slice ciphertext (16 * (i + 1)) 16 →
    slice content (16 * (i + 1)) 16 = List.zipWith (· ^^^ ·) (slice original (16 * (i + 1)) 16)
      (List.zipWith (· ^^^ ·) (slice ciphertext (16 * i) 16) (slice noisy (16 * i) 16))

theorem slice_blocks {bs : Bytes} {i : ℕ} (h : bs.length % 16 = 0)
    (hi : i < (blocks 16 bs).length) :
    slice bs (16 * i) 16 = ((blocks 16 bs)[i] : Block).val := by
  have hslice := slice_joined (blocks 16 bs) hi
  rwa [joined_blocks h] at hslice

theorem xor_change (x y z : UInt8) : x ^^^ z = (y ^^^ z) ^^^ (y ^^^ x) :=
  calc x ^^^ z
    _ = z ^^^ x := UInt8.xor_comm ..
    _ = (y ^^^ y) ^^^ (z ^^^ x) := by rw [UInt8.xor_self, UInt8.zero_xor]
    _ = (y ^^^ z) ^^^ (y ^^^ x) := by ac_rfl

theorem xorBlock_change (a b c : Block) :
    xorBlock a c = xorBlock (xorBlock b c) (xorBlock b a) := by
  apply Subtype.ext
  apply List.ext_getElem
  · simp [xorBlock, a.property, b.property, c.property]
  · intro i _ _
    simp only [xorBlock, List.getElem_zipWith]
    exact xor_change ..

theorem slice_take {bs : Bytes} {n off len : ℕ} (h : off + len ≤ n) :
    slice (bs.take n) off len = slice bs off len := by
  rw [slice, slice, List.drop_take, List.take_take, Nat.min_eq_left (by omega)]

theorem slice_append {bs more : Bytes} {off len : ℕ} (h : off + len ≤ bs.length) :
    slice (bs ++ more) off len = slice bs off len := by
  rw [← slice_take h, List.take_left]

section Blocks

variable (aes : Aes) (key : Bytes) {cipher noisy : Bytes}

theorem round_symm (last c : Block) :
    (round aes key last).symm c = xorBlock last ((aes key).symm c) := rfl

theorem slice_unchained {i : ℕ} (hi : i < (blocks 16 cipher).length) :
    slice (unchained aes key cipher) (16 * i) 16 =
      (xorBlock ((zeroBlock :: blocks 16 cipher).getD i zeroBlock)
        ((aes key).symm (blocks 16 cipher)[i])).val := by
  have hlt : i < (decryptFrom (round aes key) zeroBlock (blocks 16 cipher)).length := by
    rwa [length_decryptFrom]
  have hblock := getElem?_decryptFrom (round aes key) zeroBlock (blocks 16 cipher) i
  rw [List.getElem?_eq_getElem hlt, List.getElem?_eq_getElem hi] at hblock
  rw [unchained, slice_joined _ hlt, Option.some.inj hblock, round_symm]

theorem unchained_first (h : cipher.length % 16 = 0) (h' : noisy.length = cipher.length)
    (hlength : 16 ≤ cipher.length) (hsame : slice noisy 0 16 = slice cipher 0 16) :
    slice (unchained aes key noisy) 0 16 = slice (unchained aes key cipher) 0 16 := by
  have hmod : noisy.length % 16 = 0 := by rw [h', h]
  have hi : 0 < (blocks 16 cipher).length := by
    rw [length_blocks]
    omega
  have hi' : 0 < (blocks 16 noisy).length := by
    rw [length_blocks]
    omega
  have hfirst : (blocks 16 noisy)[0] = (blocks 16 cipher)[0] := by
    apply Subtype.ext
    rw [← slice_blocks hmod hi', ← slice_blocks h hi]
    exact hsame
  have hclean := slice_unchained aes key hi
  have hnoisy := slice_unchained aes key hi'
  rw [hfirst] at hnoisy
  exact hnoisy.trans hclean.symm

theorem unchained_next {i : ℕ} (h : cipher.length % 16 = 0) (h' : noisy.length = cipher.length)
    (hlength : 16 * (i + 2) ≤ cipher.length)
    (hsame : slice noisy (16 * (i + 1)) 16 = slice cipher (16 * (i + 1)) 16) :
    slice (unchained aes key noisy) (16 * (i + 1)) 16 = List.zipWith (· ^^^ ·)
      (slice (unchained aes key cipher) (16 * (i + 1)) 16)
      (List.zipWith (· ^^^ ·) (slice cipher (16 * i) 16) (slice noisy (16 * i) 16)) := by
  have hmod : noisy.length % 16 = 0 := by rw [h', h]
  have hi : i + 1 < (blocks 16 cipher).length := by
    rw [length_blocks]
    omega
  have hi' : i + 1 < (blocks 16 noisy).length := by
    rw [length_blocks]
    omega
  have hnext : (blocks 16 noisy)[i + 1] = (blocks 16 cipher)[i + 1] := by
    apply Subtype.ext
    rw [← slice_blocks hmod hi', ← slice_blocks h hi]
    exact hsame
  rw [slice_unchained aes key hi', slice_unchained aes key hi, hnext,
    slice_blocks hmod (Nat.lt_of_succ_lt hi'), slice_blocks h (Nat.lt_of_succ_lt hi),
    List.getD_cons_succ, List.getD_cons_succ, List.getD_eq_getElem _ _ (Nat.lt_of_succ_lt hi'),
    List.getD_eq_getElem _ _ (Nat.lt_of_succ_lt hi)]
  exact congrArg Subtype.val (xorBlock_change _ _ _)

theorem take_unchained_inj {n : ℕ} (h : cipher.length % 16 = 0)
    (h' : noisy.length = cipher.length) :
    (unchained aes key noisy).take (16 * n) = (unchained aes key cipher).take (16 * n) ↔
      noisy.take (16 * n) = cipher.take (16 * n) := by
  have hmod : noisy.length % 16 = 0 := by rw [h', h]
  have hlength : (noisy.take (16 * n)).length = (cipher.take (16 * n)).length := by
    rw [List.length_take, List.length_take, h']
  rw [← take_blocks_inj hmod h hlength (by decide),
    ← take_decryptFrom_inj (round aes key) zeroBlock]
  simp only [unchained, take_joined]
  constructor
  · apply joined_injective
    rw [List.length_take, List.length_take, length_decryptFrom, length_decryptFrom, length_blocks,
      length_blocks, h']
  · exact congrArg joined

end Blocks

theorem distorts_unchained (aes : Aes) (key : Bytes) {plain noisy : Bytes}
    (hplain : plain.length % 16 = 0)
    (hlength : noisy.length = (chained aes key (plain ++ pkcs7 plain.length)).length) :
    Distorts plain (chained aes key (plain ++ pkcs7 plain.length)) noisy
      ((unchained aes key noisy).take plain.length) := by
  have hpadded := padded_mod plain
  have hsize := length_chained aes key hpadded
  have hmod : (chained aes key (plain ++ pkcs7 plain.length)).length % 16 = 0 := by
    rw [hsize, hpadded]
  have hlong : plain.length + 16 = (chained aes key (plain ++ pkcs7 plain.length)).length := by
    rw [hsize, List.length_append, pkcs7, List.length_replicate]
    omega
  have hclean := unchained_chained aes key hpadded
  have hcut : plain.length = 16 * (plain.length / 16) := by omega
  refine ⟨?_, ?_, ?_⟩
  · have hinj := take_unchained_inj aes key (n := plain.length / 16) hmod hlength
    rw [← hcut, hclean, List.take_left] at hinj
    exact hinj
  · intro hpos hsame
    have hfirst := unchained_first aes key hmod hlength (by omega) hsame
    rw [slice_take (by omega), hfirst, hclean, slice_append (by omega)]
  · intro i hi hsame
    have hnext := unchained_next aes key (i := i) hmod hlength (by omega) hsame
    rw [slice_take (by omega), hnext, hclean, slice_append (by omega)]

variable {cpp : CppCrypto} {py : PyCrypto} {env : Env} {w : World} {handled : Option Request}
  {c c' : Client} {message : Bytes} {q : RequestToSendFile}

theorem fileBuffer_blocks {file : Bytes} (h : file.length < 2 ^ 31) :
    (fileBuffer file).length = getFileLengthWithPadding file ∧
      (fileBuffer file).length % 16 = 0 := by
  refine ⟨(length_fileBuffer (by omega)).1, ?_⟩
  rw [fileBuffer_small h, List.length_append, List.length_replicate]
  omega

section Samples

open TransferSession (sampleKey sampleBlock sampleCiphertext sampleCpp sampleClient)
open CorruptedUpload (noisyCiphertext noisyBlock noisyPy)

def blockAt (bs : Bytes) (i : ℕ) : Block := (blocks 16 bs).getD i zeroBlock

/-- AES under the key of the samples at the three blocks that they use. -/
def sampleAes : Aes := fun key =>
  if key = sampleKey.val then
    (Equiv.swap (blockAt sampleBlock 0) (blockAt sampleCiphertext 0)).trans
      ((Equiv.swap (xorBlock (blockAt sampleCiphertext 0) (filled 16 16))
        (blockAt sampleCiphertext 1)).trans
        (Equiv.swap (blockAt noisyBlock 0) (blockAt noisyCiphertext 0)))
  else 1

def chainedCpp : CppCrypto :=
  { sampleCpp with
    aesEncrypt := fun key plain => chained sampleAes key (plain ++ pkcs7 plain.length) }

def chainedPy : PyCrypto :=
  { noisyPy with
    aesCbcDecrypt := fun key ciphertext =>
      if key.length = symmetricKeySize ∧ ciphertext.length % 16 = 0 then
        some (unchained sampleAes key ciphertext)
      else none }

theorem chains_sample : Chains sampleAes chainedCpp chainedPy where
  encrypts _ _ _ := rfl
  decrypts _ _ hkey hmod := if_pos ⟨hkey, hmod⟩

def keyedWorld : World :=
  { World.sample with
    db := { ServerTables.Tables.empty with
      server := [⟨sampleId, [0x61], some TransferSession.samplePublicKey, 0, some sampleKey.val⟩]
      serverKey := List.nodup_singleton _ } }

def sampleUpload : RequestToSendFile :=
  ⟨⟨sampleId, clientVersion, requestToSendFile, 291⟩, 16, [0x78], noisyCiphertext⟩

end Samples

end Noise

end AesWrapper
