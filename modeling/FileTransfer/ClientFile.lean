import FileTransfer.ByteField
import Mathlib.Algebra.Order.Ring.Int
import Mathlib.Data.Int.ModEq

/-! # The file as the client reads it

`FileHandler::GetFileLengthWithPadding` and `ReadFileWithPadding`. Both count the bytes of
the file in an `int` and fill the last block of 16 with zeros. -/
namespace ClientFile

open ByteField

def toInt (n : ℕ) : ℤ := if n % 2 ^ 32 < 2 ^ 31 then (n % 2 ^ 32 : ℕ) else (n % 2 ^ 32 : ℕ) - 2 ^ 32

/-- `16 - (count % 16 > 0 ? count % 16 : 16)` with the remainder of C++. -/
def padding (count : ℤ) : ℕ :=
  16 - if 0 < count.tmod 16 then (count.tmod 16).toNat else 16

/-- The sum of an `int` and an `unsigned int` is unsigned. -/
def getFileLengthWithPadding (file : Bytes) : ℕ :=
  ((toInt file.length + padding (toInt file.length)) % 2 ^ 32).toNat

def readFileWithPadding (file : Bytes) (length : ℕ) : Bytes :=
  (file ++ List.replicate (padding (toInt file.length)) 0).take length

/-- The bytes that `SendEncryptedFileToServer` encrypts. -/
def fileBuffer (file : Bytes) : Bytes :=
  readFileWithPadding file (getFileLengthWithPadding file)

section Lengths

variable {file : Bytes}

theorem padding_le (count : ℤ) : padding count ≤ 15 := by
  unfold padding
  split
  · next h => omega
  · omega

theorem padding_of_nat (n : ℕ) : padding n = (16 - n % 16) % 16 := by
  have hmod : ((n : ℤ).tmod 16) = ((n % 16 : ℕ) : ℤ) := by
    rw [Int.tmod_eq_emod_of_nonneg (by omega)]
    rfl
  unfold padding
  rw [hmod]
  split <;> omega

theorem padding_of_neg {count : ℤ} (h : count < 0) : padding count = 0 := by
  have hneg : count.tmod 16 ≤ 0 := by
    have hflip : (-count).tmod 16 = -count.tmod 16 := Int.neg_tmod ..
    have hnonneg : 0 ≤ (-count).tmod 16 := Int.tmod_nonneg 16 (by omega)
    omega
  rw [padding, if_neg (by omega)]

theorem getFileLengthWithPadding_lt (file : Bytes) : getFileLengthWithPadding file < 2 ^ 32 := by
  unfold getFileLengthWithPadding
  omega

theorem toInt_eq_iff (n : ℕ) : toInt n = n ↔ n < 2 ^ 31 := by
  unfold toInt
  constructor
  · intro h
    split at h <;> omega
  · intro h
    rw [Nat.mod_eq_of_lt (by omega), if_pos h]

theorem getFileLengthWithPadding_small (h : file.length < 2 ^ 31) :
    getFileLengthWithPadding file = file.length + (16 - file.length % 16) % 16 := by
  rw [getFileLengthWithPadding, (toInt_eq_iff _).mpr h, padding_of_nat]
  omega

theorem fileBuffer_small (h : file.length < 2 ^ 31) :
    fileBuffer file = file ++ List.replicate ((16 - file.length % 16) % 16) 0 := by
  rw [fileBuffer, getFileLengthWithPadding_small h, readFileWithPadding,
    (toInt_eq_iff _).mpr h, padding_of_nat]
  apply List.take_of_length_le
  rw [List.length_append, List.length_replicate]

theorem toInt_large (h : 2 ^ 31 ≤ file.length) (hfits : file.length < 2 ^ 32) :
    toInt file.length = file.length - 2 ^ 32 := by
  unfold toInt
  rw [Nat.mod_eq_of_lt hfits, if_neg (by omega)]

theorem padding_large (h : 2 ^ 31 ≤ file.length) (hfits : file.length < 2 ^ 32) :
    padding (toInt file.length) = 0 := by
  rw [toInt_large h hfits]
  exact padding_of_neg (by omega)

theorem getFileLengthWithPadding_large (h : 2 ^ 31 ≤ file.length)
    (hfits : file.length < 2 ^ 32) : getFileLengthWithPadding file = file.length := by
  rw [getFileLengthWithPadding, padding_large h hfits, toInt_large h hfits]
  omega

theorem fileBuffer_large (h : 2 ^ 31 ≤ file.length) (hfits : file.length < 2 ^ 32) :
    fileBuffer file = file := by
  rw [fileBuffer, getFileLengthWithPadding_large h hfits, readFileWithPadding,
    padding_large h hfits, List.replicate_zero, List.append_nil, List.take_length]

theorem fileBuffer_eq_iff (h : file.length < 2 ^ 32) :
    fileBuffer file = file ↔ 16 ∣ file.length ∨ 2 ^ 31 ≤ file.length := by
  by_cases hsmall : file.length < 2 ^ 31
  · rw [fileBuffer_small hsmall, List.append_right_eq_self, List.replicate_eq_nil_iff]
    omega
  · exact iff_of_true (fileBuffer_large (by omega) h) (.inr (by omega))

theorem length_fileBuffer (h : file.length < 2 ^ 32) :
    (fileBuffer file).length = getFileLengthWithPadding file ∧
      (fileBuffer file).length ≤ file.length + 15 := by
  have hbound : padding (toInt file.length) ≤ 15 := padding_le _
  have hcount : getFileLengthWithPadding file ≤
      file.length + padding (toInt file.length) := by
    unfold getFileLengthWithPadding toInt
    rw [Nat.mod_eq_of_lt h]
    split <;> omega
  rw [fileBuffer, readFileWithPadding, List.length_take, List.length_append,
    List.length_replicate]
  omega

end Lengths

end ClientFile
