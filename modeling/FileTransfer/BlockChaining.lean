import FileTransfer.ByteField
import Mathlib.Algebra.Group.End
import Mathlib.Data.List.GetD

/-! # Chained blocks

A mode of operation that hides each block under the one before it: a family of permutations
`round` gives the next block from the last one. Encryption and decryption are inverse to each
other; an encrypted block depends on all the blocks before it, a decrypted one only on its own
and the one in front. -/
namespace BlockChaining

variable {β : Type*} (round : β → Equiv.Perm β)

def encryptFrom : β → List β → List β
  | _, [] => []
  | last, p :: plain =>
    let c := round last p
    c :: encryptFrom c plain

def decryptFrom : β → List β → List β
  | _, [] => []
  | last, c :: cipher => (round last).symm c :: decryptFrom c cipher

section RoundTrip

variable {round}

@[simp] theorem length_encryptFrom (last : β) (plain : List β) :
    (encryptFrom round last plain).length = plain.length := by
  induction plain generalizing last with
  | nil => rfl
  | cons p plain ih => exact congrArg (· + 1) (ih _)

@[simp] theorem length_decryptFrom (last : β) (cipher : List β) :
    (decryptFrom round last cipher).length = cipher.length := by
  induction cipher generalizing last with
  | nil => rfl
  | cons c cipher ih => exact congrArg (· + 1) (ih c)

@[simp] theorem decrypt_encrypt (last : β) (plain : List β) :
    decryptFrom round last (encryptFrom round last plain) = plain := by
  induction plain generalizing last with
  | nil => rfl
  | cons p plain ih => simp [encryptFrom, decryptFrom, ih]

@[simp] theorem encrypt_decrypt (last : β) (cipher : List β) :
    encryptFrom round last (decryptFrom round last cipher) = cipher := by
  induction cipher generalizing last with
  | nil => rfl
  | cons c cipher ih => simp [encryptFrom, decryptFrom, ih]

theorem decryptFrom_injective (last : β) : Function.Injective (decryptFrom round last) :=
  Function.LeftInverse.injective (encrypt_decrypt last)

end RoundTrip

section Prefixes

variable {round} {cipher cipher' : List β} {n : ℕ}

theorem take_decryptFrom (last : β) (cipher : List β) (n : ℕ) :
    (decryptFrom round last cipher).take n = decryptFrom round last (cipher.take n) := by
  induction n generalizing last cipher with
  | zero => rfl
  | succ n ih =>
    cases cipher with
    | nil => rfl
    | cons c cipher => exact congrArg (_ :: ·) (ih c cipher)

variable (round) in
/-- From one start, two plaintexts go together as long as the ciphertexts do. -/
theorem take_decryptFrom_inj (last : β) :
    (decryptFrom round last cipher).take n = (decryptFrom round last cipher').take n ↔
      cipher.take n = cipher'.take n := by
  rw [take_decryptFrom, take_decryptFrom]
  exact (decryptFrom_injective last).eq_iff

end Prefixes

section Locality

theorem getElem?_decryptFrom (last : β) (cipher : List β) (i : ℕ) :
    (decryptFrom round last cipher)[i]? =
      cipher[i]?.map (round ((last :: cipher).getD i last)).symm := by
  induction i generalizing last cipher with
  | zero => cases cipher <;> rfl
  | succ i ih =>
    cases cipher with
    | nil => rfl
    | cons c cipher =>
      have h := ih c cipher
      simp only [decryptFrom, List.getElem?_cons_succ, List.getD_cons_succ, h]
      cases hi : cipher[i]? with
      | none => rfl
      | some d =>
        have hlt : i < (c :: cipher).length := by
          have := (List.getElem?_eq_some_iff.1 hi).1
          exact Nat.lt_succ_of_lt this
        rw [List.getD_eq_getElem _ _ hlt, List.getD_eq_getElem _ _ hlt]

end Locality

/-! ## Blocks of bytes -/

open ByteField

variable {n : ℕ}

def joined (blocks : List (Field n)) : Bytes := (blocks.map Subtype.val).flatten

def blocksFrom (n : ℕ) : ℕ → Bytes → List (Field n)
  | 0, _ => []
  | m + 1, bs => ⟨padded n bs, length_padded n bs⟩ :: blocksFrom n m (bs.drop n)

def blocks (n : ℕ) (bs : Bytes) : List (Field n) := blocksFrom n (bs.length / n) bs

@[simp] theorem length_joined (blocks : List (Field n)) :
    (joined blocks).length = n * blocks.length := by
  induction blocks with
  | nil => rfl
  | cons b blocks ih =>
    simp only [joined, List.map_cons, List.flatten_cons, List.length_append, List.length_cons,
      b.property] at ih ⊢
    rw [ih]
    ring

@[simp] theorem length_blocksFrom (m : ℕ) (bs : Bytes) : (blocksFrom n m bs).length = m := by
  induction m generalizing bs with
  | zero => rfl
  | succ m ih => exact congrArg (· + 1) (ih _)

theorem joined_blocksFrom {m : ℕ} {bs : Bytes} (h : bs.length = n * m) :
    joined (blocksFrom n m bs) = bs := by
  induction m generalizing bs with
  | zero => exact (List.length_eq_zero_iff.1 h).symm
  | succ m ih =>
    have hdrop : (bs.drop n).length = n * m := by
      rw [List.length_drop, h, Nat.mul_succ, Nat.add_sub_cancel]
    have hfirst : padded n bs = bs.take n := by
      have hlength : n ≤ bs.length := by
        rw [h]
        exact Nat.le_mul_of_pos_right n m.succ_pos
      simp [padded, hlength]
    calc joined (blocksFrom n (m + 1) bs)
      _ = padded n bs ++ joined (blocksFrom n m (bs.drop n)) := rfl
      _ = bs := by rw [hfirst, ih hdrop, List.take_append_drop]

theorem joined_blocks {bs : Bytes} (h : bs.length % n = 0) : joined (blocks n bs) = bs :=
  joined_blocksFrom (Nat.mul_div_cancel' (Nat.dvd_of_mod_eq_zero h)).symm

theorem take_joined (blocks : List (Field n)) (m : ℕ) :
    (joined blocks).take (n * m) = joined (blocks.take m) := by
  induction blocks generalizing m with
  | nil => simp [joined]
  | cons b blocks ih =>
    cases m with
    | zero => simp [joined]
    | succ m =>
      calc (joined (b :: blocks)).take (n * (m + 1))
        _ = (b.val ++ joined blocks).take (b.val.length + n * m) := by
          rw [b.property, Nat.mul_succ, Nat.add_comm]
          rfl
        _ = b.val ++ (joined blocks).take (n * m) := List.take_length_add_append _
        _ = joined ((b :: blocks).take (m + 1)) := by
          rw [ih]
          rfl

theorem drop_joined (blocks : List (Field n)) (m : ℕ) :
    (joined blocks).drop (n * m) = joined (blocks.drop m) := by
  induction blocks generalizing m with
  | nil => simp [joined]
  | cons b blocks ih =>
    cases m with
    | zero => simp
    | succ m =>
      calc (joined (b :: blocks)).drop (n * (m + 1))
        _ = (b.val ++ joined blocks).drop (b.val.length + n * m) := by
          rw [b.property, Nat.mul_succ, Nat.add_comm]
          rfl
        _ = (joined blocks).drop (n * m) := List.drop_length_add_append _
        _ = joined ((b :: blocks).drop (m + 1)) := ih m

theorem joined_injective {a b : List (Field n)} (hlength : a.length = b.length)
    (h : joined a = joined b) : a = b := by
  induction a generalizing b with
  | nil => exact (List.length_eq_zero_iff.1 hlength.symm).symm
  | cons x a ih =>
    cases b with
    | nil => cases hlength
    | cons y b =>
      have hsplit : x.val ++ joined a = y.val ++ joined b := h
      obtain ⟨hfirst, hrest⟩ := List.append_inj hsplit (x.property.trans y.property.symm)
      rw [Subtype.ext hfirst, ih (Nat.succ.inj hlength) hrest]

theorem blocks_joined (hn : 0 < n) (fields : List (Field n)) :
    blocks n (joined fields) = fields := by
  have hmod : (joined fields).length % n = 0 := by
    rw [length_joined, Nat.mul_mod_right]
  have hlength : (blocks n (joined fields)).length = fields.length := by
    rw [blocks, length_blocksFrom, length_joined, Nat.mul_div_cancel_left _ hn]
  exact joined_injective hlength (joined_blocks hmod)

@[simp] theorem length_blocks (n : ℕ) (bs : Bytes) : (blocks n bs).length = bs.length / n :=
  length_blocksFrom _ _

theorem slice_joined (fields : List (Field n)) {i : ℕ} (hi : i < fields.length) :
    slice (joined fields) (n * i) n = fields[i].val := by
  have hdrop : fields.drop i = fields[i] :: fields.drop (i + 1) := List.drop_eq_getElem_cons hi
  rw [slice, drop_joined, hdrop]
  exact List.take_left' fields[i].property

theorem take_blocks {bs : Bytes} (h : bs.length % n = 0) (m : ℕ) :
    joined ((blocks n bs).take m) = bs.take (n * m) := by
  rw [← take_joined, joined_blocks h]

/-- Texts of whole blocks have the same blocks in front exactly when they begin alike. -/
theorem take_blocks_inj {a b : Bytes} {m : ℕ} (ha : a.length % n = 0) (hb : b.length % n = 0)
    (hlength : (a.take (n * m)).length = (b.take (n * m)).length) (hn : 0 < n) :
    (blocks n a).take m = (blocks n b).take m ↔ a.take (n * m) = b.take (n * m) := by
  rw [← take_blocks ha, ← take_blocks hb] at hlength ⊢
  constructor
  · exact congrArg joined
  · intro h
    rw [length_joined, length_joined] at hlength
    exact joined_injective (Nat.eq_of_mul_eq_mul_left hn hlength) h

end BlockChaining
