import Mathlib.Data.List.Basic
import Mathlib.Data.List.TakeWhile
import Mathlib.Tactic.Linarith
import Mathlib.Tactic.Ring

/-! # Byte strings and fixed-size fields

Little-endian integers, fixed-size text fields, UTF-8 validity and hexadecimal names.
A decoded text is represented by its UTF-8 bytes. -/
namespace ByteField

abbrev Bytes := List UInt8

abbrev Field (n : ℕ) := { b : Bytes // b.length = n }

def filled (n : ℕ) (b : UInt8) : Field n := ⟨List.replicate n b, List.length_replicate⟩

theorem byte_forall {p : UInt8 → Prop} (h : ∀ n < 256, p (UInt8.ofNat n)) (c : UInt8) : p c := by
  rw [← @UInt8.ofNat_toNat c]
  exact h c.toNat c.toNat_lt

def leBytes : ℕ → ℕ → Bytes
  | 0, _ => []
  | w + 1, n => UInt8.ofNat n :: leBytes w (n / 256)

def leValue : Bytes → ℕ
  | [] => 0
  | b :: bs => b.toNat + 256 * leValue bs

@[simp] theorem length_leBytes (w n : ℕ) : (leBytes w n).length = w := by
  induction w generalizing n with
  | zero => rfl
  | succ w ih => simp [leBytes, ih]

theorem leValue_leBytes (w n : ℕ) : leValue (leBytes w n) = n % 256 ^ w := by
  induction w generalizing n with
  | zero => simp [leBytes, leValue, Nat.mod_one]
  | succ w ih =>
    have hb : (UInt8.ofNat n).toNat = n % 256 := by simp
    rw [leBytes, leValue, ih, hb, pow_succ', Nat.mod_mul]

theorem leValue_leBytes_of_lt {w n : ℕ} (h : n < 256 ^ w) : leValue (leBytes w n) = n := by
  rw [leValue_leBytes, Nat.mod_eq_of_lt h]

theorem leValue_lt (bs : Bytes) : leValue bs < 256 ^ bs.length := by
  induction bs with
  | nil => simp [leValue]
  | cons b bs ih =>
    have hb := b.toNat_lt
    simp only [leValue, List.length_cons, pow_succ']
    omega

/-- The bytes `data[off : off + len]`, fewer when `data` is shorter. -/
def slice (data : Bytes) (off len : ℕ) : Bytes := (data.drop off).take len

theorem length_slice (data : Bytes) (off len : ℕ) :
    (slice data off len).length = min len (data.length - off) := by
  simp [slice]

theorem slice_middle (a b c : Bytes) {off len : ℕ} (ha : a.length = off)
    (hb : b.length = len) : slice (a ++ (b ++ c)) off len = b := by
  subst ha hb
  simp [slice]

theorem slice_front (b c : Bytes) {len : ℕ} (hb : b.length = len) :
    slice (b ++ c) 0 len = b := slice_middle [] b c rfl hb

theorem slice_slice {data : Bytes} {off n o len : ℕ} (h : o + len ≤ n) :
    slice (slice data off n) o len = slice data (off + o) len := by
  simp only [slice]
  rw [List.drop_take, List.take_take, List.drop_drop, min_eq_left (by omega)]

/-- The value of a field that must be exactly `n` bytes long. -/
def exactly (n : ℕ) (data : Bytes) : Option (Field n) :=
  if h : data.length = n then some ⟨data, h⟩ else none

@[simp] theorem exactly_field {n : ℕ} (b : Field n) : exactly n b.val = some b := by
  simp [exactly, b.property]

theorem exactly_eq_some {n : ℕ} {data : Bytes} {b : Field n} :
    exactly n data = some b ↔ data = b.val := by
  constructor
  · intro h
    unfold exactly at h
    split at h
    · rw [← Option.some.inj h]
    · cases h
  · rintro rfl
    exact exactly_field b

theorem exactly_eq_none {n : ℕ} {data : Bytes} : exactly n data = none ↔ data.length ≠ n := by
  unfold exactly
  split <;> simp_all

def padded (n : ℕ) (text : Bytes) : Bytes :=
  text.take n ++ List.replicate (n - text.length) 0

@[simp] theorem length_padded (n : ℕ) (text : Bytes) : (padded n text).length = n := by
  simp only [padded, List.length_append, List.length_take, List.length_replicate]
  omega

theorem padded_of_length {n : ℕ} {text : Bytes} (h : text.length = n) : padded n text = text := by
  rw [padded, ← h, List.take_length, Nat.sub_self, List.replicate_zero, List.append_nil]

def untilNul (field : Bytes) : Bytes := field.takeWhile (· ≠ 0)

theorem untilNul_nulFree (field : Bytes) : (0 : UInt8) ∉ untilNul field := by
  intro h
  simpa using List.mem_takeWhile_imp h

theorem untilNul_padded {n : ℕ} {text : Bytes} (hn : (0 : UInt8) ∉ text)
    (hl : text.length ≤ n) : untilNul (padded n text) = text := by
  have hall : ∀ b ∈ text, decide (b ≠ 0) = true := by
    intro b hb
    simpa using ne_of_mem_of_not_mem hb hn
  rw [untilNul, padded, List.take_of_length_le hl, List.takeWhile_append_of_pos hall]
  cases n - text.length <;> simp [List.replicate_succ]

theorem length_untilNul_le (field : Bytes) : (untilNul field).length ≤ field.length :=
  (List.takeWhile_prefix _).length_le

section Utf8

/-- What may follow a lead byte: the range of the second byte and the number of
continuation bytes after it. Overlong forms, surrogates and values above U+10FFFF
have no entry. -/
def leadByte (b : UInt8) : Option (UInt8 × UInt8 × ℕ) :=
  if 0xC2 ≤ b ∧ b ≤ 0xDF then some (0x80, 0xBF, 0)
  else if b = 0xE0 then some (0xA0, 0xBF, 1)
  else if b = 0xED then some (0x80, 0x9F, 1)
  else if 0xE1 ≤ b ∧ b ≤ 0xEF then some (0x80, 0xBF, 1)
  else if b = 0xF0 then some (0x90, 0xBF, 2)
  else if 0xF1 ≤ b ∧ b ≤ 0xF3 then some (0x80, 0xBF, 2)
  else if b = 0xF4 then some (0x80, 0x8F, 2)
  else none

/-- `utf8From range more bs` reads the rest of a character: `range` bounds the next byte
when one is due, `more` counts the continuation bytes due after it. -/
def utf8From : Option (UInt8 × UInt8 × ℕ) → Bytes → Bool
  | none, [] => true
  | some _, [] => false
  | none, b :: bs =>
    if b < 0x80 then utf8From none bs
    else match leadByte b with
      | some due => utf8From (some due) bs
      | none => false
  | some (lo, hi, more), b :: bs =>
    if lo ≤ b ∧ b ≤ hi then
      match more with
      | 0 => utf8From none bs
      | more + 1 => utf8From (some (0x80, 0xBF, more)) bs
    else false

def utf8Valid (bs : Bytes) : Bool := utf8From none bs

def decodeUtf8 (bs : Bytes) : Option Bytes := if utf8Valid bs then some bs else none

theorem decodeUtf8_eq_some {bs text : Bytes} :
    decodeUtf8 bs = some text ↔ utf8Valid bs = true ∧ text = bs := by
  by_cases h : utf8Valid bs = true
  · simp only [decodeUtf8, h, if_true, Option.some.injEq, true_and]
    exact eq_comm
  · simp [decodeUtf8, h]

end Utf8

section Hex

def hexDigit (n : ℕ) : UInt8 := if n < 10 then UInt8.ofNat (48 + n) else UInt8.ofNat (87 + n)

/-- `bytes.hex()`: two lower-case digits a byte. -/
def hexOf (bs : Bytes) : Bytes :=
  bs.flatMap fun b => [hexDigit (b.toNat / 16), hexDigit (b.toNat % 16)]

theorem hexDigit_inj : ∀ m < 16, ∀ n < 16, hexDigit m = hexDigit n → m = n := by
  decide +kernel

theorem hexDigit_plain : ∀ n < 16, hexDigit n ≠ 0x2F ∧ hexDigit n ≠ 0x2E ∧ hexDigit n ≠ 0 := by
  decide

@[simp] theorem length_hexOf (bs : Bytes) : (hexOf bs).length = 2 * bs.length := by
  simp [hexOf, List.length_flatMap, mul_comm]

theorem hexOf_injective {as bs : Bytes} (h : hexOf as = hexOf bs) : as = bs := by
  induction as generalizing bs with
  | nil =>
    cases bs with
    | nil => rfl
    | cons b bs => simp [hexOf] at h
  | cons a as ih =>
    cases bs with
    | nil => simp [hexOf] at h
    | cons b bs =>
      have ha := a.toNat_lt
      have hb := b.toNat_lt
      simp only [hexOf, List.flatMap_cons, List.cons_append, List.nil_append,
        List.cons.injEq] at h
      have hhi := hexDigit_inj _ (by omega) _ (by omega) h.1
      have hlo := hexDigit_inj _ (by omega) _ (by omega) h.2.1
      have hab : a = b := UInt8.toNat_inj.mp (by omega)
      rw [hab, ih h.2.2]

theorem hexOf_plain {bs : Bytes} {c : UInt8} (hc : c ∈ hexOf bs) :
    c ≠ 0x2F ∧ c ≠ 0x2E ∧ c ≠ 0 := by
  obtain ⟨b, -, hb⟩ := List.mem_flatMap.mp hc
  have hlt := b.toNat_lt
  simp only [List.mem_cons, List.not_mem_nil, or_false] at hb
  rcases hb with rfl | rfl
  · exact hexDigit_plain _ (by omega)
  · exact hexDigit_plain _ (by omega)

end Hex

end ByteField
