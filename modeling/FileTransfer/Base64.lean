import FileTransfer.LineStream
import Mathlib.Data.List.DropRight
import Mathlib.Tactic.Linarith

/-! # Base64 text

Texts of 64 digits with six bits each, broken into lines. A decoder passes over everything that
is no digit, and what does not fill a byte is lost. -/
namespace Base64

open LineStream (newline)

def pad : UInt8 := 0x3D

def digitValue (c : UInt8) : Option ℕ :=
  if 0x41 ≤ c ∧ c ≤ 0x5A then some (c.toNat - 0x41)
  else if 0x61 ≤ c ∧ c ≤ 0x7A then some (c.toNat - 0x61 + 26)
  else if 0x30 ≤ c ∧ c ≤ 0x39 then some (c.toNat - 0x30 + 52)
  else if c = 0x2B then some 62
  else if c = 0x2F then some 63
  else none

def isDigit (c : UInt8) : Bool := (digitValue c).isSome

def digitCount (text : List UInt8) : ℕ := text.countP isDigit

/-- The text in lines of `size` characters, after `column` of them. -/
def grouped (size : ℕ) : ℕ → List UInt8 → List UInt8
  | _, [] => [newline]
  | column, c :: text =>
    if column = size then newline :: c :: grouped size 1 text
    else c :: grouped size (column + 1) text

/-- An encoder, without its padding and its lines, and a decoder. -/
structure Codec where
  digits : List UInt8 → List UInt8
  decode : List UInt8 → List UInt8

namespace Codec

def text (b : Codec) (data : List UInt8) : List UInt8 :=
  b.digits data ++ List.replicate ((4 - (b.digits data).length % 4) % 4) pad

/-- The text in lines of 72 characters. -/
def encode (b : Codec) (data : List UInt8) : List UInt8 := grouped 72 0 (b.text data)

structure Lawful (b : Codec) : Prop where
  isDigit : ∀ data, ∀ c ∈ b.digits data, isDigit c = true
  length_digits : ∀ data, (b.digits data).length = (8 * data.length + 5) / 6
  decode_digits : ∀ data, b.decode (b.digits data) = data
  decode_filter : ∀ text, b.decode (text.filter Base64.isDigit) = b.decode text
  decode_prefix : ∀ text more, b.decode text <+: b.decode (text ++ more)
  length_decode : ∀ text, (b.decode text).length = 6 * digitCount text / 8

end Codec

section Lines

variable {size column : ℕ} {text : List UInt8}

theorem isDigit_newline : isDigit newline = false := by decide

theorem isDigit_pad : isDigit pad = false := by decide

theorem filter_grouped (size column : ℕ) (text : List UInt8) :
    (grouped size column text).filter isDigit = text.filter isDigit := by
  induction text generalizing column with
  | nil => rfl
  | cons c text ih =>
    unfold grouped
    split
    · rw [List.filter_cons_of_neg (by simp [isDigit_newline]), List.filter_cons, List.filter_cons,
        ih]
    · rw [List.filter_cons, List.filter_cons, ih]

theorem grouped_short (h : column + text.length ≤ size) :
    grouped size column text = text ++ [newline] := by
  induction text generalizing column with
  | nil => rfl
  | cons c text ih =>
    rw [List.length_cons] at h
    rw [grouped, if_neg (by omega), ih (by omega)]
    rfl

theorem grouped_full (hsize : 0 < size) (hne : text ≠ []) :
    grouped size size text = newline :: grouped size 0 text := by
  cases text with
  | nil => exact absurd rfl hne
  | cons c text =>
    rw [grouped, if_pos rfl, grouped, if_neg (by omega)]

theorem grouped_long (hsize : 0 < size) (hcolumn : column ≤ size)
    (h : size < column + text.length) :
    grouped size column text =
      text.take (size - column) ++ newline :: grouped size 0 (text.drop (size - column)) := by
  induction text generalizing column with
  | nil =>
    rw [List.length_nil] at h
    omega
  | cons c text ih =>
    rw [List.length_cons] at h
    by_cases hfull : column = size
    · subst hfull
      rw [grouped_full hsize (List.cons_ne_nil c text), Nat.sub_self]
      rfl
    · have hroom : size - column = size - (column + 1) + 1 := by omega
      rw [grouped, if_neg hfull, ih (by omega) (by omega), hroom]
      rfl

theorem grouped_line (hsize : 0 < size) (text : List UInt8) : ∃ rest,
    grouped size 0 text = text.take size ++ newline :: rest ∧
      rest.filter isDigit = (text.drop size).filter isDigit := by
  by_cases hshort : text.length ≤ size
  · refine ⟨[], ?_, ?_⟩
    · rw [grouped_short (by omega), List.take_of_length_le hshort]
    · rw [List.drop_of_length_le hshort]
  · refine ⟨grouped size 0 (text.drop size), ?_, filter_grouped ..⟩
    have hlong := @grouped_long size 0 text hsize (Nat.zero_le size) (by omega)
    rw [Nat.sub_zero] at hlong
    exact hlong

end Lines

section Codecs

variable {b : Codec} {data chars more : List UInt8}

theorem digitCount_filter (text : List UInt8) :
    digitCount text = (text.filter isDigit).length := List.countP_eq_length_filter

@[simp] theorem digitCount_append (text more : List UInt8) :
    digitCount (text ++ more) = digitCount text + digitCount more := List.countP_append

theorem digitCount_congr (h : chars.filter isDigit = more.filter isDigit) :
    digitCount chars = digitCount more := by
  rw [digitCount_filter, h, ← digitCount_filter]

namespace Codec

theorem decode_congr (hb : b.Lawful)
    (h : chars.filter Base64.isDigit = more.filter Base64.isDigit) :
    b.decode chars = b.decode more := by
  rw [← hb.decode_filter chars, h, hb.decode_filter more]

theorem filter_text (hb : b.Lawful) (data : List UInt8) :
    (b.text data).filter Base64.isDigit = b.digits data := by
  rw [text, List.filter_append, List.filter_eq_self.mpr (hb.isDigit data),
    List.filter_eq_nil_iff.mpr, List.append_nil]
  intro c hc
  rw [List.eq_of_mem_replicate hc, isDigit_pad]
  exact Bool.false_ne_true

theorem filter_encode (hb : b.Lawful) (data : List UInt8) :
    (b.encode data).filter Base64.isDigit = b.digits data := by
  rw [encode, filter_grouped, filter_text hb]

theorem decode_text (hb : b.Lawful) (data : List UInt8) : b.decode (b.text data) = data := by
  rw [← hb.decode_filter, filter_text hb, hb.decode_digits]

theorem decode_encode (hb : b.Lawful) (data : List UInt8) : b.decode (b.encode data) = data := by
  rw [← hb.decode_filter, filter_encode hb, hb.decode_digits]

theorem digitCount_text (hb : b.Lawful) (data : List UInt8) :
    digitCount (b.text data) = (8 * data.length + 5) / 6 := by
  rw [digitCount_filter, filter_text hb, hb.length_digits]

theorem digitCount_encode (hb : b.Lawful) (data : List UInt8) :
    digitCount (b.encode data) = (8 * data.length + 5) / 6 := by
  rw [digitCount_filter, filter_encode hb, hb.length_digits]

/-- What comes behind an encoded text is lost when it does not fill another byte. -/
theorem decode_append_iff (hb : b.Lawful) (data more : List UInt8) :
    b.decode (b.encode data ++ more) = data ↔
      digitCount more = 0 ∨ digitCount more = 1 ∧ 3 ∣ data.length := by
  have hlength := hb.length_decode (b.encode data ++ more)
  rw [digitCount_append, digitCount_encode hb] at hlength
  constructor
  · intro h
    rw [h] at hlength
    have hmod := Nat.div_add_mod data.length 3
    have hcases : data.length % 3 = 0 ∨ data.length % 3 = 1 ∨ data.length % 3 = 2 := by omega
    rcases hcases with hmod' | hmod' | hmod' <;> omega
  · intro h
    have hfront := hb.decode_prefix (b.encode data) more
    rw [decode_encode hb] at hfront
    refine (hfront.eq_of_length ?_).symm
    rw [hlength]
    omega

theorem ne_decode (hb : b.Lawful) (h : 6 * digitCount chars / 8 ≠ data.length) :
    b.decode chars ≠ data := by
  rintro rfl
  exact h (hb.length_decode chars).symm

theorem mem_text (hb : b.Lawful) {c : UInt8} (h : c ∈ b.text data) :
    Base64.isDigit c = true ∨ c = pad := by
  rcases List.mem_append.mp h with hdigit | hpad
  · exact .inl (hb.isDigit data c hdigit)
  · exact .inr (List.eq_of_mem_replicate hpad)

theorem length_text (hb : b.Lawful) (data : List UInt8) :
    (b.text data).length = 4 * ((data.length + 2) / 3) := by
  rw [text, List.length_append, List.length_replicate, hb.length_digits]
  omega

theorem encode_short (hb : b.Lawful) (h : data.length ≤ 54) :
    b.encode data = b.text data ++ [newline] := by
  rw [encode, grouped_short]
  rw [length_text hb]
  omega

theorem encode_line (hb : b.Lawful) (hne : data ≠ []) : ∃ line rest,
    b.encode data = line ++ newline :: rest ∧ (∀ c ∈ line, Base64.isDigit c = true ∨ c = pad) ∧
      digitCount rest + 2 ≤ (8 * data.length + 5) / 6 := by
  obtain ⟨rest, hencode, hrest⟩ := grouped_line (by decide : 0 < 72) (b.text data)
  refine ⟨(b.text data).take 72, rest, hencode, ?_, ?_⟩
  · intro c hc
    exact mem_text hb (List.mem_of_mem_take hc)
  · have hpos := List.length_pos_of_ne_nil hne
    have hdigits := hb.length_digits data
    -- two digits stand in front
    have htwo : 2 ≤ digitCount ((b.text data).take 72) := by
      have hfront : (b.text data).take 2 = (b.digits data).take 2 := by
        rw [text, List.take_append_of_le_length (by omega)]
      have hcount : digitCount ((b.digits data).take 2) = 2 := by
        rw [digitCount, List.countP_eq_length.mpr, List.length_take]
        · omega
        · exact fun c hc => hb.isDigit data c (List.mem_of_mem_take hc)
      rw [← hcount, ← hfront]
      exact (List.take_sublist_take_left (by decide : 2 ≤ 72)).countP_le
    have hsum := digitCount_append ((b.text data).take 72) ((b.text data).drop 72)
    rw [List.take_append_drop, digitCount_text hb] at hsum
    rw [digitCount_congr hrest]
    omega

end Codec

end Codecs

section Standard

def digitOf (v : ℕ) : UInt8 :=
  if v < 26 then UInt8.ofNat (0x41 + v)
  else if v < 52 then UInt8.ofNat (0x61 + (v - 26))
  else if v < 62 then UInt8.ofNat (0x30 + (v - 52))
  else if v = 62 then 0x2B
  else 0x2F

/-- Three bytes to four values, and what is left. -/
def valuesOf : List UInt8 → List ℕ
  | [] => []
  | [a] => [a.toNat / 4, a.toNat % 4 * 16]
  | [a, b] => [a.toNat / 4, a.toNat % 4 * 16 + b.toNat / 16, b.toNat % 16 * 4]
  | a :: b :: c :: data =>
    a.toNat / 4 :: (a.toNat % 4 * 16 + b.toNat / 16) :: (b.toNat % 16 * 4 + c.toNat / 64) ::
      c.toNat % 64 :: valuesOf data

/-- Four values to three bytes, and the bytes that are whole in what is left. -/
def bytesOf : List ℕ → List UInt8
  | [] => []
  | [_] => []
  | [v, w] => [UInt8.ofNat (v * 4 + w / 16)]
  | [v, w, x] => [UInt8.ofNat (v * 4 + w / 16), UInt8.ofNat (w % 16 * 16 + x / 4)]
  | v :: w :: x :: y :: values =>
    UInt8.ofNat (v * 4 + w / 16) :: UInt8.ofNat (w % 16 * 16 + x / 4) ::
      UInt8.ofNat (x % 4 * 64 + y) :: bytesOf values

def standard : Codec where
  digits data := (valuesOf data).map digitOf
  decode chars := bytesOf (chars.filterMap digitValue)

theorem digitValue_digitOf : ∀ v < 64, digitValue (digitOf v) = some v := by decide +kernel

theorem valuesOf_lt (data : List UInt8) : ∀ v ∈ valuesOf data, v < 64 := by
  fun_induction valuesOf data with
  | case1 => exact List.forall_mem_nil _
  | case2 a =>
    have ha := a.toNat_lt
    simp only [List.forall_mem_cons]
    refine ⟨?_, ?_, List.forall_mem_nil _⟩ <;> omega
  | case3 a b =>
    have ha := a.toNat_lt
    have hb := b.toNat_lt
    simp only [List.forall_mem_cons]
    refine ⟨?_, ?_, ?_, List.forall_mem_nil _⟩ <;> omega
  | case4 a b c data ih =>
    have ha := a.toNat_lt
    have hb := b.toNat_lt
    have hc := c.toNat_lt
    simp only [List.forall_mem_cons]
    refine ⟨?_, ?_, ?_, ?_, ih⟩ <;> omega

theorem length_valuesOf (data : List UInt8) :
    (valuesOf data).length = (8 * data.length + 5) / 6 := by
  fun_induction valuesOf data with
  | case1 => rfl
  | case2 a => simp
  | case3 a b => simp
  | case4 a b c data ih =>
    simp only [List.length_cons, ih]
    omega

theorem ofNat_eq {n : ℕ} {a : UInt8} (h : n = a.toNat) : UInt8.ofNat n = a := by
  rw [h, UInt8.ofNat_toNat]

theorem bytesOf_valuesOf (data : List UInt8) : bytesOf (valuesOf data) = data := by
  fun_induction valuesOf data with
  | case1 => rfl
  | case2 a =>
    rw [bytesOf, @ofNat_eq _ a (by omega)]
  | case3 a b =>
    have hb := b.toNat_lt
    rw [bytesOf, @ofNat_eq _ a (by omega), @ofNat_eq _ b (by omega)]
  | case4 a b c data ih =>
    have hb := b.toNat_lt
    have hc := c.toNat_lt
    rw [bytesOf, ih, @ofNat_eq _ a (by omega), @ofNat_eq _ b (by omega),
      @ofNat_eq _ c (by omega)]

theorem length_bytesOf (values : List ℕ) :
    (bytesOf values).length = 6 * values.length / 8 := by
  fun_induction bytesOf values with
  | case1 => rfl
  | case2 v => simp
  | case3 v w => simp
  | case4 v w x => simp
  | case5 v w x y values ih =>
    simp only [List.length_cons, ih]
    omega

theorem bytesOf_prefix (values more : List ℕ) : bytesOf values <+: bytesOf (values ++ more) := by
  fun_induction bytesOf values with
  | case1 => exact List.nil_prefix
  | case2 v => exact List.nil_prefix
  | case3 v w =>
    match more with
    | [] => exact List.prefix_rfl
    | [x] => exact ⟨_, rfl⟩
    | x :: y :: more => exact ⟨_, rfl⟩
  | case4 v w x =>
    match more with
    | [] => exact List.prefix_rfl
    | y :: more => exact ⟨_, rfl⟩
  | case5 v w x y values ih =>
    obtain ⟨rest, hrest⟩ := ih
    exact ⟨rest, by rw [List.cons_append, List.cons_append, List.cons_append, hrest]; rfl⟩

theorem filterMap_digits (data : List UInt8) :
    ((valuesOf data).map digitOf).filterMap digitValue = valuesOf data := by
  rw [List.filterMap_map]
  calc (valuesOf data).filterMap (digitValue ∘ digitOf)
      = (valuesOf data).filterMap some :=
        List.filterMap_congr fun v hv => digitValue_digitOf v (valuesOf_lt data v hv)
    _ = valuesOf data := List.filterMap_some

theorem standard_lawful : standard.Lawful where
  isDigit data c hc := by
    obtain ⟨v, hv, rfl⟩ := List.mem_map.mp hc
    rw [isDigit, digitValue_digitOf v (valuesOf_lt data v hv)]
    rfl
  length_digits data := by
    rw [standard, List.length_map, length_valuesOf]
  decode_digits data := by
    unfold standard
    dsimp only
    rw [filterMap_digits, bytesOf_valuesOf]
  decode_filter text := by
    unfold standard
    dsimp only
    rw [List.filterMap_filter]
    congr 1
    apply List.filterMap_congr
    intro c _
    split
    · rfl
    · next hno => exact (Option.not_isSome_iff_eq_none.mp hno).symm
  decode_prefix text more := by
    unfold standard
    dsimp only
    rw [List.filterMap_append]
    exact bytesOf_prefix ..
  length_decode text := by
    unfold standard
    dsimp only
    rw [length_bytesOf, List.length_filterMap_eq_countP]
    rfl

example : standard.encode [0x66, 0x6F, 0x6F, 0x62] =
    [0x5A, 0x6D, 0x39, 0x76, 0x59, 0x67, 0x3D, 0x3D, newline] := by decide

end Standard

end Base64
