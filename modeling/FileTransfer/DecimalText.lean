import Mathlib.Data.List.TakeWhile

/-! # Decimal numbers in texts

What `strtol` reads at the front of a text, texts that are a number and nothing else, and
dotted addresses of four numbers. -/
namespace DecimalText

variable {text : List UInt8} {c : UInt8}

def isDigit (c : UInt8) : Bool := 0x30 ≤ c && c ≤ 0x39

def value (digits : List UInt8) : ℕ := digits.foldl (fun n d => 10 * n + (d.toNat - 0x30)) 0

def signed : List UInt8 → Bool × List UInt8
  | 0x2D :: rest => (true, rest)
  | 0x2B :: rest => (false, rest)
  | text => (false, text)

/-- The number at the front of a text, behind blanks and a sign; `none` where no digit is. -/
def strtol (isBlank : UInt8 → Bool) (text : List UInt8) : Option ℤ :=
  let number := signed (text.dropWhile isBlank)
  let digits := number.2.takeWhile isDigit
  if digits = [] then none
  else some (if number.1 then -(value digits : ℤ) else value digits)

def IsNumber (text : List UInt8) : Prop := text ≠ [] ∧ ∀ c ∈ text, isDigit c = true

instance (text : List UInt8) : Decidable (IsNumber text) := inferInstanceAs (Decidable (_ ∧ _))

def dot : UInt8 := 0x2E

/-- A number up to 255, without zeros in front. -/
def isOctet (text : List UInt8) : Bool :=
  text ≠ [] && text.all isDigit && value text ≤ 255 && (text.length = 1 || text.head? ≠ some 0x30)

def isDotted (text : List UInt8) : Bool :=
  (text.splitOn dot).length = 4 && (text.splitOn dot).all isOctet

theorem signed_number (h : IsNumber text) : signed text = (false, text) := by
  obtain ⟨hne, hdigits⟩ := h
  unfold signed
  split
  · have hsign := hdigits _ List.mem_cons_self
    exact absurd hsign (by decide)
  · have hsign := hdigits _ List.mem_cons_self
    exact absurd hsign (by decide)
  · rfl

theorem strtol_number {isBlank : UInt8 → Bool} (hblank : ∀ c, isDigit c = true → isBlank c = false)
    (h : IsNumber text) : strtol isBlank text = some (value text : ℤ) := by
  obtain ⟨hne, hdigits⟩ := h
  have hfront : text.dropWhile isBlank = text := by
    cases text with
    | nil => rfl
    | cons c text =>
      have hc := hblank c (hdigits c List.mem_cons_self)
      exact List.dropWhile_cons_of_neg (by simp [hc])
  have hall : text.takeWhile isDigit = text := List.takeWhile_eq_self_iff.mpr hdigits
  unfold strtol
  rw [hfront, signed_number ⟨hne, hdigits⟩]
  dsimp only
  rw [hall, if_neg hne, if_neg Bool.false_ne_true]

theorem mem_intercalate {sep : UInt8} {parts : List (List UInt8)}
    (h : c ∈ [sep].intercalate parts) : c = sep ∨ ∃ part ∈ parts, c ∈ part := by
  induction parts with
  | nil => cases h
  | cons part parts ih =>
    cases parts with
    | nil =>
      rw [List.intercalate_singleton] at h
      exact .inr ⟨part, List.mem_cons_self, h⟩
    | cons part' parts =>
      rw [List.intercalate_cons_cons, List.mem_append, List.mem_append] at h
      rcases h with (hpart | hsep) | hrest
      · exact .inr ⟨part, List.mem_cons_self, hpart⟩
      · exact .inl (List.mem_singleton.mp hsep)
      · rcases ih hrest with hsep | ⟨p, hp, hc⟩
        · exact .inl hsep
        · exact .inr ⟨p, List.mem_cons_of_mem part hp, hc⟩

theorem mem_splitOn {sep : UInt8} (h : c ∈ text) :
    c = sep ∨ ∃ part ∈ text.splitOn sep, c ∈ part := by
  have htext : [sep].intercalate (text.splitOn sep) = text := List.intercalate_splitOn sep
  rw [← htext] at h
  exact mem_intercalate h

theorem mem_dotted (h : isDotted text = true) (hc : c ∈ text) : c = dot ∨ isDigit c = true := by
  rcases mem_splitOn hc with hdot | ⟨part, hpart, hc⟩
  · exact .inl hdot
  · unfold isDotted at h
    rw [Bool.and_eq_true, List.all_eq_true] at h
    have hoctet := h.2 part hpart
    unfold isOctet at hoctet
    simp only [Bool.and_eq_true, List.all_eq_true] at hoctet
    exact .inr (hoctet.1.1.2 c hc)

end DecimalText
