import FileTransfer.ByteField

/-! # Packet formats

A parser of the front of a packet, with the texts that it takes for a value. A value may have
several of them. Formats are put together so that each parses exactly its own texts, whatever
follows them. -/
namespace PacketFormat

open ByteField

structure Format (α : Type) where
  parse : Bytes → Option (α × Bytes)
  Writes : α → Bytes → Prop
  exact : ∀ {data a rest}, parse data = some (a, rest) ↔
    ∃ front, Writes a front ∧ data = front ++ rest

namespace Format

variable {α β : Type}

def field (n : ℕ) : Format (Field n) where
  parse data := (exactly n (data.take n)).map fun b => (b, data.drop n)
  Writes b bs := bs = b.val
  exact := by
    intro data a rest
    constructor
    · intro h
      obtain ⟨b, hb, heq⟩ := Option.map_eq_some_iff.1 h
      cases heq
      refine ⟨a.val, rfl, ?_⟩
      rw [← exactly_eq_some.1 hb, List.take_append_drop]
    · rintro ⟨front, rfl, rfl⟩
      rw [List.take_left' a.property, List.drop_left' a.property, exactly_field]
      rfl

/-- No bytes, for a value that may be missing. -/
def ofOption (value : Option α) : Format α where
  parse data := value.map fun a => (a, data)
  Writes a bs := value = some a ∧ bs = []
  exact := by
    intro data a rest
    constructor
    · intro h
      obtain ⟨b, hb, heq⟩ := Option.map_eq_some_iff.1 h
      cases heq
      exact ⟨[], ⟨hb, rfl⟩, rfl⟩
    · rintro ⟨front, ⟨rfl, rfl⟩, rfl⟩
      rfl

def andThen (f : Format α) (g : α → Format β) : Format β where
  parse data := (f.parse data).bind fun (a, rest) => (g a).parse rest
  Writes b bs := ∃ a x y, f.Writes a x ∧ (g a).Writes b y ∧ bs = x ++ y
  exact := by
    intro data b rest
    constructor
    · intro h
      obtain ⟨⟨a, more⟩, hf, hg⟩ := Option.bind_eq_some_iff.1 h
      obtain ⟨x, hx, rfl⟩ := f.exact.1 hf
      obtain ⟨y, hy, rfl⟩ := (g a).exact.1 hg
      exact ⟨x ++ y, ⟨a, x, y, hx, hy, rfl⟩, (List.append_assoc ..).symm⟩
    · rintro ⟨front, ⟨a, x, y, hx, hy, rfl⟩, rfl⟩
      have hf : f.parse (x ++ y ++ rest) = some (a, y ++ rest) :=
        f.exact.2 ⟨x, hx, List.append_assoc ..⟩
      rw [hf]
      exact (g a).exact.2 ⟨y, hy, rfl⟩

instance : Monad Format where
  pure a := ofOption (some a)
  bind := andThen

section Lemmas

variable {f : Format α} {g : α → Format β} {data bs : Bytes} {a : α} {b : β}

@[simp] theorem writes_bind :
    (f >>= g).Writes b bs ↔ ∃ a x y, f.Writes a x ∧ (g a).Writes b y ∧ bs = x ++ y := Iff.rfl

@[simp] theorem writes_pure {a' : α} : (pure a : Format α).Writes a' bs ↔ a = a' ∧ bs = [] := by
  show some a = some a' ∧ bs = [] ↔ _
  rw [Option.some.injEq]

@[simp] theorem writes_field {n : ℕ} {b : Field n} : (field n).Writes b bs ↔ bs = b.val := Iff.rfl

@[simp] theorem writes_ofOption {value : Option α} :
    (ofOption value).Writes a bs ↔ value = some a ∧ bs = [] := Iff.rfl

@[simp] theorem parse_bind :
    (f >>= g).parse data = (f.parse data).bind fun (a, rest) => (g a).parse rest := rfl

@[simp] theorem parse_pure : (pure a : Format α).parse data = some (a, data) := rfl

@[simp] theorem parse_ofOption {value : Option α} :
    (ofOption value).parse data = value.map fun a => (a, data) := rfl

theorem parse_field (data : Bytes) (off n : ℕ) : (field n).parse (data.drop off) =
    (exactly n (slice data off n)).map fun b => (b, data.drop (off + n)) := by
  simp only [field, slice, List.drop_drop]

end Lemmas

end Format

end PacketFormat
