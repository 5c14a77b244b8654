import FileTransfer.ClientConfig
import FileTransfer.DecimalText

/-! # The socket parameters of the client

`GetSocketParams` on the first line of `transfer.info`: the port goes through `std::stoi`, and the
fields are assigned between the checks. -/
namespace SocketParams

open ByteField ClientConfig DecimalText

section Definitions

structure TransferInfo where
  address : Bytes
  port : Bytes
  name : Bytes
  filePath : Bytes
  deriving DecidableEq

def TransferInfo.empty : TransferInfo := ⟨[], [], [], []⟩

/-- `std::stoi`, `none` when it throws -/
def stoi (s : Bytes) : Option ℤ :=
  (strtol isSpace s).filter fun v => -2 ^ 31 ≤ v ∧ v < 2 ^ 31

def colon : UInt8 := 0x3A

def localhost : Bytes := [0x6C, 0x6F, 0x63, 0x61, 0x6C, 0x68, 0x6F, 0x73, 0x74]

/-- `make_address_v4` takes the text up to its first zero, and accepts dotted addresses. -/
def MakesAddresses (makeAddressV4 : Bytes → Bool) : Prop :=
  ∀ address, makeAddressV4 address = isDotted (untilNul address)

variable (b : TextLibrary) (makeAddressV4 : Bytes → Bool) (info : TransferInfo)
  (paramsLine : Bytes)

/-- `GetSocketParams`, `none` for the null pointer that a line without a colon assigns -/
def getSocketParams : Option (Bool × TransferInfo) :=
  if paramsLine = [] then some (false, info)
  else
    let line := b.trim paramsLine
    let address := line.takeWhile (· ≠ colon)
    match line.dropWhile (· ≠ colon) with
    | [] => none
    | _ :: port =>
      match stoi port with
      | none => some (false, info)
      | some p =>
        if p = 0 then some (false, info)
        else
          let info := { info with port }
          if address ≠ localhost then
            if makeAddressV4 address then some (true, { info with address })
            else some (false, info)
          else some (true, info)

/-- A decimal number from 1 to 65535, and nothing else. -/
def IsPort (port : Bytes) : Prop := IsNumber port ∧ 1 ≤ value port ∧ value port ≤ 65535

instance (port : Bytes) : Decidable (IsPort port) := inferInstanceAs (Decidable (_ ∧ _ ∧ _))

def IsParams (text address port : Bytes) : Prop :=
  text = address ++ colon :: port ∧ (address = localhost ∨ isDotted address = true) ∧ IsPort port

/-- The parser accepts exactly the parameters, assigns exactly these, and changes nothing else. -/
def Exact : Prop :=
  match getSocketParams b makeAddressV4 info paramsLine with
  | none => False
  | some (true, info') => ∃ address port,
      IsParams (b.trim paramsLine) address port ∧ info' = { info with address, port }
  | some (false, info') =>
      (¬∃ address port, IsParams (b.trim paramsLine) address port) ∧ info' = info

def NoPort (port : Bytes) : Prop := stoi port = none ∨ stoi port = some 0

instance (port : Bytes) : Decidable (NoPort port) := inferInstanceAs (Decidable (_ ∨ _))

/-- The lines that are parsed exactly: with no port at all, with the two parts as they should
be, or with fields that have the values already that are assigned too early or never. -/
def ParsedExactly : Prop :=
  paramsLine = [] ∨ ∃ address port, b.trim paramsLine = address ++ colon :: port ∧
    colon ∉ address ∧ (NoPort port ∨
      IsPort port ∧ (isDotted address = true ∨ address = localhost ∧ info.address = localhost) ∨
      address ≠ localhost ∧ isDotted (untilNul address) = false ∧ info.port = port)

end Definitions

variable {b : TextLibrary} {makeAddressV4 : Bytes → Bool} {info : TransferInfo}
  {paramsLine address port : Bytes}

section Ports

theorem digit_noSpace : ∀ c : UInt8, isDigit c = true → isSpace c = false :=
  byte_forall (by decide +kernel)

theorem stoi_port (h : IsPort port) : stoi port = some (value port : ℤ) := by
  obtain ⟨hnumber, hpos, hle⟩ := h
  unfold stoi
  rw [strtol_number digit_noSpace hnumber]
  apply Option.filter_some_pos
  rw [decide_eq_true_eq]
  constructor <;> omega

theorem not_noPort (h : IsPort port) : ¬NoPort port := by
  rintro (hnone | hzero)
  · rw [stoi_port h] at hnone
    cases hnone
  · rw [stoi_port h, Option.some.injEq] at hzero
    have hpos := h.2.1
    omega

end Ports

section Addresses

theorem untilNul_dotted (h : isDotted address = true) : untilNul address = address := by
  apply List.takeWhile_eq_self_iff.mpr
  intro c hc
  rw [decide_eq_true_eq]
  rintro rfl
  rcases mem_dotted h hc with hdot | hdigit
  · exact absurd hdot (by decide)
  · exact absurd hdigit (by decide)

theorem colon_notMem_address (h : address = localhost ∨ isDotted address = true) :
    colon ∉ address := by
  rcases h with rfl | hdotted
  · decide
  · intro hc
    rcases mem_dotted hdotted hc with hdot | hdigit
    · exact absurd hdot (by decide)
    · exact absurd hdigit (by decide)

theorem takes_address (h : colon ∉ address) : ∀ c ∈ address, decide (c ≠ colon) = true := by
  intro c hc
  rw [decide_eq_true_eq]
  rintro rfl
  exact h hc

theorem take_address (h : colon ∉ address) (port : Bytes) :
    (address ++ colon :: port).takeWhile (· ≠ colon) = address := by
  rw [List.takeWhile_append_of_pos (takes_address h), List.takeWhile_cons_of_neg (by simp),
    List.append_nil]

theorem drop_address (h : colon ∉ address) (port : Bytes) :
    (address ++ colon :: port).dropWhile (· ≠ colon) = colon :: port := by
  rw [List.dropWhile_append_of_pos (takes_address h), List.dropWhile_cons_of_neg (by simp)]

theorem parts_unique {address' port' : Bytes} (h : colon ∉ address) (h' : colon ∉ address')
    (heq : address ++ colon :: port = address' ++ colon :: port') :
    address' = address ∧ port' = port := by
  have htake := take_address h port
  have hdrop := drop_address h port
  rw [heq, take_address h' port'] at htake
  rw [heq, drop_address h' port'] at hdrop
  exact ⟨htake, (List.cons.inj hdrop).2⟩

theorem exists_isParams (h : colon ∉ address) (P : Bytes → Bytes → Prop) :
    (∃ a p, IsParams (address ++ colon :: port) a p ∧ P a p) ↔
      (address = localhost ∨ isDotted address = true) ∧ IsPort port ∧ P address port := by
  constructor
  · rintro ⟨a, p, ⟨heq, haddress, hport⟩, hP⟩
    obtain ⟨rfl, rfl⟩ := parts_unique h (colon_notMem_address haddress) heq
    exact ⟨haddress, hport, hP⟩
  · rintro ⟨haddress, hport, hP⟩
    exact ⟨address, port, ⟨rfl, haddress, hport⟩, hP⟩

end Addresses

section Parsing

theorem getSocketParams_parts (hne : paramsLine ≠ [])
    (hline : b.trim paramsLine = address ++ colon :: port) (h : colon ∉ address) :
    getSocketParams b makeAddressV4 info paramsLine =
      if NoPort port then some (false, info)
      else if address = localhost then some (true, { info with port })
      else if makeAddressV4 address then some (true, { info with address, port })
      else some (false, { info with port }) := by
  unfold getSocketParams
  rw [if_neg hne, hline]
  dsimp only
  rw [take_address h, drop_address h]
  dsimp only
  by_cases hno : NoPort port
  · rw [if_pos hno]
    rcases hno with hnone | hzero
    · rw [hnone]
    · rw [hzero]
      exact if_pos rfl
  · rw [if_neg hno]
    cases hport : stoi port with
    | none => exact absurd (.inl hport) hno
    | some p =>
      have hp : p ≠ 0 := by
        rintro rfl
        exact hno (.inr hport)
      dsimp only
      rw [if_neg hp]
      by_cases hlocal : address = localhost <;> simp [hlocal]

theorem getSocketParams_noColon (hne : paramsLine ≠ []) (h : colon ∉ b.trim paramsLine) :
    getSocketParams b makeAddressV4 info paramsLine = none := by
  have hdrop : (b.trim paramsLine).dropWhile (· ≠ colon) = [] := by
    rw [List.dropWhile_eq_nil_iff]
    intro c hc
    rw [decide_eq_true_eq]
    rintro rfl
    exact h hc
  unfold getSocketParams
  rw [if_neg hne]
  dsimp only
  rw [hdrop]

theorem exact_parts (hmake : MakesAddresses makeAddressV4) (hne : paramsLine ≠ [])
    (hline : b.trim paramsLine = address ++ colon :: port) (h : colon ∉ address) :
    Exact b makeAddressV4 info paramsLine ↔ NoPort port ∨
      IsPort port ∧ (isDotted address = true ∨ address = localhost ∧ info.address = localhost) ∨
      address ≠ localhost ∧ isDotted (untilNul address) = false ∧ info.port = port := by
  unfold Exact
  rw [getSocketParams_parts hne hline h, hline]
  by_cases hno : NoPort port
  · rw [if_pos hno]
    refine iff_of_true ⟨?_, rfl⟩ (.inl hno)
    rintro ⟨a, p, heq, haddress, hport⟩
    obtain ⟨-, rfl⟩ := parts_unique h (colon_notMem_address haddress) heq
    exact not_noPort hport hno
  · rw [if_neg hno, or_iff_right hno]
    by_cases hlocal : address = localhost
    · rw [if_pos hlocal]
      dsimp only
      rw [exists_isParams h]
      have hassigned : ({ info with port } : TransferInfo) = { info with address, port } ↔
          info.address = address := by
        rw [TransferInfo.mk.injEq]
        simp
      have hno' : isDotted address = false := by
        rw [hlocal]
        decide
      rw [hassigned, hno']
      simp [hlocal]
    · rw [if_neg hlocal, hmake]
      by_cases hdotted : isDotted (untilNul address) = true
      · rw [if_pos hdotted]
        dsimp only
        rw [exists_isParams h]
        simp [hlocal, hdotted, and_comm]
      · rw [if_neg hdotted]
        have hno' : isDotted address ≠ true := by
          intro haddress
          rw [untilNul_dotted haddress] at hdotted
          exact hdotted haddress
        have hnone : ¬∃ a p, IsParams (address ++ colon :: port) a p := by
          rintro ⟨a, p, heq, haddress, -⟩
          obtain ⟨rfl, -⟩ := parts_unique h (colon_notMem_address haddress) heq
          exact haddress.elim hlocal hno'
        have hassigned : ({ info with port } : TransferInfo) = info ↔ info.port = port := by
          obtain ⟨address, port', name, filePath⟩ := info
          rw [TransferInfo.mk.injEq]
          simp [eq_comm]
        dsimp only
        rw [and_iff_right hnone, hassigned]
        simp [hlocal, hdotted, hno']

/-- Main theorem: the lines for which the parser is exact. -/
theorem exact_iff (hb : b.Lawful) (hmake : MakesAddresses makeAddressV4) (info : TransferInfo)
    (paramsLine : Bytes) :
    Exact b makeAddressV4 info paramsLine ↔ ParsedExactly b info paramsLine := by
  unfold ParsedExactly
  by_cases hne : paramsLine = []
  · subst hne
    refine iff_of_true ⟨?_, rfl⟩ (.inl rfl)
    rintro ⟨address, port, htext, -⟩
    rw [trim_nil hb] at htext
    exact List.append_ne_nil_of_right_ne_nil address (List.cons_ne_nil colon port) htext.symm
  · rw [or_iff_right hne]
    by_cases hmem : colon ∈ b.trim paramsLine
    · obtain ⟨address, port, hline, h⟩ := List.eq_append_cons_of_mem hmem
      rw [exact_parts hmake hne hline h]
      constructor
      · intro hparts
        exact ⟨address, port, hline, h, hparts⟩
      · rintro ⟨address', port', hline', h', hparts⟩
        obtain ⟨rfl, rfl⟩ := parts_unique h h' (hline.symm.trans hline')
        exact hparts
    · unfold Exact
      rw [getSocketParams_noColon hne hmem]
      refine iff_of_false id ?_
      rintro ⟨address, port, hline, -⟩
      rw [hline] at hmem
      simp at hmem

/-- `127.0.0.1:8080` -/
def sampleLine : Bytes := [0x31, 0x32, 0x37, 0x2E, 0x30, 0x2E, 0x30, 0x2E, 0x31, 0x3A, 0x38, 0x30,
  0x38, 0x30]

theorem exact_iff_dotted :
    Exact .standard (fun address => isDotted (untilNul address)) .empty sampleLine := by
  refine (exact_iff standard_lawful (fun _ => rfl) _ _).mpr
    (.inr ⟨sampleLine.take 9, sampleLine.drop 10, ?_⟩)
  decide +kernel

/-- `localhost:8080` -/
def localLine : Bytes := localhost ++ [0x3A, 0x38, 0x30, 0x38, 0x30]

/-- The address of this computer is accepted, and never assigned. -/
theorem not_exact_localhost : ¬∀ (b : TextLibrary) (makeAddressV4 : Bytes → Bool)
    (info : TransferInfo) (paramsLine : Bytes), b.Lawful → MakesAddresses makeAddressV4 →
      Exact b makeAddressV4 info paramsLine := by
  intro h
  have hexact := h .standard (fun address => isDotted (untilNul address)) .empty localLine
    standard_lawful fun _ => rfl
  have hparsed : getSocketParams .standard (fun address => isDotted (untilNul address)) .empty
      localLine = some (true, { TransferInfo.empty with port := [0x38, 0x30, 0x38, 0x30] }) := by
    decide +kernel
  unfold Exact at hexact
  rw [hparsed] at hexact
  obtain ⟨address, port, ⟨-, haddress, -⟩, hinfo⟩ := hexact
  have hempty : address = [] := (congrArg TransferInfo.address hinfo).symm
  subst hempty
  rcases haddress with hlocal | hdotted
  · cases hlocal
  · exact absurd hdotted (by decide)

end Parsing

end SocketParams
