import FileTransfer.ClientIdentity
import FileTransfer.SocketParams

/-! # The start of the client

`ConfigManager::initialize` reads `transfer.info` line by line and its result is dropped;
`ClientManager::Initialize` looks at the name alone before it builds the client. -/
namespace ClientStart

open ByteField LineStream ClientConfig SocketParams DecimalText
open ClientIdentity (isRegistered)

section Definitions

/-- The lines that the loop of `GetLine` collects: one string is read into, over and over. -/
def readLines : ℕ → InStream → Bytes → List Bytes
  | 0, _, _ => []
  | k + 1, s, line =>
    let next := s.getline line
    next.1 :: readLines k next.2 next.1

/-- `FileHandler::GetLine` of a file that opens or not -/
def getLine (text : Bytes) (opens : Bool) (lineNum : ℕ) : Bytes :=
  if opens then (readLines (lineNum + 1) (.ofText text) []).getD lineNum [] else []

/-- `std::filesystem::exists`, `none` when it throws -/
abbrev Lookup := Bytes → Option Bool

variable (b : TextLibrary) (lookup : Lookup)

/-- `ConfigManager::GetFileName`: the path that is assigned, and `none` for its exceptions -/
def getFileName (fileLine : Bytes) : Option (Option Bytes) :=
  if fileLine = [] then some none
  else (lookup (b.trim fileLine)).map fun found => if found then some (b.trim fileLine) else none

variable (makeAddressV4 : Bytes → Bool)

/-- `ConfigManager::initialize` and the transfer info behind it; `none` when it throws or
assigns a null pointer -/
def initializeConfig (file : Option Bytes) (opens : Bool) : Option (Bool × TransferInfo) :=
  match file with
  | none => some (true, .empty)
  | some text =>
    match getSocketParams b makeAddressV4 .empty (getLine text opens 0) with
    | none => none
    | some (false, info) => some (false, info)
    | some (true, info) =>
      match getClientName b (getLine text opens 1) with
      | none => some (false, info)
      | some name =>
        match getFileName b lookup (getLine text opens 2) with
        | none => none
        | some none => some (false, { info with name })
        | some (some filePath) => some (true, { info with name, filePath })

/-- The files of the configuration, each with its text where it exists, and whether it opens. -/
structure ConfigFiles where
  transfer : Option Bytes
  transferOpens : Bool
  registration : Option Bytes
  registrationOpens : Bool

/-- How `ClientManager::Initialize` ends: with a client for the transfer info, and the client
info where it is registered; in `clientStop`; or lost. -/
inductive Start where
  | builds (info : TransferInfo) (registered : Option ClientInfo)
  | stops
  | lost
  deriving DecidableEq

variable (files : ConfigFiles)

/-- `ClientManager::Initialize`, with the constructor of `ConfigManager` before it -/
def initializeManager : Start :=
  match initializeConfig b lookup makeAddressV4 files.transfer files.transferOpens with
  | none => .lost
  | some (_, info) =>
    if info.name = [] then .stops
    else
      let r := isRegistered b (.start files.registration info.name) files.registrationOpens
      .builds info (if r.1 then some r.2.clientInfo else none)

/-- The transfer info is complete, and is what the first three lines say. -/
structure Complete (info : TransferInfo) : Prop where
  address : info.address ≠ []
  port : IsPort info.port
  name : info.name ≠ [] ∧ info.name.length < clientMaxName
  filePath : info.filePath ≠ [] ∧ lookup info.filePath = some true
  lines : ∃ text first second third rest, files.transfer = some text ∧
    lines text = first :: second :: third :: rest ∧
    b.trim first = info.address ++ colon :: info.port ∧ b.trim second = info.name ∧
    b.trim third = info.filePath

/-- A client is built on a complete configuration only, and else the program stops. -/
def Guarded : Prop :=
  match initializeManager b lookup makeAddressV4 files with
  | .builds info _ => Complete b lookup files info
  | .stops => True
  | .lost => False

def Taken (address port : Bytes) : Prop :=
  ¬NoPort port ∧ (address = localhost ∨ isDotted (untilNul address) = true)

def lineAt (text : Bytes) (n : ℕ) : Bytes :=
  ((lines text)[n]?).getD ((lines text).getLast (lines_ne_nil text))

/-- Behind parameters and a name that are taken: the path can be looked up, and where the name
is not empty, the parameters are exact and the third line is there and names a file. -/
def PathReady (text address port : Bytes) : Prop :=
  let second := lineAt text 1
  let third := lineAt text 2
  second ≠ [] → (b.trim second).length < clientMaxName →
    (third ≠ [] → lookup (b.trim third) ≠ none) ∧
    (b.trim second ≠ [] → address ≠ localhost ∧ IsPort port ∧
      3 ≤ (lines text).length ∧ b.trim third ≠ [] ∧ lookup (b.trim third) = some true)

def Startable : Prop :=
  ∀ text, files.transfer = some text → files.transferOpens = true →
    lineAt text 0 = [] ∨ ∃ address port,
      b.trim (lineAt text 0) = address ++ colon :: port ∧ colon ∉ address ∧
        (Taken address port → PathReady b lookup text address port)

end Definitions

section Lines

variable {text : Bytes}

theorem readLines_ended {s : InStream} (h : s.eof = true) (k : ℕ) (line : Bytes) :
    readLines k s line = List.replicate k line := by
  induction k generalizing s with
  | zero => rfl
  | succ k ih =>
    rw [readLines, InStream.getline_ended h]
    dsimp only
    rw [@ih { s with fail := true } h]
    rfl

theorem readLines_getD {k n : ℕ} (hn : n < k) (text old : Bytes) :
    (readLines k (.ofText text) old).getD n [] = lineAt text n := by
  unfold lineAt
  induction text using line_induction generalizing k n old with
  | single text hno =>
    obtain ⟨k, rfl⟩ := Nat.exists_eq_succ_of_ne_zero (Nat.ne_zero_of_lt hn)
    rw [readLines, InStream.getline_single hno, readLines_ended rfl]
    simp only [lines_single hno]
    cases n with
    | zero => rfl
    | succ n =>
      have hlt : n < k := by omega
      simp [hlt]
  | append line rest hline ih =>
    obtain ⟨k, rfl⟩ := Nat.exists_eq_succ_of_ne_zero (Nat.ne_zero_of_lt hn)
    rw [readLines, InStream.getline_append hline]
    simp only [lines_append hline]
    cases n with
    | zero => rfl
    | succ n =>
      have hrest := @ih k n (by omega) line
      simp only [List.getD_cons_succ, List.getElem?_cons_succ]
      rw [hrest, List.getLast_cons (lines_ne_nil rest)]

theorem getLine_eq (text : Bytes) (n : ℕ) : getLine text true n = lineAt text n :=
  readLines_getD (Nat.lt_succ_self n) text []

theorem lineAt_of_lines {first second third : Bytes} {rest : List Bytes}
    (h : lines text = first :: second :: third :: rest) :
    lineAt text 0 = first ∧ lineAt text 1 = second ∧ lineAt text 2 = third := by
  unfold lineAt
  simp [h]

theorem lines_three (h : 3 ≤ (lines text).length) : ∃ rest,
    lines text = lineAt text 0 :: lineAt text 1 :: lineAt text 2 :: rest := by
  rcases hlines : lines text with _ | ⟨first, _ | ⟨second, _ | ⟨third, rest⟩⟩⟩
  · simp [hlines] at h
  · simp [hlines] at h
  · simp [hlines] at h
  · obtain ⟨h₀, h₁, h₂⟩ := lineAt_of_lines hlines
    exact ⟨rest, by rw [h₀, h₁, h₂]⟩

end Lines

section Starts

variable {lookup : Lookup} {makeAddressV4 : Bytes → Bool} {b : TextLibrary} {files : ConfigFiles}
  {text address port : Bytes} {info : TransferInfo}

def Passes (b : TextLibrary) (lookup : Lookup) (files : ConfigFiles) :
    Option (Bool × TransferInfo) → Prop
  | none => False
  | some (_, info) => info.name ≠ [] → Complete b lookup files info

/-- The name is all that is looked at; a registration changes nothing. -/
theorem guarded_iff_passes : Guarded b lookup makeAddressV4 files ↔ Passes b lookup files
    (initializeConfig b lookup makeAddressV4 files.transfer files.transferOpens) := by
  unfold Guarded initializeManager
  cases initializeConfig b lookup makeAddressV4 files.transfer files.transferOpens with
  | none => exact Iff.rfl
  | some result =>
    obtain ⟨ok, info⟩ := result
    unfold Passes
    dsimp only
    by_cases hname : info.name = []
    · rw [if_pos hname]
      exact iff_of_true trivial fun hne => absurd hname hne
    · rw [if_neg hname]
      exact (imp_iff_right hname).symm

theorem getSocketParams_taken (hmake : MakesAddresses makeAddressV4) {line : Bytes}
    (hne : line ≠ []) (hline : b.trim line = address ++ colon :: port) (h : colon ∉ address)
    (htaken : Taken address port) : getSocketParams b makeAddressV4 .empty line =
      some (true, ⟨if address = localhost then [] else address, port, [], []⟩) := by
  rw [getSocketParams_parts hne hline h, if_neg htaken.1]
  by_cases hlocal : address = localhost
  · rw [if_pos hlocal, if_pos hlocal]
    rfl
  · rw [if_neg hlocal, if_neg hlocal, hmake, if_pos (htaken.2.resolve_left hlocal)]
    rfl

theorem getSocketParams_refused (hmake : MakesAddresses makeAddressV4) {line : Bytes}
    (hne : line ≠ []) (hline : b.trim line = address ++ colon :: port) (h : colon ∉ address)
    (hrefused : ¬Taken address port) : ∃ info,
      getSocketParams b makeAddressV4 .empty line = some (false, info) ∧ info.name = [] := by
  rw [getSocketParams_parts hne hline h]
  by_cases hno : NoPort port
  · exact ⟨.empty, if_pos hno, rfl⟩
  · rw [if_neg hno]
    have haddress : ¬(address = localhost ∨ isDotted (untilNul address) = true) :=
      fun haddress => hrefused ⟨hno, haddress⟩
    push Not at haddress
    rw [if_neg haddress.1, hmake, if_neg haddress.2]
    exact ⟨_, rfl, rfl⟩

theorem complete_iff (hfile : files.transfer = some text) {addr : Bytes}
    (hfirst : b.trim (lineAt text 0) = address ++ colon :: port)
    (haddr : addr = if address = localhost then [] else address) :
    Complete b lookup files ⟨addr, port, b.trim (lineAt text 1), b.trim (lineAt text 2)⟩ ↔
      addr ≠ [] ∧ IsPort port ∧ (b.trim (lineAt text 1) ≠ [] ∧
        (b.trim (lineAt text 1)).length < clientMaxName) ∧
      (b.trim (lineAt text 2) ≠ [] ∧ lookup (b.trim (lineAt text 2)) = some true) ∧
      3 ≤ (lines text).length := by
  constructor
  · rintro ⟨haddress, hport, hname, hpath, text', first, second, third, rest, htext, hlines, -⟩
    cases hfile.symm.trans htext
    refine ⟨haddress, hport, hname, hpath, ?_⟩
    rw [hlines]
    simp
  · rintro ⟨haddress, hport, hname, hpath, hlength⟩
    obtain ⟨rest, hlines⟩ := lines_three hlength
    refine ⟨haddress, hport, hname, hpath, text, _, _, _, rest, hfile, hlines, ?_, rfl, rfl⟩
    rw [hfirst, haddr]
    split
    · next hlocal =>
      rw [haddr, if_pos hlocal] at haddress
      exact absurd rfl haddress
    · rfl

theorem passes_refused {ok : Bool} (h : info.name = []) :
    Passes b lookup files (some (ok, info)) := fun hne => absurd h hne

theorem not_complete_noPath (h : info.filePath = []) : ¬Complete b lookup files info :=
  fun hcomplete => hcomplete.filePath.1 h

theorem taken_ne_nil (h : Taken address port) :
    (if address = localhost then [] else address) ≠ [] ↔ address ≠ localhost := by
  by_cases hlocal : address = localhost
  · rw [if_pos hlocal]
    exact iff_of_false (fun hne => hne rfl) fun hne => hne hlocal
  · rw [if_neg hlocal]
    refine iff_of_true ?_ hlocal
    rintro rfl
    exact absurd (h.2.resolve_left hlocal) (by decide)

theorem passes_taken (hb : b.Lawful) (hmake : MakesAddresses makeAddressV4)
    (hfile : files.transfer = some text)
    (hne : lineAt text 0 ≠ [])
    (hline : b.trim (lineAt text 0) = address ++ colon :: port) (h : colon ∉ address)
    (htaken : Taken address port) :
    Passes b lookup files (initializeConfig b lookup makeAddressV4 (some text) true) ↔
      PathReady b lookup text address port := by
  unfold initializeConfig
  dsimp only
  rw [getLine_eq, getLine_eq, getLine_eq, getSocketParams_taken hmake hne hline h htaken]
  unfold PathReady getClientName
  dsimp only
  by_cases hsecond : lineAt text 1 = []
  · rw [if_pos hsecond]
    exact iff_of_true (passes_refused rfl) fun hne => absurd hsecond hne
  · rw [if_neg hsecond, imp_iff_right hsecond]
    by_cases hlong : clientMaxName ≤ (b.trim (lineAt text 1)).length
    · rw [if_pos hlong]
      exact iff_of_true (passes_refused rfl) fun hlt => absurd hlt (not_lt_of_ge hlong)
    · have hshort := lt_of_not_ge hlong
      rw [if_neg hlong, imp_iff_right hshort]
      dsimp only
      unfold getFileName
      by_cases hthird : lineAt text 2 = []
      · rw [if_pos hthird, hthird]
        dsimp only
        have hnopath : ¬(b.trim [] : Bytes) ≠ [] := fun hne => hne (trim_nil hb)
        constructor
        · intro hpasses
          refine ⟨fun hne => absurd rfl hne, fun hname => ?_⟩
          exact absurd (hpasses hname) (not_complete_noPath rfl)
        · rintro ⟨-, hready⟩ hname
          exact absurd (hready hname).2.2.2.1 hnopath
      · rw [if_neg hthird, imp_iff_right hthird]
        cases hlookup : lookup (b.trim (lineAt text 2)) with
        | none => exact iff_of_false id fun hready => hready.1 rfl
        | some found =>
          have hfound : (some found : Option Bool) ≠ none := Option.some_ne_none found
          rw [and_iff_right hfound, Option.map_some]
          cases found with
          | false =>
            refine forall_congr' fun hname => iff_of_false (not_complete_noPath rfl) ?_
            rintro ⟨-, -, -, -, htrue⟩
            cases htrue
          | true =>
            refine forall_congr' fun hname => ?_
            rw [complete_iff hfile hline rfl, taken_ne_nil htaken, hlookup]
            tauto

/-- Main theorem: the files on which no client starts that should not. -/
theorem guarded_iff (hb : b.Lawful) (hmake : MakesAddresses makeAddressV4) (lookup : Lookup)
    (files : ConfigFiles) :
    Guarded b lookup makeAddressV4 files ↔ Startable b lookup files := by
  rw [guarded_iff_passes]
  unfold Startable
  cases hfile : files.transfer with
  | none => exact iff_of_true (passes_refused rfl) fun text h => by cases h
  | some text =>
    simp only [Option.some.injEq, forall_eq']
    cases hopens : files.transferOpens with
    | false => exact iff_of_true (passes_refused rfl) fun h => by cases h
    | true =>
      rw [imp_iff_right rfl]
      by_cases hne : lineAt text 0 = []
      · refine iff_of_true ?_ (.inl hne)
        unfold initializeConfig
        dsimp only
        rw [getLine_eq, hne]
        exact passes_refused rfl
      · rw [or_iff_right hne]
        by_cases hmem : colon ∈ b.trim (lineAt text 0)
        · obtain ⟨address, port, hline, h⟩ := List.eq_append_cons_of_mem hmem
          by_cases htaken : Taken address port
          · rw [passes_taken hb hmake hfile hne hline h htaken]
            constructor
            · intro hready
              exact ⟨address, port, hline, h, fun _ => hready⟩
            · rintro ⟨address', port', hline', h', hready⟩
              obtain ⟨rfl, rfl⟩ := parts_unique h h' (hline.symm.trans hline')
              exact hready htaken
          · obtain ⟨info, hrefused, hname⟩ := getSocketParams_refused hmake hne hline h htaken
            refine iff_of_true ?_ ⟨address, port, hline, h, fun h => absurd h htaken⟩
            unfold initializeConfig
            dsimp only
            rw [getLine_eq, hrefused]
            exact passes_refused hname
        · unfold initializeConfig
          dsimp only
          rw [getLine_eq, getSocketParams_noColon hne hmem]
          refine iff_of_false id ?_
          rintro ⟨address, port, hline, -⟩
          rw [hline] at hmem
          simp at hmem

/-- `127.0.0.1:8080`, `a` and `b` in three lines -/
def sampleText : Bytes := sampleLine ++ [newline, 0x61, newline, 0x62]

def sampleFiles (text : Bytes) : ConfigFiles := ⟨some text, true, none, true⟩

theorem guarded_iff_lines : Guarded .standard (fun path => some (path ≠ []))
    (fun address => isDotted (untilNul address)) (sampleFiles sampleText) := by
  refine (guarded_iff standard_lawful (fun _ => rfl) _ _).mpr fun text h _ => ?_
  cases h
  refine .inr ⟨sampleLine.take 9, sampleLine.drop 10, by decide +kernel, by decide +kernel, ?_⟩
  intro _ _ _
  decide +kernel

def shortText : Bytes := sampleLine ++ [newline, 0x61, newline]

/-- A client is built without a file to send. -/
theorem not_guarded_noPath : ¬∀ (b : TextLibrary) (makeAddressV4 : Bytes → Bool) (lookup : Lookup)
    (files : ConfigFiles), b.Lawful → MakesAddresses makeAddressV4 →
      Guarded b lookup makeAddressV4 files := by
  intro h
  have hguarded := h .standard (fun address => isDotted (untilNul address))
    (fun path => some (path ≠ [])) (sampleFiles shortText) standard_lawful fun _ => rfl
  have hinfo : initializeConfig .standard (fun path => some (path ≠ []))
      (fun address => isDotted (untilNul address)) (some shortText) true =
        some (false, ⟨sampleLine.take 9, sampleLine.drop 10, [0x61], []⟩) := by
    decide +kernel
  rw [guarded_iff_passes] at hguarded
  unfold sampleFiles at hguarded
  rw [hinfo] at hguarded
  exact not_complete_noPath rfl (hguarded (by decide))

end Starts

end ClientStart
