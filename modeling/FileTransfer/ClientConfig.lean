import FileTransfer.Base64
import FileTransfer.ClientLogic

/-! # The registration file of the client

`me.info` with its readers and writers in the configuration of the client. -/
namespace ClientConfig

open ByteField ServerProtocol ClientLogic LineStream
open Base64 (Codec)

section Texts

def isSpace (c : UInt8) : Bool := c = 0x20 || 0x09 ≤ c && c ≤ 0x0D

/-- The text functions of Crypto++ and boost, outside the program. `boostUnhex` is `none` where
it throws. -/
structure TextLibrary extends Codec where
  trim : Bytes → Bytes
  boostHex : Bytes → Bytes
  boostUnhex : Bytes → Option Bytes

/-- What is known of them: `trim` drops the spaces in front and behind, and hex digits are read
back, two a byte. -/
structure TextLibrary.Lawful (b : TextLibrary) : Prop where
  codec : b.toCodec.Lawful
  trims : ∀ s, ∃ front behind, s = front ++ b.trim s ++ behind ∧
    (∀ c ∈ front, isSpace c = true) ∧ ∀ c ∈ behind, isSpace c = true
  trim_head : ∀ s, ∀ c ∈ (b.trim s).head?, isSpace c = false
  trim_last : ∀ s, ∀ c ∈ (b.trim s).getLast?, isSpace c = false
  unhex_hex : ∀ bs, b.boostUnhex (b.boostHex bs) = some bs
  length_hex : ∀ bs, (b.boostHex bs).length = 2 * bs.length

variable (b : TextLibrary)

def hex (bs : Bytes) : Bytes := if bs = [] then [] else b.boostHex bs

def unhex (s : Bytes) : Bytes := if s = [] then [] else (b.boostUnhex s).getD []

variable {b} {s : Bytes}

theorem length_hex (hb : b.Lawful) (bs : Bytes) : (hex b bs).length = 2 * bs.length := by
  unfold hex
  split
  · next hempty => rw [hempty, List.length_nil, Nat.mul_zero]
  · exact hb.length_hex bs

theorem unhex_hex (hb : b.Lawful) (bs : Bytes) : unhex b (hex b bs) = bs := by
  by_cases hempty : bs = []
  · subst hempty
    rfl
  · have hne : b.boostHex bs ≠ [] := by
      have hpos := List.length_pos_of_ne_nil hempty
      apply List.ne_nil_of_length_pos
      rw [hb.length_hex]
      omega
    rw [hex, if_neg hempty, unhex, if_neg hne, hb.unhex_hex, Option.getD_some]

theorem trim_nil (hb : b.Lawful) : b.trim [] = [] := by
  obtain ⟨front, behind, htext, -⟩ := hb.trims []
  have hnone := List.append_eq_nil_iff.mp (List.append_eq_nil_iff.mp htext.symm).1
  exact hnone.2

theorem trim_eq_self (hb : b.Lawful) (h : ∀ c ∈ s, isSpace c = false) : b.trim s = s := by
  obtain ⟨front, behind, htext, hfront, hbehind⟩ := hb.trims s
  have hnone : ∀ l : Bytes, (∀ c ∈ l, c ∈ s) → (∀ c ∈ l, isSpace c = true) → l = [] := by
    intro l hl hspaces
    refine List.eq_nil_iff_forall_not_mem.mpr fun c hc => ?_
    have hno := h c (hl c hc)
    rw [hspaces c hc] at hno
    cases hno
  have hf : front = [] := hnone front (fun c hc => by rw [htext]; simp [hc]) hfront
  have hg : behind = [] := hnone behind (fun c hc => by rw [htext]; simp [hc]) hbehind
  rw [hf, hg, List.nil_append, List.append_nil] at htext
  exact htext.symm

theorem trim_trim (hb : b.Lawful) (s : Bytes) : b.trim (b.trim s) = b.trim s := by
  obtain ⟨front, behind, htext, hfront, hbehind⟩ := hb.trims (b.trim s)
  have hf : front = [] := by
    cases front with
    | nil => rfl
    | cons c front =>
      have hhead : c ∈ (b.trim s).head? := by rw [htext]; rfl
      exact nomatch (hfront c List.mem_cons_self).symm.trans (hb.trim_head s c hhead)
  have hg : behind = [] := by
    rcases List.eq_nil_or_concat behind with hnil | ⟨behind', c, rfl⟩
    · exact hnil
    · have hlast : c ∈ (b.trim s).getLast? := by rw [htext]; simp
      exact nomatch (hbehind c (by simp)).symm.trans (hb.trim_last s c hlast)
  rw [hf, hg, List.nil_append, List.append_nil] at htext
  exact htext.symm

theorem mem_of_mem_trim (hb : b.Lawful) {c : UInt8} (h : c ∈ b.trim s) : c ∈ s := by
  obtain ⟨front, behind, htext, -⟩ := hb.trims s
  rw [htext]
  simp [h]

theorem filter_trim (hb : b.Lawful) {p : UInt8 → Bool}
    (hp : ∀ c, isSpace c = true → p c = false) (s : Bytes) :
    (b.trim s).filter p = s.filter p := by
  obtain ⟨front, behind, htext, hfront, hbehind⟩ := hb.trims s
  have hnone : ∀ l : Bytes, (∀ c ∈ l, isSpace c = true) → l.filter p = [] := by
    intro l hspaces
    exact List.filter_eq_nil_iff.mpr fun c hc => by simp [hp c (hspaces c hc)]
  conv_rhs => rw [htext]
  rw [List.filter_append, List.filter_append, hnone front hfront, hnone behind hbehind,
    List.nil_append, List.append_nil]

end Texts

section Standard

def upperDigit (n : ℕ) : UInt8 :=
  if n < 10 then UInt8.ofNat (0x30 + n) else UInt8.ofNat (0x41 + (n - 10))

def hexValue (c : UInt8) : Option ℕ :=
  if 0x30 ≤ c ∧ c ≤ 0x39 then some (c.toNat - 0x30)
  else if 0x41 ≤ c ∧ c ≤ 0x46 then some (c.toNat - 0x41 + 10)
  else if 0x61 ≤ c ∧ c ≤ 0x66 then some (c.toNat - 0x61 + 10)
  else none

def unhexPairs : Bytes → Option Bytes
  | [] => some []
  | [_] => none
  | c :: d :: s =>
    match hexValue c, hexValue d, unhexPairs s with
    | some x, some y, some bs => some (UInt8.ofNat (16 * x + y) :: bs)
    | _, _, _ => none

def TextLibrary.standard : TextLibrary where
  toCodec := Base64.standard
  trim s := (s.dropWhile isSpace).rdropWhile isSpace
  boostHex bs := bs.flatMap fun b => [upperDigit (b.toNat / 16), upperDigit (b.toNat % 16)]
  boostUnhex := unhexPairs

theorem hexValue_upperDigit : ∀ n < 16, hexValue (upperDigit n) = some n := by decide

theorem unhexPairs_standard (bs : Bytes) :
    unhexPairs (TextLibrary.standard.boostHex bs) = some bs := by
  induction bs with
  | nil => rfl
  | cons b bs ih =>
    have hb := b.toNat_lt
    have hbyte : UInt8.ofNat (16 * (b.toNat / 16) + b.toNat % 16) = b := by
      rw [Nat.div_add_mod, UInt8.ofNat_toNat]
    have hhex : TextLibrary.standard.boostHex (b :: bs) = upperDigit (b.toNat / 16) ::
        upperDigit (b.toNat % 16) :: TextLibrary.standard.boostHex bs := rfl
    rw [hhex, unhexPairs, hexValue_upperDigit _ (by omega), hexValue_upperDigit _ (by omega), ih]
    dsimp only
    rw [hbyte]

theorem standard_lawful : TextLibrary.standard.Lawful where
  codec := Base64.standard_lawful
  trims s := by
    refine ⟨s.takeWhile isSpace, (s.dropWhile isSpace).rtakeWhile isSpace, ?_, ?_, ?_⟩
    · rw [List.append_assoc, TextLibrary.standard, List.rdropWhile_append_rtakeWhile,
        List.takeWhile_append_dropWhile]
    · exact fun c hc => List.mem_takeWhile_imp hc
    · exact fun c hc => List.mem_rtakeWhile_imp hc
  trim_head s c hc := by
    obtain ⟨behind, hstarts⟩ := List.rdropWhile_prefix isSpace (s.dropWhile isSpace)
    have hhead : (s.dropWhile isSpace).head? = some c := by
      rw [← hstarts, List.head?_append, show (List.rdropWhile isSpace _).head? = some c from hc]
      rfl
    have hnot := List.head?_dropWhile_not isSpace s
    rwa [hhead] at hnot
  trim_last s c hc := by
    obtain ⟨hne, hlast⟩ := List.mem_getLast?_eq_getLast hc
    have hnot := List.rdropWhile_last_not isSpace (s.dropWhile isSpace) hne
    rw [hlast]
    exact Bool.not_eq_true _ ▸ hnot
  unhex_hex := unhexPairs_standard
  length_hex bs := by simp [TextLibrary.standard, List.length_flatMap, mul_comm]

end Standard

section FileHandler

/-- The loop of `FileHandler::WriteAtLine`: what it puts into `fileContentVec` from the line
number `i` on. -/
def collect (content : Bytes) (lineNum : ℕ) (s : InStream) (line : Bytes) (i : ℕ) : List Bytes :=
  if !s.fail && !s.eof || i ≤ lineNum then
    let next := s.getline line
    (if next.1 = [] then [] else [next.1]) ++ (if lineNum = i then [content] else []) ++
      collect content lineNum next.2 next.1 (i + 1)
  else []
termination_by s.left + (lineNum + 1 - i)
decreasing_by
  obtain ⟨hle, hless⟩ := InStream.left_getline s line
  rename_i hgoes
  rcases Bool.or_eq_true_iff.mp hgoes with hgood | hearly
  · have hless' := hless hgood
    omega
  · have hearly' := of_decide_eq_true hearly
    omega

/-- `FileHandler::WriteAtLine`, on a file that is there and opens -/
def writeAtLine (file : Option Bytes) (content : Bytes) (lineNum : ℕ) : Option Bytes :=
  file.map fun text => unlines (collect content lineNum (.ofText text) [] 0)

/-- The first `k + 1` lines, the last one again where there are no more. -/
def upTo : ℕ → List Bytes → List Bytes
  | _, [] => []
  | 0, l :: _ => [l]
  | k + 1, [l] => l :: upTo k [l]
  | k + 1, l :: ls => l :: upTo k ls

def kept (ls : List Bytes) : List Bytes := ls.filter fun l => !l.isEmpty

def inserted (content : Bytes) (k : ℕ) (ls : List Bytes) : List Bytes :=
  kept (upTo k ls) ++ content :: kept (ls.drop (k + 1))

section Lines

variable {content line : Bytes} {ls ls' : List Bytes} {k i : ℕ} {s : InStream}

@[simp] theorem kept_append (ls ls' : List Bytes) : kept (ls ++ ls') = kept ls ++ kept ls' :=
  List.filter_append ..

theorem kept_cons (l : Bytes) (ls : List Bytes) : kept (l :: ls) = kept [l] ++ kept ls :=
  kept_append [l] ls

theorem mem_kept {l : Bytes} : l ∈ kept ls ↔ l ∈ ls ∧ l ≠ [] := by
  rw [kept, List.mem_filter]
  cases l <;> simp

theorem kept_kept (ls : List Bytes) : kept (kept ls) = kept ls :=
  List.filter_eq_self.mpr fun _ hl => (List.mem_filter.mp hl).2

theorem upTo_cons (hne : ls ≠ []) (k : ℕ) (l : Bytes) :
    upTo (k + 1) (l :: ls) = l :: upTo k ls := by
  cases ls with
  | nil => exact absurd rfl hne
  | cons l' ls => rfl

theorem mem_upTo {l : Bytes} (h : l ∈ upTo k ls) : l ∈ ls := by
  fun_induction upTo k ls with
  | case1 => exact h
  | case2 l' ls =>
    rw [List.mem_singleton.mp h]
    exact List.mem_cons_self
  | case3 k l' ih =>
    rcases List.mem_cons.mp h with rfl | hrest
    · exact List.mem_cons_self
    · exact ih hrest
  | case4 k l' ls hne ih =>
    rcases List.mem_cons.mp h with rfl | hrest
    · exact List.mem_cons_self
    · exact List.mem_cons_of_mem l' (ih hrest)

theorem length_upTo_le (k : ℕ) (ls : List Bytes) : (upTo k ls).length ≤ k + 1 := by
  fun_induction upTo k ls with
  | case1 => exact Nat.zero_le _
  | case2 l ls => exact le_rfl
  | case3 k l ih => exact Nat.succ_le_succ ih
  | case4 k l ls hne ih => exact Nat.succ_le_succ ih

theorem collect_step {s' : InStream} {old : Bytes}
    (hgoes : (!s.fail && !s.eof || decide (i ≤ k)) = true) (hnext : s.getline old = (line, s')) :
    collect content k s old i = kept [line] ++ (if k = i then [content] else []) ++
      collect content k s' line (i + 1) := by
  rw [collect, if_pos hgoes, hnext]
  cases line <;> rfl

/-- The loop behind the end of the file, where the string keeps the last line. -/
theorem collect_ended (h : s.eof = true) : collect content k s line i =
    if i ≤ k then kept (upTo (k - i) [line]) ++ [content] else [] := by
  induction hn : k + 1 - i generalizing i s with
  | zero =>
    rw [collect, if_neg, if_neg]
    · omega
    · rw [h, Bool.not_true, Bool.and_false, Bool.false_or, decide_eq_true_eq]
      omega
  | succ n ih =>
    have hle : i ≤ k := by omega
    have hgoes : (!s.fail && !s.eof || decide (i ≤ k)) = true := by
      rw [decide_eq_true hle, Bool.or_true]
    have hnext := @ih (i + 1) { s with fail := true } h (by omega)
    rw [collect_step hgoes (InStream.getline_ended h line), hnext, if_pos hle]
    by_cases hlast : k = i
    · subst hlast
      rw [if_pos rfl, if_neg (by omega), List.append_nil, Nat.sub_self, upTo]
    · have hroom : k - i = k - (i + 1) + 1 := by omega
      rw [if_neg hlast, if_pos (by omega), List.append_nil, hroom, upTo,
        kept_cons line (upTo _ _), List.append_assoc]

theorem inserted_zero (content line : Bytes) (ls : List Bytes) :
    inserted content 0 (line :: ls) = kept [line] ++ content :: kept ls := rfl

theorem inserted_succ (hne : ls ≠ []) (content line : Bytes) (k : ℕ) :
    inserted content (k + 1) (line :: ls) = kept [line] ++ inserted content k ls := by
  rw [inserted, upTo_cons hne, kept_cons, List.append_assoc]
  rfl

theorem collect_ofText (text old : Bytes) : collect content k (.ofText text) old i =
    if i ≤ k then inserted content (k - i) (lines text) else kept (lines text) := by
  induction text using line_induction generalizing i old with
  | single text hno =>
    rw [collect_step rfl (InStream.getline_single hno old), collect_ended rfl, lines_single hno]
    by_cases hle : i ≤ k
    · rw [if_pos hle]
      by_cases hlast : k = i
      · subst hlast
        rw [if_pos rfl, if_neg (by omega), Nat.sub_self, inserted_zero, List.append_nil]
        rfl
      · have hroom : k - i = k - (i + 1) + 1 := by omega
        rw [if_neg hlast, if_pos (by omega), hroom, inserted, upTo, kept_cons text (upTo _ _),
          List.append_nil, List.append_assoc, List.drop_of_length_le (by simp)]
        rfl
    · rw [if_neg hle, if_neg (by omega), if_neg (by omega), List.append_nil, List.append_nil]
  | append line rest hline ih =>
    rw [collect_step rfl (InStream.getline_append hline rest old), ih, lines_append hline]
    by_cases hle : i ≤ k
    · rw [if_pos hle]
      by_cases hlast : k = i
      · subst hlast
        rw [if_pos rfl, if_neg (by omega), Nat.sub_self, inserted_zero, List.append_assoc]
        rfl
      · have hroom : k - i = k - (i + 1) + 1 := by omega
        rw [if_neg hlast, if_pos (by omega), hroom, inserted_succ (lines_ne_nil rest),
          List.append_nil]
    · rw [if_neg hle, if_neg (by omega), if_neg (by omega), List.append_nil]
      exact (kept_cons line (lines rest)).symm

theorem writeAtLine_some (text content : Bytes) (lineNum : ℕ) :
    writeAtLine (some text) content lineNum =
      some (unlines (inserted content lineNum (lines text))) := by
  rw [writeAtLine, Option.map_some, collect_ofText, if_pos (Nat.zero_le lineNum), Nat.sub_zero]

end Lines

end FileHandler

section ConfigManager

structure ClientInfo where
  name : Bytes
  uuid : Bytes
  privateKey : Bytes
  deriving DecidableEq

structure ConfigManager where
  file : Option Bytes
  transferName : Bytes
  clientInfo : ClientInfo

def clientMaxName : ℕ := 100

def nameLineIndex : ℕ := 0
def uuidLineIndex : ℕ := 1
def rsaKeyLineIndex : ℕ := 2

def getClientName (b : TextLibrary) (nameLine : Bytes) : Option Bytes :=
  if nameLine = [] then none
  else if clientMaxName ≤ (b.trim nameLine).length then none
  else some (b.trim nameLine)

namespace ConfigManager

def start (file : Option Bytes) (name : Bytes) : ConfigManager :=
  ⟨file, name, ⟨name, [], []⟩⟩

def createRegistrationFile (c : ConfigManager) : ConfigManager :=
  { c with file := writeAtLine (some []) c.transferName nameLineIndex }

variable (b : TextLibrary)

/-- `CheckClientName`. Its search for a letter ends at an iterator that is never null. -/
def checkClientName (c : ConfigManager) (line : Bytes) : Bool × ConfigManager :=
  if line = [] then (false, c)
  else if clientMaxName < (b.trim line).length then (false, c)
  else (true, { c with clientInfo.name := b.trim line })

def setClientsUuid (c : ConfigManager) (uuid : Bytes) : ConfigManager :=
  { c with
    clientInfo.uuid := uuid
    file := writeAtLine c.file (b.encode uuid) uuidLineIndex }

def setClientsPrivateKey (c : ConfigManager) (key : Bytes) : ConfigManager :=
  { c with
    clientInfo.privateKey := key
    file := writeAtLine c.file (b.encode key) rsaKeyLineIndex }

def checkClientsID (c : ConfigManager) (line : Bytes) : Bool × ConfigManager :=
  if line = [] then (false, c)
  else
    let uuid := unhex b (b.decode (b.trim line))
    if uuid.length = clientIdSize then (true, { c with clientInfo.uuid := uuid }) else (false, c)

def getRSAKey (c : ConfigManager) (line : Bytes) : Bool × ConfigManager :=
  if line = [] then (false, c)
  else (true, { c with clientInfo.privateKey := b.decode (b.trim line) })

/-- `isRegistered`. The line of the name is trimmed in place, and stays where a second line is
missing. -/
def isRegistered (c : ConfigManager) : Bool × ConfigManager :=
  match c.file with
  | none => (false, c.createRegistrationFile)
  | some text =>
    let (line, s) := (InStream.ofText text).getline []
    match c.checkClientName b line with
    | (false, c) => (false, c)
    | (true, c) =>
      let (line, s) := s.getline (b.trim line)
      match c.checkClientsID b line with
      | (false, c) => (false, c)
      | (true, c) => c.getRSAKey b s.rest

/-- What `SetClientId` of a client with the id `m_id` stores. -/
def setClientId (c : ConfigManager) (m_id : ClientId) (privateKey : Bytes) (id : ClientId) :
    ConfigManager :=
  if Client.idIsEmpty m_id = some true then
    (c.setClientsUuid b (hex b id.val)).setClientsPrivateKey b privateKey
  else c

variable {b : TextLibrary} {c : ConfigManager} {x y rest : Bytes}

theorem checkClientName_eq (c : ConfigManager) (line : Bytes) : c.checkClientName b line =
    if line ≠ [] ∧ (b.trim line).length ≤ clientMaxName then
      (true, { c with clientInfo.name := b.trim line })
    else (false, c) := by
  unfold checkClientName
  split
  · next hempty =>
    rw [if_neg]
    exact fun h => h.1 hempty
  · next hne =>
    split
    · next hlong =>
      rw [if_neg]
      exact fun h => (h.2.trans_lt hlong).ne rfl
    · next hshort => rw [if_pos ⟨hne, le_of_not_gt hshort⟩]

theorem checkClientsID_eq (c : ConfigManager) (line : Bytes) : c.checkClientsID b line =
    if line ≠ [] ∧ (unhex b (b.decode (b.trim line))).length = clientIdSize then
      (true, { c with clientInfo.uuid := unhex b (b.decode (b.trim line)) })
    else (false, c) := by
  unfold checkClientsID
  split
  · next hempty =>
    rw [if_neg]
    exact fun h => h.1 hempty
  · next hne =>
    dsimp only
    split
    · next hlength => rw [if_pos ⟨hne, hlength⟩]
    · next hlength => rw [if_neg fun h => hlength h.2]

theorem isRegistered_file {text : Bytes} (h : c.file = some text) :
    (c.isRegistered b).2.file = some text := by
  unfold isRegistered
  rw [h]
  dsimp only
  rw [checkClientName_eq]
  split_ifs
  · dsimp only
    rw [checkClientsID_eq]
    split_ifs
    · dsimp only
      unfold getRSAKey
      split_ifs
      · exact h
      · exact h
    · exact h
  · exact h

theorem isRegistered_iff (hfile : c.file = some (x ++ newline :: (y ++ newline :: rest)))
    (hx : newline ∉ x) (hy : newline ∉ y) (info : ClientInfo) :
    (c.isRegistered b).1 = true ∧ (c.isRegistered b).2.clientInfo = info ↔
      (x ≠ [] ∧ (b.trim x).length ≤ clientMaxName ∧ b.trim x = info.name) ∧
        (y ≠ [] ∧ info.uuid.length = clientIdSize ∧ unhex b (b.decode (b.trim y)) = info.uuid) ∧
        rest ≠ [] ∧ b.decode (b.trim rest) = info.privateKey := by
  obtain ⟨name, uuid, key⟩ := info
  unfold isRegistered
  rw [hfile]
  dsimp only
  rw [InStream.getline_append hx, checkClientName_eq]
  dsimp only
  rw [InStream.getline_append hy]
  by_cases hname : x ≠ [] ∧ (b.trim x).length ≤ clientMaxName
  · rw [if_pos hname]
    dsimp only
    rw [checkClientsID_eq]
    by_cases hid : y ≠ [] ∧ (unhex b (b.decode (b.trim y))).length = clientIdSize
    · rw [if_pos hid]
      dsimp only
      unfold getRSAKey InStream.ofText
      dsimp only
      split_ifs with hempty
      · simp [hempty]
      · simp only [ClientInfo.mk.injEq]
        constructor
        · rintro ⟨-, hsame, rfl, hkey⟩
          exact ⟨⟨hname.1, hname.2, hsame⟩, ⟨hid.1, hid.2, rfl⟩, hempty, hkey⟩
        · rintro ⟨⟨-, -, hsame⟩, ⟨-, -, huuid⟩, -, hkey⟩
          exact ⟨trivial, hsame, huuid, hkey⟩
    · rw [if_neg hid]
      refine iff_of_false (fun h => Bool.false_ne_true h.1) ?_
      rintro ⟨-, ⟨hne, hlength, huuid⟩, -⟩
      exact hid ⟨hne, huuid ▸ hlength⟩
  · rw [if_neg hname]
    refine iff_of_false (fun h => Bool.false_ne_true h.1) ?_
    rintro ⟨⟨hne, hlength, -⟩, -⟩
    exact hname ⟨hne, hlength⟩

end ConfigManager

end ConfigManager

end ClientConfig
