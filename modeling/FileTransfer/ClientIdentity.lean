import FileTransfer.RegisteredRestart

/-! # The identity of the client

`SetClientId`, which decides by the bytes of the id it has, and what `isRegistered` leaves in
the client info for every text of `me.info`. -/
namespace ClientIdentity

open ByteField ServerProtocol ClientChannel ClientLogic LineStream ClientConfig

section Ids

/-- What `SetClientId` leaves: its result, `none` when the bitset throws, the id and the
configuration. -/
structure SetId where
  returned : Option Bool
  m_id : ClientId
  config : ConfigManager

variable (b : TextLibrary) (c : ConfigManager) (opens : Bool) (m_id : ClientId)
  (privateKey : Bytes) (id : ClientId)

/-- `SetClientId` where `me.info` opens or not: `WriteAtLine` leaves a file that does not open. -/
def setClientId : SetId :=
  match Client.idIsEmpty m_id with
  | none => ⟨none, m_id, c⟩
  | some true =>
    let stored := (c.setClientsUuid b (hex b id.val)).setClientsPrivateKey b privateKey
    ⟨some true, id, if opens then stored else { stored with file := c.file }⟩
  | some false => ⟨some false, m_id, c⟩

def Records (file : Option Bytes) (id : ClientId) : Prop :=
  ∃ text, file = some text ∧ ∃ l ∈ lines text, unhex b (b.decode (b.trim l)) = id.val

/-- The id is stored where there was none, and no id is replaced. -/
def WrittenOnce : Prop :=
  let r := setClientId b c opens m_id privateKey id
  (m_id = emptyId → r.returned = some true ∧ r.m_id = id ∧ Records b r.config.file id) ∧
  (m_id ≠ emptyId → r = ⟨some false, m_id, c⟩)

/-- The bytes in front of the first zero are the digits of a bitset that is not zero. -/
def HasBit : Prop :=
  (∀ d ∈ untilNul m_id.val, d = 0x30 ∨ d = 0x31) ∧ 0x31 ∈ untilNul m_id.val

/-- Every byte is zero and there is a file that opens, or one that has the id already; or the
bytes read as a number. -/
def Distinguished : Prop :=
  m_id = emptyId ∧ (c.file.isSome = true ∧ opens = true ∨ Records b c.file id) ∨ HasBit m_id

variable {b c opens m_id privateKey id}

theorem setClientId_config :
    (setClientId b c true m_id privateKey id).config = c.setClientId b m_id privateKey id := by
  unfold setClientId ConfigManager.setClientId
  cases Client.idIsEmpty m_id with
  | none => rfl
  | some empty => cases empty <;> rfl

theorem setClientId_client (client : Client) : client.setClientId id =
    match (setClientId b c opens client.id privateKey id).returned with
    | none => { client with control := .lost }
    | some _ => { client with id := (setClientId b c opens client.id privateKey id).m_id } := by
  unfold setClientId Client.setClientId
  cases Client.idIsEmpty client.id with
  | none => rfl
  | some empty => cases empty <;> rfl

theorem idIsEmpty_false_iff : Client.idIsEmpty m_id = some false ↔ HasBit m_id := by
  unfold Client.idIsEmpty HasBit
  dsimp only
  split
  · next hdigits =>
    have hdigits' : ∀ d ∈ untilNul m_id.val, d = 0x30 ∨ d = 0x31 := by simpa using hdigits
    rw [Option.some.injEq, ← Bool.not_eq_true, List.all_eq_true, and_iff_right hdigits']
    constructor
    · intro hnot
      obtain ⟨d, hd, hne⟩ : ∃ d ∈ untilNul m_id.val, d ≠ 0x30 := by simpa using hnot
      exact (hdigits' d hd).resolve_left hne ▸ hd
    · intro hone hall
      exact absurd (hall _ hone) (by decide)
  · next hdigits =>
    refine iff_of_false (by simp) fun h => hdigits ?_
    simpa using h.1

theorem not_hasBit_empty : ¬HasBit emptyId := by
  rw [← idIsEmpty_false_iff]
  decide

theorem lines_concat (text rest : Bytes) :
    lines (text ++ newline :: rest) = lines text ++ lines rest :=
  List.splitOn_append_cons_self text rest

theorem mem_lines_unlines {l : Bytes} {ls : List Bytes} (hl : newline ∉ l) (h : l ∈ ls) :
    l ∈ lines (unlines ls) := by
  induction ls with
  | nil => cases h
  | cons l' ls ih =>
    rw [unlines_cons, lines_concat, List.mem_append]
    rcases List.mem_cons.mp h with rfl | hrest
    · left
      rw [lines_single hl]
      exact List.mem_singleton_self l
    · exact .inr (ih hrest)

theorem take_subset_upTo {l : Bytes} {ls : List Bytes} (k : ℕ) (h : l ∈ ls.take (k + 1)) :
    l ∈ upTo k ls := by
  fun_induction upTo k ls with
  | case1 => simp at h
  | case2 l' ls => simpa using h
  | case3 k l' ih =>
    have hl : l = l' := by simpa using h
    rw [hl]
    exact List.mem_cons_self
  | case4 k l' ls hne ih =>
    rw [List.take_succ_cons, List.mem_cons] at h
    rcases h with rfl | hrest
    · exact List.mem_cons_self
    · exact List.mem_cons_of_mem l' (ih hrest)

theorem mem_inserted {l content : Bytes} {ls : List Bytes} (k : ℕ) (hne : l ≠ []) (h : l ∈ ls) :
    l ∈ inserted content k ls := by
  rw [← List.take_append_drop (k + 1) ls, List.mem_append] at h
  rw [inserted, List.mem_append, List.mem_cons]
  rcases h with hfront | hbehind
  · exact .inl (mem_kept.mpr ⟨take_subset_upTo k hfront, hne⟩)
  · exact .inr (.inr (mem_kept.mpr ⟨hbehind, hne⟩))

theorem records_stored (hb : b.Lawful) {text : Bytes} (h : c.file = some text) :
    Records b ((c.setClientsUuid b (hex b id.val)).setClientsPrivateKey b privateKey).file id := by
  obtain ⟨hplain, htrim⟩ := RegisteredRestart.text_plain hb (hex b id.val)
  have hne := RegisteredRestart.idLine_ne_nil hb id
  have hline : b.text (hex b id.val) ∈
      lines (unlines (inserted (b.encode (hex b id.val)) uuidLineIndex (lines text))) := by
    rw [RegisteredRestart.lines_withId hb]
    simp
  unfold ConfigManager.setClientsPrivateKey ConfigManager.setClientsUuid
  dsimp only
  rw [h, writeAtLine_some, writeAtLine_some]
  refine ⟨_, rfl, b.text (hex b id.val), ?_, ?_⟩
  · exact mem_lines_unlines hplain (mem_inserted rsaKeyLineIndex hne hline)
  · rw [htrim, Base64.Codec.decode_text hb.codec, unhex_hex hb]

/-- Main theorem: an id is written once exactly when its bytes are told from an empty id, and
there is a file to write it to. -/
theorem writtenOnce_iff (hb : b.Lawful) (c : ConfigManager) (opens : Bool) (m_id : ClientId)
    (privateKey : Bytes) (id : ClientId) :
    WrittenOnce b c opens m_id privateKey id ↔ Distinguished b c opens m_id id := by
  unfold WrittenOnce Distinguished
  dsimp only
  by_cases hzero : m_id = emptyId
  · subst hzero
    let stored := (c.setClientsUuid b (hex b id.val)).setClientsPrivateKey b privateKey
    have hset : setClientId b c opens emptyId privateKey id =
        ⟨some true, id, if opens then stored else { stored with file := c.file }⟩ := rfl
    have hfile : emptyId = emptyId ∧ (c.file.isSome = true ∧ opens = true ∨ Records b c.file id) ↔
        c.file.isSome = true ∧ opens = true ∨ Records b c.file id := and_iff_right rfl
    rw [hset, or_iff_left not_hasBit_empty, hfile]
    cases opens with
    | false =>
      constructor
      · rintro ⟨hwritten, -⟩
        exact .inr (hwritten rfl).2.2
      · rintro (⟨-, ⟨⟩⟩ | hrecords)
        exact ⟨fun _ => ⟨rfl, rfl, hrecords⟩, fun hne => absurd rfl hne⟩
    | true =>
      constructor
      · rintro ⟨hwritten, -⟩
        obtain ⟨-, -, text, htext, -⟩ := hwritten rfl
        cases hfile : c.file with
        | some text => exact .inl ⟨rfl, rfl⟩
        | none =>
          simp [stored, ConfigManager.setClientsPrivateKey, ConfigManager.setClientsUuid,
            writeAtLine, hfile] at htext
      · intro hstored
        have hsome : c.file.isSome = true := by
          rcases hstored with ⟨hsome, -⟩ | ⟨text, htext, -⟩
          · exact hsome
          · rw [htext]
            rfl
        obtain ⟨text, htext⟩ := Option.isSome_iff_exists.mp hsome
        exact ⟨fun _ => ⟨rfl, rfl, records_stored hb htext⟩, fun hne => absurd rfl hne⟩
  · rw [← idIsEmpty_false_iff]
    have hkept : setClientId b c opens m_id privateKey id = ⟨some false, m_id, c⟩ ↔
        Client.idIsEmpty m_id = some false := by
      unfold setClientId
      cases Client.idIsEmpty m_id with
      | none => simp
      | some empty => cases empty <;> simp
    constructor
    · rintro ⟨-, hset⟩
      exact .inr (hkept.mp (hset hzero))
    · rintro (⟨hzero', -⟩ | hfalse)
      · exact absurd hzero' hzero
      · exact ⟨fun hzero' => absurd hzero' hzero, fun _ => hkept.mpr hfalse⟩

def digitId : ClientId := ⟨padded clientIdSize [0x31], length_padded _ _⟩

theorem writtenOnce_iff_standard :
    WrittenOnce .standard (.start (some []) [0x61]) true emptyId [1] (filled clientIdSize 1) ∧
      WrittenOnce .standard (.start (some []) [0x61]) true digitId [1] (filled clientIdSize 1) :=
  ⟨(writtenOnce_iff standard_lawful _ _ _ _ _).mpr (.inl ⟨rfl, .inl ⟨rfl, rfl⟩⟩),
    (writtenOnce_iff standard_lawful _ _ _ _ _).mpr
      (.inr (idIsEmpty_false_iff.mp (by decide +kernel)))⟩

def zeroFrontId : ClientId := ⟨0 :: List.replicate 15 1, rfl⟩

/-- An id whose first byte is zero is taken for an empty one, and is replaced. -/
theorem not_writtenOnce_zero : ¬∀ (b : TextLibrary) (c : ConfigManager) (m_id : ClientId)
    (privateKey : Bytes) (id : ClientId), b.Lawful → c.file.isSome = true →
      WrittenOnce b c true m_id privateKey id := by
  intro h
  have hwritten := h .standard (.start (some []) [0x61]) zeroFrontId [1] (filled clientIdSize 1)
    standard_lawful rfl
  have hreturned : (setClientId .standard (.start (some []) [0x61]) true zeroFrontId [1]
      (filled clientIdSize 1)).returned = some true := rfl
  rw [hwritten.2 (by decide)] at hreturned
  cases hreturned

end Ids

section Registrations

variable (b : TextLibrary) (file : Option Bytes) (opens : Bool) (name : Bytes)

/-- `isRegistered` where `me.info` opens or not: a file that does not open is passed over. -/
def isRegistered (c : ConfigManager) (opens : Bool) : Bool × ConfigManager :=
  if c.file.isSome = true ∧ opens = false then (true, c) else c.isRegistered b

/-- The text is a name, an id and a key in lines, and the client info is exactly these. -/
structure Holds (text : Bytes) (info : ClientInfo) : Prop where
  parts : ∃ x y z, text = x ++ newline :: (y ++ newline :: z) ∧ newline ∉ x ∧ newline ∉ y ∧
    info = ⟨b.trim x, unhex b (b.decode (b.trim y)), b.decode (b.trim z)⟩
  name : 1 ≤ info.name.length ∧ info.name.length ≤ clientMaxName
  uuid : info.uuid.length = clientIdSize
  privateKey : info.privateKey ≠ []

/-- A start that reports a registration has read one, and one that does not has read nothing. -/
def Sound : Prop :=
  let r := isRegistered b (.start file name) opens
  (r.1 = true → ∃ text, file = some text ∧ Holds b text r.2.clientInfo) ∧
  (r.1 = false → r.2.clientInfo.uuid = [] ∧ r.2.clientInfo.privateKey = [])

structure Fields where
  nameLine : Bytes
  idLine : Bytes
  key : Bytes

def fields (text : Bytes) : Fields :=
  let (line, s) := (InStream.ofText text).getline []
  let next := s.getline (b.trim line)
  ⟨line, next.1, next.2.rest⟩

def NameTaken (line : Bytes) : Prop := line ≠ [] ∧ (b.trim line).length ≤ clientMaxName

def IdTaken (line : Bytes) : Prop :=
  line ≠ [] ∧ (unhex b (b.decode (b.trim line))).length = clientIdSize

instance (line : Bytes) : Decidable (NameTaken b line) := inferInstanceAs (Decidable (_ ∧ _))

instance (line : Bytes) : Decidable (IdTaken b line) := inferInstanceAs (Decidable (_ ∧ _))

/-- No file, or one that opens and has its flaw before its id, or a name and a key behind. -/
def Readable : Prop :=
  ∀ text, file = some text → opens = true ∧
    (NameTaken b (fields b text).nameLine → IdTaken b (fields b text).idLine →
      b.trim (fields b text).nameLine ≠ [] ∧ (fields b text).key ≠ [] ∧
        b.decode (b.trim (fields b text).key) ≠ [])

variable {b file opens name} {c : ConfigManager} {text : Bytes}

/-- `isRegistered` over the fields of the file: the info is assigned between the checks. -/
theorem isRegistered_fields (h : c.file = some text) : c.isRegistered b =
    if NameTaken b (fields b text).nameLine then
      let named := { c with clientInfo.name := b.trim (fields b text).nameLine }
      if IdTaken b (fields b text).idLine then
        let known := { named with
          clientInfo.uuid := unhex b (b.decode (b.trim (fields b text).idLine)) }
        if (fields b text).key = [] then (false, known)
        else (true, { known with
          clientInfo.privateKey := b.decode (b.trim (fields b text).key) })
      else (false, named)
    else (false, c) := by
  obtain ⟨file, transferName, clientInfo⟩ := c
  cases h
  unfold ConfigManager.isRegistered
  dsimp only
  rw [ConfigManager.checkClientName_eq]
  by_cases hname : NameTaken b (fields b text).nameLine
  · rw [if_pos hname, if_pos (by exact hname)]
    dsimp only
    rw [ConfigManager.checkClientsID_eq]
    by_cases hid : IdTaken b (fields b text).idLine
    · rw [if_pos hid, if_pos (by exact hid)]
      rfl
    · rw [if_neg hid, if_neg (by exact hid)]
      rfl
  · rw [if_neg hname, if_neg (by exact hname)]

theorem fields_key (h : (fields b text).key ≠ []) :
    text = (fields b text).nameLine ++ newline ::
        ((fields b text).idLine ++ newline :: (fields b text).key) ∧
      newline ∉ (fields b text).nameLine ∧ newline ∉ (fields b text).idLine := by
  by_cases hmem : newline ∈ text
  · obtain ⟨x, behind, rfl, hx⟩ := List.eq_append_cons_of_mem hmem
    unfold fields at h ⊢
    rw [InStream.getline_append hx] at h ⊢
    dsimp only at h ⊢
    by_cases hmem' : newline ∈ behind
    · obtain ⟨y, z, rfl, hy⟩ := List.eq_append_cons_of_mem hmem'
      rw [InStream.getline_append hy]
      exact ⟨rfl, hx, hy⟩
    · rw [InStream.getline_single hmem'] at h
      exact absurd rfl h
  · unfold fields at h
    rw [InStream.getline_single hmem] at h
    dsimp only at h
    rw [InStream.getline_ended rfl] at h
    exact absurd rfl h

theorem sound_opened (text name : Bytes) : Sound b (some text) true name ↔
    (NameTaken b (fields b text).nameLine → IdTaken b (fields b text).idLine →
      b.trim (fields b text).nameLine ≠ [] ∧ (fields b text).key ≠ [] ∧
        b.decode (b.trim (fields b text).key) ≠ []) := by
  have hrun : isRegistered b (.start (some text) name) true =
      (ConfigManager.start (some text) name).isRegistered b := if_neg (by simp)
  unfold Sound
  dsimp only
  rw [hrun, @isRegistered_fields b _ text rfl]
  by_cases hname : NameTaken b (fields b text).nameLine
  · by_cases hid : IdTaken b (fields b text).idLine
    · rw [if_pos hname, if_pos hid, imp_iff_right hname, imp_iff_right hid]
      by_cases hkey : (fields b text).key = []
      · -- the id stays in the client info
        rw [if_pos hkey]
        refine iff_of_false (fun h => ?_) fun h => h.2.1 hkey
        have huuid := (h.2 rfl).1
        dsimp only at huuid
        have hlength := hid.2
        rw [huuid] at hlength
        cases hlength
      · rw [if_neg hkey]
        obtain ⟨htext, hx, hy⟩ := fields_key hkey
        constructor
        · rintro ⟨hholds, -⟩
          obtain ⟨text', hsame, hinfo⟩ := hholds rfl
          refine ⟨?_, hkey, hinfo.privateKey⟩
          exact List.ne_nil_of_length_pos hinfo.name.1
        · rintro ⟨htrim, -, hdecoded⟩
          refine ⟨fun _ => ⟨text, rfl, ⟨_, _, _, htext, hx, hy, rfl⟩, ⟨?_, hname.2⟩, hid.2,
            hdecoded⟩, fun hfalse => ?_⟩
          · exact List.length_pos_of_ne_nil htrim
          · cases hfalse
    · rw [if_pos hname, if_neg hid]
      refine iff_of_true ⟨fun htrue => ?_, fun _ => ⟨rfl, rfl⟩⟩ fun _ h => absurd h hid
      cases htrue
  · rw [if_neg hname]
    refine iff_of_true ⟨fun htrue => ?_, fun _ => ⟨rfl, rfl⟩⟩ fun h => absurd h hname
    cases htrue

/-- Main theorem: what `isRegistered` reports is what the file holds exactly when the file opens
and its fields are whole, or its flaw comes before its id. -/
theorem sound_iff (b : TextLibrary) (file : Option Bytes) (opens : Bool) (name : Bytes) :
    Sound b file opens name ↔ Readable b file opens := by
  cases file with
  | none =>
    refine iff_of_true ⟨fun htrue => ?_, fun _ => ⟨rfl, rfl⟩⟩ fun text h => ?_
    · cases htrue
    · cases h
  | some text =>
    unfold Readable
    simp only [Option.some.injEq, forall_eq']
    cases opens with
    | true => rw [sound_opened, and_iff_right rfl]
    | false =>
      refine iff_of_false (fun h => ?_) (by simp)
      obtain ⟨text', -, hholds⟩ := h.1 rfl
      exact hholds.privateKey rfl

def stoppedFile (b : TextLibrary) : Option Bytes :=
  (((ConfigManager.start none [0x61]).isRegistered b).2.setClientsUuid b
    (hex b (filled clientIdSize 1).val)).file

theorem stoppedFile_eq (hb : b.Lawful) : stoppedFile b = some ([0x61] ++ newline ::
    (b.text (hex b (filled clientIdSize 1).val) ++ newline :: [newline])) := by
  have hlines : inserted [0x61] nameLineIndex (lines []) = [[0x61]] := rfl
  have hid : inserted (b.encode (hex b (filled clientIdSize 1).val)) uuidLineIndex
      (lines (unlines [[0x61]])) = [[0x61], b.encode (hex b (filled clientIdSize 1).val)] := rfl
  unfold stoppedFile ConfigManager.setClientsUuid ConfigManager.isRegistered ConfigManager.start
    ConfigManager.createRegistrationFile
  dsimp only
  rw [writeAtLine_some, writeAtLine_some, hlines, hid, RegisteredRestart.encode_hexId hb]
  simp

theorem not_sound_stopped : ¬∀ (b : TextLibrary) (file : Option Bytes) (opens : Bool)
    (name : Bytes), b.Lawful → opens = true → Sound b file opens name := by
  intro h
  have hb := standard_lawful
  have hsound := h .standard (stoppedFile .standard) true [0x61] hb rfl
  have hid := RegisteredRestart.text_plain hb (hex .standard (filled clientIdSize 1).val)
  rw [stoppedFile_eq hb] at hsound
  have hfields : fields .standard ([0x61] ++ newline ::
      (TextLibrary.standard.text (hex .standard (filled clientIdSize 1).val) ++
        newline :: [newline])) =
      ⟨[0x61], TextLibrary.standard.text (hex .standard (filled clientIdSize 1).val),
        [newline]⟩ := by
    unfold fields
    rw [InStream.getline_append (by decide)]
    dsimp only
    rw [InStream.getline_append hid.1]
    rfl
  rw [sound_opened, hfields] at hsound
  refine (hsound (by decide) ⟨RegisteredRestart.idLine_ne_nil hb _, ?_⟩).2.2 (by decide)
  rw [hid.2, Base64.Codec.decode_text hb.codec, unhex_hex hb]
  rfl

end Registrations

end ClientIdentity
