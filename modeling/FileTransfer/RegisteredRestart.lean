import FileTransfer.ClientConfig

/-! # Restarts after a registration

What the next start reads from the file that a registration wrote. -/
namespace RegisteredRestart

open ByteField ServerProtocol ClientChannel ClientLogic LineStream Base64 ClientConfig

section Definitions

variable (b : TextLibrary)

def Accepted (name : Bytes) : Prop :=
  name ≠ [] ∧ ∃ line, newline ∉ line ∧ getClientName b line = some name

variable (file : Option Bytes) (name : Bytes) (id : ClientId) (key : Bytes)

/-- The client that starts with this file, registers, and is told its id. -/
def registered : ConfigManager :=
  ((ConfigManager.start file name).isRegistered b).2.setClientId b emptyId key id

/-- The next start knows the registration, whatever `transfer.info` names then. -/
def Survives (next : Bytes) : Prop :=
  let c := (ConfigManager.start (registered b file name id key).file next).isRegistered b
  c.1 = true ∧ c.2.clientInfo = ⟨name, id.val, key⟩

/-- What stands in the first two lines, the only line twice. -/
def front (text : Bytes) : List Bytes := kept (upTo 1 (lines text))

def behind (text : Bytes) : List Bytes := kept ((lines text).drop 2)

/-- The digits of these lines fill no byte behind those of the key. -/
def FillsNothing (more : List Bytes) : Prop :=
  digitCount (unlines more) = 0 ∨ digitCount (unlines more) = 1 ∧ 3 ∣ key.length

def Restores : Prop :=
  match file with
  | none => True
  | some text =>
    (∃ line, front text = [line] ∧ b.trim line = name ∧ FillsNothing key (behind text)) ∨
      -- the name itself is the text of the id, and the id stands behind two empty lines
      front text = [] ∧ name = b.text (hex b id.val) ∧ ∃ line more, behind text = line :: more ∧
        unhex b (b.decode (b.trim line)) = id.val ∧ FillsNothing key more

end Definitions

section Files

variable {b : TextLibrary} {text line name key : Bytes} {id : ClientId}

theorem mem_front {l : Bytes} (h : l ∈ front text) : newline ∉ l ∧ l ≠ [] := by
  obtain ⟨hmem, hne⟩ := mem_kept.mp h
  exact ⟨mem_lines (mem_upTo hmem), hne⟩

theorem mem_behind {l : Bytes} (h : l ∈ behind text) : newline ∉ l ∧ l ≠ [] := by
  obtain ⟨hmem, hne⟩ := mem_kept.mp h
  exact ⟨mem_lines (List.mem_of_mem_drop hmem), hne⟩

theorem length_front_le (text : Bytes) : (front text).length ≤ 2 :=
  (List.length_filter_le ..).trans (length_upTo_le 1 (lines text))

theorem space_noDigit : ∀ c : UInt8, isSpace c = true → isDigit c = false :=
  byte_forall (by decide +kernel)

theorem digit_plain {c : UInt8} (h : isDigit c = true ∨ c = pad) :
    c ≠ newline ∧ isSpace c = false := by
  rcases h with hdigit | rfl
  · constructor
    · rintro rfl
      exact nomatch isDigit_newline.symm.trans hdigit
    · rw [← Bool.not_eq_true]
      intro hspace
      exact nomatch (space_noDigit c hspace).symm.trans hdigit
  · decide

theorem decode_trim (hb : b.Lawful) (s : Bytes) : b.decode (b.trim s) = b.decode s :=
  Codec.decode_congr hb.codec (filter_trim hb space_noDigit s)

theorem text_plain (hb : b.Lawful) (data : Bytes) :
    newline ∉ b.text data ∧ b.trim (b.text data) = b.text data := by
  constructor
  · intro h
    exact (digit_plain (Codec.mem_text hb.codec h)).1 rfl
  · apply trim_eq_self hb
    intro c hc
    exact (digit_plain (Codec.mem_text hb.codec hc)).2

theorem text_ne_nil (hb : b.Lawful) {data : Bytes} (hne : data ≠ []) : b.text data ≠ [] := by
  apply List.ne_nil_of_length_pos
  have hpos := List.length_pos_of_ne_nil hne
  rw [Codec.length_text hb.codec]
  omega

theorem length_hexId (hb : b.Lawful) (id : ClientId) : (hex b id.val).length = 32 := by
  rw [length_hex hb, id.property]
  rfl

theorem hexId_ne_nil (hb : b.Lawful) (id : ClientId) : hex b id.val ≠ [] := by
  apply List.ne_nil_of_length_pos
  rw [length_hexId hb]
  decide

theorem encode_hexId (hb : b.Lawful) (id : ClientId) :
    b.encode (hex b id.val) = b.text (hex b id.val) ++ [newline] := by
  apply Codec.encode_short hb.codec
  rw [length_hexId hb]
  decide

theorem lines_withId (hb : b.Lawful) (text : Bytes) (id : ClientId) :
    lines (unlines (inserted (b.encode (hex b id.val)) uuidLineIndex (lines text))) =
      front text ++ b.text (hex b id.val) :: [] :: (behind text ++ [[]]) := by
  have hunlines : unlines (inserted (b.encode (hex b id.val)) uuidLineIndex (lines text)) =
      unlines (front text ++ b.text (hex b id.val) :: [] :: behind text) := by
    rw [encode_hexId hb]
    unfold inserted
    simp only [unlines_append, unlines_cons, List.append_assoc, List.singleton_append,
      List.nil_append]
    rfl
  rw [hunlines, lines_unlines]
  · simp
  · intro l hl
    simp only [List.mem_append, List.mem_cons] at hl
    rcases hl with hfront | rfl | rfl | hbehind
    · exact (mem_front hfront).1
    · exact (text_plain hb _).1
    · exact List.not_mem_nil
    · exact (mem_behind hbehind).1

def written (b : TextLibrary) (text : Bytes) (id : ClientId) (key : Bytes) : Bytes :=
  unlines (inserted (b.encode key) rsaKeyLineIndex
    (front text ++ b.text (hex b id.val) :: [] :: (behind text ++ [[]])))

theorem setClientId_file (hb : b.Lawful) {c : ConfigManager} (h : c.file = some text)
    (id : ClientId) (key : Bytes) :
    (c.setClientId b emptyId key id).file = some (written b text id key) := by
  unfold ConfigManager.setClientId
  rw [if_pos (by decide)]
  unfold ConfigManager.setClientsPrivateKey ConfigManager.setClientsUuid
  dsimp only
  rw [h, writeAtLine_some, writeAtLine_some, lines_withId hb, written]

theorem registered_file (hb : b.Lawful) (text name : Bytes) (id : ClientId) (key : Bytes) :
    (registered b (some text) name id key).file = some (written b text id key) :=
  setClientId_file hb (ConfigManager.isRegistered_file rfl) id key

theorem registered_none (hb : b.Lawful) (name : Bytes) (id : ClientId) (key : Bytes) :
    (registered b none name id key).file = some (written b (name ++ [newline]) id key) := by
  apply setClientId_file hb
  have hlines : inserted name nameLineIndex (lines []) = [name] := rfl
  unfold ConfigManager.isRegistered ConfigManager.start ConfigManager.createRegistrationFile
  dsimp only
  rw [writeAtLine_some, hlines, unlines_cons, unlines_nil]

theorem inserted_key (content x y z : Bytes) (ls : List Bytes) :
    inserted content rsaKeyLineIndex (x :: y :: z :: ls) = kept [x, y, z] ++ content :: kept ls :=
  rfl

theorem kept_behind (text : Bytes) : kept (behind text ++ [[]]) = behind text := by
  rw [kept_append, behind, kept_kept]
  exact List.append_nil _

theorem kept_single (hne : line ≠ []) : kept [line] = [line] := by
  cases line with
  | nil => exact absurd rfl hne
  | cons c line => rfl

theorem idLine_ne_nil (hb : b.Lawful) (id : ClientId) : b.text (hex b id.val) ≠ [] :=
  text_ne_nil hb (hexId_ne_nil hb id)

theorem written_one (hb : b.Lawful) (h : front text = [line]) : written b text id key =
    line ++ newline :: (b.text (hex b id.val) ++ newline ::
      (b.encode key ++ newline :: unlines (behind text))) := by
  have hline : line ≠ [] := (mem_front (h ▸ List.mem_singleton_self line)).2
  unfold written
  rw [h, List.singleton_append, inserted_key, kept_cons, kept_cons (b.text _), kept_single hline,
    kept_single (idLine_ne_nil hb id), kept_behind]
  simp [kept]

theorem written_two (hb : b.Lawful) {line' : Bytes} (h : front text = [line, line']) :
    written b text id key =
      line ++ newline :: (line' ++ newline :: (b.text (hex b id.val) ++ newline ::
        (b.encode key ++ newline :: unlines (behind text)))) := by
  have hline : line ≠ [] := (mem_front (h ▸ List.mem_cons_self)).2
  have hline' : line' ≠ [] := (mem_front (h ▸ List.mem_cons_of_mem line List.mem_cons_self)).2
  unfold written
  rw [h, List.cons_append, List.singleton_append, inserted_key, kept_cons, kept_cons line',
    kept_single hline, kept_single hline', kept_single (idLine_ne_nil hb id),
    kept_cons [], kept_behind]
  simp [kept]

theorem written_none (hb : b.Lawful) (h : front text = []) (hbehind : behind text = []) :
    written b text id key =
      b.text (hex b id.val) ++ newline :: (b.encode key ++ [newline]) := by
  unfold written
  rw [h, hbehind, List.nil_append, List.nil_append, inserted_key, kept_cons,
    kept_single (idLine_ne_nil hb id)]
  simp [kept]

theorem written_behind (hb : b.Lawful) {more : List Bytes} (h : front text = [])
    (hbehind : behind text = line :: more) : written b text id key =
      b.text (hex b id.val) ++ newline :: (line ++ newline ::
        (b.encode key ++ newline :: unlines more)) := by
  have hline : line ≠ [] := (mem_behind (hbehind ▸ List.mem_cons_self)).2
  have hmore : kept more = more := by
    have hkept : kept (line :: more) = line :: more := by
      rw [← hbehind, behind, kept_kept]
    rw [kept_cons, kept_single hline] at hkept
    exact List.cons.inj hkept |>.2
  unfold written
  rw [h, hbehind, List.nil_append, List.cons_append, inserted_key, kept_append, hmore, kept_cons,
    kept_cons [], kept_single hline, kept_single (idLine_ne_nil hb id)]
  simp [kept]

end Files

section Restarts

variable {b : TextLibrary} {c : ConfigManager} {text x y name next key : Bytes} {id : ClientId}
  {more : List Bytes}

theorem accepted_spec (hb : b.Lawful) (h : Accepted b name) :
    newline ∉ name ∧ b.trim name = name ∧ name.length < clientMaxName := by
  obtain ⟨-, line, hline, htaken⟩ := h
  unfold getClientName at htaken
  split_ifs at htaken with hempty hlong
  cases htaken
  refine ⟨?_, trim_trim hb line, lt_of_not_ge hlong⟩
  intro hmem
  exact hline (mem_of_mem_trim hb hmem)

theorem digitCount_newline (rest : Bytes) : digitCount (newline :: rest) = digitCount rest :=
  List.countP_cons_of_neg (by simp [isDigit_newline])

theorem reads_key (hb : b.Lawful) (key : Bytes) (more : List Bytes) :
    b.decode (b.trim (b.encode key ++ newline :: unlines more)) = key ↔ FillsNothing key more := by
  rw [decode_trim hb, Codec.decode_append_iff hb.codec, digitCount_newline]
  rfl

theorem reads_iff (hb : b.Lawful) (hname : Accepted b name)
    (hfile : c.file =
      some (x ++ newline :: (y ++ newline :: (b.encode key ++ newline :: unlines more))))
    (hx : newline ∉ x ∧ x ≠ []) (hy : newline ∉ y ∧ y ≠ []) :
    (c.isRegistered b).1 = true ∧ (c.isRegistered b).2.clientInfo = ⟨name, id.val, key⟩ ↔
      b.trim x = name ∧ unhex b (b.decode (b.trim y)) = id.val ∧ FillsNothing key more := by
  rw [ConfigManager.isRegistered_iff hfile hx.1 hy.1]
  dsimp only
  rw [reads_key hb]
  constructor
  · rintro ⟨⟨-, -, hsame⟩, ⟨-, -, hid⟩, -, hfills⟩
    exact ⟨hsame, hid, hfills⟩
  · rintro ⟨rfl, hid, hfills⟩
    obtain ⟨-, -, hlength⟩ := accepted_spec hb hname
    exact ⟨⟨hx.2, hlength.le, rfl⟩, ⟨hy.2, id.property, hid⟩, by simp, hfills⟩

theorem restarted_file (hb : b.Lawful) (text name : Bytes) (id : ClientId) (key next : Bytes) :
    (ConfigManager.start (registered b (some text) name id key).file next).file =
      some (written b text id key) := registered_file hb text name id key

theorem survives_one (hb : b.Lawful) (hname : Accepted b name) (h : front text = [x]) :
    Survives b (some text) name id key next ↔ b.trim x = name ∧ FillsNothing key (behind text) := by
  obtain ⟨hplain, htrim⟩ := text_plain hb (hex b id.val)
  have hfile := restarted_file hb text name id key next
  rw [written_one hb h] at hfile
  unfold Survives
  dsimp only
  rw [reads_iff hb hname hfile (mem_front (h ▸ List.mem_singleton_self x))
    ⟨hplain, idLine_ne_nil hb id⟩, htrim, Codec.decode_text hb.codec, unhex_hex hb]
  simp

theorem survives_behind (hb : b.Lawful) (hname : Accepted b name) (h : front text = [])
    (hbehind : behind text = y :: more) : Survives b (some text) name id key next ↔
      name = b.text (hex b id.val) ∧ unhex b (b.decode (b.trim y)) = id.val ∧
        FillsNothing key more := by
  obtain ⟨hplain, htrim⟩ := text_plain hb (hex b id.val)
  have hfile := restarted_file hb text name id key next
  rw [written_behind hb h hbehind] at hfile
  unfold Survives
  dsimp only
  rw [reads_iff hb hname hfile ⟨hplain, idLine_ne_nil hb id⟩
    (mem_behind (hbehind ▸ List.mem_cons_self)), htrim, @eq_comm _ name]

/-- Where nothing is in front of the id, a line of the key is read for the id, and is missing
in the key. -/
theorem not_survives_none (hb : b.Lawful) (hkey : key ≠ []) (h : front text = [])
    (hbehind : behind text = []) : ¬Survives b (some text) name id key next := by
  obtain ⟨line, rest, hline, hplain, hdigits⟩ := Codec.encode_line hb.codec hkey
  have hfile := restarted_file hb text name id key next
  rw [written_none hb h hbehind, hline, List.append_assoc, List.cons_append] at hfile
  have hno : newline ∉ line := fun hmem => (digit_plain (hplain _ hmem)).1 rfl
  intro hsurvives
  obtain ⟨-, -, -, hread⟩ := (ConfigManager.isRegistered_iff hfile (text_plain hb _).1 hno _).mp
    hsurvives
  rw [decode_trim hb] at hread
  have hshort : 6 * digitCount (rest ++ [newline]) / 8 ≠ key.length := by
    have hpos := List.length_pos_of_ne_nil hkey
    have hnone : digitCount [] = 0 := rfl
    rw [digitCount_append, digitCount_newline, hnone]
    omega
  exact Codec.ne_decode hb.codec hshort hread

/-- Where two lines are in front of the id, it is read for a part of the key. -/
theorem not_survives_two (hb : b.Lawful) (h : front text = [x, y]) :
    ¬Survives b (some text) name id key next := by
  have hfile := restarted_file hb text name id key next
  rw [written_two hb h] at hfile
  have hx := mem_front (h ▸ List.mem_cons_self : x ∈ front text)
  have hy := mem_front (h ▸ List.mem_cons_of_mem x List.mem_cons_self : y ∈ front text)
  intro hsurvives
  obtain ⟨-, -, -, hread⟩ := (ConfigManager.isRegistered_iff hfile hx.1 hy.1 _).mp hsurvives
  rw [decode_trim hb] at hread
  have hlong : 6 * digitCount (b.text (hex b id.val) ++ newline ::
      (b.encode key ++ newline :: unlines (behind text))) / 8 ≠ key.length := by
    rw [digitCount_append, digitCount_newline, digitCount_append, Codec.digitCount_text hb.codec,
      length_hexId hb, Codec.digitCount_encode hb.codec]
    omega
  exact Codec.ne_decode hb.codec hlong hread

theorem survives_none (hb : b.Lawful) (hname : Accepted b name) :
    Survives b none name id key next := by
  have hsame : Survives b none name id key next ↔
      Survives b (some (name ++ [newline])) name id key next := by
    unfold Survives
    rw [registered_none hb, registered_file hb]
  obtain ⟨hplain, htrim, -⟩ := accepted_spec hb hname
  have hlines : lines (name ++ [newline]) = [name, []] := lines_append hplain []
  have hfront : front (name ++ [newline]) = [name] := by
    have hupTo : upTo 1 [name, []] = [name, []] := rfl
    rw [front, hlines, hupTo, kept_cons, kept_single hname.1]
    rfl
  have hbehind : behind (name ++ [newline]) = [] := by
    rw [behind, hlines]
    rfl
  rw [hsame, survives_one hb hname hfront, hbehind]
  exact ⟨htrim, .inl rfl⟩

/-- A registration survives in a file that is not there, or that has the name in front. -/
theorem survives_iff (hb : b.Lawful) (hname : Accepted b name) (hkey : key ≠ [])
    (file : Option Bytes) (id : ClientId) (next : Bytes) :
    Survives b file name id key next ↔ Restores b file name id key := by
  cases file with
  | none => exact iff_of_true (survives_none hb hname) trivial
  | some text =>
    unfold Restores
    dsimp only
    have hlength := length_front_le text
    rcases hfront : front text with _ | ⟨x, _ | ⟨y, _ | ⟨z, ls⟩⟩⟩
    · rcases hbehind : behind text with _ | ⟨y, more⟩
      · refine iff_of_false (not_survives_none hb hkey hfront hbehind) ?_
        simp
      · rw [survives_behind hb hname hfront hbehind]
        simp
    · rw [survives_one hb hname hfront]
      simp
    · refine iff_of_false (not_survives_two hb hfront) ?_
      simp
    · rw [hfront] at hlength
      simp at hlength

theorem survives_iff_stopped :
    Survives .standard (some [0x61, newline]) [0x61] (filled clientIdSize 1) [1, 2, 3] [0x62] := by
  have hname : Accepted TextLibrary.standard [0x61] := ⟨by decide, [0x61], by decide, by decide⟩
  apply (survives_iff standard_lawful hname (by decide) _ _ _).mpr
  exact .inl ⟨[0x61], by decide, by decide, .inl (by decide)⟩

/-- The name is never written to a file that is there and empty. -/
theorem not_survives_empty : ¬∀ (b : TextLibrary) (file : Option Bytes) (name : Bytes)
    (id : ClientId) (key next : Bytes), b.Lawful →
    ((ConfigManager.start file name).isRegistered b).1 = false → Accepted b name →
    id ≠ emptyId → key ≠ [] → Survives b file name id key next := by
  intro h
  have hname : Accepted TextLibrary.standard [0x61] := ⟨by decide, [0x61], by decide, by decide⟩
  have hsurvives := h .standard (some []) [0x61] (filled clientIdSize 1) [1, 2, 3] [0x61]
    standard_lawful (by decide) hname (by decide) (by decide)
  exact not_survives_none standard_lawful (by decide) (by decide) (by decide) hsurvives

end Restarts

end RegisteredRestart
