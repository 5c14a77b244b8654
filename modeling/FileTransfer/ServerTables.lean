import FileTransfer.ServerProtocol
import Mathlib.Data.List.Nodup

/-! # The tables of the server database

The schema of `Database.initialize` and the SQL statements of `database.py`, each as the
result and the tables after it. `none` is a statement that a constraint rejects. -/
namespace ServerTables

open ByteField ServerProtocol

structure ClientRow where
  id : ClientId
  name : Text
  publicKey : Option Bytes
  lastSeen : ℕ
  aesKey : Option Bytes
  deriving DecidableEq

structure FileRow where
  id : ClientId
  fileName : Text
  pathName : Text
  varified : Bool
  deriving DecidableEq

/-- The two tables with their primary keys. -/
structure Tables where
  server : List ClientRow
  files : List FileRow
  serverKey : (server.map (·.id)).Nodup
  filesKey : (files.map (·.fileName)).Nodup

/-- `Database.initialize` on a new database. -/
def Tables.empty : Tables := ⟨[], [], by simp, by simp⟩

section Statements

def selectClients (p : ClientRow → Bool) (db : Tables) : Option (List ClientRow × Tables) :=
  some (db.server.filter p, db)

def selectFiles (p : FileRow → Bool) (db : Tables) : Option (List FileRow × Tables) :=
  some (db.files.filter p, db)

theorem map_updated {α β : Type} (key : α → β) (p : α → Bool) (f : α → α)
    (hf : ∀ row, key (f row) = key row) (rows : List α) :
    (rows.map fun row => if p row then f row else row).map key = rows.map key := by
  rw [List.map_map]
  apply List.map_congr_left
  intro row _
  dsimp only [Function.comp]
  split
  · exact hf row
  · rfl

def Tables.updateClients (db : Tables) (p : ClientRow → Bool) (f : ClientRow → ClientRow)
    (hf : ∀ row, (f row).id = row.id) : Tables :=
  { db with
    server := db.server.map fun row => if p row then f row else row
    serverKey := by
      rw [map_updated (·.id) p f hf]
      exact db.serverKey }

def updateClients (p : ClientRow → Bool) (f : ClientRow → ClientRow)
    (hf : ∀ row, (f row).id = row.id := by exact fun _ => rfl) (db : Tables) :
    Option (Unit × Tables) :=
  some ((), db.updateClients p f hf)

def Tables.setVarified (db : Tables) (id : ClientId) (fileName : Text) (varified : Bool) :
    Tables :=
  { db with
    files := db.files.map fun row =>
      if row.fileName = fileName && row.id = id then { row with varified } else row
    filesKey := by
      have h := map_updated (·.fileName) (fun row => row.fileName = fileName && row.id = id)
        (fun row => { row with varified }) (fun _ => rfl) db.files
      rw [h]
      exact db.filesKey }

def updateVarified (id : ClientId) (fileName : Text) (varified : Bool) (db : Tables) :
    Option (Unit × Tables) :=
  some ((), db.setVarified id fileName varified)

theorem nodup_map_snoc {α β : Type} {f : α → β} {rows : List α} {row : α}
    (h : (rows.map f).Nodup) (hnew : ∀ r ∈ rows, f r ≠ f row) :
    ((rows ++ [row]).map f).Nodup := by
  rw [List.map_append, List.nodup_append]
  refine ⟨h, by simp, ?_⟩
  rintro _ ha _ hb rfl
  obtain ⟨r, hr, hfr⟩ := List.mem_map.mp ha
  simp only [List.map_cons, List.map_nil, List.mem_singleton] at hb
  exact hnew r hr (hfr.trans hb)

/-- `ID` is the primary key of `server`. -/
def insertClient (row : ClientRow) (db : Tables) : Option (Unit × Tables) :=
  if h : ∀ r ∈ db.server, r.id ≠ row.id then
    some ((), { db with
      server := db.server ++ [row], serverKey := nodup_map_snoc db.serverKey h })
  else none

/-- `FileName` alone is the primary key of `files`. -/
def insertFile (row : FileRow) (db : Tables) : Option (Unit × Tables) :=
  if h : ∀ r ∈ db.files, r.fileName ≠ row.fileName then
    some ((), { db with files := db.files ++ [row], filesKey := nodup_map_snoc db.filesKey h })
  else none

def isSpace (b : UInt8) : Bool := b = 0x20 || (0x09 ≤ b && b ≤ 0x0D)
def isDigit (b : UInt8) : Bool := 0x30 ≤ b && b ≤ 0x39

def decimal (digits : Bytes) : ℕ := digits.foldl (fun n d => 10 * n + (d.toNat - 0x30)) 0

def signed : Bytes → Bool × Bytes
  | 0x2B :: rest => (false, rest)
  | 0x2D :: rest => (true, rest)
  | text => (false, text)

/-- SQLite's truth value of a blob: the real number at its front is not zero. A number
rounds to zero from half the least positive double on. -/
def sqlTruth (blob : Bytes) : Bool :=
  let body := (signed (blob.dropWhile isSpace)).2
  let whole := body.takeWhile isDigit
  let (fraction, rest) := match body.dropWhile isDigit with
    | 0x2E :: rest => (rest.takeWhile isDigit, rest.dropWhile isDigit)
    | rest => ([], rest)
  let (negative, power) := match rest with
    | 0x65 :: rest => signed rest
    | 0x45 :: rest => signed rest
    | _ => (false, [])
  let power := min (decimal (power.takeWhile isDigit)) 10000
  let mantissa := decimal (whole ++ fraction)
  if negative then 10 ^ (fraction.length + power) < mantissa * 2 ^ 1075
  else 10 ^ fraction.length < mantissa * 10 ^ power * 2 ^ 1075

/-- The argument of `touch`, bound as a blob or as a text. -/
inductive NameOrId where
  | id (clientId : ClientId)
  | name (text : Text)

/-- `ID OR NAME = ?`: `=` binds tighter, and a text never equals a blob. -/
def touched (nameOrId : NameOrId) (row : ClientRow) : Bool :=
  sqlTruth row.id.val || match nameOrId with
    | .id _ => false
    | .name text => row.name = text

end Statements

section Lookups

def Tables.clientRow (db : Tables) (id : ClientId) : Option ClientRow :=
  db.server.find? fun row => row.id = id

def Tables.hasClient (db : Tables) (id : ClientId) : Bool := db.server.any fun row => row.id = id

def Tables.hasName (db : Tables) (name : Text) : Bool := db.server.any fun row => row.name = name

def Tables.hasFile (db : Tables) (id : ClientId) (fileName : Text) : Bool :=
  db.files.any fun row => row.id = id && row.fileName = fileName

def Tables.isVarified (db : Tables) (id : ClientId) (fileName : Text) : Bool :=
  db.files.any fun row => row.id = id && row.fileName = fileName && row.varified

/-- Some row, of whatever client, has the primary key `fileName`. -/
def Tables.fileNameTaken (db : Tables) (fileName : Text) : Bool :=
  db.files.any fun row => row.fileName = fileName

variable {db : Tables} {id : ClientId} {fileName : Text}

theorem hasClient_iff : db.hasClient id = true ↔ ∃ row, db.clientRow id = some row := by
  rw [Tables.hasClient, Tables.clientRow, ← Option.isSome_iff_exists, List.find?_isSome,
    List.any_eq_true]

theorem hasFile_iff :
    db.hasFile id fileName = true ↔ ∃ row ∈ db.files, row.id = id ∧ row.fileName = fileName := by
  simp [Tables.hasFile]

theorem fileNameTaken_iff :
    db.fileNameTaken fileName = true ↔ ∃ row ∈ db.files, row.fileName = fileName := by
  simp [Tables.fileNameTaken]

/-- The primary key of `files` is shared by all clients. -/
theorem owner_unique {id' : ClientId} (h : db.hasFile id fileName = true)
    (h' : db.hasFile id' fileName = true) : id = id' := by
  obtain ⟨row, hrow, rfl, hname⟩ := hasFile_iff.mp h
  obtain ⟨row', hrow', rfl, hname'⟩ := hasFile_iff.mp h'
  rw [List.inj_on_of_nodup_map db.filesKey hrow hrow' (hname.trans hname'.symm)]

theorem fileNameTaken_of_hasFile (h : db.hasFile id fileName = true) :
    db.fileNameTaken fileName = true := by
  obtain ⟨row, hrow, -, hname⟩ := hasFile_iff.mp h
  exact fileNameTaken_iff.mpr ⟨row, hrow, hname⟩

theorem insertFile_eq_none {row : FileRow} :
    insertFile row db = none ↔ db.fileNameTaken row.fileName = true := by
  rw [fileNameTaken_iff, insertFile]
  split
  · next h => simpa using h
  · next h => simpa using h

theorem insertFile_eq_some {row : FileRow} (h : db.fileNameTaken row.fileName = false) :
    ∃ db', insertFile row db = some ((), db') ∧ db'.server = db.server ∧
      db'.files = db.files ++ [row] := by
  have hnew : ∀ r ∈ db.files, r.fileName ≠ row.fileName := by
    simpa [Tables.fileNameTaken] using h
  rw [insertFile, dif_pos hnew]
  exact ⟨_, rfl, rfl, rfl⟩

@[simp] theorem updateClients_files (p : ClientRow → Bool) (f : ClientRow → ClientRow)
    (hf : ∀ row, (f row).id = row.id) : (db.updateClients p f hf).files = db.files := rfl

@[simp] theorem setVarified_server (varified : Bool) :
    (db.setVarified id fileName varified).server = db.server := rfl

@[simp] theorem hasClient_updateClients (p : ClientRow → Bool) (f : ClientRow → ClientRow)
    (hf : ∀ row, (f row).id = row.id) :
    (db.updateClients p f hf).hasClient id = db.hasClient id := by
  simp only [Tables.hasClient, Tables.updateClients, List.any_map]
  congr 1
  funext row
  dsimp only [Function.comp]
  split
  · rw [hf]
  · rfl

theorem clientRow_update (p : ClientRow → Bool) (f : ClientRow → ClientRow)
    (hf : ∀ row, (f row).id = row.id) :
    (db.updateClients p f hf).clientRow id =
      (db.clientRow id).map fun row => if p row then f row else row := by
  have hmatch : (fun row : ClientRow => decide (row.id = id)) ∘
      (fun row => if p row = true then f row else row) = fun row => decide (row.id = id) := by
    funext row
    dsimp only [Function.comp]
    split
    · rw [hf]
    · rfl
  rw [Tables.clientRow, Tables.updateClients, List.find?_map, hmatch]
  rfl

theorem clientRow_updateClients (f : ClientRow → ClientRow) (hf : ∀ row, (f row).id = row.id) :
    (db.updateClients (fun row => row.id = id) f hf).clientRow id = (db.clientRow id).map f := by
  rw [clientRow_update]
  refine Option.map_congr fun row hrow => ?_
  exact if_pos (List.find?_some hrow)

@[simp] theorem hasFile_updateClients (p : ClientRow → Bool) (f : ClientRow → ClientRow)
    (hf : ∀ row, (f row).id = row.id) :
    (db.updateClients p f hf).hasFile id fileName = db.hasFile id fileName := rfl

@[simp] theorem hasFile_setVarified (id' : ClientId) (fileName' : Text) (varified : Bool) :
    (db.setVarified id' fileName' varified).hasFile id fileName = db.hasFile id fileName := by
  simp only [Tables.hasFile, Tables.setVarified, List.any_map]
  congr 1
  funext row
  dsimp only [Function.comp]
  split <;> rfl

@[simp] theorem fileNameTaken_setVarified (id' : ClientId) (fileName' : Text)
    (varified : Bool) :
    (db.setVarified id' fileName' varified).fileNameTaken fileName = db.fileNameTaken fileName := by
  simp only [Tables.fileNameTaken, Tables.setVarified, List.any_map]
  congr 1
  funext row
  dsimp only [Function.comp]
  split <;> rfl

theorem isVarified_setVarified (id' : ClientId) (fileName' : Text)
    (h : db.hasFile id fileName = true) :
    (db.setVarified id' fileName' true).isVarified id fileName = true ↔
      db.isVarified id fileName = true ∨ id' = id ∧ fileName' = fileName := by
  obtain ⟨row, hrow, rfl, rfl⟩ := hasFile_iff.mp h
  constructor
  · intro hv
    simp only [Tables.isVarified, Tables.setVarified, List.any_map, List.any_eq_true,
      Function.comp_apply, Bool.and_eq_true, decide_eq_true_eq] at hv
    obtain ⟨row', hmem, ⟨hid, hname⟩, hmark⟩ := hv
    split at hid
    · next hmatch =>
      exact .inr ⟨hmatch.2.symm.trans hid, hmatch.1.symm.trans (by simpa [hmatch] using hname)⟩
    · next hmatch =>
      rw [if_neg hmatch] at hname hmark
      exact .inl (by simpa [Tables.isVarified] using ⟨row', hmem, ⟨hid, hname⟩, hmark⟩)
  · intro hv
    simp only [Tables.isVarified, Tables.setVarified, List.any_map, List.any_eq_true,
      Function.comp_apply, Bool.and_eq_true, decide_eq_true_eq] at hv ⊢
    rcases hv with ⟨row', hmem, ⟨hid, hname⟩, hmark⟩ | ⟨rfl, rfl⟩
    · refine ⟨row', hmem, ?_⟩
      split <;> exact ⟨⟨hid, hname⟩, by simp [hmark]⟩
    · exact ⟨row, hrow, by simp⟩

end Lookups

end ServerTables
