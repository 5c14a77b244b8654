import FileTransfer.ServerFiles

/-! # The database

`database.py`: every statement is a session of its own and goes through `execute`, whose
callers treat `None` each in their own way. -/
namespace ServerDatabase

open ByteField ServerProtocol ServerTables ServerState ServerFiles RaisingProgram
open PathWalk (render)

variable (crypto : PyCrypto) (env : Env)

def noRows {α : Type} (results : Option (List α)) : Bool :=
  match results with
  | none => true
  | some rows => rows.isEmpty

def touch (nameOrId : NameOrId) : ServerM Unit :=
  Prog.attempt (do
    let _ ← execute (updateClients (touched nameOrId) fun row => { row with lastSeen := env.now })
    return ())
    fun _ => return ()

def addClient (name : Text) : ServerM (Option ClientRow) := do
  let client : ClientRow :=
    { id := env.uuid, name, publicKey := none, lastSeen := env.now, aesKey := none }
  match ← execute (insertClient client) with
  | some () => return some client
  | none => return none

def fileExists (clientId : ClientId) (fileName : Text) : ServerM Bool :=
  Prog.attempt (do
    let results ← execute (selectFiles fun row => row.id = clientId && row.fileName = fileName)
    if noRows results then return false else return true)
    fun _ => return false

def clientExists (clientId : ClientId) : ServerM Bool :=
  Prog.attempt (do
    let results ← execute (selectClients fun row => row.id = clientId)
    if noRows results then return false else return true)
    fun _ => return false

def clientUsernameExists (clientsName : Text) : ServerM Bool :=
  Prog.attempt (do
    let results ← execute (selectClients fun row => row.name = clientsName)
    if noRows results then return false else return true)
    fun _ => return false

/-- `updateVerification`. The result of the UPDATE is dropped. -/
def updateVerification (clientId : ClientId) (fileName : Text) (verified : Bool) : ServerM Bool :=
  Prog.attempt (do
    if ← fileExists clientId fileName then
      touch env (.id clientId)
      let file := getFileInstance (← Prog.read).world clientId fileName
      let _ ← setVerified env file verified
      match file with
      | none => Prog.raise .attributeError
      | some file =>
        let _commited ← execute (updateVarified file.clientId file.filename verified)
        return true
    else return false)
    fun _ => return false

def getFile (clientId : ClientId) (fileName : Text) : ServerM (Option File) :=
  Prog.attempt (do
    if ← fileExists clientId fileName then
      return getFileInstance (← Prog.read).world clientId fileName
    else return none)
    fun _ => return none

def storeFileinDB (clientId : ClientId) (fileName : Text) (newContent : Option Bytes) :
    ServerM (Option File) :=
  Prog.attempt (do
    let file ← newFile crypto env clientId fileName newContent
    if ← fileExists clientId fileName then
      match ← execute (updateVarified file.clientId file.filename false) with
      | some () =>
        touch env (.id clientId)
        return some file
      | none => return none
    else
      let file ← newFile crypto env clientId fileName newContent
      let row : FileRow :=
        { id := file.clientId, fileName := file.filename, pathName := file.parentPath
          varified := false }
      match ← execute (insertFile row) with
      | some () =>
        touch env (.id clientId)
        return some file
      | none => return none)
    fun _ => return none

/-- The size test of `setClientsPublicKey` passes for every 160-byte field. -/
def setClientsPublicKey (clientID : ClientId) (publicKey : Field publicKeySize) :
    ServerM (Option Unit) := do
  if publicKey.val.length ≠ publicKeySize then return none
  else
    touch env (.id clientID)
    execute (updateClients (fun row => row.id = clientID)
      fun row => { row with publicKey := some publicKey.val })

def getClientNameById (clientId : ClientId) : ServerM (Option Text) :=
  Prog.attempt (do
    match ← execute (selectClients fun row => row.id = clientId) with
    | some (row :: _) => return some row.name
    | _ => return none)
    fun _ => return none

theorem sessionKey_id (env : Env) (row : ClientRow) :
    ({ row with aesKey := some env.aesKey.val } : ClientRow).id = row.id := rfl

def setClientsSymmetricKey (clientID : ClientId) : ServerM (Option (Field symmetricKeySize)) := do
  let aesKey := env.aesKey
  match ← execute (updateClients (fun row => row.id = clientID)
      (fun row => { row with aesKey := some aesKey.val }) (sessionKey_id env)) with
  | some () => return some aesKey
  | none => return none

/-- `getClientsSymmetricKey` indexes the result of `execute` without a test. -/
def getClientsSymmetricKey (clientID : ClientId) : ServerM (Option Bytes) := do
  match ← execute (selectClients fun row => row.id = clientID) with
  | none => Prog.raise .typeError
  | some [] => Prog.raise .indexError
  | some (row :: _) => return row.aesKey

section Runs

variable {t : Turn} {clientId : ClientId} {fileName : Text}

theorem noRows_filter {α : Type} (p : α → Bool) (rows : List α) :
    noRows (some (rows.filter p)) = !rows.any p := by
  induction rows with
  | nil => rfl
  | cons row rows ih =>
    simp only [noRows, List.filter_cons, List.any_cons] at ih ⊢
    split <;> simp_all

theorem selectClients_run (p : ClientRow → Bool) (t : Turn) :
    (Prog.attempt (do
        let results ← execute (selectClients p)
        if noRows results then return false else return true)
      fun _ => return false : ServerM Bool).run t =
      (.value (t.next = .done && t.world.db.server.any p), t.pop) := by
  cases h : t.next with
  | done =>
    rw [Prog.run_attempt, Prog.run_bind, execute_done h rfl]
    dsimp only
    rw [noRows_filter]
    cases t.world.db.server.any p <;> rfl
  | fails =>
    rw [Prog.run_attempt, Prog.run_bind, execute_fails h]
    rfl
  | connectRaises =>
    rw [Prog.run_attempt, Prog.run_bind, execute_raises h]
    rfl

theorem clientExists_run (clientId : ClientId) (t : Turn) :
    (clientExists clientId).run t =
      (.value (t.next = .done && t.world.db.hasClient clientId), t.pop) :=
  selectClients_run _ t

theorem clientUsernameExists_run (name : Text) (t : Turn) :
    (clientUsernameExists name).run t =
      (.value (t.next = .done && t.world.db.hasName name), t.pop) :=
  selectClients_run _ t

theorem fileExists_run (clientId : ClientId) (fileName : Text) (t : Turn) :
    (fileExists clientId fileName).run t =
      (.value (t.next = .done && t.world.db.hasFile clientId fileName), t.pop) := by
  unfold fileExists
  cases h : t.next with
  | done =>
    rw [Prog.run_attempt, Prog.run_bind, execute_done h rfl]
    dsimp only
    rw [noRows_filter, Tables.hasFile]
    cases t.world.db.files.any _ <;> rfl
  | fails =>
    rw [Prog.run_attempt, Prog.run_bind, execute_fails h]
    rfl
  | connectRaises =>
    rw [Prog.run_attempt, Prog.run_bind, execute_raises h]
    rfl

theorem getFile_run (clientId : ClientId) (fileName : Text) (t : Turn) :
    (getFile clientId fileName).run t =
      (.value (if t.next = .done ∧ t.world.db.hasFile clientId fileName then
        getFileInstance t.world clientId fileName else none), t.pop) := by
  rw [getFile, Prog.run_attempt, Prog.run_bind, fileExists_run]
  by_cases h : t.next = .done <;> cases t.world.db.hasFile clientId fileName <;>
    simp [h, Prog.run_bind]

def touchedRows (nameOrId : NameOrId) (rows : List ClientRow) : List ClientRow :=
  rows.map fun row => if touched nameOrId row then { row with lastSeen := env.now } else row

def touchedTables (nameOrId : NameOrId) (db : Tables) : Tables :=
  db.updateClients (touched nameOrId) (fun row => { row with lastSeen := env.now }) fun _ => rfl

theorem touchedTables_hasClient (nameOrId : NameOrId) (db : Tables) (clientId : ClientId) :
    (touchedTables env nameOrId db).hasClient clientId = db.hasClient clientId := by
  rw [touchedTables, hasClient_updateClients]

/-- The turn after `touch`, which never raises. -/
def afterTouch (nameOrId : NameOrId) (t : Turn) : Turn :=
  t.pop.inWorld (if t.next = .done then
    { t.world with db := touchedTables env nameOrId t.world.db } else t.world)

theorem touch_run (nameOrId : NameOrId) (t : Turn) :
    (touch env nameOrId).run t = (.value (), afterTouch env nameOrId t) := by
  unfold touch afterTouch
  cases h : t.next with
  | done => rw [Prog.run_attempt, Prog.run_bind, execute_done h rfl]; rfl
  | fails => rw [Prog.run_attempt, Prog.run_bind, execute_fails h]; rfl
  | connectRaises => rw [Prog.run_attempt, Prog.run_bind, execute_raises h]; rfl

section AfterTouch

variable (n : NameOrId) (t : Turn)

@[simp] theorem afterTouch_sql (i : ℕ) : (afterTouch env n t).sql i = t.sql (i + 1) := rfl
@[simp] theorem afterTouch_next : (afterTouch env n t).next = t.sql 1 := rfl
@[simp] theorem afterTouch_sent : (afterTouch env n t).sent = t.sent := rfl
@[simp] theorem afterTouch_opened : (afterTouch env n t).opened = t.opened := rfl

@[simp] theorem afterTouch_fileDict :
    (afterTouch env n t).world.fileDict = t.world.fileDict := by
  unfold afterTouch; dsimp only [Turn.inWorld]; split <;> rfl

@[simp] theorem afterTouch_disk : (afterTouch env n t).world.disk = t.world.disk := by
  unfold afterTouch; dsimp only [Turn.inWorld]; split <;> rfl

@[simp] theorem afterTouch_cwd : (afterTouch env n t).world.cwd = t.world.cwd := by
  unfold afterTouch; dsimp only [Turn.inWorld]; split <;> rfl

@[simp] theorem afterTouch_srcDir : (afterTouch env n t).world.srcDir = t.world.srcDir := by
  unfold afterTouch; dsimp only [Turn.inWorld]; split <;> rfl

theorem afterTouch_server : (afterTouch env n t).world.db.server =
    if t.next = .done then touchedRows env n t.world.db.server else t.world.db.server := by
  unfold afterTouch; dsimp only [Turn.inWorld]; split <;> rfl

@[simp] theorem afterTouch_files : (afterTouch env n t).world.db.files = t.world.db.files := by
  unfold afterTouch; dsimp only [Turn.inWorld]; split <;> rfl

@[simp] theorem afterTouch_hasClient (clientId : ClientId) :
    (afterTouch env n t).world.db.hasClient clientId = t.world.db.hasClient clientId := by
  unfold afterTouch
  dsimp only [Turn.inWorld]
  split
  · exact touchedTables_hasClient ..
  · rfl

@[simp] theorem afterTouch_hasFile (clientId : ClientId) (fileName : Text) :
    (afterTouch env n t).world.db.hasFile clientId fileName =
      t.world.db.hasFile clientId fileName := by
  rw [Tables.hasFile, afterTouch_files, Tables.hasFile]

@[simp] theorem afterTouch_getFileInstance (clientId : ClientId) (fileName : Text) :
    getFileInstance (afterTouch env n t).world clientId fileName =
      getFileInstance t.world clientId fileName :=
  getFileInstance_congr (by simp) (by simp) (by simp)

end AfterTouch

theorem getClientsSymmetricKey_run {row : ClientRow} (h : t.next = .done)
    (hrow : t.world.db.clientRow clientId = some row) :
    (getClientsSymmetricKey clientId).run t = (.value row.aesKey, t.pop) := by
  have hhead : (t.world.db.server.filter fun row => row.id = clientId).head? = some row := by
    rw [List.head?_filter]
    exact hrow
  obtain ⟨rows, hrows⟩ := List.head?_eq_some_iff.mp hhead
  have hs : selectClients (fun row => row.id = clientId) t.world.db =
      some (row :: rows, t.world.db) := by
    rw [selectClients, hrows]
  rw [getClientsSymmetricKey, Prog.run_bind, execute_done h hs]
  rfl

theorem getClientsSymmetricKey_raises (clientId : ClientId) (h : t.next ≠ .done) :
    ∃ e, (getClientsSymmetricKey clientId).run t = (.raised e, t.pop) := by
  cases hn : t.next with
  | done => exact absurd hn h
  | fails =>
    refine ⟨.typeError, ?_⟩
    rw [getClientsSymmetricKey, Prog.run_bind, execute_fails hn]
    rfl
  | connectRaises =>
    refine ⟨.operationalError, ?_⟩
    rw [getClientsSymmetricKey, Prog.run_bind, execute_raises hn]

section Verification

theorem updateVerification_unknown
    (h : ¬(t.next = .done ∧ t.world.db.hasFile clientId fileName = true)) (varified : Bool) :
    (updateVerification env clientId fileName varified).run t = (.value false, t.pop) := by
  rw [updateVerification, Prog.run_attempt, Prog.run_bind, fileExists_run]
  by_cases hn : t.next = .done
  · have hf : t.world.db.hasFile clientId fileName = false := by simpa [hn] using h
    simp [hn, hf]
  · simp [hn]

theorem updateVerification_noEntry
    (h : t.next = .done ∧ t.world.db.hasFile clientId fileName = true)
    (hfile : getFileInstance t.world clientId fileName = none) (varified : Bool) :
    (updateVerification env clientId fileName varified).run t =
      (.value false, afterTouch env (.id clientId) t.pop) := by
  rw [updateVerification, Prog.run_attempt, Prog.run_bind, fileExists_run]
  simp only [h.1, h.2, decide_true, Bool.and_self, if_true, Prog.run_bind, touch_run,
    Prog.run_read, afterTouch_getFileInstance, pop_world, hfile, setVerified, Prog.run_pure,
    Prog.run_raise]

def verifiedWorld (file : File) (clientId : ClientId) (verified : Bool) (t : Turn) : World :=
  let touchedWorld := (afterTouch env (.id clientId) t.pop).world
  { World.store touchedWorld { file with verified } with
    disk := if verified then (saved env t.world.disk file.fullPath file.content).1
      else t.world.disk
    db := if t.sql 2 = .done then touchedWorld.db.setVarified file.clientId file.filename verified
      else touchedWorld.db }

theorem updateVerification_found {file : File}
    (h : t.next = .done ∧ t.world.db.hasFile clientId fileName = true)
    (hfile : getFileInstance t.world clientId fileName = some file) (verified : Bool) :
    ∃ u, (updateVerification env clientId fileName verified).run t =
        (.value (t.sql 2 ≠ .connectRaises), u) ∧
      u.world = verifiedWorld env file clientId verified t ∧ u.sent = t.sent ∧
      u.opened = if verified then t.opened ++ [file.fullPath] else t.opened := by
  obtain ⟨-, hentry, -⟩ := getFileInstance_keyed hfile
  have hset := setVerified_some (t := afterTouch env (.id clientId) t.pop) env
    (by simpa using hentry) verified
  rw [updateVerification, Prog.run_attempt, Prog.run_bind, fileExists_run]
  simp only [h.1, h.2, decide_true, Bool.and_self, if_true, Prog.run_bind, touch_run,
    Prog.run_read, afterTouch_getFileInstance, pop_world, hfile, hset]
  cases hu : t.sql 2 with
  | done =>
    rw [execute_done (by exact hu) rfl]
    refine ⟨_, rfl, ?_, rfl, rfl⟩
    simp [verifiedWorld, hu, World.store]
  | fails =>
    rw [execute_fails (by exact hu)]
    refine ⟨_, rfl, ?_, rfl, rfl⟩
    simp [verifiedWorld, hu, World.store]
  | connectRaises =>
    rw [execute_raises (by exact hu)]
    refine ⟨_, rfl, ?_, rfl, rfl⟩
    simp [verifiedWorld, hu, World.store]

end Verification

section Storing

def RowFound (t : Turn) (clientId : ClientId) (fileName : Text) : Prop :=
  t.next = .done ∧ t.world.db.hasFile clientId fileName = true

instance (t : Turn) (clientId : ClientId) (fileName : Text) :
    Decidable (RowFound t clientId fileName) := inferInstanceAs (Decidable (_ ∧ _))

def Committed (t : Turn) (clientId : ClientId) (fileName : Text) : Prop :=
  t.sql 1 = .done ∧
    (RowFound t clientId fileName ∨ t.world.db.fileNameTaken fileName = false)

instance (t : Turn) (clientId : ClientId) (fileName : Text) :
    Decidable (Committed t clientId fileName) := inferInstanceAs (Decidable (_ ∧ (_ ∨ _)))

theorem fileExists_found {u : Turn} (h : RowFound u clientId fileName) :
    (fileExists clientId fileName).run u = (.value true, u.pop) := by
  rw [fileExists_run, h.2]
  simp [h.1]

theorem fileExists_missing {u : Turn} (h : ¬RowFound u clientId fileName) :
    (fileExists clientId fileName).run u = (.value false, u.pop) := by
  rw [fileExists_run]
  simpa [RowFound] using h

variable {dir : Text} {w : World}

def newRow (file : File) : FileRow :=
  { id := file.clientId, fileName := file.filename, pathName := file.parentPath, varified := false }

theorem storeFileinDB_noDir (content : Option Bytes)
    (h : clientsDir env t.world clientId = none) :
    (storeFileinDB crypto env clientId fileName content).run t = (.value none, t) := by
  rw [storeFileinDB, Prog.run_attempt, Prog.run_bind, newFile_noDir crypto env fileName content h]
  rfl

theorem storeFileinDB_noContent (h : clientsDir env t.world clientId = some (dir, w)) :
    (storeFileinDB crypto env clientId fileName none).run t =
      (.value none,
        t.inWorld (World.store w (uploaded clientId fileName dir none 0xFFFFFF))) := by
  rw [storeFileinDB, Prog.run_attempt, Prog.run_bind, newFile_noContent crypto env fileName h]
  rfl

theorem storeFileinDB_update {content : Bytes} {file : File} {u : Turn}
    (hnew : (newFile crypto env clientId fileName (some content)).run t = (.value file, u))
    (hfound : RowFound u clientId fileName) :
    (storeFileinDB crypto env clientId fileName (some content)).run t =
      if u.sql 1 = .done then
        (.value (some file), afterTouch env (.id clientId) (u.pop.pop.inWorld { u.world with
          db := u.world.db.setVarified file.clientId file.filename false }))
      else (.value none, u.pop.pop) := by
  rw [storeFileinDB, Prog.run_attempt, Prog.run_bind, hnew]
  simp only [Prog.run_bind, fileExists_found hfound, if_true]
  cases hs : u.sql 1 with
  | done =>
    rw [execute_done (by exact hs) rfl]
    simp only [Prog.run_bind, touch_run, Prog.run_pure, if_true]
    rfl
  | fails =>
    rw [execute_fails (by exact hs)]
    simp
  | connectRaises =>
    rw [execute_raises (by exact hs)]
    simp

theorem storeFileinDB_insert {content : Bytes} {file file' : File} {u v : Turn}
    (hnew : (newFile crypto env clientId fileName (some content)).run t = (.value file, u))
    (hmissing : ¬RowFound u clientId fileName)
    (hagain : (newFile crypto env clientId fileName (some content)).run u.pop =
      (.value file', v)) :
    (storeFileinDB crypto env clientId fileName (some content)).run t =
      match if v.next = .done then insertFile (newRow file') v.world.db else none with
      | some (_, db) =>
        (.value (some file'), afterTouch env (.id clientId) (v.pop.inWorld { v.world with db }))
      | none => (.value none, v.pop) := by
  rw [storeFileinDB, Prog.run_attempt, Prog.run_bind, hnew]
  simp only [Prog.run_bind, fileExists_missing hmissing, Bool.false_eq_true, if_false, hagain]
  cases hs : v.next with
  | done =>
    cases hi : insertFile (newRow file') v.world.db with
    | none =>
      rw [execute_rejected hs (by exact hi)]
      simp
    | some r =>
      rw [execute_done hs (by exact hi)]
      simp only [Prog.run_bind, touch_run, Prog.run_pure, if_true]
  | fails =>
    rw [execute_fails hs]
    simp
  | connectRaises =>
    rw [execute_raises hs]
    simp

theorem storeFileinDB_insert_noDir {content : Bytes} {file : File} {u : Turn}
    (hnew : (newFile crypto env clientId fileName (some content)).run t = (.value file, u))
    (hmissing : ¬RowFound u clientId fileName) (hdir : clientsDir env u.world clientId = none) :
    (storeFileinDB crypto env clientId fileName (some content)).run t = (.value none, u.pop) := by
  have hagain := newFile_noDir crypto (t := u.pop) env fileName (some content) hdir
  rw [storeFileinDB, Prog.run_attempt, Prog.run_bind, hnew]
  simp only [Prog.run_bind, fileExists_missing hmissing, Bool.false_eq_true, if_false, hagain]
  rfl

def storedRows (t : Turn) (file : File) : List FileRow :=
  if RowFound t file.clientId file.filename then
    (t.world.db.setVarified file.clientId file.filename false).files
  else t.world.db.files ++ [newRow file]

theorem hasFile_storedRows {db : Tables} {file : File}
    (hfiles : db.files = storedRows t file) (c : ClientId) (f : Text) :
    db.hasFile c f =
      (t.world.db.hasFile c f || decide (c = file.clientId ∧ f = file.filename)) := by
  unfold storedRows at hfiles
  split at hfiles
  · next hrow =>
    have hsame : db.hasFile c f =
        (t.world.db.setVarified file.clientId file.filename false).hasFile c f := by
      rw [Tables.hasFile, hfiles, Tables.hasFile]
    rw [hsame, hasFile_setVarified]
    by_cases hcf : c = file.clientId ∧ f = file.filename
    · obtain ⟨rfl, rfl⟩ := hcf
      rw [hrow.2, Bool.true_or]
    · rw [decide_eq_false hcf, Bool.or_false]
  · rw [Tables.hasFile, hfiles, List.any_append, Tables.hasFile]
    simp [newRow, eq_comm]

structure Uploads (t u : Turn) (file : File) : Prop where
  sent : u.sent = t.sent
  opened : u.opened = t.opened
  fileDict : u.world.fileDict = t.world.fileDict.store file
  cwd : u.world.cwd = t.world.cwd
  srcDir : u.world.srcDir = t.world.srcDir
  isDir : u.world.disk.isDir (clientFolder t.world file.clientId) = true
  disk : ∀ loc, loc ≠ clientFolder t.world file.clientId →
    u.world.disk.node loc = t.world.disk.node loc

namespace Uploads

variable {u : Turn} {file : File}

theorem pop (h : Uploads t u file) : Uploads t u.pop file :=
  ⟨h.sent, h.opened, h.fileDict, h.cwd, h.srcDir, h.isDir, h.disk⟩

theorem inDb (h : Uploads t u file) (db : Tables) :
    Uploads t (u.inWorld { u.world with db }) file :=
  ⟨h.sent, h.opened, h.fileDict, h.cwd, h.srcDir, h.isDir, h.disk⟩

theorem touch (h : Uploads t u file) (n : NameOrId) : Uploads t (afterTouch env n u) file where
  sent := h.sent
  opened := h.opened
  fileDict := by rw [afterTouch_fileDict, h.fileDict]
  cwd := by rw [afterTouch_cwd, h.cwd]
  srcDir := by rw [afterTouch_srcDir, h.srcDir]
  isDir := by rw [afterTouch_disk, h.isDir]
  disk loc hloc := by rw [afterTouch_disk, h.disk loc hloc]

end Uploads

theorem newFile_ready (fileName : Text) (content : Bytes) (h : DirReady env t.world clientId) :
    let file := uploaded clientId fileName (render (clientFolder t.world clientId))
      (some content) (crypto.crc32 content)
    ∃ u, (newFile crypto env clientId fileName (some content)).run t = (.value file, u) ∧
      Uploads t u file ∧ u.sql = t.sql ∧ u.world.db = t.world.db ∧
      (newFile crypto env clientId fileName (some content)).run u.pop = (.value file, u.pop) := by
  intro file
  obtain ⟨disk, hdir, hisDir, hframe⟩ := clientsDir_of_ready env h
  refine ⟨_, newFile_content crypto env fileName content hdir,
    ⟨rfl, rfl, rfl, rfl, rfl, hisDir, hframe⟩, rfl, rfl, ?_⟩
  generalize hw : World.store { t.world with disk } file = w
  have hd : w.disk.isDir (clientFolder w clientId) = true := by
    rw [← hw]
    exact hisDir
  have hagain := newFile_content crypto (t := (t.inWorld w).pop) env fileName content
    (clientsDir_of_isDir env hd)
  have hstore : World.store w file = w := by
    rw [← hw]
    simp only [World.store, FileDict.store_store]
  have hfile : uploaded clientId fileName (render (clientFolder w clientId)) (some content)
      (crypto.crc32 content) = file := by
    rw [← hw]
    rfl
  simp only [pop_world, inWorld_world, hfile, hstore] at hagain
  exact hagain

/-- The clients' rows after an upload: `touch` comes last, for an accepted file. -/
structure SeenAfter (t u : Turn) (clientId : ClientId) (accepted : Prop) : Prop where
  touched : accepted → t.sql 2 = .done →
    u.world.db.server = touchedRows env (.id clientId) t.world.db.server
  quiet : ¬(accepted ∧ t.sql 2 = .done) → u.world.db.server = t.world.db.server

theorem seenAfter_touch {u : Turn} {accepted : Prop}
    (hserver : u.world.db.server = t.world.db.server) (h : accepted) (hnext : u.next = t.sql 2) :
    SeenAfter env t (afterTouch env (.id clientId) u) clientId accepted where
  touched _ h₂ := by rw [afterTouch_server, hserver, hnext, if_pos h₂]
  quiet hnot := by rw [afterTouch_server, hserver, hnext, if_neg fun h₂ => hnot ⟨h, h₂⟩]

theorem seenAfter_refused {u : Turn} {accepted : Prop}
    (hserver : u.world.db.server = t.world.db.server) (h : ¬accepted) :
    SeenAfter env t u clientId accepted :=
  ⟨fun hc => absurd hc h, fun _ => hserver⟩

/-- An upload into a ready directory: the entry is replaced in any case, and the file is
returned when its row was committed. -/
theorem storeFileinDB_ready (fileName : Text) (content : Bytes)
    (h : DirReady env t.world clientId) :
    let file := uploaded clientId fileName (render (clientFolder t.world clientId))
      (some content) (crypto.crc32 content)
    ∃ u, (storeFileinDB crypto env clientId fileName (some content)).run t =
        (.value (if Committed t clientId fileName then some file else none), u) ∧
      Uploads t u file ∧
      (u.world.db.files =
        if Committed t clientId fileName then storedRows t file else t.world.db.files) ∧
      SeenAfter env t u clientId (Committed t clientId fileName) := by
  intro file
  obtain ⟨u, hnew, hu, hsql, hdb, hagain⟩ := newFile_ready crypto env fileName content h
  have hfound : RowFound u clientId fileName ↔ RowFound t clientId fileName := by
    rw [RowFound, RowFound, Turn.next, Turn.next, hsql, hdb]
  by_cases hrow : RowFound t clientId fileName
  · have hrun := storeFileinDB_update crypto env hnew (hfound.mpr hrow)
    by_cases hs : t.sql 1 = .done
    · have hc : Committed t clientId fileName := ⟨hs, .inl hrow⟩
      rw [if_pos (by rw [hsql]; exact hs)] at hrun
      rw [if_pos hc, if_pos hc]
      refine ⟨_, hrun, (hu.pop.pop.inDb _).touch env _, ?_, seenAfter_touch env ?_ hc ?_⟩
      · rw [afterTouch_files, storedRows, if_pos (by exact hrow)]
        simp only [inWorld_world, hdb]
        rfl
      · rw [inWorld_world, hdb]
        rfl
      · rw [inWorld_next, Turn.next, pop_sql, pop_sql, hsql]
    · have hc : ¬Committed t clientId fileName := fun hc => hs hc.1
      rw [if_neg (by rw [hsql]; exact hs)] at hrun
      rw [if_neg hc, if_neg hc]
      exact ⟨_, hrun, hu.pop.pop, by simp only [pop_world, hdb],
        seenAfter_refused env (by simp only [pop_world, hdb]) hc⟩
  · have hrun := storeFileinDB_insert crypto env hnew (hfound.not.mpr hrow) hagain
    by_cases hc : Committed t clientId fileName
    · have hfree := hc.2.resolve_left hrow
      have hfree' : u.pop.world.db.fileNameTaken (newRow file).fileName = false := by
        rw [pop_world, hdb]
        exact hfree
      obtain ⟨db, hins, hserver, hfiles⟩ := insertFile_eq_some hfree'
      rw [if_pos (by rw [Turn.next, pop_sql, hsql]; exact hc.1), hins] at hrun
      rw [if_pos hc, if_pos hc]
      refine ⟨_, hrun, (hu.pop.pop.inDb db).touch env _, ?_, seenAfter_touch env ?_ hc ?_⟩
      · rw [afterTouch_files, storedRows, if_neg (by exact hrow)]
        simp only [inWorld_world, hfiles, pop_world, hdb]
      · simp only [inWorld_world, hserver, pop_world, hdb]
      · rw [inWorld_next, Turn.next, pop_sql, pop_sql, hsql]
    · have hnone : (if u.pop.next = .done then insertFile (newRow file) u.pop.world.db
          else none) = none := by
        rw [ite_eq_right_iff]
        intro hs
        rw [insertFile_eq_none, pop_world, hdb]
        by_contra hfree
        rw [Turn.next, pop_sql, hsql] at hs
        exact hc ⟨hs, .inr (Bool.not_eq_true _ ▸ hfree)⟩
      rw [hnone] at hrun
      rw [if_neg hc, if_neg hc]
      exact ⟨_, hrun, hu.pop.pop, by simp only [pop_world, hdb],
        seenAfter_refused env (by simp only [pop_world, hdb]) hc⟩

theorem rowFound_store (hdir : clientsDir env t.world clientId = some (dir, w)) (file : File) :
    RowFound (t.inWorld (World.store w file)) clientId fileName ↔ RowFound t clientId fileName := by
  unfold RowFound
  rw [inWorld_next, inWorld_world, World.store, (clientsDir_world env hdir).1]

theorem storeFileinDB_awayFound (content : Bytes)
    (hdir : clientsDir env t.world clientId = some (dir, w)) (hrow : RowFound t clientId fileName)
    (hs : t.sql 1 = .done) :
    let file := uploaded clientId fileName dir (some content) (crypto.crc32 content)
    let u := t.inWorld (World.store w file)
    (storeFileinDB crypto env clientId fileName (some content)).run t =
      (.value (some file), afterTouch env (.id clientId) (u.pop.pop.inWorld { u.world with
        db := t.world.db.setVarified clientId fileName false })) := by
  intro file u
  have hnew := newFile_content crypto env fileName content hdir
  have hdb : u.world.db = t.world.db := (clientsDir_world env hdir).1
  rw [storeFileinDB_update crypto env hnew ((rowFound_store env hdir file).mpr hrow),
    if_pos (by exact hs), hdb]
  rfl

theorem storeFileinDB_awayMissing (content : Bytes) (h : ¬DirReady env t.world clientId)
    (hdir : clientsDir env t.world clientId = some (dir, w))
    (hrow : ¬(RowFound t clientId fileName ∧ t.sql 1 = .done)) :
    ∃ u, (storeFileinDB crypto env clientId fileName (some content)).run t = (.value none, u) ∧
      u.sent = t.sent ∧ u.opened = t.opened ∧ u.world =
        World.store w (uploaded clientId fileName dir (some content) (crypto.crc32 content)) := by
  have hnew := newFile_content crypto env fileName content hdir
  generalize uploaded clientId fileName dir (some content) (crypto.crc32 content) = file at hnew ⊢
  have hstore := @rowFound_store env t clientId fileName dir w hdir file
  by_cases hfound : RowFound t clientId fileName
  · have hs : t.sql 1 ≠ .done := fun hs => hrow ⟨hfound, hs⟩
    have hrun := storeFileinDB_update crypto env hnew (hstore.mpr hfound)
    rw [if_neg (by exact hs)] at hrun
    exact ⟨_, hrun, rfl, rfl, rfl⟩
  · have hnone := clientsDir_again env h hdir (w.fileDict.store file)
    exact ⟨_, storeFileinDB_insert_noDir crypto env hnew (hstore.not.mpr hfound) hnone,
      rfl, rfl, rfl⟩

theorem storeFileinDB_not_ready (fileName : Text) (content : Option Bytes)
    (h : ¬DirReady env t.world clientId) :
    ∃ file u, (storeFileinDB crypto env clientId fileName content).run t = (.value file, u) ∧
      u.sent = t.sent ∧ u.opened = t.opened ∧
      u.world.disk.isDir (clientFolder u.world clientId) = false ∧
      ∀ f, file = some f → ∃ bytes, f.crc = crypto.crc32 bytes := by
  cases hdir : clientsDir env t.world clientId with
  | none =>
    have hd : t.world.disk.isDir (clientFolder t.world clientId) = false := by
      by_contra hd
      exact h (.inl (by simpa using hd))
    exact ⟨none, t, storeFileinDB_noDir crypto env content hdir, rfl, rfl, hd, nofun⟩
  | some dw =>
    obtain ⟨dir, w⟩ := dw
    have hd := isDir_of_not_ready env h hdir
    cases content with
    | none => exact ⟨none, _, storeFileinDB_noContent crypto env hdir, rfl, rfl, hd, nofun⟩
    | some content =>
      by_cases hc : RowFound t clientId fileName ∧ t.sql 1 = .done
      · refine ⟨_, _, storeFileinDB_awayFound crypto env content hdir hc.1 hc.2, rfl, rfl, ?_, ?_⟩
        · rw [afterTouch_disk, clientFolder, afterTouch_cwd]
          exact hd
        · rintro f ⟨⟩
          exact ⟨content, rfl⟩
      · obtain ⟨u, hrun, hsent, hopened, hworld⟩ :=
          storeFileinDB_awayMissing crypto env content h hdir hc
        refine ⟨none, u, hrun, hsent, hopened, ?_, nofun⟩
        rw [hworld]
        exact hd

/-- `storeFileinDB` swallows every exception, and neither answers nor saves. A file that it
returns has a checksum of the library. -/
theorem storeFileinDB_value (clientId : ClientId) (fileName : Text) (content : Option Bytes)
    (t : Turn) : ∃ file u,
      (storeFileinDB crypto env clientId fileName content).run t = (.value file, u) ∧
        u.sent = t.sent ∧ u.opened = t.opened ∧
        ∀ f, file = some f → ∃ bytes, f.crc = crypto.crc32 bytes := by
  by_cases h : DirReady env t.world clientId
  · cases content with
    | none =>
      obtain ⟨disk, hdir, -⟩ := clientsDir_of_ready env h
      exact ⟨_, _, storeFileinDB_noContent crypto env hdir, rfl, rfl, nofun⟩
    | some content =>
      obtain ⟨u, hrun, hu, -, -⟩ := storeFileinDB_ready crypto env fileName content h
      refine ⟨_, u, hrun, hu.sent, hu.opened, fun f hf => ⟨content, ?_⟩⟩
      split at hf
      · cases hf
        rfl
      · cases hf
  · obtain ⟨file, u, hrun, hsent, hopened, -, hcrc⟩ :=
      storeFileinDB_not_ready crypto env fileName content h
    exact ⟨file, u, hrun, hsent, hopened, hcrc⟩

end Storing

end Runs

end ServerDatabase
