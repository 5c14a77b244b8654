import FileTransfer.ServerSystem

/-! # The database is a file

SQLite finds the tables in `server.db` of the working directory, and an approved upload can
lead there like to any other place. The handlers are those of the server with another
`saveFile`; a server whose approvals keep away from these files is the one without them. -/
namespace DatabaseFile

open ByteField PathWalk ServerProtocol ServerTables ServerState ServerFiles ServerDatabase
  ServerHandlers ServerThread ServerSystem StepRun RaisingProgram

section Definitions

/-- SQLite, outside the program: the tables found after a file of the database was written
over, or `none` when every statement fails from then on. -/
structure Sqlite where
  /-- from the tables before, the name of the file and the bytes in it -/
  reopen : Tables → Text → Bytes → Option Tables

def database : Text := [0x73, 0x65, 0x72, 0x76, 0x65, 0x72, 0x2E, 0x64, 0x62]

/-- `../server.db`, from the directory of a client. -/
def aboveName : Text := [0x2E, 0x2E, 0x2F] ++ database

/-- Agrees with SQLite on files that have none of its formats. -/
def Sqlite.sample : Sqlite where
  reopen db name _ := if name = database then none else some db

/-- What SQLite reads when it opens the database: the file, its journal and its log. -/
def databaseFiles : List Text :=
  [database, database ++ [0x2D, 0x6A, 0x6F, 0x75, 0x72, 0x6E, 0x61, 0x6C],
    database ++ [0x2D, 0x77, 0x61, 0x6C]]

variable (sqlite : Sqlite) (crypto : PyCrypto) (env : Env)

/-- The place that `open(path, 'wb')` truncates. -/
def opensAt (disk : Disk) (path : Text) : Option Loc :=
  if env.openOk then
    (openTarget disk path).bind fun (dir, name) =>
      if disk.isDir (dir ++ [name]) then none else some (dir ++ [name])
  else none

def databaseFileAt (w : World) (path : Text) : Option Text :=
  (opensAt env w.disk path).bind fun loc =>
    databaseFiles.find? fun name => loc = w.cwd.val ++ [name]

def found (w : World) (file : File) : Option Tables :=
  match databaseFileAt env w file.fullPath with
  | none => some w.db
  | some name => sqlite.reopen w.db name (writtenBytes env file.content).1

def failing (sql : ℕ → SqlOutcome) (i : ℕ) : SqlOutcome :=
  if sql i = .done then .fails else sql i

def reopened (t : Turn) : Option Tables → Turn
  | some db => t.inWorld { t.world with db }
  | none => { t.inWorld { t.world with db := .empty } with sql := failing t.sql }

def saveFile (file : File) : ServerM Bool := do
  let tables := found sqlite env (← Prog.read).world file
  let result ← ServerFiles.saveFile env file
  Prog.modify fun t => reopened t tables
  return result

section Handlers

variable (save : File → ServerM Bool)

/-- `FileHandler.verified`, whatever saving does. -/
def setVerifiedBy (file : Option File) (verified : Bool) : ServerM (Option File) := do
  match file with
  | none => return none
  | some file =>
    match (← Prog.read).world.fileDict.get file.fullPath with
    | none => return none
    | some entry =>
      let entry := { entry with verified }
      storeEntry entry
      if verified then
        let _ ← save entry
        return some entry
      else return some entry

def updateVerificationBy (clientId : ClientId) (fileName : Text) (verified : Bool) :
    ServerM Bool :=
  Prog.attempt (do
    if ← fileExists clientId fileName then
      touch env (.id clientId)
      let file := getFileInstance (← Prog.read).world clientId fileName
      let _ ← setVerifiedBy save file verified
      match file with
      | none => Prog.raise .attributeError
      | some file =>
        let _commited ← execute (updateVarified file.clientId file.filename verified)
        return true
    else return false)
    fun _ => return false

def crcValidBy (request : CrcStatusRequest) : ServerM Bool := do
  if ¬(← clientExists request.header.clientID) then refuse env
  else if ¬(← updateVerificationBy env save request.clientID request.fileName true) then
    refuse env
  else write env .receivingApproved

/-- Only the approval of a file saves. -/
def handleBy : Request → ServerM Bool
  | .crcValid request => crcValidBy env save request
  | request => ServerHandlers.handle crypto env request

end Handlers

def handle : Request → ServerM Bool := handleBy crypto env (saveFile sqlite env)

def react (w : World) : Received → ReadStep
  | .parsed request => settle env w (some request) (handle sqlite crypto env request)
  | received => ServerThread.react crypto env w received

def savingWorld (w : World) (request : CrcStatusRequest) : World :=
  (afterTouch env (.id request.clientID) (Turn.start w env).pop.pop).world

def savedFile (w : World) : Received → Option (CrcStatusRequest × File)
  | .parsed (.crcValid request) =>
    if Saves env w request then
      (getFileInstance w request.clientID request.fileName).map fun file => (request, file)
    else none
  | _ => none

def updated (file : File) (update : SqlOutcome) : Option Tables → Tables
  | none => .empty
  | some db => if update = .done then db.setVarified file.clientId file.filename true else db

def approvedTables (w : World) (request : CrcStatusRequest) (file : File) : Tables :=
  updated file (env.sql 3) (found sqlite env (savingWorld env w request) file)

def survives (w : World) (received : Received) : Bool :=
  match savedFile env w received with
  | none => true
  | some (request, file) => (found sqlite env (savingWorld env w request) file).isSome

/-- No approval opens a file of the database. -/
def Keeps (w : World) (received : Received) : Prop :=
  ∀ saved ∈ savedFile env w received, databaseFileAt env w saved.2.fullPath = none

instance (w : World) (received : Received) : Decidable (Keeps env w received) :=
  inferInstanceAs (Decidable (∀ _ ∈ _, _))

def withDatabase (readable : Bool) : Env :=
  if readable then env else { env with sql := failing env.sql }

end Definitions

section Servers

/-- The server process and whether SQLite still finds tables. -/
structure Server where
  system : System
  readable : Bool

def Server.initial (w : World) : Server := ⟨.initial w, true⟩

variable (sqlite : Sqlite) (crypto : PyCrypto)

def Server.served (s : Server) (c : ℕ) (r : RecvResult) (env : Env) : Option ReadStep :=
  match s.system.thread c with
  | some conn =>
    if conn.control.awaits then
      let env := withDatabase env s.readable
      some (react sqlite crypto env s.system.world (received conn.control r))
    else none
  | none => none

def Server.next (s : Server) : Event → Option Server
  | .accept => (s.system.next crypto .accept).map fun system => ⟨system, s.readable⟩
  | .start => (s.system.next crypto .start).map fun system => ⟨system, s.readable⟩
  | .recv c r env =>
    match s.system.thread c with
    | some conn =>
      if conn.control.awaits then
        let result := received conn.control r
        let env := withDatabase env s.readable
        some ⟨s.system.finish c conn (react sqlite crypto env s.system.world result),
          s.readable && survives sqlite env s.system.world result⟩
      else none
    | none => none

/-- Every statement is executed as it is written. -/
def AsWritten : Event → Prop
  | .recv _ _ env => ∀ i, env.sql i = .done
  | _ => True

def KeepsDatabase (s : System) : Event → Prop
  | .recv c r env => ∀ conn ∈ s.thread c, Keeps env s.world (received conn.control r)
  | _ => True

instance (s : System) (e : Event) : Decidable (KeepsDatabase s e) :=
  match e with
  | .accept => inferInstanceAs (Decidable True)
  | .start => inferInstanceAs (Decidable True)
  | .recv c _ _ => inferInstanceAs (Decidable (∀ _ ∈ s.thread c, _))

end Servers

section Saving

variable {sqlite : Sqlite} {crypto : PyCrypto} {env : Env} {w : World} {file : File}
  {request : CrcStatusRequest}

theorem opensAt_iff {disk : Disk} {path : Text} {loc : Loc} :
    opensAt env disk path = some loc ↔ Opens env disk path loc := by
  unfold opensAt Opens
  cases env.openOk with
  | false => simp
  | true =>
    rw [if_pos rfl, and_iff_right rfl, Option.bind_eq_some_iff]
    constructor
    · rintro ⟨⟨dir, name⟩, htarget, h⟩
      dsimp only at h
      split at h
      · cases h
      · next hdir => exact ⟨dir, name, htarget, by simpa using hdir, (Option.some.inj h).symm⟩
    · rintro ⟨dir, name, htarget, hdir, rfl⟩
      exact ⟨(dir, name), htarget, by simp [hdir]⟩

theorem databaseFileAt_eq_some {path name : Text} (h : databaseFileAt env w path = some name) :
    name ∈ databaseFiles ∧ Opens env w.disk path (w.cwd.val ++ [name]) := by
  obtain ⟨loc, hopens, hname⟩ := Option.bind_eq_some_iff.mp h
  have hloc : loc = w.cwd.val ++ [name] := by simpa using List.find?_some hname
  subst hloc
  exact ⟨List.mem_of_find?_eq_some hname, opensAt_iff.mp hopens⟩

/-- The same server code, with the save that leaves the database alone. -/
theorem handleBy_saveFile :
    handleBy crypto env (ServerFiles.saveFile env) = ServerHandlers.handle crypto env := by
  funext request
  cases request <;> rfl

theorem saveFile_run (file : File) (t : Turn) :
    (saveFile sqlite env file).run t =
      (.value (saved env t.world.disk file.fullPath file.content).2,
        reopened ((ServerFiles.saveFile env file).run t).2 (found sqlite env t.world file)) := by
  rw [ServerFiles.saveFile_run, saveFile]
  simp only [Prog.run_bind, Prog.run_read, ServerFiles.saveFile_run, Prog.run_modify,
    Prog.run_pure]

theorem found_kept (h : databaseFileAt env w file.fullPath = none) :
    found sqlite env w file = some w.db := by
  rw [found, h]

theorem savingWorld_databaseFileAt (path : Text) :
    databaseFileAt env (savingWorld env w request) path = databaseFileAt env w path := by
  have hdisk : (savingWorld env w request).disk = w.disk := afterTouch_disk ..
  have hcwd : (savingWorld env w request).cwd = w.cwd := afterTouch_cwd ..
  rw [databaseFileAt, hdisk, hcwd, databaseFileAt]

theorem approvedTables_kept (h : databaseFileAt env w file.fullPath = none) :
    approvedTables sqlite env w request file =
      (verifiedWorld env file request.clientID true (Turn.start w env).pop).db := by
  rw [approvedTables, found_kept (by rw [savingWorld_databaseFileAt, h])]
  rfl

end Saving

section Approvals

variable {sqlite : Sqlite} {crypto : PyCrypto} {env : Env} {w : World} {file : File}
  {request : CrcStatusRequest}

theorem updateVarified_run (t : Turn) (tables : Option Tables) :
    (execute (updateVarified file.clientId file.filename true)).run (reopened t tables) =
      (if t.next = .connectRaises then .raised .operationalError
        else .value (if t.next = .done ∧ tables.isSome = true then some () else none),
        (reopened t tables).pop.inWorld
          { t.world with db := updated file t.next tables }) := by
  cases tables with
  | none =>
    have hnext : (reopened t none).next = if t.next = .done then .fails else t.next := rfl
    cases hs : t.next with
    | connectRaises => rw [execute_raises (by rw [hnext, hs]; rfl)]; rfl
    | done => rw [execute_fails (by rw [hnext, hs]; rfl)]; rfl
    | fails => rw [execute_fails (by rw [hnext, hs]; rfl)]; rfl
  | some db =>
    have hnext : (reopened t (some db)).next = t.next := rfl
    cases hs : t.next with
    | connectRaises => rw [execute_raises (hnext.trans hs)]; rfl
    | fails => rw [execute_fails (hnext.trans hs)]; rfl
    | done => rw [execute_done (hnext.trans hs) rfl]; rfl

@[simp] theorem reopened_sent (t : Turn) (tables : Option Tables) :
    (reopened t tables).sent = t.sent := by
  cases tables <;> rfl

@[simp] theorem reopened_opened (t : Turn) (tables : Option Tables) :
    (reopened t tables).opened = t.opened := by
  cases tables <;> rfl

variable (sqlite env) in
theorem setVerified_run {t : Turn} (hentry : t.world.fileDict.get file.fullPath = some file) :
    ∃ v, (setVerifiedBy (saveFile sqlite env) (some file) true).run t =
        (.value (some { file with verified := true }),
          reopened v (found sqlite env t.world file)) ∧
      v.world = { World.store t.world { file with verified := true } with
        disk := (saved env t.world.disk file.fullPath file.content).1 } ∧
      v.sql = t.sql ∧ v.sent = t.sent ∧ v.opened = t.opened ++ [file.fullPath] := by
  refine ⟨((ServerFiles.saveFile env { file with verified := true }).run
    (t.inWorld (World.store t.world { file with verified := true }))).2, ?_, ?_⟩
  · simp only [setVerifiedBy, Prog.run_bind, Prog.run_read, hentry, storeEntry, modifyWorld,
      Prog.run_modify, if_true, saveFile_run]
    rfl
  · rw [ServerFiles.saveFile_run]
    exact ⟨rfl, rfl, rfl, rfl⟩

variable (sqlite env) in
theorem updateVerification_run {t : Turn} {clientId : ClientId} {fileName : Text}
    (hrow : RowFound t clientId fileName)
    (hfile : getFileInstance t.world clientId fileName = some file) :
    ∃ u, (updateVerificationBy env (saveFile sqlite env) clientId fileName true).run t =
        (.value (t.sql 2 ≠ .connectRaises), u) ∧
      u.world = { verifiedWorld env file clientId true t with
        db := updated file (t.sql 2)
          (found sqlite env (afterTouch env (.id clientId) t.pop).world file) } ∧
      u.sent = t.sent ∧ u.opened = t.opened ++ [file.fullPath] := by
  obtain ⟨-, hentry, -⟩ := getFileInstance_keyed hfile
  obtain ⟨v, hset, hworld, hsql, hsent, hopened⟩ := setVerified_run sqlite env
    (show (afterTouch env (.id clientId) t.pop).world.fileDict.get file.fullPath = some file by
      simpa using hentry)
  have hnext : v.next = t.sql 2 := by rw [Turn.next, hsql]; rfl
  let tables := found sqlite env (afterTouch env (.id clientId) t.pop).world file
  refine ⟨(reopened v tables).pop.inWorld { v.world with db := updated file (t.sql 2) tables },
    ?_, ?_, ?_, ?_⟩
  · rw [updateVerificationBy, Prog.run_attempt, Prog.run_bind, fileExists_run]
    simp only [hrow.1, hrow.2, decide_true, Bool.and_self, if_true, Prog.run_bind, touch_run,
      Prog.run_read, afterTouch_getFileInstance, pop_world, hfile, hset, updateVarified_run, hnext]
    cases t.sql 2 <;> rfl
  · rw [inWorld_world, hworld, afterTouch_disk]
    rfl
  · rw [inWorld_sent, pop_sent, reopened_sent, hsent]
    rfl
  · rw [inWorld_opened, pop_opened, reopened_opened, hopened]
    rfl

variable (sqlite) in
/-- What an approval leaves behind: the world of the server without database files, with the
tables that SQLite found. -/
theorem crcValid_run (hsaves : Saves env w request)
    (hfile : getFileInstance w request.clientID request.fileName = some file) :
    ∃ u, (crcValidBy env (saveFile sqlite env) request).run (Turn.start w env) =
        (if env.sql 3 = .connectRaises then (refuse env).run u
          else (write env .receivingApproved).run u) ∧
      u.world = { verifiedWorld env file request.clientID true (Turn.start w env).pop with
        db := approvedTables sqlite env w request file } ∧
      u.sent = [] ∧ u.opened = [file.fullPath] := by
  obtain ⟨hknown, hrow, -⟩ := hsaves
  obtain ⟨u, hrun, hworld, hsent, hopened⟩ :=
    updateVerification_run sqlite env hrow hfile
  refine ⟨u, ?_, hworld, hsent, hopened⟩
  have hsql : (Turn.start w env).pop.sql 2 = env.sql 3 := rfl
  rw [crcValidBy, ifKnown_run, if_pos hknown, Prog.run_bind, hrun, hsql]
  by_cases hr : env.sql 3 = .connectRaises <;> simp [hr]

theorem updateVerification_unfound {t : Turn} {clientId : ClientId} {fileName : Text}
    (save : File → ServerM Bool)
    (h : ¬(RowFound t clientId fileName ∧
      (getFileInstance t.world clientId fileName).isSome = true)) :
    (updateVerificationBy env save clientId fileName true).run t =
      (updateVerification env clientId fileName true).run t := by
  by_cases hrow : RowFound t clientId fileName
  · have hnone : getFileInstance t.world clientId fileName = none := by simpa [hrow] using h
    rw [updateVerificationBy, Prog.run_attempt, Prog.run_bind, fileExists_found hrow,
      updateVerification_noEntry env hrow hnone]
    simp only [if_true, Prog.run_bind, touch_run, Prog.run_read, afterTouch_getFileInstance,
      pop_world, hnone, setVerifiedBy, Prog.run_pure, Prog.run_raise]
  · rw [updateVerificationBy, Prog.run_attempt, Prog.run_bind, fileExists_missing hrow,
      updateVerification_unknown env hrow]
    rfl

theorem crcValid_unsaved (save : File → ServerM Bool) (hsaves : ¬Saves env w request) :
    (crcValidBy env save request).run (Turn.start w env) =
      (ServerHandlers.crcValid env request).run (Turn.start w env) := by
  rw [crcValidBy, ServerHandlers.crcValid, ifKnown_run, ifKnown_run]
  split
  · next hknown =>
    have hunfound := fun h => hsaves ⟨hknown, h⟩
    rw [Prog.run_bind, Prog.run_bind, updateVerification_unfound save hunfound]
  · rfl

/-- An approval on the thread: the tables are the ones that SQLite found, and all else is as
in the server without database files. -/
theorem settle_approved (hsaves : Saves env w request)
    (hfile : getFileInstance w request.clientID request.fileName = some file)
    (handled : Option Request) :
    settle env w handled (crcValidBy env (saveFile sqlite env) request) =
      let out := settle env w handled (ServerHandlers.crcValid env request)
      { out with world := { out.world with db := approvedTables sqlite env w request file } } := by
  obtain ⟨u, hrun, hworld, hsent, hopened⟩ := crcValid_run sqlite hsaves hfile
  obtain ⟨v, hbase, hworld', hsent', hopened'⟩ := crcValid_saves env hsaves hfile
  by_cases hr : env.sql 3 = .connectRaises
  · rw [if_pos hr] at hrun hbase
    rw [settle_refused env hrun, settle_refused env hbase, hworld, hsent, hopened, hworld', hsent',
      hopened']
  · rw [if_neg hr] at hrun hbase
    rw [settle_written env hrun, settle_written env hbase, hworld, hsent, hopened, hworld', hsent',
      hopened']

end Approvals

section Reactions

variable {sqlite : Sqlite} {crypto : PyCrypto} {env : Env} {w : World} {received : Received}
  {request : CrcStatusRequest} {file : File}

theorem savedFile_eq_some (h : savedFile env w received = some (request, file)) :
    received = .parsed (.crcValid request) ∧ Saves env w request ∧
      getFileInstance w request.clientID request.fileName = some file := by
  unfold savedFile at h
  split at h
  · next q =>
    split at h
    · next hsaves =>
      obtain ⟨f, hfile, heq⟩ := Option.map_eq_some_iff.mp h
      cases heq
      exact ⟨rfl, hsaves, hfile⟩
    · cases h
  · cases h

theorem savedFile_of_saves (hsaves : Saves env w request)
    (hfile : getFileInstance w request.clientID request.fileName = some file) :
    savedFile env w (.parsed (.crcValid request)) = some (request, file) := by
  rw [savedFile, if_pos hsaves, hfile]
  rfl

theorem not_saves_of_savedFile (h : savedFile env w (.parsed (.crcValid request)) = none) :
    ¬Saves env w request := by
  intro hsaves
  obtain ⟨file, hfile⟩ := Option.isSome_iff_exists.mp hsaves.2.2
  rw [savedFile_of_saves hsaves hfile] at h
  cases h

theorem react_unsaved (h : savedFile env w received = none) :
    react sqlite crypto env w received = ServerThread.react crypto env w received := by
  cases received with
  | parsed q =>
    cases q with
    | crcValid request =>
      have hrun := crcValid_unsaved (saveFile sqlite env) (not_saves_of_savedFile h)
      rw [react, ServerThread.react, settle, settle]
      simp only [answer, Prog.run_bind, handle, handleBy, hrun, ServerHandlers.handle]
    | registration | publicKey | sendFile | crcResend | crcAbort => rfl
  | malformed | partly | endOfStream | failure => rfl

theorem react_saved (h : savedFile env w received = some (request, file)) :
    react sqlite crypto env w received =
      let out := ServerThread.react crypto env w received
      { out with world := { out.world with db := approvedTables sqlite env w request file } } := by
  obtain ⟨rfl, hsaves, hfile⟩ := savedFile_eq_some h
  exact settle_approved hsaves hfile _

/-- Away from the files of the database the server is the one without them. -/
theorem react_kept (h : Keeps env w received) :
    react sqlite crypto env w received = ServerThread.react crypto env w received := by
  cases hsaved : savedFile env w received with
  | none => exact react_unsaved hsaved
  | some saved =>
    obtain ⟨request, file⟩ := saved
    obtain ⟨rfl, hsaves, hfile⟩ := savedFile_eq_some hsaved
    obtain ⟨u, hrun, hworld, -, -⟩ := crcValid_saves env hsaves hfile
    have hdb : (ServerThread.react crypto env w (.parsed (.crcValid request))).world.db =
        approvedTables sqlite env w request file := by
      rw [ServerThread.react, (settle_world env w _ _).1, approvedTables_kept (h _ hsaved),
        ServerHandlers.handle, hrun, ← hworld]
      split
      · rw [refuse_world]
      · rw [write_world]
    rw [react_saved hsaved, ← hdb]

theorem react_sent : (react sqlite crypto env w received).sent =
    (ServerThread.react crypto env w received).sent := by
  cases hsaved : savedFile env w received with
  | none => rw [react_unsaved hsaved]
  | some saved => rw [react_saved hsaved]

theorem survives_kept (h : Keeps env w received) : survives sqlite env w received = true := by
  unfold survives
  split
  · rfl
  · next request file hsaved =>
    rw [found_kept (by rw [savingWorld_databaseFileAt, h _ hsaved])]
    rfl

end Reactions

section Runs

variable {sqlite : Sqlite} {crypto : PyCrypto} {s t : Server} {e : Event} {es : List Event}

theorem served_kept {c : ℕ} {r : RecvResult} {env : Env} (hread : s.readable = true)
    (hkeeps : KeepsDatabase s.system (.recv c r env)) :
    s.served sqlite crypto c r env = s.system.served crypto c r env := by
  unfold Server.served System.served
  cases hthread : s.system.thread c with
  | none => rfl
  | some conn =>
    dsimp only
    split
    · next hawaits =>
      rw [withDatabase, if_pos hread, react_kept (hkeeps conn hthread),
        readStep_eq_react crypto env s.system.world hawaits]
    · rfl

theorem served_answers {c : ℕ} {r : RecvResult} {env : Env} {out : ReadStep}
    (hread : s.readable = true) (h : s.served sqlite crypto c r env = some out) :
    ∃ conn, s.system.thread c = some conn ∧ conn.control.awaits = true ∧
      out = react sqlite crypto env s.system.world (received conn.control r) ∧
      out.sent = (readStep crypto env s.system.world conn.control r).sent := by
  unfold Server.served at h
  split at h
  · next conn hthread =>
    split at h
    · next hawaits =>
      rw [withDatabase, if_pos hread] at h
      obtain rfl := Option.some.inj h
      refine ⟨conn, hthread, hawaits, rfl, ?_⟩
      rw [react_sent, readStep_eq_react crypto env s.system.world hawaits]
    · cases h
  · cases h

theorem react_handled_iff {env : Env} {w : World} {received : Received} {request : Request} :
    (react sqlite crypto env w received).handled = some request ↔
      received = .parsed request := by
  cases received with
  | parsed q => rw [react, (settle_world env w _ _).2.2]; simp
  | malformed refused =>
    rw [react, ServerThread.react, (settle_world env w _ _).2.2]
    · simp
    · intro q hq
      cases hq
  | partly p => simp [react, ServerThread.react]
  | endOfStream => simp [react, ServerThread.react]
  | failure => simp [react, ServerThread.react]

/-- Main lemma: a step that keeps the database is a step of the server without its files. -/
theorem next_kept (hread : s.readable = true) (hkeeps : KeepsDatabase s.system e) :
    s.next sqlite crypto e = (s.system.next crypto e).map fun system => ⟨system, true⟩ := by
  cases e with
  | accept => rw [Server.next, hread]
  | start => rw [Server.next, hread]
  | recv c r env =>
    simp only [Server.next, System.next]
    cases hthread : s.system.thread c with
    | none => rfl
    | some conn =>
      dsimp only
      split
      · next hawaits =>
        rw [withDatabase, if_pos hread, react_kept (hkeeps conn hthread),
          survives_kept (hkeeps conn hthread), hread,
          readStep_eq_react crypto env s.system.world hawaits]
        rfl
      · rfl

theorem step_kept (h : s.next sqlite crypto e = some t) (hread : s.readable = true)
    (hkeeps : KeepsDatabase s.system e) :
    Step crypto s.system e t.system ∧ t.readable = true := by
  rw [next_kept hread hkeeps] at h
  obtain ⟨system, hstep, rfl⟩ := Option.map_eq_some_iff.mp h
  exact ⟨hstep, rfl⟩

end Runs

end DatabaseFile
