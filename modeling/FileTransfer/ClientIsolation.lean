import FileTransfer.DatabaseFile
import FileTransfer.FileStoreRefinement
import FileTransfer.ClientChannel

/-! # Isolation of the clients

What a request of one client leaves alone of the others, and what its answer depends on.
Files in memory and on disk belong to the client into whose directory they lead; the rows are
those that SQLite finds in the database file. -/
namespace ClientIsolation

open ByteField PathWalk ServerProtocol ServerTables ServerState ServerFiles ServerDatabase
  ServerHandlers ServerThread RaisingProgram
open DatabaseFile (Sqlite Keeps approvedTables databaseFileAt databaseFileAt_eq_some react_kept
  react_saved react_sent savedFile savedFile_eq_some)

variable (crypto : PyCrypto) (env : Env)

section Definitions

def Belongs (w : World) (c : ClientId) (path : Text) : Prop :=
  StrictlyInside (clientFolder w c) (resolve [] (moves path))

def fileAt (disk : Disk) (loc : Loc) : Option Bytes :=
  match disk.node loc with
  | some (.file bytes) => some bytes
  | _ => none

/-- Two worlds have the same rows and files of a client. -/
structure SameFor (c : ClientId) (w w' : World) : Prop where
  clients : w'.db.server.filter (·.id = c) = w.db.server.filter (·.id = c)
  files : w'.db.files.filter (·.id = c) = w.db.files.filter (·.id = c)
  memory : ∀ path, Belongs w c path → w'.fileDict.get path = w.fileDict.get path
  disk : ∀ loc, StrictlyInside (clientFolder w c) loc → fileAt w'.disk loc = fileAt w.disk loc

def uploadFolders (w : World) (c : ClientId) : List Loc :=
  [clientFolder w c, w.srcDir.val ++ [clientDirectory c]]

/-- Two worlds of the same process agree on a client, its directories included. -/
structure Agree (c : ClientId) (w w' : World) : Prop extends SameFor c w w' where
  cwd : w'.cwd = w.cwd
  srcDir : w'.srcDir = w.srcDir
  sources : w'.disk.isDir w.srcDir.val = w.disk.isDir w.srcDir.val
  folders : ∀ loc ∈ uploadFolders w c, w'.disk.node loc = w.disk.node loc

/-- `touch` changes no row of another client: none has an id that is true, unless it was
seen at this very time. -/
def TouchesOwn (w : World) (a : ClientId) : Prop :=
  ∀ row ∈ w.db.server, row.id ≠ a → sqlTruth row.id.val = true → row.lastSeen = env.now

/-- The file is accepted: `storeFileinDB` gets as far as its `touch`. -/
def Accepted (t : Turn) (clientId : ClientId) (fileName : Text) : Prop :=
  if DirReady env t.world clientId then Committed t clientId fileName
  else (clientsDir env t.world clientId).isSome = true ∧ RowFound t clientId fileName ∧
    t.sql 1 = .done

def entry (dir : Text) (clientId : ClientId) (fileName : Text) (content : Option Bytes) : File :=
  uploaded clientId fileName dir content ((content.map crypto.crc32).getD 0xFFFFFF)

/-- What an upload reaches of other clients is left as it was. -/
def UploadLeaves (w : World) (a : ClientId) (fileName : Text) (content : Option Bytes) : Prop :=
  (∀ dir w', clientsDir env w a = some (dir, w') → ∀ b, b ≠ a →
    Belongs w b (joinPath dir fileName) →
      w.fileDict.get (joinPath dir fileName) = some (entry crypto dir a fileName content)) ∧
  (content.isSome = true → Accepted env (Turn.start w env).pop.pop a fileName →
    env.sql 4 = .done → TouchesOwn env w a)

/-- What an approval of a file reaches of other clients was already so. -/
structure ApprovalLeaves (w : World) (a : ClientId) (file : File) : Prop where
  entry : ∀ b, b ≠ a → Belongs w b file.fullPath → file.verified = true
  disk : ∀ b, b ≠ a → ∀ loc, StrictlyInside (clientFolder w b) loc →
    Opens env w.disk file.fullPath loc →
      w.disk.node loc = some (.file (writtenBytes env file.content).1)
  row : env.sql 3 = .done → file.clientId ≠ a → ∀ row ∈ w.db.files,
    row.id = file.clientId → row.fileName = file.filename → row.varified = true

/-- The request changes nothing of the clients other than that of its header. -/
def Leaves (w : World) : Request → Prop
  | .publicKey q => Known (Turn.start w env) q.header.clientID → env.sql 1 = .done →
      TouchesOwn env w q.header.clientID
  | .sendFile q => Known (Turn.start w env) q.header.clientID → env.sql 1 = .done →
      UploadLeaves crypto env w q.header.clientID q.fileName
        ((plainText crypto w q).map (·.take q.contentSize))
  | .crcValid q => Known (Turn.start w env) q.header.clientID →
      RowFound (Turn.start w env).pop q.clientID q.fileName →
        (env.sql 2 = .done → TouchesOwn env w q.header.clientID) ∧
        ∀ file, getFileInstance w q.clientID q.fileName = some file →
          ApprovalLeaves env w q.header.clientID file
  | _ => True

/-- An approval saves over a file of the database, in which SQLite then finds the rows of the
other clients as they were. -/
def Restores (sqlite : Sqlite) (w : World) (a : ClientId) (q : CrcStatusRequest) (file : File) :
    Prop :=
  let db := approvedTables sqlite env w q file
  ∀ b, b ≠ a → db.server.filter (·.id = b) = w.db.server.filter (·.id = b) ∧
    db.files.filter (·.id = b) = w.db.files.filter (·.id = b)

/-- `Leaves`, where the database is a file among the others. -/
def LeavesOthers (sqlite : Sqlite) (w : World) (request : Request) : Prop :=
  if Keeps env w (.parsed request) then Leaves crypto env w request
  else ∀ saved ∈ savedFile env w (.parsed request),
    Restores env sqlite w request.header.clientID saved.1 saved.2

/-- The request asks for the files of the client of its header only: no other client has the
name of an upload, and the payload of a checksum request names the same client and a file
below its directory. -/
def AsksOwn (w : World) : Request → Prop
  | .sendFile q => Known (Turn.start w env) q.header.clientID → env.sql 1 = .done →
      (plainText crypto w q).isSome = true → DirReady env w q.header.clientID →
        env.sql 3 = .done → ∀ b, b ≠ q.header.clientID → w.db.hasFile b q.fileName = false
  | .crcValid q | .crcResend q => Known (Turn.start w env) q.header.clientID →
      env.sql 1 = .done → q.clientID = q.header.clientID ∧
        (w.db.hasFile q.clientID q.fileName = true →
          Belongs w q.clientID (filePath w q.clientID q.fileName))
  | _ => True

def ofClient : Request → Bool
  | .publicKey _ => true
  | .sendFile _ => true
  | .crcValid _ => true
  | .crcResend _ => true
  | _ => false

end Definitions

section Rows

theorem filter_map_eq_iff {α : Type} {p : α → Bool} {g : α → α} {rows : List α}
    (hkey : ∀ row, p (g row) = p row) :
    (rows.map g).filter p = rows.filter p ↔ ∀ row ∈ rows, p row = true → g row = row := by
  have hcomp : p ∘ g = p := funext hkey
  rw [List.filter_map, hcomp]
  conv_lhs => rhs; rw [← List.map_id (rows.filter p)]
  rw [List.map_inj_left]
  constructor
  · intro h row hrow hp
    exact h row (List.mem_filter.mpr ⟨hrow, hp⟩)
  · intro h row hrow
    obtain ⟨hmem, hp⟩ := List.mem_filter.mp hrow
    exact h row hmem hp

variable {env} {w : World} {a b : ClientId} {db : Tables}

theorem filter_touchedRows_iff (c : ClientId) :
    (∀ b, b ≠ a → (touchedRows env (.id c) w.db.server).filter (·.id = b) =
      w.db.server.filter (·.id = b)) ↔ TouchesOwn env w a := by
  have hstable : ∀ b, (touchedRows env (.id c) w.db.server).filter (·.id = b) =
      w.db.server.filter (·.id = b) ↔ ∀ row ∈ w.db.server, row.id = b →
        sqlTruth row.id.val = true → row.lastSeen = env.now := by
    intro b
    rw [touchedRows, filter_map_eq_iff fun row => by split <;> rfl]
    refine forall₂_congr fun row _ => ?_
    rw [decide_eq_true_iff]
    refine forall_congr' fun _ => ?_
    have htouched : touched (.id c) row = sqlTruth row.id.val := Bool.or_false _
    rw [htouched]
    cases sqlTruth row.id.val with
    | false => simp
    | true =>
      rw [if_pos rfl]
      constructor
      · intro h _
        exact (congrArg ClientRow.lastSeen h).symm
      · intro h
        rw [← h rfl]
  constructor
  · intro h row hrow hne
    exact (hstable row.id).mp (h row.id hne) row hrow rfl
  · intro h b hb
    refine (hstable b).mpr fun row hrow hid => h row hrow ?_
    rw [hid]
    exact hb

theorem filter_updateClients (hb : b ≠ a) (f : ClientRow → ClientRow)
    (hf : ∀ row, (f row).id = row.id) :
    (db.updateClients (fun row => row.id = a) f hf).server.filter (·.id = b) =
      db.server.filter (·.id = b) := by
  refine (filter_map_eq_iff fun row => ?_).mpr fun row _ hid => ?_
  · split
    · rw [hf]
    · rfl
  · have hne : row.id ≠ a := by
      rw [of_decide_eq_true hid]
      exact hb
    rw [if_neg (by simpa using hne)]

theorem filter_setVarified_iff (c : ClientId) (fileName : Text) (varified : Bool) :
    (db.setVarified c fileName varified).files.filter (·.id = b) = db.files.filter (·.id = b) ↔
      (c = b → ∀ row ∈ db.files, row.id = c → row.fileName = fileName →
        row.varified = varified) := by
  refine (filter_map_eq_iff fun row => by split <;> rfl).trans ?_
  constructor
  · rintro h rfl row hrow hid hname
    have hset := h row hrow (by simpa using hid)
    rw [if_pos (by simp [hid, hname])] at hset
    exact (congrArg FileRow.varified hset).symm
  · intro h row hrow hid
    split
    · next hmatch =>
      obtain ⟨hname, hid'⟩ := (Bool.and_eq_true _ _).mp hmatch
      have hc : row.id = c := of_decide_eq_true hid'
      have hset := h (hc.symm.trans (of_decide_eq_true hid)) row hrow hc (of_decide_eq_true hname)
      rw [← hset]
    · rfl

theorem hasFile_filter (db : Tables) (c : ClientId) (fileName : Text) :
    db.hasFile c fileName =
      (db.files.filter (·.id = c)).any fun row => row.fileName = fileName := by
  rw [Tables.hasFile, List.any_filter]

theorem clientRow_filter (db : Tables) (c : ClientId) :
    db.clientRow c = (db.server.filter (·.id = c)).head? := by
  rw [Tables.clientRow, List.head?_filter]

end Rows

section Uploads

variable {t u : Turn} {clientId : ClientId} {fileName : Text}

structure StoreEffect (t u : Turn) (clientId : ClientId) (fileName : Text)
    (content : Option Bytes) : Prop where
  sent : u.sent = t.sent
  server : SeenAfter env t u clientId
    (content.isSome = true ∧ Accepted env t clientId fileName)
  files : u.world.db.files = t.world.db.files ∨
    u.world.db.files = (t.world.db.setVarified clientId fileName false).files ∨
    ∃ row : FileRow, row.id = clientId ∧ u.world.db.files = t.world.db.files ++ [row]
  fileDict : u.world.fileDict = match clientsDir env t.world clientId with
    | none => t.world.fileDict
    | some (dir, _) => t.world.fileDict.store (entry crypto dir clientId fileName content)
  disk : ∀ loc, u.world.disk.node loc = t.world.disk.node loc ∨
    t.world.disk.node loc = none ∧ u.world.disk.node loc = some .dir

theorem ready_effect (content : Bytes) (h : DirReady env t.world clientId) : ∃ file u,
    (storeFileinDB crypto env clientId fileName (some content)).run t = (.value file, u) ∧
      StoreEffect crypto env t u clientId fileName (some content) ∧
      (Accepted env t clientId fileName → file.map (·.crc) = some (crypto.crc32 content)) ∧
      (¬Accepted env t clientId fileName → file = none) := by
  obtain ⟨u, hrun, hu, hfiles, hserver⟩ := storeFileinDB_ready crypto env fileName content h
  obtain ⟨disk, hdir, -⟩ := clientsDir_of_ready env h
  have haccepted : Accepted env t clientId fileName ↔ Committed t clientId fileName := by
    rw [Accepted, if_pos h]
  have hseen : (some content).isSome = true ∧ Accepted env t clientId fileName ↔
      Committed t clientId fileName := (and_iff_right rfl).trans haccepted
  rw [haccepted]
  refine ⟨_, u, hrun, ⟨hu.sent, ?_, ?_, ?_, ?_⟩, fun hc => by rw [if_pos hc]; rfl,
    fun hc => if_neg hc⟩
  · rwa [propext hseen]
  · rw [hfiles]
    split
    · unfold storedRows
      split
      · exact .inr (.inl rfl)
      · exact .inr (.inr ⟨_, rfl, rfl⟩)
    · exact .inl rfl
  · rw [hdir]
    exact hu.fileDict
  · intro loc
    by_cases hloc : loc = clientFolder t.world clientId
    · have hmade := (Tree.isDir_iff _ _).mp hu.isDir
      subst hloc
      rcases h with h | ⟨-, -, -, hfree⟩
      · exact .inl (hmade.trans ((Tree.isDir_iff _ _).mp h).symm)
      · exact .inr ⟨hfree, hmade⟩
    · exact .inl (hu.disk loc hloc)

/-- A directory made where the lookups do not see it. -/
theorem not_ready_effect (content : Bytes) (h : ¬DirReady env t.world clientId)
    (hsome : (clientsDir env t.world clientId).isSome = true) : ∃ file u,
    (storeFileinDB crypto env clientId fileName (some content)).run t = (.value file, u) ∧
      StoreEffect crypto env t u clientId fileName (some content) ∧
      (Accepted env t clientId fileName → file.map (·.crc) = some (crypto.crc32 content)) ∧
      (¬Accepted env t clientId fileName → file = none) := by
  have haccepted : Accepted env t clientId fileName ↔
      RowFound t clientId fileName ∧ t.sql 1 = .done := by
    rw [Accepted, if_neg h]
    exact and_iff_right hsome
  obtain ⟨⟨dir, w⟩, hdir⟩ := Option.isSome_iff_exists.mp hsome
  obtain ⟨hdb, hold⟩ := clientsDir_world env hdir
  have hdisk : ∀ loc, w.disk.node loc = t.world.disk.node loc ∨
      t.world.disk.node loc = none ∧ w.disk.node loc = some .dir := clientsDir_disk env hdir
  have hdict : w.fileDict.store (entry crypto dir clientId fileName (some content)) =
      match clientsDir env t.world clientId with
      | none => t.world.fileDict
      | some (dir, _) => t.world.fileDict.store
          (entry crypto dir clientId fileName (some content)) := by
    rw [hdir, hold]
  by_cases hc : RowFound t clientId fileName ∧ t.sql 1 = .done
  · have haccepts := haccepted.mpr hc
    refine ⟨_, _, storeFileinDB_awayFound crypto env content hdir hc.1 hc.2,
      ⟨rfl, seenAfter_touch env rfl ⟨rfl, haccepts⟩ rfl, .inr (.inl ?_), ?_, ?_⟩, fun _ => rfl,
      fun hnot => absurd haccepts hnot⟩
    · rw [afterTouch_files]
      rfl
    · rw [afterTouch_fileDict, ← hdict]
      rfl
    · rw [afterTouch_disk]
      exact hdisk
  · have hno : ¬Accepted env t clientId fileName := haccepted.not.mpr hc
    obtain ⟨u, hrun, hsent, -, hworld⟩ := storeFileinDB_awayMissing crypto env content h hdir hc
    have hudb : u.world.db = t.world.db := by rw [hworld, World.store, hdb]
    refine ⟨none, u, hrun, ⟨hsent, seenAfter_refused env ?_ fun hc => hno hc.2, .inl ?_, ?_, ?_⟩,
      fun hc => absurd hc hno, fun _ => rfl⟩
    · rw [hudb]
    · rw [hudb]
    · rw [hworld, ← hdict]
      rfl
    · rw [hworld]
      exact hdisk

theorem noDir_effect (content : Option Bytes) (hdir : clientsDir env t.world clientId = none)
    (hno : ¬(content.isSome = true ∧ Accepted env t clientId fileName)) :
    StoreEffect crypto env t t clientId fileName content :=
  ⟨rfl, seenAfter_refused env rfl hno, .inl rfl, by rw [hdir], fun _ => .inl rfl⟩

theorem noContent_effect (t : Turn) (clientId : ClientId) (fileName : Text) : ∃ u,
    (storeFileinDB crypto env clientId fileName none).run t = (.value none, u) ∧
      StoreEffect crypto env t u clientId fileName none := by
  cases hdir : clientsDir env t.world clientId with
  | none =>
    exact ⟨t, storeFileinDB_noDir crypto env none hdir, noDir_effect crypto env none hdir (by simp)⟩
  | some dw =>
    obtain ⟨dir, w⟩ := dw
    obtain ⟨hdb, hold⟩ := clientsDir_world env hdir
    have hdisk : ∀ loc, w.disk.node loc = t.world.disk.node loc ∨
        t.world.disk.node loc = none ∧ w.disk.node loc = some .dir := clientsDir_disk env hdir
    refine ⟨_, storeFileinDB_noContent crypto env hdir, rfl,
      seenAfter_refused env (congrArg Tables.server hdb) (by simp),
      .inl (congrArg Tables.files hdb), ?_, hdisk⟩
    rw [hdir, ← hold]
    rfl

theorem storeFileinDB_effect (t : Turn) (clientId : ClientId) (fileName : Text)
    (content : Option Bytes) : ∃ file u,
    (storeFileinDB crypto env clientId fileName content).run t = (.value file, u) ∧
      StoreEffect crypto env t u clientId fileName content ∧
      (Accepted env t clientId fileName → file.map (·.crc) = content.map crypto.crc32) ∧
      (¬Accepted env t clientId fileName → file = none) := by
  cases content with
  | none =>
    obtain ⟨u, hrun, heffect⟩ := noContent_effect crypto env t clientId fileName
    exact ⟨none, u, hrun, heffect, fun _ => rfl, fun _ => rfl⟩
  | some content =>
    by_cases h : DirReady env t.world clientId
    · exact ready_effect crypto env content h
    · by_cases hsome : (clientsDir env t.world clientId).isSome = true
      · exact not_ready_effect crypto env content h hsome
      · have hdir := Option.not_isSome_iff_eq_none.mp hsome
        have hno : ¬Accepted env t clientId fileName := by
          rw [Accepted, if_neg h]
          exact fun hc => hsome hc.1
        exact ⟨none, t, storeFileinDB_noDir crypto env (some content) hdir,
          noDir_effect crypto env (some content) hdir fun hc => hno hc.2,
          fun hc => absurd hc hno, fun _ => rfl⟩

end Uploads

section Frames

variable {crypto env} {w : World} {a b : ClientId}

theorem owner_of_inside {loc : Loc} (ha : StrictlyInside (clientFolder w a) loc)
    (hb : StrictlyInside (clientFolder w b) loc) : a = b := by
  obtain ⟨names, -, rfl⟩ := ha
  obtain ⟨names', -, heq⟩ := hb
  rw [clientFolder, clientFolder, List.append_assoc, List.append_assoc] at heq
  have hcons := List.append_cancel_left heq
  rw [List.singleton_append, List.singleton_append, List.cons.injEq] at hcons
  exact clientDirectory_injective hcons.1

theorem fileAt_congr {disk disk' : Disk} {loc : Loc}
    (h : disk'.node loc = disk.node loc ∨ disk.node loc = none ∧ disk'.node loc = some .dir) :
    fileAt disk' loc = fileAt disk loc := by
  unfold fileAt
  rcases h with h | ⟨h, h'⟩
  · rw [h]
  · rw [h, h']

theorem fileAt_eq_some {disk : Disk} {loc : Loc} {bytes : Bytes} :
    fileAt disk loc = some bytes ↔ disk.node loc = some (.file bytes) := by
  unfold fileAt
  split
  · next hnode => rw [hnode, Option.some_inj, Option.some_inj, Node.file.injEq]
  · next hnode => exact iff_of_false (by simp) fun h => hnode bytes h

theorem filter_seenAfter_iff {t u : Turn} {accepted : Prop} (h : SeenAfter env t u a accepted) :
    (∀ b, b ≠ a → u.world.db.server.filter (·.id = b) = t.world.db.server.filter (·.id = b)) ↔
      (accepted → t.sql 2 = .done → TouchesOwn env t.world a) := by
  by_cases hc : accepted ∧ t.sql 2 = .done
  · rw [h.touched hc.1 hc.2, filter_touchedRows_iff]
    exact ⟨fun ht _ _ => ht, fun ht => ht hc.1 hc.2⟩
  · rw [h.quiet hc]
    exact iff_of_true (fun _ _ => rfl) fun h₁ h₂ => absurd ⟨h₁, h₂⟩ hc

theorem filter_afterTouch_iff {t : Turn} (c : ClientId) :
    (∀ b, b ≠ a → (afterTouch env (.id c) t).world.db.server.filter (·.id = b) =
      t.world.db.server.filter (·.id = b)) ↔ (t.next = .done → TouchesOwn env t.world a) := by
  rw [afterTouch_server]
  split
  · next hn =>
    rw [filter_touchedRows_iff]
    exact ⟨fun ht _ => ht, fun ht => ht hn⟩
  · next hn => exact iff_of_true (fun _ _ => rfl) fun h => absurd h hn

theorem sameFor_iff_clients {w' : World} (hfiles : w'.db.files = w.db.files)
    (hdict : w'.fileDict = w.fileDict) (hdisk : w'.disk = w.disk) :
    SameFor b w w' ↔ w'.db.server.filter (·.id = b) = w.db.server.filter (·.id = b) :=
  ⟨fun h => h.clients,
    fun h => ⟨h, by rw [hfiles], fun _ _ => by rw [hdict], fun _ _ => by rw [hdisk]⟩⟩

theorem sameFor_refl (b : ClientId) (w : World) : SameFor b w w :=
  (sameFor_iff_clients rfl rfl rfl).mpr rfl

theorem publicKey_rows {q : PublicKeyRequest} (hk : Known (Turn.start w env) q.header.clientID)
    (hb : b ≠ q.header.clientID) :
    SameFor b w ((publicKey crypto env q).run (Turn.start w env)).2.world ↔
      (afterTouch env (.id q.header.clientID) (Turn.start w env).pop).world.db.server.filter
        (·.id = b) = w.db.server.filter (·.id = b) := by
  have hseen : SameFor b w (afterTouch env (.id q.header.clientID) (Turn.start w env).pop).world ↔
      (afterTouch env (.id q.header.clientID) (Turn.start w env).pop).world.db.server.filter
        (·.id = b) = w.db.server.filter (·.id = b) :=
    sameFor_iff_clients (by simp) (by simp) (by simp)
  by_cases h₂ : env.sql 2 = .done
  · have hkey : (keyedTurn env q (Turn.start w env)).world.db.server.filter (·.id = b) =
        (afterTouch env (.id q.header.clientID) (Turn.start w env).pop).world.db.server.filter
          (·.id = b) :=
      filter_updateClients hb (fun row => { row with publicKey := some q.publicKey.val })
        fun _ => rfl
    have hkeyed : SameFor b w (keyedTurn env q (Turn.start w env)).world ↔
        (afterTouch env (.id q.header.clientID) (Turn.start w env).pop).world.db.server.filter
          (·.id = b) = w.db.server.filter (·.id = b) := by
      rw [sameFor_iff_clients (by simp [keyedTurn]) (by simp [keyedTurn]) (by simp [keyedTurn]),
        hkey]
    have haes : (sessionTurn env q (Turn.start w env)).world.db.server.filter (·.id = b) =
        (keyedTurn env q (Turn.start w env)).world.db.server.filter (·.id = b) :=
      filter_updateClients hb (fun row => { row with aesKey := some env.aesKey.val }) fun _ => rfl
    have hsession : SameFor b w (sessionTurn env q (Turn.start w env)).world ↔
        (afterTouch env (.id q.header.clientID) (Turn.start w env).pop).world.db.server.filter
          (·.id = b) = w.db.server.filter (·.id = b) := by
      rw [sameFor_iff_clients (by simp [sessionTurn, keyedTurn])
        (by simp [sessionTurn, keyedTurn]) (by simp [sessionTurn, keyedTurn]), haes, hkey]
    rw [publicKey_set crypto env hk h₂]
    split
    · exact hkeyed
    · split
      · exact hkeyed
      · cases encryptAesKeyWithRsaPublic crypto env env.aesKey.val q.publicKey.val with
        | none => exact hsession
        | some key =>
          dsimp only
          rw [write_world]
          exact hsession
  · rw [publicKey_unset crypto env hk h₂]
    dsimp only
    split
    · exact hseen
    · rw [refuse_world]
      exact hseen

theorem publicKey_leaves_iff (q : PublicKeyRequest) :
    (∀ b, b ≠ q.header.clientID →
      SameFor b w ((publicKey crypto env q).run (Turn.start w env)).2.world) ↔
        Leaves crypto env w (.publicKey q) := by
  rw [Leaves]
  by_cases hk : Known (Turn.start w env) q.header.clientID
  · rw [imp_iff_right hk]
    refine (forall₂_congr fun b hb => @publicKey_rows crypto env w b q hk hb).trans ?_
    exact filter_afterTouch_iff (t := (Turn.start w env).pop) _
  · rw [publicKey_unknown crypto env hk, refuse_world]
    exact iff_of_true (fun b _ => sameFor_refl b w) fun h => absurd h hk

theorem upload_leaves_iff {u : Turn} {fileName : Text} {content : Option Bytes}
    (h : StoreEffect crypto env (Turn.start w env).pop.pop u a fileName content) :
    (∀ b, b ≠ a → SameFor b w u.world) ↔ UploadLeaves crypto env w a fileName content := by
  have hseen := filter_seenAfter_iff h.server
  have hdict := h.fileDict
  constructor
  · intro hsame
    refine ⟨fun dir w' hdir b hb hbelongs => ?_, fun hsome haccepted =>
      hseen.mp (fun b hb => (hsame b hb).clients) ⟨hsome, haccepted⟩⟩
    rw [show clientsDir env (Turn.start w env).pop.pop.world a = some (dir, w') from hdir] at hdict
    have hpath := (hsame b hb).memory _ hbelongs
    rw [hdict] at hpath
    dsimp only at hpath
    rw [FileDict.store_get, if_pos (by rfl)] at hpath
    exact hpath.symm
  · rintro ⟨hentry, htouch⟩ b hb
    refine ⟨hseen.mpr (fun hc => htouch hc.1 hc.2) b hb, ?_, fun path hpath => ?_,
      fun loc _ => fileAt_congr (h.disk loc)⟩
    · rcases h.files with hf | hf | ⟨row, hid, hf⟩
      · rw [hf]
        rfl
      · rw [hf]
        exact (filter_setVarified_iff a fileName false).mpr fun hab => absurd hab.symm hb
      · have hno : decide (row.id = b) = false := decide_eq_false (hid ▸ hb.symm)
        rw [hf, List.filter_append, List.filter_singleton, hno]
        simp
    · cases hdir : clientsDir env w a with
      | none =>
        rw [show clientsDir env (Turn.start w env).pop.pop.world a = none from hdir] at hdict
        rw [hdict]
        rfl
      | some dw =>
        obtain ⟨dir, w'⟩ := dw
        rw [show clientsDir env (Turn.start w env).pop.pop.world a = some (dir, w') from hdir]
          at hdict
        rw [hdict]
        dsimp only
        rw [FileDict.store_get]
        split
        · next heq =>
          have hfull : path = joinPath dir fileName := heq
          rw [hfull] at hpath ⊢
          exact (hentry dir w' hdir b hb hpath).symm
        · rfl

theorem sendFile_leaves_iff (q : RequestToSendFile) :
    (∀ b, b ≠ q.header.clientID →
      SameFor b w ((sendFile crypto env q).run (Turn.start w env)).2.world) ↔
        Leaves crypto env w (.sendFile q) := by
  rw [Leaves]
  by_cases hk : Known (Turn.start w env) q.header.clientID
  · by_cases h₁ : env.sql 1 = .done
    · obtain ⟨row, hrow⟩ := hasClient_iff.mp hk.2
      have hplain : decrypt crypto q.fileContent row.aesKey q.contentSize =
          (plainText crypto w q).map (·.take q.contentSize) := decrypt_eq crypto hrow
      obtain ⟨file, u, hrun, heffect, -⟩ := storeFileinDB_effect crypto env
        (Turn.start w env).pop.pop q.header.clientID q.fileName
        (decrypt crypto q.fileContent row.aesKey q.contentSize)
      rw [sendFile_stored crypto env hk h₁ hrow hrun, write_world, imp_iff_right hk,
        imp_iff_right h₁]
      rw [hplain] at heffect
      exact upload_leaves_iff heffect
    · obtain ⟨e, hrun⟩ := sendFile_noKey crypto env hk h₁
      rw [hrun]
      exact iff_of_true (fun b _ => sameFor_refl b w) fun _ h => absurd h h₁
  · rw [sendFile_unknown crypto env hk, refuse_world]
    exact iff_of_true (fun b _ => sameFor_refl b w) fun h => absurd h hk

section Approved

variable {file : File} {c : ClientId}

theorem verified_clients (b : ClientId) :
    (verifiedWorld env file c true (Turn.start w env).pop).db.server.filter (·.id = b) =
      (afterTouch env (.id c) (Turn.start w env).pop.pop).world.db.server.filter (·.id = b) := by
  simp only [verifiedWorld]
  split <;> rfl

theorem verified_rows_iff (b : ClientId) :
    (verifiedWorld env file c true (Turn.start w env).pop).db.files.filter (·.id = b) =
        w.db.files.filter (·.id = b) ↔
      (env.sql 3 = .done → file.clientId = b → ∀ row ∈ w.db.files,
        row.id = file.clientId → row.fileName = file.filename → row.varified = true) := by
  have hold : (afterTouch env (.id c) (Turn.start w env).pop.pop).world.db.files =
      w.db.files := afterTouch_files ..
  simp only [verifiedWorld]
  rw [← hold]
  split
  · next h₃ =>
    have h₃' : env.sql 3 = .done := h₃
    rw [filter_setVarified_iff, imp_iff_right h₃']
  · next h₃ =>
    exact iff_of_true rfl fun h => absurd h h₃

theorem verified_entry_iff (hentry : w.fileDict.get file.fullPath = some file) (path : Text) :
    (verifiedWorld env file c true (Turn.start w env).pop).fileDict.get path =
      w.fileDict.get path ↔ (path = file.fullPath → file.verified = true) := by
  simp only [verifiedWorld, World.store, FileDict.store_get, afterTouch_fileDict]
  by_cases hpath : path = file.fullPath
  · rw [if_pos (by exact hpath), imp_iff_right hpath, hpath]
    rw [hentry, Option.some_inj]
    constructor
    · intro h
      exact (congrArg File.verified h).symm
    · intro h
      rw [← h]
  · rw [if_neg (by exact hpath)]
    exact iff_of_true rfl fun h => absurd h hpath

end Approved

theorem verified_leaves_iff {q : CrcStatusRequest} {file : File}
    (hfile : getFileInstance w q.clientID q.fileName = some file) :
    (∀ b, b ≠ a → SameFor b w (verifiedWorld env file q.clientID true (Turn.start w env).pop)) ↔
      (env.sql 2 = .done → TouchesOwn env w a) ∧ ApprovalLeaves env w a file := by
  have hmemory := @verified_entry_iff env w file q.clientID (getFileInstance_keyed hfile).2.1
  have hnode : ∀ loc,
      (verifiedWorld env file q.clientID true (Turn.start w env).pop).disk.node loc =
      (saved env w.disk file.fullPath file.content).1.node loc := fun loc => rfl
  constructor
  · intro h
    refine ⟨(filter_afterTouch_iff (t := (Turn.start w env).pop.pop) q.clientID).mp fun b hb =>
      (verified_clients b).symm.trans (h b hb).clients, fun b hb hbelongs => ?_,
      fun b hb loc hloc hopens => ?_,
      fun h₃ hne => (verified_rows_iff _).mp (h _ hne).files h₃ rfl⟩
    · exact (hmemory _).mp ((h b hb).memory _ hbelongs) rfl
    · have hsame := (h b hb).disk loc hloc
      rw [fileAt, hnode, (saved_opens env file.content hopens).2, Function.update_self] at hsame
      exact fileAt_eq_some.mp hsame.symm
  · rintro ⟨htouch, hleaves⟩ b hb
    have hseen :=
      (filter_afterTouch_iff (t := (Turn.start w env).pop.pop) q.clientID).mpr htouch b hb
    refine ⟨(verified_clients b).trans hseen, (verified_rows_iff b).mpr fun h₃ hid => ?_,
      fun path hpath => ?_, fun loc hloc => ?_⟩
    · exact hleaves.row h₃ (hid ▸ hb)
    · refine (hmemory path).mpr ?_
      rintro rfl
      exact hleaves.entry b hb hpath
    · unfold fileAt
      rw [hnode]
      by_cases hopens : Opens env w.disk file.fullPath loc
      · rw [(saved_opens env file.content hopens).2, Function.update_self,
          hleaves.disk b hb loc hloc hopens]
      · rw [saved_node_of_not_opens env _ hopens]

theorem crcValid_leaves_iff (q : CrcStatusRequest) :
    (∀ b, b ≠ q.header.clientID →
      SameFor b w ((crcValid env q).run (Turn.start w env)).2.world) ↔
        Leaves crypto env w (.crcValid q) := by
  rw [Leaves]
  by_cases hsaves : Saves env w q
  · obtain ⟨hk, hrow, hsome⟩ := id hsaves
    obtain ⟨file, hfile⟩ := Option.isSome_iff_exists.mp hsome
    obtain ⟨u, hrun, hworld, -⟩ := crcValid_saves env hsaves hfile
    have hafter : ((crcValid env q).run (Turn.start w env)).2.world =
        verifiedWorld env file q.clientID true (Turn.start w env).pop := by
      rw [hrun, ← hworld]
      split
      · rw [refuse_world]
      · rw [write_world]
    rw [hafter, verified_leaves_iff hfile, imp_iff_right hk, imp_iff_right hrow, hfile]
    refine and_congr_right fun _ => ⟨fun h file' hfile' => ?_, fun h => h file rfl⟩
    cases hfile'
    exact h
  · obtain ⟨u, hrun, hu, hserver⟩ := crcValid_refused env hsaves
    rw [hrun, refuse_world]
    refine (forall₂_congr fun b _ => sameFor_iff_clients hu.files hu.fileDict hu.disk).trans ?_
    by_cases hfound : Known (Turn.start w env) q.header.clientID ∧
        RowFound (Turn.start w env).pop q.clientID q.fileName
    · obtain ⟨hk, hrow⟩ := hfound
      have hnone : ∀ file, getFileInstance w q.clientID q.fileName ≠ some file := fun file hfile =>
        hsaves ⟨hk, hrow, Option.isSome_iff_exists.mpr ⟨file, hfile⟩⟩
      rw [imp_iff_right hk, imp_iff_right hrow,
        and_iff_left fun file hfile => absurd hfile (hnone file)]
      rw [hserver.1 hk hrow]
      exact filter_afterTouch_iff (t := (Turn.start w env).pop.pop) q.clientID
    · rw [hserver.2 hfound]
      exact iff_of_true (fun _ _ => rfl) fun hk hrow => absurd ⟨hk, hrow⟩ hfound

theorem crcResend_world (q : CrcStatusRequest) :
    ((crcResend crypto env q).run (Turn.start w env)).2.world = w := by
  by_cases hk : Known (Turn.start w env) q.header.clientID
  · rw [crcResend_known crypto env hk]
    cases resendFile q (Turn.start w env) with
    | none =>
      dsimp only
      rw [Prog.run_bind, write_run]
      cases env.sendOk <;> rfl
    | some file =>
      dsimp only
      cases file.content with
      | none => rfl
      | some content =>
        dsimp only
        rw [write_world]
        rfl
  · rw [crcResend_unknown crypto env hk, refuse_world]
    rfl

end Frames

section Answers

variable {crypto env} {w w' : World} {a : ClientId}

def SameAnswer (r r' : Outcome PyError Bool × Turn) : Prop := r.1 = r'.1 ∧ r.2.sent = r'.2.sent

theorem sameAnswer_write {u u' : Turn} (h : u.sent = u'.sent) (response : Response) :
    SameAnswer ((write env response).run u) ((write env response).run u') := by
  rw [write_run, write_run]
  split
  · exact ⟨rfl, by rw [send_sent, send_sent, h]⟩
  · exact ⟨rfl, h⟩

theorem sameAnswer_refuse {u u' : Turn} (h : u.sent = u'.sent) :
    SameAnswer ((refuse env).run u) ((refuse env).run u') := by
  rw [refuse_run, refuse_run]
  split
  · exact ⟨rfl, by rw [send_sent, send_sent, h]⟩
  · exact ⟨rfl, h⟩

theorem sameAnswer_ite {p p' : Prop} [Decidable p] [Decidable p']
    {r₁ r₂ r₁' r₂' : Outcome PyError Bool × Turn} (hp : p ↔ p') (h₁ : SameAnswer r₁ r₁')
    (h₂ : SameAnswer r₂ r₂') :
    SameAnswer (if p then r₁ else r₂) (if p' then r₁' else r₂') := by
  by_cases h : p
  · rwa [if_pos h, if_pos (hp.mp h)]
  · rwa [if_neg h, if_neg (hp.not.mp h)]

theorem settle_sent_congr {handled : Option Request} {handler : ServerM Bool}
    (h : SameAnswer (handler.run (Turn.start w env)) (handler.run (Turn.start w' env))) :
    (settle env w handled handler).sent = (settle env w' handled handler).sent := by
  rcases hw : handler.run (Turn.start w env) with ⟨o, u⟩
  rcases hw' : handler.run (Turn.start w' env) with ⟨o', u'⟩
  rw [hw, hw'] at h
  obtain ⟨ho, hsent⟩ := h
  dsimp only at ho hsent
  subst ho
  cases o with
  | value b => rw [settle_value env hw, settle_value env hw', hsent]
  | raised e => rw [settle_raised env hw, settle_raised env hw', hsent]
  | hangs => rw [settle_hangs env hw, settle_hangs env hw', hsent]

section Agreement

variable (h : Agree a w w')
include h

theorem agree_clientRow : w'.db.clientRow a = w.db.clientRow a := by
  rw [clientRow_filter, clientRow_filter, h.clients]

theorem agree_known : Known (Turn.start w' env) a ↔ Known (Turn.start w env) a := by
  have hclient : w'.db.hasClient a = w.db.hasClient a := by
    rw [Bool.eq_iff_iff, hasClient_iff, hasClient_iff, agree_clientRow h]
  rw [Known, Known, start_world, start_world, hclient]
  rfl

theorem agree_hasFile (fileName : Text) :
    w'.db.hasFile a fileName = w.db.hasFile a fileName := by
  rw [hasFile_filter, hasFile_filter, h.files]

theorem agree_folder : clientFolder w' a = clientFolder w a := by
  rw [clientFolder, h.cwd, clientFolder]

theorem agree_isDir : w'.disk.isDir (clientFolder w a) = w.disk.isDir (clientFolder w a) := by
  unfold Tree.isDir
  rw [h.folders _ (.head _)]

theorem agree_getFileInstance {fileName : Text} (hpath : Belongs w a (filePath w a fileName)) :
    getFileInstance w' a fileName = getFileInstance w a fileName := by
  rw [getFileInstance, filePath, agree_folder h, agree_isDir h, ← filePath, h.memory _ hpath,
    getFileInstance]

theorem agree_dirReady : DirReady env w' a ↔ DirReady env w a := by
  rw [DirReady, DirReady, agree_folder h, agree_isDir h, h.cwd, h.srcDir, h.sources,
    h.folders _ (.head _)]

theorem agree_clientsDir :
    (clientsDir env w' a).isSome = (clientsDir env w a).isSome := by
  have hmkdir : (w'.disk.mkdir w'.srcDir.val (clientDirectory a)).isSome =
      (w.disk.mkdir w.srcDir.val (clientDirectory a)).isSome := by
    have hnode := h.folders _ (.tail _ (.head _))
    rw [h.srcDir, Tree.mkdir, Tree.mkdir]
    simp only [h.sources, hnode]
    split <;> rfl
  rw [clientsDir, clientsDir, agree_folder h, agree_isDir h]
  split
  · rfl
  · rw [Option.isSome_map, Option.isSome_map]
    split
    · exact hmkdir
    · rfl

theorem agree_taken {fileName : Text}
    (hother : ∀ b, b ≠ a → w.db.hasFile b fileName = false)
    (hother' : ∀ b, b ≠ a → w'.db.hasFile b fileName = false) :
    w'.db.fileNameTaken fileName = w.db.fileNameTaken fileName := by
  have htaken : ∀ {db : Tables}, (∀ b, b ≠ a → db.hasFile b fileName = false) →
      db.fileNameTaken fileName = db.hasFile a fileName := by
    intro db hno
    rw [Bool.eq_iff_iff]
    refine ⟨fun ht => ?_, fileNameTaken_of_hasFile⟩
    obtain ⟨row, hrow, rfl⟩ := fileNameTaken_iff.mp ht
    have howner : db.hasFile row.id row.fileName = true := hasFile_iff.mpr ⟨row, hrow, rfl, rfl⟩
    by_cases hid : row.id = a
    · rwa [hid] at howner
    · rw [hno row.id hid] at howner
      cases howner
  rw [htaken hother, htaken hother', agree_hasFile h]

theorem agree_accepted {fileName : Text}
    (hother : DirReady env w a → env.sql 3 = .done → ∀ b, b ≠ a → w.db.hasFile b fileName = false)
    (hother' : DirReady env w a → env.sql 3 = .done →
      ∀ b, b ≠ a → w'.db.hasFile b fileName = false) :
    Accepted env (Turn.start w' env).pop.pop a fileName ↔
      Accepted env (Turn.start w env).pop.pop a fileName := by
  have hrow : RowFound (Turn.start w' env).pop.pop a fileName ↔
      RowFound (Turn.start w env).pop.pop a fileName := by
    rw [RowFound, RowFound]
    exact and_congr_right' (by
      rw [pop_world, pop_world, start_world, agree_hasFile h]
      rfl)
  have hready : DirReady env (Turn.start w' env).pop.pop.world a ↔
      DirReady env (Turn.start w env).pop.pop.world a := agree_dirReady h
  have hdir : (clientsDir env (Turn.start w' env).pop.pop.world a).isSome =
      (clientsDir env (Turn.start w env).pop.pop.world a).isSome := agree_clientsDir h
  unfold Accepted
  by_cases hr : DirReady env (Turn.start w env).pop.pop.world a
  · rw [if_pos hr, if_pos (hready.mpr hr), Committed, Committed]
    refine and_congr_right fun h₃ => ?_
    have htaken := agree_taken h (hother hr h₃) (hother' hr h₃)
    have htaken' : (Turn.start w' env).pop.pop.world.db.fileNameTaken fileName =
        (Turn.start w env).pop.pop.world.db.fileNameTaken fileName := htaken
    rw [hrow, htaken']
  · rw [if_neg hr, if_neg (hready.not.mpr hr), hdir, hrow]
    rfl

end Agreement

theorem publicKey_sameAnswer {q : PublicKeyRequest} (h : Agree q.header.clientID w w') :
    SameAnswer ((publicKey crypto env q).run (Turn.start w' env))
      ((publicKey crypto env q).run (Turn.start w env)) := by
  by_cases hk : Known (Turn.start w env) q.header.clientID
  · have hk' := (@agree_known env w w' _ h).mpr hk
    by_cases h₂ : env.sql 2 = .done
    · rw [publicKey_set crypto env hk h₂, publicKey_set crypto env hk' h₂]
      apply sameAnswer_ite Iff.rfl
      · exact ⟨rfl, rfl⟩
      apply sameAnswer_ite Iff.rfl
      · exact ⟨rfl, rfl⟩
      cases encryptAesKeyWithRsaPublic crypto env env.aesKey.val q.publicKey.val with
      | none => exact ⟨rfl, rfl⟩
      | some key =>
        refine sameAnswer_write ?_ _
        simp [sessionTurn, keyedTurn]
    · rw [publicKey_unset crypto env hk h₂, publicKey_unset crypto env hk' h₂]
      dsimp only
      apply sameAnswer_ite Iff.rfl
      · exact ⟨rfl, rfl⟩
      · refine sameAnswer_refuse ?_
        simp
  · have hk' := (@agree_known env w w' _ h).not.mpr hk
    rw [publicKey_unknown crypto env hk, publicKey_unknown crypto env hk']
    exact sameAnswer_refuse rfl

theorem sendFile_sent_eq {q : RequestToSendFile} (h : Agree q.header.clientID w w')
    (hw : AsksOwn crypto env w (.sendFile q)) (hw' : AsksOwn crypto env w' (.sendFile q)) :
    (settle env w' (some (.sendFile q)) (sendFile crypto env q)).sent =
      (settle env w (some (.sendFile q)) (sendFile crypto env q)).sent := by
  by_cases hk : Known (Turn.start w env) q.header.clientID
  · have hk' := (@agree_known env w w' _ h).mpr hk
    by_cases h₁ : env.sql 1 = .done
    · obtain ⟨row, hrow⟩ : ∃ row, w.db.clientRow q.header.clientID = some row :=
        hasClient_iff.mp hk.2
      have hrow' : w'.db.clientRow q.header.clientID = some row := (agree_clientRow h).trans hrow
      obtain ⟨file, u, hrun, heffect, hyes, hno⟩ := storeFileinDB_effect crypto env
        (Turn.start w env).pop.pop q.header.clientID q.fileName
        (decrypt crypto q.fileContent row.aesKey q.contentSize)
      obtain ⟨file', u', hrun', heffect', hyes', hno'⟩ := storeFileinDB_effect crypto env
        (Turn.start w' env).pop.pop q.header.clientID q.fileName
        (decrypt crypto q.fileContent row.aesKey q.contentSize)
      have hcrc : file'.map (·.crc) = file.map (·.crc) := by
        have hplain := decrypt_eq crypto hrow
        have hplain' : plainText crypto w' q = plainText crypto w q := by
          rw [plainText, hrow', plainText, hrow]
        by_cases hsome : (plainText crypto w q).isSome = true
        · have hiff := @agree_accepted env w w' q.header.clientID h q.fileName
            (hw hk h₁ hsome)
            (fun hr => hw' hk' h₁ (hplain' ▸ hsome) ((agree_dirReady h).mpr hr))
          by_cases haccepted : Accepted env (Turn.start w env).pop.pop q.header.clientID q.fileName
          · rw [hyes haccepted, hyes' (hiff.mpr haccepted)]
          · rw [hno haccepted, hno' (hiff.not.mpr haccepted)]
        · have hnone : decrypt crypto q.fileContent row.aesKey q.contentSize = none := by
            rw [hplain, Option.not_isSome_iff_eq_none.mp hsome]
            rfl
          have hfail : ∀ {p : Prop} {file : Option File}, (p → file.map (·.crc) =
              (none : Option Bytes).map crypto.crc32) → (¬p → file = none) →
                file.map (·.crc) = none := by
            intro p file hy hn
            by_cases hp : p
            · exact hy hp
            · rw [hn hp]
              rfl
          rw [hnone] at hyes hyes'
          rw [hfail hyes hno, hfail hyes' hno']
      have hanswered : answeredCrc file' = answeredCrc file := by
        have hget : ∀ f : Option File, answeredCrc f = (f.map (·.crc)).getD 0 := by
          intro f
          cases f <;> rfl
        rw [hget, hget, hcrc]
      apply settle_sent_congr
      rw [sendFile_stored crypto env hk h₁ hrow hrun, sendFile_stored crypto env hk' h₁ hrow' hrun',
        hanswered]
      exact sameAnswer_write (by rw [heffect.sent, heffect'.sent]; rfl) _
    · obtain ⟨e, hrun⟩ := sendFile_noKey crypto env hk h₁
      obtain ⟨e', hrun'⟩ := sendFile_noKey crypto env hk' h₁
      rw [settle_raised env hrun, settle_raised env hrun']
      rfl
  · have hk' := (@agree_known env w w' _ h).not.mpr hk
    apply settle_sent_congr
    rw [sendFile_unknown crypto env hk, sendFile_unknown crypto env hk']
    exact sameAnswer_refuse rfl

theorem crcValid_sameAnswer {q : CrcStatusRequest} (h : Agree q.header.clientID w w')
    (hw : AsksOwn crypto env w (.crcValid q)) :
    SameAnswer ((crcValid env q).run (Turn.start w' env))
      ((crcValid env q).run (Turn.start w env)) := by
  have hiff : Saves env w' q ↔ Saves env w q := by
    unfold Saves
    rw [agree_known h]
    refine and_congr_right fun hk => ?_
    constructor
    · rintro ⟨⟨h₁, hrow⟩, hsome⟩
      obtain ⟨hown, hfound⟩ := hw hk h₁
      have h' : Agree q.clientID w w' := hown ▸ h
      have hrow' : w.db.hasFile q.clientID q.fileName = true := by
        rw [← agree_hasFile h']
        exact hrow
      rw [agree_getFileInstance h' (hfound hrow')] at hsome
      exact ⟨⟨h₁, hrow'⟩, hsome⟩
    · rintro ⟨⟨h₁, hrow⟩, hsome⟩
      obtain ⟨hown, hfound⟩ := hw hk h₁
      have h' : Agree q.clientID w w' := hown ▸ h
      have hrow' : w'.db.hasFile q.clientID q.fileName = true := by
        rw [agree_hasFile h']
        exact hrow
      rw [← agree_getFileInstance h' (hfound hrow)] at hsome
      exact ⟨⟨h₁, hrow'⟩, hsome⟩
  by_cases hsaves : Saves env w q
  · have hsaves' := hiff.mpr hsaves
    obtain ⟨file, hfile⟩ := Option.isSome_iff_exists.mp hsaves.2.2
    obtain ⟨file', hfile'⟩ := Option.isSome_iff_exists.mp hsaves'.2.2
    obtain ⟨u, hrun, -, hsent, -⟩ := crcValid_saves env hsaves hfile
    obtain ⟨u', hrun', -, hsent', -⟩ := crcValid_saves env hsaves' hfile'
    rw [hrun, hrun']
    split
    · exact sameAnswer_refuse (by rw [hsent, hsent'])
    · exact sameAnswer_write (by rw [hsent, hsent']) _
  · obtain ⟨u, hrun, hu, -⟩ := crcValid_refused env hsaves
    obtain ⟨u', hrun', hu', -⟩ := crcValid_refused env (hiff.not.mpr hsaves)
    rw [hrun, hrun']
    exact sameAnswer_refuse (by rw [hu.sent, hu'.sent])

theorem crcResend_sameAnswer {q : CrcStatusRequest} (h : Agree q.header.clientID w w')
    (hw : AsksOwn crypto env w (.crcResend q)) :
    SameAnswer ((crcResend crypto env q).run (Turn.start w' env))
      ((crcResend crypto env q).run (Turn.start w env)) := by
  by_cases hk : Known (Turn.start w env) q.header.clientID
  · have hk' := (@agree_known env w w' _ h).mpr hk
    have hfile : resendFile q (Turn.start w' env) = resendFile q (Turn.start w env) := by
      unfold resendFile
      by_cases h₁ : env.sql 1 = .done
      · obtain ⟨hown, hfound⟩ := hw hk h₁
        have h' : Agree q.clientID w w' := hown ▸ h
        rw [start_world, start_world, agree_hasFile h']
        by_cases hrow : w.db.hasFile q.clientID q.fileName = true
        · rw [agree_getFileInstance h' (hfound hrow)]
          rfl
        · rw [if_neg fun hc => hrow hc.2, if_neg fun hc => hrow hc.2]
      · rw [if_neg fun hc => h₁ hc.1, if_neg fun hc => h₁ hc.1]
    rw [crcResend_known crypto env hk, crcResend_known crypto env hk', hfile]
    cases resendFile q (Turn.start w env) with
    | none =>
      dsimp only
      rw [Prog.run_bind, write_run, Prog.run_bind, write_run]
      cases env.sendOk <;> exact ⟨rfl, rfl⟩
    | some file =>
      dsimp only
      cases file.content with
      | none => exact ⟨rfl, rfl⟩
      | some content =>
        refine sameAnswer_write ?_ _
        rfl
  · have hk' := (@agree_known env w w' _ h).not.mpr hk
    rw [crcResend_unknown crypto env hk, crcResend_unknown crypto env hk']
    exact sameAnswer_refuse rfl

end Answers

section Isolation

variable {crypto env} {w : World} {request : Request}

theorem leaves_iff (hclient : ofClient request = true) :
    (∀ b, b ≠ request.header.clientID →
      SameFor b w ((handle crypto env request).run (Turn.start w env)).2.world) ↔
        Leaves crypto env w request := by
  cases request with
  | registration q => cases hclient
  | publicKey q => exact publicKey_leaves_iff q
  | sendFile q => exact sendFile_leaves_iff q
  | crcValid q => exact crcValid_leaves_iff q
  | crcResend q =>
    refine iff_of_true (fun b _ => ?_) trivial
    have hworld := @crcResend_world crypto env w q
    rw [handle, hworld]
    exact sameFor_refl b w
  | crcAbort q => cases hclient

theorem sent_eq {w' : World} (hclient : ofClient request = true)
    (h : Agree request.header.clientID w w') (hw : AsksOwn crypto env w request)
    (hw' : AsksOwn crypto env w' request) :
    (settle env w' (some request) (handle crypto env request)).sent =
      (settle env w (some request) (handle crypto env request)).sent := by
  cases request with
  | registration q => cases hclient
  | publicKey q => exact settle_sent_congr (publicKey_sameAnswer h)
  | sendFile q => exact sendFile_sent_eq h hw hw'
  | crcValid q => exact settle_sent_congr (crcValid_sameAnswer h hw)
  | crcResend q => exact settle_sent_congr (crcResend_sameAnswer h hw)
  | crcAbort q => cases hclient

theorem not_inside_database {c : ClientId} {name : Text} :
    ¬StrictlyInside (clientFolder w c) (w.cwd.val ++ [name]) := by
  rintro ⟨names, hne, heq⟩
  rw [clientFolder, List.append_assoc] at heq
  have htail := congrArg List.length (List.append_cancel_left heq)
  rw [List.length_append, List.length_singleton, List.length_singleton] at htail
  exact hne (List.length_eq_zero_iff.mp (by omega))

theorem replaced_sameFor_iff {sqlite : Sqlite} {q : CrcStatusRequest} {file : File} {name : Text}
    {b : ClientId} (hsaved : savedFile env w (.parsed request) = some (q, file))
    (hname : databaseFileAt env w file.fullPath = some name) :
    SameFor b w (DatabaseFile.react sqlite crypto env w (.parsed request)).world ↔
      (approvedTables sqlite env w q file).server.filter (·.id = b) =
          w.db.server.filter (·.id = b) ∧
        (approvedTables sqlite env w q file).files.filter (·.id = b) =
          w.db.files.filter (·.id = b) := by
  obtain ⟨hrequest, hsaves, hfile⟩ := savedFile_eq_some hsaved
  cases hrequest
  obtain ⟨-, hopens⟩ := databaseFileAt_eq_some hname
  obtain ⟨u, hrun, hworld, -, -⟩ := crcValid_saves env hsaves hfile
  have hbase : (ServerThread.react crypto env w (.parsed (.crcValid q))).world =
      verifiedWorld env file q.clientID true (Turn.start w env).pop := by
    rw [ServerThread.react, (settle_world env w _ _).1, handle, hrun, ← hworld]
    split
    · rw [refuse_world]
    · rw [write_world]
  rw [react_saved hsaved]
  dsimp only
  rw [hbase]
  refine ⟨fun h => ⟨h.clients, h.files⟩, fun hrows => ⟨hrows.1, hrows.2, ?_, ?_⟩⟩
  · intro path hpath
    have hmemory := @verified_entry_iff env w file q.clientID (getFileInstance_keyed hfile).2.1
    refine (hmemory path).mpr ?_
    rintro rfl
    obtain ⟨-, dir, last, htarget, -, hloc⟩ := hopens
    rw [Belongs, (openTarget_eq_some htarget).1, ← hloc] at hpath
    exact absurd hpath not_inside_database
  · intro loc hloc
    have hnode : (verifiedWorld env file q.clientID true (Turn.start w env).pop).disk.node loc =
        (saved env w.disk file.fullPath file.content).1.node loc := rfl
    unfold fileAt
    rw [hnode, (saved_opens env file.content hopens).2, Function.update_of_ne]
    rintro rfl
    exact not_inside_database hloc

/-- Main theorem: which requests of a client leave the others alone, and that the answers to
those that ask for their own files are functions of the client's own part of the state. -/
theorem isolated {sqlite : Sqlite} (hclient : ofClient request = true) :
    ((∀ b, b ≠ request.header.clientID →
      SameFor b w (DatabaseFile.react sqlite crypto env w (.parsed request)).world) ↔
        LeavesOthers crypto env sqlite w request) ∧
    ∀ w', Agree request.header.clientID w w' → AsksOwn crypto env w request →
      AsksOwn crypto env w' request →
        (DatabaseFile.react sqlite crypto env w' (.parsed request)).sent =
          (DatabaseFile.react sqlite crypto env w (.parsed request)).sent := by
  constructor
  · rw [LeavesOthers]
    split
    · next hkeeps =>
      rw [react_kept hkeeps, ServerThread.react, (settle_world env w _ _).1]
      exact leaves_iff hclient
    · next hkeeps =>
      obtain ⟨⟨q, file⟩, hsaved, hdatabase⟩ : ∃ saved ∈ savedFile env w (.parsed request),
          databaseFileAt env w saved.2.fullPath ≠ none := by
        simpa only [Keeps, not_forall, exists_prop] using hkeeps
      obtain ⟨name, hname⟩ := Option.ne_none_iff_exists'.mp hdatabase
      rw [Option.mem_def] at hsaved
      rw [forall₂_congr fun b _ => replaced_sameFor_iff hsaved hname, hsaved]
      exact ⟨fun h saved heq => Option.some.inj heq ▸ h, fun h => h _ rfl⟩
  · intro w' hagree hw hw'
    rw [react_sent, react_sent]
    exact sent_eq hclient hagree hw hw'

theorem belongs_plain {a : ClientId} {fileName : Text} (h : Plain fileName) :
    Belongs w a (filePath w a fileName) := by
  have hplain : ∀ name ∈ clientFolder w a ++ [fileName], Plain name := by
    intro name hname
    rcases List.mem_append.mp hname with hname | hname
    · exact clientFolder_plain w a name hname
    · rw [List.mem_singleton.mp hname]
      exact h
  rw [Belongs, filePath_plain w a h, moves_render hplain, resolve_downs, List.nil_append]
  exact ⟨[fileName], by simp, rfl⟩

theorem approvalLeaves_own {a : ClientId} {fileName : Text} {file : File} (h : Plain fileName)
    (hfile : getFileInstance w a fileName = some file) (hid : file.clientId = a) :
    ApprovalLeaves env w a file := by
  have hown : Belongs w a file.fullPath := (getFileInstance_keyed hfile).1 ▸ belongs_plain h
  refine ⟨fun b hb hbelongs => absurd (owner_of_inside hbelongs hown) hb,
    fun b hb loc hloc hopens => ?_, fun _ hne => absurd hid hne⟩
  obtain ⟨-, dir, name, htarget, -, rfl⟩ := hopens
  rw [← (openTarget_eq_some htarget).1] at hloc
  exact absurd (owner_of_inside hloc hown) hb

end Isolation

section Sample

open FileStoreRefinement ClientChannel

def uploadedWorld : World :=
  (sampleCall otherId (.store [1])).after .trivial
    (.boot twoClients .empty .root .root)

def approves (sender : ClientId) : Request :=
  .crcValid ⟨⟨sender, clientVersion, requestCrcValid, clientIdSize + fileNameSize⟩, otherId,
    [0x78]⟩

def approvedBy (sender : ClientId) (w : World) : ReadStep :=
  DatabaseFile.react .sample .trivial .undisturbed w (.parsed (approves sender))

theorem isolated_own_file :
    (∀ b, b ≠ otherId → SameFor b uploadedWorld (approvedBy otherId uploadedWorld).world) ∧
    ∀ w', Agree otherId uploadedWorld w' →
      (approvedBy otherId w').sent = (approvedBy otherId uploadedWorld).sent := by
  have hown : ∀ w, AsksOwn .trivial .undisturbed w (approves otherId) := fun w _ _ =>
    ⟨rfl, fun _ => belongs_plain (by decide)⟩
  have hid : (getFileInstance uploadedWorld otherId [0x78]).map (·.clientId) = some otherId := by
    decide +kernel
  have hkeeps : Keeps .undisturbed uploadedWorld (.parsed (approves otherId)) := by
    decide +kernel
  obtain ⟨hleaves, hsent⟩ := @isolated .trivial .undisturbed uploadedWorld
    (approves otherId) .sample rfl
  refine ⟨hleaves.mpr ?_, fun w' hagree => hsent w' hagree (hown _) (hown _)⟩
  rw [LeavesOthers, if_pos hkeeps]
  refine fun _ _ => ⟨fun _ => ?_, fun file hfile => ?_⟩
  · unfold TouchesOwn
    decide +kernel
  · rw [hfile] at hid
    exact approvalLeaves_own (by decide) hfile (Option.some_inj.mp hid)

/-- The other client approves: the row of the owner is marked. -/
theorem not_isolated_foreign_file :
    ¬∀ (sqlite : Sqlite) (crypto : PyCrypto) (env : Env) (w : World) (request : Request),
      ofClient request = true →
      (∀ b, b ≠ request.header.clientID →
        SameFor b w (DatabaseFile.react sqlite crypto env w (.parsed request)).world) ∧
      ∀ w', Agree request.header.clientID w w' →
        (DatabaseFile.react sqlite crypto env w' (.parsed request)).sent =
          (DatabaseFile.react sqlite crypto env w (.parsed request)).sent := by
  intro h
  have hsame : SameFor otherId uploadedWorld (approvedBy sampleId uploadedWorld).world :=
    (h .sample .trivial .undisturbed uploadedWorld (approves sampleId) rfl).1 otherId (by decide)
  have hmarked : ((approvedBy sampleId uploadedWorld).world.db.files.filter
        (·.id = otherId)).map (·.varified) ≠
      (uploadedWorld.db.files.filter (·.id = otherId)).map (·.varified) := by
    decide +kernel
  rw [hsame.files] at hmarked
  exact hmarked rfl

end Sample

end ClientIsolation
