import FileTransfer.RaisingProgram
import FileTransfer.PathWalk
import FileTransfer.ServerTables

/-! # The state of the server process

Tables, the class-level file dictionary and the disk. What the operating system, SQLite
and the random source do while one request is handled is an explicit environment. -/
namespace ServerState

open ByteField PathWalk ServerProtocol ServerTables RaisingProgram

/-- The third-party code the server calls: crccheck and PyCryptodome. -/
structure PyCrypto where
  /-- `Crc32.calc` -/
  crc32 : Bytes → ℕ
  /-- `AES.new(key, AES.MODE_CBC, zeros).decrypt(ciphertext)`, `none` when it raises -/
  aesCbcDecrypt : Bytes → Bytes → Option Bytes
  /-- import of the key and `PKCS1_OAEP.encrypt`, `none` when one of them raises -/
  rsaOaepEncrypt : Bytes → Bytes → Bytes → Option Bytes

/-- Agrees with the third-party code on empty contents and on malformed keys. -/
def PyCrypto.trivial : PyCrypto where
  crc32 _ := 0
  aesCbcDecrypt key ciphertext :=
    if key.length = symmetricKeySize ∧ ciphertext.length % 16 = 0 then some ciphertext else none
  rsaOaepEncrypt _ _ _ := none

/-- `file_handler.File`. The content is `None` after a failed decryption. -/
structure File where
  clientId : ClientId
  filename : Text
  parentPath : Text
  fullPath : Text
  crc : ℕ
  verified : Bool
  content : Option Bytes
  deriving DecidableEq

/-- `FileHandler.fileDict`: every file stands under its own full path. -/
structure FileDict where
  get : Text → Option File
  keyed : ∀ path file, get path = some file → file.fullPath = path

def FileDict.empty : FileDict := ⟨fun _ => none, by simp⟩

def FileDict.store (d : FileDict) (file : File) : FileDict where
  get := Function.update d.get file.fullPath (some file)
  keyed path file' h := by
    by_cases hp : path = file.fullPath
    · rw [hp, Function.update_self, Option.some.injEq] at h
      rw [← h, hp]
    · rw [Function.update_of_ne hp] at h
      exact d.keyed path file' h

theorem FileDict.store_get (d : FileDict) (file : File) (path : Text) :
    (d.store file).get path = if path = file.fullPath then some file else d.get path :=
  Function.update_apply ..

theorem FileDict.store_store (d : FileDict) {file file' : File}
    (h : file.fullPath = file'.fullPath) : (d.store file).store file' = d.store file' := by
  simp only [store, h, Function.update_idem]

abbrev Disk := Tree Bytes Bytes

/-- `cwd` is the working directory of the process, `srcDir` the directory of the sources. -/
structure World where
  db : Tables
  fileDict : FileDict
  disk : Disk
  cwd : Folder
  srcDir : Folder

def World.boot (db : Tables) (disk : Disk) (cwd srcDir : Folder) : World :=
  ⟨db, .empty, disk, cwd, srcDir⟩

def World.sample : World := .boot .empty .empty .root .root

def sampleId : ClientId := filled clientIdSize 1

/-- A new server with one client that has exchanged keys. -/
def World.withClient : World :=
  { World.sample with
    db := { Tables.empty with
      server := [⟨sampleId, [0x61], none, 0, some (List.replicate symmetricKeySize 7)⟩]
      serverKey := List.nodup_singleton _ } }

inductive SqlOutcome where
  | done
  | fails
  | connectRaises
  deriving DecidableEq, Repr

/-- What the environment does while one request is handled. `sql` gives the outcomes of
the statements in their order. `writeCut` is the number of bytes on disk when a write
fails. `sendOk` is false when the socket raises for ever. -/
structure Env where
  now : ℕ
  uuid : ClientId
  aesKey : Field symmetricKeySize
  oaepSeed : Bytes
  sql : ℕ → SqlOutcome
  mkdirOk : Bool
  openOk : Bool
  writeCut : Option ℕ
  sendOk : Bool

def Env.undisturbed : Env where
  now := 0
  uuid := filled clientIdSize 0
  aesKey := filled symmetricKeySize 0
  oaepSeed := []
  sql := fun _ => .done
  mkdirOk := true
  openOk := true
  writeCut := none
  sendOk := true

/-- The state while one request is handled: `opened` are the paths given to
`open(.., 'wb')`, `sent` the responses given to the socket. -/
structure Turn where
  world : World
  sql : ℕ → SqlOutcome
  opened : List Text
  sent : List Response

def Turn.start (w : World) (env : Env) : Turn := ⟨w, env.sql, [], []⟩

inductive PyError where
  | attributeError
  | typeError
  | indexError
  | operationalError
  deriving DecidableEq, Repr

abbrev ServerM := Prog Turn PyError

def modifyWorld (f : World → World) : ServerM Unit :=
  Prog.modify fun t => { t with world := f t.world }

/-- `self.write(conn, response.pack())`: the loop of `write` ends only when the socket
takes the packets. -/
def write (env : Env) (r : Response) : ServerM Bool :=
  if env.sendOk then do
    Prog.modify fun t => { t with sent := t.sent ++ [r] }
    return true
  else Prog.hang

def Turn.next (t : Turn) : SqlOutcome := t.sql 0

def Turn.pop (t : Turn) : Turn := { t with sql := fun i => t.sql (i + 1) }

/-- `Database.execute`: a statement gives its result and the tables after it, or `none`
when a constraint rejects it. -/
def execute {α : Type} (statement : Tables → Option (α × Tables)) : ServerM (Option α) where
  run t := match t.next with
    | .connectRaises => (.raised .operationalError, t.pop)
    | .fails => (.value none, t.pop)
    | .done => match statement t.world.db with
      | none => (.value none, t.pop)
      | some (a, db) => (.value (some a), { t.pop with world := { t.world with db } })

def Turn.inWorld (t : Turn) (w : World) : Turn := { t with world := w }

@[simp] theorem inWorld_world (t : Turn) (w : World) : (t.inWorld w).world = w := rfl
@[simp] theorem inWorld_next (t : Turn) (w : World) : (t.inWorld w).next = t.next := rfl
@[simp] theorem inWorld_opened (t : Turn) (w : World) : (t.inWorld w).opened = t.opened := rfl
@[simp] theorem inWorld_sent (t : Turn) (w : World) : (t.inWorld w).sent = t.sent := rfl
@[simp] theorem inWorld_sql (t : Turn) (w : World) : (t.inWorld w).sql = t.sql := rfl
@[simp] theorem inWorld_inWorld (t : Turn) (w v : World) :
    (t.inWorld w).inWorld v = t.inWorld v := rfl
@[simp] theorem inWorld_self (t : Turn) : t.inWorld t.world = t := rfl
@[simp] theorem start_world (w : World) (env : Env) : (Turn.start w env).world = w := rfl
@[simp] theorem start_sent (w : World) (env : Env) : (Turn.start w env).sent = [] := rfl
@[simp] theorem start_sql (w : World) (env : Env) : (Turn.start w env).sql = env.sql := rfl
@[simp] theorem start_next (w : World) (env : Env) : (Turn.start w env).next = env.sql 0 := rfl
@[simp] theorem pop_world (t : Turn) : t.pop.world = t.world := rfl
@[simp] theorem pop_opened (t : Turn) : t.pop.opened = t.opened := rfl
@[simp] theorem pop_sent (t : Turn) : t.pop.sent = t.sent := rfl
@[simp] theorem pop_sql (t : Turn) (i : ℕ) : t.pop.sql i = t.sql (i + 1) := rfl

def Turn.send (t : Turn) (r : Response) : Turn := { t with sent := t.sent ++ [r] }

@[simp] theorem send_world (t : Turn) (r : Response) : (t.send r).world = t.world := rfl
@[simp] theorem send_opened (t : Turn) (r : Response) : (t.send r).opened = t.opened := rfl
@[simp] theorem send_sent (t : Turn) (r : Response) : (t.send r).sent = t.sent ++ [r] := rfl

theorem write_run (env : Env) (r : Response) (t : Turn) :
    (write env r).run t = if env.sendOk then (.value true, t.send r) else (.hangs, t) := by
  unfold write
  split <;> rfl

section Execute

variable {α : Type} {statement : Tables → Option (α × Tables)} {t : Turn}

theorem execute_raises (h : t.next = .connectRaises) :
    (execute statement).run t = (.raised .operationalError, t.pop) := by
  simp [execute, h]

theorem execute_fails (h : t.next = .fails) :
    (execute statement).run t = (.value none, t.pop) := by
  simp [execute, h]

theorem execute_rejected (h : t.next = .done) (hs : statement t.world.db = none) :
    (execute statement).run t = (.value none, t.pop) := by
  simp [execute, h, hs]

theorem execute_done {a : α} {db : Tables} (h : t.next = .done)
    (hs : statement t.world.db = some (a, db)) :
    (execute statement).run t =
      (.value (some a), t.pop.inWorld { t.world with db }) := by
  simp [execute, h, hs, Turn.inWorld]

end Execute

end ServerState
