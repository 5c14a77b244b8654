import FileTransfer.ApprovalAnswers
import FileTransfer.CrcAnswers
import FileTransfer.ServerHistory
import FileTransfer.TransferAnswers

/-! # The server when nothing fails

Each request of a transfer is served, and leaves what the next one needs. -/
namespace CalmServer

open ByteField PathWalk ServerProtocol ServerTables ServerState ServerFiles ServerDatabase
  ServerHandlers ServerThread StoreAtomicity TransferAnswers
open CrcAnswers (Stored)

section Definitions

/-- Neither the database nor the file system nor the socket fails. -/
structure Calm (env : Env) : Prop where
  sql : ∀ i, env.sql i = .done
  mkdirOk : env.mkdirOk = true
  openOk : env.openOk = true
  writeCut : env.writeCut = none
  sendOk : env.sendOk = true

/-- A file of the client can be stored: its directory is there, or it can be made where the
lookups see it, no directory stands in its place, and no other client has taken its name. -/
structure Room (w : World) (id : ClientId) (text : Text) : Prop where
  dir : w.disk.isDir (clientFolder w id) = true ∨
    w.cwd = w.srcDir ∧ w.disk.isDir w.srcDir.val = true ∧ w.disk.node (clientFolder w id) = none
  place : w.disk.isDir (clientFolder w id ++ [text]) = false
  name : w.db.hasFile id text = true ∨ w.db.fileNameTaken text = false

structure Welcome (w : World) (id : ClientId) (text : Text) : Prop where
  client : w.db.hasClient id = true
  room : Room w id text

/-- The upload is in memory and in the tables, and can be saved. -/
structure Kept (w : World) (id : ClientId) (text : Text) (content : Bytes) : Prop where
  client : w.db.hasClient id = true
  row : w.db.hasFile id text = true
  entry : ∃ file, getFileInstance w id text = some file ∧ file.content = some content ∧
    file.clientId = id ∧ file.filename = text
  place : w.disk.isDir (clientFolder w id ++ [text]) = false

def Delivered (w : World) (id : ClientId) (text : Text) (content : Bytes) : Prop :=
  HoldsFile w.disk (filePath w id text) content ∧ w.db.isVarified id text = true

/-- A turn that reads on behind one answer. -/
structure Serves (out : ReadStep) (r : Response) : Prop where
  control : out.control = .reading
  sent : out.sent = [r]

end Definitions

variable {crypto : PyCrypto} {env : Env} {w w' : World} {handled : Option Request}
  {handler : ServerM Bool} {u : Turn}

theorem room_congr {id : ClientId} {text : Text} (h : SameStore w w') (hroom : Room w id text) :
    Room w' id text := by
  have hfolder : clientFolder w' id = clientFolder w id := by rw [clientFolder, h.cwd, clientFolder]
  obtain ⟨hdir, hplace, hname⟩ := hroom
  refine ⟨?_, ?_, ?_⟩
  · rw [hfolder, h.disk, h.cwd, h.srcDir]
    exact hdir
  · rw [hfolder, h.disk]
    exact hplace
  · rw [Tables.hasFile, Tables.fileNameTaken, h.files]
    exact hname

theorem serves_written {r : Response} (hcalm : Calm env) (hsent : u.sent = [])
    (h : handler.run (Turn.start w env) = (write env r).run u) :
    Serves (settle env w handled handler) r ∧ (settle env w handled handler).world = u.world := by
  rw [settle_written env h, hsent, if_pos hcalm.sendOk, if_pos hcalm.sendOk]
  exact ⟨⟨rfl, rfl⟩, rfl⟩

theorem welcome_kept {id : ClientId} {text : Text} {content : Bytes}
    (h : Kept w id text content) : Welcome w id text := by
  obtain ⟨file, hfile, -⟩ := h.entry
  exact ⟨h.client, .inl (getFileInstance_keyed hfile).2.2, h.place, .inl h.row⟩

theorem place_delivered {id : ClientId} {text : Text} {content : Bytes} (htext : Plain text)
    (hdir : w.disk.isDir (clientFolder w id) = true) (h : Delivered w id text content) :
    w.db.hasFile id text = true ∧ w.disk.isDir (clientFolder w id ++ [text]) = false := by
  obtain ⟨⟨dir, name, htarget, hnode⟩, hvarified⟩ := h
  rw [filePath_plain w id htext,
    openTarget_render (clientFolder_plain w id) (clientFolder_ne_nil w id) htext hdir] at htarget
  cases htarget
  refine ⟨?_, ?_⟩
  · rw [Tables.isVarified, List.any_eq_true] at hvarified
    obtain ⟨row, hrow, hmarked⟩ := hvarified
    rw [Tables.hasFile, List.any_eq_true]
    exact ⟨row, hrow, (Bool.and_eq_true _ _ ▸ hmarked).1⟩
  · rw [Tree.isDir, hnode]

theorem known (hcalm : Calm env) {id : ClientId} (h : w.db.hasClient id = true) :
    Known (Turn.start w env) id := ⟨hcalm.sql 0, h⟩

theorem client_kept {q : Request} {id : ClientId} (h : w.db.hasClient id = true) :
    (settle env w handled (handle crypto env q)).world.db.hasClient id = true := by
  rw [(settle_world env w handled (handle crypto env q)).1]
  have heffect := ServerEffects.handle_effect crypto env w q
  exact ServerHistory.hasClient_grows (ServerHistory.effect_grows heffect).clients h

theorem entry_upload {t : Turn} {file : File} (hu : Uploads t u file)
    (hpath : file.fullPath = filePath t.world file.clientId file.filename) :
    getFileInstance u.world file.clientId file.filename = some file := by
  have hfolder : clientFolder u.world file.clientId = clientFolder t.world file.clientId := by
    rw [clientFolder, hu.cwd, clientFolder]
  rw [getFileInstance, hfolder, if_pos hu.isDir, filePath, hfolder, ← filePath, ← hpath,
    hu.fileDict, FileDict.store_get, if_pos rfl]

section Requests

theorem registration_serves {q : RegistrationRequest} (hcalm : Calm env)
    (hascii : isAscii q.name = true) (hname : w.db.hasName q.name = false)
    (hfresh : ∀ row ∈ w.db.server, row.id ≠ env.uuid) :
    let out := settle env w handled (registration env q)
    Serves out (.registrationSucceeded env.uuid) ∧ SameStore w out.world ∧
      out.world.db.hasClient env.uuid = true ∧ out.world.db.hasName q.name = true := by
  intro out
  have hopen : Registrable (Turn.start w env) q.name := by
    refine ⟨hascii, ?_⟩
    rintro ⟨-, htaken⟩
    rw [start_world, hname] at htaken
    cases htaken
  have hrun := registration_stored env hopen
  have hsql : (Turn.start w env).sql 1 = .done := hcalm.sql 1
  obtain ⟨db, hinsert, hrows, hfiles⟩ : ∃ db,
      insertClient ⟨env.uuid, q.name, none, env.now, none⟩ w.db = some ((), db) ∧
        db.server = w.db.server ++ [⟨env.uuid, q.name, none, env.now, none⟩] ∧
          db.files = w.db.files := ⟨_, dif_pos hfresh, rfl, rfl⟩
  rw [hsql, if_neg (by decide), if_pos rfl, start_world, hinsert] at hrun
  obtain ⟨hserves, hworld⟩ := @serves_written env w handled _ _ _ hcalm rfl hrun
  refine ⟨hserves, ?_, ?_, ?_⟩
  · rw [show out.world = _ from hworld]
    exact ⟨rfl, hfiles, rfl, rfl, rfl⟩
  · rw [show out.world = _ from hworld, Tables.hasClient, inWorld_world, hrows]
    simp
  · rw [show out.world = _ from hworld, Tables.hasName, inWorld_world, hrows]
    simp

theorem publicKey_serves {q : PublicKeyRequest} {encrypted : Bytes} (hcalm : Calm env)
    (hclient : w.db.hasClient q.header.clientID = true)
    (hencrypted : crypto.rsaOaepEncrypt q.publicKey.val env.oaepSeed env.aesKey.val =
      some encrypted) :
    let out := settle env w handled (publicKey crypto env q)
    Serves out (.publicKey q.header.clientID encrypted (clientIdSize + encrypted.length)) ∧
      SameStore w out.world ∧ out.world.db.hasClient q.header.clientID = true ∧
      KeyIs out.world q.header.clientID env.aesKey.val := by
  intro out
  have hworld : out.world = ((publicKey crypto env q).run (Turn.start w env)).2.world :=
    (settle_world env w handled (publicKey crypto env q)).1
  have hkey := @publicKey_settles crypto env w handled q
  have hrun := publicKey_set crypto env (known hcalm hclient)
    (show (Turn.start w env).sql 2 = .done from hcalm.sql 2)
  have hsql : (Turn.start w env).sql 3 = .done := hcalm.sql 3
  have hresult : encryptAesKeyWithRsaPublic crypto env env.aesKey.val q.publicKey.val =
      some encrypted := hencrypted
  rw [hsql, if_neg (by decide), if_neg (by decide), hresult] at hrun
  obtain ⟨hserves, -⟩ := @serves_written env w handled _ _ _ hcalm rfl hrun
  refine ⟨hserves, ?_, ?_, ?_⟩
  · rw [hworld]
    exact publicKey_sameStore q
  · exact @client_kept crypto env w handled (.publicKey q) _ hclient
  · rcases hkey with ⟨hdead, -⟩ | ⟨-, r, -, -, -, -, hkeyIs⟩
    · rw [hserves.control] at hdead
      cases hdead
    · exact hkeyIs

theorem sendFile_uploads {q : RequestToSendFile} {key content padding : Bytes} (hcalm : Calm env)
    (hclient : w.db.hasClient q.header.clientID = true) (hkey : KeyIs w q.header.clientID key)
    (hdecrypt : crypto.aesCbcDecrypt key q.fileContent = some (content ++ padding))
    (hsize : q.contentSize = content.length) (hroom : Room w q.header.clientID q.fileName) :
    let t := (Turn.start w env).pop.pop
    let file := uploaded q.header.clientID q.fileName (render (clientFolder w q.header.clientID))
      (some content) (crypto.crc32 content)
    ∃ u, (sendFile crypto env q).run (Turn.start w env) =
        (write env (.fileReceivedCrcValue q.header.clientID.val q.contentSize q.fileName
          (crypto.crc32 content))).run u ∧
      Uploads t u file ∧ u.world.db.files = storedRows t file := by
  intro t file
  obtain ⟨row, hrow⟩ : ∃ row, w.db.clientRow q.header.clientID = some row :=
    hasClient_iff.mp hclient
  have hplain : decrypt crypto q.fileContent row.aesKey q.contentSize = some content := by
    simp [decrypt, hkey row hrow, hdecrypt, hsize]
  have hready : DirReady env w q.header.clientID := by
    refine hroom.dir.imp_right ?_
    rintro ⟨hcwd, hsrc, hfree⟩
    exact ⟨hcwd, hcalm.mkdirOk, hsrc, hfree⟩
  have hcommitted : Committed t q.header.clientID q.fileName :=
    ⟨hcalm.sql 3, hroom.name.imp_left fun hrow => ⟨hcalm.sql 2, hrow⟩⟩
  obtain ⟨u, hstore, hu, hfiles, -⟩ :=
    storeFileinDB_ready crypto env (t := t) q.fileName content hready
  rw [if_pos hcommitted] at hstore hfiles
  rw [← hplain] at hstore
  exact ⟨u, sendFile_stored crypto env (known hcalm hclient)
    (show (Turn.start w env).sql 1 = .done from hcalm.sql 1) hrow hstore, hu, hfiles⟩

theorem sendFile_serves {q : RequestToSendFile} {key content padding : Bytes} (hcalm : Calm env)
    (hclient : w.db.hasClient q.header.clientID = true) (hkey : KeyIs w q.header.clientID key)
    (hdecrypt : crypto.aesCbcDecrypt key q.fileContent = some (content ++ padding))
    (hsize : q.contentSize = content.length) (hroom : Room w q.header.clientID q.fileName) :
    let out := settle env w handled (sendFile crypto env q)
    Serves out (.fileReceivedCrcValue q.header.clientID.val q.contentSize q.fileName
        (crypto.crc32 content)) ∧
      Kept out.world q.header.clientID q.fileName content := by
  intro out
  obtain ⟨u, hrun, hu, hfiles⟩ := sendFile_uploads hcalm hclient hkey hdecrypt hsize hroom
  obtain ⟨hserves, hworld⟩ := @serves_written env w handled _ _ _ hcalm hu.sent hrun
  have hkept : out.world.db.hasClient q.header.clientID = true :=
    @client_kept crypto env w handled (.sendFile q) _ hclient
  rw [show out.world = u.world from hworld] at hkept ⊢
  have hfolder : clientFolder u.world q.header.clientID = clientFolder w q.header.clientID := by
    rw [clientFolder, hu.cwd]
    rfl
  obtain ⟨hrowStored, -⟩ := CrcAnswers.stored_upload hu hfiles rfl rfl
  refine ⟨hserves, hkept, hrowStored, ⟨_, entry_upload hu rfl, rfl, rfl, rfl⟩, ?_⟩
  rw [hfolder, Tree.isDir, hu.disk _ (by simp [uploaded])]
  exact hroom.place

theorem opens_kept {id : ClientId} {text : Text} {content : Bytes} {file : File}
    (hcalm : Calm env) (htext : Plain text) (hkept : Kept w id text content)
    (hfile : getFileInstance w id text = some file) :
    Opens env w.disk file.fullPath (clientFolder w id ++ [text]) := by
  obtain ⟨hpath, -, hdir⟩ := getFileInstance_keyed hfile
  refine ⟨hcalm.openOk, clientFolder w id, text, ?_, hkept.place, rfl⟩
  rw [hpath, filePath_plain w id htext]
  exact openTarget_render (clientFolder_plain w id) (clientFolder_ne_nil w id) htext hdir

theorem writable_kept {id : ClientId} {text : Text} {content : Bytes} {file : File}
    (hcalm : Calm env) (htext : Plain text) (hkept : Kept w id text content)
    (hfile : getFileInstance w id text = some file) (hcontent : file.content = some content) :
    Writable env w.disk file.fullPath file.content :=
  ⟨⟨_, opens_kept hcalm htext hkept hfile⟩, hcalm.writeCut, by rw [hcontent]; rfl⟩

theorem crcValid_serves {q : CrcStatusRequest} {content : Bytes} (hcalm : Calm env)
    (hid : q.header.clientID = q.clientID) (htext : Plain q.fileName)
    (hkept : Kept w q.clientID q.fileName content) :
    let out := settle env w handled (crcValid env q)
    Serves out .receivingApproved ∧ Delivered out.world q.clientID q.fileName content ∧
      Kept out.world q.clientID q.fileName content := by
  intro out
  obtain ⟨file, hfile, hcontent, hclient, hname⟩ := hkept.entry
  have hsaves : Saves env w q := by
    refine ⟨?_, ⟨hcalm.sql 1, hkept.row⟩, by rw [hfile]; rfl⟩
    rw [hid]
    exact known hcalm hkept.client
  have hwritable := writable_kept hcalm htext hkept hfile hcontent
  obtain ⟨u, hrun, hafter, hsent, -⟩ := crcValid_saves env hsaves hfile
  rw [if_neg (by rw [hcalm.sql 3]; decide)] at hrun
  obtain ⟨hserves, hworld⟩ := @serves_written env w handled _ _ _ hcalm hsent hrun
  have happroved := (ApprovalAnswers.approved_iff hsaves hfile (hcalm.sql 3) hwritable).mpr
    (.inr ⟨hclient, hname⟩)
  have hentry := @ApprovalAnswers.verified_entry env _ _ _ hfile
  rw [← hafter, ← show out.world = u.world from hworld] at happroved hentry
  obtain ⟨⟨found, bytes, hfound, hbytes, hholds⟩, hvarified⟩ := happroved
  cases hentry.symm.trans hfound
  cases hcontent.symm.trans hbytes
  have hdelivered : Delivered out.world q.clientID q.fileName content := ⟨hholds, hvarified⟩
  obtain ⟨hrow, hplace⟩ := place_delivered htext (getFileInstance_keyed hentry).2.2 hdelivered
  have hclientKept : out.world.db.hasClient q.clientID = true :=
    @client_kept .trivial env w handled (.crcValid q) _ hkept.client
  exact ⟨hserves, hdelivered, hclientKept, hrow, ⟨_, hentry, hcontent, hclient, hname⟩, hplace⟩

end Requests

end CalmServer
