import FileTransfer.ServerDatabase

/-! # Request handlers

The handlers of `server.py` and the two functions of `keys_handler.py` they call. Each
returns whether the read loop goes on. What a handler does with a request that its class
could parse is a program of its own. -/
namespace ServerHandlers

open ByteField ServerProtocol ServerTables ServerState ServerFiles ServerDatabase RaisingProgram

variable (crypto : PyCrypto) (env : Env)

/-- `keys_handler.decrypt`: a key that is `None` makes `AES.new` raise. -/
def decrypt (ciphertext : Bytes) (key : Option Bytes) (contentSize : ℕ) : Option Bytes := do
  let plainText ← crypto.aesCbcDecrypt (← key) ciphertext
  return plainText.take contentSize

def encryptAesKeyWithRsaPublic (data key : Bytes) : Option Bytes :=
  crypto.rsaOaepEncrypt key env.oaepSeed data

def isAscii (text : Text) : Bool := text.all (· < 0x80)

inductive Request where
  | registration (request : RegistrationRequest)
  | publicKey (request : PublicKeyRequest)
  | sendFile (request : RequestToSendFile)
  | crcValid (request : CrcStatusRequest)
  | crcResend (request : CrcStatusRequest)
  | crcAbort (request : CrcStatusRequest)
  deriving DecidableEq

def Request.header : Request → RequestHeader
  | .registration q => q.header
  | .publicKey q => q.header
  | .sendFile q => q.header
  | .crcValid q => q.header
  | .crcResend q => q.header
  | .crcAbort q => q.header

/-- A 2101 response and `return False`. -/
def refuse : ServerM Bool := do
  let _ ← write env .registrationFailed
  return false

def registration (request : RegistrationRequest) : ServerM Bool := do
  let refused ← Prog.attempt (do
    if ¬isAscii request.name then
      let _ ← write env .registrationFailed
      return true
    else if ← clientUsernameExists request.name then
      let _ ← write env .registrationFailed
      return true
    else return false)
    fun _ => do
      let _ ← write env .registrationFailed
      return true
  if refused then return false
  else
    match ← addClient env request.name with
    | none => refuse env
    | some clnt => write env (.registrationSucceeded clnt.id)

def publicKey (request : PublicKeyRequest) : ServerM Bool := do
  if ¬(← clientExists request.header.clientID) then refuse env
  else
    match ← setClientsPublicKey env request.header.clientID request.publicKey with
    | none => refuse env
    | some () =>
      match ← setClientsSymmetricKey env request.header.clientID with
      | none => return false
      | some symmetricKey =>
        -- len(None) raises when the key was not encrypted
        match encryptAesKeyWithRsaPublic crypto env symmetricKey.val request.publicKey.val with
        | none => Prog.raise .typeError
        | some encryptedAes =>
          write env (.publicKey request.header.clientID encryptedAes
            (clientIdSize + encryptedAes.length))

def sendFile (request : RequestToSendFile) : ServerM Bool := do
  if ¬(← clientExists request.header.clientID) then refuse env
  else
    let aesKey ← getClientsSymmetricKey request.header.clientID
    let decryptedContent := decrypt crypto request.fileContent aesKey request.contentSize
    let file ← storeFileinDB crypto env request.header.clientID request.fileName decryptedContent
    -- the default checksum stays when the file was not stored
    let checksum := match file with
      | some file => file.crc
      | none => 0
    write env (.fileReceivedCrcValue request.header.clientID.val request.contentSize
      request.fileName checksum)

def crcValid (request : CrcStatusRequest) : ServerM Bool := do
  if ¬(← clientExists request.header.clientID) then refuse env
  else if ¬(← updateVerification env request.clientID request.fileName true) then refuse env
  else write env .receivingApproved

def crcResend (request : CrcStatusRequest) : ServerM Bool := do
  if ¬(← clientExists request.header.clientID) then refuse env
  else
    match ← getFile request.clientID request.fileName with
    | none =>
      -- the failure response was already replaced by an empty CRC response
      let _ ← write env .emptyCrcValue
      return false
    | some fileInstance =>
      match fileInstance.content with
      | none => Prog.raise .typeError
      | some content =>
        write env (.fileReceivedCrcValue request.header.clientID.val content.length
          request.fileName (crypto.crc32 content))

/-- `self.sel` is never set, so a request that parses ends in an exception. -/
def crcAbort (request : CrcStatusRequest) : ServerM Bool := do
  let _clientname ← getClientNameById request.clientID
  Prog.raise .attributeError

def handle : Request → ServerM Bool
  | .registration request => registration env request
  | .publicKey request => publicKey crypto env request
  | .sendFile request => sendFile crypto env request
  | .crcValid request => crcValid env request
  | .crcResend request => crcResend crypto env request
  | .crcAbort request => crcAbort request

def handleRegistrationRequest (data : Bytes) : ServerM Bool :=
  match RegistrationRequest.unpack data with
  | none => return false
  | some request => registration env request

def handlePublicKeyRequest (data : Bytes) : ServerM Bool :=
  match PublicKeyRequest.unpack data with
  | none => return false
  | some request => publicKey crypto env request

/-- `handleSendFileRequest` after `unpack` returned; `none` is its `False`. -/
def handleSendFileRequest (request : Option RequestToSendFile) : ServerM Bool :=
  match request with
  | none => refuse env
  | some request => sendFile crypto env request

def handleCrcValidRequest (data : Bytes) : ServerM Bool :=
  match CrcStatusRequest.unpack data with
  | none => refuse env
  | some request => crcValid env request

def handleInvalidCrcResendRequest (data : Bytes) : ServerM Bool :=
  match CrcStatusRequest.unpack data with
  | none => refuse env
  | some request => crcResend crypto env request

def handleInvalidCrcAbortInteractionRequest (data : Bytes) : ServerM Bool :=
  match CrcStatusRequest.unpack data with
  | none => return false
  | some request => crcAbort request

section Runs

variable {t : Turn} {clientId : ClientId}

def Known (t : Turn) (clientId : ClientId) : Prop :=
  t.next = .done ∧ t.world.db.hasClient clientId = true

instance (t : Turn) (clientId : ClientId) : Decidable (Known t clientId) :=
  inferInstanceAs (Decidable (_ ∧ _))

theorem refuse_run (t : Turn) :
    (refuse env).run t =
      if env.sendOk then (.value false, t.send .registrationFailed) else (.hangs, t) := by
  rw [refuse, Prog.run_bind, write_run]
  cases env.sendOk <;> rfl

theorem refuse_world (t : Turn) : ((refuse env).run t).2.world = t.world := by
  rw [refuse_run]
  split <;> rfl

theorem write_world (response : Response) (t : Turn) :
    ((write env response).run t).2.world = t.world := by
  rw [write_run]
  split <;> rfl

theorem ifKnown_run (body : ServerM Bool) (t : Turn) :
    (do if ¬(← clientExists clientId) then refuse env else body : ServerM Bool).run t =
      if Known t clientId then body.run t.pop else (refuse env).run t.pop := by
  rw [Prog.run_bind, clientExists_run]
  by_cases h : Known t clientId
  · simp [h, h.1, h.2]
  · have hb : (decide (t.next = .done) && t.world.db.hasClient clientId) = false := by
      simpa [Known] using h
    simp [h, hb]

section PublicKey

variable {request : PublicKeyRequest}

theorem setClientsPublicKey_run (key : Field publicKeySize) (t : Turn) :
    (setClientsPublicKey env clientId key).run t =
      (execute (updateClients (fun row => row.id = clientId)
        fun row => { row with publicKey := some key.val })).run
          (afterTouch env (.id clientId) t) := by
  rw [setClientsPublicKey, if_neg (not_not.mpr key.property), Prog.run_bind, touch_run]

def keyedTurn (request : PublicKeyRequest) (t : Turn) : Turn :=
  let u := afterTouch env (.id request.header.clientID) t.pop
  u.pop.inWorld { u.world with
    db := u.world.db.updateClients (fun row => row.id = request.header.clientID)
      (fun row => { row with publicKey := some request.publicKey.val }) fun _ => rfl }

def sessionTurn (request : PublicKeyRequest) (t : Turn) : Turn :=
  let u := keyedTurn env request t
  u.pop.inWorld { u.world with
    db := u.world.db.updateClients (fun row => row.id = request.header.clientID)
      (fun row => { row with aesKey := some env.aesKey.val }) (sessionKey_id env) }

theorem publicKey_unknown (h : ¬Known t request.header.clientID) :
    (publicKey crypto env request).run t = (refuse env).run t.pop := by
  rw [publicKey, ifKnown_run, if_neg h]

theorem publicKey_unset (h : Known t request.header.clientID) (h₂ : t.sql 2 ≠ .done) :
    (publicKey crypto env request).run t =
      let u := (afterTouch env (.id request.header.clientID) t.pop).pop
      if t.sql 2 = .connectRaises then (.raised .operationalError, u)
      else (refuse env).run u := by
  rw [publicKey, ifKnown_run, if_pos h, Prog.run_bind, setClientsPublicKey_run]
  cases hs : t.sql 2 with
  | done => exact absurd hs h₂
  | connectRaises => rw [execute_raises (by exact hs)]; rfl
  | fails => rw [execute_fails (by exact hs)]; rfl

theorem publicKey_set (h : Known t request.header.clientID) (h₂ : t.sql 2 = .done) :
    (publicKey crypto env request).run t =
      if t.sql 3 = .connectRaises then
        (.raised .operationalError, (keyedTurn env request t).pop)
      else if t.sql 3 = .fails then (.value false, (keyedTurn env request t).pop)
      else match encryptAesKeyWithRsaPublic crypto env env.aesKey.val request.publicKey.val with
        | none => (.raised .typeError, sessionTurn env request t)
        | some encryptedAes => (write env (.publicKey request.header.clientID encryptedAes
            (clientIdSize + encryptedAes.length))).run (sessionTurn env request t) := by
  rw [publicKey, ifKnown_run, if_pos h, Prog.run_bind, setClientsPublicKey_run,
    execute_done (by exact h₂) rfl]
  dsimp only
  rw [Prog.run_bind, setClientsSymmetricKey, Prog.run_bind]
  cases h₃ : t.sql 3 with
  | connectRaises => rw [execute_raises (by exact h₃)]; rfl
  | fails => rw [execute_fails (by exact h₃)]; rfl
  | done =>
    rw [execute_done (by exact h₃) rfl]
    dsimp only [Prog.run_pure]
    cases encryptAesKeyWithRsaPublic crypto env env.aesKey.val request.publicKey.val <;> rfl

end PublicKey

section Registration

variable {request : RegistrationRequest}

def Registrable (t : Turn) (name : Text) : Prop :=
  isAscii name = true ∧ ¬(t.next = .done ∧ t.world.db.hasName name = true)

instance (t : Turn) (name : Text) : Decidable (Registrable t name) :=
  inferInstanceAs (Decidable (_ ∧ ¬(_ ∧ _)))

theorem registration_refused (h : ¬Registrable t request.name) :
    (registration env request).run t =
      (refuse env).run (if isAscii request.name then t.pop else t) := by
  rw [registration, Prog.run_bind, Prog.run_attempt, refuse_run]
  by_cases ha : isAscii request.name = true
  · have hname : t.next = .done ∧ t.world.db.hasName request.name = true := by
      by_contra hn
      exact h ⟨ha, hn⟩
    simp only [ha, not_true_eq_false, if_false, if_true, Prog.run_bind, clientUsernameExists_run,
      hname.1, hname.2, decide_true, Bool.and_self, write_run]
    cases env.sendOk <;> rfl
  · cases hk : env.sendOk <;> simp [ha, hk, Prog.run_bind, write_run]

theorem registration_open (h : Registrable t request.name) :
    (registration env request).run t = (do
      match ← addClient env request.name with
      | none => refuse env
      | some clnt => write env (.registrationSucceeded clnt.id) : ServerM Bool).run t.pop := by
  have hname : (decide (t.next = .done) && t.world.db.hasName request.name) = false := by
    simpa using h.2
  rw [registration, Prog.run_bind, Prog.run_attempt]
  simp only [h.1, not_true_eq_false, if_false, Prog.run_bind, clientUsernameExists_run, hname,
    Bool.false_eq_true, Prog.run_pure]

theorem registration_stored (h : Registrable t request.name) :
    (registration env request).run t =
      if t.sql 1 = .connectRaises then (.raised .operationalError, t.pop.pop)
      else match if t.sql 1 = .done then insertClient
          ⟨env.uuid, request.name, none, env.now, none⟩ t.world.db else none with
        | none => (refuse env).run t.pop.pop
        | some (_, db) => (write env (.registrationSucceeded env.uuid)).run
            (t.pop.pop.inWorld { t.world with db }) := by
  rw [registration_open env h, addClient, Prog.run_bind, Prog.run_bind]
  cases hs : t.sql 1 with
  | connectRaises => rw [execute_raises (by exact hs)]; rfl
  | fails => rw [execute_fails (by exact hs)]; rfl
  | done =>
    cases hi : insertClient ⟨env.uuid, request.name, none, env.now, none⟩ t.world.db with
    | none =>
      rw [execute_rejected (by exact hs) (by exact hi)]
      simp
    | some r =>
      rw [execute_done (by exact hs) (by exact hi)]
      simp only [Prog.run_pure, if_true, reduceCtorEq, if_false]
      rfl

end Registration

section Files

def plainText (w : World) (request : RequestToSendFile) : Option Bytes :=
  ((w.db.clientRow request.header.clientID).bind (·.aesKey)).bind
    (crypto.aesCbcDecrypt · request.fileContent)

theorem decrypt_eq {w : World} {request : RequestToSendFile} {row : ClientRow}
    (h : w.db.clientRow request.header.clientID = some row) :
    decrypt crypto request.fileContent row.aesKey request.contentSize =
      (plainText crypto w request).map (·.take request.contentSize) := by
  rw [plainText, h, Option.bind_some]
  cases row.aesKey with
  | none => rfl
  | some key =>
    simp only [decrypt, Option.bind_eq_bind, Option.bind_some]
    cases crypto.aesCbcDecrypt key request.fileContent <;> rfl

theorem sendFile_unknown {request : RequestToSendFile} (h : ¬Known t request.header.clientID) :
    (sendFile crypto env request).run t = (refuse env).run t.pop := by
  rw [sendFile, ifKnown_run, if_neg h]

theorem sendFile_noKey {request : RequestToSendFile} (h : Known t request.header.clientID)
    (h₁ : t.sql 1 ≠ .done) :
    ∃ e, (sendFile crypto env request).run t = (.raised e, t.pop.pop) := by
  obtain ⟨e, he⟩ := getClientsSymmetricKey_raises request.header.clientID (t := t.pop) h₁
  exact ⟨e, by rw [sendFile, ifKnown_run, if_pos h, Prog.run_bind, he]⟩

/-- The checksum of the answer: the default stays when the file was not stored. -/
def answeredCrc : Option File → ℕ
  | some file => file.crc
  | none => 0

theorem sendFile_stored {request : RequestToSendFile} {row : ClientRow} {file : Option File}
    {u : Turn} (h : Known t request.header.clientID) (h₁ : t.sql 1 = .done)
    (hrow : t.world.db.clientRow request.header.clientID = some row)
    (hstore : (storeFileinDB crypto env request.header.clientID request.fileName
      (decrypt crypto request.fileContent row.aesKey request.contentSize)).run t.pop.pop =
        (.value file, u)) :
    (sendFile crypto env request).run t =
      (write env (.fileReceivedCrcValue request.header.clientID.val request.contentSize
        request.fileName (answeredCrc file))).run u := by
  rw [sendFile, ifKnown_run, if_pos h, Prog.run_bind,
    getClientsSymmetricKey_run (by exact h₁) (by exact hrow)]
  dsimp only
  rw [Prog.run_bind, hstore]
  cases file <;> rfl

theorem crcValid_unknown {request : CrcStatusRequest} (h : ¬Known t request.header.clientID) :
    (crcValid env request).run t = (refuse env).run t.pop := by
  rw [crcValid, ifKnown_run, if_neg h]

theorem crcValid_known {request : CrcStatusRequest} {updated : Bool} {u : Turn}
    (h : Known t request.header.clientID)
    (hu : (updateVerification env request.clientID request.fileName true).run t.pop =
      (.value updated, u)) :
    (crcValid env request).run t =
      if updated then (write env .receivingApproved).run u else (refuse env).run u := by
  rw [crcValid, ifKnown_run, if_pos h, Prog.run_bind, hu]
  cases updated <;> rfl

/-- The request gets as far as `saveFile`. -/
def Saves (w : World) (request : CrcStatusRequest) : Prop :=
  Known (Turn.start w env) request.header.clientID ∧
    RowFound (Turn.start w env).pop request.clientID request.fileName ∧
    (getFileInstance w request.clientID request.fileName).isSome = true

instance (w : World) (request : CrcStatusRequest) : Decidable (Saves env w request) :=
  inferInstanceAs (Decidable (_ ∧ _ ∧ _))

theorem crcValid_saves {w : World} {request : CrcStatusRequest} {file : File}
    (h : Saves env w request)
    (hfile : getFileInstance w request.clientID request.fileName = some file) :
    ∃ u, (crcValid env request).run (Turn.start w env) =
        (if env.sql 3 = .connectRaises then (refuse env).run u
          else (write env .receivingApproved).run u) ∧
      u.world = verifiedWorld env file request.clientID true (Turn.start w env).pop ∧
      u.sent = [] ∧ u.opened = [file.fullPath] := by
  obtain ⟨u, hrun, hworld, hsent, hopened⟩ := updateVerification_found env h.2.1 hfile true
  refine ⟨u, ?_, hworld, hsent, hopened⟩
  rw [crcValid_known env h.1 hrun]
  have hsql : (Turn.start w env).pop.sql 2 = env.sql 3 := rfl
  rw [hsql]
  by_cases hr : env.sql 3 = .connectRaises <;> simp [hr]

structure Untouched (w : World) (u : Turn) : Prop where
  sent : u.sent = []
  opened : u.opened = []
  disk : u.world.disk = w.disk
  fileDict : u.world.fileDict = w.fileDict
  cwd : u.world.cwd = w.cwd
  srcDir : u.world.srcDir = w.srcDir
  files : u.world.db.files = w.db.files

theorem Untouched.pop {w : World} {u : Turn} (h : Untouched w u) : Untouched w u.pop :=
  ⟨h.sent, h.opened, h.disk, h.fileDict, h.cwd, h.srcDir, h.files⟩

theorem Untouched.start (w : World) : Untouched w (Turn.start w env) :=
  ⟨rfl, rfl, rfl, rfl, rfl, rfl, rfl⟩

theorem Untouched.touch {w : World} {u : Turn} (h : Untouched w u) (n : NameOrId) :
    Untouched w (afterTouch env n u) where
  sent := h.sent
  opened := h.opened
  disk := by rw [afterTouch_disk, h.disk]
  fileDict := by rw [afterTouch_fileDict, h.fileDict]
  cwd := by rw [afterTouch_cwd, h.cwd]
  srcDir := by rw [afterTouch_srcDir, h.srcDir]
  files := by rw [afterTouch_files, h.files]

theorem crcValid_refused {w : World} {request : CrcStatusRequest} (h : ¬Saves env w request) :
    ∃ u, (crcValid env request).run (Turn.start w env) = (refuse env).run u ∧ Untouched w u ∧
      (Known (Turn.start w env) request.header.clientID →
        RowFound (Turn.start w env).pop request.clientID request.fileName →
          u.world.db.server =
            (afterTouch env (.id request.clientID) (Turn.start w env).pop.pop).world.db.server) ∧
      (¬(Known (Turn.start w env) request.header.clientID ∧
        RowFound (Turn.start w env).pop request.clientID request.fileName) →
          u.world.db.server = w.db.server) := by
  have hstart := Untouched.start env w
  by_cases hk : Known (Turn.start w env) request.header.clientID
  · by_cases hrow : RowFound (Turn.start w env).pop request.clientID request.fileName
    · have hnone : getFileInstance w request.clientID request.fileName = none := by
        by_contra hsome
        exact h ⟨hk, hrow, Option.isSome_iff_ne_none.mpr hsome⟩
      have hrun := updateVerification_noEntry env hrow hnone true
      exact ⟨_, crcValid_known env hk hrun, hstart.pop.pop.touch env _, fun _ _ => rfl,
        fun hnot => absurd ⟨hk, hrow⟩ hnot⟩
    · have hrun := updateVerification_unknown env hrow true
      exact ⟨_, crcValid_known env hk hrun, hstart.pop.pop, fun _ h => absurd h hrow,
        fun _ => rfl⟩
  · exact ⟨_, crcValid_unknown env hk, hstart.pop, fun h => absurd h hk, fun _ => rfl⟩

theorem crcResend_unknown {request : CrcStatusRequest} (h : ¬Known t request.header.clientID) :
    (crcResend crypto env request).run t = (refuse env).run t.pop := by
  rw [crcResend, ifKnown_run, if_neg h]

def resendFile (request : CrcStatusRequest) (t : Turn) : Option File :=
  if t.sql 1 = .done ∧ t.world.db.hasFile request.clientID request.fileName = true then
    getFileInstance t.world request.clientID request.fileName
  else none

theorem crcResend_known {request : CrcStatusRequest} (h : Known t request.header.clientID) :
    (crcResend crypto env request).run t =
      match resendFile request t with
      | none => (do
          let _ ← write env .emptyCrcValue
          return false : ServerM Bool).run t.pop.pop
      | some file => match file.content with
        | none => (.raised .typeError, t.pop.pop)
        | some content => (write env (.fileReceivedCrcValue request.header.clientID.val
            content.length request.fileName (crypto.crc32 content))).run t.pop.pop := by
  have hfile : (if t.pop.next = .done ∧
      t.pop.world.db.hasFile request.clientID request.fileName = true then
        getFileInstance t.pop.world request.clientID request.fileName else none) =
      resendFile request t := rfl
  rw [crcResend, ifKnown_run, if_pos h, Prog.run_bind, getFile_run, hfile]
  cases resendFile request t with
  | none => rfl
  | some file =>
    dsimp only
    cases file.content <;> rfl

theorem crcAbort_run (request : CrcStatusRequest) (t : Turn) :
    (crcAbort request).run t = (.raised .attributeError, t.pop) := by
  rw [crcAbort, Prog.run_bind, getClientNameById, Prog.run_attempt, Prog.run_bind]
  cases hs : t.next with
  | connectRaises => rw [execute_raises hs]; rfl
  | fails => rw [execute_fails hs]; rfl
  | done =>
    rw [execute_done hs rfl]
    dsimp only
    cases t.world.db.server.filter fun row => row.id = request.clientID <;> rfl

end Files

end Runs

end ServerHandlers
