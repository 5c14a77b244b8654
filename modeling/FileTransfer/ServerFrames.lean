import FileTransfer.ServerThread

/-! # What the handlers leave alone

Only `saveFile` opens paths and writes file contents. Every relation that holds across all
other primitives holds across every handler but the CRC-valid one. -/
namespace ServerFrames

open ByteField PathWalk ServerProtocol ServerTables ServerState ServerFiles ServerDatabase
  ServerHandlers ServerThread RaisingProgram

section Definitions

/-- The relation holds across every primitive that does not save a file. -/
structure Unsaved (r : Turn → Turn → Prop) : Prop where
  pop : ∀ t, r t t.pop
  send : ∀ t response, r t (t.send response)
  world : ∀ t w, w.disk = t.world.disk → w.cwd = t.world.cwd → r t (t.inWorld w)
  mkdir : ∀ t parent a disk, t.world.disk.mkdir parent a = some disk →
    r t (t.inWorld { t.world with disk })

/-- The relation holds across the primitives without a statement, and across such responses. -/
structure Frame (r : Turn → Turn → Prop) (p : Response → Prop) : Prop where
  pop : ∀ t, r t t.pop
  send : ∀ t response, p response → r t (t.send response)
  entry : ∀ t fileDict, r t (t.inWorld { t.world with fileDict })
  mkdir : ∀ t parent a disk, t.world.disk.mkdir parent a = some disk →
    r t (t.inWorld { t.world with disk })

def Allows {α : Type} (r : Turn → Turn → Prop) (statement : Tables → Option (α × Tables)) :
    Prop :=
  ∀ t a db, statement t.world.db = some (a, db) → r t (t.inWorld { t.world with db })

/-- The statements that set no column of a client but `LastSeen`. -/
structure AllowsSeen (r : Turn → Turn → Prop) : Prop where
  select : ∀ q, Allows r (selectClients q)
  touch : ∀ nameOrId now,
    Allows r (updateClients (touched nameOrId) fun row => { row with lastSeen := now })
  updateVarified : ∀ id fileName varified, Allows r (updateVarified id fileName varified)
  insertFile : ∀ row, Allows r (insertFile row)

structure Ordinary (p : Response → Prop) : Prop where
  failed : p .registrationFailed
  approved : p .receivingApproved
  crcValue : ∀ id size fileName checksum, p (.fileReceivedCrcValue id size fileName checksum)

end Definitions

section Rules

set_option linter.unusedSectionVars false

variable {r : Turn → Turn → Prop} [Std.Refl r] [IsTrans Turn r] {p : Response → Prop}
  (h : Frame r p) (hseen : AllowsSeen r) (hp : Ordinary p) (crypto : PyCrypto) (env : Env)
  (clientId : ClientId) (fileName : Text)

section Primitives

include h

theorem guarantees_execute {α : Type} {statement : Tables → Option (α × Tables)}
    (hs : Allows r statement) : Guarantees r (execute statement) := by
  intro t
  cases hnext : t.next with
  | connectRaises =>
    rw [execute_raises hnext]
    exact h.pop t
  | fails =>
    rw [execute_fails hnext]
    exact h.pop t
  | done =>
    cases hr : statement t.world.db with
    | none =>
      rw [execute_rejected hnext hr]
      exact h.pop t
    | some result =>
      obtain ⟨a, db⟩ := result
      rw [execute_done hnext hr]
      exact trans_of r (h.pop t) (hs t.pop a db hr)

theorem guarantees_write {response : Response} (hp : p response) :
    Guarantees r (write env response) := by
  intro t
  rw [write_run]
  split
  · exact h.send t response hp
  · exact refl_of r t

theorem guarantees_refuse (hp : p .registrationFailed) : Guarantees r (refuse env) :=
  guarantees_bind (guarantees_write h env hp) fun _ => guarantees_pure _

theorem guarantees_storeEntry (file : File) : Guarantees r (storeEntry file) :=
  guarantees_modify fun t => h.entry t _

theorem guarantees_getClientsDir : Guarantees r (getClientsDir env clientId) := by
  intro t
  rw [getClientsDir_run]
  cases hdir : clientsDir env t.world clientId with
  | none => exact refl_of r t
  | some dw =>
    obtain ⟨dir, w⟩ := dw
    rcases clientsDir_eq_some env hdir with ⟨-, -, rfl⟩ | ⟨-, -, -, disk, hmade, rfl⟩
    · exact h.entry t _
    · exact h.mkdir t _ _ disk hmade

theorem guarantees_fileExists : Guarantees r (fileExists clientId fileName) := by
  intro t
  rw [fileExists_run]
  exact h.pop t

theorem guarantees_clientExists : Guarantees r (clientExists clientId) := by
  intro t
  rw [clientExists_run]
  exact h.pop t

theorem guarantees_getFile : Guarantees r (getFile clientId fileName) := by
  intro t
  rw [getFile_run]
  exact h.pop t

theorem guarantees_newFile (content : Option Bytes) :
    Guarantees r (newFile crypto env clientId fileName content) := by
  apply guarantees_bind
  · apply guarantees_bind (guarantees_getClientsDir h env clientId)
    intro dir
    cases dir <;> exact guarantees_pure _
  · intro file
    cases file with
    | none => exact guarantees_raise _
    | some file =>
      apply guarantees_bind (guarantees_storeEntry h file)
      intro _
      unfold digestCrc
      cases file.content with
      | none => exact guarantees_raise _
      | some content =>
        exact guarantees_bind (guarantees_storeEntry h _) fun _ => guarantees_pure _

theorem guarantees_ifKnown (hp : p .registrationFailed) {body : ServerM Bool}
    (hbody : Guarantees r body) :
    Guarantees r (do if ¬(← clientExists clientId) then refuse env else body) := by
  apply guarantees_bind (guarantees_clientExists h clientId)
  intro found
  exact guarantees_ite (fun _ => guarantees_refuse h env hp) fun _ => hbody

end Primitives

section Seen

include h hseen

theorem guarantees_touch (nameOrId : NameOrId) : Guarantees r (touch env nameOrId) := by
  apply guarantees_attempt
  · exact guarantees_bind (guarantees_execute h (hseen.touch _ _)) fun _ => guarantees_pure _
  · exact fun _ => guarantees_pure _

theorem guarantees_committed (file : File) {statement : Tables → Option (Unit × Tables)}
    (hs : Allows r statement) :
    Guarantees r (do
      match ← execute statement with
      | some () =>
        touch env (.id clientId)
        return some file
      | none => return none) := by
  apply guarantees_bind (guarantees_execute h hs)
  intro committed
  cases committed with
  | none => exact guarantees_pure _
  | some _ => exact guarantees_bind (guarantees_touch h hseen env _) fun _ => guarantees_pure _

theorem guarantees_storeFileinDB (content : Option Bytes) :
    Guarantees r (storeFileinDB crypto env clientId fileName content) := by
  apply guarantees_attempt
  · apply guarantees_bind (guarantees_newFile h crypto env _ _ content)
    intro file
    apply guarantees_bind (guarantees_fileExists h _ _)
    intro found
    apply guarantees_ite
    · exact fun _ => guarantees_committed h hseen env _ file (hseen.updateVarified _ _ false)
    · exact fun _ => guarantees_bind (guarantees_newFile h crypto env _ _ content)
        fun file => guarantees_committed h hseen env _ file (hseen.insertFile _)
  · exact fun _ => guarantees_pure _

theorem guarantees_getClientsSymmetricKey : Guarantees r (getClientsSymmetricKey clientId) := by
  apply guarantees_bind (guarantees_execute h (hseen.select _))
  intro rows
  match rows with
  | none => exact guarantees_raise _
  | some [] => exact guarantees_raise _
  | some (row :: rows) => exact guarantees_pure _

section Saving

variable (hsave : ∀ file, Guarantees r (saveFile env file))

include hsave

theorem guarantees_setVerified (file : Option File) (verified : Bool) :
    Guarantees r (setVerified env file verified) := by
  cases file with
  | none => exact guarantees_pure _
  | some file =>
    refine guarantees_bind guarantees_read fun t => ?_
    dsimp only
    split
    · exact guarantees_pure _
    · apply guarantees_bind (guarantees_storeEntry h _)
      intro _
      apply guarantees_ite
      · exact fun _ => guarantees_bind (hsave _) fun _ => guarantees_pure _
      · exact fun _ => guarantees_pure _

theorem guarantees_updateVerification (verified : Bool) :
    Guarantees r (updateVerification env clientId fileName verified) := by
  apply guarantees_attempt
  · apply guarantees_bind (guarantees_fileExists h _ _)
    intro found
    apply guarantees_ite
    · intro _
      apply guarantees_bind (guarantees_touch h hseen env _)
      intro _
      refine guarantees_bind guarantees_read fun t => ?_
      apply guarantees_bind (guarantees_setVerified h hseen env hsave _ _)
      intro _
      split
      · exact guarantees_raise _
      · exact guarantees_bind (guarantees_execute h (hseen.updateVarified _ _ _))
          fun _ => guarantees_pure _
    · exact fun _ => guarantees_pure _
  · exact fun _ => guarantees_pure _

end Saving

end Seen

section Handlers

include h hp

theorem guarantees_registration (hinsert : ∀ row, Allows r (insertClient row))
    (hsends : ∀ id, p (.registrationSucceeded id)) (request : RegistrationRequest) :
    Guarantees r (registration env request) := by
  have hrefused : Guarantees r (do
      let _ ← write env .registrationFailed
      return true : ServerM Bool) :=
    guarantees_bind (guarantees_write h env hp.failed) fun _ => guarantees_pure _
  apply guarantees_bind
  · apply guarantees_attempt
    · apply guarantees_ite
      · exact fun _ => hrefused
      · intro _
        apply guarantees_bind
        · intro t
          rw [clientUsernameExists_run]
          exact h.pop t
        · exact fun _ => guarantees_ite (fun _ => hrefused) fun _ => guarantees_pure _
    · exact fun _ => hrefused
  · intro refused
    apply guarantees_ite
    · exact fun _ => guarantees_pure _
    · intro _
      apply guarantees_bind
      · apply guarantees_bind (guarantees_execute h (hinsert _))
        intro committed
        cases committed <;> exact guarantees_pure _
      · intro clnt
        cases clnt with
        | none => exact guarantees_refuse h env hp.failed
        | some clnt => exact guarantees_write h env (hsends _)

theorem guarantees_crcResend (request : CrcStatusRequest) :
    Guarantees r (crcResend crypto env request) := by
  apply guarantees_ifKnown h env _ hp.failed
  apply guarantees_bind (guarantees_getFile h _ _)
  intro file
  cases file with
  | none =>
    exact guarantees_bind (guarantees_write h env (hp.crcValue ..)) fun _ => guarantees_pure _
  | some file =>
    dsimp only
    cases file.content with
    | none => exact guarantees_raise _
    | some content => exact guarantees_write h env (hp.crcValue ..)

omit hp in
theorem guarantees_crcAbort (request : CrcStatusRequest) :
    Guarantees r (crcAbort request) := by
  intro t
  rw [crcAbort_run]
  exact h.pop t

include hseen

theorem guarantees_publicKey (request : PublicKeyRequest)
    (hpublic : ∀ key, Allows r (updateClients (fun row => row.id = request.header.clientID)
      fun row => { row with publicKey := some key }))
    (haes : ∀ key, Allows r (updateClients (fun row => row.id = request.header.clientID)
      fun row => { row with aesKey := some key }))
    (hsends : ∀ encrypted size, p (.publicKey request.header.clientID encrypted size)) :
    Guarantees r (publicKey crypto env request) := by
  apply guarantees_ifKnown h env _ hp.failed
  apply guarantees_bind
  · apply guarantees_ite
    · exact fun _ => guarantees_pure _
    · exact fun _ => guarantees_bind (guarantees_touch h hseen env _)
        fun _ => guarantees_execute h (hpublic _)
  · intro stored
    cases stored with
    | none => exact guarantees_refuse h env hp.failed
    | some _ =>
      apply guarantees_bind
      · apply guarantees_bind (guarantees_execute h (haes _))
        intro committed
        cases committed <;> exact guarantees_pure _
      · intro key
        cases key with
        | none => exact guarantees_pure _
        | some key =>
          dsimp only
          cases encryptAesKeyWithRsaPublic crypto env key.val request.publicKey.val with
          | none => exact guarantees_raise _
          | some encrypted => exact guarantees_write h env (hsends ..)

theorem guarantees_sendFile (request : RequestToSendFile) :
    Guarantees r (sendFile crypto env request) := by
  apply guarantees_ifKnown h env _ hp.failed
  apply guarantees_bind (guarantees_getClientsSymmetricKey h hseen _)
  intro key
  apply guarantees_bind (guarantees_storeFileinDB h hseen crypto env _ _ _)
  exact fun file => guarantees_write h env (hp.crcValue ..)

theorem guarantees_crcValid (hsave : ∀ file, Guarantees r (saveFile env file))
    (request : CrcStatusRequest) : Guarantees r (crcValid env request) := by
  apply guarantees_ifKnown h env _ hp.failed
  apply guarantees_bind (guarantees_updateVerification h hseen env _ _ hsave true)
  intro updated
  exact guarantees_ite (fun _ => guarantees_refuse h env hp.failed)
    fun _ => guarantees_write h env hp.approved

end Handlers

end Rules

section Unsaved

variable {r : Turn → Turn → Prop}

theorem Unsaved.frame (h : Unsaved r) : Frame r fun _ => True where
  pop := h.pop
  send t response _ := h.send t response
  entry t _ := h.world t _ rfl rfl
  mkdir := h.mkdir

theorem Unsaved.allows (h : Unsaved r) {α : Type} (statement : Tables → Option (α × Tables)) :
    Allows r statement := fun t _ db _ => h.world t { t.world with db } rfl rfl

theorem Unsaved.allowsSeen (h : Unsaved r) : AllowsSeen r where
  select _ := h.allows _
  touch _ _ := h.allows _
  updateVarified _ _ _ := h.allows _
  insertFile _ := h.allows _

theorem ordinary_any : Ordinary fun _ => True := ⟨trivial, trivial, fun _ _ _ _ => trivial⟩

variable [Std.Refl r] [IsTrans Turn r] (h : Unsaved r) (crypto : PyCrypto) (env : Env)

include h

theorem guarantees_handle {q : Request} (hq : ∀ request, q ≠ .crcValid request) :
    Guarantees r (handle crypto env q) := by
  cases q with
  | registration q =>
    exact guarantees_registration h.frame ordinary_any env (fun _ => h.allows _)
      (fun _ => trivial) q
  | publicKey q =>
    exact guarantees_publicKey h.frame h.allowsSeen ordinary_any crypto env q
      (fun _ => h.allows _) (fun _ => h.allows _) fun _ _ => trivial
  | sendFile q => exact guarantees_sendFile h.frame h.allowsSeen ordinary_any crypto env q
  | crcValid q => exact absurd rfl (hq q)
  | crcResend q => exact guarantees_crcResend h.frame ordinary_any crypto env q
  | crcAbort q => exact guarantees_crcAbort h.frame q

theorem readStep_related (w : World) {control : Control} (hc : control.awaits = true)
    (rr : RecvResult)
    (hq : ∀ q, (readStep crypto env w control rr).handled ≠ some (.crcValid q)) :
    ∃ u, r (Turn.start w env) u ∧ (readStep crypto env w control rr).world = u.world ∧
      (readStep crypto env w control rr).opened = u.opened := by
  have hstart : r (Turn.start w env) (Turn.start w env) := refl_of r _
  rw [readStep_eq_react crypto env w hc] at hq ⊢
  cases hreceived : received control rr with
  | parsed request =>
    rw [hreceived, react] at hq
    obtain ⟨hworld, hopened, hhandled⟩ := settle_world env w (some request)
      (handle crypto env request)
    have hne : ∀ q, request ≠ .crcValid q := by
      rintro q rfl
      exact hq q hhandled
    exact ⟨_, guarantees_handle h crypto env hne (Turn.start w env), hworld, hopened⟩
  | malformed refused =>
    obtain ⟨hworld, hopened, -⟩ := settle_world env w none
      (if refused then refuse env else return false)
    refine ⟨_, ?_, hworld, hopened⟩
    cases refused with
    | false => exact hstart
    | true => exact guarantees_refuse h.frame env trivial (Turn.start w env)
  | partly p => exact ⟨_, hstart, rfl, rfl⟩
  | endOfStream => exact ⟨_, hstart, rfl, rfl⟩
  | failure => exact ⟨_, hstart, rfl, rfl⟩

end Unsaved

end ServerFrames
