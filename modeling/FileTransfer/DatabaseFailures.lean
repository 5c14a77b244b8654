import FileTransfer.ApprovalAnswers
import FileTransfer.ClientColumns

/-! # Failing statements

`Database.execute` turns every error into `None`. What each handler makes of it, for every
choice of the statements that fail while a request is handled. -/
namespace DatabaseFailures

open ByteField ServerProtocol ServerTables ServerState ServerFiles ServerDatabase ServerHandlers
  ServerThread ServerSystem ClientColumns RaisingProgram
open ApprovalAnswers (Marks verified_marked_iff)

section Definitions

/-- The statements issued while a request is handled fail or not, as chosen. -/
def failing (env : Env) (fails : ℕ → Bool) : Env :=
  { env with sql := fun i => if fails i then .fails else .done }

variable (crypto : PyCrypto) (env : Env)

def uploadedContent (w : World) (q : RequestToSendFile) : Option Bytes :=
  (plainText crypto w q).map (·.take q.contentSize)

/-- The turn in which the handler of an upload stores it, after the client and its key were
looked for. -/
def storeTurn (w : World) : Turn := (Turn.start w env).pop.pop

/-- The writes behind a success code, in the tables after it. -/
def Stands (w : World) (db : Tables) : Request → Prop
  | .registration q => ∃ row, row.id = env.uuid ∧ row.name = q.name ∧
      db.server = w.db.server ++ [row]
  | .publicKey q => env.sql 2 = .done ∧ env.sql 3 = .done ∧ ∃ row,
      db.clientRow q.header.clientID = some row ∧ row.publicKey = some q.publicKey.val ∧
        row.aesKey = some env.aesKey.val
  | .sendFile q => env.sql 3 = .done ∧ ∃ content dir v, uploadedContent crypto w q = some content ∧
      clientsDir env w q.header.clientID = some (dir, v) ∧
        db.files = storedRows (storeTurn env w) (uploaded q.header.clientID q.fileName dir
          (some content) (crypto.crc32 content))
  | .crcValid q => env.sql 3 = .done ∧ db.isVarified q.clientID q.fileName = true
  | .crcResend q => env.sql 1 = .done ∧ db.hasFile q.clientID q.fileName = true
  | .crcAbort _ => False

/-- A lookup that the request depends on fails, or finds the name taken. -/
def Denied (w : World) : Request → Prop
  | .registration q => env.sql 0 ≠ .done ∨ w.db.hasName q.name = true
  | .publicKey _ => env.sql 0 ≠ .done
  | .crcAbort _ => env.sql 0 ≠ .done
  | .sendFile _ => env.sql 0 ≠ .done ∨ env.sql 1 ≠ .done
  | .crcValid _ => env.sql 0 ≠ .done ∨ env.sql 1 ≠ .done
  | .crcResend _ => env.sql 0 ≠ .done ∨ env.sql 1 ≠ .done

/-- No exception, no success without its writes, and nothing but refusals behind a lookup
that denies the request. -/
structure FailsClosed (w : World) (out : ReadStep) : Prop where
  unraised : ∀ e, out.control ≠ .dead (some e)
  committed : ∀ response ∈ out.sent, response ≠ .registrationFailed →
    ∃ request, out.handled = some request ∧ Stands crypto env w out.world.db request
  denied : ∀ request, out.handled = some request → Denied env w request →
    out.world.db = w.db ∧ ∀ response ∈ out.sent, response = .registrationFailed

/-- An upload that `storeFileinDB` reports: a row that is found does without the directory
of the lookups. -/
def StoreCommits (t : Turn) (clientId : ClientId) (fileName : Text) (content : Option Bytes) :
    Prop :=
  content ≠ none ∧ Committed t clientId fileName ∧
    (DirReady env t.world clientId ∨
      RowFound t clientId fileName ∧ clientsDir env t.world clientId ≠ none)

/-- When the handler of a request fails closed. -/
def Closes (w : World) : Request → Prop
  | .registration q => ¬(isAscii q.name = true ∧ env.sql 0 ≠ .done ∧ env.sql 1 = .done ∧
      ∀ row ∈ w.db.server, row.id ≠ env.uuid)
  | .publicKey q => Known (Turn.start w env) q.header.clientID → env.sql 2 = .done →
      env.sql 3 = .done →
        encryptAesKeyWithRsaPublic crypto env env.aesKey.val q.publicKey.val ≠ none
  | .sendFile q => Known (Turn.start w env) q.header.clientID → env.sql 1 = .done ∧
      (env.sendOk = true → StoreCommits env (storeTurn env w) q.header.clientID q.fileName
        (uploadedContent crypto w q))
  | .crcValid q => Saves env w q → env.sendOk = true → env.sql 3 = .done ∧
      ∀ file, getFileInstance w q.clientID q.fileName = some file → Marks w q file
  | .crcResend q => Known (Turn.start w env) q.header.clientID →
      (∀ file, resendFile q (Turn.start w env) = some file → file.content ≠ none) ∧
        (env.sendOk = true → env.sql 1 = .done ∧ w.db.hasFile q.clientID q.fileName = true)
  | .crcAbort _ => False

end Definitions

variable {crypto : PyCrypto} {env : Env} {w : World} {out : ReadStep} {request : Request}
  {handler : ServerM Bool} {u : Turn}

section Outcomes

theorem failsClosed_silent (hlive : ∀ e, out.control ≠ .dead (some e))
    (hsent : ∀ response ∈ out.sent, response = .registrationFailed)
    (hdb : ∀ request, out.handled = some request → Denied env w request →
      out.world.db = w.db) : FailsClosed crypto env w out where
  unraised := hlive
  committed response h hne := absurd (hsent response h) hne
  denied request hh hdenied := ⟨hdb request hh hdenied, hsent⟩

theorem failsClosed_answered_iff (hh : out.handled = some request)
    (hlive : ∀ e, out.control ≠ .dead (some e))
    (hsent : (∃ response ∈ out.sent, response ≠ .registrationFailed) ↔ env.sendOk = true) :
    FailsClosed crypto env w out ↔
      (env.sendOk = true → Stands crypto env w out.world.db request) ∧
        (Denied env w request → out.world.db = w.db ∧ env.sendOk = false) := by
  constructor
  · intro hclosed
    constructor
    · intro hok
      obtain ⟨response, hmem, hne⟩ := hsent.mpr hok
      obtain ⟨request', hh', hstands⟩ := hclosed.committed response hmem hne
      cases hh.symm.trans hh'
      exact hstands
    · intro hdenied
      obtain ⟨hdb, honly⟩ := hclosed.denied request hh hdenied
      refine ⟨hdb, Bool.eq_false_iff.mpr fun hok => ?_⟩
      obtain ⟨response, hmem, hne⟩ := hsent.mpr hok
      exact hne (honly response hmem)
  · rintro ⟨hstands, hdenied⟩
    refine ⟨hlive, fun response hmem hne => ?_, fun request' hh' h => ?_⟩
    · exact ⟨request, hh, hstands (hsent.mp ⟨response, hmem, hne⟩)⟩
    · cases hh.symm.trans hh'
      obtain ⟨hdb, hstuck⟩ := hdenied h
      refine ⟨hdb, fun response hmem => ?_⟩
      by_contra hne
      rw [hsent.mp ⟨response, hmem, hne⟩] at hstuck
      cases hstuck

theorem failsClosed_refused (h : handler.run (Turn.start w env) = (refuse env).run u)
    (hsent : u.sent = []) (hdb : Denied env w request → u.world.db = w.db) :
    FailsClosed crypto env w (settle env w (some request) handler) := by
  rw [settle_refused env h, hsent]
  apply failsClosed_silent
  · intro e
    dsimp only
    split <;> simp
  · intro response hmem
    dsimp only at hmem
    split at hmem
    · simpa using hmem
    · cases hmem
  · rintro _ ⟨⟩ hdenied
    exact hdb hdenied

theorem failsClosed_false (h : handler.run (Turn.start w env) = (.value false, u))
    (hsent : u.sent = []) (hdb : Denied env w request → u.world.db = w.db) :
    FailsClosed crypto env w (settle env w (some request) handler) := by
  rw [settle_value env h, hsent]
  apply failsClosed_silent
  · intro e
    cases env.sendOk <;> simp
  · intro response hmem
    dsimp only at hmem
    split at hmem
    · exact List.mem_singleton.mp hmem
    · cases hmem
  · rintro _ ⟨⟩ hdenied
    exact hdb hdenied

theorem failsClosed_written_iff {response : Response}
    (h : handler.run (Turn.start w env) = (write env response).run u) (hsent : u.sent = [])
    (hne : response ≠ .registrationFailed) :
    FailsClosed crypto env w (settle env w (some request) handler) ↔
      (env.sendOk = true → Stands crypto env w u.world.db request) ∧
        (Denied env w request → u.world.db = w.db ∧ env.sendOk = false) := by
  rw [settle_written env h, hsent]
  refine failsClosed_answered_iff rfl (fun e => ?_) ?_
  · dsimp only
    split <;> simp
  · by_cases hok : env.sendOk = true
    · simpa [hok] using hne
    · simp [hok]

theorem not_failsClosed_raised {e : PyError} (h : handler.run (Turn.start w env) = (.raised e, u)) :
    ¬FailsClosed crypto env w (settle env w (some request) handler) := by
  intro hclosed
  rw [settle_raised env h] at hclosed
  exact hclosed.unraised e rfl

theorem fails_of_not_done (hsql : ∀ i, env.sql i ≠ .connectRaises) {i : ℕ}
    (h : env.sql i ≠ .done) : env.sql i = .fails := by
  cases hs : env.sql i with
  | done => exact absurd hs h
  | fails => rfl
  | connectRaises => exact absurd hs (hsql i)

theorem tables_eq {db db' : Tables} (hserver : db.server = db'.server)
    (hfiles : db.files = db'.files) : db = db' := by
  cases db
  cases db'
  cases hserver
  cases hfiles
  rfl

end Outcomes

section Requests

theorem registration_closed_iff (hsql : ∀ i, env.sql i ≠ .connectRaises)
    (q : RegistrationRequest) :
    FailsClosed crypto env w (settle env w (some (.registration q)) (registration env q)) ↔
      Closes crypto env w (.registration q) := by
  by_cases hopen : Registrable (Turn.start w env) q.name
  · have hrun := registration_stored env hopen
    rw [if_neg (by exact hsql 1)] at hrun
    cases hinsert : (if (Turn.start w env).sql 1 = .done then
        insertClient ⟨env.uuid, q.name, none, env.now, none⟩ (Turn.start w env).world.db
      else none) with
    | none =>
      rw [hinsert] at hrun
      refine iff_of_true (failsClosed_refused hrun rfl fun _ => rfl) ?_
      rintro ⟨-, -, h₁, hfree⟩
      rw [if_pos (by exact h₁), insertClient, dif_pos (by exact hfree)] at hinsert
      cases hinsert
    | some result =>
      obtain ⟨done, db⟩ := result
      rw [hinsert] at hrun
      have h₁ : env.sql 1 = .done := by
        by_contra h₁
        rw [if_neg (by exact h₁)] at hinsert
        cases hinsert
      rw [if_pos (by exact h₁)] at hinsert
      obtain ⟨hfree, hrows⟩ := insertClient_rows hinsert
      have hgrown : db ≠ w.db := by
        rintro rfl
        simpa using congrArg List.length hrows
      rw [failsClosed_written_iff hrun rfl (by simp)]
      constructor
      · rintro ⟨-, hdenied⟩ ⟨-, h₀, -⟩
        exact hgrown (hdenied (.inl h₀)).1
      · intro hcloses
        have h₀ : env.sql 0 = .done := by
          by_contra h₀
          exact hcloses ⟨hopen.1, h₀, h₁, hfree⟩
        refine ⟨fun _ => ⟨_, rfl, rfl, hrows⟩, ?_⟩
        rintro (hfailed | htaken)
        · exact absurd h₀ hfailed
        · exact absurd ⟨h₀, htaken⟩ hopen.2
  · have hrun := registration_refused env hopen
    refine iff_of_true (failsClosed_refused hrun ?_ fun _ => ?_) fun h => hopen ⟨h.1, ?_⟩
    · split <;> rfl
    · split <;> rfl
    · exact fun hfound => h.2.1 hfound.1

theorem sessionTurn_row {q : PublicKeyRequest} (h : Known (Turn.start w env) q.header.clientID) :
    ∃ row, (sessionTurn env q (Turn.start w env)).world.db.clientRow q.header.clientID =
      some row ∧ row.publicKey = some q.publicKey.val ∧ row.aesKey = some env.aesKey.val := by
  obtain ⟨row, hrow⟩ := hasClient_iff.mp
    ((afterTouch_hasClient env (.id q.header.clientID) (Turn.start w env).pop _).trans h.2)
  refine ⟨{ row with publicKey := some q.publicKey.val, aesKey := some env.aesKey.val },
    ?_, rfl, rfl⟩
  simp only [sessionTurn, keyedTurn, inWorld_world, clientRow_updateClients]
  rw [hrow]
  rfl

theorem publicKey_closed_iff (hsql : ∀ i, env.sql i ≠ .connectRaises) (q : PublicKeyRequest) :
    FailsClosed crypto env w (settle env w (some (.publicKey q)) (publicKey crypto env q)) ↔
      Closes crypto env w (.publicKey q) := by
  by_cases hk : Known (Turn.start w env) q.header.clientID
  · by_cases h₂ : env.sql 2 = .done
    · have hrun := publicKey_set crypto env hk h₂
      rw [if_neg (by exact hsql 3)] at hrun
      by_cases h₃ : env.sql 3 = .done
      · rw [if_neg (by simp [h₃])] at hrun
        cases henc : encryptAesKeyWithRsaPublic crypto env env.aesKey.val q.publicKey.val with
        | none =>
          rw [henc] at hrun
          exact iff_of_false (not_failsClosed_raised hrun) fun h => h hk h₂ h₃ henc
        | some encrypted =>
          rw [henc] at hrun
          refine iff_of_true ((failsClosed_written_iff hrun rfl (by simp)).mpr ⟨fun _ => ?_, ?_⟩) ?_
          · exact ⟨h₂, h₃, sessionTurn_row hk⟩
          · exact fun h₀ => absurd hk.1 h₀
          · exact fun _ _ _ hnone => by simp [henc] at hnone
      · rw [if_pos (by exact fails_of_not_done hsql h₃)] at hrun
        refine iff_of_true (failsClosed_false hrun rfl fun h₀ => absurd hk.1 h₀) ?_
        exact fun _ _ h => absurd h h₃
    · have hrun := publicKey_unset crypto env hk h₂
      dsimp only at hrun
      rw [if_neg (by exact hsql 2)] at hrun
      refine iff_of_true (failsClosed_refused hrun rfl fun h₀ => absurd hk.1 h₀) ?_
      exact fun _ h => absurd h h₂
  · have hrun := publicKey_unknown crypto env hk
    exact iff_of_true (failsClosed_refused hrun rfl fun _ => rfl) fun h => absurd h hk

section Uploads

variable {t : Turn} {clientId : ClientId} {fileName : Text} {content : Option Bytes}

theorem files_ne_storedRows {file : File} (h : ¬RowFound t file.clientId file.filename) :
    t.world.db.files ≠ storedRows t file := by
  rw [storedRows, if_neg h]
  intro heq
  simpa using congrArg List.length heq

/-- When `storeFileinDB` writes the row of a file that can be decrypted. -/
theorem storeFileinDB_rows_iff {file : Option File} {u : Turn}
    (h : (storeFileinDB crypto env clientId fileName content).run t = (.value file, u)) :
    (t.sql 1 = .done ∧ ∃ bytes dir v, content = some bytes ∧
      clientsDir env t.world clientId = some (dir, v) ∧ u.world.db.files = storedRows t
        (uploaded clientId fileName dir (some bytes) (crypto.crc32 bytes))) ↔
      StoreCommits env t clientId fileName content := by
  cases hdir : clientsDir env t.world clientId with
  | none =>
    refine iff_of_false (by rintro ⟨-, -, -, -, -, ⟨⟩, -⟩) ?_
    rintro ⟨-, -, hready | ⟨-, hsome⟩⟩
    · obtain ⟨disk, hsome, -⟩ := clientsDir_of_ready env hready
      cases hdir.symm.trans hsome
    · exact hsome hdir
  | some dw =>
    obtain ⟨dir, v⟩ := dw
    cases content with
    | none => exact iff_of_false (by rintro ⟨-, -, -, -, ⟨⟩, -⟩) fun hcommits => hcommits.1 rfl
    | some content =>
      have hrows : (t.sql 1 = .done ∧ ∃ bytes dir' v', some content = some bytes ∧
          some (dir, v) = some (dir', v') ∧ u.world.db.files = storedRows t
            (uploaded clientId fileName dir' (some bytes) (crypto.crc32 bytes))) ↔
          t.sql 1 = .done ∧ u.world.db.files = storedRows t
            (uploaded clientId fileName dir (some content) (crypto.crc32 content)) := by
        refine and_congr_right fun _ => ⟨?_, fun hfiles => ⟨_, _, _, rfl, rfl, hfiles⟩⟩
        rintro ⟨bytes, dir', v', ⟨⟩, ⟨⟩, hfiles⟩
        exact hfiles
      rw [hrows]
      by_cases hready : DirReady env t.world clientId
      · obtain ⟨u', hrun, -, hfiles, -⟩ :=
          storeFileinDB_ready crypto env fileName content hready
        obtain ⟨disk, hsome, -⟩ := clientsDir_of_ready env hready
        cases hdir.symm.trans hsome
        cases h.symm.trans hrun
        by_cases hc : Committed t clientId fileName
        · rw [if_pos hc] at hfiles
          exact iff_of_true ⟨hc.1, hfiles⟩ ⟨Option.some_ne_none _, hc, .inl hready⟩
        · rw [if_neg hc] at hfiles
          refine iff_of_false ?_ fun hcommits => hc hcommits.2.1
          rintro ⟨hs, hstored⟩
          exact files_ne_storedRows (fun hfound => hc ⟨hs, .inl hfound⟩) (hfiles.symm.trans hstored)
      · by_cases hc : RowFound t clientId fileName ∧ t.sql 1 = .done
        · have hrun := storeFileinDB_awayFound crypto env content hdir hc.1 hc.2
          cases h.symm.trans hrun
          refine iff_of_true ⟨hc.2, ?_⟩
            ⟨Option.some_ne_none _, ⟨hc.2, .inl hc.1⟩, .inr ⟨hc.1, by simp [hdir]⟩⟩
          rw [afterTouch_files, storedRows, if_pos (by exact hc.1)]
          rfl
        · obtain ⟨u', hrun, -, -, hworld⟩ :=
            storeFileinDB_awayMissing crypto env content hready hdir hc
          cases h.symm.trans hrun
          have hdb : u.world.db = t.world.db := by
            rw [hworld]
            exact (clientsDir_world env hdir).1
          rw [hdb]
          refine iff_of_false ?_ ?_
          · rintro ⟨hs, hstored⟩
            exact files_ne_storedRows (fun hfound => hc ⟨hfound, hs⟩) hstored
          · rintro ⟨-, ⟨hs, -⟩, hyes | ⟨hfound, -⟩⟩
            · exact hready hyes
            · exact hc ⟨hfound, hs⟩

theorem sendFile_closed_iff (q : RequestToSendFile) :
    FailsClosed crypto env w (settle env w (some (.sendFile q)) (sendFile crypto env q)) ↔
      Closes crypto env w (.sendFile q) := by
  by_cases hk : Known (Turn.start w env) q.header.clientID
  · by_cases h₁ : env.sql 1 = .done
    · obtain ⟨row, hrow⟩ : ∃ row, w.db.clientRow q.header.clientID = some row :=
        hasClient_iff.mp hk.2
      obtain ⟨file, u, hstore, hsent, -⟩ := storeFileinDB_value crypto env q.header.clientID
        q.fileName (uploadedContent crypto w q) (storeTurn env w)
      have hplain : decrypt crypto q.fileContent row.aesKey q.contentSize =
          uploadedContent crypto w q := decrypt_eq crypto hrow
      have hrun := sendFile_stored crypto env (u := u) hk h₁ hrow (by rw [hplain]; exact hstore)
      have hstands : Stands crypto env w u.world.db (.sendFile q) ↔ StoreCommits env
          (storeTurn env w) q.header.clientID q.fileName (uploadedContent crypto w q) :=
        storeFileinDB_rows_iff hstore
      rw [failsClosed_written_iff hrun hsent (by simp), hstands]
      constructor
      · exact fun h _ => ⟨h₁, h.1⟩
      · intro hcloses
        refine ⟨(hcloses hk).2, ?_⟩
        rintro (hfailed | hfailed)
        · exact absurd hk.1 hfailed
        · exact absurd h₁ hfailed
    · obtain ⟨e, hrun⟩ := sendFile_noKey crypto env hk h₁
      exact iff_of_false (not_failsClosed_raised hrun) fun h => h₁ (h hk).1
  · have hrun := sendFile_unknown crypto env hk
    exact iff_of_true (failsClosed_refused hrun rfl fun _ => rfl) fun h => absurd h hk

end Uploads

section Checksums

variable {q : CrcStatusRequest}

theorem crcValid_closed_iff (hsql : ∀ i, env.sql i ≠ .connectRaises) :
    FailsClosed crypto env w (settle env w (some (.crcValid q)) (crcValid env q)) ↔
      Closes crypto env w (.crcValid q) := by
  by_cases hsaves : Saves env w q
  · obtain ⟨file, hfile⟩ := Option.isSome_iff_exists.mp hsaves.2.2
    obtain ⟨u, hrun, hworld, hsent, -⟩ := crcValid_saves env hsaves hfile
    rw [if_neg (hsql 3)] at hrun
    rw [failsClosed_written_iff hrun hsent (by simp), Stands, hworld]
    constructor
    · rintro ⟨hstands, -⟩ - hok
      obtain ⟨h₃, hvarified⟩ := hstands hok
      refine ⟨h₃, fun found hfound => ?_⟩
      cases hfile.symm.trans hfound
      exact (verified_marked_iff hsaves h₃).mp hvarified
    · intro hcloses
      constructor
      · intro hok
        obtain ⟨h₃, hmarks⟩ := hcloses hsaves hok
        exact ⟨h₃, (verified_marked_iff hsaves h₃).mpr (hmarks file hfile)⟩
      · rintro (hfailed | hfailed)
        · exact absurd hsaves.1.1 hfailed
        · exact absurd hsaves.2.1.1 hfailed
  · obtain ⟨u, hrun, hu, -, hserver⟩ := crcValid_refused env hsaves
    refine iff_of_true (failsClosed_refused hrun hu.sent fun hdenied => ?_) ?_
    · refine tables_eq (hserver ?_) hu.files
      rintro ⟨hk, hrow⟩
      rcases hdenied with hfailed | hfailed
      · exact hfailed hk.1
      · exact hfailed hrow.1
    · exact fun h => absurd h hsaves

/-- A file that is not found is answered with an empty 2103. -/
theorem crcResend_closed_iff :
    FailsClosed crypto env w (settle env w (some (.crcResend q)) (crcResend crypto env q)) ↔
      Closes crypto env w (.crcResend q) := by
  by_cases hk : Known (Turn.start w env) q.header.clientID
  · have hrun := crcResend_known crypto env hk
    cases hfile : resendFile q (Turn.start w env) with
    | none =>
      have hcloses : Closes crypto env w (.crcResend q) ↔
          (env.sendOk = true → env.sql 1 = .done ∧ w.db.hasFile q.clientID q.fileName = true) :=
        ⟨fun h => (h hk).2, fun h _ => ⟨fun file hsome => by simp [hfile] at hsome, h⟩⟩
      rw [hcloses]
      by_cases hok : env.sendOk = true
      · have hrun' : (crcResend crypto env q).run (Turn.start w env) =
            (.value false, (Turn.start w env).pop.pop.send .emptyCrcValue) := by
          rw [hrun, hfile, Prog.run_bind, write_run, if_pos hok]
          rfl
        rw [settle_value env hrun', failsClosed_answered_iff rfl (by simp [hok])
          (iff_of_true ⟨.emptyCrcValue, by simp [hok], by simp [Response.emptyCrcValue]⟩ hok)]
        refine ⟨And.left, fun h => ⟨h, ?_⟩⟩
        rintro (hfailed | hfailed)
        · exact absurd hk.1 hfailed
        · exact absurd (h hok).1 hfailed
      · have hrun' : (crcResend crypto env q).run (Turn.start w env) =
            (.hangs, (Turn.start w env).pop.pop) := by
          rw [hrun, hfile, Prog.run_bind, write_run, if_neg hok]
        rw [settle_hangs env hrun']
        refine iff_of_true (failsClosed_silent ?_ ?_ fun _ _ _ => rfl) fun h => absurd h hok
        · simp
        · simp [Turn.start]
    | some file =>
      have hfound : env.sql 1 = .done ∧ w.db.hasFile q.clientID q.fileName = true := by
        unfold resendFile at hfile
        split at hfile
        · next hfound => exact hfound
        · cases hfile
      rw [hfile] at hrun
      dsimp only at hrun
      cases hcontent : file.content with
      | none =>
        rw [hcontent] at hrun
        exact iff_of_false (not_failsClosed_raised hrun) fun h => (h hk).1 file hfile hcontent
      | some content =>
        rw [hcontent] at hrun
        have hwritten := @failsClosed_written_iff crypto _ _ (.crcResend q) _ _ _ hrun rfl (by simp)
        refine iff_of_true (hwritten.mpr ⟨fun _ => hfound, ?_⟩) ?_
        · rintro (hfailed | hfailed)
          · exact absurd hk.1 hfailed
          · exact absurd hfound.1 hfailed
        · refine fun _ => ⟨fun found hsome => ?_, fun _ => hfound⟩
          cases hfile.symm.trans hsome
          simp [hcontent]
  · have hrun := crcResend_unknown crypto env hk
    exact iff_of_true (failsClosed_refused hrun rfl fun _ => rfl) fun h => absurd h hk

theorem not_failsClosed_crcAbort :
    ¬FailsClosed crypto env w (settle env w (some (.crcAbort q)) (crcAbort q)) :=
  not_failsClosed_raised (crcAbort_run q (Turn.start w env))

end Checksums

theorem settle_closed_iff (hsql : ∀ i, env.sql i ≠ .connectRaises) (request : Request) :
    FailsClosed crypto env w (settle env w (some request) (handle crypto env request)) ↔
      Closes crypto env w request := by
  cases request with
  | registration q => exact registration_closed_iff hsql q
  | publicKey q => exact publicKey_closed_iff hsql q
  | sendFile q => exact sendFile_closed_iff q
  | crcValid q => exact crcValid_closed_iff hsql
  | crcResend q => exact crcResend_closed_iff
  | crcAbort q => exact iff_of_false not_failsClosed_crcAbort id

theorem react_unparsed {r : Received} (h : ∀ request, r ≠ .parsed request) :
    FailsClosed crypto env w (react crypto env w r) ∧ (react crypto env w r).handled = none := by
  have hquiet : ∀ control : Control, (∀ e, control ≠ .dead (some e)) →
      FailsClosed crypto env w (.quiet w control) := fun control hlive =>
    failsClosed_silent hlive (List.forall_mem_nil _) fun _ _ _ => rfl
  cases r with
  | parsed request => exact absurd rfl (h request)
  | malformed refused =>
    obtain ⟨-, hhandled, hsent⟩ := react_malformed crypto env w refused
    refine ⟨failsClosed_silent (fun e => ?_) hsent (by simp [hhandled]), hhandled⟩
    cases refused with
    | true =>
      rw [react, if_pos rfl, settle_refused env rfl]
      cases env.sendOk <;> simp
    | false =>
      rw [react, if_neg Bool.false_ne_true, settle_value env rfl]
      cases env.sendOk <;> simp
  | partly p => exact ⟨hquiet _ (by simp), rfl⟩
  | endOfStream => exact ⟨hquiet _ (by simp), rfl⟩
  | failure => exact ⟨hquiet _ (by simp), rfl⟩

end Requests

variable {s : System} {c : ℕ} {r : RecvResult} {fails : ℕ → Bool}

/-- Main theorem: whatever statements fail, the server fails closed exactly when the handler
of the request does. -/
theorem failsClosed_iff (h : s.served crypto c r (failing env fails) = some out) :
    FailsClosed crypto (failing env fails) s.world out ↔ ∀ request, out.handled = some request →
      Closes crypto (failing env fails) s.world request := by
  have hsql : ∀ i, (failing env fails).sql i ≠ .connectRaises := by
    intro i
    dsimp only [failing]
    split <;> simp
  obtain ⟨conn, -, hawaits, rfl⟩ := served_eq_some h
  rw [readStep_eq_react crypto _ s.world hawaits]
  by_cases hparsed : ∃ request, received conn.control r = .parsed request
  · obtain ⟨request, hrequest⟩ := hparsed
    rw [hrequest, react, settle_closed_iff hsql, (settle_world _ s.world _ _).2.2]
    simp
  · push Not at hparsed
    obtain ⟨hclosed, hhandled⟩ := @react_unparsed crypto (failing env fails) s.world _ hparsed
    exact iff_of_true hclosed (by simp [hhandled])

section Sample

open ClientChannel StepRun

theorem failsClosed_iff_insert : ∃ out, (System.serving .withClient).served .trivial 0
    (.chunk (registrationRequestMessage [0x62])) (failing .undisturbed (· = 1)) = some out ∧
      out.sent = [.registrationFailed, .registrationFailed] ∧
      FailsClosed .trivial (failing .undisturbed (· = 1)) .withClient out := by
  have hhandled : (readStep .trivial (failing .undisturbed (· = 1)) .withClient .reading
      (.chunk (registrationRequestMessage [0x62]))).handled = some (.registration
        ⟨⟨emptyId, clientVersion, requestRegistration, clientNameSize⟩, [0x62]⟩) := by
    decide +kernel
  have hsent : (readStep .trivial (failing .undisturbed (· = 1)) .withClient .reading
      (.chunk (registrationRequestMessage [0x62]))).sent =
        [.registrationFailed, .registrationFailed] := by
    decide +kernel
  refine ⟨_, rfl, hsent,
    (failsClosed_iff (s := .serving .withClient) (c := 0) rfl).mpr fun request hrequest => ?_⟩
  cases hhandled.symm.trans hrequest
  exact fun h => absurd h.2.2.1 (by decide)

/-- The lookup of a taken name fails, and a second client gets it. -/
theorem not_failsClosed_taken : ¬∀ (crypto : PyCrypto) (w : World) (es : List Event)
    (s : System) (c : ℕ) (r : RecvResult) (env : Env) (fails : ℕ → Bool) (out : ReadStep),
      Run (Step crypto) (.initial w) es s → s.served crypto c r (failing env fails) = some out →
        FailsClosed crypto (failing env fails) s.world out := by
  intro h
  have hrun : Run (Step .trivial) (.initial .withClient) [.accept, .start]
      (.serving .withClient) := Run.of_foldlM rfl
  have hhandled : (readStep .trivial (failing .undisturbed (· = 0)) .withClient .reading
      (.chunk (registrationRequestMessage [0x61]))).handled = some (.registration
        ⟨⟨emptyId, clientVersion, requestRegistration, clientNameSize⟩, [0x61]⟩) := by
    decide +kernel
  have hnames : (readStep .trivial (failing .undisturbed (· = 0)) .withClient .reading
      (.chunk (registrationRequestMessage [0x61]))).world.db.server.map (·.name) =
        [[0x61], [0x61]] := by
    decide +kernel
  have hserved : (System.serving .withClient).served .trivial 0
      (.chunk (registrationRequestMessage [0x61])) (failing .undisturbed (· = 0)) =
        some (readStep .trivial (failing .undisturbed (· = 0)) .withClient .reading
          (.chunk (registrationRequestMessage [0x61]))) := rfl
  have hclosed := h .trivial .withClient _ _ 0 _ .undisturbed (· = 0) _ hrun hserved
  have hdb := (hclosed.denied _ hhandled (.inr (by decide))).1
  rw [hdb] at hnames
  cases hnames

end Sample

end DatabaseFailures
