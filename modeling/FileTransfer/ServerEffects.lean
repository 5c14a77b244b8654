import FileTransfer.StoreAtomicity

/-! # What a request does to the world

One lemma says everything that the handlers can do to the tables, the dictionary and the
disk, with whatever failures of the environment. -/
namespace ServerEffects

open ByteField PathWalk ServerProtocol ServerTables ServerState ServerFiles ServerDatabase
  ServerHandlers ServerThread ServerSystem StoreAtomicity StepRun RaisingProgram
open ClientIsolation (entry storeFileinDB_effect crcResend_world)
open DatabaseFailures (uploadedContent storeTurn)

section Definitions

variable (crypto : PyCrypto) (env : Env) (w : World)

def setClient (id : ClientId) (f : ClientRow → ClientRow) (rows : List ClientRow) :
    List ClientRow := rows.map fun row => if row.id = id then f row else row

inductive Seen (id : ClientId) : List ClientRow → Prop where
  | same : Seen id w.db.server
  | touched : Seen id (touchedRows env (.id id) w.db.server)

def clientOf : Request → ClientId
  | .crcValid q => q.clientID
  | q => q.header.clientID

inductive ClientsEffect : Request → List ClientRow → Prop where
  | seen (q : Request) (rows : List ClientRow) : Seen env w (clientOf q) rows →
      ClientsEffect q rows
  | registered (q : RegistrationRequest) : (∀ row ∈ w.db.server, row.id ≠ env.uuid) →
      ClientsEffect (.registration q)
        (w.db.server ++ [⟨env.uuid, q.name, none, env.now, none⟩])
  | keyed (q : PublicKeyRequest) (rows : List ClientRow) : Seen env w q.header.clientID rows →
      ClientsEffect (.publicKey q) (setClient q.header.clientID
        (fun row => { row with publicKey := some q.publicKey.val }) rows)
  | exchanged (q : PublicKeyRequest) (rows : List ClientRow) :
      Seen env w q.header.clientID rows → ClientsEffect (.publicKey q)
        (setClient q.header.clientID (fun row => { row with aesKey := some env.aesKey.val })
          (setClient q.header.clientID
            (fun row => { row with publicKey := some q.publicKey.val }) rows))

inductive FilesEffect : Request → List FileRow → Prop where
  | same (q : Request) : FilesEffect q w.db.files
  | reset (q : RequestToSendFile) : w.db.hasClient q.header.clientID = true →
      FilesEffect (.sendFile q) (w.db.setVarified q.header.clientID q.fileName false).files
  | added (q : RequestToSendFile) (pathName : Text) : w.db.hasClient q.header.clientID = true →
      FilesEffect (.sendFile q) (w.db.files ++ [⟨q.header.clientID, q.fileName, pathName, false⟩])
  | marked (q : CrcStatusRequest) (file : File) :
      w.db.hasFile q.clientID q.fileName = true →
      getFileInstance w q.clientID q.fileName = some file →
      FilesEffect (.crcValid q) (w.db.setVarified file.clientId file.filename true).files

/-- The directory of a client, in the working directory or next to the sources. -/
def OwnDir (id : ClientId) (dir : Text) : Prop :=
  dir = render (clientFolder w id) ∨ dir = render (w.srcDir.val ++ [clientDirectory id])

inductive DictEffect : Request → FileDict → Prop where
  | same (q : Request) : DictEffect q w.fileDict
  | stored (q : RequestToSendFile) (dir : Text) : w.db.hasClient q.header.clientID = true →
      OwnDir w q.header.clientID dir → DictEffect (.sendFile q) (w.fileDict.store
        (entry crypto dir q.header.clientID q.fileName (uploadedContent crypto w q)))
  | verified (q : CrcStatusRequest) (file : File) :
      w.db.hasFile q.clientID q.fileName = true →
      getFileInstance w q.clientID q.fileName = some file →
      DictEffect (.crcValid q) (w.fileDict.store { file with verified := true })

inductive DiskEffect : Request → Disk → Prop where
  | same (q : Request) : DiskEffect q w.disk
  | made (q : RequestToSendFile) (disk : Disk) : (∀ loc, disk.node loc = w.disk.node loc ∨
      w.disk.node loc = none ∧ disk.node loc = some .dir) → DiskEffect (.sendFile q) disk
  | saved (q : CrcStatusRequest) (file : File) :
      getFileInstance w q.clientID q.fileName = some file →
      DiskEffect (.crcValid q) (saved env w.disk file.fullPath file.content).1

structure Effect (q : Request) (w' : World) : Prop where
  clients : ClientsEffect env w q w'.db.server
  files : FilesEffect w q w'.db.files
  fileDict : DictEffect crypto w q w'.fileDict
  disk : DiskEffect env w q w'.disk
  cwd : w'.cwd = w.cwd
  srcDir : w'.srcDir = w.srcDir

structure Handled where
  env : Env
  world : World
  request : Request

abbrev History := List Handled

def completed (s : System) : Event → Option Handled
  | .recv c r env =>
    (s.served crypto c r env).bind fun out => out.handled.map fun q => ⟨env, s.world, q⟩
  | _ => none

def historyNext (p : System × History) (e : Event) : Option (System × History) :=
  (p.1.next crypto e).map fun s => (s, p.2 ++ (completed crypto p.1 e).toList)

def HistoryStep (p : System × History) (e : Event) (p' : System × History) : Prop :=
  historyNext crypto p e = some p'

def historyStart : System × History := (.initial w, [])

end Definitions

variable {crypto : PyCrypto} {env : Env} {w w' : World}

section Handlers

theorem effect_of_sameStore {q : Request} (h : SameStore w w')
    (hclients : ClientsEffect env w q w'.db.server) : Effect crypto env w q w' where
  clients := hclients
  files := by
    rw [h.files]
    exact .same q
  fileDict := by
    rw [h.fileDict]
    exact .same q
  disk := by
    rw [h.disk]
    exact .same q
  cwd := h.cwd
  srcDir := h.srcDir

theorem effect_same (q : Request) : Effect crypto env w q w :=
  effect_of_sameStore (sameStore_refl w) (.seen q _ .same)

theorem seen_afterTouch (id : ClientId) {t : Turn} (ht : t.world = w) :
    Seen env w id (afterTouch env (.id id) t).world.db.server := by
  rw [afterTouch_server, ht]
  split
  · exact .touched
  · exact .same

theorem registration_effect (q : RegistrationRequest) : Effect crypto env w (.registration q)
    ((registration env q).run (Turn.start w env)).2.world := by
  apply effect_of_sameStore (registration_sameStore q)
  by_cases hopen : Registrable (Turn.start w env) q.name
  · rw [registration_stored env hopen]
    split
    · exact .seen _ _ .same
    · split
      · rw [refuse_world]
        exact .seen _ _ .same
      · next db hinsert =>
        rw [write_world]
        split at hinsert
        · obtain ⟨hfree, hrows⟩ := ClientColumns.insertClient_rows hinsert
          rw [inWorld_world, hrows]
          exact .registered q hfree
        · cases hinsert
  · rw [registration_refused env hopen, refuse_world]
    split
    · exact .seen _ _ .same
    · exact .seen _ _ .same

theorem publicKey_effect (q : PublicKeyRequest) : Effect crypto env w (.publicKey q)
    ((publicKey crypto env q).run (Turn.start w env)).2.world := by
  apply effect_of_sameStore (publicKey_sameStore q)
  have hseen : Seen env w q.header.clientID
      (afterTouch env (.id q.header.clientID) (Turn.start w env).pop).world.db.server :=
    seen_afterTouch _ rfl
  by_cases hk : Known (Turn.start w env) q.header.clientID
  · by_cases h₂ : env.sql 2 = .done
    · have hkeyed : ClientsEffect env w (.publicKey q)
          (keyedTurn env q (Turn.start w env)).world.db.server := by
        simpa [setClient, keyedTurn, Tables.updateClients] using
          ClientsEffect.keyed q _ hseen
      have hexchanged : ClientsEffect env w (.publicKey q)
          (sessionTurn env q (Turn.start w env)).world.db.server := by
        simpa [setClient, keyedTurn, sessionTurn, Tables.updateClients] using
          ClientsEffect.exchanged q _ hseen
      rw [publicKey_set crypto env hk h₂]
      split
      · exact hkeyed
      · split
        · exact hkeyed
        · cases encryptAesKeyWithRsaPublic crypto env env.aesKey.val q.publicKey.val with
          | none => exact hexchanged
          | some key =>
            dsimp only
            rw [write_world]
            exact hexchanged
    · rw [publicKey_unset crypto env hk h₂]
      dsimp only
      split
      · exact .seen _ _ hseen
      · rw [refuse_world]
        exact .seen _ _ hseen
  · rw [publicKey_unknown crypto env hk, refuse_world]
    exact .seen _ _ .same

theorem ownDir_of_clientsDir {id : ClientId} {dir : Text} {v : World}
    (h : clientsDir env w id = some (dir, v)) : OwnDir w id dir := by
  rcases clientsDir_eq_some env h with ⟨-, hdir, -⟩ | ⟨-, -, hdir, -⟩
  · exact .inl hdir
  · exact .inr hdir

theorem store_effect (q : RequestToSendFile) (hclient : w.db.hasClient q.header.clientID = true)
    {file : Option File} {u : Turn}
    (hrun : (storeFileinDB crypto env q.header.clientID q.fileName
      (uploadedContent crypto w q)).run (storeTurn env w) = (.value file, u)) :
    Effect crypto env w (.sendFile q) u.world := by
  obtain ⟨file', u', heq, heffect, -⟩ := storeFileinDB_effect crypto env (storeTurn env w)
    q.header.clientID q.fileName (uploadedContent crypto w q)
  cases hrun.symm.trans heq
  have hclients : ClientsEffect env w (.sendFile q) u.world.db.server := by
    apply ClientsEffect.seen
    by_cases hseen : ((uploadedContent crypto w q).isSome = true ∧
        ClientIsolation.Accepted env (storeTurn env w) q.header.clientID q.fileName) ∧
        (storeTurn env w).sql 2 = .done
    · rw [heffect.server.touched hseen.1 hseen.2]
      exact .touched
    · rw [heffect.server.quiet hseen]
      exact .same
  cases hdir : clientsDir env (storeTurn env w).world q.header.clientID with
  | none =>
    rw [storeFileinDB_noDir crypto env _ hdir] at hrun
    cases hrun
    exact effect_same (.sendFile q)
  | some dw =>
    obtain ⟨dir, v⟩ := dw
    obtain ⟨u', hrun', hstores, hfiles⟩ := storeFileinDB_stores crypto q.fileName
      (uploadedContent crypto w q) hdir
    cases hrun.symm.trans hrun'
    refine ⟨hclients, ?_, ?_, .made q _ heffect.disk, hstores.cwd, hstores.srcDir⟩
    · rw [hfiles]
      split
      · unfold storedRows
        split
        · exact .reset q hclient
        · exact .added q dir hclient
      · exact .same _
    · rw [hstores.fileDict]
      exact .stored q dir hclient (ownDir_of_clientsDir hdir)

theorem sendFile_effect (q : RequestToSendFile) : Effect crypto env w (.sendFile q)
    ((sendFile crypto env q).run (Turn.start w env)).2.world := by
  by_cases hk : Known (Turn.start w env) q.header.clientID
  · by_cases h₁ : env.sql 1 = .done
    · obtain ⟨row, hrow⟩ := hasClient_iff.mp hk.2
      obtain ⟨file, u, hrun, -⟩ := storeFileinDB_effect crypto env (storeTurn env w)
        q.header.clientID q.fileName (uploadedContent crypto w q)
      have hplain : decrypt crypto q.fileContent row.aesKey q.contentSize =
          uploadedContent crypto w q := decrypt_eq crypto hrow
      rw [sendFile_stored crypto env (u := u) hk h₁ hrow (by rw [hplain]; exact hrun), write_world]
      exact store_effect q hk.2 hrun
    · obtain ⟨e, hrun⟩ := sendFile_noKey crypto env hk h₁
      rw [hrun]
      exact effect_same (.sendFile q)
  · rw [sendFile_unknown crypto env hk, refuse_world]
    exact effect_same (.sendFile q)

theorem verifiedWorld_effect {q : CrcStatusRequest} {file : File}
    (hrow : w.db.hasFile q.clientID q.fileName = true)
    (hfile : getFileInstance w q.clientID q.fileName = some file) :
    Effect crypto env w (.crcValid q)
      (verifiedWorld env file q.clientID true (Turn.start w env).pop) where
  clients := by
    have hserver : (verifiedWorld env file q.clientID true
        (Turn.start w env).pop).db.server =
          (afterTouch env (.id q.clientID) (Turn.start w env).pop.pop).world.db.server := by
      unfold verifiedWorld
      dsimp only
      split
      · rfl
      · rfl
    rw [hserver]
    exact .seen (.crcValid q) _ (seen_afterTouch _ rfl)
  files := by
    rw [verified_files]
    split
    · exact .marked q file hrow hfile
    · exact .same _
  fileDict := by
    have hdict : (verifiedWorld env file q.clientID true (Turn.start w env).pop).fileDict =
        w.fileDict.store { file with verified := true } := by
      simp [verifiedWorld, World.store]
    rw [hdict]
    exact .verified q file hrow hfile
  disk := .saved q file hfile
  cwd := by simp [verifiedWorld, World.store]
  srcDir := by simp [verifiedWorld, World.store]

theorem crcValid_effect (q : CrcStatusRequest) : Effect crypto env w (.crcValid q)
    ((crcValid env q).run (Turn.start w env)).2.world := by
  by_cases hsaves : Saves env w q
  · obtain ⟨file, hfile⟩ := Option.isSome_iff_exists.mp hsaves.2.2
    obtain ⟨u, hrun, hworld, -⟩ := crcValid_saves env hsaves hfile
    have hafter : ((crcValid env q).run (Turn.start w env)).2.world = u.world := by
      rw [hrun]
      split
      · exact refuse_world env u
      · exact write_world env _ u
    rw [hafter, hworld]
    exact verifiedWorld_effect hsaves.2.1.2 hfile
  · obtain ⟨u, hrun, hu, htouched, hquiet⟩ := crcValid_refused env hsaves
    rw [hrun, refuse_world]
    apply effect_of_sameStore ⟨hu.fileDict, hu.files, hu.disk, hu.cwd, hu.srcDir⟩
    apply ClientsEffect.seen
    by_cases hrow : Known (Turn.start w env) q.header.clientID ∧
        RowFound (Turn.start w env).pop q.clientID q.fileName
    · rw [htouched hrow.1 hrow.2]
      exact seen_afterTouch _ rfl
    · rw [hquiet hrow]
      exact .same

/-- The spec of the handlers: every invariant of the server follows from it. -/
theorem handle_effect (crypto : PyCrypto) (env : Env) (w : World) (q : Request) :
    Effect crypto env w q ((handle crypto env q).run (Turn.start w env)).2.world := by
  cases q with
  | registration q => exact registration_effect q
  | publicKey q => exact publicKey_effect q
  | sendFile q => exact sendFile_effect q
  | crcValid q => exact crcValid_effect q
  | crcResend q =>
    rw [handle, crcResend_world]
    exact effect_same (.crcResend q)
  | crcAbort q =>
    rw [handle, crcAbort_run]
    exact effect_same (.crcAbort q)

end Handlers

section Steps

theorem readStep_effect (w : World) {control : Control} (h : control.awaits = true)
    (r : RecvResult) :
    let out := readStep crypto env w control r
    (out.handled = none ∧ out.world = w) ∨
      ∃ q, out.handled = some q ∧ Effect crypto env w q out.world := by
  intro out
  have hout : out = react crypto env w (received control r) := readStep_eq_react crypto env w h r
  rw [hout]
  cases received control r with
  | parsed q =>
    obtain ⟨hworld, -, hhandled⟩ := settle_world env w (some q) (handle crypto env q)
    refine .inr ⟨q, hhandled, ?_⟩
    rw [react, hworld]
    exact handle_effect crypto env w q
  | malformed refused =>
    obtain ⟨hworld, -, hhandled⟩ := settle_world env w none
      (if refused then refuse env else return false)
    refine .inl ⟨hhandled, ?_⟩
    rw [react, hworld]
    cases refused with
    | true => exact refuse_world env _
    | false => rfl
  | partly p => exact .inl ⟨rfl, rfl⟩
  | endOfStream => exact .inl ⟨rfl, rfl⟩
  | failure => exact .inl ⟨rfl, rfl⟩

theorem step_effect {p p' : System × History} {e : Event} (h : HistoryStep crypto p e p') :
    (p'.2 = p.2 ∧ p'.1.world = p.1.world) ∨ ∃ d, p'.2 = p.2 ++ [d] ∧ d.world = p.1.world ∧
      Effect crypto d.env d.world d.request p'.1.world := by
  obtain ⟨s, hs, rfl⟩ := Option.map_eq_some_iff.mp h
  cases e with
  | accept =>
    obtain ⟨-, rfl⟩ := step_accept hs
    exact .inl ⟨List.append_nil _, rfl⟩
  | start =>
    obtain ⟨c, -, -, rfl⟩ := step_start hs
    exact .inl ⟨List.append_nil _, rfl⟩
  | recv c r env =>
    obtain ⟨conn, hc, hawaits, rfl⟩ := step_recv hs
    have hserved : p.1.served crypto c r env =
        some (readStep crypto env p.1.world conn.control r) := by
      rw [System.served, hc]
      exact if_pos hawaits
    simp only [completed, hserved, finish_world, Option.bind_some]
    rcases @readStep_effect crypto env p.1.world _ hawaits r with
      ⟨hnone, hworld⟩ | ⟨q, hsome, heffect⟩
    · rw [hnone]
      exact .inl ⟨List.append_nil _, hworld⟩
    · rw [hsome]
      exact .inr ⟨⟨env, p.1.world, q⟩, rfl, rfl, heffect⟩

/-- What every handled request keeps of a world and the history up to it, every run keeps. -/
theorem run_remembers {I : World → History → Prop} {p p' : System × History} {es : List Event}
    (h : Run (HistoryStep crypto) p es p') (hI : I p.1.world p.2)
    (heffect : ∀ {d w' ds}, I d.world ds → Effect crypto d.env d.world d.request w' →
      I w' (ds ++ [d])) : I p'.1.world p'.2 := by
  apply @Run.invariant _ _ _ (fun p => I p.1.world p.2) _ _ _ h hI
  intro p e p' hp hstep
  rcases step_effect hstep with ⟨hsame, hworld⟩ | ⟨d, hmore, hworld, hd⟩
  · rwa [hsame, hworld]
  · rw [hmore]
    rw [← hworld] at hp
    exact heffect hp hd

theorem run_keeps {I : World → Prop} {p p' : System × History} {es : List Event}
    (h : Run (HistoryStep crypto) p es p') (hI : I p.1.world)
    (heffect : ∀ {env w q w'}, I w → Effect crypto env w q w' → I w') : I p'.1.world :=
  @run_remembers crypto (fun w _ => I w) p p' es h hI heffect

end Steps

end ServerEffects
