import FileTransfer.ServerDatabase
import FileTransfer.StepRun

/-! # The file store as a map

Rows, dictionary and directories together stand for a map from clients and file names to
contents. The simulation survives every order of calls, with the exception of a store
whose directory cannot be made or whose name is the row of another client. -/
namespace FileStoreRefinement

open ByteField PathWalk ServerProtocol ServerTables ServerState ServerFiles ServerDatabase
  RaisingProgram StepRun

section Map

/-- What the store is for. -/
abbrev FileMap := ClientId → Text → Option Bytes

def FileMap.empty : FileMap := fun _ _ => none

def FileMap.store (m : FileMap) (clientId : ClientId) (fileName : Text) (content : Bytes) :
    FileMap :=
  fun c f => if c = clientId ∧ f = fileName then some content else m c f

theorem FileMap.store_same (m : FileMap) (c : ClientId) (f : Text) (content : Bytes) :
    m.store c f content c f = some content := if_pos ⟨rfl, rfl⟩

theorem FileMap.store_other (m : FileMap) {c c' : ClientId} {f f' : Text} (content : Bytes)
    (h : ¬(c' = c ∧ f' = f)) : m.store c f content c' f' = m c' f' := if_neg h

end Map

section Calls

inductive Operation where
  | store (content : Bytes)
  | verify (verified : Bool)
  | get

/-- A call of the database under a plain file name, all of whose statements are executed. -/
structure Call where
  env : Env
  clientId : ClientId
  fileName : Text
  operation : Operation
  plain : Plain fileName
  executed : ∀ i, env.sql i = .done

variable (crypto : PyCrypto)

def Call.program (call : Call) : ServerM (Option File) :=
  match call.operation with
  | .store content => storeFileinDB crypto call.env call.clientId call.fileName (some content)
  | .verify verified => do
    let _ ← updateVerification call.env call.clientId call.fileName verified
    return none
  | .get => getFile call.clientId call.fileName

def Call.result (call : Call) (w : World) : Outcome PyError (Option File) :=
  ((call.program crypto).run (Turn.start w call.env)).1

def Call.after (call : Call) (w : World) : World :=
  ((call.program crypto).run (Turn.start w call.env)).2.world

def Call.apply (call : Call) (m : FileMap) : FileMap :=
  match call.operation with
  | .store content => m.store call.clientId call.fileName content
  | _ => m

def Call.next (s : World × FileMap) (call : Call) : World × FileMap :=
  (call.after crypto s.1, call.apply s.2)

def lookup (w : World) (clientId : ClientId) (fileName : Text) : Outcome PyError (Option File) :=
  ((getFile clientId fileName).run (Turn.start w .undisturbed)).1

def Faithful (s : World × FileMap) (call : Call) : Prop :=
  match call.operation with
  | .store content =>
    (∃ file, call.result crypto s.1 = .value (some file) ∧ file.content = some content ∧
      file.crc = crypto.crc32 content) ∧
    ∀ c f, Plain f → ¬(c = call.clientId ∧ f = call.fileName) →
      lookup (call.after crypto s.1) c f = lookup s.1 c f
  | .verify _ => True
  | .get => ∃ file, call.result crypto s.1 = .value file ∧
      file.map (·.content) = (s.2 call.clientId call.fileName).map some

/-- A store whose directory is ready and whose name no other client has stored. -/
def Storable (s : World × FileMap) (call : Call) : Prop :=
  match call.operation with
  | .store _ => DirReady call.env s.1 call.clientId ∧
      ∀ c, c ≠ call.clientId → s.2 c call.fileName = none
  | _ => True

end Calls

/-- Rows, dictionary and directories that stand for a map. -/
structure Simulates (w : World) (m : FileMap) : Prop where
  atHome : w.cwd = w.srcDir
  rows : ∀ c f, w.db.hasFile c f = (m c f).isSome
  entries : ∀ c f content, m c f = some content → Plain f ∧
    w.disk.isDir (clientFolder w c) = true ∧
    ∃ file, w.fileDict.get (filePath w c f) = some file ∧ file.content = some content

theorem boot_simulates (db : Tables) (disk : Disk) (dir : Folder) (h : db.files = []) :
    Simulates (.boot db disk dir dir) .empty where
  atHome := rfl
  rows c f := by simp [World.boot, Tables.hasFile, h, FileMap.empty]
  entries c f content hm := by cases hm

section Lookups

variable {crypto : PyCrypto} {w : World} {m : FileMap}

theorem lookup_eq (w : World) (c : ClientId) (f : Text) :
    lookup w c f = .value (if w.db.hasFile c f then getFileInstance w c f else none) := by
  rw [lookup, getFile_run]
  simp [Env.undisturbed]

theorem Simulates.getFileInstance (h : Simulates w m) {c : ClientId} {f : Text} {content : Bytes}
    (hm : m c f = some content) :
    ∃ file, getFileInstance w c f = some file ∧ file.content = some content := by
  obtain ⟨-, hdir, file, hfile, hcontent⟩ := h.entries c f content hm
  exact ⟨file, by rw [ServerFiles.getFileInstance, if_pos hdir, hfile], hcontent⟩

theorem Simulates.getFile (h : Simulates w m) (c : ClientId) (f : Text) :
    (if w.db.hasFile c f then ServerFiles.getFileInstance w c f else none).map (·.content) =
      (m c f).map some := by
  cases hm : m c f with
  | none =>
    rw [h.rows, hm]
    rfl
  | some content =>
    obtain ⟨file, hfile, hcontent⟩ := h.getFileInstance hm
    rw [h.rows, hm, Option.isSome_some, if_pos rfl, hfile, Option.map_some, hcontent]
    rfl

theorem Simulates.committed_iff (h : Simulates w m) (env : Env) (hsql : ∀ i, env.sql i = .done)
    (c : ClientId) (f : Text) :
    Committed (Turn.start w env) c f ↔ ∀ c', c' ≠ c → m c' f = none := by
  have hrow : RowFound (Turn.start w env) c f ↔ w.db.hasFile c f = true := by
    simp [RowFound, hsql]
  constructor
  · rintro ⟨-, hstored⟩ c' hne
    have hnot : ¬w.db.hasFile c' f = true := by
      intro hc'
      rcases hstored with hfound | hfree
      · exact hne (owner_unique hc' (hrow.mp hfound))
      · rw [start_world, fileNameTaken_of_hasFile hc'] at hfree
        cases hfree
    rw [h.rows] at hnot
    simpa using hnot
  · intro hother
    refine ⟨hsql 1, ?_⟩
    by_cases hc : w.db.hasFile c f = true
    · exact .inl (hrow.mpr hc)
    · right
      rw [← Bool.not_eq_true]
      intro htaken
      obtain ⟨row, hmem, rfl⟩ := fileNameTaken_iff.mp htaken
      have howner : w.db.hasFile row.id row.fileName = true := hasFile_iff.mpr ⟨row, hmem, rfl, rfl⟩
      have hne : row.id ≠ c := by
        intro heq
        rw [heq] at howner
        exact hc howner
      rw [h.rows, hother _ hne] at howner
      cases howner

end Lookups

section Steps

variable {crypto : PyCrypto} {w : World} {m : FileMap}

/-- Without a ready directory there is none at all: the lookups and the uploads use the
same one. -/
theorem clientsDir_not_ready {env : Env} {c : ClientId} (hhome : w.cwd = w.srcDir)
    (h : ¬DirReady env w c) : clientsDir env w c = none := by
  rw [← Option.not_isSome_iff_eq_none, Option.isSome_iff_exists]
  rintro ⟨⟨dir, w'⟩, hdir⟩
  rcases clientsDir_eq_some env hdir with ⟨hd, -, -⟩ | ⟨-, hok, -, disk, hmade, -⟩
  · exact h (.inl hd)
  · obtain ⟨hsrc, hfree, -⟩ := Tree.mkdir_eq_some hmade
    refine h (.inr ⟨hhome, hok, hsrc, ?_⟩)
    rw [clientFolder, hhome]
    exact hfree

theorem store_effect (h : Simulates w m) {env : Env} (hsql : ∀ i, env.sql i = .done)
    {c : ClientId} {f : Text} (content : Bytes) (hready : DirReady env w c)
    (hother : ∀ c', c' ≠ c → m c' f = none) :
    let file := uploaded c f (render (clientFolder w c)) (some content) (crypto.crc32 content)
    ∃ u, (storeFileinDB crypto env c f (some content)).run (Turn.start w env) =
        (.value (some file), u) ∧ Uploads (Turn.start w env) u file ∧
      ∀ c' f', u.world.db.hasFile c' f' =
        (w.db.hasFile c' f' || decide (c' = c ∧ f' = f)) := by
  intro file
  have hc := (h.committed_iff env hsql c f).mpr hother
  obtain ⟨u, hrun, hu, hfiles, -⟩ :=
    storeFileinDB_ready crypto env f content (t := Turn.start w env) hready
  rw [if_pos hc] at hrun
  rw [if_pos hc] at hfiles
  exact ⟨u, hrun, hu, fun c' f' => hasFile_storedRows hfiles c' f'⟩

theorem filePath_congr {w' : World} (hcwd : w'.cwd = w.cwd) (c : ClientId) (f : Text) :
    filePath w' c f = filePath w c f := by
  rw [filePath, clientFolder, hcwd, filePath, clientFolder]

section Uploaded

variable {env : Env} {u : Turn} {file : File}

theorem uploads_folder (hu : Uploads (Turn.start w env) u file) (c : ClientId) :
    clientFolder u.world c = clientFolder w c := by
  rw [clientFolder, hu.cwd, start_world, clientFolder]

theorem uploads_isDir (hu : Uploads (Turn.start w env) u file) {c : ClientId}
    (hne : c ≠ file.clientId) :
    u.world.disk.isDir (clientFolder w c) = w.disk.isDir (clientFolder w c) := by
  have hloc : clientFolder w c ≠ clientFolder w file.clientId := by
    intro heq
    exact hne (clientDirectory_injective (List.singleton_inj.mp (List.append_cancel_left heq)))
  unfold Tree.isDir
  rw [hu.disk _ hloc, start_world]

theorem uploads_get (hu : Uploads (Turn.start w env) u file) {c : ClientId} {f f' : Text}
    (hfile : file.fullPath = filePath w c f) (hf : Plain f) (hf' : Plain f') {c' : ClientId}
    (hne : ¬(c' = c ∧ f' = f)) :
    u.world.fileDict.get (filePath u.world c' f') = w.fileDict.get (filePath w c' f') := by
  rw [filePath_congr hu.cwd, hu.fileDict, FileDict.store_get, if_neg]
  · rfl
  · rw [hfile]
    exact fun heq => hne (filePath_injective w hf' hf heq)

end Uploaded

theorem store_simulates (h : Simulates w m) {env : Env} (hsql : ∀ i, env.sql i = .done)
    {c : ClientId} {f : Text} (hf : Plain f) (content : Bytes) (hready : DirReady env w c)
    (hother : ∀ c', c' ≠ c → m c' f = none) :
    Simulates ((storeFileinDB crypto env c f (some content)).run (Turn.start w env)).2.world
      (m.store c f content) := by
  obtain ⟨u, hrun, hu, hrows⟩ := @store_effect crypto _ _ h _ hsql _ _ content hready hother
  rw [hrun]
  refine ⟨?_, ?_, ?_⟩
  · rw [hu.cwd, hu.srcDir]
    exact h.atHome
  · intro c' f'
    rw [hrows, h.rows]
    by_cases hcf : c' = c ∧ f' = f
    · obtain ⟨rfl, rfl⟩ := hcf
      simp [FileMap.store_same]
    · rw [FileMap.store_other m content hcf]
      rw [decide_eq_false hcf, Bool.or_false]
  · intro c' f' content' hm
    rw [uploads_folder hu]
    by_cases hcf : c' = c ∧ f' = f
    · obtain ⟨rfl, rfl⟩ := hcf
      rw [FileMap.store_same] at hm
      refine ⟨hf, hu.isDir, ?_⟩
      rw [filePath_congr hu.cwd, hu.fileDict, FileDict.store_get]
      exact ⟨_, if_pos rfl, hm⟩
    · rw [FileMap.store_other m content hcf] at hm
      obtain ⟨hf', hdir, file, hfile, hcontent⟩ := h.entries c' f' content' hm
      refine ⟨hf', ?_, file, ?_, hcontent⟩
      · by_cases hc : c' = c
        · rw [hc]
          exact hu.isDir
        · rw [uploads_isDir hu hc, hdir]
      · rw [uploads_get hu rfl hf hf' hcf, hfile]

theorem verify_simulates (h : Simulates w m) {env : Env} (hsql : ∀ i, env.sql i = .done)
    (c : ClientId) (f : Text) (verified : Bool) :
    Simulates ((updateVerification env c f verified).run (Turn.start w env)).2.world m := by
  by_cases hrow : w.db.hasFile c f = true
  · have hfound : (Turn.start w env).next = .done ∧
        (Turn.start w env).world.db.hasFile c f = true := ⟨hsql 0, hrow⟩
    rw [h.rows] at hrow
    obtain ⟨content, hm⟩ := Option.isSome_iff_exists.mp hrow
    obtain ⟨file, hfile, -⟩ := h.getFileInstance hm
    obtain ⟨u, hrun, hu, -⟩ := updateVerification_found env hfound hfile verified
    rw [hrun, hu]
    obtain ⟨-, hget, -⟩ := getFileInstance_keyed hfile
    have hcwd : (verifiedWorld env file c verified (Turn.start w env)).cwd = w.cwd := by
      simp [verifiedWorld, World.store]
    refine ⟨?_, ?_, ?_⟩
    · rw [hcwd, h.atHome]
      simp [verifiedWorld, World.store]
    · intro c' f'
      have hdb : (verifiedWorld env file c verified (Turn.start w env)).db.hasFile c' f' =
          w.db.hasFile c' f' := by
        simp only [verifiedWorld]
        split <;> simp
      rw [hdb, h.rows]
    · intro c' f' content' hm'
      obtain ⟨hf', hdir, file', hfile', hcontent'⟩ := h.entries c' f' content' hm'
      refine ⟨hf', ?_, ?_⟩
      · rw [clientFolder, hcwd, ← clientFolder]
        simp only [verifiedWorld]
        split
        · rw [saved_isDir, start_world, hdir]
        · rw [start_world, hdir]
      · rw [filePath_congr hcwd]
        simp only [verifiedWorld, World.store, afterTouch_fileDict, pop_world, start_world,
          FileDict.store_get]
        by_cases hpath : filePath w c' f' = file.fullPath
        · rw [if_pos hpath]
          rw [hpath, hget] at hfile'
          cases hfile'
          exact ⟨_, rfl, hcontent'⟩
        · rw [if_neg hpath]
          exact ⟨file', hfile', hcontent'⟩
  · have hnot : ¬((Turn.start w env).next = .done ∧
        (Turn.start w env).world.db.hasFile c f = true) := fun hfound => hrow hfound.2
    rw [updateVerification_unknown env hnot verified]
    exact h

/-- One call: a storable call keeps the simulation. -/
theorem step_simulates {s : World × FileMap} (h : Simulates s.1 s.2) (call : Call)
    (hs : Storable s call) : Simulates (call.next crypto s).1 (call.next crypto s).2 := by
  obtain ⟨env, c, f, operation, hf, hsql⟩ := call
  cases operation with
  | store content => exact store_simulates h hsql hf content hs.1 hs.2
  | verify verified =>
    have hv := verify_simulates h hsql c f verified
    simp only [Call.next, Call.after, Call.program, Call.apply, Prog.run_bind]
    generalize (updateVerification env c f verified).run (Turn.start s.1 env) = r at hv ⊢
    rcases r with ⟨_ | _ | _, u⟩ <;> exact hv
  | get =>
    simp only [Call.next, Call.after, Call.program, Call.apply, getFile_run]
    exact h

theorem store_faithful (h : Simulates w m) {env : Env} (hsql : ∀ i, env.sql i = .done)
    {c : ClientId} {f : Text} (hf : Plain f) (content : Bytes) (hready : DirReady env w c)
    (hother : ∀ c', c' ≠ c → m c' f = none) :
    Faithful crypto (w, m) ⟨env, c, f, .store content, hf, hsql⟩ := by
  obtain ⟨u, hrun, hu, hrows⟩ := @store_effect crypto _ _ h _ hsql _ _ content hready hother
  refine ⟨⟨_, congrArg Prod.fst hrun, rfl, rfl⟩, ?_⟩
  intro c' f' hf' hne
  have hafter : Call.after crypto ⟨env, c, f, .store content, hf, hsql⟩ w = u.world :=
    congrArg (fun r => r.2.world) hrun
  rw [hafter, lookup_eq, lookup_eq, hrows, decide_eq_false hne, Bool.or_false]
  cases hm : m c' f' with
  | none =>
    rw [h.rows, hm]
    rfl
  | some content' =>
    obtain ⟨-, hdir, -⟩ := h.entries c' f' content' hm
    have hdir' : u.world.disk.isDir (clientFolder u.world c') = true := by
      rw [uploads_folder hu]
      by_cases hc : c' = c
      · rw [hc]
        exact hu.isDir
      · rw [uploads_isDir hu hc, hdir]
    rw [getFileInstance, if_pos hdir', uploads_get hu rfl hf hf' hne, getFileInstance, if_pos hdir]

theorem store_none (h : Simulates w m) {env : Env} (hsql : ∀ i, env.sql i = .done)
    {c : ClientId} {f : Text} (content : Bytes)
    (hnot : ¬(DirReady env w c ∧ ∀ c', c' ≠ c → m c' f = none)) :
    ((storeFileinDB crypto env c f (some content)).run (Turn.start w env)).1 = .value none := by
  by_cases hready : DirReady env w c
  · have hc : ¬Committed (Turn.start w env) c f := by
      rw [h.committed_iff env hsql]
      exact fun hother => hnot ⟨hready, hother⟩
    obtain ⟨u, hrun, -⟩ := storeFileinDB_ready crypto env f content (t := Turn.start w env) hready
    rw [hrun, if_neg hc]
  · rw [storeFileinDB_noDir crypto env (some content) (clientsDir_not_ready h.atHome hready)]

theorem faithful_iff_storable {s : World × FileMap} (call : Call) (h : Simulates s.1 s.2) :
    Faithful crypto s call ↔ Storable s call := by
  obtain ⟨env, c, f, operation, hf, hsql⟩ := call
  cases operation with
  | store content =>
    constructor
    · rintro ⟨⟨file, hresult, -⟩, -⟩
      by_contra hnot
      have hnone := @store_none crypto _ _ h _ hsql _ _ content hnot
      cases hresult.symm.trans hnone
    · exact fun hs => store_faithful h hsql hf content hs.1 hs.2
  | verify verified => exact Iff.rfl
  | get =>
    have hget : Faithful crypto s ⟨env, c, f, .get, hf, hsql⟩ := by
      refine ⟨_, congrArg Prod.fst (getFile_run c f (Turn.start s.1 env)), ?_⟩
      have hdone : (Turn.start s.1 env).next = .done := hsql 0
      simp only [hdone, true_and]
      exact h.getFile c f
    exact iff_of_true hget trivial

end Steps

variable {crypto : PyCrypto}

/-- Main theorem: a sequence of calls refines the map exactly when all of its stores are
storable. -/
theorem refines_iff (db : Tables) (disk : Disk) (dir : Folder) (h : db.files = [])
    (calls : List Call) :
    Along (Call.next crypto) (Faithful crypto) (.boot db disk dir dir, .empty) calls ↔
      Along (Call.next crypto) Storable (.boot db disk dir dir, .empty) calls :=
  along_iff_along (I := fun s => Simulates s.1 s.2) faithful_iff_storable
    (fun call hs hstorable => step_simulates hs call hstorable) (boot_simulates db disk dir h) calls

section Sample

def otherId : ClientId := filled clientIdSize 2

def twoClients : Tables :=
  { Tables.empty with
    server := [⟨sampleId, [0x61], none, 0, none⟩, ⟨otherId, [0x62], none, 0, none⟩]
    serverKey := by decide }

def sampleCall (clientId : ClientId) (operation : Operation) : Call :=
  ⟨.undisturbed, clientId, [0x78], operation, by decide, fun _ => rfl⟩

abbrev SampleRun (calls : List Call) : Prop :=
  Along (Call.next .trivial) (Faithful .trivial)
    (.boot twoClients .empty .root .root, .empty) calls

theorem refines_iff_replace : SampleRun
    [sampleCall sampleId (.store [1]), sampleCall sampleId (.store [2, 3]),
      sampleCall sampleId (.verify true), sampleCall sampleId .get] := by
  refine (refines_iff twoClients .empty .root rfl _).mpr ⟨⟨?_, fun _ _ => rfl⟩, ?_, trivial,
    trivial, trivial⟩
  · decide +kernel
  · refine ⟨by decide +kernel, fun c hc => ?_⟩
    exact FileMap.store_other _ _ fun h => hc h.1

/-- The second client cannot store a file under the name of the first one's. -/
theorem not_refines_shared_name :
    ¬∀ (crypto : PyCrypto) (db : Tables) (disk : Disk) (dir : Folder), db.files = [] →
      ∀ calls, Along (Call.next crypto) (Faithful crypto) (.boot db disk dir dir, .empty)
        calls := by
  intro h
  obtain ⟨-, ⟨⟨file, hresult, -⟩, -⟩, -⟩ := h .trivial twoClients .empty .root rfl
    [sampleCall sampleId (.store [1]), sampleCall otherId (.store [2])]
  have hnone : (sampleCall otherId (.store [2])).result .trivial
      ((sampleCall sampleId (.store [1])).after .trivial
        (.boot twoClients .empty .root .root)) = .value none := by
    decide +kernel
  cases hresult.symm.trans hnone

end Sample

end FileStoreRefinement
