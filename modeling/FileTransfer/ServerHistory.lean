import FileTransfer.ServerEffects

/-! # The history of the server

What whole runs keep of the tables, the dictionary and the disk, over any number of
connections, failures and restarts of the process, as long as no approved file replaces the
database. -/
namespace ServerHistory

open ByteField PathWalk ServerProtocol ServerTables ServerState ServerFiles ServerDatabase
  ServerHandlers ServerThread ServerSystem ServerEffects StepRun
open ClientIsolation (entry)
open ClientChannel (registrationRequestMessage)
open DatabaseFile (Sqlite Server KeepsDatabase served_kept step_kept)

section Rows

variable {α : Type} {R : α → α → Prop} {rows rows' rows'' : List α}

/-- The rows stay in their places, each in its relation to what it was, and new ones come
behind them. -/
inductive Evolves (R : α → α → Prop) : List α → List α → Prop where
  | added (rows : List α) : Evolves R [] rows
  | kept {row row' rows rows'} : R row row' → Evolves R rows rows' →
      Evolves R (row :: rows) (row' :: rows')

theorem evolves_map {f : α → α} (hf : ∀ row ∈ rows, R row (f row)) (new : List α) :
    Evolves R rows (rows.map f ++ new) := by
  induction rows with
  | nil => exact .added new
  | cons row rows ih =>
    refine .kept (hf row List.mem_cons_self) (ih ?_)
    exact fun r hr => hf r (List.mem_cons_of_mem row hr)

theorem evolves_refl (hR : ∀ row, R row row) (rows : List α) : Evolves R rows rows := by
  simpa using evolves_map (f := id) (fun row _ => hR row) ([] : List α)

theorem evolves_trans (hR : ∀ {a b c}, R a b → R b c → R a c) (h : Evolves R rows rows')
    (h' : Evolves R rows' rows'') : Evolves R rows rows'' := by
  induction h generalizing rows'' with
  | added => exact .added rows''
  | kept hrow _ ih =>
    cases h' with
    | kept hrow' hrest' => exact .kept (hR hrow hrow') (ih hrest')

theorem Evolves.mem (h : Evolves R rows rows') {row : α} (hrow : row ∈ rows) :
    ∃ row' ∈ rows', R row row' := by
  induction h with
  | added => cases hrow
  | @kept row₀ row₀' _ _ hR _ ih =>
    rcases List.mem_cons.mp hrow with rfl | hrest
    · exact ⟨row₀', List.mem_cons_self, hR⟩
    · obtain ⟨row', hmem, hrel⟩ := ih hrest
      exact ⟨row', List.mem_cons_of_mem _ hmem, hrel⟩

end Rows

section Definitions

structure Updated (env : Env) (q : Request) (row row' : ClientRow) : Prop where
  id : row'.id = row.id
  name : row'.name = row.name
  publicKey : row'.publicKey = row.publicKey ∨
    ∃ r, q = .publicKey r ∧ r.header.clientID = row.id ∧ row'.publicKey = some r.publicKey.val
  aesKey : row'.aesKey = row.aesKey ∨
    ∃ r, q = .publicKey r ∧ r.header.clientID = row.id ∧
      row'.publicKey = some r.publicKey.val ∧ row'.aesKey = some env.aesKey.val
  lastSeen : row'.lastSeen = row.lastSeen ∨ row'.lastSeen = env.now

structure ClientGrows (row row' : ClientRow) : Prop where
  id : row'.id = row.id
  name : row'.name = row.name
  publicKey : row.publicKey ≠ none → row'.publicKey ≠ none
  aesKey : row.aesKey ≠ none → row'.aesKey ≠ none

/-- The row of a file at two moments: only the flag changes. -/
structure SamePlace (row row' : FileRow) : Prop where
  id : row'.id = row.id
  fileName : row'.fileName = row.fileName
  pathName : row'.pathName = row.pathName

/-- Nothing that one world has is missing in the other. -/
structure Grows (w w' : World) : Prop where
  clients : Evolves ClientGrows w.db.server w'.db.server
  files : Evolves SamePlace w.db.files w'.db.files
  memory : ∀ path file, w.fileDict.get path = some file →
    ∃ file', w'.fileDict.get path = some file'
  disk : ∀ loc n, w.disk.node loc = some n →
    ∃ n', w'.disk.node loc = some n' ∧ (n' = .dir ↔ n = .dir)

structure Integrity (w : World) : Prop where
  owners : ∀ row ∈ w.db.files, w.db.hasClient row.id = true
  entries : ∀ path file, w.fileDict.get path = some file → w.db.hasClient file.clientId = true
  publicKeys : ∀ row ∈ w.db.server, ∀ key, row.publicKey = some key → key.length = publicKeySize
  sessionKeys : ∀ row ∈ w.db.server, ∀ key, row.aesKey = some key →
    key.length = symmetricKeySize ∧ row.publicKey ≠ none

variable (sqlite : Sqlite) (crypto : PyCrypto)

def completedBy (s : Server) : Event → Option Handled
  | .recv c r env =>
    (s.served sqlite crypto c r env).bind fun out =>
      out.handled.map fun q => ⟨env, s.system.world, q⟩
  | _ => none

def serverNext (p : Server × History) (e : Event) : Option (Server × History) :=
  (p.1.next sqlite crypto e).map fun s => (s, p.2 ++ (completedBy sqlite crypto p.1 e).toList)

def KeptStep (p : Server × History) (e : Event) (p' : Server × History) : Prop :=
  serverNext sqlite crypto p e = some p' ∧ KeepsDatabase p.1.system e

def serverStart (w : World) : Server × History := (.initial w, [])

/-- The worlds of a server over its restarts, each of which loses the dictionary. -/
inductive Lives (w : World) : World → Prop where
  | born : Lives w w
  | serves {v : World} {es : List Event} {p : Server × History} : Lives w v →
      Run (KeptStep sqlite crypto) (serverStart v) es p → Lives w p.1.system.world
  | restarts {v : World} (cwd srcDir : Folder) : Lives w v →
      Lives w (.boot v.db v.disk cwd srcDir)

end Definitions

variable {sqlite : Sqlite} {crypto : PyCrypto} {env : Env} {w w' : World} {q : Request}

section Kept

/-- A step that keeps the database has its place in the history of the server without database
files. -/
theorem keptStep_history {p p' : Server × History} {e : Event}
    (h : KeptStep sqlite crypto p e p') (hread : p.1.readable = true) :
    HistoryStep crypto (p.1.system, p.2) e (p'.1.system, p'.2) ∧ p'.1.readable = true := by
  obtain ⟨hnext, hkeeps⟩ := h
  obtain ⟨s, hserver, rfl⟩ := Option.map_eq_some_iff.mp hnext
  obtain ⟨hstep, hread'⟩ := step_kept hserver hread hkeeps
  refine ⟨?_, hread'⟩
  have hsame : completedBy sqlite crypto p.1 e = completed crypto p.1.system e := by
    cases e with
    | accept => rfl
    | start => rfl
    | recv c r env => rw [completedBy, served_kept hread hkeeps, completed]
  rw [HistoryStep, historyNext, show p.1.system.next crypto e = some s.system from hstep, hsame]
  rfl

theorem run_kept {p p' : Server × History} {es : List Event}
    (h : Run (KeptStep sqlite crypto) p es p') (hread : p.1.readable = true) :
    Run (HistoryStep crypto) (p.1.system, p.2) es (p'.1.system, p'.2) ∧
      p'.1.readable = true := by
  induction h with
  | nil => exact ⟨.nil _, hread⟩
  | snoc _ hstep ih =>
    obtain ⟨hrun, hread'⟩ := ih
    obtain ⟨hlast, hread''⟩ := keptStep_history hstep hread'
    exact ⟨hrun.snoc hlast, hread''⟩

end Kept

section Tables

theorem updated_refl (env : Env) (q : Request) (row : ClientRow) : Updated env q row row :=
  ⟨rfl, rfl, .inl rfl, .inl rfl, .inl rfl⟩

theorem seen_rows {id : ClientId} {rows : List ClientRow} (h : Seen env w id rows) :
    ∃ f, rows = w.db.server.map f ∧
      ∀ row, f row = row ∨ f row = { row with lastSeen := env.now } := by
  cases h with
  | same => exact ⟨fun row => row, (List.map_id' _).symm, fun _ => .inl rfl⟩
  | touched =>
    refine ⟨_, rfl, fun row => ?_⟩
    split
    · exact .inr rfl
    · exact .inl rfl

theorem updated_keyed (q : PublicKeyRequest) {row row' : ClientRow}
    (h : row' = row ∨ row' = { row with lastSeen := env.now }) :
    Updated env (.publicKey q) row
      (if row'.id = q.header.clientID then { row' with publicKey := some q.publicKey.val }
        else row') := by
  rcases h with rfl | rfl
  · split
    · next hid => exact ⟨rfl, rfl, .inr ⟨q, rfl, hid.symm, rfl⟩, .inl rfl, .inl rfl⟩
    · exact updated_refl env _ row'
  · split
    · next hid => exact ⟨rfl, rfl, .inr ⟨q, rfl, hid.symm, rfl⟩, .inl rfl, .inr rfl⟩
    · exact ⟨rfl, rfl, .inl rfl, .inl rfl, .inr rfl⟩

theorem updated_exchanged (q : PublicKeyRequest) {row row' : ClientRow}
    (h : row' = row ∨ row' = { row with lastSeen := env.now }) :
    Updated env (.publicKey q) row
      (let keyed := if row'.id = q.header.clientID
          then { row' with publicKey := some q.publicKey.val } else row'
        if keyed.id = q.header.clientID then { keyed with aesKey := some env.aesKey.val }
        else keyed) := by
  have hkeyed := updated_keyed q h
  dsimp only
  by_cases hown : row'.id = q.header.clientID
  · rw [if_pos hown] at hkeyed ⊢
    have hrow : q.header.clientID = row.id := hown.symm.trans hkeyed.id
    rw [if_pos hown]
    exact ⟨hkeyed.id, hkeyed.name, hkeyed.publicKey, .inr ⟨q, rfl, hrow, rfl, rfl⟩,
      hkeyed.lastSeen⟩
  · rw [if_neg hown] at hkeyed ⊢
    rwa [if_neg hown]

theorem clients_rows {rows : List ClientRow} (h : ClientsEffect env w q rows) :
    ∃ f new, rows = w.db.server.map f ++ new ∧ (∀ row, Updated env q row (f row)) ∧
      ∀ row ∈ new, ∃ r, q = .registration r ∧ row = ⟨env.uuid, r.name, none, env.now, none⟩ := by
  cases h with
  | seen q rows hseen =>
    obtain ⟨f, rfl, hf⟩ := seen_rows hseen
    refine ⟨f, [], (List.append_nil _).symm, fun row => ?_, nofun⟩
    rcases hf row with heq | heq
    · rw [heq]
      exact updated_refl env q row
    · rw [heq]
      exact ⟨rfl, rfl, .inl rfl, .inl rfl, .inr rfl⟩
  | registered q hfree =>
    refine ⟨fun row => row, _, by rw [List.map_id'], updated_refl env _, ?_⟩
    intro row hrow
    exact ⟨q, rfl, List.mem_singleton.mp hrow⟩
  | keyed q rows hseen =>
    obtain ⟨f, rfl, hf⟩ := seen_rows hseen
    refine ⟨_, [], by rw [setClient, List.map_map, List.append_nil], fun row => ?_, nofun⟩
    exact updated_keyed q (hf row)
  | exchanged q rows hseen =>
    obtain ⟨f, rfl, hf⟩ := seen_rows hseen
    refine ⟨_, [], by rw [setClient, setClient, List.map_map, List.map_map, List.append_nil],
      fun row => ?_, nofun⟩
    exact updated_exchanged q (hf row)

def Marks (w : World) (q : Request) (id : ClientId) (fileName : Text) : Prop :=
  ∃ r file, q = .crcValid r ∧ w.db.hasFile r.clientID r.fileName = true ∧
    getFileInstance w r.clientID r.fileName = some file ∧
    file.clientId = id ∧ file.filename = fileName

theorem setVarified_rows (db : Tables) (id : ClientId) (fileName : Text) (varified : Bool) :
    ∃ f, (db.setVarified id fileName varified).files = db.files.map f ∧
      ∀ row, SamePlace row (f row) ∧ ((f row).varified = row.varified ∨
        row.id = id ∧ row.fileName = fileName ∧ (f row).varified = varified) := by
  refine ⟨_, rfl, fun row => ?_⟩
  by_cases h : (row.fileName = fileName && row.id = id) = true
  · rw [if_pos h]
    simp only [Bool.and_eq_true, decide_eq_true_eq] at h
    exact ⟨⟨rfl, rfl, rfl⟩, .inr ⟨h.2, h.1, rfl⟩⟩
  · rw [if_neg h]
    exact ⟨⟨rfl, rfl, rfl⟩, .inl rfl⟩

theorem files_rows {rows : List FileRow} (h : FilesEffect w q rows) :
    ∃ f new, rows = w.db.files.map f ++ new ∧
      (∀ row, SamePlace row (f row) ∧ ((f row).varified = true →
        row.varified = true ∨ Marks w q row.id row.fileName)) ∧
      ∀ row ∈ new, row.varified = false ∧ w.db.hasClient row.id = true ∧
        ∃ r, q = .sendFile r ∧ r.header.clientID = row.id ∧ r.fileName = row.fileName := by
  cases h with
  | same =>
    refine ⟨fun row => row, [], by rw [List.map_id', List.append_nil], fun row => ?_, nofun⟩
    exact ⟨⟨rfl, rfl, rfl⟩, .inl⟩
  | reset q hclient =>
    obtain ⟨f, hrows, hf⟩ := setVarified_rows w.db q.header.clientID q.fileName false
    refine ⟨f, [], by rw [hrows, List.append_nil], fun row => ⟨(hf row).1, fun hv => ?_⟩, nofun⟩
    rcases (hf row).2 with hsame | ⟨-, -, hreset⟩
    · exact .inl (hsame ▸ hv)
    · rw [hreset] at hv
      cases hv
  | added q pathName hclient =>
    refine ⟨fun row => row, _, by rw [List.map_id'], fun row => ⟨⟨rfl, rfl, rfl⟩, .inl⟩, ?_⟩
    intro row hrow
    rw [List.mem_singleton.mp hrow]
    exact ⟨rfl, hclient, q, rfl, rfl, rfl⟩
  | marked q file hrow hfile =>
    obtain ⟨f, hrows, hf⟩ := setVarified_rows w.db file.clientId file.filename true
    refine ⟨f, [], by rw [hrows, List.append_nil], fun row => ⟨(hf row).1, fun hv => ?_⟩, nofun⟩
    rcases (hf row).2 with hsame | ⟨hid, hname, -⟩
    · exact .inl (hsame ▸ hv)
    · exact .inr ⟨q, file, rfl, hrow, hfile, hid.symm, hname.symm⟩

end Tables

section Growth

theorem clientGrows_of_updated {row row' : ClientRow} (h : Updated env q row row') :
    ClientGrows row row' where
  id := h.id
  name := h.name
  publicKey hsome := by
    rcases h.publicKey with heq | ⟨r, -, -, heq⟩
    · rwa [heq]
    · rw [heq]
      exact Option.some_ne_none _
  aesKey hsome := by
    rcases h.aesKey with heq | ⟨r, -, -, -, heq⟩
    · rwa [heq]
    · rw [heq]
      exact Option.some_ne_none _

theorem ClientGrows.trans {a b c : ClientRow} (h : ClientGrows a b) (h' : ClientGrows b c) :
    ClientGrows a c :=
  ⟨h'.id.trans h.id, h'.name.trans h.name, fun ha => h'.publicKey (h.publicKey ha),
    fun ha => h'.aesKey (h.aesKey ha)⟩

theorem SamePlace.trans {a b c : FileRow} (h : SamePlace a b) (h' : SamePlace b c) :
    SamePlace a c :=
  ⟨h'.id.trans h.id, h'.fileName.trans h.fileName, h'.pathName.trans h.pathName⟩

theorem Grows.refl (w : World) : Grows w w where
  clients := evolves_refl (fun _ => ⟨rfl, rfl, id, id⟩) _
  files := evolves_refl (fun _ => ⟨rfl, rfl, rfl⟩) _
  memory _ file h := ⟨file, h⟩
  disk _ n h := ⟨n, h, Iff.rfl⟩

theorem Grows.trans {u : World} (h : Grows u w) (h' : Grows w w') : Grows u w' where
  clients := evolves_trans ClientGrows.trans h.clients h'.clients
  files := evolves_trans SamePlace.trans h.files h'.files
  memory path file hget := by
    obtain ⟨file', hget'⟩ := h.memory path file hget
    exact h'.memory path file' hget'
  disk loc n hnode := by
    obtain ⟨n', hnode', hkind⟩ := h.disk loc n hnode
    obtain ⟨n'', hnode'', hkind'⟩ := h'.disk loc n' hnode'
    exact ⟨n'', hnode'', hkind'.trans hkind⟩

theorem store_keeps {d : FileDict} (file : File) {path : Text} {old : File}
    (h : d.get path = some old) : ∃ new, (d.store file).get path = some new := by
  rw [FileDict.store_get]
  split
  · exact ⟨file, rfl⟩
  · exact ⟨old, h⟩

theorem dict_grows {d : FileDict} (h : DictEffect crypto w q d) (path : Text) (file : File)
    (hget : w.fileDict.get path = some file) : ∃ file', d.get path = some file' := by
  cases h with
  | same => exact ⟨file, hget⟩
  | stored q dir hclient hdir => exact store_keeps _ hget
  | verified q found hrow hfile => exact store_keeps _ hget

theorem disk_grows {disk : Disk} (h : DiskEffect env w q disk) (loc : Loc) (n : Node Bytes)
    (hnode : w.disk.node loc = some n) :
    ∃ n', disk.node loc = some n' ∧ (n' = .dir ↔ n = .dir) := by
  cases h with
  | same => exact ⟨n, hnode, Iff.rfl⟩
  | made q disk hmade =>
    rcases hmade loc with hsame | ⟨hfree, -⟩
    · exact ⟨n, hsame.trans hnode, Iff.rfl⟩
    · rw [hfree] at hnode
      cases hnode
  | saved q file hfile =>
    by_cases hopens : Opens env w.disk file.fullPath loc
    · have hnot : w.disk.isDir loc = false := by
        obtain ⟨-, dir, name, -, hnot, rfl⟩ := hopens
        exact hnot
      refine ⟨.file (writtenBytes env file.content).1, ?_, ?_⟩
      · rw [(saved_opens env file.content hopens).2, Function.update_self]
      · refine iff_of_false nofun ?_
        rintro rfl
        rw [(Tree.isDir_iff _ _).mpr hnode] at hnot
        cases hnot
    · exact ⟨n, (saved_node_of_not_opens env file.content hopens).trans hnode, Iff.rfl⟩

theorem effect_grows (h : Effect crypto env w q w') : Grows w w' where
  clients := by
    obtain ⟨f, new, hrows, hf, -⟩ := clients_rows h.clients
    rw [hrows]
    exact evolves_map (fun row _ => clientGrows_of_updated (hf row)) new
  files := by
    obtain ⟨f, new, hrows, hf, -⟩ := files_rows h.files
    rw [hrows]
    exact evolves_map (fun row _ => (hf row).1) new
  memory := dict_grows h.fileDict
  disk := disk_grows h.disk

/-- Main theorem: in no run is anything lost, neither a client and its keys nor a file, its
place or its entry in memory. -/
theorem run_nothingLost {p p' : Server × History} {es : List Event} (hread : p.1.readable = true)
    (h : Run (KeptStep sqlite crypto) p es p') : Grows p.1.system.world p'.1.system.world := by
  apply run_keeps (run_kept h hread).1 (Grows.refl p.1.system.world)
  exact fun hgrows heffect => hgrows.trans (effect_grows heffect)

theorem registers : ∃ es p, Run (KeptStep .sample .trivial) (serverStart .sample) es p ∧
    p.1.system.world.db.server.map (·.name) = [[0x61]] ∧ p.2.map (·.env.now) = [0] := by
  let es : List Event :=
    [.accept, .start, .recv 0 (.chunk (registrationRequestMessage [0x61])) .undisturbed]
  have hrun : (es.foldlM (guarded (fun p => KeepsDatabase p.1.system)
      (serverNext .sample .trivial)) (serverStart .sample)).map (fun p =>
        (p.1.system.world.db.server.map (·.name), p.2.map (·.env.now))) =
        some ([[0x61]], [0]) := by
    decide +kernel
  obtain ⟨p, hp, hseen⟩ := Option.map_eq_some_iff.mp hrun
  exact ⟨es, p, Run.of_guarded hp, congrArg Prod.fst hseen, congrArg Prod.snd hseen⟩

theorem run_nothingLost_registers : ∃ es p,
    Run (KeptStep .sample .trivial) (serverStart .sample) es p ∧
    p.1.system.world.db.server.map (·.name) = [[0x61]] ∧
    Grows .sample p.1.system.world := by
  obtain ⟨es, p, hrun, hnames, -⟩ := registers
  exact ⟨es, p, hrun, hnames, run_nothingLost rfl hrun⟩

end Growth

section Integrities

theorem hasClient_grows (h : Evolves ClientGrows w.db.server w'.db.server) {id : ClientId}
    (hclient : w.db.hasClient id = true) : w'.db.hasClient id = true := by
  simp only [Tables.hasClient, List.any_eq_true, decide_eq_true_eq] at hclient ⊢
  obtain ⟨row, hrow, rfl⟩ := hclient
  obtain ⟨row', hrow', hgrows⟩ := h.mem hrow
  exact ⟨row', hrow', hgrows.id⟩

theorem mem_clients (h : ClientsEffect env w q w'.db.server) {row' : ClientRow}
    (hrow' : row' ∈ w'.db.server) : (∃ row ∈ w.db.server, Updated env q row row') ∨
      ∃ r, q = .registration r ∧ row' = ⟨env.uuid, r.name, none, env.now, none⟩ := by
  obtain ⟨f, new, hrows, hf, hnew⟩ := clients_rows h
  rw [hrows] at hrow'
  rcases List.mem_append.mp hrow' with hold | hnew'
  · obtain ⟨row, hrow, rfl⟩ := List.mem_map.mp hold
    exact .inl ⟨row, hrow, hf row⟩
  · exact .inr (hnew row' hnew')

theorem mem_files (h : FilesEffect w q w'.db.files) {row' : FileRow}
    (hrow' : row' ∈ w'.db.files) :
    (∃ row ∈ w.db.files, SamePlace row row' ∧
      (row'.varified = true → row.varified = true ∨ Marks w q row.id row.fileName)) ∨
      row'.varified = false ∧ w.db.hasClient row'.id = true ∧
        ∃ r, q = .sendFile r ∧ r.header.clientID = row'.id ∧ r.fileName = row'.fileName := by
  obtain ⟨f, new, hrows, hf, hnew⟩ := files_rows h
  rw [hrows] at hrow'
  rcases List.mem_append.mp hrow' with hold | hnew'
  · obtain ⟨row, hrow, rfl⟩ := List.mem_map.mp hold
    exact .inl ⟨row, hrow, hf row⟩
  · exact .inr (hnew row' hnew')

theorem entry_owner (h : Integrity w) {d : FileDict} (hdict : DictEffect crypto w q d)
    {path : Text} {file : File} (hget : d.get path = some file) :
    w.db.hasClient file.clientId = true := by
  cases hdict with
  | same => exact h.entries path file hget
  | stored q dir hclient hdir =>
    rw [FileDict.store_get] at hget
    split at hget
    · cases hget
      exact hclient
    · exact h.entries path file hget
  | verified q found hrow hfile =>
    rw [FileDict.store_get] at hget
    split at hget
    · cases hget
      exact h.entries _ found (getFileInstance_keyed hfile).2.1
    · exact h.entries path file hget

theorem effect_integrity (h : Integrity w) (heffect : Effect crypto env w q w') :
    Integrity w' where
  owners row' hrow' := by
    have hgrows := (effect_grows heffect).clients
    rcases mem_files heffect.files hrow' with ⟨row, hrow, hplace, -⟩ | ⟨-, hclient, -⟩
    · rw [hplace.id]
      exact hasClient_grows hgrows (h.owners row hrow)
    · exact hasClient_grows hgrows hclient
  entries path file hget :=
    hasClient_grows (effect_grows heffect).clients (entry_owner h heffect.fileDict hget)
  publicKeys row' hrow' key hkey := by
    rcases mem_clients heffect.clients hrow' with ⟨row, hrow, hupdated⟩ | ⟨r, -, rfl⟩
    · rcases hupdated.publicKey with hsame | ⟨r, -, -, hfield⟩
      · exact h.publicKeys row hrow key (hsame ▸ hkey)
      · cases hfield.symm.trans hkey
        exact r.publicKey.property
    · cases hkey
  sessionKeys row' hrow' key hkey := by
    rcases mem_clients heffect.clients hrow' with ⟨row, hrow, hupdated⟩ | ⟨r, -, rfl⟩
    · rcases hupdated.aesKey with hsame | ⟨r, -, -, hpublic, hfield⟩
      · obtain ⟨hlength, hpublic⟩ := h.sessionKeys row hrow key (hsame ▸ hkey)
        exact ⟨hlength, (clientGrows_of_updated hupdated).publicKey hpublic⟩
      · cases hfield.symm.trans hkey
        refine ⟨env.aesKey.property, ?_⟩
        rw [hpublic]
        exact Option.some_ne_none _
    · cases hkey

theorem integrity_empty (disk : Disk) (cwd srcDir : Folder) :
    Integrity (.boot .empty disk cwd srcDir) where
  owners _ h := by cases h
  entries _ _ h := by cases h
  publicKeys _ h := by cases h
  sessionKeys _ h := by cases h

end Integrities

section Stems

/-- Where the values in the row of a client come from: the row at the start of the process or
requests of its history. -/
structure RowStems (w : World) (history : History) (row' : ClientRow) : Prop where
  name : (∃ row ∈ w.db.server, row.id = row'.id ∧ row.name = row'.name) ∨
    ∃ d ∈ history, ∃ q, d.request = .registration q ∧ d.env.uuid = row'.id ∧ q.name = row'.name
  publicKey : row'.publicKey = none ∨
    (∃ row ∈ w.db.server, row.id = row'.id ∧ row.publicKey = row'.publicKey) ∨
    ∃ d ∈ history, ∃ q, d.request = .publicKey q ∧ q.header.clientID = row'.id ∧
      row'.publicKey = some q.publicKey.val
  aesKey : row'.aesKey = none ∨
    (∃ row ∈ w.db.server, row.id = row'.id ∧ row.aesKey = row'.aesKey) ∨
    ∃ d ∈ history, ∃ q, d.request = .publicKey q ∧ q.header.clientID = row'.id ∧
      row'.aesKey = some d.env.aesKey.val
  lastSeen : (∃ row ∈ w.db.server, row.id = row'.id ∧ row.lastSeen = row'.lastSeen) ∨
    ∃ d ∈ history, row'.lastSeen = d.env.now

structure FileStems (w : World) (history : History) (row' : FileRow) : Prop where
  place : (∃ row ∈ w.db.files, SamePlace row row') ∨
    ∃ d ∈ history, ∃ q, d.request = .sendFile q ∧ q.header.clientID = row'.id ∧
      q.fileName = row'.fileName
  varified : row'.varified = true →
    (∃ row ∈ w.db.files, SamePlace row row' ∧ row.varified = true) ∨
    ∃ d ∈ history, Marks d.world d.request row'.id row'.fileName

/-- Every value in the tables is one of the start or was sent or drawn for a request. -/
structure Stems (w : World) (history : History) (w' : World) : Prop where
  clients : ∀ row' ∈ w'.db.server, RowStems w history row'
  files : ∀ row' ∈ w'.db.files, FileStems w history row'

theorem stems_start (w : World) : Stems w [] w where
  clients row h :=
    ⟨.inl ⟨row, h, rfl, rfl⟩, .inr (.inl ⟨row, h, rfl, rfl⟩), .inr (.inl ⟨row, h, rfl, rfl⟩),
      .inl ⟨row, h, rfl, rfl⟩⟩
  files row h := ⟨.inl ⟨row, h, rfl, rfl, rfl⟩, fun hv => .inl ⟨row, h, ⟨rfl, rfl, rfl⟩, hv⟩⟩

variable {history : History} {d : Handled}

theorem RowStems.later {row : ClientRow} (h : RowStems w history row) (d : Handled) :
    RowStems w (history ++ [d]) row where
  name := h.name.imp_right fun ⟨d', hd', hq⟩ => ⟨d', List.mem_append_left _ hd', hq⟩
  publicKey := h.publicKey.imp_right fun hk => hk.imp_right fun ⟨d', hd', hq⟩ =>
    ⟨d', List.mem_append_left _ hd', hq⟩
  aesKey := h.aesKey.imp_right fun hk => hk.imp_right fun ⟨d', hd', hq⟩ =>
    ⟨d', List.mem_append_left _ hd', hq⟩
  lastSeen := h.lastSeen.imp_right fun ⟨d', hd', hq⟩ => ⟨d', List.mem_append_left _ hd', hq⟩

theorem FileStems.later {row : FileRow} (h : FileStems w history row) (d : Handled) :
    FileStems w (history ++ [d]) row where
  place := h.place.imp_right fun ⟨d', hd', hq⟩ => ⟨d', List.mem_append_left _ hd', hq⟩
  varified hv := (h.varified hv).imp_right fun ⟨d', hd', hq⟩ =>
    ⟨d', List.mem_append_left _ hd', hq⟩

theorem rowStems_updated {row row' : ClientRow} (h : RowStems w history row)
    (hupdated : Updated d.env d.request row row') : RowStems w (history ++ [d]) row' := by
  have hd : d ∈ history ++ [d] := List.mem_append_right _ (List.mem_singleton.mpr rfl)
  have hlater := h.later d
  refine ⟨?_, ?_, ?_, ?_⟩
  · rw [hupdated.id, hupdated.name]
    exact hlater.name
  · rw [hupdated.id]
    rcases hupdated.publicKey with hsame | ⟨q, hq, hid, hkey⟩
    · rw [hsame]
      exact hlater.publicKey
    · exact .inr (.inr ⟨d, hd, q, hq, hid, hkey⟩)
  · rw [hupdated.id]
    rcases hupdated.aesKey with hsame | ⟨q, hq, hid, -, hkey⟩
    · rw [hsame]
      exact hlater.aesKey
    · exact .inr (.inr ⟨d, hd, q, hq, hid, hkey⟩)
  · rw [hupdated.id]
    rcases hupdated.lastSeen with hsame | hnow
    · rw [hsame]
      exact hlater.lastSeen
    · exact .inr ⟨d, hd, hnow⟩

theorem rowStems_effect (h : Stems w history d.world)
    (heffect : Effect crypto d.env d.world d.request w') {row' : ClientRow}
    (hrow' : row' ∈ w'.db.server) : RowStems w (history ++ [d]) row' := by
  have hd : d ∈ history ++ [d] := List.mem_append_right _ (List.mem_singleton.mpr rfl)
  rcases mem_clients heffect.clients hrow' with ⟨row, hrow, hupdated⟩ | ⟨q, hq, rfl⟩
  · exact rowStems_updated (h.clients row hrow) hupdated
  · exact ⟨.inr ⟨d, hd, q, hq, rfl, rfl⟩, .inl rfl, .inl rfl, .inr ⟨d, hd, rfl⟩⟩

theorem fileStems_effect (h : Stems w history d.world)
    (heffect : Effect crypto d.env d.world d.request w') {row' : FileRow}
    (hrow' : row' ∈ w'.db.files) : FileStems w (history ++ [d]) row' := by
  have hd : d ∈ history ++ [d] := List.mem_append_right _ (List.mem_singleton.mpr rfl)
  rcases mem_files heffect.files hrow' with ⟨row, hrow, hplace, hflag⟩ |
    ⟨hunverified, -, q, hq, hid, hname⟩
  · have hlater := (h.files row hrow).later d
    refine ⟨?_, fun hv => ?_⟩
    · refine hlater.place.imp ?_ ?_
      · rintro ⟨row₀, hrow₀, hplace₀⟩
        exact ⟨row₀, hrow₀, hplace₀.trans hplace⟩
      · rintro ⟨d', hd', q, hq, hid, hname⟩
        exact ⟨d', hd', q, hq, hid.trans hplace.id.symm, hname.trans hplace.fileName.symm⟩
    · rw [hplace.id, hplace.fileName]
      rcases hflag hv with hold | hmarks
      · refine (hlater.varified hold).imp ?_ id
        rintro ⟨row₀, hrow₀, hplace₀, hv₀⟩
        exact ⟨row₀, hrow₀, hplace₀.trans hplace, hv₀⟩
      · exact .inr ⟨d, hd, hmarks⟩
  · refine ⟨.inr ⟨d, hd, q, hq, hid, hname⟩, fun hv => ?_⟩
    rw [hunverified] at hv
    cases hv

theorem history_stems {es : List Event} {p : System × History}
    (h : Run (HistoryStep crypto) (historyStart w) es p) : Stems w p.2 p.1.world := by
  refine @run_remembers crypto (fun w' ds => Stems w ds w') _ _ _ h (stems_start w) ?_
  intro d w' ds hstems heffect
  exact ⟨fun _ hrow' => rowStems_effect hstems heffect hrow',
    fun _ hrow' => fileStems_effect hstems heffect hrow'⟩

end Stems

section LastSeen

def Clocked (w : World) (history : History) : Prop :=
  (∀ row ∈ w.db.server, ∀ d ∈ history, row.lastSeen ≤ d.env.now) ∧
    history.Pairwise (·.env.now ≤ ·.env.now)

def SeenLater (row row' : ClientRow) : Prop := row'.id = row.id ∧ row.lastSeen ≤ row'.lastSeen

theorem lastSeen_le {history : History} {d : Handled} (hstems : Stems w history w')
    (hclock : Clocked w (history ++ [d])) {row' : ClientRow} (hrow' : row' ∈ w'.db.server) :
    row'.lastSeen ≤ d.env.now := by
  have hd : d ∈ history ++ [d] := List.mem_append_right _ (List.mem_singleton.mpr rfl)
  rcases (hstems.clients row' hrow').lastSeen with ⟨row, hrow, -, hsame⟩ | ⟨d', hd', hnow⟩
  · rw [← hsame]
    exact hclock.1 row hrow d hd
  · rw [hnow]
    exact (List.pairwise_append.mp hclock.2).2.2 d' hd' d (List.mem_singleton.mpr rfl)

theorem Clocked.earlier {history history' : History} (h : Clocked w (history ++ history')) :
    Clocked w history :=
  ⟨fun row hrow d hd => h.1 row hrow d (List.mem_append_left _ hd),
    (List.pairwise_append.mp h.2).1⟩

theorem history_lastSeen {es fs : List Event} {p p' : System × History}
    (hstart : Run (HistoryStep crypto) (historyStart w) es p)
    (h : Run (HistoryStep crypto) p fs p') (hclock : Clocked w p'.2) :
    Evolves SeenLater p.1.world.db.server p'.1.world.db.server := by
  induction h with
  | nil => exact evolves_refl (fun row => ⟨rfl, le_refl row.lastSeen⟩) _
  | @snoc t u fs e hrun hstep ih =>
    have hstems := history_stems (hstart.append hrun)
    rcases step_effect hstep with ⟨hsame, hworld⟩ | ⟨d, hmore, hworld, heffect⟩
    · rw [hworld]
      exact ih (hsame ▸ hclock)
    · rw [hmore] at hclock
      refine evolves_trans ?_ (ih hclock.earlier) ?_
      · exact fun h h' => ⟨h'.1.trans h.1, h.2.trans h'.2⟩
      · obtain ⟨f, new, hrows, hf, -⟩ := clients_rows heffect.clients
        rw [hrows, hworld]
        apply evolves_map
        intro row hrow
        refine ⟨(hf row).id, ?_⟩
        rcases (hf row).lastSeen with heq | hnow
        · exact heq.ge
        · rw [hnow]
          exact lastSeen_le hstems hclock hrow

/-- Main theorem: between any two moments of a run no row loses its place and no time goes
back, as long as the clock of the requests does not. -/
theorem run_lastSeen {es fs : List Event} {p p' : Server × History}
    (hstart : Run (KeptStep sqlite crypto) (serverStart w) es p)
    (h : Run (KeptStep sqlite crypto) p fs p') (hclock : Clocked w p'.2) :
    Evolves SeenLater p.1.system.world.db.server p'.1.system.world.db.server := by
  obtain ⟨hrun, hread⟩ := run_kept hstart rfl
  exact history_lastSeen hrun (run_kept h hread).1 hclock

theorem run_lastSeen_registers : ∃ es p,
    Run (KeptStep .sample .trivial) (serverStart .sample) es p ∧
    p.1.system.world.db.server.map (·.name) = [[0x61]] ∧
      Evolves SeenLater World.sample.db.server p.1.system.world.db.server := by
  obtain ⟨es, p, hrun, hnames, htimes⟩ := registers
  have hclock : Clocked .sample p.2 := by
    have hpair : (p.2.map (·.env.now)).Pairwise (· ≤ ·) := by
      rw [htimes]
      exact List.pairwise_singleton _ 0
    exact ⟨fun row hrow => absurd hrow List.not_mem_nil, List.pairwise_map.mp hpair⟩
  exact ⟨es, p, hrun, hnames, run_lastSeen (.nil _) hrun hclock⟩

end LastSeen

end ServerHistory
