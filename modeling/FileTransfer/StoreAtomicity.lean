import FileTransfer.ClientIsolation
import FileTransfer.DatabaseFailures
import FileTransfer.DurableFiles

/-! # Storing an upload

Whether the directory of a new file is the one that the lookups use, and what `storeFileinDB`
leaves in the dictionary and in the table of files. -/
namespace StoreAtomicity

open ByteField PathWalk ServerProtocol ServerTables ServerState ServerFiles ServerDatabase
  ServerHandlers ServerThread ServerSystem StepRun RaisingProgram
open ClientIsolation (entry storeFileinDB_effect crcResend_world)
open DatabaseFailures (uploadedContent storeTurn StoreCommits)

section Paths

variable (crypto : PyCrypto) (env : Env) (t : Turn) (clientId : ClientId) (fileName : Text)
  (content : Option Bytes)

/-- Once a file is stored the lookups find it, and the client can store another one. -/
def PathsAgree : Prop :=
  ∀ file u, (newFile crypto env clientId fileName content).run t = (.value file, u) →
    getFileInstance u.world clientId fileName = some file ∧
    ∀ (env' : Env) (fileName' : Text) (content' : Bytes), ∃ file' u',
      (newFile crypto env' clientId fileName' (some content')).run u = (.value file', u')

def CanMake (w : World) : Prop :=
  env.mkdirOk = true ∧ w.disk.isDir w.srcDir.val = true ∧
    w.disk.node (w.srcDir.val ++ [clientDirectory clientId]) = none

/-- No directory is made away from where the lookups are. -/
def OneDirectory : Prop :=
  t.world.disk.isDir (clientFolder t.world clientId) = true ∨ t.world.cwd = t.world.srcDir ∨
    ¬CanMake env clientId t.world ∨ content = none

variable {crypto env t clientId fileName content}

theorem clientsDir_isSome_iff {w : World} : (∃ dir w', clientsDir env w clientId = some (dir, w')) ↔
    w.disk.isDir (clientFolder w clientId) = true ∨ CanMake env clientId w := by
  by_cases hd : w.disk.isDir (clientFolder w clientId) = true
  · exact iff_of_true ⟨_, _, clientsDir_of_isDir env hd⟩ (.inl hd)
  · constructor
    · rintro ⟨dir, w', hdir⟩
      rcases clientsDir_eq_some env hdir with ⟨hd', -, -⟩ | ⟨-, hok, -, disk, hmade, -⟩
      · exact .inl hd'
      · obtain ⟨hsrc, hfree, -⟩ := Tree.mkdir_eq_some hmade
        exact .inr ⟨hok, hsrc, hfree⟩
    · rintro (hd' | ⟨hok, hsrc, hfree⟩)
      · exact absurd hd' hd
      · obtain ⟨disk, hmade⟩ := Tree.mkdir_of_free hsrc hfree
        rw [clientsDir, if_neg hd, if_pos hok, hmade]
        exact ⟨_, _, rfl⟩

theorem dirReady_of_home {w : World} (h : CanMake env clientId w) (hhome : w.cwd = w.srcDir) :
    DirReady env w clientId := by
  refine .inr ⟨hhome, h.1, h.2.1, ?_⟩
  rw [clientFolder, hhome]
  exact h.2.2

theorem newFile_content_of_value {file : File} {u : Turn}
    (h : (newFile crypto env clientId fileName content).run t = (.value file, u)) :
    content ≠ none ∧ ∃ dir w, clientsDir env t.world clientId = some (dir, w) := by
  cases hdir : clientsDir env t.world clientId with
  | none =>
    rw [newFile_noDir crypto env fileName content hdir] at h
    cases h
  | some dw =>
    refine ⟨?_, dw.1, dw.2, rfl⟩
    rintro rfl
    rw [newFile_noContent crypto env fileName hdir] at h
    cases h

theorem pathsAgree_ready (h : DirReady env t.world clientId) :
    PathsAgree crypto env t clientId fileName content := by
  intro file u hrun
  obtain ⟨bytes, rfl⟩ := Option.ne_none_iff_exists'.mp (newFile_content_of_value hrun).1
  obtain ⟨v, hnew, hv, -, -, -⟩ := newFile_ready crypto env fileName bytes h
  cases hrun.symm.trans hnew
  have hfolder : clientFolder u.world clientId = clientFolder t.world clientId := by
    rw [clientFolder, hv.cwd, clientFolder]
  have hdir : u.world.disk.isDir (clientFolder u.world clientId) = true := by
    rw [hfolder]
    exact hv.isDir
  constructor
  · rw [getFileInstance, if_pos hdir, hv.fileDict, FileDict.store_get, filePath, hfolder]
    exact if_pos rfl
  · intro env' fileName' content'
    exact ⟨_, _, newFile_content crypto env' fileName' content' (clientsDir_of_isDir env' hdir)⟩

/-- Main theorem: the two computations of the path agree unless the directory is made next to
the sources and the process works elsewhere. -/
theorem pathsAgree_iff :
    PathsAgree crypto env t clientId fileName content ↔ OneDirectory env t clientId content := by
  constructor
  · intro h
    by_contra hnot
    unfold OneDirectory at hnot
    push Not at hnot
    obtain ⟨hd, haway, hmake, hcontent⟩ := hnot
    obtain ⟨bytes, rfl⟩ := Option.ne_none_iff_exists'.mp hcontent
    obtain ⟨dir, w, hdir⟩ := clientsDir_isSome_iff.mpr (.inr hmake)
    have hnew := newFile_content crypto env fileName bytes hdir
    have hready : ¬DirReady env t.world clientId := by
      rintro (hd' | ⟨hhome, -⟩)
      · exact hd hd'
      · exact haway hhome
    -- the lookups do not see the directory that was made
    have hnone : getFileInstance (World.store w (uploaded clientId fileName dir (some bytes)
        (crypto.crc32 bytes))) clientId fileName = none := by
      rw [getFileInstance, if_neg]
      have hisDir := isDir_of_not_ready env hready hdir
      exact Bool.not_eq_true _ ▸ hisDir
    have hfound := (h _ _ hnew).1
    rw [inWorld_world, hnone] at hfound
    cases hfound
  · intro h file u hrun
    obtain ⟨hcontent, hdir⟩ := newFile_content_of_value hrun
    rcases clientsDir_isSome_iff.mp hdir with hd | hmake
    · exact pathsAgree_ready (.inl hd) file u hrun
    · rcases h with hd | hhome | hnot | hnone
      · exact pathsAgree_ready (.inl hd) file u hrun
      · exact pathsAgree_ready (dirReady_of_home hmake hhome) file u hrun
      · exact absurd hmake hnot
      · exact absurd hnone hcontent

def awayWorld : World :=
  .boot .empty ((Tree.empty.mkdir [] [0x77]).getD .empty) ⟨[[0x77]], by decide⟩ .root

theorem not_pathsAgree_away : ¬∀ (crypto : PyCrypto) (env : Env) (t : Turn) (clientId : ClientId)
    (fileName : Text) (content : Option Bytes), Plain fileName →
      PathsAgree crypto env t clientId fileName content := by
  intro h
  have hdir : (clientsDir .undisturbed awayWorld sampleId).isSome = true := by decide +kernel
  obtain ⟨⟨dir, w⟩, hdir⟩ := Option.isSome_iff_exists.mp hdir
  have hnew := newFile_content .trivial (t := Turn.start awayWorld .undisturbed) .undisturbed
    [0x78] [1] hdir
  have hfound := (h .trivial .undisturbed _ sampleId [0x78] (some [1]) (by decide) _ _ hnew).1
  have hlookup : getFileInstance ((newFile .trivial .undisturbed sampleId [0x78] (some [1])).run
      (Turn.start awayWorld .undisturbed)).2.world sampleId [0x78] = none := by
    decide +kernel
  rw [hnew] at hlookup
  cases hfound.symm.trans hlookup

end Paths

section Calls

variable (crypto : PyCrypto) (env : Env) (t : Turn) (clientId : ClientId) (fileName : Text)
  (content : Option Bytes)

structure Describes (w : World) (file : File) : Prop where
  owner : file.clientId = clientId
  named : file.filename = fileName
  given : content ≠ none
  stored : file.content = content
  crc : content.map crypto.crc32 = some file.crc
  unverified : file.verified = false
  entry : w.fileDict.get file.fullPath = some file
  row : ∃ row ∈ w.db.files, row.id = clientId ∧ row.fileName = fileName ∧ row.varified = false

/-- A call stores everything or leaves the dictionary and the rows as they were. -/
def AllOrNothing : Prop :=
  let r := (storeFileinDB crypto env clientId fileName content).run t
  match r.1 with
  | .value none => r.2.world.fileDict = t.world.fileDict ∧ r.2.world.db.files = t.world.db.files
  | .value (some file) => Describes crypto clientId fileName content r.2.world file
  | _ => False

/-- Whenever there is a directory to store the file in, the row is committed, or the entry is
there already. -/
def StoresWhole : Prop :=
  ∀ dir w, clientsDir env t.world clientId = some (dir, w) →
    StoreCommits env t clientId fileName content ∨
      t.world.fileDict.get (joinPath dir fileName) =
        some (entry crypto dir clientId fileName content)

structure Stores (dir : Text) (w : World) (u : Turn) : Prop where
  fileDict : u.world.fileDict =
    t.world.fileDict.store (entry crypto dir clientId fileName content)
  cwd : u.world.cwd = t.world.cwd
  srcDir : u.world.srcDir = t.world.srcDir
  isDir : ∀ loc, u.world.disk.isDir loc = w.disk.isDir loc

instance : Decidable (StoreCommits env t clientId fileName content) :=
  inferInstanceAs (Decidable (_ ∧ _ ∧ (_ ∨ _ ∧ _)))

variable {crypto env t clientId fileName content} {dir : Text} {w : World}

theorem clientsDir_homes (h : clientsDir env t.world clientId = some (dir, w)) :
    w.cwd = t.world.cwd ∧ w.srcDir = t.world.srcDir := by
  rcases clientsDir_eq_some env h with ⟨-, -, rfl⟩ | ⟨-, -, -, disk, -, rfl⟩ <;> exact ⟨rfl, rfl⟩

variable (crypto fileName content) in
theorem stores_newFile (h : clientsDir env t.world clientId = some (dir, w)) :
    Stores crypto t clientId fileName content dir w
      (t.inWorld (World.store w (entry crypto dir clientId fileName content))) := by
  obtain ⟨hcwd, hsrc⟩ := clientsDir_homes h
  refine ⟨?_, hcwd, hsrc, fun loc => rfl⟩
  rw [inWorld_world, World.store, (clientsDir_world env h).2]

theorem Stores.of_world {u v : Turn} (h : Stores crypto t clientId fileName content dir w u)
    (hworld : v.world = u.world) : Stores crypto t clientId fileName content dir w v where
  fileDict := by rw [hworld, h.fileDict]
  cwd := by rw [hworld, h.cwd]
  srcDir := by rw [hworld, h.srcDir]
  isDir loc := by rw [hworld, h.isDir]

theorem Stores.inDb {u : Turn} (h : Stores crypto t clientId fileName content dir w u)
    (db : Tables) :
    Stores crypto t clientId fileName content dir w (u.inWorld { u.world with db }) :=
  ⟨h.fileDict, h.cwd, h.srcDir, h.isDir⟩

theorem Stores.touch {u : Turn} (h : Stores crypto t clientId fileName content dir w u)
    (n : NameOrId) : Stores crypto t clientId fileName content dir w (afterTouch env n u) where
  fileDict := by rw [afterTouch_fileDict, h.fileDict]
  cwd := by rw [afterTouch_cwd, h.cwd]
  srcDir := by rw [afterTouch_srcDir, h.srcDir]
  isDir loc := by rw [afterTouch_disk, h.isDir]

variable (crypto fileName content) in
theorem storeFileinDB_stores (hdir : clientsDir env t.world clientId = some (dir, w)) :
    ∃ u, (storeFileinDB crypto env clientId fileName content).run t =
        (.value (if StoreCommits env t clientId fileName content then
          some (entry crypto dir clientId fileName content) else none), u) ∧
      Stores crypto t clientId fileName content dir w u ∧
      u.world.db.files = if StoreCommits env t clientId fileName content then
        storedRows t (entry crypto dir clientId fileName content) else t.world.db.files := by
  have hstored := stores_newFile crypto fileName content hdir
  have hdb := (clientsDir_world env hdir).1
  have hfiles : w.db.files = t.world.db.files := by rw [hdb]
  cases content with
  | none =>
    have hno : ¬StoreCommits env t clientId fileName none := fun h => h.1 rfl
    rw [if_neg hno, if_neg hno]
    exact ⟨_, storeFileinDB_noContent crypto env hdir, hstored, hfiles⟩
  | some bytes =>
    by_cases hready : DirReady env t.world clientId
    · have hcommits : StoreCommits env t clientId fileName (some bytes) ↔
          Committed t clientId fileName :=
        ⟨fun h => h.2.1, fun h => ⟨Option.some_ne_none _, h, .inl hready⟩⟩
      obtain ⟨u, hrun, hu, hrows, -⟩ := storeFileinDB_ready crypto env fileName bytes hready
      obtain ⟨disk, hdir', hisDir, hnode⟩ := clientsDir_of_ready env hready
      cases hdir.symm.trans hdir'
      simp only [hcommits]
      refine ⟨u, hrun, ⟨hu.fileDict, hu.cwd, hu.srcDir, fun loc => ?_⟩, hrows⟩
      by_cases hloc : loc = clientFolder t.world clientId
      · rw [hloc]
        exact hu.isDir.trans hisDir.symm
      · rw [Tree.isDir, Tree.isDir, hu.disk loc hloc, hnode loc hloc]
    · have hcommits : StoreCommits env t clientId fileName (some bytes) ↔
          RowFound t clientId fileName ∧ t.sql 1 = .done := by
        constructor
        · rintro ⟨-, ⟨hs, -⟩, h | ⟨h, -⟩⟩
          · exact absurd h hready
          · exact ⟨h, hs⟩
        · rintro ⟨h, hs⟩
          exact ⟨Option.some_ne_none _, ⟨hs, .inl h⟩, .inr ⟨h, by simp [hdir]⟩⟩
      simp only [hcommits]
      by_cases hc : RowFound t clientId fileName ∧ t.sql 1 = .done
      · rw [if_pos hc, if_pos hc]
        refine ⟨_, storeFileinDB_awayFound crypto env bytes hdir hc.1 hc.2, Stores.touch ?_ _, ?_⟩
        · exact (hstored.inDb _).of_world rfl
        · rw [afterTouch_files, storedRows, if_pos (by exact hc.1)]
          rfl
      · rw [if_neg hc, if_neg hc]
        obtain ⟨u, hrun, -, -, hworld⟩ :=
          storeFileinDB_awayMissing crypto env bytes hready hdir hc
        refine ⟨u, hrun, hstored.of_world hworld, ?_⟩
        rw [hworld]
        exact hfiles

theorem fileDict_ext {d d' : FileDict} (h : d.get = d'.get) : d = d' := by
  cases d
  cases d'
  cases h
  rfl

theorem store_self_iff {d : FileDict} {file : File} :
    d.store file = d ↔ d.get file.fullPath = some file := by
  constructor
  · intro h
    rw [← h, FileDict.store_get, if_pos rfl]
  · intro h
    refine fileDict_ext (funext fun path => ?_)
    rw [FileDict.store_get]
    split
    · next hp => rw [hp, h]
    · rfl

theorem storedRows_row (t : Turn) (file : File) : ∃ row ∈ storedRows t file,
    row.id = file.clientId ∧ row.fileName = file.filename ∧ row.varified = false := by
  unfold storedRows
  split
  · next hrow =>
    obtain ⟨row, hmem, hid, hname⟩ := hasFile_iff.mp hrow.2
    refine ⟨_, List.mem_map_of_mem hmem, ?_⟩
    simp [hid, hname]
  · exact ⟨newRow file, by simp, rfl, rfl, rfl⟩

/-- Main theorem for one call: nothing is stored by halves exactly when the row is committed or
there is nothing to replace. -/
theorem allOrNothing_iff : AllOrNothing crypto env t clientId fileName content ↔
    StoresWhole crypto env t clientId fileName content := by
  unfold AllOrNothing
  cases hdir : clientsDir env t.world clientId with
  | none =>
    rw [storeFileinDB_noDir crypto env content hdir]
    exact iff_of_true ⟨rfl, rfl⟩ (by simp [StoresWhole, hdir])
  | some dw =>
    obtain ⟨dir, w⟩ := dw
    obtain ⟨u, hrun, hu, hrows⟩ := storeFileinDB_stores crypto fileName content hdir
    rw [hrun]
    by_cases hc : StoreCommits env t clientId fileName content
    · rw [if_pos hc] at hrows ⊢
      obtain ⟨bytes, hbytes⟩ := Option.ne_none_iff_exists'.mp hc.1
      refine iff_of_true ⟨rfl, rfl, hc.1, rfl, by simp [hbytes, entry, uploaded], rfl, ?_, ?_⟩
        fun _ _ _ => .inl hc
      · rw [hu.fileDict, FileDict.store_get, if_pos rfl]
      · rw [hrows]
        exact storedRows_row t _
    · rw [if_neg hc] at hrows ⊢
      dsimp only
      rw [hu.fileDict, store_self_iff]
      constructor
      · intro h dir' w' hdir'
        cases hdir.symm.trans hdir'
        exact .inr h.1
      · intro h
        exact ⟨(h dir w hdir).resolve_left hc, hrows⟩

end Calls

section Runs

variable (crypto : PyCrypto) (env : Env)

/-- Every entry in memory has a row, with the flag of the entry. -/
def FlagsAgree (w : World) : Prop :=
  ∀ path file, w.fileDict.get path = some file → ∃ row ∈ w.db.files,
    row.id = file.clientId ∧ row.fileName = file.filename ∧ row.varified = file.verified

def placeOf (w : World) (c : ClientId) (f : Text) : Text :=
  if w.disk.isDir (clientFolder w c) = true then filePath w c f
  else joinPath (render (w.srcDir.val ++ [clientDirectory c])) f

/-- The invariant: an entry stands where an upload of its file would go. -/
structure Consistent (w : World) : Prop where
  placed : ∀ path file, w.fileDict.get path = some file →
    path = placeOf w file.clientId file.filename
  flags : FlagsAgree w

/-- An upload is stored as a whole, and an approval that saves commits the flag. -/
def Whole (w : World) : Request → Prop
  | .sendFile q => Known (Turn.start w env) q.header.clientID → env.sql 1 = .done →
      StoresWhole crypto env (storeTurn env w) q.header.clientID q.fileName
        (uploadedContent crypto w q)
  | .crcValid q => Saves env w q → ∀ file,
      getFileInstance w q.clientID q.fileName = some file →
        env.sql 3 = .done ∨ w.db.isVarified file.clientId file.filename = true
  | _ => True

def WholeStep (s : System) (e : Event) (s' : System) : Prop :=
  Step crypto s e s' ∧ ∀ c r env, e = .recv c r env → ∀ out q,
    s.served crypto c r env = some out → out.handled = some q → Whole crypto env s.world q

structure SameStore (w w' : World) : Prop where
  fileDict : w'.fileDict = w.fileDict
  files : w'.db.files = w.db.files
  disk : w'.disk = w.disk
  cwd : w'.cwd = w.cwd
  srcDir : w'.srcDir = w.srcDir

variable {crypto env} {w w' : World} {c : ClientId} {f : Text}

/-- Directories are made next to the sources only, where they are in the way of nothing. -/
theorem placeOf_congr (hcwd : w'.cwd = w.cwd) (hsrc : w'.srcDir = w.srcDir)
    (hdir : ∀ loc, w'.disk.isDir loc = w.disk.isDir loc ∨ ∃ a, loc = w.srcDir.val ++ [a])
    (c : ClientId) (f : Text) : placeOf w' c f = placeOf w c f := by
  unfold placeOf filePath clientFolder
  rw [hcwd, hsrc]
  by_cases hhome : w.cwd = w.srcDir
  · rw [hhome, ite_self, ite_self]
  · rcases hdir (w.cwd.val ++ [clientDirectory c]) with h | ⟨a, h⟩
    · rw [h]
    · exact absurd (Subtype.ext (List.append_inj' h rfl).1) hhome

theorem clientsDir_place {dir : Text} (h : clientsDir env w c = some (dir, w')) (f : Text) :
    joinPath dir f = placeOf w c f := by
  rcases clientsDir_eq_some env h with ⟨hd, rfl, -⟩ | ⟨hd, -, rfl, -⟩
  · rw [placeOf, if_pos hd, filePath]
  · rw [placeOf, if_neg (by simp [hd])]

theorem clientsDir_isDir {dir : Text} (h : clientsDir env w c = some (dir, w')) (loc : Loc) :
    w'.disk.isDir loc = w.disk.isDir loc ∨ ∃ a, loc = w.srcDir.val ++ [a] := by
  rcases clientsDir_eq_some env h with ⟨-, -, rfl⟩ | ⟨-, -, -, disk, hmade, rfl⟩
  · exact .inl rfl
  · obtain ⟨-, -, hnode⟩ := Tree.mkdir_eq_some hmade
    by_cases hloc : loc = w.srcDir.val ++ [clientDirectory c]
    · exact .inr ⟨_, hloc⟩
    · exact .inl (by rw [Tree.isDir, Tree.isDir, hnode, Function.update_of_ne hloc])

theorem SameStore.consistent (hsame : SameStore w w') (h : Consistent w) : Consistent w' where
  placed path file hget := by
    rw [hsame.fileDict] at hget
    rw [placeOf_congr hsame.cwd hsame.srcDir (fun loc => .inl (by rw [hsame.disk]))]
    exact h.placed path file hget
  flags path file hget := by
    rw [hsame.fileDict] at hget
    rw [hsame.files]
    exact h.flags path file hget

/-- One entry is replaced, with its own rows: the step of both an upload and an approval. -/
theorem consistent_store (file : File) (h : Consistent w)
    (hdict : w'.fileDict = w.fileDict.store file)
    (hplaces : ∀ c f, placeOf w' c f = placeOf w c f)
    (hplace : file.fullPath = placeOf w file.clientId file.filename)
    (hrow : ∃ row ∈ w'.db.files, row.id = file.clientId ∧ row.fileName = file.filename ∧
      row.varified = file.verified)
    (hothers : ∀ row ∈ w.db.files, ¬(row.id = file.clientId ∧ row.fileName = file.filename) →
      row ∈ w'.db.files) : Consistent w' where
  placed path stored hget := by
    rw [hplaces]
    rw [hdict, FileDict.store_get] at hget
    split at hget
    · next hp =>
      cases hget
      rw [hp, hplace]
    · exact h.placed path stored hget
  flags path stored hget := by
    rw [hdict, FileDict.store_get] at hget
    split at hget
    · cases hget
      exact hrow
    · next hp =>
      obtain ⟨row, hmem, hid, hname, hflag⟩ := h.flags path stored hget
      refine ⟨row, hothers row hmem ?_, hid, hname, hflag⟩
      -- two entries of one file would stand in one place
      rintro ⟨hid', hname'⟩
      apply hp
      rw [h.placed path stored hget, hplace, ← hid, ← hname, hid', hname']

theorem mem_setVarified {db : Tables} {row : FileRow} (h : row ∈ db.files)
    (hne : ¬(row.id = c ∧ row.fileName = f)) (varified : Bool) :
    row ∈ (db.setVarified c f varified).files := by
  refine List.mem_map.mpr ⟨row, h, if_neg ?_⟩
  simpa [and_comm] using hne

theorem storeFileinDB_consistent {t : Turn} {content : Option Bytes}
    (hwhole : StoresWhole crypto env t c f content) (h : Consistent t.world) :
    Consistent ((storeFileinDB crypto env c f content).run t).2.world := by
  cases hdir : clientsDir env t.world c with
  | none =>
    rw [storeFileinDB_noDir crypto env content hdir]
    exact h
  | some dw =>
    obtain ⟨dir, v⟩ := dw
    obtain ⟨u, hrun, hu, hrows⟩ := storeFileinDB_stores crypto f content hdir
    rw [hrun]
    have hplaces : ∀ c f, placeOf u.world c f = placeOf t.world c f :=
      placeOf_congr hu.cwd hu.srcDir fun loc => by
        rw [hu.isDir]
        exact clientsDir_isDir hdir loc
    by_cases hc : StoreCommits env t c f content
    · rw [if_pos hc] at hrows
      refine consistent_store _ h hu.fileDict hplaces (clientsDir_place hdir f) ?_ ?_
      · rw [hrows]
        exact storedRows_row t _
      · intro row hmem hne
        rw [hrows]
        unfold storedRows
        split
        · exact mem_setVarified hmem hne false
        · exact List.mem_append_left _ hmem
    · rw [if_neg hc] at hrows
      have hkept := (hwhole dir v hdir).resolve_left hc
      have hdict : u.world.fileDict = t.world.fileDict := by
        rw [hu.fileDict, store_self_iff]
        exact hkept
      constructor
      · intro path file hget
        rw [hdict] at hget
        rw [hplaces]
        exact h.placed path file hget
      · intro path file hget
        rw [hdict] at hget
        rw [hrows]
        exact h.flags path file hget

theorem sendFile_consistent {q : RequestToSendFile} (hwhole : Whole crypto env w (.sendFile q))
    (h : Consistent w) : Consistent ((sendFile crypto env q).run (Turn.start w env)).2.world := by
  by_cases hk : Known (Turn.start w env) q.header.clientID
  · by_cases h₁ : env.sql 1 = .done
    · obtain ⟨row, hrow⟩ := hasClient_iff.mp hk.2
      have hstore := storeFileinDB_consistent (hwhole hk h₁) h
      obtain ⟨file, u, hrun, -⟩ := storeFileinDB_effect crypto env (storeTurn env w)
        q.header.clientID q.fileName (uploadedContent crypto w q)
      have hplain : decrypt crypto q.fileContent row.aesKey q.contentSize =
          uploadedContent crypto w q := decrypt_eq crypto hrow
      rw [sendFile_stored crypto env (u := u) hk h₁ hrow (by rw [hplain]; exact hrun), write_world]
      rwa [hrun] at hstore
    · obtain ⟨e, hrun⟩ := sendFile_noKey crypto env hk h₁
      rw [hrun]
      exact h
  · rw [sendFile_unknown crypto env hk, refuse_world]
    exact h

theorem verified_files {file : File} :
    (verifiedWorld env file c true (Turn.start w env).pop).db.files =
      if env.sql 3 = .done then (w.db.setVarified file.clientId file.filename true).files
      else w.db.files := by
  have hsql : (Turn.start w env).pop.sql 2 = env.sql 3 := rfl
  simp only [verifiedWorld, hsql]
  split
  · dsimp only [Tables.setVarified]
    rw [afterTouch_files]
    rfl
  · rw [afterTouch_files]
    rfl

theorem verified_row {path : Text} {file : File} (h : Consistent w)
    (hget : w.fileDict.get path = some file)
    (hmarked : env.sql 3 = .done ∨ w.db.isVarified file.clientId file.filename = true) :
    ∃ row ∈ (verifiedWorld env file c true (Turn.start w env).pop).db.files,
      row.id = file.clientId ∧ row.fileName = file.filename ∧ row.varified = true := by
  rw [verified_files]
  by_cases h₃ : env.sql 3 = .done
  · obtain ⟨row, hmem, hid, hname, -⟩ := h.flags path file hget
    rw [if_pos h₃]
    refine ⟨_, List.mem_map_of_mem hmem, ?_⟩
    simp [hid, hname]
  · have hvarified := hmarked.resolve_left h₃
    rw [if_neg h₃]
    simpa [Tables.isVarified, and_assoc] using hvarified

theorem crcValid_consistent {q : CrcStatusRequest} (hwhole : Whole crypto env w (.crcValid q))
    (h : Consistent w) : Consistent ((crcValid env q).run (Turn.start w env)).2.world := by
  by_cases hsaves : Saves env w q
  · obtain ⟨file, hfile⟩ := Option.isSome_iff_exists.mp hsaves.2.2
    obtain ⟨u, hrun, hworld, -⟩ := crcValid_saves env hsaves hfile
    obtain ⟨-, hget, -⟩ := getFileInstance_keyed hfile
    have hafter : ((crcValid env q).run (Turn.start w env)).2.world = u.world := by
      rw [hrun]
      split
      · exact refuse_world env u
      · exact write_world env _ u
    rw [hafter, hworld]
    have hplace := h.placed _ _ hget
    have hrow := verified_row (c := q.clientID) h hget (hwhole hsaves file hfile)
    refine consistent_store { file with verified := true } h ?_ ?_ hplace hrow ?_
    · simp [verifiedWorld, World.store]
    · refine placeOf_congr ?_ ?_ fun loc => .inl ?_
      · simp [verifiedWorld, World.store]
      · simp [verifiedWorld, World.store]
      · exact saved_isDir env w.disk file.fullPath file.content loc
    · intro row hmem hne
      rw [verified_files]
      split
      · exact mem_setVarified hmem hne true
      · exact hmem
  · obtain ⟨u, hrun, hu, -⟩ := crcValid_refused env hsaves
    rw [hrun, refuse_world]
    exact SameStore.consistent ⟨hu.fileDict, hu.files, hu.disk, hu.cwd, hu.srcDir⟩ h

theorem sameStore_refl (w : World) : SameStore w w := ⟨rfl, rfl, rfl, rfl, rfl⟩

theorem registration_sameStore (q : RegistrationRequest) :
    SameStore w ((registration env q).run (Turn.start w env)).2.world := by
  by_cases hopen : Registrable (Turn.start w env) q.name
  · rw [registration_stored env hopen]
    split
    · exact sameStore_refl w
    · split
      · rw [refuse_world]
        exact sameStore_refl w
      · next db hinsert =>
        rw [write_world]
        have hfiles : db.files = w.db.files := by
          split at hinsert
          · unfold insertClient at hinsert
            split at hinsert
            · cases hinsert
              rfl
            · cases hinsert
          · cases hinsert
        exact ⟨rfl, hfiles, rfl, rfl, rfl⟩
  · rw [registration_refused env hopen, refuse_world]
    split <;> exact sameStore_refl w

theorem publicKey_sameStore (q : PublicKeyRequest) :
    SameStore w ((publicKey crypto env q).run (Turn.start w env)).2.world := by
  have hseen : SameStore w
      (afterTouch env (.id q.header.clientID) (Turn.start w env).pop).world := by
    constructor <;> simp
  have hkeyed : SameStore w (keyedTurn env q (Turn.start w env)).world := by
    constructor <;> simp [keyedTurn]
  have hsession : SameStore w (sessionTurn env q (Turn.start w env)).world := by
    constructor <;> simp [sessionTurn, keyedTurn]
  by_cases hk : Known (Turn.start w env) q.header.clientID
  · by_cases h₂ : env.sql 2 = .done
    · rw [publicKey_set crypto env hk h₂]
      split
      · exact hkeyed
      · split
        · exact hkeyed
        · cases encryptAesKeyWithRsaPublic crypto env env.aesKey.val q.publicKey.val with
          | none => exact hsession
          | some key =>
            dsimp only
            rw [write_world]
            exact hsession
    · rw [publicKey_unset crypto env hk h₂]
      dsimp only
      split
      · exact hseen
      · rw [refuse_world]
        exact hseen
  · rw [publicKey_unknown crypto env hk, refuse_world]
    exact sameStore_refl w

theorem handle_consistent {q : Request} (hwhole : Whole crypto env w q) (h : Consistent w) :
    Consistent ((handle crypto env q).run (Turn.start w env)).2.world := by
  cases q with
  | registration q => exact (registration_sameStore q).consistent h
  | publicKey q => exact (publicKey_sameStore q).consistent h
  | sendFile q => exact sendFile_consistent hwhole h
  | crcValid q => exact crcValid_consistent hwhole h
  | crcResend q =>
    rw [handle, crcResend_world]
    exact h
  | crcAbort q =>
    rw [handle, crcAbort_run]
    exact h

theorem step_consistent {s s' : System} {e : Event} (hstep : WholeStep crypto s e s')
    (h : Consistent s.world) : Consistent s'.world := by
  obtain ⟨hstep, hwhole⟩ := hstep
  cases e with
  | accept =>
    obtain ⟨-, rfl⟩ := step_accept hstep
    exact h
  | start =>
    obtain ⟨c, -, -, rfl⟩ := step_start hstep
    exact h
  | recv c r env =>
    obtain ⟨conn, hc, hawaits, rfl⟩ := step_recv hstep
    have hserved : s.served crypto c r env =
        some (readStep crypto env s.world conn.control r) := by
      simp only [System.served, hc, if_pos hawaits]
    rw [finish_world]
    have hhandled := @readStep_handled_iff crypto env s.world conn.control hawaits r
    rw [readStep_eq_react crypto env s.world hawaits] at hhandled hserved ⊢
    cases hr : received conn.control r with
    | parsed q =>
      rw [hr] at hserved hhandled
      rw [react, (settle_world env s.world _ _).1]
      exact handle_consistent (hwhole c r env rfl _ q hserved (hhandled.mpr rfl)) h
    | malformed refused =>
      rw [react, (settle_world env s.world _ _).1]
      split
      · rw [refuse_world]
        exact h
      · exact h
    | partly p => exact h
    | endOfStream => exact h
    | failure => exact h

theorem run_consistent {db : Tables} {disk : Disk} {cwd srcDir : Folder} {es : List Event}
    {s : System} (h : Run (WholeStep crypto) (.initial (.boot db disk cwd srcDir)) es s) :
    Consistent s.world := by
  refine Run.invariant (I := fun s => Consistent s.world) h ?_ fun hI hs => step_consistent hs hI
  constructor
  · intro path file hget
    cases hget
  · intro path file hget
    cases hget

/-- Main theorem: exactly which calls store all or nothing, and that the flags in memory are
those of the rows as long as uploads and approvals are carried out as a whole. -/
theorem store_atomic (crypto : PyCrypto) :
    (∀ (env : Env) (t : Turn) (clientId : ClientId) (fileName : Text) (content : Option Bytes),
      AllOrNothing crypto env t clientId fileName content ↔
        StoresWhole crypto env t clientId fileName content) ∧
    ∀ (db : Tables) (disk : Disk) (cwd srcDir : Folder) (es : List Event) (s : System),
      Run (WholeStep crypto) (.initial (.boot db disk cwd srcDir)) es s →
        FlagsAgree s.world := by
  constructor
  · intro env t clientId fileName content
    exact allOrNothing_iff
  · intro db disk cwd srcDir es s h
    exact (run_consistent h).flags

def commits (env : Env) (w : World) : Request → Bool
  | .sendFile q => StoreCommits env (storeTurn env w) q.header.clientID q.fileName
      (uploadedContent .trivial w q)
  | .crcValid _ => env.sql 3 = .done
  | _ => true

theorem whole_of_commits {env : Env} {w : World} {q : Request} (h : commits env w q = true) :
    Whole .trivial env w q := by
  cases q with
  | sendFile q => exact fun _ _ _ _ _ => .inl (of_decide_eq_true h)
  | crcValid q => exact fun _ _ _ => .inl (of_decide_eq_true h)
  | registration q => trivial
  | publicKey q => trivial
  | crcResend q => trivial
  | crcAbort q => trivial

def commitsEvent (s : System) : Event → Bool
  | .recv c r env => ((s.served .trivial c r env).bind (·.handled)).all (commits env s.world)
  | _ => true

theorem wholeStep_of_commits {s s' : System} {e : Event} (h : s.next .trivial e = some s')
    (hwhole : commitsEvent s e = true) : WholeStep .trivial s e s' := by
  refine ⟨h, ?_⟩
  rintro c r env rfl out q hserved hhandled
  rw [commitsEvent, hserved, Option.bind_some, hhandled] at hwhole
  exact whole_of_commits hwhole

theorem store_atomic_approved : ∃ s : System,
    Run (WholeStep .trivial) (.initial .withClient) (.accept :: .start ::
      [DurableFiles.upload (.replicate 16 5), DurableFiles.approval].map fun data =>
        .recv 0 (.chunk data) .undisturbed) s ∧
    s.world.db.files.map (·.varified) = [true] ∧ FlagsAgree s.world := by
  have hfacts : ((.accept :: .start ::
      [DurableFiles.upload (.replicate 16 5), DurableFiles.approval].map fun data =>
        .recv 0 (.chunk data) .undisturbed : List Event).foldlM
          (guarded (fun s e => commitsEvent s e = true) (System.next .trivial))
          (.initial .withClient)).map (fun s => s.world.db.files.map (·.varified)) =
      some [true] := by
    decide +kernel
  obtain ⟨s, hs, hrows⟩ := Option.map_eq_some_iff.mp hfacts
  have hrun := (Run.of_guarded hs).mono fun ⟨hnext, hwhole⟩ => wholeStep_of_commits hnext hwhole
  exact ⟨s, hrun, hrows, (store_atomic .trivial).2 _ .empty .root .root _ s hrun⟩

def replacingChunks : List Bytes :=
  [DurableFiles.upload (.replicate 16 5), DurableFiles.approval, DurableFiles.upload [0]]

/-- An upload that cannot be decrypted is not stored, and takes the place of the approved file
in memory. -/
theorem not_store_atomic :
    (¬∀ (crypto : PyCrypto) (env : Env) (t : Turn) (clientId : ClientId) (fileName : Text)
      (content : Option Bytes), AllOrNothing crypto env t clientId fileName content) ∧
    ¬∀ (crypto : PyCrypto) (db : Tables) (disk : Disk) (cwd srcDir : Folder) (es : List Event)
      (s : System), Run (Step crypto) (.initial (.boot db disk cwd srcDir)) es s →
        FlagsAgree s.world := by
  constructor
  · intro h
    have hcall := h .trivial .undisturbed (Turn.start .withClient .undisturbed) sampleId [0x78] none
    have hlost : ((storeFileinDB .trivial .undisturbed sampleId [0x78] none).run
        (Turn.start .withClient .undisturbed)).2.world.fileDict.get
          (filePath .withClient sampleId [0x78]) ≠ none := by
      decide +kernel
    have hnone : ((storeFileinDB .trivial .undisturbed sampleId [0x78] none).run
        (Turn.start .withClient .undisturbed)).1 = .value none := by
      decide +kernel
    unfold AllOrNothing at hcall
    dsimp only at hcall
    rw [hnone] at hcall
    rw [hcall.1] at hlost
    exact hlost rfl
  · intro h
    have hsome : (System.exchange .trivial .withClient replacingChunks).isSome = true := by
      decide +kernel
    obtain ⟨s, hs⟩ := Option.isSome_iff_exists.mp hsome
    have hentry : ((System.exchange .trivial .withClient replacingChunks).bind fun s =>
        (s.world.fileDict.get (filePath .withClient sampleId [0x78])).map (·.verified)) =
          some false := by
      decide +kernel
    have hrows : (System.exchange .trivial .withClient replacingChunks).map
        (·.world.db.files.map (·.varified)) = some [true] := by
      decide +kernel
    rw [hs, Option.bind_some] at hentry
    rw [hs, Option.map_some, Option.some.injEq] at hrows
    obtain ⟨file, hfile, hflag⟩ := Option.map_eq_some_iff.mp hentry
    obtain ⟨row, hmem, -, -, hagree⟩ := h .trivial _ .empty .root .root _ s (Run.of_foldlM hs) _ _
      hfile
    have hvarified : row.varified ∈ s.world.db.files.map (·.varified) := List.mem_map_of_mem hmem
    rw [hrows, List.mem_singleton, hagree, hflag] at hvarified
    cases hvarified

end Runs

end StoreAtomicity
