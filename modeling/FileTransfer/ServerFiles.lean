import FileTransfer.ServerState

/-! # Files of the clients

`file_handler.py`: the directory of a client, the dictionary of uploaded files keyed by
their full path, and saving to disk. -/
namespace ServerFiles

open ByteField PathWalk ServerProtocol ServerState RaisingProgram

variable (crypto : PyCrypto) (env : Env)

def clientDirectory (clientId : ClientId) : Bytes := hexOf clientId.val

def clientFolder (world : World) (clientId : ClientId) : Loc :=
  world.cwd.val ++ [clientDirectory clientId]

/-- `File.getClientsDir`: looked for in the working directory, created next to the sources. -/
def getClientsDir (clientId : ClientId) : ServerM (Option Text) := do
  let world := (← Prog.read).world
  let directory := clientDirectory clientId
  if world.disk.isDir (clientFolder world clientId) then
    return some (render (clientFolder world clientId))
  else
    match if env.mkdirOk then world.disk.mkdir world.srcDir.val directory else none with
    | some disk =>
      modifyWorld fun w => { w with disk }
      return some (joinPath (render world.srcDir.val) directory)
    | none => return none

/-- `File.__init__`. `none` is the object left by the except branch, which has no `full_path`:
joining a name to the path `None` raises. -/
def newFileObject (clientId : ClientId) (fileName : Text) (fileContent : Option Bytes) :
    ServerM (Option File) := do
  match ← getClientsDir env clientId with
  | none => return none
  | some parentPath =>
    return some {
      clientId, filename := fileName, parentPath
      fullPath := joinPath parentPath fileName
      crc := 0xFFFFFF, verified := false, content := fileContent }

def storeEntry (file : File) : ServerM Unit :=
  modifyWorld fun w => { w with fileDict := w.fileDict.store file }

/-- `FileHandler.digestCrc` on the entry just stored, which is the same object as `file`. -/
def digestCrc (file : File) : ServerM File :=
  match file.content with
  | none => Prog.raise .typeError
  | some fileData => do
    let file := { file with crc := crypto.crc32 fileData }
    storeEntry file
    return file

def newFile (clientId : ClientId) (fileName : Text) (fileContent : Option Bytes) :
    ServerM File := do
  match ← newFileObject env clientId fileName fileContent with
  | none => Prog.raise .attributeError
  | some file =>
    storeEntry file
    digestCrc crypto file

/-- The bytes in the file after `open` truncated it and `write` ran, and whether `write`
returned. -/
def writtenBytes (content : Option Bytes) : Bytes × Bool :=
  match content, env.writeCut with
  | none, _ => ([], false)
  | some content, some cut => (content.take cut, false)
  | some content, none => (content, true)

def saveFile (file : File) : ServerM Bool := do
  Prog.modify fun t => { t with opened := t.opened ++ [file.fullPath] }
  let disk := (← Prog.read).world.disk
  match if env.openOk then openTarget disk file.fullPath else none with
  | none => return false
  | some (dir, name) =>
    match disk.write dir name (writtenBytes env file.content).1 with
    | none => return false
    | some disk =>
      modifyWorld fun w => { w with disk }
      return (writtenBytes env file.content).2

/-- `FileHandler.verified`. The result of `saveFile` is dropped. -/
def setVerified (file : Option File) (verified : Bool) : ServerM (Option File) := do
  match file with
  | none => return none
  | some file =>
    match (← Prog.read).world.fileDict.get file.fullPath with
    | none => return none
    | some entry =>
      let entry := { entry with verified }
      storeEntry entry
      if verified then
        let _ ← saveFile env entry
        return some entry
      else return some entry

def filePath (world : World) (clientId : ClientId) (fileName : Text) : Text :=
  joinPath (render (clientFolder world clientId)) fileName

def getFileInstance (world : World) (clientId : ClientId) (fileName : Text) : Option File :=
  if world.disk.isDir (clientFolder world clientId) then
    world.fileDict.get (filePath world clientId fileName)
  else none

theorem clientDirectory_plain (clientId : ClientId) : Plain (clientDirectory clientId) := by
  refine ⟨?_, fun h => (hexOf_plain h).1 rfl, ?_, ?_⟩
  all_goals
    intro h
    have hl := congrArg List.length h
    simp [clientDirectory, clientId.property, clientIdSize] at hl

theorem clientDirectory_injective {c c' : ClientId} (h : clientDirectory c = clientDirectory c') :
    c = c' := Subtype.ext (hexOf_injective h)

theorem clientFolder_plain (w : World) (clientId : ClientId) :
    ∀ name ∈ clientFolder w clientId, Plain name := by
  intro name h
  rcases List.mem_append.mp h with h | h
  · exact w.cwd.property name h
  · rw [List.mem_singleton.mp h]
    exact clientDirectory_plain clientId

theorem clientFolder_ne_nil (w : World) (clientId : ClientId) : clientFolder w clientId ≠ [] := by
  simp [clientFolder]

theorem filePath_plain (w : World) (clientId : ClientId) {fileName : Text} (h : Plain fileName) :
    filePath w clientId fileName = render (clientFolder w clientId ++ [fileName]) :=
  joinPath_render (clientFolder_plain w clientId) h

theorem filePath_injective (w : World) {c c' : ClientId} {f f' : Text} (hf : Plain f)
    (hf' : Plain f') (h : filePath w c f = filePath w c' f') : c = c' ∧ f = f' := by
  have hplain : ∀ {c : ClientId} {f : Text}, Plain f → ∀ name ∈ clientFolder w c ++ [f],
      Plain name := by
    intro c f hf name hname
    rcases List.mem_append.mp hname with hname | hname
    · exact clientFolder_plain w c name hname
    · rw [List.mem_singleton.mp hname]
      exact hf
  rw [filePath_plain w c hf, filePath_plain w c' hf'] at h
  obtain ⟨hfolder, hname⟩ := List.append_inj' (render_injective (hplain hf) (hplain hf') h) rfl
  refine ⟨clientDirectory_injective ?_, List.singleton_inj.mp hname⟩
  exact List.singleton_inj.mp (List.append_cancel_left hfolder)

section Runs

variable {clientId : ClientId} {fileName : Text} {t : Turn} {dir : Text} {w : World}

def clientsDir (w : World) (clientId : ClientId) : Option (Text × World) :=
  if w.disk.isDir (clientFolder w clientId) then some (render (clientFolder w clientId), w)
  else
    (if env.mkdirOk then w.disk.mkdir w.srcDir.val (clientDirectory clientId) else none).map
      fun disk => (joinPath (render w.srcDir.val) (clientDirectory clientId), { w with disk })

theorem getClientsDir_run (clientId : ClientId) (t : Turn) :
    (getClientsDir env clientId).run t = match clientsDir env t.world clientId with
      | some (dir, w) => (.value (some dir), t.inWorld w)
      | none => (.value none, t) := by
  simp only [getClientsDir, Prog.run_bind, Prog.run_read, clientsDir]
  split
  · rfl
  · generalize (if env.mkdirOk = true then
      t.world.disk.mkdir t.world.srcDir.val (clientDirectory clientId) else none) = made
    cases made <;> rfl

theorem clientsDir_eq_some {w₀ : World} (h : clientsDir env w₀ clientId = some (dir, w)) :
    (w₀.disk.isDir (clientFolder w₀ clientId) = true ∧
        dir = render (clientFolder w₀ clientId) ∧ w = w₀) ∨
      w₀.disk.isDir (clientFolder w₀ clientId) = false ∧ env.mkdirOk = true ∧
        dir = render (w₀.srcDir.val ++ [clientDirectory clientId]) ∧
        ∃ disk, w₀.disk.mkdir w₀.srcDir.val (clientDirectory clientId) = some disk ∧
          w = { w₀ with disk } := by
  unfold clientsDir at h
  split at h
  · next hd =>
    cases h
    exact .inl ⟨hd, rfl, rfl⟩
  · next hd =>
    obtain ⟨disk, hmade, heq⟩ := Option.map_eq_some_iff.mp h
    split at hmade
    · next hok =>
      cases heq
      refine .inr ⟨by simpa using hd, hok, ?_, disk, hmade, rfl⟩
      exact joinPath_render w₀.srcDir.property (clientDirectory_plain clientId)
    · cases hmade

/-- The directory that the lookups use is there, or the upload makes it. -/
def DirReady (w : World) (clientId : ClientId) : Prop :=
  w.disk.isDir (clientFolder w clientId) = true ∨
    w.cwd = w.srcDir ∧ env.mkdirOk = true ∧ w.disk.isDir w.srcDir.val = true ∧
      w.disk.node (clientFolder w clientId) = none

instance (w : World) (clientId : ClientId) : Decidable (DirReady env w clientId) :=
  inferInstanceAs (Decidable (_ ∨ _ ∧ _ ∧ _ ∧ _))

theorem clientsDir_of_isDir (h : w.disk.isDir (clientFolder w clientId) = true) :
    clientsDir env w clientId = some (render (clientFolder w clientId), w) := if_pos h

theorem clientsDir_of_ready (h : DirReady env w clientId) : ∃ disk,
    clientsDir env w clientId = some (render (clientFolder w clientId), { w with disk }) ∧
      disk.isDir (clientFolder w clientId) = true ∧
      ∀ loc, loc ≠ clientFolder w clientId → disk.node loc = w.disk.node loc := by
  rcases h with h | ⟨hcwd, hok, hsrc, hfree⟩
  · exact ⟨w.disk, clientsDir_of_isDir env h, h, fun _ _ => rfl⟩
  · have hfolder : w.srcDir.val ++ [clientDirectory clientId] = clientFolder w clientId := by
      rw [clientFolder, hcwd]
    obtain ⟨disk, hmade⟩ := Tree.mkdir_of_free hsrc (a := clientDirectory clientId)
      (by rw [hfolder]; exact hfree)
    obtain ⟨-, -, hnode⟩ := Tree.mkdir_eq_some hmade
    have hnot : ¬w.disk.isDir (clientFolder w clientId) = true := by
      simp [Tree.isDir, hfree]
    rw [hfolder] at hnode
    refine ⟨disk, ?_, ?_, ?_⟩
    · rw [clientsDir, if_neg hnot, if_pos hok, hmade, Option.map_some,
        joinPath_render w.srcDir.property (clientDirectory_plain clientId), hfolder]
    · rw [Tree.isDir_iff, hnode, Function.update_self]
    · intro loc hloc
      rw [hnode, Function.update_of_ne hloc]

theorem isDir_of_not_ready {w₀ : World} (h : ¬DirReady env w₀ clientId)
    (hdir : clientsDir env w₀ clientId = some (dir, w)) :
    w.disk.isDir (clientFolder w clientId) = false := by
  rcases clientsDir_eq_some env hdir with ⟨hd, -, -⟩ | ⟨hd, hok, -, disk, hmade, rfl⟩
  · exact absurd (.inl hd) h
  · obtain ⟨hsrc, hfree, hnode⟩ := Tree.mkdir_eq_some hmade
    have hne : clientFolder w₀ clientId ≠ w₀.srcDir.val ++ [clientDirectory clientId] := by
      intro heq
      have hcwd : w₀.cwd = w₀.srcDir := Subtype.ext (List.append_cancel_right heq)
      exact h (.inr ⟨hcwd, hok, hsrc, by rw [heq, hfree]⟩)
    have hfolder : clientFolder { w₀ with disk := disk } clientId = clientFolder w₀ clientId := rfl
    rw [hfolder]
    unfold Tree.isDir at hd ⊢
    rwa [hnode, Function.update_of_ne hne]

theorem clientsDir_disk {w₀ : World} (h : clientsDir env w₀ clientId = some (dir, w)) (loc : Loc) :
    w.disk.node loc = w₀.disk.node loc ∨
      w₀.disk.node loc = none ∧ w.disk.node loc = some .dir := by
  rcases clientsDir_eq_some env h with ⟨-, -, rfl⟩ | ⟨-, -, -, disk, hmade, rfl⟩
  · exact .inl rfl
  · obtain ⟨-, hfree, hnode⟩ := Tree.mkdir_eq_some hmade
    by_cases hloc : loc = w₀.srcDir.val ++ [clientDirectory clientId]
    · exact .inr ⟨by rw [hloc, hfree], by rw [hloc, hnode, Function.update_self]⟩
    · exact .inl (by rw [hnode, Function.update_of_ne hloc])

theorem clientsDir_world {w₀ : World} (h : clientsDir env w₀ clientId = some (dir, w)) :
    w.db = w₀.db ∧ w.fileDict = w₀.fileDict := by
  rcases clientsDir_eq_some env h with ⟨-, -, rfl⟩ | ⟨-, -, -, disk, -, rfl⟩ <;> exact ⟨rfl, rfl⟩

/-- A directory made where the lookups do not see it is in the way of the second attempt. -/
theorem clientsDir_again {w₀ : World} (h : ¬DirReady env w₀ clientId)
    (hdir : clientsDir env w₀ clientId = some (dir, w)) (dict : FileDict) :
    clientsDir env { w with fileDict := dict } clientId = none := by
  have hnot := isDir_of_not_ready env h hdir
  rcases clientsDir_eq_some env hdir with ⟨hd, -, -⟩ | ⟨-, hok, -, disk, hmade, rfl⟩
  · exact absurd (.inl hd) h
  · obtain ⟨-, -, hnode⟩ := Tree.mkdir_eq_some hmade
    have htaken : disk.mkdir w₀.srcDir.val (clientDirectory clientId) = none := by
      apply Tree.mkdir_of_taken
      rw [hnode, Function.update_self]
      simp
    have hnot' : ¬disk.isDir (clientFolder { w₀ with disk := disk, fileDict := dict } clientId) =
        true := Bool.not_eq_true _ ▸ hnot
    rw [clientsDir, if_neg hnot']
    dsimp only
    rw [htaken]
    simp

def uploaded (clientId : ClientId) (fileName : Text) (dir : Text) (content : Option Bytes)
    (crc : ℕ) : File where
  clientId := clientId
  filename := fileName
  parentPath := dir
  fullPath := joinPath dir fileName
  crc := crc
  verified := false
  content := content

def World.store (w : World) (file : File) : World := { w with fileDict := w.fileDict.store file }

theorem newFile_noDir (fileName : Text) (content : Option Bytes)
    (h : clientsDir env t.world clientId = none) :
    (newFile crypto env clientId fileName content).run t = (.raised .attributeError, t) := by
  simp only [newFile, newFileObject, Prog.run_bind, getClientsDir_run, h, Prog.run_pure,
    Prog.run_raise]

theorem newFile_noContent (fileName : Text) (h : clientsDir env t.world clientId = some (dir, w)) :
    (newFile crypto env clientId fileName none).run t =
      (.raised .typeError,
        t.inWorld (World.store w (uploaded clientId fileName dir none 0xFFFFFF))) := by
  simp only [newFile, newFileObject, Prog.run_bind, getClientsDir_run, h, Prog.run_pure]
  rfl

theorem newFile_content (fileName : Text) (content : Bytes)
    (h : clientsDir env t.world clientId = some (dir, w)) :
    (newFile crypto env clientId fileName (some content)).run t =
      (.value (uploaded clientId fileName dir (some content) (crypto.crc32 content)),
        t.inWorld (World.store w
          (uploaded clientId fileName dir (some content) (crypto.crc32 content)))) := by
  simp only [newFile, newFileObject, Prog.run_bind, getClientsDir_run, h, Prog.run_pure,
    storeEntry, modifyWorld, Prog.run_modify, digestCrc]
  congr 2
  simp only [World.store, Turn.inWorld, World.mk.injEq, and_true, true_and]
  exact FileDict.store_store _ rfl

def saved (disk : Disk) (path : Text) (content : Option Bytes) : Disk × Bool :=
  match if env.openOk then openTarget disk path else none with
  | none => (disk, false)
  | some (dir, name) =>
    match disk.write dir name (writtenBytes env content).1 with
    | none => (disk, false)
    | some disk => (disk, (writtenBytes env content).2)

theorem saveFile_run (file : File) (t : Turn) :
    (saveFile env file).run t =
      (.value (saved env t.world.disk file.fullPath file.content).2,
        { t.inWorld { t.world with disk := (saved env t.world.disk file.fullPath file.content).1 }
          with opened := t.opened ++ [file.fullPath] }) := by
  simp only [saveFile, saved, Prog.run_bind, Prog.run_modify, Prog.run_read]
  generalize (if env.openOk = true then openTarget t.world.disk file.fullPath else none) = target
  rcases target with _ | ⟨dir, name⟩
  · rfl
  · dsimp only
    generalize t.world.disk.write dir name (writtenBytes env file.content).1 = disk
    cases disk <;> rfl

theorem saved_isDir (disk : Disk) (path : Text) (content : Option Bytes) (loc : Loc) :
    (saved env disk path content).1.isDir loc = disk.isDir loc := by
  unfold saved
  split
  · rfl
  · next dir name _ =>
    split
    · rfl
    · next disk' hwrite =>
      obtain ⟨-, hnot, hnode⟩ := Tree.write_eq_some hwrite
      by_cases hloc : loc = dir ++ [name]
      · rw [hloc, hnot]
        simp [Tree.isDir, hnode]
      · unfold Tree.isDir
        rw [hnode, Function.update_of_ne hloc]

def Opens (disk : Disk) (path : Text) (loc : Loc) : Prop :=
  env.openOk = true ∧ ∃ dir name, openTarget disk path = some (dir, name) ∧
    disk.isDir (dir ++ [name]) = false ∧ loc = dir ++ [name]

def Writable (disk : Disk) (path : Text) (content : Option Bytes) : Prop :=
  (∃ loc, Opens env disk path loc) ∧ env.writeCut = none ∧ content.isSome = true

def HoldsFile (disk : Disk) (path : Text) (bytes : Bytes) : Prop :=
  ∃ dir name, openTarget disk path = some (dir, name) ∧
    disk.node (dir ++ [name]) = some (.file bytes)

theorem saved_opens {disk : Disk} {path : Text} {loc : Loc} (content : Option Bytes)
    (h : Opens env disk path loc) :
    (saved env disk path content).2 = (writtenBytes env content).2 ∧
      (saved env disk path content).1.node =
        Function.update disk.node loc (some (.file (writtenBytes env content).1)) := by
  obtain ⟨hok, dir, name, htarget, hnot, rfl⟩ := h
  have hdir := (openTarget_eq_some htarget).2
  obtain ⟨disk', hwrite⟩ := Tree.write_of_dir (writtenBytes env content).1 hdir hnot
  rw [saved, if_pos hok, htarget]
  dsimp only
  rw [hwrite]
  exact ⟨rfl, (Tree.write_eq_some hwrite).2.2⟩

theorem saved_not_opens {disk : Disk} {path : Text} (content : Option Bytes)
    (h : ¬∃ loc, Opens env disk path loc) : saved env disk path content = (disk, false) := by
  unfold saved
  split
  · rfl
  · next dir name htarget =>
    have hok : env.openOk = true := by
      by_contra hok
      rw [if_neg hok] at htarget
      cases htarget
    rw [if_pos hok] at htarget
    split
    · rfl
    · next disk' hwrite =>
      exact absurd ⟨_, hok, dir, name, htarget, (Tree.write_eq_some hwrite).2.1, rfl⟩ h

theorem saved_node_of_not_opens {disk : Disk} {path : Text} {loc : Loc} (content : Option Bytes)
    (h : ¬Opens env disk path loc) : (saved env disk path content).1.node loc = disk.node loc := by
  by_cases hopens : ∃ loc', Opens env disk path loc'
  · obtain ⟨loc', hopens⟩ := hopens
    have hne : loc ≠ loc' := by
      rintro rfl
      exact h hopens
    rw [(saved_opens env content hopens).2, Function.update_of_ne hne]
  · rw [saved_not_opens env content hopens]

theorem writtenBytes_eq_true {content : Option Bytes} :
    (writtenBytes env content).2 = true ↔ env.writeCut = none ∧ content.isSome = true := by
  cases content <;> cases hcut : env.writeCut <;> simp [writtenBytes, hcut]

theorem saved_eq_true_iff (disk : Disk) (path : Text) (content : Option Bytes) :
    (saved env disk path content).2 = true ↔ Writable env disk path content := by
  by_cases h : ∃ loc, Opens env disk path loc
  · obtain ⟨loc, hopens⟩ := h
    rw [(saved_opens env content hopens).1, writtenBytes_eq_true]
    exact (and_iff_right ⟨loc, hopens⟩).symm
  · rw [saved_not_opens env content h]
    exact iff_of_false Bool.false_ne_true fun hw => h hw.1

theorem saved_node {disk : Disk} {path : Text} {bytes : Bytes} {loc : Loc}
    (h : Opens env disk path loc) (hcut : env.writeCut = none) :
    (saved env disk path (some bytes)).1.node =
      Function.update disk.node loc (some (.file bytes)) := by
  rw [(saved_opens env (some bytes) h).2]
  simp [writtenBytes, hcut]

theorem saved_holds {disk : Disk} {path : Text} {bytes : Bytes}
    (h : Writable env disk path (some bytes)) :
    HoldsFile (saved env disk path (some bytes)).1 path bytes := by
  obtain ⟨⟨loc, hopens⟩, hcut, -⟩ := h
  have hnode := @saved_node env _ _ bytes _ hopens hcut
  obtain ⟨-, dir, name, htarget, -, rfl⟩ := hopens
  refine ⟨dir, name, ?_, ?_⟩
  · rw [openTarget_congr (saved_isDir env disk path (some bytes)), htarget]
  · rw [hnode, Function.update_self]

theorem setVerified_some {file : File} (h : t.world.fileDict.get file.fullPath = some file)
    (verified : Bool) :
    (setVerified env (some file) verified).run t =
      (.value (some { file with verified }),
        { t.inWorld { World.store t.world { file with verified } with
            disk := if verified then (saved env t.world.disk file.fullPath file.content).1
              else t.world.disk }
          with opened := if verified then t.opened ++ [file.fullPath] else t.opened }) := by
  cases verified with
  | true =>
    simp only [setVerified, Prog.run_bind, Prog.run_read, h, storeEntry, modifyWorld,
      Prog.run_modify, if_true, saveFile_run]
    rfl
  | false =>
    simp only [setVerified, Prog.run_bind, Prog.run_read, h, storeEntry, modifyWorld,
      Prog.run_modify, Bool.false_eq_true, if_false]
    rfl

theorem getFileInstance_congr {w' : World} (hdict : w.fileDict = w'.fileDict)
    (hdisk : w.disk = w'.disk) (hcwd : w.cwd = w'.cwd) :
    getFileInstance w clientId fileName = getFileInstance w' clientId fileName := by
  have hfolder : clientFolder w clientId = clientFolder w' clientId := by
    rw [clientFolder, hcwd, clientFolder]
  rw [getFileInstance, getFileInstance, filePath, filePath, hfolder, hdict, hdisk]

theorem getFileInstance_keyed {file : File}
    (h : getFileInstance w clientId fileName = some file) :
    file.fullPath = filePath w clientId fileName ∧ w.fileDict.get file.fullPath = some file ∧
      w.disk.isDir (clientFolder w clientId) = true := by
  unfold getFileInstance at h
  split at h
  · next hd =>
    have hk := w.fileDict.keyed _ _ h
    exact ⟨hk, by rwa [hk], hd⟩
  · cases h

end Runs

end ServerFiles
