import FileTransfer.CalmTransfer
import FileTransfer.ClientNetwork

/-! # What a transfer leaves to the others

The transfer of one file changes its row, its place on the disk and the directory of its
client, and it may add a client. What belongs to another file stays as it is. -/
namespace CalmNeighbours

open ByteField PathWalk ServerProtocol ServerTables ServerState ServerFiles ServerDatabase
  ServerHandlers ServerThread StoreAtomicity ClientChannel ClientFile ClientLogic TransferAnswers
  TransferSession CalmServer CalmTransfer
open ServerEffects (ClientsEffect Effect handle_effect)
open ServerHistory (Evolves ClientGrows evolves_refl effect_grows hasClient_grows mem_clients
  seen_rows)

section Definitions

/-- What the transfer of a file of the client can change. -/
structure Beside (c : Client) (text : Text) (w w' : World) : Prop where
  clients : Evolves ClientGrows w.db.server w'.db.server
  names : ∀ row' ∈ w'.db.server, (∃ row ∈ w.db.server, row.name = row'.name) ∨
    fieldText (clientName c.name) = some row'.name
  length : w'.db.server.length ≤ w.db.server.length + 1
  files : w'.db.files.filter (·.fileName ≠ text) = w.db.files.filter (·.fileName ≠ text)
  folder : w'.disk.node (clientFolder w c.id) = w.disk.node (clientFolder w c.id) ∨
    w'.disk.isDir (clientFolder w c.id) = true
  node : ∀ loc, loc ≠ clientFolder w c.id → loc ≠ clientFolder w c.id ++ [text] →
    w'.disk.node loc = w.disk.node loc
  cwd : w'.cwd = w.cwd
  srcDir : w'.srcDir = w.srcDir

def Rests (w : World) (id : ClientId) (text : Text) (content : Bytes) : Prop :=
  w.disk.isDir (clientFolder w id) = true ∧ Delivered w id text content

end Definitions

variable {crypto : PyCrypto} {env : Env} {w w' : World} {c : Client} {text text' : Text}
  {id : ClientId}

section Rows

theorem clients_length {q : Request} {rows : List ClientRow} (h : ClientsEffect env w q rows) :
    rows.length ≤ w.db.server.length + 1 := by
  cases h with
  | seen q rows hseen =>
    obtain ⟨f, rfl, -⟩ := seen_rows hseen
    simp
  | registered q hfree => simp
  | keyed q rows hseen =>
    obtain ⟨f, rfl, -⟩ := seen_rows hseen
    simp [ServerEffects.setClient]
  | exchanged q rows hseen =>
    obtain ⟨f, rfl, -⟩ := seen_rows hseen
    simp [ServerEffects.setClient]

theorem filter_setVarified (db : Tables) (id : ClientId) (text : Text) (varified : Bool) :
    (db.setVarified id text varified).files.filter (·.fileName ≠ text) =
      db.files.filter (·.fileName ≠ text) := by
  simp only [Tables.setVarified]
  induction db.files with
  | nil => rfl
  | cons row rows ih =>
    by_cases hname : row.fileName = text
    · by_cases hid : row.id = id
      · simpa [hname, hid] using ih
      · simpa [hname, hid] using ih
    · simpa [hname] using ih

theorem any_kept {α : Type} {p q : α → Bool} {rows rows' : List α}
    (h : rows'.filter p = rows.filter p) (hq : ∀ row, q row = true → p row = true) :
    rows'.any q = rows.any q := by
  have hkept : ∀ rows : List α, (rows.filter p).any q = rows.any q := by
    intro rows
    induction rows with
    | nil => rfl
    | cons row rows ih =>
      cases hrow : p row with
      | true => simp [hrow, ih]
      | false =>
        have hnot : q row = false := by
          by_contra htrue
          have hyes := hq row (by simpa using htrue)
          rw [hrow] at hyes
          cases hyes
        simp [hrow, hnot, ih]
  rw [← hkept rows', h, hkept rows]

theorem hasFile_beside (h : Beside c text w w') (hne : text' ≠ text) :
    w'.db.hasFile id text' = w.db.hasFile id text' := by
  apply any_kept h.files
  intro row hrow
  simp only [Bool.and_eq_true, decide_eq_true_eq] at hrow
  simp [hrow.2, hne]

theorem isVarified_beside (h : Beside c text w w') (hne : text' ≠ text) :
    w'.db.isVarified id text' = w.db.isVarified id text' := by
  apply any_kept h.files
  intro row hrow
  simp only [Bool.and_eq_true, decide_eq_true_eq] at hrow
  simp [hrow.1.2, hne]

theorem fileNameTaken_beside (h : Beside c text w w') (hne : text' ≠ text) :
    w'.db.fileNameTaken text' = w.db.fileNameTaken text' := by
  apply any_kept h.files
  intro row hrow
  simp only [decide_eq_true_eq] at hrow
  simp [hrow, hne]

theorem hasName_beside {name : Text} (h : Beside c text w w')
    (hname : fieldText (clientName c.name) ≠ some name) (hfree : w.db.hasName name = false) :
    w'.db.hasName name = false := by
  by_contra htaken
  rw [Bool.not_eq_false, Tables.hasName, List.any_eq_true] at htaken
  obtain ⟨row', hrow', hsame⟩ := htaken
  obtain rfl : row'.name = name := by simpa using hsame
  rcases h.names row' hrow' with ⟨row, hrow, heq⟩ | hnew
  · have hthere : w.db.hasName row'.name = true := by
      rw [Tables.hasName, List.any_eq_true]
      exact ⟨row, hrow, by simpa using heq⟩
    rw [hfree] at hthere
    cases hthere
  · exact hname hnew

end Rows

section Places

theorem folder_beside (h : Beside c text w w') (id : ClientId) :
    clientFolder w' id = clientFolder w id := by
  rw [clientFolder, h.cwd, clientFolder]

theorem folder_ne_place (w : World) (id id' : ClientId) (text : Text) :
    clientFolder w id ≠ clientFolder w id' ++ [text] := by
  intro heq
  have hlength := congrArg List.length heq
  simp [clientFolder] at hlength

theorem place_ne {id id' : ClientId} (hne : text' ≠ text) :
    clientFolder w id ++ [text'] ≠ clientFolder w id' ++ [text] := by
  intro heq
  exact hne (List.cons.inj (List.append_inj_right' heq rfl)).1

theorem dir_beside (h : Beside c text w w') (id : ClientId) :
    w'.disk.node (clientFolder w id) = w.disk.node (clientFolder w id) ∨
      w'.disk.isDir (clientFolder w id) = true := by
  by_cases hown : clientFolder w id = clientFolder w c.id
  · rw [hown]
    exact h.folder
  · exact .inl (h.node _ hown (folder_ne_place w id c.id text))

theorem isDir_beside (h : Beside c text w w') (hdir : w.disk.isDir (clientFolder w id) = true) :
    w'.disk.isDir (clientFolder w id) = true := by
  rcases dir_beside h id with hsame | hmade
  · rwa [Tree.isDir_iff, hsame, ← Tree.isDir_iff]
  · exact hmade

theorem place_beside (h : Beside c text w w') (hne : text' ≠ text) :
    w'.disk.node (clientFolder w id ++ [text']) = w.disk.node (clientFolder w id ++ [text']) :=
  h.node _ (Ne.symm (folder_ne_place w c.id id text')) (place_ne hne)

theorem home_beside (h : Beside c text w w') :
    w'.disk.node w.cwd.val = w.disk.node w.cwd.val := by
  apply h.node
  · intro heq
    have hlength := congrArg List.length heq
    simp [clientFolder] at hlength
  · intro heq
    have hlength := congrArg List.length heq
    simp [clientFolder] at hlength

theorem room_beside (h : Beside c text w w') (hne : text' ≠ text) (hroom : Room w id text') :
    Room w' id text' := by
  refine ⟨?_, ?_, ?_⟩
  · rw [folder_beside h]
    rcases hroom.dir with hdir | ⟨hcwd, hsrc, hfree⟩
    · exact .inl (isDir_beside h hdir)
    · rcases dir_beside h id with hsame | hmade
      · refine .inr ⟨by rw [h.cwd, h.srcDir, hcwd], ?_, hsame.trans hfree⟩
        rw [h.srcDir, ← hcwd, Tree.isDir, home_beside h, hcwd]
        exact hsrc
      · exact .inl hmade
  · rw [folder_beside h, Tree.isDir, place_beside h hne]
    exact hroom.place
  · rw [hasFile_beside h hne, fileNameTaken_beside h hne]
    exact hroom.name

theorem welcome_beside (h : Beside c text w w') (hne : text' ≠ text)
    (hwelcome : Welcome w id text') : Welcome w' id text' :=
  ⟨hasClient_grows h.clients hwelcome.client, room_beside h hne hwelcome.room⟩

theorem holds_iff (htext : Plain text) (hdir : w.disk.isDir (clientFolder w id) = true)
    {content : Bytes} : HoldsFile w.disk (filePath w id text) content ↔
      w.disk.node (clientFolder w id ++ [text]) = some (.file content) := by
  have htarget : openTarget w.disk (filePath w id text) = some (clientFolder w id, text) := by
    rw [filePath_plain w id htext]
    exact openTarget_render (clientFolder_plain w id) (clientFolder_ne_nil w id) htext hdir
  constructor
  · rintro ⟨dir, name, hopens, hnode⟩
    cases htarget.symm.trans hopens
    exact hnode
  · intro hnode
    exact ⟨_, _, htarget, hnode⟩

theorem rests_beside {content : Bytes} (h : Beside c text w w') (htext : Plain text')
    (hne : text' ≠ text) (hrests : Rests w id text' content) : Rests w' id text' content := by
  obtain ⟨hdir, hholds, hrow⟩ := hrests
  have hdir' : w'.disk.isDir (clientFolder w' id) = true := by
    rw [folder_beside h]
    exact isDir_beside h hdir
  refine ⟨hdir', (holds_iff htext hdir').mpr ?_, ?_⟩
  · rw [folder_beside h, place_beside h hne]
    exact (holds_iff htext hdir).mp hholds
  · rwa [isVarified_beside h hne]

end Places

section Requests

variable {handled : Option Request}

theorem beside_refl (c : Client) (text : Text) (w : World) : Beside c text w w where
  clients := evolves_refl (fun _ => ⟨rfl, rfl, id, id⟩) _
  names row hrow := .inl ⟨row, hrow, rfl⟩
  length := Nat.le_succ _
  files := rfl
  folder := .inl rfl
  node _ _ _ := rfl
  cwd := rfl
  srcDir := rfl

/-- What is left to say of a request is what it does to the files. -/
theorem beside_effect {q : Request} (heffect : Effect crypto env w q w')
    (hname : ∀ r, q = .registration r → fieldText (clientName c.name) = some r.name)
    (hfiles : w'.db.files.filter (·.fileName ≠ text) = w.db.files.filter (·.fileName ≠ text))
    (hfolder : w'.disk.node (clientFolder w c.id) = w.disk.node (clientFolder w c.id) ∨
      w'.disk.isDir (clientFolder w c.id) = true)
    (hnode : ∀ loc, loc ≠ clientFolder w c.id → loc ≠ clientFolder w c.id ++ [text] →
      w'.disk.node loc = w.disk.node loc) : Beside c text w w' where
  clients := (effect_grows heffect).clients
  names row' hrow' := by
    rcases mem_clients heffect.clients hrow' with ⟨row, hrow, hupdated⟩ | ⟨r, hr, rfl⟩
    · exact .inl ⟨row, hrow, hupdated.name.symm⟩
    · exact .inr (hname r hr)
  length := clients_length heffect.clients
  files := hfiles
  folder := hfolder
  node := hnode
  cwd := heffect.cwd
  srcDir := heffect.srcDir

theorem beside_sameStore {q : Request} (heffect : Effect crypto env w q w')
    (hname : ∀ r, q = .registration r → fieldText (clientName c.name) = some r.name)
    (hsame : SameStore w w') : Beside c text w w' := by
  apply beside_effect heffect hname
  · rw [hsame.files]
  · rw [hsame.disk]
    exact .inl rfl
  · intro loc _ _
    rw [hsame.disk]

theorem registration_beside {q : RegistrationRequest}
    (hname : fieldText (clientName c.name) = some q.name) :
    Beside c text w (settle env w handled (registration env q)).world := by
  rw [(settle_world env w handled (registration env q)).1]
  apply beside_sameStore (@ServerEffects.registration_effect .trivial env w q)
  · rintro r ⟨⟩
    exact hname
  · exact registration_sameStore q

theorem publicKey_beside {q : PublicKeyRequest} :
    Beside c text w (settle env w handled (publicKey crypto env q)).world := by
  rw [(settle_world env w handled (publicKey crypto env q)).1]
  apply beside_sameStore (ServerEffects.publicKey_effect q)
  · rintro r ⟨⟩
  · exact publicKey_sameStore q

theorem sendFile_beside {q : RequestToSendFile} {key content padding : Bytes} (hcalm : Calm env)
    (hid : q.header.clientID = c.id) (hclient : w.db.hasClient q.header.clientID = true)
    (hkey : KeyIs w q.header.clientID key)
    (hdecrypt : crypto.aesCbcDecrypt key q.fileContent = some (content ++ padding))
    (hsize : q.contentSize = content.length) (hroom : Room w q.header.clientID q.fileName) :
    Beside c q.fileName w (settle env w handled (sendFile crypto env q)).world := by
  rw [(settle_world env w handled (sendFile crypto env q)).1]
  have heffect := @ServerEffects.sendFile_effect crypto env w q
  obtain ⟨u, hrun, hu, hfiles⟩ := sendFile_uploads hcalm hclient hkey hdecrypt hsize hroom
  have hworld : ((sendFile crypto env q).run (Turn.start w env)).2.world = u.world := by
    rw [hrun, write_world]
  rw [hworld] at heffect ⊢
  apply beside_effect heffect
  · rintro r ⟨⟩
  · rw [hfiles]
    unfold storedRows
    split
    · exact filter_setVarified w.db q.header.clientID q.fileName false
    · simp [uploaded, newRow]
  · rw [← hid]
    exact .inr hu.isDir
  · intro loc hfolder _
    rw [← hid] at hfolder
    exact hu.disk loc hfolder

theorem crcValid_beside {q : CrcStatusRequest} {content : Bytes} (hcalm : Calm env)
    (hid : q.clientID = c.id) (htext : Plain q.fileName)
    (hkept : Kept w q.clientID q.fileName content) :
    Beside c q.fileName w (settle env w handled (crcValid env q)).world := by
  rw [(settle_world env w handled (crcValid env q)).1]
  have heffect := @ServerEffects.crcValid_effect .trivial env w q
  generalize ((crcValid env q).run (Turn.start w env)).2.world = w' at heffect ⊢
  obtain ⟨file, hfile, hcontent, hclient, hname⟩ := hkept.entry
  have hopens := opens_kept hcalm htext hkept hfile
  rw [hid] at hopens
  have hdisk : ∀ loc, loc ≠ clientFolder w c.id ++ [q.fileName] →
      w'.disk.node loc = w.disk.node loc := by
    intro loc hloc
    have hsaved := heffect.disk
    generalize w'.disk = disk at hsaved ⊢
    cases hsaved with
    | same => rfl
    | saved q found hfound =>
      cases hfile.symm.trans hfound
      rw [(saved_opens env file.content hopens).2, Function.update_of_ne hloc]
  apply beside_effect heffect
  · rintro r ⟨⟩
  · have hmarked := heffect.files
    generalize w'.db.files = rows at hmarked ⊢
    cases hmarked with
    | same => rfl
    | marked q found hrow hfound =>
      cases hfile.symm.trans hfound
      rw [hname]
      exact filter_setVarified w.db file.clientId q.fileName true
  · exact .inl (hdisk _ (folder_ne_place w c.id c.id q.fileName))
  · intro loc _ hloc
    exact hdisk loc hloc

end Requests

section Stages

open TransferIntegrity (serve_after serve_react received_piece)

variable {cpp : CppCrypto} {py : PyCrypto} {t t' : Transfer} {e : TransferSession.Event} {n : ℕ}
  {r : Response}

theorem step_name (h : TransferStep cpp py t e t') : t'.client.name = t.client.name := by
  cases e with
  | read fails beyond delivered =>
    obtain ⟨-, packet, toClient, -, rfl⟩ := step_read h
    have hname := @CalmClient.receive_name cpp t.client packet
    obtain ⟨-, -, hclient | hclient⟩ := react_leaves { t with toClient }
      (t.client.receive cpp packet) beyond delivered
    · rw [hclient, hname]
    · rw [hclient]
      exact (congrArg Prod.fst (CalmClient.writeFailed_identity _)).trans hname
  | recv n env =>
    obtain ⟨-, -, -, -, rfl⟩ := step_recv h
    rfl
  | recvEnds env =>
    obtain ⟨-, -, -, rfl⟩ := step_recvEnds h
    rfl
  | recvRaises env =>
    obtain ⟨-, rfl⟩ := step_recvRaises h
    rfl

theorem told_world (h : Told t r) (hstep : CalmStep cpp py t e t') : t'.world = t.world := by
  obtain ⟨hnext, hcalm⟩ := hstep
  cases e with
  | read fails beyond delivered => exact (ClientNetwork.read_leaves hnext).2
  | recv n env =>
    obtain ⟨-, hpos, -, hlength, -⟩ := step_recv hnext
    rw [h.server, List.length_nil] at hlength
    omega
  | recvEnds env => exact hcalm.elim
  | recvRaises env => exact hcalm.elim

theorem file_beside {handled : Option Request} (hsuited : Suited cpp py t.client text)
    (hcalm : Calm env) (hsent : Sent cpp t text) : Beside t.client text t.world
      (settle env t.world handled (handle py env (.sendFile (fileRequest cpp t.client text)))).world
      := by
  obtain ⟨padding, hdecrypt⟩ := hsuited.laws.aes _ (fileBuffer t.client.file)
    t.client.symmetricKey.property
  have hsize : getFileLengthWithPadding t.client.file = (fileBuffer t.client.file).length :=
    (length_fileBuffer hsuited.sendable.1).1.symm
  exact sendFile_beside (q := fileRequest cpp t.client text) hcalm rfl hsent.welcome.client
    hsent.key hdecrypt hsize hsent.welcome.room

theorem receiving_beside {p : PartialFile} (hsuited : Suited cpp py t.client text)
    (hthread : t.thread = .receiving p) (hclient : t.toClient = [])
    (hpart : PartOf (fileRequest cpp t.client text) p t.toServer) (hsent : Sent cpp t text)
    (hstep : CalmStep cpp py t e t') : Beside t.client text t.world t'.world := by
  obtain ⟨hnext, hcalm⟩ := hstep
  cases e with
  | read fails beyond delivered => exact (no_read hclient ⟨hnext, hcalm⟩).elim
  | recv n env =>
    obtain ⟨hreads, -, -, -, rfl⟩ := step_recv hnext
    have hafter := @serve_after py t (t.toServer.drop n)
      (.chunk (t.toServer.take n)) env
    have hreceived : received t.thread (.chunk (t.toServer.take n)) =
        .ofFile (p.feed (t.toServer.take n)) := by
      rw [hthread]
      rfl
    rw [serve_react t hreads, hreceived] at hafter
    by_cases hcomplete : (p.feed (t.toServer.take n)).complete = true
    · have hdata : Received.ofFile (p.feed (t.toServer.take n)) = .parsed (.sendFile _) :=
        if_pos hcomplete
      have hrequest := parsed_of_part hpart hdata
      rw [hdata, hrequest] at hafter
      rw [hafter.world]
      exact file_beside hsuited hcalm.1 hsent
    · have hdata : Received.ofFile (p.feed (t.toServer.take n)) = .partly _ := if_neg hcomplete
      rw [hdata] at hafter
      rw [hafter.world]
      exact beside_refl ..
  | recvEnds env => exact hcalm.elim
  | recvRaises env => exact hcalm.elim

theorem stage_beside (hsuited : Suited cpp py t.client text) (h : Stage cpp py t text n)
    (hstep : CalmStep cpp py t e t') : Beside t.client text t.world t'.world := by
  cases h with
  | registering hasked hqueue hnameless =>
    obtain ⟨name, hname, -, -⟩ := hnameless.name
    obtain ⟨q, rfl, hparsed⟩ := ofData_registration hname
    have hlength := length_registrationMessage t.client.name
    obtain ⟨env, -, -, -, hafter⟩ := short_step hasked
      (List.ne_nil_of_length_pos (by omega)) (by rw [hlength]; decide) hparsed hstep
    rw [hafter.world]
    exact registration_beside hname
  | registered id htold =>
    rw [told_world htold hstep]
    exact beside_refl ..
  | keying hasked hname hwelcome =>
    obtain ⟨q, -, -, hparsed⟩ := ofData_publicKey hname
    have hlength := length_publicKeyMessage t.client.id t.client.name t.client.publicKey
    obtain ⟨env, -, -, -, hafter⟩ := short_step hasked
      (List.ne_nil_of_length_pos (by omega)) (by rw [hlength]; decide) hparsed hstep
    rw [hafter.world]
    exact publicKey_beside
  | keyed encrypted key htold =>
    rw [told_world htold hstep]
    exact beside_refl ..
  | uploading hasked hsent =>
    obtain ⟨env, hcalm, hlength, rfl, -⟩ := asked_step hasked hstep
    have hreads : t.thread.awaits = true := by
      rw [hasked.thread]
      rfl
    have hafter := @serve_after py t (t.toServer.drop packetSize)
      (.chunk (t.toServer.take packetSize)) env
    rw [serve_react t hreads, received_piece hasked.thread (by decide) hlength] at hafter
    rcases file_piece hsuited hasked hlength with ⟨hdata, -⟩ | ⟨p, hdata, -⟩
    · rw [hdata] at hafter
      rw [hafter.world]
      exact file_beside hsuited hcalm hsent
    · rw [hdata] at hafter
      rw [hafter.world]
      exact beside_refl ..
  | receiving p hthread hclient hrunning hpacket hpart hmore hrest hsent =>
    exact receiving_beside hsuited hthread hclient hpart hsent hstep
  | stored r htold =>
    rw [told_world htold hstep]
    exact beside_refl ..
  | approving hasked hkept =>
    obtain ⟨q, -, hid, rfl, hparsed⟩ := @ofData_crcValid text t.client.id _ hsuited.named
    have hlength := length_crcStatusMessage requestCrcValid t.client.id t.client.fileToSend
    obtain ⟨env, hcalm, -, -, hafter⟩ := short_step hasked
      (List.ne_nil_of_length_pos (by rw [Client.crcStatusMessage]; omega))
      (by rw [Client.crcStatusMessage, hlength]; decide) hparsed hstep
    rw [hafter.world]
    exact crcValid_beside hcalm hid hsuited.plain (by rw [hid]; exact hkept)
  | approved htold =>
    rw [told_world htold hstep]
    exact beside_refl ..
  | done _ hserver hended => exact (ended_step hserver hended hstep).elim

end Stages

end CalmNeighbours
