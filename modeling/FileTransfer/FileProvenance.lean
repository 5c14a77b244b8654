import FileTransfer.ApprovalAnswers
import FileTransfer.ConnectionScript
import FileTransfer.ServerHistory

/-! # Where the files come from

The dictionary lives in the process: what is in it was uploaded since the start, and what is
approved, sent again or written to the disk was in it. -/
namespace FileProvenance

open ByteField PathWalk ServerProtocol ServerTables ServerState ServerFiles ServerDatabase
  ServerHandlers ServerThread ServerSystem ServerEffects ServerHistory StepRun
open ClientIsolation (entry)
open DatabaseFailures (uploadedContent)
open RequestAnswers (codeOf handle_answers)
open ApprovalAnswers (upload approval approvalRequest)

section Definitions

variable (crypto : PyCrypto)

def Uploaded (d : Handled) (file : File) : Prop :=
  ∃ q dir, d.request = .sendFile q ∧ d.world.db.hasClient q.header.clientID = true ∧
    OwnDir d.world q.header.clientID dir ∧
    { file with verified := false } =
      entry crypto dir q.header.clientID q.fileName (uploadedContent crypto d.world q)

def Approves (d : Handled) (file : File) : Prop :=
  ∃ q found, d.request = .crcValid q ∧ d.world.db.hasFile q.clientID q.fileName = true ∧
    getFileInstance d.world q.clientID q.fileName = some found ∧
    file = { found with verified := true }

/-- An upload in the history, and an approval behind it where the flag is set. -/
def EntryStems (history : History) (file : File) : Prop :=
  ∃ d ∈ history, Uploaded crypto d file ∧
    (file.verified = true → ∃ d', [d, d'].Sublist history ∧ Approves d' file)

/-- An approval that writes the bytes there: the content of the file up to a failure. -/
def SavedBy (d : Handled) (file : File) (loc : Loc) (bytes : Bytes) : Prop :=
  ∃ q, d.request = .crcValid q ∧ getFileInstance d.world q.clientID q.fileName = some file ∧
    Opens d.env d.world.disk file.fullPath loc ∧ bytes = (writtenBytes d.env file.content).1

/-- A file of the disk at the start, or one that was uploaded and then saved. -/
def DiskStems (disk : Disk) (history : History) (loc : Loc) (bytes : Bytes) : Prop :=
  disk.node loc = some (.file bytes) ∨
    ∃ d d' file, [d, d'].Sublist history ∧ Uploaded crypto d file ∧ SavedBy d' file loc bytes

def Confirms (file : File) : Request → Response → Prop
  | .crcValid _, response => response = .receivingApproved
  | .crcResend q, response => ∃ content, file.content = some content ∧
      response = .fileReceivedCrcValue q.header.clientID.val content.length q.fileName
        (crypto.crc32 content)
  | _, _ => False

/-- What the process holds beyond its start. -/
structure Provenance (disk : Disk) (history : History) (w : World) : Prop where
  entries : ∀ path file, w.fileDict.get path = some file → EntryStems crypto history file
  files : ∀ loc bytes, w.disk.node loc = some (.file bytes) →
    DiskStems crypto disk history loc bytes

end Definitions

variable {crypto : PyCrypto} {disk : Disk} {history : History} {d : Handled} {w w' : World}

section Entries

theorem EntryStems.later {file : File} (h : EntryStems crypto history file) (d : Handled) :
    EntryStems crypto (history ++ [d]) file := by
  obtain ⟨d₀, hd₀, huploaded, hflag⟩ := h
  refine ⟨d₀, List.mem_append_left _ hd₀, huploaded, fun hverified => ?_⟩
  obtain ⟨d', hsub, happroves⟩ := hflag hverified
  exact ⟨d', hsub.trans (List.sublist_append_left _ _), happroves⟩

theorem sublist_last {d₀ : Handled} (h : d₀ ∈ history) (d : Handled) :
    [d₀, d].Sublist (history ++ [d]) :=
  (List.singleton_sublist.mpr h).append (List.Sublist.refl [d])

theorem entries_effect (h : Provenance crypto disk history d.world)
    (heffect : DictEffect crypto d.world d.request w'.fileDict) {path : Text} {file : File}
    (hget : w'.fileDict.get path = some file) : EntryStems crypto (history ++ [d]) file := by
  have hd : d ∈ history ++ [d] := List.mem_append_right _ (List.mem_singleton.mpr rfl)
  generalize hq : d.request = request at heffect
  generalize w'.fileDict = dict at heffect hget
  cases heffect with
  | same => exact (h.entries path file hget).later d
  | stored q dir hclient hdir =>
    rw [FileDict.store_get] at hget
    split at hget
    · cases hget
      exact ⟨d, hd, ⟨q, dir, hq, hclient, hdir, rfl⟩, nofun⟩
    · exact (h.entries path file hget).later d
  | verified q found hrow hfile =>
    rw [FileDict.store_get] at hget
    split at hget
    · cases hget
      obtain ⟨d₀, hd₀, huploaded, -⟩ := h.entries _ found (getFileInstance_keyed hfile).2.1
      refine ⟨d₀, List.mem_append_left _ hd₀, huploaded, fun _ => ⟨d, sublist_last hd₀ d, ?_⟩⟩
      exact ⟨q, found, hq, hrow, hfile, rfl⟩
    · exact (h.entries path file hget).later d

theorem files_effect (h : Provenance crypto disk history d.world)
    (heffect : DiskEffect d.env d.world d.request w'.disk) {loc : Loc} {bytes : Bytes}
    (hnode : w'.disk.node loc = some (.file bytes)) :
    DiskStems crypto disk (history ++ [d]) loc bytes := by
  have hlater (hold : d.world.disk.node loc = some (.file bytes)) :
      DiskStems crypto disk (history ++ [d]) loc bytes := by
    refine (h.files loc bytes hold).imp_right ?_
    rintro ⟨d₀, d', file, hsub, hfile⟩
    exact ⟨d₀, d', file, hsub.trans (List.sublist_append_left _ _), hfile⟩
  generalize hq : d.request = request at heffect
  generalize w'.disk = disk' at heffect hnode
  cases heffect with
  | same => exact hlater hnode
  | made q _ hmade =>
    rcases hmade loc with hsame | ⟨-, hdir⟩
    · exact hlater (hsame.symm.trans hnode)
    · cases hdir.symm.trans hnode
  | saved q file hfile =>
    by_cases hopens : Opens d.env d.world.disk file.fullPath loc
    · rw [(saved_opens d.env file.content hopens).2, Function.update_self] at hnode
      cases hnode
      obtain ⟨d₀, hd₀, huploaded, -⟩ := h.entries _ file (getFileInstance_keyed hfile).2.1
      exact .inr ⟨d₀, d, file, sublist_last hd₀ d, huploaded, q, hq, hfile, hopens, rfl⟩
    · rw [saved_node_of_not_opens d.env file.content hopens] at hnode
      exact hlater hnode

/-- Main theorem: a process knows no file but those that were uploaded to it, with the content
that was uploaded, and it writes no others to the disk. -/
theorem run_provenance {db : Tables} {cwd srcDir : Folder} {es : List Event}
    {p : System × History}
    (h : Run (HistoryStep crypto) (historyStart (.boot db disk cwd srcDir)) es p) :
    Provenance crypto disk p.2 p.1.world := by
  refine @run_remembers crypto (fun w ds => Provenance crypto disk ds w) _ _ _ h ?_ ?_
  · exact ⟨nofun, fun loc bytes hnode => .inl hnode⟩
  · intro d w' ds hprovenance heffect
    exact ⟨fun _ _ hget => entries_effect hprovenance heffect.fileDict hget,
      fun _ _ hnode => files_effect hprovenance heffect.disk hnode⟩

/-- A client uploads a file of 66 blocks, which arrives in three pieces. -/
def pieces : List Event :=
  let message := upload (List.replicate 1056 5)
  .accept :: .start :: [message.take packetSize, slice message packetSize 200,
    message.drop (packetSize + 200)].map fun data => .recv 0 (.chunk data) .undisturbed

def approves : Event := .recv 0 (.chunk approval) .undisturbed

theorem pieces_saved : ∃ p, Run (HistoryStep .trivial)
      (historyStart (.boot World.withClient.db .empty .root .root)) (pieces ++ [approves]) p ∧
    p.2.map (codeOf ·.request) = [requestToSendFile, requestCrcValid] ∧
    p.1.world.disk.node [clientDirectory sampleId, [0x78]] =
      some (.file (List.replicate 1056 5)) := by
  have hrun : ((pieces ++ [approves]).foldlM (historyNext .trivial)
      (historyStart (.boot World.withClient.db .empty .root .root))).map (fun p =>
        (p.2.map (codeOf ·.request), p.1.world.disk.node [clientDirectory sampleId, [0x78]])) =
      some ([requestToSendFile, requestCrcValid], some (.file (List.replicate 1056 5))) := by
    decide +kernel
  obtain ⟨p, hp, hseen⟩ := Option.map_eq_some_iff.mp hrun
  obtain ⟨hcodes, hdisk⟩ := Prod.mk.inj hseen
  exact ⟨p, Run.of_foldlM hp, hcodes, hdisk⟩

theorem run_provenance_pieces : ∃ p, Run (HistoryStep .trivial)
      (historyStart (.boot World.withClient.db .empty .root .root)) (pieces ++ [approves]) p ∧
    p.2.map (codeOf ·.request) = [requestToSendFile, requestCrcValid] ∧
    p.1.world.disk.node [clientDirectory sampleId, [0x78]] =
      some (.file (List.replicate 1056 5)) ∧
    Provenance .trivial .empty p.2 p.1.world := by
  obtain ⟨p, hrun, hcodes, hdisk⟩ := pieces_saved
  exact ⟨p, hrun, hcodes, hdisk, run_provenance hrun⟩

end Entries

section Answers

variable {env : Env} {handled : Option Request}

theorem handled_of_sent {q : Request} {r : Response}
    (h : r ∈ (settle env w handled (handle crypto env q)).sent)
    (hfailed : r ≠ .registrationFailed) (hempty : r ≠ .emptyCrcValue) :
    RequestAnswers.Handled crypto env w q := by
  by_contra hno
  have hdead := (@handle_answers crypto env w handled q).2 fun hyes => hno hyes.1
  rcases @ConnectionScript.handle_script crypto env w handled q with
    ⟨hawaits, -⟩ | ⟨-, hparting⟩
  · rw [hdead] at hawaits
    cases hawaits
  · generalize (settle env w handled (handle crypto env q)).sent = sent at h hparting
    cases hparting with
    | silent => cases h
    | refused => exact hfailed (by simpa using h)
    | refusedTwice => exact hfailed (by simpa using h)
    | notFound =>
      rcases List.mem_cons.mp h with rfl | h
      · exact hempty rfl
      · exact hfailed (by simpa using h)

theorem sent_written {handler : ServerM Bool} {r response : Response} {u : Turn}
    (hrun : handler.run (Turn.start w env) = (write env r).run u) (hsent : u.sent = [])
    (h : response ∈ (settle env w handled handler).sent) : response = r := by
  rw [settle_written env hrun, hsent] at h
  dsimp only at h
  split at h
  · exact List.mem_singleton.mp h
  · cases h

theorem approval_sent {q : CrcStatusRequest} {r : Response}
    (h : r ∈ (settle env w handled (handle crypto env (.crcValid q))).sent)
    (hfailed : r ≠ .registrationFailed) (hempty : r ≠ .emptyCrcValue) :
    ∃ file, getFileInstance w q.clientID q.fileName = some file ∧
      Confirms crypto file (.crcValid q) r := by
  obtain ⟨hsaves, hraises⟩ := handled_of_sent h hfailed hempty
  obtain ⟨file, hfile⟩ := Option.isSome_iff_exists.mp hsaves.2.2
  obtain ⟨u, hrun, -, hsent, -⟩ := crcValid_saves env hsaves hfile
  rw [if_neg hraises] at hrun
  exact ⟨file, hfile, sent_written hrun hsent h⟩

theorem resend_sent {q : CrcStatusRequest} {r : Response}
    (h : r ∈ (settle env w handled (handle crypto env (.crcResend q))).sent)
    (hfailed : r ≠ .registrationFailed) (hempty : r ≠ .emptyCrcValue) :
    ∃ file, getFileInstance w q.clientID q.fileName = some file ∧
      Confirms crypto file (.crcResend q) r := by
  obtain ⟨hk, file, hfile, hne⟩ := handled_of_sent h hfailed hempty
  obtain ⟨content, hcontent⟩ := Option.ne_none_iff_exists'.mp hne
  have hrun := crcResend_known crypto env hk
  rw [hfile] at hrun
  dsimp only at hrun
  rw [hcontent] at hrun
  refine ⟨file, ?_, content, hcontent, sent_written hrun rfl h⟩
  unfold resendFile at hfile
  split at hfile
  · exact hfile
  · cases hfile

/-- Main theorem: a request about a file is refused unless the file was uploaded since the
process started, and the answer is about the content that was uploaded. -/
theorem run_answers {db : Tables} {disk : Disk} {cwd srcDir : Folder} {es : List Event}
    {p : System × History} {c : ℕ} {r : RecvResult} {out : ReadStep} {q : CrcStatusRequest}
    {request : Request}
    (h : Run (HistoryStep crypto) (historyStart (.boot db disk cwd srcDir)) es p)
    (hserved : p.1.served crypto c r env = some out) (hhandled : out.handled = some request)
    (hrequest : request = .crcValid q ∨ request = .crcResend q) :
    ∀ response ∈ out.sent, response = .registrationFailed ∨ response = .emptyCrcValue ∨
      ∃ file, getFileInstance p.1.world q.clientID q.fileName = some file ∧
        Confirms crypto file request response ∧ ∃ d ∈ p.2, Uploaded crypto d file := by
  intro response hresponse
  by_cases hfailed : response = .registrationFailed
  · exact .inl hfailed
  by_cases hempty : response = .emptyCrcValue
  · exact .inr (.inl hempty)
  obtain ⟨conn, -, hawaits, rfl⟩ := served_eq_some hserved
  rw [readStep_handled_iff crypto env p.1.world hawaits] at hhandled
  rw [readStep_eq_react crypto env p.1.world hawaits, hhandled, react] at hresponse
  obtain ⟨file, hfile, hconfirms⟩ : ∃ file,
      getFileInstance p.1.world q.clientID q.fileName = some file ∧
        Confirms crypto file request response := by
    rcases hrequest with rfl | rfl
    · exact approval_sent hresponse hfailed hempty
    · exact resend_sent hresponse hfailed hempty
  obtain ⟨d, hd, huploaded, -⟩ :=
    (run_provenance h).entries _ file (getFileInstance_keyed hfile).2.1
  exact .inr (.inr ⟨file, hfile, hconfirms, d, hd, huploaded⟩)

theorem run_answers_approval : ∃ es p out, Run (HistoryStep .trivial)
      (historyStart (.boot World.withClient.db .empty .root .root)) es p ∧
    p.1.served .trivial 0 (.chunk approval) .undisturbed = some out ∧
    .receivingApproved ∈ out.sent ∧ ∃ file,
      getFileInstance p.1.world sampleId [0x78] = some file ∧
        ∃ d ∈ p.2, Uploaded .trivial d file := by
  have hserves : (pieces.foldlM (historyNext .trivial)
      (historyStart (.boot World.withClient.db .empty .root .root))).bind (fun p =>
        (p.1.served .trivial 0 (.chunk approval) .undisturbed).map fun out =>
          (out.handled, out.sent)) =
      some (some (.crcValid approvalRequest), [.receivingApproved]) := by
    decide +kernel
  obtain ⟨p, hp, hserves⟩ := Option.bind_eq_some_iff.mp hserves
  obtain ⟨out, hserved, hanswer⟩ := Option.map_eq_some_iff.mp hserves
  obtain ⟨hhandled, hsent⟩ := Prod.mk.inj hanswer
  have hrun : Run (HistoryStep .trivial) _ pieces p := Run.of_foldlM hp
  have hmem : Response.receivingApproved ∈ out.sent := by
    rw [hsent]
    exact List.mem_singleton.mpr rfl
  refine ⟨pieces, p, out, hrun, hserved, hmem, ?_⟩
  rcases run_answers hrun hserved hhandled (.inl rfl) _ hmem with h | h | ⟨file, hfile, -, hd⟩
  · cases h
  · cases h
  · exact ⟨file, hfile, hd⟩

end Answers

end FileProvenance
