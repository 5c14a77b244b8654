import FileTransfer.ServerSystem
import FileTransfer.MessageRoundTrip

/-! # Checksum answers

When a 2103 answer says what is stored. The handlers of uploads and of resend requests
drop the failures below them, so the answer is true only for the requests that succeed. -/
namespace CrcAnswers

open ByteField ServerProtocol ServerTables ServerState ServerFiles ServerDatabase ServerHandlers
  ServerThread ServerSystem RaisingProgram
open PathWalk (render)

variable (crypto : PyCrypto) (env : Env)

section Definitions

def asksForCrc : Request → Bool
  | .sendFile _ => true
  | .crcResend _ => true
  | _ => false

/-- A row of the client and the content that the lookups find for it. -/
def Stored (w : World) (clientId : ClientId) (fileName : Text) (content : Bytes) : Prop :=
  w.db.hasFile clientId fileName = true ∧
    ∃ file, getFileInstance w clientId fileName = some file ∧ file.content = some content

/-- What a 2103 answer to a request says, in the worlds before and after it. -/
structure Attests (w w' : World) (request : Request) (size : ℕ) (fileName : Text) (checksum : ℕ)
    (content : Bytes) : Prop where
  stored : Stored w' request.header.clientID fileName content
  crc : checksum = crypto.crc32 content
  length : size = content.length
  decrypted : ∀ q, request = .sendFile q →
    (plainText crypto w q).map (·.take q.contentSize) = some content

/-- An upload is decrypted and stored, or a file to resend is found with its content. -/
def Succeeds (w : World) : Request → Prop
  | .sendFile q => Known (Turn.start w env) q.header.clientID ∧ env.sql 1 = .done ∧
      (plainText crypto w q).isSome = true ∧ DirReady env w q.header.clientID ∧
      Committed (Turn.start w env).pop.pop q.header.clientID q.fileName
  | .crcResend q => Known (Turn.start w env) q.header.clientID ∧
      ∃ file, resendFile q (Turn.start w env) = some file ∧ file.content ≠ none
  | _ => True

def Exact (w : World) : Request → Prop
  | .sendFile q => ∀ text, plainText crypto w q = some text → q.contentSize ≤ text.length
  | .crcResend q => q.clientID = q.header.clientID
  | _ => True

/-- Every 2103 answer attests a stored file, and a request that fails gets 2101 instead. -/
def Truthful (w : World) (out : ReadStep) : Prop :=
  (∀ id size fileName checksum,
    Response.fileReceivedCrcValue id size fileName checksum ∈ out.sent → ∃ request content,
      out.handled = some request ∧
        Attests crypto w out.world request size fileName checksum content) ∧
  ∀ request, out.handled = some request → ¬Succeeds crypto env w request →
    Response.registrationFailed ∈ out.sent ∧
      ∀ response ∈ out.sent, response.code ≠ msgReceivedCrc

end Definitions

variable {crypto env} {w : World} {out : ReadStep} {request : Request}

section Answers

theorem truthful_silent (hh : out.handled = some request) (hs : out.sent = []) :
    Truthful crypto env w out ↔ Succeeds crypto env w request := by
  constructor
  · rintro ⟨-, hfails⟩
    by_contra hnot
    have hsent := (hfails request hh hnot).1
    rw [hs] at hsent
    cases hsent
  · intro hsucceeds
    refine ⟨fun id size fileName checksum h => ?_, fun request' hh' hnot => ?_⟩
    · rw [hs] at h
      cases h
    · cases hh.symm.trans hh'
      exact absurd hsucceeds hnot

theorem truthful_refused (hs : ∀ response ∈ out.sent, response = .registrationFailed)
    (hh : out.handled ≠ none → Response.registrationFailed ∈ out.sent) :
    Truthful crypto env w out := by
  refine ⟨fun id size fileName checksum h => ?_, fun request hr _ => ⟨hh (by simp [hr]), ?_⟩⟩
  · cases hs _ h
  · intro response h
    rw [hs response h]
    decide

theorem truthful_quiet_iff (w : World) (control : Control) {p : Request → Prop} :
    Truthful crypto env w (.quiet w control) ↔
      ∀ request, (ReadStep.quiet w control).handled = some request → p request :=
  iff_of_true (truthful_refused (by simp) (by simp)) (by simp)

theorem truthful_answered {id : Bytes} {size : ℕ} {fileName : Text} {checksum : ℕ}
    (hh : out.handled = some request)
    (hs : out.sent = [.fileReceivedCrcValue id size fileName checksum]) :
    Truthful crypto env w out ↔ Succeeds crypto env w request ∧
      ∃ content, Attests crypto w out.world request size fileName checksum content := by
  constructor
  · rintro ⟨hattests, hfails⟩
    constructor
    · by_contra hnot
      have hsent := (hfails request hh hnot).1
      rw [hs, List.mem_singleton] at hsent
      cases hsent
    · obtain ⟨request', content, hh', hcontent⟩ := hattests id size fileName checksum (by simp [hs])
      cases hh.symm.trans hh'
      exact ⟨content, hcontent⟩
  · rintro ⟨hsucceeds, content, hcontent⟩
    refine ⟨fun id' size' fileName' checksum' h => ?_, fun request' hh' hnot => ?_⟩
    · rw [hs, List.mem_singleton] at h
      cases h
      exact ⟨request, content, hh, hcontent⟩
    · cases hh.symm.trans hh'
      exact absurd hsucceeds hnot

end Answers

section Uploads

variable {q : RequestToSendFile}

theorem stored_upload {t u : Turn} {file : File} {content : Bytes}
    (hu : Uploads t u file) (hfiles : u.world.db.files = storedRows t file)
    (hpath : file.fullPath = filePath t.world file.clientId file.filename)
    (hcontent : file.content = some content) :
    Stored u.world file.clientId file.filename content := by
  have hfolder : clientFolder u.world file.clientId = clientFolder t.world file.clientId := by
    rw [clientFolder, hu.cwd, clientFolder]
  have hfilePath : filePath u.world file.clientId file.filename = file.fullPath := by
    rw [filePath, hfolder, hpath, filePath]
  refine ⟨?_, file, ?_, hcontent⟩
  · rw [hasFile_storedRows hfiles]
    simp
  · rw [getFileInstance, hfolder, if_pos hu.isDir, hfilePath, hu.fileDict, FileDict.store_get,
      if_pos rfl]

theorem sendFile_answer (hk : Known (Turn.start w env) q.header.clientID) (h₁ : env.sql 1 = .done) :
    ∃ file u, (sendFile crypto env q).run (Turn.start w env) =
        (write env (.fileReceivedCrcValue q.header.clientID.val q.contentSize q.fileName
          (answeredCrc file))).run u ∧ u.sent = [] ∧
      (answeredCrc file = 0 ∨ ∃ bytes, answeredCrc file = crypto.crc32 bytes) ∧
      ∀ text, Succeeds crypto env w (.sendFile q) → plainText crypto w q = some text →
        Stored u.world q.header.clientID q.fileName (text.take q.contentSize) ∧
          answeredCrc file = crypto.crc32 (text.take q.contentSize) := by
  obtain ⟨row, hrow⟩ : ∃ row, w.db.clientRow q.header.clientID = some row :=
    hasClient_iff.mp hk.2
  generalize hcontent : decrypt crypto q.fileContent row.aesKey q.contentSize = content
  have hplain := (decrypt_eq crypto hrow).symm.trans hcontent
  by_cases hsucceeds : Succeeds crypto env w (.sendFile q)
  · obtain ⟨-, -, hsome, hready, hcommitted⟩ := id hsucceeds
    obtain ⟨text, htext⟩ := Option.isSome_iff_exists.mp hsome
    rw [htext, Option.map_some] at hplain
    subst hplain
    obtain ⟨u, hrun, hu, hfiles, -⟩ := storeFileinDB_ready crypto env q.fileName
      (text.take q.contentSize) (t := (Turn.start w env).pop.pop) hready
    rw [if_pos hcommitted] at hrun hfiles
    refine ⟨_, u, sendFile_stored crypto env hk h₁ hrow (by rw [hcontent]; exact hrun),
      hu.sent, .inr ⟨_, rfl⟩, ?_⟩
    intro text' _ htext'
    cases htext.symm.trans htext'
    exact ⟨stored_upload hu hfiles rfl rfl, rfl⟩
  · obtain ⟨file, u, hrun, hsent, -, hcrc⟩ := storeFileinDB_value crypto env q.header.clientID
      q.fileName content (Turn.start w env).pop.pop
    refine ⟨file, u, sendFile_stored crypto env hk h₁ hrow (by rw [hcontent]; exact hrun), hsent,
      ?_, fun text h => absurd h hsucceeds⟩
    cases file with
    | none => exact .inl rfl
    | some f => exact .inr (hcrc f rfl)

theorem attests_upload_iff {w' : World} {text : Bytes} {checksum : ℕ}
    (htext : plainText crypto w q = some text)
    (hstored : Stored w' q.header.clientID q.fileName (text.take q.contentSize))
    (hcrc : checksum = crypto.crc32 (text.take q.contentSize)) :
    (∃ content, Attests crypto w w' (.sendFile q) q.contentSize q.fileName checksum content) ↔
      Exact crypto w (.sendFile q) := by
  constructor
  · rintro ⟨content, hattests⟩ text' htext'
    cases htext.symm.trans htext'
    have hcut := hattests.decrypted q rfl
    rw [htext, Option.map_some, Option.some.injEq] at hcut
    have hlength := hattests.length
    rw [← hcut, List.length_take] at hlength
    omega
  · intro hexact
    have hle := hexact text htext
    refine ⟨_, hstored, hcrc, ?_, ?_⟩
    · rw [List.length_take]
      omega
    · intro q' hq
      cases hq
      rw [htext, Option.map_some]

theorem truthful_sendFile_iff :
    Truthful crypto env w (settle env w (some (.sendFile q)) (sendFile crypto env q)) ↔
      if env.sendOk then ¬Known (Turn.start w env) q.header.clientID ∨
        Succeeds crypto env w (.sendFile q) ∧ Exact crypto w (.sendFile q)
      else Succeeds crypto env w (.sendFile q) := by
  by_cases hk : Known (Turn.start w env) q.header.clientID
  · by_cases h₁ : env.sql 1 = .done
    · obtain ⟨file, u, hrun, hsent, -, hstored⟩ := @sendFile_answer crypto _ _ _ hk h₁
      rw [settle_written env hrun, hsent]
      by_cases hok : env.sendOk = true
      · rw [if_pos hok, if_pos hok, if_pos hok, truthful_answered rfl rfl,
          or_iff_right (not_not.mpr hk)]
        refine and_congr_right fun hsucceeds => ?_
        obtain ⟨text, htext⟩ := Option.isSome_iff_exists.mp hsucceeds.2.2.1
        obtain ⟨hfile, hcrc⟩ := hstored text hsucceeds htext
        exact attests_upload_iff htext hfile hcrc
      · rw [if_neg hok, if_neg hok, if_neg hok, truthful_silent rfl rfl]
    · obtain ⟨e, hrun⟩ := sendFile_noKey crypto env hk h₁
      rw [settle_raised env hrun, truthful_silent rfl rfl]
      have hnot : ¬Succeeds crypto env w (.sendFile q) := fun h => h₁ h.2.1
      simp [hnot, hk]
  · have hnot : ¬Succeeds crypto env w (.sendFile q) := fun h => hk h.1
    rw [settle_refused env (sendFile_unknown crypto env hk)]
    by_cases hok : env.sendOk = true
    · rw [if_pos hok, if_pos hok, if_pos hok]
      exact iff_of_true (truthful_refused (by simp) (by simp)) (.inl hk)
    · rw [if_neg hok, if_neg hok, if_neg hok, truthful_silent rfl rfl]

end Uploads

section Resends

variable {q : CrcStatusRequest}

theorem resendFile_eq_some {file : File} (h : resendFile q (Turn.start w env) = some file) :
    w.db.hasFile q.clientID q.fileName = true ∧
      getFileInstance w q.clientID q.fileName = some file := by
  unfold resendFile at h
  split at h
  · next hfound => exact ⟨hfound.2, h⟩
  · cases h

/-- The row that was found is of the payload's client, and no other client has one. -/
theorem attests_resend_iff {file : File} {content : Bytes}
    (hfile : resendFile q (Turn.start w env) = some file) (hcontent : file.content = some content) :
    (∃ content', Attests crypto w w (.crcResend q) content.length q.fileName
      (crypto.crc32 content) content') ↔ Exact crypto w (.crcResend q) := by
  obtain ⟨hrow, hentry⟩ := resendFile_eq_some hfile
  constructor
  · rintro ⟨content', hattests⟩
    exact owner_unique hrow hattests.stored.1
  · intro hexact
    have hid : q.header.clientID = q.clientID := hexact.symm
    refine ⟨content, ⟨?_, file, ?_, hcontent⟩, rfl, rfl, fun q' hq => by cases hq⟩
    · exact hid ▸ hrow
    · exact hid ▸ hentry

theorem truthful_crcResend_iff :
    Truthful crypto env w (settle env w (some (.crcResend q)) (crcResend crypto env q)) ↔
      if env.sendOk then ¬Known (Turn.start w env) q.header.clientID ∨
        Succeeds crypto env w (.crcResend q) ∧ Exact crypto w (.crcResend q)
      else Succeeds crypto env w (.crcResend q) := by
  by_cases hk : Known (Turn.start w env) q.header.clientID
  · have hrun := crcResend_known crypto env hk
    cases hfile : resendFile q (Turn.start w env) with
    | none =>
      have hnot : ¬Succeeds crypto env w (.crcResend q) := by
        rintro ⟨-, file, hsome, -⟩
        cases hfile.symm.trans hsome
      rw [hfile] at hrun
      by_cases hok : env.sendOk = true
      · have hrun' : (crcResend crypto env q).run (Turn.start w env) =
            (.value false, (Turn.start w env).pop.pop.send .emptyCrcValue) := by
          rw [hrun, Prog.run_bind, write_run, if_pos hok]
          rfl
        rw [settle_value env hrun', if_pos hok]
        refine iff_of_false ?_ ?_
        · rintro ⟨-, hfails⟩
          have hno := (hfails _ rfl hnot).2 Response.emptyCrcValue (by simp [hok])
          exact hno rfl
        · simp [hk, hnot]
      · have hrun' : (crcResend crypto env q).run (Turn.start w env) =
            (.hangs, (Turn.start w env).pop.pop) := by
          rw [hrun, Prog.run_bind, write_run, if_neg hok]
        rw [settle_hangs env hrun', if_neg hok, truthful_silent rfl rfl]
    | some file =>
      rw [hfile] at hrun
      cases hcontent : file.content with
      | none =>
        have hnot : ¬Succeeds crypto env w (.crcResend q) := by
          rintro ⟨-, file', hsome, hcontent'⟩
          cases hfile.symm.trans hsome
          exact hcontent' hcontent
        simp only [hcontent] at hrun
        rw [settle_raised env hrun, truthful_silent rfl rfl]
        simp [hnot, hk]
      | some content =>
        have hsucceeds : Succeeds crypto env w (.crcResend q) :=
          ⟨hk, file, hfile, by simp [hcontent]⟩
        simp only [hcontent] at hrun
        rw [settle_written env hrun]
        by_cases hok : env.sendOk = true
        · rw [if_pos hok, if_pos hok, if_pos hok, truthful_answered rfl rfl,
            or_iff_right (not_not.mpr hk)]
          exact and_congr_right fun _ => attests_resend_iff hfile hcontent
        · rw [if_neg hok, if_neg hok, if_neg hok, truthful_silent rfl rfl]
  · have hnot : ¬Succeeds crypto env w (.crcResend q) := fun h => hk h.1
    rw [settle_refused env (crcResend_unknown crypto env hk)]
    by_cases hok : env.sendOk = true
    · rw [if_pos hok, if_pos hok, if_pos hok]
      exact iff_of_true (truthful_refused (by simp) (by simp)) (.inl hk)
    · rw [if_neg hok, if_neg hok, if_neg hok, truthful_silent rfl rfl]

end Resends

/-- Main theorem: an upload or a resend request, whatever its bytes, is answered
truthfully exactly when it succeeds exactly or its client is unknown. -/
theorem truthful_iff {s : System} {c : ℕ} {r : RecvResult}
    (h : s.served crypto c r env = some out)
    (hkind : ∀ request, out.handled = some request → asksForCrc request = true) :
    Truthful crypto env s.world out ↔ ∀ request, out.handled = some request →
      if env.sendOk then ¬Known (Turn.start s.world env) request.header.clientID ∨
        Succeeds crypto env s.world request ∧ Exact crypto s.world request
      else Succeeds crypto env s.world request := by
  obtain ⟨conn, -, hawaits, rfl⟩ := served_eq_some h
  rw [readStep_eq_react crypto env s.world hawaits] at hkind ⊢
  cases hreceived : received conn.control r with
  | parsed request =>
    rw [hreceived] at hkind
    have hhandled := (settle_world env s.world (some request) (handle crypto env request)).2.2
    have hasks := hkind request hhandled
    rw [react, hhandled]
    simp only [Option.some.injEq, forall_eq']
    cases request with
    | sendFile q => exact truthful_sendFile_iff
    | crcResend q => exact truthful_crcResend_iff
    | registration q => cases hasks
    | publicKey q => cases hasks
    | crcValid q => cases hasks
    | crcAbort q => cases hasks
  | malformed refused =>
    obtain ⟨-, hhandled, hsent⟩ := react_malformed crypto env s.world refused
    exact iff_of_true (truthful_refused hsent fun hne => absurd hhandled hne)
      (by simp [hhandled])
  | partly p => exact truthful_quiet_iff s.world _
  | endOfStream => exact truthful_quiet_iff s.world _
  | failure => exact truthful_quiet_iff s.world _

section Sample

open ClientChannel MessageRoundTrip StepRun

def upload (id : ClientId) (ciphertext : Bytes) : Bytes :=
  requestToSendFileMessage id ciphertext.length (nameField [0x78]) ciphertext

theorem truthful_iff_block : ∃ out,
    (System.serving .withClient).served .trivial 0 (.chunk (upload sampleId (.replicate 16 5)))
      .undisturbed = some out ∧ out.sent ≠ [] ∧ Truthful .trivial .undisturbed .withClient out := by
  have hhandled : (readStep .trivial .undisturbed .withClient .reading
      (.chunk (upload sampleId (.replicate 16 5)))).handled =
        some (.sendFile ⟨⟨sampleId, clientVersion, requestToSendFile, 275⟩, 16, [0x78],
          .replicate 16 5⟩) := by decide +kernel
  have hsent : (readStep .trivial .undisturbed .withClient .reading
      (.chunk (upload sampleId (.replicate 16 5)))).sent ≠ [] := by decide +kernel
  refine ⟨_, rfl, hsent, (truthful_iff (s := .serving .withClient) (c := 0) rfl ?_).mpr ?_⟩
  · intro request h
    cases hhandled.symm.trans h
    rfl
  · intro request h
    cases hhandled.symm.trans h
    refine .inr ⟨⟨by decide +kernel, rfl, by decide +kernel, by decide +kernel,
      by decide +kernel⟩, fun text htext => ?_⟩
    cases htext
    decide

/-- A client without a key is answered with a checksum of nothing. -/
theorem not_truthful_keyless :
    ¬∀ (crypto : PyCrypto) (w : World) (es : List Event) (s : System) (c : ℕ) (r : RecvResult)
      (env : Env) (out : ReadStep), Run (Step crypto) (.initial w) es s →
        s.served crypto c r env = some out →
        (∀ request, out.handled = some request → asksForCrc request = true) →
          Truthful crypto env s.world out := by
  intro h
  have hfacts : (System.lastServed .trivial .sample [registrationRequestMessage [0x61]]
      (upload emptyId (.replicate 16 5))).map (fun ⟨s, out⟩ => (out.handled, out.sent,
        (s.world.db.clientRow emptyId).bind (·.aesKey))) =
      some (some (.sendFile ⟨⟨emptyId, clientVersion, requestToSendFile, 275⟩, 16, [0x78],
          .replicate 16 5⟩), [.fileReceivedCrcValue emptyId.val 16 [0x78] 0], none) := by
    decide +kernel
  obtain ⟨⟨s, out⟩, hlast, hfacts⟩ := Option.map_eq_some_iff.mp hfacts
  simp only [Prod.mk.injEq] at hfacts
  obtain ⟨hhandled, hsent, hkey⟩ := hfacts
  obtain ⟨⟨es, hrun⟩, hserved⟩ := lastServed_eq_some hlast
  have hkind : ∀ request, out.handled = some request → asksForCrc request = true := by
    intro request hq
    cases hhandled.symm.trans hq
    rfl
  have htruth := h .trivial .sample es s 0 _ .undisturbed out hrun hserved hkind
  obtain ⟨request, content, hq, hattests⟩ := htruth.1 _ _ _ _ (by rw [hsent]; exact .head _)
  cases hhandled.symm.trans hq
  have hdecrypted := hattests.decrypted _ rfl
  rw [plainText, hkey] at hdecrypted
  cases hdecrypted

end Sample

end CrcAnswers
