import FileTransfer.ServerSystem
import FileTransfer.MessageRoundTrip

/-! # Approvals

When a 2104 answer says what is on disk and in the row. The results of `saveFile` and of
the UPDATE are dropped on the way, and only an exception of the UPDATE refuses. -/
namespace ApprovalAnswers

open ByteField PathWalk ServerProtocol ServerTables ServerState ServerFiles ServerDatabase
  ServerHandlers ServerThread ServerSystem RaisingProgram

variable (env : Env)

section Definitions

def Approved (w : World) (q : CrcStatusRequest) : Prop :=
  (∃ file bytes, getFileInstance w q.clientID q.fileName = some file ∧
    file.content = some bytes ∧ HoldsFile w.disk (filePath w q.clientID q.fileName) bytes) ∧
  w.db.isVarified q.clientID q.fileName = true

def Fails (w : World) (q : CrcStatusRequest) : Prop :=
  Saves env w q ∧ (env.sql 3 ≠ .done ∨
    ∃ file, getFileInstance w q.clientID q.fileName = some file ∧
      (saved env w.disk file.fullPath file.content).2 = false)

/-- An approval is what the answer says, and a failure is answered with 2101. -/
def Truthful (w : World) (q : CrcStatusRequest) (out : ReadStep) : Prop :=
  (Response.receivingApproved ∈ out.sent → Approved out.world q) ∧
  (Fails env w q → Response.registrationFailed ∈ out.sent ∧
    Response.receivingApproved ∉ out.sent)

def Marks (w : World) (q : CrcStatusRequest) (file : File) : Prop :=
  w.db.isVarified q.clientID q.fileName = true ∨
    file.clientId = q.clientID ∧ file.filename = q.fileName

/-- The file is written and the UPDATE is executed on its row, or the UPDATE raises. -/
def Sound (w : World) (q : CrcStatusRequest) (file : File) : Prop :=
  if env.sendOk then
    env.sql 3 = .connectRaises ∨
      env.sql 3 = .done ∧ Writable env w.disk file.fullPath file.content ∧ Marks w q file
  else env.sql 3 = .done ∧ Writable env w.disk file.fullPath file.content

end Definitions

variable {env} {w : World} {q : CrcStatusRequest} {file : File}

theorem fails_iff (hsaves : Saves env w q)
    (hfile : getFileInstance w q.clientID q.fileName = some file) :
    Fails env w q ↔
      ¬(env.sql 3 = .done ∧ Writable env w.disk file.fullPath file.content) := by
  have hwritten : (∃ file', getFileInstance w q.clientID q.fileName = some file' ∧
      (saved env w.disk file'.fullPath file'.content).2 = false) ↔
        ¬Writable env w.disk file.fullPath file.content := by
    rw [← saved_eq_true_iff, Bool.not_eq_true]
    constructor
    · rintro ⟨file', hfile', hno⟩
      cases hfile.symm.trans hfile'
      exact hno
    · exact fun hno => ⟨file, hfile, hno⟩
  rw [Fails, hwritten, not_and_or]
  exact and_iff_right hsaves

section World

variable {u : Turn}

theorem verified_entry (hfile : getFileInstance w q.clientID q.fileName = some file) :
    getFileInstance (verifiedWorld env file q.clientID true (Turn.start w env).pop) q.clientID
      q.fileName = some { file with verified := true } := by
  obtain ⟨hpath, -, hdir⟩ := getFileInstance_keyed hfile
  have hcwd : (verifiedWorld env file q.clientID true (Turn.start w env).pop).cwd = w.cwd := by
    simp [verifiedWorld, World.store]
  have hfolder : clientFolder (verifiedWorld env file q.clientID true (Turn.start w env).pop)
      q.clientID = clientFolder w q.clientID := by
    rw [clientFolder, hcwd, clientFolder]
  have hisDir : (verifiedWorld env file q.clientID true (Turn.start w env).pop).disk.isDir
      (clientFolder w q.clientID) = true := by
    simp only [verifiedWorld, if_true]
    rw [saved_isDir, pop_world, start_world, hdir]
  rw [getFileInstance, filePath, hfolder, if_pos hisDir, ← filePath, ← hpath]
  simp only [verifiedWorld, World.store, FileDict.store_get, if_true]

theorem verified_holds_iff {bytes : Bytes} (hcontent : file.content = some bytes)
    (hwritable : Writable env w.disk file.fullPath file.content) :
    HoldsFile (verifiedWorld env file q.clientID true (Turn.start w env).pop).disk
      file.fullPath bytes := by
  rw [hcontent] at hwritable
  simp only [verifiedWorld, if_true, hcontent]
  exact saved_holds env hwritable

theorem verified_marked_iff (hsaves : Saves env w q) (hsql : env.sql 3 = .done) :
    (verifiedWorld env file q.clientID true (Turn.start w env).pop).db.isVarified
      q.clientID q.fileName = true ↔ Marks w q file := by
  have hsql' : (Turn.start w env).pop.sql 2 = .done := hsql
  simp only [verifiedWorld, if_pos hsql']
  rw [isVarified_setVarified _ _ (by rw [afterTouch_hasFile]; exact hsaves.2.1.2), Marks,
    Tables.isVarified, afterTouch_files, Tables.isVarified]
  rfl

theorem approved_iff (hsaves : Saves env w q)
    (hfile : getFileInstance w q.clientID q.fileName = some file) (hsql : env.sql 3 = .done)
    (hwritable : Writable env w.disk file.fullPath file.content) :
    Approved (verifiedWorld env file q.clientID true (Turn.start w env).pop) q ↔
      Marks w q file := by
  rw [Approved, verified_marked_iff hsaves hsql]
  refine and_iff_right_of_imp fun _ => ?_
  obtain ⟨bytes, hcontent⟩ := Option.isSome_iff_exists.mp hwritable.2.2
  have hentry := @verified_entry env _ _ _ hfile
  refine ⟨_, bytes, hentry, hcontent, ?_⟩
  rw [← (getFileInstance_keyed hentry).1]
  exact verified_holds_iff hcontent hwritable

end World

theorem truthful_saves_iff (hsaves : Saves env w q)
    (hfile : getFileInstance w q.clientID q.fileName = some file) :
    Truthful env w q (settle env w (some (.crcValid q)) (crcValid env q)) ↔ Sound env w q file := by
  obtain ⟨u, hrun, hworld, hsent, -⟩ := crcValid_saves env hsaves hfile
  rw [Truthful, fails_iff hsaves hfile, Sound]
  by_cases hr : env.sql 3 = .connectRaises
  · rw [if_pos hr] at hrun
    rw [settle_refused env hrun, hsent]
    by_cases hok : env.sendOk = true
    · simp [hok, hr]
    · simp [hok, hr]
  · rw [if_neg hr] at hrun
    rw [settle_written env hrun, hsent, hworld]
    by_cases hok : env.sendOk = true
    · by_cases hgood : env.sql 3 = .done ∧ Writable env w.disk file.fullPath file.content
      · have hiff := approved_iff hsaves hfile hgood.1 hgood.2
        simp [hok, hgood, hiff]
      · have hsound : ¬(env.sql 3 = .done ∧ Writable env w.disk file.fullPath file.content ∧
            Marks w q file) := fun h => hgood ⟨h.1, h.2.1⟩
        simp [hok, hr, hgood, hsound]
    · simp [hok]

/-- Main theorem: the answer to a CRC-valid request is truthful exactly when it saves
nothing or saves soundly. -/
theorem truthful_approval_iff {crypto : PyCrypto} {s : System} {c : ℕ} {r : RecvResult}
    {out : ReadStep}
    (h : s.served crypto c r env = some out) (hq : out.handled = some (.crcValid q)) :
    Truthful env s.world q out ↔ (Saves env s.world q →
      ∀ file, getFileInstance s.world q.clientID q.fileName = some file →
        Sound env s.world q file) := by
  obtain ⟨conn, -, hawaits, rfl⟩ := served_eq_some h
  rw [readStep_handled_iff crypto env s.world hawaits] at hq
  rw [readStep_eq_react crypto env s.world hawaits, hq, react, handle]
  by_cases hsaves : Saves env s.world q
  · obtain ⟨file, hfile⟩ := Option.isSome_iff_exists.mp hsaves.2.2
    rw [truthful_saves_iff hsaves hfile]
    constructor
    · intro hsound _ file' hfile'
      cases hfile.symm.trans hfile'
      exact hsound
    · exact fun hsound => hsound hsaves file hfile
  · obtain ⟨u, hrun, hu, -⟩ := crcValid_refused env hsaves
    rw [settle_refused env hrun, hu.sent]
    refine iff_of_true ⟨?_, fun hfails => absurd hfails.1 hsaves⟩ fun h => absurd h hsaves
    intro hsent
    dsimp only at hsent
    split at hsent <;> simp at hsent

section Sample

open ClientChannel MessageRoundTrip StepRun

def upload (ciphertext : Bytes) : Bytes :=
  requestToSendFileMessage sampleId ciphertext.length (nameField [0x78]) ciphertext

def approval : Bytes := crcStatusRequestMessage requestCrcValid sampleId (nameField [0x78])

def approvalRequest : CrcStatusRequest :=
  ⟨⟨sampleId, clientVersion, requestCrcValid, clientIdSize + fileNameSize⟩, sampleId, [0x78]⟩

theorem truthful_approval_iff_empty : ∃ s out,
    System.lastServed .trivial .withClient [upload []] approval = some (s, out) ∧
      Response.receivingApproved ∈ out.sent ∧
      Truthful .undisturbed s.world approvalRequest out := by
  have hfacts : (System.lastServed .trivial .withClient [upload []] approval).map (fun ⟨s, out⟩ =>
      ((getFileInstance s.world sampleId [0x78]).map fun file =>
        (saved .undisturbed s.world.disk file.fullPath file.content).2 &&
          (file.clientId = sampleId && file.filename = [0x78]), out.handled, out.sent)) =
      some (some true, some (.crcValid approvalRequest), [.receivingApproved]) := by
    decide +kernel
  obtain ⟨⟨s, out⟩, hlast, hfacts⟩ := Option.map_eq_some_iff.mp hfacts
  simp only [Prod.mk.injEq] at hfacts
  obtain ⟨hfile, hhandled, hsent⟩ := hfacts
  refine ⟨s, out, hlast, by simp [hsent],
    (truthful_approval_iff (lastServed_eq_some hlast).2 hhandled).mpr fun _ file hentry => ?_⟩
  rw [show getFileInstance s.world sampleId [0x78] = some file from hentry, Option.map_some,
    Option.some.injEq, Bool.and_eq_true, Bool.and_eq_true, decide_eq_true_eq,
    decide_eq_true_eq] at hfile
  exact .inr ⟨rfl, (saved_eq_true_iff _ _ _ _).mp hfile.1, .inr hfile.2⟩

/-- An upload that is not decrypted replaces the entry, and its approval empties the file. -/
theorem not_truthful_undecrypted :
    ¬∀ (crypto : PyCrypto) (w : World) (es : List Event) (s : System) (c : ℕ) (r : RecvResult)
      (env : Env) (out : ReadStep) (q : CrcStatusRequest), Run (Step crypto) (.initial w) es s →
        s.served crypto c r env = some out → out.handled = some (.crcValid q) →
          Truthful env s.world q out := by
  intro h
  have hfacts : (System.lastServed .trivial .withClient [upload [], upload [0]] approval).map
      (fun ⟨_, out⟩ => ((getFileInstance out.world sampleId [0x78]).map (·.content),
        out.handled, out.sent)) =
      some (some none, some (.crcValid approvalRequest), [.receivingApproved]) := by
    decide +kernel
  obtain ⟨⟨s, out⟩, hlast, hfacts⟩ := Option.map_eq_some_iff.mp hfacts
  simp only [Prod.mk.injEq] at hfacts
  obtain ⟨hafter, hhandled, hsent⟩ := hfacts
  obtain ⟨⟨es, hrun⟩, hserved⟩ := lastServed_eq_some hlast
  have htruth := h .trivial .withClient es s 0 _ .undisturbed out _ hrun hserved hhandled
  obtain ⟨⟨file, bytes, hentry, hcontent, -⟩, -⟩ := htruth.1 (by simp [hsent])
  rw [show getFileInstance out.world sampleId [0x78] = some file from hentry, Option.map_some,
    hcontent] at hafter
  cases hafter

end Sample

end ApprovalAnswers
