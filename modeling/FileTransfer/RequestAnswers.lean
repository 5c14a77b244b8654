import FileTransfer.ClientDialogue
import FileTransfer.CrcAnswers

/-! # Which requests are answered

A handler either ends in the one success response of its request, and the read loop goes on,
or the thread ends. -/
namespace RequestAnswers

open ByteField ServerProtocol ServerTables ServerState ServerFiles ServerDatabase ServerHandlers
  ServerThread RaisingProgram ClientDialogue

section Definitions

variable (crypto : PyCrypto) (env : Env) (w : World)

def codeOf : Request → ℕ
  | .registration _ => requestRegistration
  | .publicKey _ => requestPublicKey
  | .sendFile _ => requestToSendFile
  | .crcValid _ => requestCrcValid
  | .crcResend _ => invalidCrcResendRequest
  | .crcAbort _ => invalidCrcAbort

/-- The handler gets to its success response. -/
def Handled : Request → Prop
  | .registration q => Registrable (Turn.start w env) q.name ∧ env.sql 1 = .done ∧
      ∀ row ∈ w.db.server, row.id ≠ env.uuid
  | .publicKey q => Known (Turn.start w env) q.header.clientID ∧ env.sql 2 = .done ∧
      env.sql 3 = .done ∧ (encryptAesKeyWithRsaPublic crypto env env.aesKey.val
        q.publicKey.val).isSome = true
  | .sendFile q => Known (Turn.start w env) q.header.clientID ∧ env.sql 1 = .done
  | .crcValid q => Saves env w q ∧ env.sql 3 ≠ .connectRaises
  | .crcResend q => Known (Turn.start w env) q.header.clientID ∧
      ∃ file, resendFile q (Turn.start w env) = some file ∧ file.content ≠ none
  | .crcAbort _ => False

/-- The same, on a socket that takes the response. -/
def Answerable (q : Request) : Prop := Handled crypto env w q ∧ env.sendOk = true

def SizeOf (size : ℕ) : Request → Prop
  | .sendFile q => size = q.contentSize
  | .crcResend q => ∃ file content, resendFile q (Turn.start w env) = some file ∧
      file.content = some content ∧ size = content.length
  | _ => False

def Origin (q : Request) : Response → Prop
  | .publicKey _ encrypted size => size = clientIdSize + encrypted.length ∧
      ∃ key : Field publicKeySize,
        crypto.rsaOaepEncrypt key.val env.oaepSeed env.aesKey.val = some encrypted
  | .fileReceivedCrcValue _ size _ checksum => SizeOf env w size q ∧
      (checksum = 0 ∨ ∃ bytes, checksum = crypto.crc32 bytes)
  | _ => True

def Succeeds (q : Request) (out : ReadStep) : Prop :=
  out.control = .reading ∧ ∃ r, out.sent = [r] ∧ successOf (codeOf q) = some r.code ∧
    Origin crypto env w q r

def Answers (q : Request) (out : ReadStep) : Prop :=
  (Answerable crypto env w q → Succeeds crypto env w q out) ∧
    (¬Answerable crypto env w q → out.control.awaits = false)

end Definitions

variable {crypto : PyCrypto} {env : Env} {w : World} {handled : Option Request} {q : Request}
  {handler : ServerM Bool} {u : Turn}

section Endings

theorem ends_refused (h : handler.run (Turn.start w env) = (refuse env).run u) :
    (settle env w handled handler).control.awaits = false := by
  rw [settle_refused env h]
  dsimp only
  split <;> rfl

theorem ends_raised {e : PyError} (h : handler.run (Turn.start w env) = (.raised e, u)) :
    (settle env w handled handler).control.awaits = false := by
  rw [settle_raised env h]
  rfl

theorem ends_false (h : handler.run (Turn.start w env) = (.value false, u)) :
    (settle env w handled handler).control.awaits = false := by
  rw [settle_value env h]
  dsimp only
  cases env.sendOk <;> rfl

theorem answers_ended (hno : ¬Handled crypto env w q)
    (h : (settle env w handled handler).control.awaits = false) :
    Answers crypto env w q (settle env w handled handler) :=
  ⟨fun hyes => absurd hyes.1 hno, fun _ => h⟩

theorem answers_written {r : Response} (hyes : Handled crypto env w q)
    (h : handler.run (Turn.start w env) = (write env r).run u) (hsent : u.sent = [])
    (hcode : successOf (codeOf q) = some r.code) (horigin : Origin crypto env w q r) :
    Answers crypto env w q (settle env w handled handler) := by
  rw [settle_written env h, hsent]
  constructor
  · rintro ⟨-, hok⟩
    rw [if_pos hok, if_pos hok]
    exact ⟨rfl, r, rfl, hcode, horigin⟩
  · intro hno
    rw [if_neg fun hok => hno ⟨hyes, hok⟩]
    rfl

end Endings

section Requests

theorem registration_answers (q : RegistrationRequest) :
    Answers crypto env w (.registration q) (settle env w handled (registration env q)) := by
  by_cases hopen : Registrable (Turn.start w env) q.name
  · have hrun := registration_stored env hopen
    have hsql : (Turn.start w env).sql 1 = env.sql 1 := rfl
    rw [hsql] at hrun
    by_cases hraises : env.sql 1 = .connectRaises
    · rw [if_pos hraises] at hrun
      refine answers_ended ?_ (ends_raised hrun)
      rintro ⟨-, hdone, -⟩
      cases hraises.symm.trans hdone
    · rw [if_neg hraises] at hrun
      by_cases hdone : env.sql 1 = .done
      · rw [if_pos hdone] at hrun
        cases hinsert : insertClient ⟨env.uuid, q.name, none, env.now, none⟩
            (Turn.start w env).world.db with
        | none =>
          rw [hinsert] at hrun
          refine answers_ended ?_ (ends_refused hrun)
          rintro ⟨-, -, hfresh⟩
          unfold insertClient at hinsert
          rw [dif_pos (by exact hfresh)] at hinsert
          cases hinsert
        | some result =>
          obtain ⟨a, db⟩ := result
          rw [hinsert] at hrun
          have hfresh : ∀ row ∈ w.db.server, row.id ≠ env.uuid := by
            unfold insertClient at hinsert
            split at hinsert
            · next h => exact h
            · cases hinsert
          exact answers_written ⟨hopen, hdone, hfresh⟩ hrun rfl rfl trivial
      · rw [if_neg hdone] at hrun
        refine answers_ended ?_ (ends_refused hrun)
        rintro ⟨-, h, -⟩
        exact hdone h
  · refine answers_ended (fun h => hopen h.1) ?_
    exact ends_refused (registration_refused env hopen)

theorem publicKey_answers (q : PublicKeyRequest) :
    Answers crypto env w (.publicKey q) (settle env w handled (publicKey crypto env q)) := by
  by_cases hk : Known (Turn.start w env) q.header.clientID
  · have hsql : (Turn.start w env).sql = env.sql := rfl
    by_cases h₂ : env.sql 2 = .done
    · have hrun := publicKey_set crypto env hk h₂
      rw [hsql] at hrun
      cases h₃ : env.sql 3 with
      | connectRaises =>
        rw [if_pos h₃] at hrun
        refine answers_ended ?_ (ends_raised hrun)
        rintro ⟨-, -, hdone, -⟩
        cases h₃.symm.trans hdone
      | fails =>
        rw [if_neg (by rw [h₃]; decide), if_pos h₃] at hrun
        refine answers_ended ?_ (ends_false hrun)
        rintro ⟨-, -, hdone, -⟩
        cases h₃.symm.trans hdone
      | done =>
        rw [if_neg (by rw [h₃]; decide), if_neg (by rw [h₃]; decide)] at hrun
        cases hkey : encryptAesKeyWithRsaPublic crypto env env.aesKey.val q.publicKey.val with
        | none =>
          rw [hkey] at hrun
          refine answers_ended ?_ (ends_raised hrun)
          rintro ⟨-, -, -, hsome⟩
          rw [hkey] at hsome
          cases hsome
        | some encrypted =>
          rw [hkey] at hrun
          exact answers_written ⟨hk, h₂, h₃, by rw [hkey]; rfl⟩ hrun rfl rfl
            ⟨rfl, q.publicKey, hkey⟩
    · have hno : ¬Handled crypto env w (.publicKey q) := fun h => h₂ h.2.1
      have hrun := publicKey_unset crypto env hk h₂
      dsimp only at hrun
      split at hrun
      · exact answers_ended hno (ends_raised hrun)
      · exact answers_ended hno (ends_refused hrun)
  · refine answers_ended (fun h => hk h.1) ?_
    exact ends_refused (publicKey_unknown crypto env hk)

theorem sendFile_answers (q : RequestToSendFile) :
    Answers crypto env w (.sendFile q) (settle env w handled (sendFile crypto env q)) := by
  by_cases hk : Known (Turn.start w env) q.header.clientID
  · by_cases h₁ : env.sql 1 = .done
    · obtain ⟨file, u, hrun, hsent, hcrc, -⟩ := @CrcAnswers.sendFile_answer crypto env w q hk h₁
      exact answers_written ⟨hk, h₁⟩ hrun hsent rfl ⟨rfl, hcrc⟩
    · obtain ⟨e, hrun⟩ := sendFile_noKey crypto env hk h₁
      exact answers_ended (fun h => h₁ h.2) (ends_raised hrun)
  · refine answers_ended (fun h => hk h.1) ?_
    exact ends_refused (sendFile_unknown crypto env hk)

theorem crcValid_answers (q : CrcStatusRequest) :
    Answers crypto env w (.crcValid q) (settle env w handled (crcValid env q)) := by
  by_cases hsaves : Saves env w q
  · obtain ⟨file, hfile⟩ := Option.isSome_iff_exists.mp hsaves.2.2
    obtain ⟨u, hrun, -, hsent, -⟩ := crcValid_saves env hsaves hfile
    by_cases hraises : env.sql 3 = .connectRaises
    · rw [if_pos hraises] at hrun
      exact answers_ended (fun h => h.2 hraises) (ends_refused hrun)
    · rw [if_neg hraises] at hrun
      exact answers_written ⟨hsaves, hraises⟩ hrun hsent rfl trivial
  · obtain ⟨u, hrun, -⟩ := crcValid_refused env hsaves
    exact answers_ended (fun h => hsaves h.1) (ends_refused hrun)

theorem crcResend_answers (q : CrcStatusRequest) :
    Answers crypto env w (.crcResend q) (settle env w handled (crcResend crypto env q)) := by
  by_cases hk : Known (Turn.start w env) q.header.clientID
  · have hrun := crcResend_known crypto env hk
    cases hfile : resendFile q (Turn.start w env) with
    | none =>
      rw [hfile] at hrun
      have hno : ¬Handled crypto env w (.crcResend q) := by
        rintro ⟨-, file, hsome, -⟩
        cases hfile.symm.trans hsome
      dsimp only at hrun
      rw [Prog.run_bind, write_run] at hrun
      refine answers_ended hno ?_
      by_cases hok : env.sendOk = true
      · rw [if_pos hok] at hrun
        exact ends_false hrun
      · rw [if_neg hok] at hrun
        rw [settle_hangs env hrun]
        rfl
    | some file =>
      rw [hfile] at hrun
      dsimp only at hrun
      cases hcontent : file.content with
      | none =>
        rw [hcontent] at hrun
        refine answers_ended ?_ (ends_raised hrun)
        rintro ⟨-, file', hsome, hne⟩
        cases hfile.symm.trans hsome
        exact hne hcontent
      | some content =>
        rw [hcontent] at hrun
        refine answers_written ⟨hk, file, hfile, ?_⟩ hrun rfl rfl
          ⟨⟨file, content, hfile, hcontent, rfl⟩, .inr ⟨content, rfl⟩⟩
        rw [hcontent]
        exact Option.some_ne_none _
  · refine answers_ended (fun h => hk h.1) ?_
    exact ends_refused (crcResend_unknown crypto env hk)

theorem handle_answers (q : Request) :
    Answers crypto env w q (settle env w handled (handle crypto env q)) := by
  cases q with
  | registration q => exact registration_answers q
  | publicKey q => exact publicKey_answers q
  | sendFile q => exact sendFile_answers q
  | crcValid q => exact crcValid_answers q
  | crcResend q => exact crcResend_answers q
  | crcAbort q => exact answers_ended (fun h => h) (ends_raised (crcAbort_run q _))

end Requests

end RequestAnswers
