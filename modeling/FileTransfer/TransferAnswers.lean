import FileTransfer.ServerThread

/-! # The server's part in a transfer

What each request of a transfer leaves on the server when the read loop goes on after it.
An upload that was not stored leaves nothing for the lookups, or the new content. -/
namespace TransferAnswers

open ByteField ServerProtocol ServerTables ServerState ServerFiles ServerDatabase ServerHandlers
  ServerThread RaisingProgram

section Definitions

def KeyIs (w : World) (clientId : ClientId) (key : Bytes) : Prop :=
  ∀ row, w.db.clientRow clientId = some row → row.aesKey = some key

def ContentIs (w : World) (clientId : ClientId) (fileName : Text) (content : Bytes) : Prop :=
  ∀ file, getFileInstance w clientId fileName = some file → file.content = some content

def SavesWhole (env : Env) (w : World) (q : CrcStatusRequest) : Prop :=
  Saves env w q → env.sql 3 ≠ .connectRaises → env.sendOk = true →
    ∀ file, getFileInstance w q.clientID q.fileName = some file →
      Writable env w.disk file.fullPath file.content

def GivesUp (r : Response) : Prop := r = .registrationFailed ∨ r = .emptyCrcValue

def Tells (crypto : PyCrypto) (content : Bytes) (r : Response) : Prop :=
  ∃ id size fileName, r = .fileReceivedCrcValue id size fileName (crypto.crc32 content)

/-- The thread ends, or it reads on after one answer that is as good as asked for. -/
def Settles (good : World → Response → Prop) (out : ReadStep) : Prop :=
  (out.control.awaits = false ∧ ∀ r ∈ out.sent, GivesUp r) ∨
    out.control = .reading ∧ ∃ r, out.sent = [r] ∧ good out.world r

end Definitions

variable {crypto : PyCrypto} {env : Env} {w : World} {handled : Option Request}
  {handler : ServerM Bool} {good : World → Response → Prop} {u : Turn}

section Settling

theorem Settles.mono {good' : World → Response → Prop} {out : ReadStep}
    (hmono : ∀ w r, good w r → good' w r) (h : Settles good out) : Settles good' out := by
  rcases h with hends | ⟨hcontrol, r, hsent, hr⟩
  · exact .inl hends
  · exact .inr ⟨hcontrol, r, hsent, hmono _ r hr⟩

theorem settles_written {r : Response}
    (h : handler.run (Turn.start w env) = (write env r).run u) (hsent : u.sent = [])
    (hgood : good u.world r) : Settles good (settle env w handled handler) := by
  rw [settle_written env h, hsent]
  by_cases hok : env.sendOk = true
  · rw [if_pos hok, if_pos hok]
    exact .inr ⟨rfl, r, rfl, hgood⟩
  · rw [if_neg hok, if_neg hok]
    exact .inl ⟨rfl, List.forall_mem_nil _⟩

theorem settles_refused (h : handler.run (Turn.start w env) = (refuse env).run u)
    (hsent : u.sent = []) : Settles good (settle env w handled handler) := by
  rw [settle_refused env h, hsent]
  by_cases hok : env.sendOk = true
  · rw [if_pos hok, if_pos hok]
    refine .inl ⟨rfl, fun r hr => .inl ?_⟩
    simpa using hr
  · rw [if_neg hok, if_neg hok]
    exact .inl ⟨rfl, List.forall_mem_nil _⟩

theorem settles_raised {e : PyError} (h : handler.run (Turn.start w env) = (.raised e, u))
    (hsent : u.sent = []) : Settles good (settle env w handled handler) := by
  rw [settle_raised env h, hsent]
  exact .inl ⟨rfl, List.forall_mem_nil _⟩

theorem settles_false (h : handler.run (Turn.start w env) = (.value false, u))
    (hsent : ∀ r ∈ u.sent, GivesUp r) : Settles good (settle env w handled handler) := by
  rw [settle_value env h]
  by_cases hok : env.sendOk = true
  · rw [hok]
    refine .inl ⟨rfl, fun r hr => ?_⟩
    rcases List.mem_append.mp hr with hr | hr
    · exact hsent r hr
    · exact .inl (List.mem_singleton.mp hr)
  · have hok' : env.sendOk = false := by simpa using hok
    rw [hok']
    exact .inl ⟨rfl, hsent⟩

theorem malformed_settles (refused : Bool) :
    Settles good (ServerThread.react crypto env w (.malformed refused)) := by
  obtain ⟨hends, -, hsent⟩ := react_malformed crypto env w refused
  exact .inl ⟨hends, fun r hr => .inl (hsent r hr)⟩

theorem react_settles {r : Received} (hpartly : ∀ p, r ≠ .partly p)
    (hparsed : ∀ request, r = .parsed request →
      Settles good (settle env w (some request) (handle crypto env request))) :
    Settles good (ServerThread.react crypto env w r) := by
  cases r with
  | parsed request => exact hparsed request rfl
  | malformed refused => exact malformed_settles refused
  | partly p => exact absurd rfl (hpartly p)
  | endOfStream => exact .inl ⟨rfl, List.forall_mem_nil _⟩
  | failure => exact .inl ⟨rfl, List.forall_mem_nil _⟩

end Settling

section Requests

theorem registration_settles (q : RegistrationRequest) :
    Settles (fun _ r => ∃ clientId, r = .registrationSucceeded clientId)
      (settle env w handled (registration env q)) := by
  by_cases h : Registrable (Turn.start w env) q.name
  · have hrun := registration_stored env h
    split at hrun
    · exact settles_raised hrun rfl
    · split at hrun
      · exact settles_refused hrun rfl
      · exact settles_written hrun rfl ⟨_, rfl⟩
  · have hrun := registration_refused env h
    refine settles_refused hrun ?_
    split <;> rfl

theorem publicKey_settles (q : PublicKeyRequest) :
    Settles (fun w' r => ∃ encrypted,
        crypto.rsaOaepEncrypt q.publicKey.val env.oaepSeed env.aesKey.val = some encrypted ∧
          r = .publicKey q.header.clientID encrypted (clientIdSize + encrypted.length) ∧
          KeyIs w' q.header.clientID env.aesKey.val)
      (settle env w handled (publicKey crypto env q)) := by
  by_cases hk : Known (Turn.start w env) q.header.clientID
  · by_cases h₂ : (Turn.start w env).sql 2 = .done
    · have hrun := publicKey_set crypto env hk h₂
      split at hrun
      · exact settles_raised hrun rfl
      · split at hrun
        · exact settles_false hrun (List.forall_mem_nil _)
        · split at hrun
          · exact settles_raised hrun rfl
          · next encrypted hencrypted =>
            refine settles_written hrun rfl ⟨encrypted, hencrypted, rfl, fun row hrow => ?_⟩
            simp only [sessionTurn, inWorld_world, clientRow_updateClients] at hrow
            obtain ⟨old, -, rfl⟩ := Option.map_eq_some_iff.mp hrow
            rfl
    · have hrun := publicKey_unset crypto env hk h₂
      dsimp only at hrun
      split at hrun
      · exact settles_raised hrun rfl
      · exact settles_refused hrun rfl
  · exact settles_refused (publicKey_unknown crypto env hk) rfl

theorem contentIs_upload {t : Turn} {file : File} {content : Bytes} (hu : Uploads t u file)
    (hpath : file.fullPath = filePath t.world file.clientId file.filename)
    (hcontent : file.content = some content) :
    ContentIs u.world file.clientId file.filename content := by
  have hfolder : clientFolder u.world file.clientId = clientFolder t.world file.clientId := by
    rw [clientFolder, hu.cwd, clientFolder]
  intro found hfound
  have hget := (getFileInstance_keyed hfound).2.1
  rw [(getFileInstance_keyed hfound).1, filePath, hfolder, ← filePath, ← hpath, hu.fileDict,
    FileDict.store_get, if_pos rfl, Option.some.injEq] at hget
  rw [← hget, hcontent]

theorem sendFile_settles {q : RequestToSendFile} {key content padding : Bytes}
    (hkey : KeyIs w q.header.clientID key)
    (hdecrypt : crypto.aesCbcDecrypt key q.fileContent = some (content ++ padding))
    (hsize : q.contentSize = content.length) :
    Settles (fun w' r => r.code = msgReceivedCrc ∧
        ContentIs w' q.header.clientID q.fileName content)
      (settle env w handled (sendFile crypto env q)) := by
  by_cases hk : Known (Turn.start w env) q.header.clientID
  · by_cases h₁ : env.sql 1 = .done
    · obtain ⟨row, hrow⟩ : ∃ row, w.db.clientRow q.header.clientID = some row :=
        hasClient_iff.mp hk.2
      have hplain : decrypt crypto q.fileContent row.aesKey q.contentSize = some content := by
        simp [decrypt, hkey row hrow, hdecrypt, hsize]
      by_cases hready : DirReady env w q.header.clientID
      · obtain ⟨u, hrun, hu, -, -⟩ := storeFileinDB_ready crypto env q.fileName content
          (t := (Turn.start w env).pop.pop) hready
        rw [← hplain] at hrun
        exact settles_written (sendFile_stored crypto env hk h₁ hrow hrun) hu.sent
          ⟨rfl, contentIs_upload hu rfl rfl⟩
      · obtain ⟨file, u, hrun, hsent, -, hdir, -⟩ := storeFileinDB_not_ready crypto env q.fileName
          (decrypt crypto q.fileContent row.aesKey q.contentSize)
          (t := (Turn.start w env).pop.pop) hready
        refine settles_written (sendFile_stored crypto env hk h₁ hrow hrun) hsent ⟨rfl, ?_⟩
        intro found hfound
        have hisDir := (getFileInstance_keyed hfound).2.2
        rw [hdir] at hisDir
        cases hisDir
    · obtain ⟨e, hrun⟩ := sendFile_noKey crypto env hk h₁
      exact settles_raised hrun rfl
  · exact settles_refused (sendFile_unknown crypto env hk) rfl

theorem crcResend_settles {q : CrcStatusRequest} {content : Bytes}
    (hcontent : ContentIs w q.clientID q.fileName content) :
    Settles (fun w' r => Tells crypto content r ∧ ContentIs w' q.clientID q.fileName content)
      (settle env w handled (crcResend crypto env q)) := by
  by_cases hk : Known (Turn.start w env) q.header.clientID
  · have hrun := crcResend_known crypto env hk
    split at hrun
    · rw [Prog.run_bind, write_run] at hrun
      by_cases hok : env.sendOk = true
      · rw [if_pos hok] at hrun
        refine settles_false hrun fun r hr => .inr ?_
        simpa using hr
      · rw [if_neg hok] at hrun
        rw [settle_hangs env hrun]
        exact .inl ⟨rfl, List.forall_mem_nil _⟩
    · next file hfile =>
      split at hrun
      · exact settles_raised hrun rfl
      · next bytes hbytes =>
        have hsame : file.content = some content := by
          unfold resendFile at hfile
          split at hfile
          · exact hcontent file hfile
          · cases hfile
        cases hbytes.symm.trans hsame
        exact settles_written hrun rfl ⟨⟨_, _, _, rfl⟩, hcontent⟩
  · exact settles_refused (crcResend_unknown crypto env hk) rfl

theorem crcValid_settles {q : CrcStatusRequest} {content : Bytes}
    (hcontent : ContentIs w q.clientID q.fileName content) (hsaves : SavesWhole env w q) :
    Settles (fun w' r => r = .receivingApproved ∧
        HoldsFile w'.disk (filePath w' q.clientID q.fileName) content)
      (settle env w handled (crcValid env q)) := by
  by_cases hs : Saves env w q
  · obtain ⟨file, hfile⟩ := Option.isSome_iff_exists.mp hs.2.2
    obtain ⟨u, hrun, hworld, hsent, -⟩ := crcValid_saves env hs hfile
    by_cases hr : env.sql 3 = .connectRaises
    · rw [if_pos hr] at hrun
      exact settles_refused hrun hsent
    · rw [if_neg hr] at hrun
      by_cases hok : env.sendOk = true
      · refine settles_written hrun hsent ⟨rfl, ?_⟩
        have hwritable := hsaves hs hr hok file hfile
        have hbytes := hcontent file hfile
        have hcwd : u.world.cwd = w.cwd := by
          rw [hworld]
          simp [verifiedWorld, World.store]
        have hpath : filePath u.world q.clientID q.fileName = file.fullPath := by
          rw [filePath, clientFolder, hcwd, (getFileInstance_keyed hfile).1, filePath, clientFolder]
        rw [hpath, hworld]
        rw [hbytes] at hwritable
        simp only [verifiedWorld, if_true, hbytes]
        exact saved_holds env hwritable
      · rw [write_run, if_neg hok] at hrun
        rw [settle_hangs env hrun, hsent]
        exact .inl ⟨rfl, List.forall_mem_nil _⟩
  · obtain ⟨u, hrun, hu, -⟩ := crcValid_refused env hs
    exact settles_refused hrun hu.sent

end Requests

end TransferAnswers
