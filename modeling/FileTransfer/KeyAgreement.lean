import FileTransfer.ClientColumns
import FileTransfer.DatabaseFile
import FileTransfer.LockRelease
import FileTransfer.PathConfinement
import FileTransfer.TransferAnswers
import FileTransfer.TransferSession

/-! # Agreement on the session key

The key is stored with the client, not with the connection. The thread that sent it holds
the lock until it ends, so what it reads back is what it sent last, as long as no approved
file replaces the database. -/
namespace KeyAgreement

open ByteField ServerProtocol ServerTables ServerState ServerDatabase ServerHandlers ServerThread
  ServerSystem ClientChannel StepRun RaisingProgram ServerFrames ClientColumns TransferAnswers
open ServerFiles (filePath)
open DatabaseFile (Sqlite Server AsWritten KeepsDatabase aboveName database step_kept served_kept
  served_answers react react_handled_iff)
open LockRelease (Fresh step_fresh not_ended_of_awaits)
open MessageRoundTrip (nameField)
open TransferSession (sampleKey samplePublicKey sampleEnv samplePy sampleCiphertext)

section Definitions

abbrev Keys := ClientId → Option Bytes

/-- A step of the thread sends the key of its turn in every 2102. -/
def told (env : Env) (out : ReadStep) (keys : Keys) : Keys :=
  out.sent.foldl (fun keys response => match response with
    | .publicKey id _ _ => Function.update keys id (some env.aesKey.val)
    | _ => keys) keys

abbrev Session := Server × (ℕ → Keys)

variable (sqlite : Sqlite) (crypto : PyCrypto)

def tell (p : Session) : Event → ℕ → Keys
  | .recv c r env => match p.1.served sqlite crypto c r env with
    | some out => Function.update p.2 c (told env out (p.2 c))
    | none => p.2
  | _ => p.2

def tellNext (p : Session) (e : Event) : Option Session :=
  (p.1.next sqlite crypto e).map fun s => (s, tell sqlite crypto p e)

def TellingStep (p : Session) (e : Event) (p' : Session) : Prop :=
  tellNext sqlite crypto p e = some p'

def KeptStep (p : Session) (e : Event) (p' : Session) : Prop :=
  TellingStep sqlite crypto p e p' ∧ KeepsDatabase p.1.system e

/-- `handleSendFileRequest` from the decryption on. -/
def storeDecrypted (env : Env) (request : RequestToSendFile) (aesKey : Option Bytes) :
    ServerM Bool := do
  let decryptedContent := decrypt crypto request.fileContent aesKey request.contentSize
  let file ← storeFileinDB crypto env request.header.clientID request.fileName decryptedContent
  let checksum := match file with
    | some file => file.crc
    | none => 0
  write env (.fileReceivedCrcValue request.header.clientID.val request.contentSize
    request.fileName checksum)

/-- The handler reads this key from the database and goes on to decrypt under it. -/
structure DecryptsUnder (env : Env) (w : World) (q : RequestToSendFile) (key : Bytes) : Prop where
  reads : ((getClientsSymmetricKey q.header.clientID).run (Turn.start w env).pop).1 =
    .value (some key)
  goesOn : (sendFile crypto env q).run (Turn.start w env) =
    (storeDecrypted crypto env q (some key)).run (Turn.start w env).pop.pop

/-- The key column, as far as it is the client's. -/
def keyOf (id : ClientId) (row : ClientRow) : Option (Option Bytes) :=
  if row.id = id then some row.aesKey else none

def Holds (w : World) (keys : Keys) : Prop :=
  ∀ id key, keys id = some key → (w.db.clientRow id).map (·.aesKey) = some (some key)

/-- Threads that have not ended: there is one at most, and it holds the lock. -/
structure Solo (s : System) : Prop where
  held : ∀ c conn, s.thread c = some conn → conn.control.ended = false → s.lock = true
  single : ∀ c d conn conn', s.thread c = some conn → s.thread d = some conn' →
    conn.control.ended = false → conn'.control.ended = false → c = d

structure Invariant (p : Session) : Prop where
  readable : p.1.readable = true
  fresh : Fresh p.1.system
  solo : Solo p.1.system
  untold : ∀ c, p.1.system.thread c = none → ∀ id, p.2 c id = none
  holds : ∀ c conn, p.1.system.thread c = some conn → conn.control.awaits = true →
    Holds p.1.system.world (p.2 c)

end Definitions

section Handlers

variable {crypto : PyCrypto} {env : Env} {w w' : World} {control : Control} {r : RecvResult}
  {keys : Keys}

theorem told_silent {out : ReadStep}
    (h : ∀ r ∈ out.sent, ∀ id enc size, r ≠ .publicKey id enc size) :
    told env out keys = keys := by
  unfold told
  generalize out.sent = sent at h
  induction sent with
  | nil => rfl
  | cons response sent ih =>
    rw [List.foldl_cons]
    split
    · next id enc size => exact absurd rfl (h _ (List.mem_cons_self ..) id enc size)
    · exact ih fun r hr => h r (List.mem_cons_of_mem _ hr)

theorem key_eq (db : Tables) (id : ClientId) :
    (db.clientRow id).map (·.aesKey) = (columns (keyOf id) db).findSome? fun key => key := by
  rw [columns, List.findSome?_map, Tables.clientRow]
  induction db.server with
  | nil => rfl
  | cons row rows ih =>
    by_cases hid : row.id = id
    · simp [keyOf, hid]
    · have hnone : keyOf id row = none := if_neg hid
      rw [List.find?_cons_of_neg (by simpa using hid), List.findSome?_cons, Function.comp, hnone]
      exact ih

theorem key_congr {id : ClientId} (h : columns (keyOf id) w'.db = columns (keyOf id) w.db) :
    (w'.db.clientRow id).map (·.aesKey) = (w.db.clientRow id).map (·.aesKey) := by
  rw [key_eq, h, ← key_eq]

theorem holds_columns (h : ∀ id, columns (keyOf id) w'.db = columns (keyOf id) w.db)
    (hk : Holds w keys) : Holds w' keys := by
  intro id key hkey
  rw [key_congr (h id)]
  exact hk id key hkey

/-- A new row stands behind those that are looked through first. -/
theorem holds_appended {row : ClientRow} (h : w'.db.server = w.db.server ++ [row])
    (hk : Holds w keys) : Holds w' keys := by
  intro id key hkey
  obtain ⟨old, hrow, haes⟩ := Option.map_eq_some_iff.mp (hk id key hkey)
  have hfound : w'.db.clientRow id = some old := by
    rw [Tables.clientRow, h, List.find?_append]
    exact Option.or_eq_some_iff.mpr (.inl hrow)
  rw [hfound, Option.map_some, haes]

theorem settled_silent {out : ReadStep} {good : World → Response → Prop} (h : Settles good out)
    (hgood : ∀ w r, good w r → ∀ id enc size, r ≠ .publicKey id enc size) :
    ∀ r ∈ out.sent, ∀ id enc size, r ≠ .publicKey id enc size := by
  rintro response hresponse id enc size rfl
  rcases h with ⟨-, hsent⟩ | ⟨-, r, hsent, hr⟩
  · rcases hsent _ hresponse with hr | hr
    · cases hr
    · cases hr
  · rw [hsent, List.mem_singleton] at hresponse
    exact hgood _ r hr id enc size hresponse.symm

theorem registration_silent {q : RegistrationRequest} {handled : Option Request} :
    ∀ r ∈ (settle env w handled (registration env q)).sent,
      ∀ id enc size, r ≠ .publicKey id enc size := by
  apply settled_silent (registration_settles q)
  rintro w r ⟨clientId, rfl⟩
  exact nofun

theorem registration_holds {q : RegistrationRequest} {handled : Option Request}
    (hk : Holds w keys) :
    let out := settle env w handled (registration env q)
    Holds out.world (told env out keys) := by
  dsimp only
  rw [told_silent registration_silent, (settle_world env w handled _).1]
  by_cases hopen : Registrable (Turn.start w env) q.name
  · rw [registration_stored env hopen]
    split
    · exact hk
    · split
      · rw [refuse_world]
        exact hk
      · next db hinsert =>
        rw [write_world]
        split at hinsert
        · obtain ⟨-, hrows⟩ := insertClient_rows hinsert
          exact holds_appended hrows hk
        · cases hinsert
  · rw [registration_refused env hopen, refuse_world]
    split
    · exact hk
    · exact hk

theorem hasClient_eq (db : Tables) (id : ClientId) :
    db.hasClient id = (columns (·.id) db).any fun c => c = id := by
  rw [columns, List.any_map]
  rfl

theorem publicKey_holds {q : PublicKeyRequest} {handled : Option Request} (hk : Holds w keys)
    (hawaits : (settle env w handled (publicKey crypto env q)).control.awaits = true) :
    let out := settle env w handled (publicKey crypto env q)
    Holds out.world (told env out keys) := by
  dsimp only
  have hordinary : Ordinary fun _ => True := ⟨trivial, trivial, fun _ _ _ _ => trivial⟩
  have hothers : ∀ id, id ≠ q.header.clientID → columns (keyOf id)
      (settle env w handled (publicKey crypto env q)).world.db = columns (keyOf id) w.db := by
    intro id hne
    refine (settle_leaves hordinary env ?_).1
    refine publicKey_leaves (fun _ _ => rfl) hordinary crypto env q (fun _ _ => rfl) ?_
      fun _ _ => trivial
    intro row key hrow
    have hskip : row.id ≠ id := by
      rw [hrow]
      exact hne.symm
    exact (if_neg hskip).trans (if_neg hskip).symm
  have hids : columns (·.id) (settle env w handled (publicKey crypto env q)).world.db =
      columns (·.id) w.db :=
    (settle_leaves hordinary env (publicKey_leaves (fun _ _ => rfl) hordinary crypto env q
      (fun _ _ => rfl) (fun _ _ _ => rfl) fun _ _ => trivial)).1
  have hknown : Known (Turn.start w env) q.header.clientID := by
    by_contra hunknown
    rw [settle_refused env (publicKey_unknown crypto env hunknown)] at hawaits
    dsimp only at hawaits
    split at hawaits <;> cases hawaits
  rcases @publicKey_settles crypto env w handled q with
    ⟨hended, -⟩ | ⟨-, r, hsent, encrypted, -, rfl, hkey⟩
  · rw [hawaits] at hended
    cases hended
  · have htold : told env (settle env w handled (publicKey crypto env q)) keys =
        Function.update keys q.header.clientID (some env.aesKey.val) := by
      rw [told, hsent]
      rfl
    rw [htold]
    intro id key hid
    by_cases hsame : id = q.header.clientID
    · rw [hsame, Function.update_self, Option.some.injEq] at hid
      have hclient := hknown.2
      rw [start_world, hasClient_eq, ← hids, ← hasClient_eq, hasClient_iff] at hclient
      obtain ⟨row, hrow⟩ := hclient
      rw [hsame, hrow, Option.map_some, hkey row hrow, hid]
    · rw [Function.update_of_ne hsame] at hid
      rw [key_congr (hothers id hsame)]
      exact hk id key hid

theorem readStep_others (hawaits : control.awaits = true)
    (hreg : ∀ q, received control r ≠ .parsed (.registration q))
    (hkey : ∀ q, received control r ≠ .parsed (.publicKey q)) (id : ClientId) :
    columns (keyOf id) (readStep crypto env w control r).world.db = columns (keyOf id) w.db ∧
      ∀ response ∈ (readStep crypto env w control r).sent,
        ∀ id enc size, response ≠ .publicKey id enc size := by
  have hordinary : Ordinary fun r => ∀ id enc size, r ≠ .publicKey id enc size :=
    ⟨nofun, nofun, fun _ _ _ _ => nofun⟩
  exact readStep_leaves (fun _ _ => rfl) hordinary crypto env w hawaits hreg hkey

theorem readStep_holds (hawaits : control.awaits = true) (hk : Holds w keys)
    (hgoes : (readStep crypto env w control r).control.awaits = true) :
    Holds (readStep crypto env w control r).world
      (told env (readStep crypto env w control r) keys) := by
  by_cases hreg : ∃ q, received control r = .parsed (.registration q)
  · obtain ⟨q, hq⟩ := hreg
    rw [readStep_eq_react crypto env w hawaits, hq]
    exact registration_holds hk
  · by_cases hkey : ∃ q, received control r = .parsed (.publicKey q)
    · obtain ⟨q, hq⟩ := hkey
      rw [readStep_eq_react crypto env w hawaits, hq] at hgoes ⊢
      exact publicKey_holds hk hgoes
    · push Not at hreg hkey
      have hleaves := fun id => @readStep_others crypto env w control r hawaits hreg hkey id
      rw [told_silent (hleaves emptyId).2]
      exact holds_columns (fun id => (hleaves id).1) hk

end Handlers

section Runs

variable {sqlite : Sqlite} {crypto : PyCrypto} {s s' : System} {p p' : Session} {e : Event}
  {es : List Event}

theorem finish_live {c d : ℕ} {conn conn' : Connection} {out : ReadStep} (hs : Solo s)
    (hc : s.thread c = some conn) (hlive : conn.control.ended = false)
    (hd : (s.finish c conn out).thread d = some conn') (hlive' : conn'.control.ended = false) :
    d = c ∧ conn'.control = out.control ∧ (s.finish c conn out).lock = true := by
  have hlock := hs.held c conn hc hlive
  by_cases hne : d = c
  · subst hne
    by_cases hclosed : out.control = .closed
    · cases (finish_self_closed d conn hclosed hlock).1.symm.trans hd
      cases hlive'
    · obtain ⟨hself, hheld⟩ := finish_self_live s d conn hclosed
      cases hself.symm.trans hd
      exact ⟨rfl, rfl, hheld.trans hlock⟩
  · rw [finish_other hne] at hd
    exact absurd (hs.single d c conn' conn hd hc hlive' hlive) hne

theorem finish_started {c : ℕ} {conn : Connection} {out : ReadStep} :
    (s.finish c conn out).thread c ≠ none := by
  unfold System.finish
  split <;> exact (Function.update_self ..).trans_ne (Option.some_ne_none _)

theorem start_live {c d : ℕ} {conn : Connection} (hs : Solo s) (hfree : s.lock = false)
    (hd : Function.update s.thread c (some ⟨.reading, 0⟩) d = some conn)
    (hlive : conn.control.ended = false) : d = c := by
  by_contra hne
  rw [Function.update_of_ne hne] at hd
  have hheld := hs.held d conn hd hlive
  rw [hfree] at hheld
  cases hheld

theorem step_solo (h : Step crypto s e s') (hs : Solo s) : Solo s' := by
  cases e with
  | accept =>
    obtain ⟨-, rfl⟩ := step_accept h
    exact ⟨hs.held, hs.single⟩
  | start =>
    obtain ⟨c, -, hfree, rfl⟩ := step_start h
    refine ⟨fun _ _ _ _ => rfl, ?_⟩
    intro d d' conn conn' hd hd' hlive hlive'
    rw [start_live hs hfree hd hlive, start_live hs hfree hd' hlive']
  | recv c r env =>
    obtain ⟨conn, hc, hawaits, rfl⟩ := step_recv h
    have hlive := not_ended_of_awaits hawaits
    constructor
    · intro d conn' hd hlive'
      exact (finish_live hs hc hlive hd hlive').2.2
    · intro d d' conn' conn'' hd hd' hlive' hlive''
      rw [(finish_live hs hc hlive hd hlive').1, (finish_live hs hc hlive hd' hlive'').1]

theorem tell_recv {c : ℕ} {conn : Connection} {r : RecvResult} {env : Env}
    (hread : p.1.readable = true) (hkeeps : KeepsDatabase p.1.system (.recv c r env))
    (hc : p.1.system.thread c = some conn) (hawaits : conn.control.awaits = true) :
    tell sqlite crypto p (.recv c r env) = Function.update p.2 c
      (told env (readStep crypto env p.1.system.world conn.control r) (p.2 c)) := by
  have hserved : p.1.served sqlite crypto c r env =
      some (readStep crypto env p.1.system.world conn.control r) := by
    rw [served_kept hread hkeeps]
    simp only [System.served, hc, hawaits, if_true]
  rw [tell, hserved]

theorem holds_none (w : World) : Holds w fun _ => none := fun _ _ h => nomatch h

theorem initial_invariant (w : World) : Invariant (.initial w, fun _ _ => none) where
  readable := rfl
  fresh := (LockRelease.initial_invariant w).fresh
  solo := ⟨fun _ _ h => (nomatch h), fun _ _ _ _ h => (nomatch h)⟩
  untold _ _ _ := rfl
  holds _ _ h := nomatch h

/-- The step lemma: another thread can change the keys in the table only when the one that
told them has ended. -/
theorem step_invariant (h : KeptStep sqlite crypto p e p') (hp : Invariant p) :
    Invariant p' := by
  obtain ⟨hnext, hkeeps⟩ := h
  obtain ⟨s', hserver, rfl⟩ := Option.map_eq_some_iff.mp hnext
  obtain ⟨hstep, hread⟩ := step_kept hserver hp.readable hkeeps
  have hfresh := step_fresh hstep hp.fresh
  have hsolo := step_solo hstep hp.solo
  obtain ⟨s', readable⟩ := s'
  refine ⟨hread, hfresh, hsolo, ?_, ?_⟩
  all_goals dsimp only at hstep ⊢
  · intro d hd id
    cases e with
    | accept =>
      obtain ⟨-, rfl⟩ := step_accept hstep
      exact hp.untold d hd id
    | start =>
      obtain ⟨c, -, -, rfl⟩ := step_start hstep
      have hne : d ≠ c := by
        rintro rfl
        cases (Function.update_self ..).symm.trans hd
      exact hp.untold d ((Function.update_of_ne hne ..).symm.trans hd) id
    | recv c r env =>
      obtain ⟨conn, hc, hawaits, rfl⟩ := step_recv hstep
      have hne : d ≠ c := by
        rintro rfl
        exact finish_started hd
      rw [finish_other hne] at hd
      rw [tell_recv hp.readable hkeeps hc hawaits, Function.update_of_ne hne]
      exact hp.untold d hd id
  · intro d conn' hd hawaits'
    cases e with
    | accept =>
      obtain ⟨-, rfl⟩ := step_accept hstep
      exact hp.holds d conn' hd hawaits'
    | start =>
      obtain ⟨c, hwaiting, hfree, rfl⟩ := step_start hstep
      obtain rfl := start_live hp.solo hfree hd (not_ended_of_awaits hawaits')
      have hnone := hp.untold d (hp.fresh.waiting d hwaiting).1
      have hkeys : p.2 d = fun _ => none := funext hnone
      have htell : tell sqlite crypto p .start d = fun _ => none := hkeys
      rw [htell]
      exact holds_none _
    | recv c r env =>
      obtain ⟨conn, hc, hawaits, rfl⟩ := step_recv hstep
      obtain ⟨rfl, hcontrol, -⟩ := finish_live hp.solo hc (not_ended_of_awaits hawaits) hd
        (not_ended_of_awaits hawaits')
      rw [hcontrol] at hawaits'
      rw [finish_world, tell_recv hp.readable hkeeps hc hawaits, Function.update_self]
      exact readStep_holds hawaits (hp.holds d conn hc hawaits) hawaits'

/-- The handler of a file as its two statements and what follows the decryption. -/
theorem sendFile_eq (env : Env) (q : RequestToSendFile) :
    sendFile crypto env q = (do
      if ¬(← clientExists q.header.clientID) then refuse env
      else
        let aesKey ← getClientsSymmetricKey q.header.clientID
        storeDecrypted crypto env q aesKey) := rfl

theorem key_read {env : Env} {w : World} {keys : Keys} {q : RequestToSendFile} {key : Bytes}
    (hsql : env.sql 0 = .done ∧ env.sql 1 = .done) (hk : Holds w keys)
    (htold : keys q.header.clientID = some key) : DecryptsUnder crypto env w q key := by
  obtain ⟨row, hrow, haes⟩ := Option.map_eq_some_iff.mp (hk _ key htold)
  have hdone : (Turn.start w env).pop.next = .done := hsql.2
  have hreads := getClientsSymmetricKey_run hdone hrow
  rw [haes] at hreads
  have hknown : Known (Turn.start w env) q.header.clientID :=
    ⟨hsql.1, hasClient_iff.mpr ⟨row, hrow⟩⟩
  refine ⟨by rw [hreads], ?_⟩
  rw [sendFile_eq, ifKnown_run, if_pos hknown, Prog.run_bind, hreads]

theorem publicKey_sent {env : Env} {w : World} {control : Control} {r : RecvResult}
    {id : ClientId} {encrypted : Bytes} {size : ℕ} (hawaits : control.awaits = true)
    (h : .publicKey id encrypted size ∈ (readStep crypto env w control r).sent) :
    ∃ q, received control r = .parsed (.publicKey q) ∧ q.header.clientID = id ∧
      crypto.rsaOaepEncrypt q.publicKey.val env.oaepSeed env.aesKey.val = some encrypted := by
  by_cases hkey : ∃ q, received control r = .parsed (.publicKey q)
  · obtain ⟨q, hq⟩ := hkey
    refine ⟨q, hq, ?_⟩
    rw [readStep_eq_react crypto env w hawaits, hq, ServerThread.react, handle] at h
    rcases @publicKey_settles crypto env w (some (.publicKey q)) q with
      ⟨-, hgives⟩ | ⟨-, r, hsent, encrypted', hencrypted, rfl, -⟩
    · rcases hgives _ h with hr | hr
      · cases hr
      · cases hr
    · rw [hsent, List.mem_singleton] at h
      cases h
      exact ⟨rfl, hencrypted⟩
  · by_cases hreg : ∃ q, received control r = .parsed (.registration q)
    · obtain ⟨q, hq⟩ := hreg
      rw [readStep_eq_react crypto env w hawaits, hq] at h
      exact absurd rfl (registration_silent _ h id encrypted size)
    · push Not at hreg hkey
      have hsilent := (@readStep_others crypto env w control r hawaits hreg hkey id).2
      exact absurd rfl (hsilent _ h id encrypted size)

structure Agreement (sqlite : Sqlite) (crypto : PyCrypto) (p : Session) : Prop where
  single : ∀ c d conn conn', p.1.system.thread c = some conn →
    p.1.system.thread d = some conn' → conn.control.ended = false →
    conn'.control.ended = false → c = d
  sent : ∀ c r env out id encrypted size, p.1.served sqlite crypto c r env = some out →
    .publicKey id encrypted size ∈ out.sent → ∃ q, out.handled = some (.publicKey q) ∧
      q.header.clientID = id ∧
      crypto.rsaOaepEncrypt q.publicKey.val env.oaepSeed env.aesKey.val = some encrypted
  decrypted : ∀ c r env out q key, p.1.served sqlite crypto c r env = some out →
    out.handled = some (.sendFile q) → p.2 c q.header.clientID = some key →
    env.sql 0 = .done ∧ env.sql 1 = .done →
    out = settle env p.1.system.world (some (.sendFile q)) (sendFile crypto env q) ∧
      DecryptsUnder crypto env p.1.system.world q key

/-- Main theorem: along every run that approves no file of the database, one connection at
most is served, and a file is decrypted under the key that its connection was told last for
the client. -/
theorem run_agreement {w : World}
    (h : Run (KeptStep sqlite crypto) (.initial w, fun _ _ => none) es p) :
    Agreement sqlite crypto p := by
  have hp := h.invariant (initial_invariant w) fun hs hstep => step_invariant hstep hs
  constructor
  · exact hp.solo.single
  · intro c r env out id encrypted size hserved hsent
    obtain ⟨conn, -, hawaits, rfl, hsame⟩ := served_answers hp.readable hserved
    rw [hsame] at hsent
    obtain ⟨q, hq, hid, hencrypted⟩ := publicKey_sent hawaits hsent
    exact ⟨q, react_handled_iff.mpr hq, hid, hencrypted⟩
  · intro c r env out q key hserved hhandled htold hsql
    obtain ⟨conn, hc, hawaits, rfl, -⟩ := served_answers hp.readable hserved
    have hq := react_handled_iff.mp hhandled
    exact ⟨by rw [hq]; rfl, key_read hsql (hp.holds c conn hc hawaits) htold⟩

end Runs

section Sample

def exchange : List Event :=
  [.accept, .start,
    .recv 0 (.chunk (publicKeyRequestMessage sampleId [0x61] samplePublicKey)) sampleEnv]

def letter : RequestToSendFile :=
  ⟨⟨sampleId, clientVersion, requestToSendFile, 291⟩, 1, [0x78], sampleCiphertext⟩

theorem run_agreement_exchange : ∃ (p : Session) (out : ReadStep),
    out.handled = some (.sendFile letter) ∧
      (out.world.fileDict.get (filePath out.world sampleId [0x78])).map (·.content) =
        some (some [0x61]) ∧
      DecryptsUnder samplePy .undisturbed p.1.system.world letter sampleKey.val := by
  have hfacts : (exchange.foldlM (guarded (fun p : Session => KeepsDatabase p.1.system)
      (tellNext .sample samplePy)) (.initial .withClient, fun _ _ => none)).bind (fun p =>
        (p.1.served .sample samplePy 0 (.chunk (requestToSendFileMessage sampleId 1
          (nameField [0x78]) sampleCiphertext)) .undisturbed).map fun out =>
            (p.2 0 sampleId, out.handled,
              (out.world.fileDict.get (filePath out.world sampleId [0x78])).map (·.content))) =
      some (some sampleKey.val, some (.sendFile letter), some (some [0x61])) := by
    decide +kernel
  obtain ⟨p, hp, hfacts⟩ := Option.bind_eq_some_iff.mp hfacts
  obtain ⟨out, hserved, hfacts⟩ := Option.map_eq_some_iff.mp hfacts
  simp only [Prod.mk.injEq] at hfacts
  obtain ⟨htold, hhandled, hstored⟩ := hfacts
  have hrun : Run (KeptStep .sample samplePy) _ exchange p := Run.of_guarded hp
  exact ⟨p, out, hhandled, hstored,
    ((run_agreement hrun).decrypted 0 _ _ out letter _ hserved hhandled htold ⟨rfl, rfl⟩).2⟩

/-- Blocks of 16 bytes, each written as one number. -/
def blocks (bs : List ℕ) : Bytes := bs.flatMap fun block => (leBytes 16 block).reverse

/-- What the AES of the sample key decrypts a block of zeros to. -/
def zeroDecrypted : ℕ := 0xCFA7B7936E3F12E1AF028E8D7D4D9B9B

/-- A database file of three pages, whose one client has another key. The space that SQLite
does not use is what zeros decrypt to. -/
def craftedDatabase : Bytes :=
  blocks ([0x53514C69746520666F726D6174203300, 0x02000101004020200000000300000003,
     0x00000000000000000000000200000004, 0x00000000000000000000000100000000,
     0x00000000000000000000000000000000, 0x00000000000000000000000000000003,
     0x002E7A700D0000000201330001960133, 0xE91A72926B4AC53F4BFB1D778CE395A1] ++
    List.replicate 11 zeroDecrypted ++
    [0x0000006102071717170181217461626C, 0x6566696C657366696C65730343524541,
     0x5445205441424C452066696C65732849, 0x442C46696C654E616D65205052494D41,
     0x5259204B45592C506174684E616D652C, 0x566172696669656429574954484F5554,
     0x20524F57494468010717191901812B74, 0x61626C65736572766572736572766572,
     0x02435245415445205441424C45207365, 0x72766572284944205052494D41525920,
     0x4B45592C4E616D652C5075626C69634B, 0x65792C4C6173745365656E2C4165734B,
     0x657929574954484F555420524F574944, 0x0A0000000101BE0001BE000000000000,
     0xE71285FE51B2F7760347F0356DED71D1] ++
    List.replicate 25 zeroDecrypted ++
    [0x00000000000000000000000000004106, 0x2C0F00412C0101010101010101010101,
     0x010101010161323032362D30312D3031, 0x2030303A30303A30302E303030303030,
     0x09090909090909090909090909090909, 0x0A000000000200000000000000000000,
     0x1A25056B9561E0A35A0C96E31059B497] ++
    List.replicate 30 zeroDecrypted)

/-- `craftedDatabase` encrypted under the sample key. -/
def craftedCiphertext : Bytes :=
  blocks ([0x7C06725E6FD6184BC3CD0572C87348B2, 0x42932317FDD3E8D6602435AD96D28148,
     0x40276ECDACB1E65FC32B44F7FEBEC66B, 0x5F7ACC006F43DD7E6BD2E11FCF8258CD,
     0xC7D0E35D7EF2F4534187BD4C7E2BCBEE, 0x9145A56D36F837E54E631DF730A9A2D6,
     0x26BDC5010575D7DEE4F993FAF1AE0E3A] ++
    List.replicate 12 0 ++
    [0xB8E2A755C6FD9C86B209735EF653787A, 0xA6C53BEF23186702EC958268057FAB5E,
     0x16B5A0E731070B05BF0D62BF6D03D9C5, 0x80D395C0E3AA0473B17F73CBB068BEBC,
     0x04CDC24DB72F6D394E658DEC18C7F08B, 0x66435DE7AB32BEA19BE45E5CA253B45C,
     0xB44C5A80BAC020998D3164F7DAFC740E, 0x648C6AA4EABA1DC95F70B85A69A8C2F3,
     0x38E33468E5299E1149D67273D0C8B706, 0xD7B2D7DDC332684680735F36AF8DB207,
     0x17D909F053ED7C13C6D66D0B7DF87D2C, 0x6789924673702BB4669B5116DC1115D1,
     0x197C885FA0F9F0A4F57BE9E8F854302A, 0x28B5326D3F8DE597AC457EB810A0EA4A] ++
    List.replicate 26 0 ++
    [0x3D87D14129ECC100F09D14699C585E16, 0x962055D1C8143F7DDD534B78C363FE84,
     0x84A6EAC980C00D580D31A7618AA720FC, 0x7A10A678243F22DCC9DE10877189EC50,
     0x9BFD2206D4B5DB41546A843D8C71412B, 0xD582B2F8FB5EF242F50E186E6D142F0C] ++
    List.replicate 31 0)

def craftedTables : Tables :=
  { Tables.empty with
    server := [⟨sampleId, [0x61], none, 0, some (List.replicate symmetricKeySize 9)⟩]
    serverKey := List.nodup_singleton _ }

/-- Agrees with SQLite on this database file too. -/
def craftedSqlite : Sqlite where
  reopen db name bytes :=
    if name = database ∧ bytes = craftedDatabase then some craftedTables
    else Sqlite.sample.reopen db name bytes

/-- Agrees with PyCryptodome and crccheck on its ciphertext and its bytes. -/
def craftedPy : PyCrypto :=
  { samplePy with
    crc32 := fun data => if data = craftedDatabase then 1616221932 else samplePy.crc32 data
    aesCbcDecrypt := fun key ciphertext =>
      if key = sampleKey.val ∧ ciphertext = craftedCiphertext then some craftedDatabase
      else samplePy.aesCbcDecrypt key ciphertext }

/-- The crafted database is uploaded in two packets and approved. -/
def replacement : List Event :=
  let upload := requestToSendFileMessage sampleId craftedDatabase.length (nameField aboveName)
    craftedCiphertext
  [upload.take packetSize, upload.drop packetSize,
    crcStatusRequestMessage requestCrcValid sampleId (nameField aboveName)].map fun data =>
      .recv 0 (.chunk data) .undisturbed

theorem asWritten_replaced {e : Event} (h : e ∈ exchange ++ replacement) : AsWritten e := by
  simp only [exchange, replacement, List.map_cons, List.map_nil, List.cons_append, List.nil_append,
    List.mem_cons, List.not_mem_nil, or_false] at h
  rcases h with rfl | rfl | rfl | rfl | rfl | rfl
  · trivial
  · trivial
  · exact fun _ => rfl
  · exact fun _ => rfl
  · exact fun _ => rfl
  · exact fun _ => rfl

/-- The next file of the client would be decrypted under the key of the crafted row. -/
theorem not_agreement_replaced :
    ¬∀ (sqlite : Sqlite) (crypto : PyCrypto) (w : World) (es : List Event) (p : Session),
      (∀ e ∈ es, AsWritten e) →
      Run (TellingStep sqlite crypto) (.initial w, fun _ _ => none) es p →
      Agreement sqlite crypto p := by
  intro h
  let next : RequestToSendFile := ⟨⟨sampleId, clientVersion, requestToSendFile, 259⟩, 0, [0x78], []⟩
  have hfacts : ((exchange ++ replacement).foldlM (tellNext craftedSqlite craftedPy)
      (.initial .withClient, fun _ _ => none)).bind (fun p =>
        (p.1.served craftedSqlite craftedPy 0 (.chunk (PathConfinement.emptyUpload [0x78]))
          .undisturbed).map fun out => (p.2 0 sampleId, out.handled,
            ((getClientsSymmetricKey sampleId).run
              (Turn.start p.1.system.world .undisturbed).pop).1)) =
      some (some sampleKey.val, some (.sendFile next),
        .value (some (List.replicate symmetricKeySize 9))) := by
    decide +kernel
  obtain ⟨p, hp, hfacts⟩ := Option.bind_eq_some_iff.mp hfacts
  obtain ⟨out, hserved, hfacts⟩ := Option.map_eq_some_iff.mp hfacts
  simp only [Prod.mk.injEq] at hfacts
  obtain ⟨htold, hhandled, hread⟩ := hfacts
  have hagrees := h craftedSqlite craftedPy .withClient _ p (fun _ => asWritten_replaced)
    (Run.of_foldlM hp)
  have hsame := (hagrees.decrypted 0 _ _ out next _ hserved hhandled htold ⟨rfl, rfl⟩).2.reads
  rw [show next.header.clientID = sampleId from rfl, hread] at hsame
  exact absurd hsame (by decide)

end Sample

end KeyAgreement
