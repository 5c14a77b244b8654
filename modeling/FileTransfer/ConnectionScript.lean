import FileTransfer.LockRelease
import FileTransfer.RequestAnswers
import FileTransfer.ServerFrames

/-! # What a connection is told

Over its whole life a connection gets one success response for each of its requests, in
their order, and then at most one parting of two refusals. -/
namespace ConnectionScript

open ByteField ServerProtocol ServerTables ServerState ServerFiles ServerDatabase ServerHandlers
  ServerThread ServerSystem ServerFrames StepRun RaisingProgram RequestAnswers ClientDialogue
  ClientChannel

section Definitions

/-- What one recv result of a thread was: the request that it completed and the responses. -/
structure Reply where
  request : Option Request
  sent : List Response

inductive Answered : Reply → Prop where
  | part : Answered ⟨none, []⟩
  | request (q : Request) (r : Response) : successOf (codeOf q) = some r.code →
      Answered ⟨some q, [r]⟩

inductive Parting : List Response → Prop where
  | silent : Parting []
  | refused : Parting [.registrationFailed]
  | refusedTwice : Parting [.registrationFailed, .registrationFailed]
  | notFound : Parting [.emptyCrcValue, .registrationFailed]

abbrev Scripts := ℕ → List Reply

variable (crypto : PyCrypto)

def Scripts.next (scripts : Scripts) (s : System) : Event → Scripts
  | .recv c r env =>
    match s.served crypto c r env with
    | some out => Function.update scripts c (scripts c ++ [⟨out.handled, out.sent⟩])
    | none => scripts
  | _ => scripts

def scriptNext (p : System × Scripts) (e : Event) : Option (System × Scripts) :=
  (p.1.next crypto e).map fun s => (s, p.2.next crypto p.1 e)

def ScriptStep (p : System × Scripts) (e : Event) (p' : System × Scripts) : Prop :=
  scriptNext crypto p e = some p'

def scriptStart (w : World) : System × Scripts := (.initial w, fun _ => [])

/-- The script of a connection, up to a turn that ended its thread. -/
structure Spoken (script : List Reply) (thread : Option Connection) : Prop where
  unstarted : thread = none → script = []
  live : ∀ conn, thread = some conn → conn.control.awaits = true →
    ∀ reply ∈ script, Answered reply
  ended : ∀ conn, thread = some conn → conn.control.awaits = false →
    ∃ replies last, script = replies ++ [last] ∧ (∀ reply ∈ replies, Answered reply) ∧
      Parting last.sent

def Ending (sendOk : Bool) : Outcome PyError Bool → List Response → Prop
  | .value true, sent => ∃ r, sent = [r]
  | .value false, sent =>
    sent = [] ∨ sendOk = true ∧ (sent = [.registrationFailed] ∨ sent = [.emptyCrcValue])
  | .raised _, sent => sent = []
  | .hangs, sent => sent = []

def Ends (env : Env) (handler : ServerM Bool) : Prop :=
  ∀ t : Turn, t.sent = [] → Ending env.sendOk (handler.run t).1 (handler.run t).2.sent

def Silent (t u : Turn) : Prop := u.sent = t.sent

end Definitions

instance : Std.Refl Silent := ⟨fun _ => rfl⟩

instance : IsTrans Turn Silent := ⟨fun _ _ _ h h' => h'.trans h⟩

section Endings

variable {env : Env} {handler : ServerM Bool}

theorem send_first {t : Turn} (ht : t.sent = []) (r : Response) : (t.send r).sent = [r] := by
  rw [send_sent, ht]
  rfl

theorem ends_bind {α : Type} {x : ServerM α} {f : α → ServerM Bool} (hx : Guarantees Silent x)
    (hf : ∀ a, Ends env (f a)) : Ends env (x >>= f) := by
  intro t ht
  have hsilent := (hx t).trans ht
  rw [Prog.run_bind]
  generalize x.run t = o at hsilent ⊢
  rcases o with ⟨a | e | _, u⟩
  · exact hf a u hsilent
  · exact hsilent
  · exact hsilent

theorem ends_write (env : Env) (r : Response) : Ends env (write env r) := by
  intro t ht
  rw [write_run]
  split
  · exact ⟨r, send_first ht r⟩
  · exact ht

theorem ends_false : Ends env (return false) := fun _ ht => .inl ht

theorem ends_raise (e : PyError) : Ends env (Prog.raise e) := fun _ ht => ht

theorem ends_refuse (env : Env) : Ends env (refuse env) := by
  intro t ht
  rw [refuse_run]
  split
  · next hok => exact .inr ⟨hok, .inl (send_first ht _)⟩
  · exact ht

theorem ends_ite {c : Prop} [Decidable c] {x y : ServerM Bool} (hx : Ends env x)
    (hy : Ends env y) : Ends env (if c then x else y) := by
  split
  · exact hx
  · exact hy

theorem silent_frame : Frame Silent fun _ => False where
  pop _ := rfl
  send _ _ h := h.elim
  entry _ _ := rfl
  mkdir _ _ _ _ _ := rfl

theorem silent_allows {α : Type} (statement : Tables → Option (α × Tables)) :
    Allows Silent statement := fun _ _ _ _ => rfl

theorem silent_allowsSeen : AllowsSeen Silent where
  select _ := silent_allows _
  touch _ _ := silent_allows _
  updateVarified _ _ _ := silent_allows _
  insertFile _ := silent_allows _

theorem silent_saveFile (env : Env) (file : File) : Guarantees Silent (saveFile env file) := by
  intro t
  rw [saveFile_run]
  rfl

theorem ends_ifKnown {clientId : ClientId} {body : ServerM Bool} (h : Ends env body) :
    Ends env (do if ¬(← clientExists clientId) then refuse env else body) :=
  ends_bind (guarantees_clientExists silent_frame clientId) fun _ => ends_ite (ends_refuse env) h

theorem ends_registration (q : RegistrationRequest) : Ends env (registration env q) := by
  intro t ht
  by_cases hopen : Registrable t q.name
  · rw [registration_open env hopen]
    refine ends_bind ?_ ?_ _ ht
    · apply guarantees_bind (guarantees_execute silent_frame (silent_allows _))
      intro committed
      cases committed <;> exact guarantees_pure _
    · intro clnt
      cases clnt with
      | none => exact ends_refuse env
      | some clnt => exact ends_write env _
  · rw [registration_refused env hopen]
    apply ends_refuse
    split
    · exact ht
    · exact ht

variable (crypto : PyCrypto)

theorem ends_publicKey (q : PublicKeyRequest) : Ends env (publicKey crypto env q) := by
  apply ends_ifKnown
  apply ends_bind
  · apply guarantees_ite
    · exact fun _ => guarantees_pure _
    · exact fun _ => guarantees_bind (guarantees_touch silent_frame silent_allowsSeen env _)
        fun _ => guarantees_execute silent_frame (silent_allows _)
  · intro stored
    cases stored with
    | none => exact ends_refuse env
    | some _ =>
      apply ends_bind
      · apply guarantees_bind (guarantees_execute silent_frame (silent_allows _))
        intro committed
        cases committed <;> exact guarantees_pure _
      · intro key
        cases key with
        | none => exact ends_false
        | some key =>
          dsimp only
          cases encryptAesKeyWithRsaPublic crypto env key.val q.publicKey.val with
          | none => exact ends_raise _
          | some encrypted => exact ends_write env _

theorem ends_sendFile (q : RequestToSendFile) : Ends env (sendFile crypto env q) := by
  apply ends_ifKnown
  apply ends_bind (guarantees_getClientsSymmetricKey silent_frame silent_allowsSeen _)
  intro key
  apply ends_bind (guarantees_storeFileinDB silent_frame silent_allowsSeen crypto env _ _ _)
  exact fun file => ends_write env _

theorem ends_crcValid (q : CrcStatusRequest) : Ends env (crcValid env q) := by
  apply ends_ifKnown
  apply ends_bind (guarantees_updateVerification silent_frame silent_allowsSeen env _ _
    (silent_saveFile env) true)
  exact fun updated => ends_ite (ends_refuse env) (ends_write env _)

/-- The one handler with a response in front of its failure. -/
theorem ends_notFound : Ends env (do
    let _ ← write env .emptyCrcValue
    return false) := by
  intro t ht
  rw [Prog.run_bind, write_run]
  cases hok : env.sendOk with
  | true => exact .inr ⟨rfl, .inr (send_first ht _)⟩
  | false => exact ht

theorem ends_crcResend (q : CrcStatusRequest) : Ends env (crcResend crypto env q) := by
  apply ends_ifKnown
  apply ends_bind (guarantees_getFile silent_frame _ _)
  intro file
  cases file with
  | none => exact ends_notFound
  | some file =>
    dsimp only
    cases file.content with
    | none => exact ends_raise _
    | some content => exact ends_write env _

theorem ends_handle (q : Request) : Ends env (handle crypto env q) := by
  cases q with
  | registration q => exact ends_registration q
  | publicKey q => exact ends_publicKey crypto q
  | sendFile q => exact ends_sendFile crypto q
  | crcValid q => exact ends_crcValid q
  | crcResend q => exact ends_crcResend crypto q
  | crcAbort q =>
    intro t ht
    rw [handle, crcAbort_run]
    exact ht

end Endings

section Turns

variable {crypto : PyCrypto} {env : Env} {w : World} {handled : Option Request}
  {handler : ServerM Bool}

theorem settle_script (h : Ends env handler) :
    (settle env w handled handler).control.awaits = true ∧
        (∃ r, (settle env w handled handler).sent = [r]) ∨
      (settle env w handled handler).control.awaits = false ∧
        Parting (settle env w handled handler).sent := by
  have hending := h (Turn.start w env) rfl
  rcases hrun : handler.run (Turn.start w env) with ⟨o, u⟩
  rw [hrun] at hending
  cases o with
  | value b =>
    rw [settle_value env hrun]
    cases b with
    | true => exact .inl ⟨rfl, hending⟩
    | false =>
      right
      rcases hending with hsent | ⟨hok, hsent | hsent⟩
      · dsimp only at hsent
        rw [hsent]
        cases env.sendOk with
        | true => exact ⟨rfl, .refused⟩
        | false => exact ⟨rfl, .silent⟩
      · dsimp only at hsent
        rw [hsent, hok]
        exact ⟨rfl, .refusedTwice⟩
      · dsimp only at hsent
        rw [hsent, hok]
        exact ⟨rfl, .notFound⟩
  | raised e =>
    rw [settle_raised env hrun]
    exact .inr ⟨rfl, by rw [show u.sent = [] from hending]; exact .silent⟩
  | hangs =>
    rw [settle_hangs env hrun]
    exact .inr ⟨rfl, by rw [show u.sent = [] from hending]; exact .silent⟩

theorem handle_script (q : Request) :
    (settle env w handled (handle crypto env q)).control.awaits = true ∧
        (∃ r, (settle env w handled (handle crypto env q)).sent = [r] ∧
          successOf (codeOf q) = some r.code) ∨
      (settle env w handled (handle crypto env q)).control.awaits = false ∧
        Parting (settle env w handled (handle crypto env q)).sent := by
  rcases @settle_script env w handled _ (ends_handle crypto q) with ⟨hawaits, -⟩ | hends
  · obtain ⟨hyes, hno⟩ := @handle_answers crypto env w handled q
    have hanswerable : Answerable crypto env w q := by
      by_contra hnot
      rw [hno hnot] at hawaits
      cases hawaits
    obtain ⟨-, r, hsent, hcode, -⟩ := hyes hanswerable
    exact .inl ⟨hawaits, r, hsent, hcode⟩
  · exact .inr hends

theorem readStep_script {control : Control} (h : control.awaits = true) (r : RecvResult) :
    let out := readStep crypto env w control r
    out.control.awaits = true ∧ Answered ⟨out.handled, out.sent⟩ ∨
      out.control.awaits = false ∧ Parting out.sent := by
  intro out
  have hout : out = react crypto env w (received control r) := readStep_eq_react crypto env w h r
  rw [hout]
  cases received control r with
  | parsed q =>
    have hhandled := (settle_world env w (some q) (handle crypto env q)).2.2
    rcases @handle_script crypto env w (some q) q with ⟨hawaits, r, hsent, hcode⟩ | hends
    · left
      rw [react, hhandled, hsent]
      exact ⟨hawaits, .request q r hcode⟩
    · exact .inr hends
  | malformed refused =>
    right
    refine ⟨(react_malformed crypto env w refused).1, ?_⟩
    cases refused with
    | true =>
      rw [react, if_pos rfl, settle_refused env rfl]
      cases env.sendOk with
      | true => exact .refusedTwice
      | false => exact .silent
    | false =>
      rw [react, if_neg Bool.false_ne_true, settle_value env rfl]
      cases env.sendOk with
      | true => exact .refused
      | false => exact .silent
  | partly p => exact .inl ⟨rfl, .part⟩
  | endOfStream => exact .inr ⟨rfl, .silent⟩
  | failure => exact .inr ⟨rfl, .silent⟩

end Turns

section Runs

variable {crypto : PyCrypto} {p p' : System × Scripts}

theorem step_script {e : Event} (h : ScriptStep crypto p e p') :
    Step crypto p.1 e p'.1 ∧ p'.2 = p.2.next crypto p.1 e := by
  obtain ⟨s, hs, rfl⟩ := Option.map_eq_some_iff.mp h
  exact ⟨hs, rfl⟩

theorem spoken_started : Spoken [] (some ⟨.reading, 0⟩) where
  unstarted h := by cases h
  live _ _ _ _ h := by cases h
  ended _ h hawaits := by
    cases h
    cases hawaits

theorem spoken_turn {script : List Reply} {conn conn' : Connection} {out : ReadStep}
    (h : Spoken script (some conn)) (hawaits : conn.control.awaits = true)
    (hturn : conn'.control.awaits = true ∧ Answered ⟨out.handled, out.sent⟩ ∨
      conn'.control.awaits = false ∧ Parting out.sent) :
    Spoken (script ++ [⟨out.handled, out.sent⟩]) (some conn') where
  unstarted h := by cases h
  live _ hconn hlive reply hreply := by
    cases hconn
    rcases hturn with ⟨-, hanswered⟩ | ⟨hdead, -⟩
    · rcases List.mem_append.mp hreply with hold | hnew
      · exact h.live conn rfl hawaits reply hold
      · rw [List.mem_singleton.mp hnew]
        exact hanswered
    · rw [hdead] at hlive
      cases hlive
  ended _ hconn hdead := by
    cases hconn
    rcases hturn with ⟨hlive, -⟩ | ⟨-, hparting⟩
    · rw [hdead] at hlive
      cases hlive
    · exact ⟨script, _, rfl, h.live conn rfl hawaits, hparting⟩

theorem finish_awaits (s : System) (c : ℕ) (conn : Connection) (out : ReadStep) :
    ∃ conn', (s.finish c conn out).thread c = some conn' ∧
      conn'.control.awaits = out.control.awaits := by
  by_cases hclosed : out.control = .closed
  · unfold System.finish
    rw [hclosed]
    cases s.lock with
    | true => exact ⟨_, Function.update_self .., rfl⟩
    | false => exact ⟨_, Function.update_self .., rfl⟩
  · exact ⟨_, (finish_self_live s c conn hclosed).1, rfl⟩

theorem spoken_step {e : Event} (h : ∀ c, Spoken (p.2 c) (p.1.thread c))
    (hfresh : ∀ c, p.1.waiting = some c → p.1.thread c = none)
    (hstep : ScriptStep crypto p e p') (c : ℕ) : Spoken (p'.2 c) (p'.1.thread c) := by
  obtain ⟨hs, hscripts⟩ := step_script hstep
  rw [hscripts]
  cases e with
  | accept =>
    obtain ⟨-, ht⟩ := step_accept hs
    rw [ht]
    exact h c
  | start =>
    obtain ⟨d, hwaiting, -, ht⟩ := step_start hs
    rw [ht]
    by_cases hne : c = d
    · subst hne
      have hempty := (h c).unstarted (hfresh c hwaiting)
      simp only [Function.update_self]
      rw [Scripts.next, hempty]
      · exact spoken_started
      · exact nofun
    · simp only [Function.update_of_ne hne]
      exact h c
  | recv d r env =>
    obtain ⟨conn, hd, hawaits, ht⟩ := step_recv hs
    have hserved : p.1.served crypto d r env =
        some (readStep crypto env p.1.world conn.control r) := by
      rw [System.served, hd]
      exact if_pos hawaits
    rw [ht, Scripts.next, hserved]
    by_cases hne : c = d
    · subst hne
      obtain ⟨conn', hthread, hcontrol⟩ := finish_awaits p.1 c conn
        (readStep crypto env p.1.world conn.control r)
      have hspoken := h c
      rw [hd] at hspoken
      simp only [Function.update_self]
      rw [hthread]
      refine spoken_turn hspoken hawaits ?_
      rw [hcontrol]
      exact readStep_script hawaits r
    · simp only [Function.update_of_ne hne]
      rw [finish_other hne]
      exact h c

theorem run_spoken {w : World} {es : List Event}
    (h : Run (ScriptStep crypto) (scriptStart w) es p) :
    LockRelease.Fresh p.1 ∧ ∀ c, Spoken (p.2 c) (p.1.thread c) := by
  have hstart : LockRelease.Fresh (scriptStart w).1 ∧
      ∀ c, Spoken ((scriptStart w).2 c) ((scriptStart w).1.thread c) := by
    refine ⟨(LockRelease.initial_invariant w).fresh, fun c => ⟨fun _ => rfl, ?_, ?_⟩⟩
    · intro conn hconn
      cases hconn
    · intro conn hconn
      cases hconn
  apply h.invariant hstart
  rintro p e p' ⟨hfresh, hspoken⟩ hstep
  refine ⟨LockRelease.step_fresh (step_script hstep).1 hfresh, ?_⟩
  exact spoken_step hspoken (fun c hc => (hfresh.waiting c hc).1) hstep

/-- Main theorem: what a connection is told in a run is one success response for each of its
requests, and a parting at most, behind which it is told nothing more. -/
theorem run_script {w : World} {es : List Event}
    (h : Run (ScriptStep crypto) (scriptStart w) es p) (c : ℕ) :
    ∃ replies parting, p.2 c = replies ++ parting ∧ (∀ reply ∈ replies, Answered reply) ∧
      (parting = [] ∨ (∃ last, parting = [last] ∧ Parting last.sent) ∧
        ∃ conn, p.1.thread c = some conn ∧ conn.control.awaits = false) := by
  have hspoken := (run_spoken h).2 c
  cases hthread : p.1.thread c with
  | none => exact ⟨[], [], hspoken.unstarted hthread, nofun, .inl rfl⟩
  | some conn =>
    cases hawaits : conn.control.awaits with
    | true =>
      have hanswered := hspoken.live conn hthread hawaits
      exact ⟨p.2 c, [], (List.append_nil _).symm, hanswered, .inl rfl⟩
    | false =>
      obtain ⟨replies, last, hscript, hanswered, hparting⟩ := hspoken.ended conn hthread hawaits
      exact ⟨replies, [last], hscript, hanswered, .inr ⟨⟨last, rfl, hparting⟩, conn, rfl, hawaits⟩⟩

/-- A peer registers, and its next message is too short. -/
def registersOnce : List Event :=
  [.accept, .start, .recv 0 (.chunk (registrationRequestMessage [0x61])) .undisturbed,
    .recv 0 (.chunk [1]) .undisturbed]

theorem run_script_registers : ∃ p, Run (ScriptStep .trivial) (scriptStart .sample)
      registersOnce p ∧
    (p.2 0).map Reply.sent = [[.registrationSucceeded (filled clientIdSize 0)],
      [.registrationFailed]] ∧
    ∃ replies parting, p.2 0 = replies ++ parting ∧ (∀ reply ∈ replies, Answered reply) ∧
      (parting = [] ∨ (∃ last, parting = [last] ∧ Parting last.sent) ∧
        ∃ conn, p.1.thread 0 = some conn ∧ conn.control.awaits = false) := by
  have hfacts : (registersOnce.foldlM (scriptNext .trivial) (scriptStart .sample)).map
        (fun p => (p.2 0).map Reply.sent) =
      some [[.registrationSucceeded (filled clientIdSize 0)], [.registrationFailed]] := by
    decide +kernel
  obtain ⟨p, hp, hscript⟩ := Option.map_eq_some_iff.mp hfacts
  have hrun : Run (ScriptStep .trivial) (scriptStart .sample) registersOnce p := Run.of_foldlM hp
  exact ⟨p, hrun, hscript, run_script hrun 0⟩

end Runs

end ConnectionScript
