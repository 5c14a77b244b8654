import FileTransfer.ServerSystem

/-! # The lock of the server

`Server.read` releases the lock on two paths only, so every exception that leaves it keeps
the lock. The exceptions that leave it are characterized, and a run keeps the lock owned
exactly when none of its steps raises one. -/
namespace LockRelease

open ByteField ServerProtocol ServerTables ServerState ServerFiles ServerDatabase ServerHandlers
  ServerThread ServerSystem StepRun RaisingProgram

variable (crypto : PyCrypto) (env : Env)

section Escapes

def RequestEscapes (w : World) : Request → Prop
  | .registration q =>
    Registrable (Turn.start w env) q.name ∧ env.sql 1 = .connectRaises
  | .publicKey q =>
    Known (Turn.start w env) q.header.clientID ∧
      (env.sql 2 = .connectRaises ∨ env.sql 2 = .done ∧
        (env.sql 3 = .connectRaises ∨ env.sql 3 = .done ∧
          encryptAesKeyWithRsaPublic crypto env env.aesKey.val q.publicKey.val = none))
  | .sendFile q => Known (Turn.start w env) q.header.clientID ∧ env.sql 1 ≠ .done
  | .crcValid _ => False
  | .crcResend q =>
    Known (Turn.start w env) q.header.clientID ∧
      ∃ file, resendFile q (Turn.start w env) = some file ∧ file.content = none
  | .crcAbort _ => True

def Escapes (w : World) (control : Control) (r : RecvResult) : Prop :=
  match received control r with
  | .parsed q => RequestEscapes crypto env w q
  | .failure => True
  | _ => False

variable {t : Turn}

theorem refuse_not_raised (t : Turn) : ((refuse env).run t).1.isRaised = false := by
  rw [refuse_run]
  cases env.sendOk <;> rfl

theorem write_not_raised (r : Response) (t : Turn) :
    ((write env r).run t).1.isRaised = false := by
  rw [write_run]
  cases env.sendOk <;> rfl

theorem registration_isRaised (w : World) (q : RegistrationRequest) :
    ((registration env q).run (Turn.start w env)).1.isRaised = true ↔
      RequestEscapes crypto env w (.registration q) := by
  unfold RequestEscapes
  by_cases h : Registrable (Turn.start w env) q.name
  · rw [registration_stored env h]
    have hsql : (Turn.start w env).sql = env.sql := rfl
    rw [hsql]
    split
    · next h₁ => simp [Outcome.isRaised, h, h₁]
    · next h₁ =>
      split <;> simp [refuse_not_raised, write_not_raised, h₁]
  · rw [registration_refused env h, refuse_not_raised]
    simp [h]

theorem publicKey_isRaised (w : World) (q : PublicKeyRequest) :
    ((publicKey crypto env q).run (Turn.start w env)).1.isRaised = true ↔
      RequestEscapes crypto env w (.publicKey q) := by
  unfold RequestEscapes
  by_cases h : Known (Turn.start w env) q.header.clientID
  · have hsql : (Turn.start w env).sql = env.sql := rfl
    by_cases h₂ : env.sql 2 = .done
    · rw [publicKey_set crypto env h h₂, hsql]
      cases h₃ : env.sql 3 with
      | connectRaises => simp [Outcome.isRaised, h, h₂]
      | fails => simp [Outcome.isRaised, h₂]
      | done =>
        cases he : encryptAesKeyWithRsaPublic crypto env env.aesKey.val q.publicKey.val with
        | none => simp [Outcome.isRaised, h, h₂, he]
        | some key => simp [write_not_raised, h₂, he]
    · rw [publicKey_unset crypto env h h₂, hsql]
      dsimp only
      split
      · next hr => simp [Outcome.isRaised, h, hr]
      · next hr => simp [refuse_not_raised, hr, h₂]
  · rw [publicKey, ifKnown_run, if_neg h, refuse_not_raised]
    simp [h]

theorem sendFile_isRaised (w : World) (q : RequestToSendFile) :
    ((sendFile crypto env q).run (Turn.start w env)).1.isRaised = true ↔
      RequestEscapes crypto env w (.sendFile q) := by
  unfold RequestEscapes
  by_cases h : Known (Turn.start w env) q.header.clientID
  · by_cases h₁ : env.sql 1 = .done
    · obtain ⟨row, hrow⟩ := hasClient_iff.mp h.2
      obtain ⟨file, u, hstore, -, -⟩ := storeFileinDB_value crypto env q.header.clientID
        q.fileName (decrypt crypto q.fileContent row.aesKey q.contentSize)
        (Turn.start w env).pop.pop
      rw [sendFile_stored crypto env h h₁ hrow hstore, write_not_raised]
      simp [h₁]
    · obtain ⟨e, he⟩ := sendFile_noKey crypto env h h₁
      rw [he]
      simp [Outcome.isRaised, h, h₁]
  · rw [sendFile_unknown crypto env h, refuse_not_raised]
    simp [h]

theorem crcValid_isRaised (w : World) (q : CrcStatusRequest) :
    ((crcValid env q).run (Turn.start w env)).1.isRaised = false := by
  by_cases hsaves : Saves env w q
  · obtain ⟨file, hfile⟩ := Option.isSome_iff_exists.mp hsaves.2.2
    obtain ⟨u, hrun, -⟩ := crcValid_saves env hsaves hfile
    rw [hrun]
    split
    · exact refuse_not_raised env u
    · exact write_not_raised env _ u
  · obtain ⟨u, hrun, -⟩ := crcValid_refused env hsaves
    rw [hrun, refuse_not_raised]

theorem crcResend_isRaised (w : World) (q : CrcStatusRequest) :
    ((crcResend crypto env q).run (Turn.start w env)).1.isRaised = true ↔
      RequestEscapes crypto env w (.crcResend q) := by
  unfold RequestEscapes
  by_cases h : Known (Turn.start w env) q.header.clientID
  · rw [crcResend_known crypto env h]
    cases hf : resendFile q (Turn.start w env) with
    | none =>
      dsimp only
      rw [Prog.run_bind, write_run]
      cases env.sendOk <;> simp [Outcome.isRaised, hf]
    | some file =>
      cases hc : file.content with
      | none => simp [Outcome.isRaised, h, hf, hc]
      | some content => simp [write_not_raised, hf, hc]
  · rw [crcResend_unknown crypto env h, refuse_not_raised]
    simp [h]

theorem handle_isRaised (w : World) (q : Request) :
    ((handle crypto env q).run (Turn.start w env)).1.isRaised = true ↔
      RequestEscapes crypto env w q := by
  cases q with
  | registration q => exact registration_isRaised crypto env w q
  | publicKey q => exact publicKey_isRaised crypto env w q
  | sendFile q => exact sendFile_isRaised crypto env w q
  | crcValid q => simp [handle, crcValid_isRaised, RequestEscapes]
  | crcResend q => exact crcResend_isRaised crypto env w q
  | crcAbort q => simp [handle, crcAbort_run, Outcome.isRaised, RequestEscapes]

/-- The thread dies exactly of the exceptions that leave `Server.read`. -/
theorem readStep_dead_iff (w : World) {control : Control} (h : control.awaits = true)
    (r : RecvResult) :
    (∃ e, (readStep crypto env w control r).control = .dead e) ↔
      Escapes crypto env w control r := by
  rw [readStep_eq_react crypto env w h, Escapes]
  cases received control r with
  | parsed q =>
    rw [react, settle_dead_iff]
    exact handle_isRaised crypto env w q
  | malformed refused =>
    rw [react, settle_dead_iff]
    cases refused
    · simp [Outcome.isRaised]
    · simp [refuse_not_raised]
  | partly p => simp [react, ReadStep.quiet]
  | endOfStream => simp [react, ReadStep.quiet]
  | failure => simp [react, ReadStep.quiet]

end Escapes

section Runs

variable {crypto}

/-- An ended thread has released the lock once, and a held lock has a live owner. -/
structure LockSafe (s : System) : Prop where
  released : ∀ c conn, s.thread c = some conn → conn.control.ended = true → conn.releases = 1
  owned : s.lock = true → ∃ c conn, s.thread c = some conn ∧ conn.control.ended = false

structure Fresh (s : System) : Prop where
  unused : ∀ c, s.accepted ≤ c → s.thread c = none
  waiting : ∀ c, s.waiting = some c → s.thread c = none ∧ c < s.accepted

structure Invariant (s : System) : Prop where
  fresh : Fresh s
  safe : LockSafe s
  held : ∀ c conn, s.thread c = some conn → conn.control.ended = false →
    conn.releases = 0 ∧ s.lock = true
  single : ∀ c d conn conn', s.thread c = some conn → s.thread d = some conn' →
    conn.control.ended = false → conn'.control.ended = false → c = d

def Leaked (s : System) : Prop :=
  ∃ c conn, s.thread c = some conn ∧ conn.control.ended = true ∧ conn.releases = 0

def EventEscapes (crypto : PyCrypto) (s : System) : Event → Prop
  | .recv c r env => ∃ conn, s.thread c = some conn ∧
      Escapes crypto env s.world conn.control r
  | _ => False

def CleanStep (crypto : PyCrypto) (s : System) (e : Event) (t : System) : Prop :=
  Step crypto s e t ∧ ¬EventEscapes crypto s e

theorem initial_invariant (w : World) : Invariant (.initial w) where
  fresh := ⟨fun _ _ => rfl, fun _ h => (by cases h)⟩
  safe := ⟨fun _ _ h => (by cases h), fun h => (by cases h)⟩
  held _ _ h := by cases h
  single _ _ _ _ h := by cases h

theorem not_ended_of_awaits {control : Control} (h : control.awaits = true) :
    control.ended = false := by
  cases control <;> first | rfl | cases h

theorem step_fresh {s t : System} {e : Event} (h : Step crypto s e t) (hs : Fresh s) :
    Fresh t := by
  cases e with
  | accept =>
    obtain ⟨-, rfl⟩ := step_accept h
    constructor
    · intro c hc
      exact hs.unused c (Nat.le_of_succ_le hc)
    · intro c hc
      cases hc
      exact ⟨hs.unused _ le_rfl, Nat.lt_succ_self _⟩
  | start =>
    obtain ⟨c, hw, -, rfl⟩ := step_start h
    have hlt := (hs.waiting c hw).2
    constructor
    · intro d hd
      have hne : d ≠ c := by
        rintro rfl
        exact absurd hlt (not_lt.mpr hd)
      exact (Function.update_of_ne hne ..).trans (hs.unused d hd)
    · intro d hd
      cases hd
  | recv c r env =>
    obtain ⟨conn, hc, -, rfl⟩ := step_recv h
    have hother : ∀ d, s.thread d = none → (s.finish c conn
        (readStep crypto env s.world conn.control r)).thread d = none := by
      intro d hd
      have hne : d ≠ c := by
        rintro rfl
        rw [hd] at hc
        cases hc
      rw [finish_other hne, hd]
    constructor
    · intro d hd
      rw [finish_accepted] at hd
      exact hother d (hs.unused d hd)
    · intro d hd
      rw [finish_waiting] at hd
      rw [finish_accepted]
      exact ⟨hother d (hs.waiting d hd).1, (hs.waiting d hd).2⟩

/-- A leak is for ever: an ended thread does not run again and its number is not reused. -/
theorem step_leaked {s t : System} {e : Event} (h : Step crypto s e t) (hs : Fresh s)
    (hl : Leaked s) : Leaked t := by
  obtain ⟨d, conn, hd, hended, hrel⟩ := hl
  cases e with
  | accept =>
    obtain ⟨-, rfl⟩ := step_accept h
    exact ⟨d, conn, hd, hended, hrel⟩
  | start =>
    obtain ⟨c, hw, -, rfl⟩ := step_start h
    have hne : d ≠ c := by
      rintro rfl
      rw [(hs.waiting d hw).1] at hd
      cases hd
    exact ⟨d, conn, (Function.update_of_ne hne ..).trans hd, hended, hrel⟩
  | recv c r env =>
    obtain ⟨conn', hc, hawaits, rfl⟩ := step_recv h
    have hne : d ≠ c := by
      rintro rfl
      rw [hd] at hc
      cases hc
      rw [not_ended_of_awaits hawaits] at hended
      cases hended
    exact ⟨d, conn, by rw [finish_other hne, hd], hended, hrel⟩

theorem start_invariant {s t : System} (h : Step crypto s .start t) (hs : Invariant s) :
    Invariant t := by
  have hfresh := step_fresh h hs.fresh
  obtain ⟨c, -, hfree, rfl⟩ := step_start h
  have hnoLive : ∀ d conn, s.thread d = some conn → conn.control.ended = true := by
    intro d conn hd
    by_contra hlive
    have := (hs.held d conn hd (by simpa using hlive)).2
    rw [hfree] at this
    cases this
  have hself : Function.update s.thread c (some ⟨.reading, 0⟩) c = some ⟨.reading, 0⟩ :=
    Function.update_self ..
  have hlive : ∀ d conn, Function.update s.thread c (some ⟨.reading, 0⟩) d = some conn →
      conn.control.ended = false → d = c ∧ conn = ⟨.reading, 0⟩ := by
    intro d conn hd hl
    by_cases hne : d = c
    · subst hne
      rw [hself] at hd
      exact ⟨rfl, (Option.some.inj hd).symm⟩
    · rw [Function.update_of_ne hne] at hd
      rw [hnoLive d conn hd] at hl
      cases hl
  refine ⟨hfresh, ⟨?_, fun _ => ⟨c, _, hself, rfl⟩⟩, ?_, ?_⟩
  · intro d conn hd hended
    by_cases hne : d = c
    · subst hne
      cases hself.symm.trans hd
      cases hended
    · exact hs.safe.released d conn ((Function.update_of_ne hne ..).symm.trans hd) hended
  · intro d conn hd hl
    obtain ⟨-, rfl⟩ := hlive d conn hd hl
    exact ⟨rfl, rfl⟩
  · intro d d' conn conn' hd hd' hl hl'
    rw [(hlive d conn hd hl).1, (hlive d' conn' hd' hl').1]

section Recv

variable {s : System} {c : ℕ} {conn : Connection} {out : ReadStep}

theorem finish_closed_invariant (hs : Invariant s) (hc : s.thread c = some conn)
    (hlive : conn.control.ended = false) (hclosed : out.control = .closed)
    (hfresh : Fresh (s.finish c conn out)) : Invariant (s.finish c conn out) := by
  obtain ⟨hrel, hlock⟩ := hs.held c conn hc hlive
  obtain ⟨hself, hfree⟩ := finish_self_closed c conn hclosed hlock
  have hended : ∀ d conn', (s.finish c conn out).thread d = some conn' →
      conn'.control.ended = true ∧ conn'.releases = 1 := by
    intro d conn' hd
    by_cases hne : d = c
    · subst hne
      cases hself.symm.trans hd
      exact ⟨rfl, by rw [hrel]⟩
    · rw [finish_other hne] at hd
      have he : conn'.control.ended = true := by
        by_contra hl
        exact hne (hs.single d c conn' conn hd hc (by simpa using hl) hlive)
      exact ⟨he, hs.safe.released d conn' hd he⟩
  have hno : ∀ {d conn'}, (s.finish c conn out).thread d = some conn' →
      conn'.control.ended ≠ false := by
    intro d conn' hd
    rw [(hended d conn' hd).1]
    decide
  refine ⟨hfresh, ⟨fun d conn' hd _ => (hended d conn' hd).2, ?_⟩, ?_, ?_⟩
  · intro hl
    rw [hfree] at hl
    cases hl
  · exact fun d conn' hd hl => absurd hl (hno hd)
  · exact fun d _ conn' _ hd _ hl => absurd hl (hno hd)

theorem finish_live_invariant (hs : Invariant s) (hc : s.thread c = some conn)
    (hlive : conn.control.ended = false) (hstill : out.control.ended = false)
    (hfresh : Fresh (s.finish c conn out)) : Invariant (s.finish c conn out) := by
  obtain ⟨hrel, hlock⟩ := hs.held c conn hc hlive
  have hopen : out.control ≠ .closed := by
    intro h
    rw [h] at hstill
    cases hstill
  obtain ⟨hself, hheld⟩ := finish_self_live s c conn hopen
  have honly : ∀ d conn', (s.finish c conn out).thread d = some conn' →
      conn'.control.ended = false → d = c ∧ conn' = ⟨out.control, conn.releases⟩ := by
    intro d conn' hd hl
    by_cases hne : d = c
    · subst hne
      exact ⟨rfl, Option.some.inj (hd.symm.trans hself)⟩
    · rw [finish_other hne] at hd
      exact absurd (hs.single d c conn' conn hd hc hl hlive) hne
  refine ⟨hfresh, ⟨?_, fun _ => ⟨c, _, hself, hstill⟩⟩, ?_, ?_⟩
  · intro d conn' hd hended
    by_cases hne : d = c
    · subst hne
      cases hself.symm.trans hd
      rw [hstill] at hended
      cases hended
    · rw [finish_other hne] at hd
      exact hs.safe.released d conn' hd hended
  · intro d conn' hd hl
    obtain ⟨-, rfl⟩ := honly d conn' hd hl
    exact ⟨hrel, by rw [hheld, hlock]⟩
  · intro d d' conn' conn'' hd hd' hl hl'
    rw [(honly d conn' hd hl).1, (honly d' conn'' hd' hl').1]

end Recv

/-- The step lemma: every step without an escaping exception keeps the lock owned. -/
theorem step_invariant {s t : System} {e : Event} (h : CleanStep crypto s e t)
    (hs : Invariant s) : Invariant t := by
  obtain ⟨h, hclean⟩ := h
  have hfresh := step_fresh h hs.fresh
  cases e with
  | accept =>
    obtain ⟨-, rfl⟩ := step_accept h
    exact ⟨hfresh, ⟨hs.safe.released, hs.safe.owned⟩, hs.held, hs.single⟩
  | start => exact start_invariant h hs
  | recv c r env =>
    obtain ⟨conn, hc, hawaits, rfl⟩ := step_recv h
    have hlive := not_ended_of_awaits hawaits
    have hnotDead : ∀ e, (readStep crypto env s.world conn.control r).control ≠ .dead e :=
      fun e he => hclean ⟨conn, hc, (readStep_dead_iff crypto env s.world hawaits r).mp ⟨e, he⟩⟩
    generalize readStep crypto env s.world conn.control r = out at hnotDead hfresh
    by_cases hclosed : out.control = .closed
    · exact finish_closed_invariant hs hc hlive hclosed hfresh
    · apply finish_live_invariant hs hc hlive _ hfresh
      cases ho : out.control with
      | closed => exact absurd ho hclosed
      | dead e => exact absurd ho (hnotDead e)
      | reading => rfl
      | receiving p => rfl
      | spinning => rfl

theorem step_leaks {s t : System} {e : Event} (h : Step crypto s e t)
    (hescapes : EventEscapes crypto s e) (hs : Invariant s) : Leaked t := by
  cases e with
  | accept => cases hescapes
  | start => cases hescapes
  | recv c r env =>
    obtain ⟨conn, hc, hawaits, rfl⟩ := step_recv h
    obtain ⟨conn', hc', hesc⟩ := hescapes
    cases hc.symm.trans hc'
    obtain ⟨e, he⟩ := (readStep_dead_iff crypto env s.world hawaits r).mpr hesc
    have hopen : (readStep crypto env s.world conn.control r).control ≠ .closed := by
      rw [he]
      simp
    refine ⟨c, _, (finish_self_live s c conn hopen).1, by rw [he]; rfl, ?_⟩
    exact (hs.held c conn hc (not_ended_of_awaits hawaits)).1

theorem run_fresh {w : World} {es : List Event} {s : System}
    (h : Run (Step crypto) (.initial w) es s) : Fresh s :=
  h.invariant (initial_invariant w).fresh fun hs hstep => step_fresh hstep hs

theorem run_clean_or_leaked {w : World} {es : List Event} {s : System}
    (h : Run (Step crypto) (.initial w) es s) :
    Run (CleanStep crypto) (.initial w) es s ∨ Leaked s := by
  induction h with
  | nil => exact .inl (.nil _)
  | @snoc t u es e hrun hstep ih =>
    rcases ih with hclean | hleaked
    · by_cases hesc : EventEscapes crypto t e
      · refine .inr (step_leaks hstep hesc ?_)
        exact hclean.invariant (initial_invariant w) fun hs hstep => step_invariant hstep hs
      · exact .inl (hclean.snoc ⟨hstep, hesc⟩)
    · exact .inr (step_leaked hstep (run_fresh hrun) hleaked)

/-- Main theorem: after a run the lock is safe exactly when no exception left a thread. -/
theorem run_lockSafe_iff {w : World} {es : List Event} {s : System}
    (h : Run (Step crypto) (.initial w) es s) :
    LockSafe s ↔ Run (CleanStep crypto) (.initial w) es s := by
  constructor
  · intro hsafe
    rcases run_clean_or_leaked h with hclean | ⟨c, conn, hc, hended, hrel⟩
    · exact hclean
    · have := hsafe.released c conn hc hended
      rw [hrel] at this
      cases this
  · intro hclean
    exact (hclean.invariant (initial_invariant w) fun hs hstep => step_invariant hstep hs).safe

theorem run_lockSafe_iff_close : ∃ s,
    Run (Step .trivial) (.initial .sample)
      [.accept, .start, .recv 0 (.chunk []) .undisturbed] s ∧ LockSafe s := by
  let s₁ : System := { System.initial .sample with accepted := 1, waiting := some 0 }
  let s₂ : System := { s₁ with
    lock := true, waiting := none
    thread := Function.update s₁.thread 0 (some ⟨.reading, 0⟩) }
  have haccept : CleanStep .trivial (.initial .sample) .accept s₁ := ⟨rfl, id⟩
  have hstart : CleanStep .trivial s₁ .start s₂ := ⟨rfl, id⟩
  have hclose : CleanStep .trivial s₂ (.recv 0 (.chunk []) .undisturbed)
      (s₂.finish 0 ⟨.reading, 0⟩ (.quiet s₂.world .closed)) := by
    refine ⟨rfl, ?_⟩
    rintro ⟨conn, hc, hesc⟩
    cases hc
    exact hesc
  have hclean := ((Run.nil _).snoc haccept |>.snoc hstart).snoc hclose
  exact ⟨_, hclean.mono fun h => h.1, (run_lockSafe_iff (hclean.mono fun h => h.1)).mpr hclean⟩

/-- A peer that connects and resets the connection locks the server out. -/
theorem not_lockSafe_reset :
    ¬∀ (crypto : PyCrypto) (w : World) (es : List Event) (s : System),
      Run (Step crypto) (.initial w) es s → LockSafe s := by
  intro h
  have hsafe := h .trivial .sample [.accept, .start, .recv 0 .raises .undisturbed] _
    (Run.of_foldlM rfl)
  have := hsafe.released 0 ⟨.dead none, 0⟩ rfl rfl
  cases this

end Runs

end LockRelease
