import FileTransfer.ClientColumns
import FileTransfer.DatabaseFile
import FileTransfer.PathConfinement
import FileTransfer.TransferSession

/-! # The registry of clients

Names are checked and inserted in two sessions of the database. No two clients share a name
all the same, and what a 2100 grants stays in the table until an approved file replaces the
database. -/
namespace Registry

open ByteField ServerProtocol ServerTables ServerState ServerDatabase ServerHandlers ServerThread
  ServerSystem ServerFiles ClientChannel StepRun RaisingProgram ServerFrames ClientColumns
open DatabaseFile (Sqlite Server AsWritten KeepsDatabase aboveName step_kept served_kept)
open MessageRoundTrip (nameField)
open TransferSession (sampleEnv samplePy samplePublicKey)

section Definitions

def entry (row : ClientRow) : ClientId × Text := (row.id, row.name)

/-- The registry: a row has its place in the list for ever. -/
def entries (w : World) : List (ClientId × Text) := columns entry w.db

/-- A string of ASCII characters without NUL that fits into its field. -/
structure PlainName (name : Text) : Prop where
  ascii : isAscii name = true
  nulFree : (0 : UInt8) ∉ name
  fits : name.length ≤ clientNameSize

/-- The ids of the 2100 responses of a step, with the request that was handled. -/
def grants (out : ReadStep) : List (ClientId × Option Request) :=
  out.sent.filterMap fun
    | .registrationSucceeded id => some (id, out.handled)
    | _ => none

abbrev Log := List (ClientId × Option Request)

variable (sqlite : Sqlite) (crypto : PyCrypto)

def granted (s : Server) : Event → Log
  | .recv c r env => ((s.served sqlite crypto c r env).map grants).getD []
  | _ => []

def logNext (p : Server × Log) (e : Event) : Option (Server × Log) :=
  (p.1.next sqlite crypto e).map fun s => (s, p.2 ++ granted sqlite crypto p.1 e)

def LoggedStep (p : Server × Log) (e : Event) (p' : Server × Log) : Prop :=
  logNext sqlite crypto p e = some p' ∧ AsWritten e

def KeptStep (p : Server × Log) (e : Event) (p' : Server × Log) : Prop :=
  LoggedStep sqlite crypto p e p' ∧ KeepsDatabase p.1.system e

structure Sound (p : Server × Log) : Prop where
  ids : ((entries p.1.system.world).map Prod.fst).Nodup
  names : ((entries p.1.system.world).map Prod.snd).Nodup
  plain : ∀ e ∈ entries p.1.system.world, PlainName e.2
  grants : ∀ g ∈ p.2, ∃ q, g.2 = some (.registration q) ∧
    (g.1, q.name) ∈ entries p.1.system.world

end Definitions

section Handlers

variable {crypto : PyCrypto} {env : Env} {w : World} {control : Control} {r : RecvResult}

inductive Registers (w : World) (out : ReadStep) : Prop where
  | nothing : entries out.world = entries w →
      (∀ id, .registrationSucceeded id ∉ out.sent) → Registers w out
  | client (id : ClientId) (q : RegistrationRequest) : out.handled = some (.registration q) →
      entries out.world = entries w ++ [(id, q.name)] → PlainName q.name →
      (∀ e ∈ entries w, e.1 ≠ id ∧ e.2 ≠ q.name) →
      (∀ id', .registrationSucceeded id' ∈ out.sent → id' = id) → Registers w out

theorem unpack_name {data : Bytes} {q : RegistrationRequest}
    (h : RegistrationRequest.unpack data = some q) :
    (0 : UInt8) ∉ q.name ∧ q.name.length ≤ clientNameSize := by
  unfold RegistrationRequest.unpack at h
  obtain ⟨header, -, h⟩ := Option.bind_eq_some_iff.mp h
  obtain ⟨nameData, -, h⟩ := Option.bind_eq_some_iff.mp h
  obtain ⟨name, hname, hq⟩ := Option.bind_eq_some_iff.mp h
  cases hq
  obtain ⟨-, rfl⟩ := decodeUtf8_eq_some.mp hname
  exact ⟨untilNul_nulFree _, (length_untilNul_le _).trans nameData.property.le⟩

theorem received_registration {q : RegistrationRequest}
    (h : received control r = .parsed (.registration q)) :
    ∃ data, RegistrationRequest.unpack data = some q := by
  have hfile : ∀ p, Received.ofFile p ≠ .parsed (.registration q) := by
    intro p hp
    unfold Received.ofFile at hp
    split at hp <;> cases hp
  have hdata : ∀ data, Received.ofData data = .parsed (.registration q) →
      RegistrationRequest.unpack data = some q := by
    intro data hd
    unfold Received.ofData at hd
    split at hd
    · cases hd
    · next header hheader =>
      split at hd
      · split at hd
        · cases hd
        · next p hp => exact absurd hd (hfile p)
      · unfold Received.ofParsed parsedRequest at hd
        split at hd
        · next request hrequest =>
          cases hd
          split_ifs at hrequest
          all_goals
            obtain ⟨q', hq', heq⟩ := Option.map_eq_some_iff.mp hrequest
            cases heq
          exact hq'
        · cases hd
  unfold received at h
  split at h
  · cases h
  · exact absurd h (hfile _)
  · cases h
  · cases h
  · exact ⟨_, hdata _ h⟩

theorem hasName_iff {db : Tables} {name : Text} :
    db.hasName name = true ↔ ∃ row ∈ db.server, row.name = name := by
  simp [Tables.hasName]

theorem registers_refused {handled : Option Request} {handler : ServerM Bool} {u : Turn}
    (h : handler.run (Turn.start w env) = (refuse env).run u) (hworld : u.world = w)
    (hsent : u.sent = []) : Registers w (settle env w handled handler) := by
  rw [settle_refused env h]
  refine .nothing (by rw [entries, entries, hworld]) fun id hid => ?_
  rw [hsent] at hid
  dsimp only at hid
  split at hid <;> simp at hid

theorem registration_registers {q : RegistrationRequest} (hsql : ∀ i, env.sql i = .done)
    (hname : (0 : UInt8) ∉ q.name ∧ q.name.length ≤ clientNameSize) :
    Registers w (settle env w (some (.registration q)) (registration env q)) := by
  by_cases hopen : Registrable (Turn.start w env) q.name
  · have hrun := registration_stored env hopen
    have hdone : (Turn.start w env).sql 1 = .done := hsql 1
    rw [hdone, if_neg (by decide), if_pos rfl] at hrun
    cases hinsert : insertClient ⟨env.uuid, q.name, none, env.now, none⟩
        (Turn.start w env).world.db with
    | none =>
      rw [hinsert] at hrun
      exact registers_refused hrun rfl rfl
    | some result =>
      obtain ⟨u, db⟩ := result
      rw [hinsert] at hrun
      obtain ⟨hfree, hrows⟩ := insertClient_rows hinsert
      have hnew : ∀ row ∈ w.db.server, row.name ≠ q.name := by
        intro row hrow heq
        exact hopen.2 ⟨hsql 0, hasName_iff.mpr ⟨row, hrow, heq⟩⟩
      rw [settle_written env hrun]
      refine .client env.uuid q rfl ?_ ⟨hopen.1, hname.1, hname.2⟩ ?_ fun id hid => ?_
      · have hmap := congrArg (List.map entry) hrows
        rwa [List.map_append] at hmap
      · intro e he
        obtain ⟨row, hrow, rfl⟩ := List.mem_map.mp he
        exact ⟨hfree row hrow, hnew row hrow⟩
      · dsimp only at hid
        split at hid
        · simpa using hid
        · simp at hid
  · have hrun := registration_refused env hopen
    refine registers_refused hrun ?_ ?_
    · split <;> rfl
    · split <;> rfl

theorem readStep_registers (hawaits : control.awaits = true) (hsql : ∀ i, env.sql i = .done) :
    Registers w (readStep crypto env w control r) := by
  have hordinary : Ordinary fun r => ∀ id, r ≠ .registrationSucceeded id :=
    ⟨nofun, nofun, fun _ _ _ _ => nofun⟩
  have hsteady : Steady entry := fun _ _ => rfl
  by_cases hreg : ∃ q, received control r = .parsed (.registration q)
  · obtain ⟨q, hq⟩ := hreg
    rw [readStep_eq_react crypto env w hawaits, hq]
    obtain ⟨data, hdata⟩ := received_registration hq
    exact registration_registers hsql (unpack_name hdata)
  · push Not at hreg
    have hquiet : entries (readStep crypto env w control r).world = entries w ∧
        ∀ response ∈ (readStep crypto env w control r).sent,
          ∀ id, response ≠ .registrationSucceeded id := by
      by_cases hkey : ∃ q, received control r = .parsed (.publicKey q)
      · obtain ⟨q, hq⟩ := hkey
        rw [readStep_eq_react crypto env w hawaits, hq]
        apply settle_leaves hordinary env
        exact publicKey_leaves hsteady hordinary crypto env q (fun _ _ => rfl)
          (fun _ _ _ => rfl) fun _ _ => nofun
      · push Not at hkey
        exact readStep_leaves hsteady hordinary crypto env w hawaits hreg hkey
    exact .nothing hquiet.1 fun id hid => hquiet.2 _ hid id rfl

end Handlers

section Runs

variable {sqlite : Sqlite} {crypto : PyCrypto} {p p' : Server × Log} {e : Event}
  {es fs : List Event}

/-- One step: the registry grows by at most one client, and a grant is for it. -/
theorem step_registers (hread : p.1.readable = true) (h : KeptStep sqlite crypto p e p') :
    p'.1.readable = true ∧
    ((entries p'.1.system.world = entries p.1.system.world ∧ p'.2 = p.2) ∨
      ∃ id q, entries p'.1.system.world = entries p.1.system.world ++ [(id, q.name)] ∧
        PlainName q.name ∧ (∀ e ∈ entries p.1.system.world, e.1 ≠ id ∧ e.2 ≠ q.name) ∧
        ∀ g ∈ p'.2, g ∈ p.2 ∨ g = (id, some (.registration q))) := by
  obtain ⟨⟨hnext, hsql⟩, hkeeps⟩ := h
  obtain ⟨s, hserver, rfl⟩ := Option.map_eq_some_iff.mp hnext
  obtain ⟨hstep, hread'⟩ := step_kept hserver hread hkeeps
  refine ⟨hread', ?_⟩
  dsimp only
  cases e with
  | accept =>
    obtain ⟨-, heq⟩ := step_accept hstep
    exact .inl ⟨by rw [heq], List.append_nil _⟩
  | start =>
    obtain ⟨c, -, -, heq⟩ := step_start hstep
    exact .inl ⟨by rw [heq], List.append_nil _⟩
  | recv c r env =>
    obtain ⟨conn, hc, hawaits, heq⟩ := step_recv hstep
    have hserved : p.1.served sqlite crypto c r env =
        some (readStep crypto env p.1.system.world conn.control r) := by
      rw [served_kept hread hkeeps]
      simp only [System.served, hc, hawaits, if_true]
    have hworld : entries s.system.world =
        entries (readStep crypto env p.1.system.world conn.control r).world := by
      rw [heq, finish_world]
    cases @readStep_registers crypto env p.1.system.world conn.control r hawaits hsql with
    | nothing hsame hnone =>
      refine .inl ⟨hworld.trans hsame, ?_⟩
      have hempty : grants (readStep crypto env p.1.system.world conn.control r) = [] := by
        rw [grants, List.filterMap_eq_nil_iff]
        intro response hresponse
        split
        · next id => exact absurd hresponse (hnone id)
        · rfl
      rw [granted, hserved, Option.map_some, Option.getD_some, hempty, List.append_nil]
    | client id q hhandled hrows hplain hfresh honly =>
      refine .inr ⟨id, q, hworld.trans hrows, hplain, hfresh, fun g hg => ?_⟩
      rw [granted, hserved, Option.map_some, Option.getD_some] at hg
      rcases List.mem_append.mp hg with hg | hg
      · exact .inl hg
      · right
        obtain ⟨response, hresponse, hg⟩ := List.mem_filterMap.mp hg
        split at hg
        · next id' =>
          cases hg
          rw [honly id' hresponse, hhandled]
        · cases hg

theorem step_sound (hread : p.1.readable = true) (h : KeptStep sqlite crypto p e p')
    (hs : Sound p) : Sound p' := by
  rcases (step_registers hread h).2 with ⟨hsame, hlog⟩ | ⟨id, q, hrows, hplain, hfresh, hlog⟩
  · constructor
    · rw [hsame]
      exact hs.ids
    · rw [hsame]
      exact hs.names
    · rw [hsame]
      exact hs.plain
    · rw [hsame, hlog]
      exact hs.grants
  · constructor
    · rw [hrows]
      exact nodup_map_snoc hs.ids fun e he => (hfresh e he).1
    · rw [hrows]
      exact nodup_map_snoc hs.names fun e he => (hfresh e he).2
    · intro e he
      rw [hrows] at he
      rcases List.mem_append.mp he with he | he
      · exact hs.plain e he
      · rw [List.mem_singleton.mp he]
        exact hplain
    · intro g hg
      rw [hrows]
      rcases hlog g hg with hold | rfl
      · obtain ⟨q', hq', hrow⟩ := hs.grants g hold
        exact ⟨q', hq', List.mem_append_left _ hrow⟩
      · exact ⟨q, rfl, List.mem_append_right _ (List.mem_singleton_self _)⟩

theorem step_grows (hread : p.1.readable = true) (h : KeptStep sqlite crypto p e p') :
    entries p.1.system.world <+: entries p'.1.system.world := by
  rcases (step_registers hread h).2 with ⟨hsame, -⟩ | ⟨id, q, hrows, -⟩
  · exact ⟨[], by rw [hsame, List.append_nil]⟩
  · rw [hrows]
    exact List.prefix_append _ _

theorem run_grows (hread : p.1.readable = true) (h : Run (KeptStep sqlite crypto) p es p') :
    p'.1.readable = true ∧ entries p.1.system.world <+: entries p'.1.system.world := by
  induction h with
  | nil => exact ⟨hread, List.prefix_rfl⟩
  | snoc hrun hstep ih =>
    obtain ⟨hread', hgrows⟩ := ih
    exact ⟨(step_registers hread' hstep).1, hgrows.trans (step_grows hread' hstep)⟩

theorem initial_sound {w : World} (hw : w.db = .empty) : Sound (Server.initial w, []) := by
  have hnone : entries (Server.initial w).system.world = [] := by
    rw [entries, columns, Server.initial, System.initial, hw]
    rfl
  constructor
  · rw [hnone]
    exact List.nodup_nil
  · rw [hnone]
    exact List.nodup_nil
  · rw [hnone]
    exact List.forall_mem_nil _
  · exact List.forall_mem_nil _

/-- Main theorem: in every run from a new database along which no file of the database is
approved, the registry is sound, and every later registry only adds clients to it. -/
theorem run_sound {w : World} (hw : w.db = .empty)
    (h : Run (KeptStep sqlite crypto) (.initial w, []) es p)
    (k : Run (KeptStep sqlite crypto) p fs p') :
    Sound p ∧ entries p.1.system.world <+: entries p'.1.system.world := by
  have hp : p.1.readable = true ∧ Sound p := by
    apply h.invariant (I := fun p => p.1.readable = true ∧ Sound p) ⟨rfl, initial_sound hw⟩
    intro s e t hs hstep
    exact ⟨(step_registers hs.1 hstep).1, step_sound hs.1 hstep hs.2⟩
  exact ⟨hp.2, (run_grows hp.1 k).2⟩

end Runs

section Sample

def uploads (name : Bytes) : List Event :=
  .accept :: .start ::
    [registrationRequestMessage [0x61], publicKeyRequestMessage sampleId [0x61] samplePublicKey,
      PathConfinement.emptyUpload name].map fun data =>
        .recv 0 (.chunk data) { sampleEnv with uuid := sampleId }

def approves (name : Bytes) : Event := .recv 0 (.chunk (PathConfinement.approval name)) sampleEnv

theorem asWritten_uploads {name : Bytes} {e : Event} (h : e ∈ uploads name) : AsWritten e := by
  simp only [uploads, List.map_cons, List.map_nil, List.mem_cons, List.not_mem_nil,
    or_false] at h
  rcases h with rfl | rfl | rfl | rfl | rfl
  · trivial
  · trivial
  · exact fun _ => rfl
  · exact fun _ => rfl
  · exact fun _ => rfl

def keptNext : Server × Log → Event → Option (Server × Log) :=
  guarded (fun p => KeepsDatabase p.1.system) (logNext .sample samplePy)

theorem run_keptNext {p p' : Server × Log} {es : List Event} (h : es.foldlM keptNext p = some p')
    (hsql : ∀ e ∈ es, AsWritten e) : Run (KeptStep .sample samplePy) p es p' :=
  (Run.of_guarded h).with_mem.mono fun ⟨⟨hstep, hkeeps⟩, hmem⟩ =>
    ⟨⟨hstep, hsql _ hmem⟩, hkeeps⟩

theorem run_sound_approved : ∃ p p' : Server × Log,
    p.2.map Prod.fst = [sampleId] ∧
      p'.1.system.world.disk.node [clientDirectory sampleId, [0x78]] = some (.file []) ∧
      Sound p ∧ entries p.1.system.world <+: entries p'.1.system.world := by
  have hfacts : ((uploads [0x78]).foldlM keptNext (.initial .sample, [])).bind
      (fun p => ([approves [0x78]].foldlM keptNext p).map fun p' =>
        (p.2.map Prod.fst, p'.1.system.world.disk.node [clientDirectory sampleId, [0x78]])) =
      some ([sampleId], some (.file [])) := by
    decide +kernel
  obtain ⟨p, hp, hfacts⟩ := Option.bind_eq_some_iff.mp hfacts
  obtain ⟨p', hp', hfacts⟩ := Option.map_eq_some_iff.mp hfacts
  obtain ⟨hids, hdisk⟩ := Prod.mk.inj hfacts
  have hrun := run_keptNext hp fun _ => asWritten_uploads
  have hlast := run_keptNext hp' (List.forall_mem_singleton.mpr fun _ => rfl)
  exact ⟨p, p', hids, hdisk, run_sound rfl hrun hlast⟩

/-- The name `../server.db`: SQLite finds no table in the empty file. -/
theorem not_sound_overwritten :
    ¬∀ (sqlite : Sqlite) (crypto : PyCrypto) (w : World) (es fs : List Event)
      (p p' : Server × Log), w.db = .empty →
      Run (LoggedStep sqlite crypto) (.initial w, []) es p →
      Run (LoggedStep sqlite crypto) p fs p' →
      Sound p ∧ entries p.1.system.world <+: entries p'.1.system.world := by
  intro h
  have hfacts : ((uploads aboveName).foldlM (logNext .sample samplePy)
      (.initial .sample, [])).bind (fun p => (logNext .sample samplePy p (approves aboveName)).map
        fun p' => (entries p.1.system.world, entries p'.1.system.world)) =
      some ([(sampleId, [0x61])], []) := by
    decide +kernel
  obtain ⟨p, hp, hfacts⟩ := Option.bind_eq_some_iff.mp hfacts
  obtain ⟨p', hp', hfacts⟩ := Option.map_eq_some_iff.mp hfacts
  obtain ⟨hbefore, hafter⟩ := Prod.mk.inj hfacts
  have hrun : Run (LoggedStep .sample samplePy) (.initial .sample, []) (uploads aboveName) p :=
    (Run.of_foldlM hp).with_mem.mono fun ⟨hstep, hmem⟩ => ⟨hstep, asWritten_uploads hmem⟩
  have hlast : Run (LoggedStep .sample samplePy) p [approves aboveName] p' :=
    .cons ⟨hp', fun _ => rfl⟩ (.nil p')
  have hprefix := (h .sample samplePy .sample _ _ p p' rfl hrun hlast).2
  rw [hbefore, hafter, List.prefix_nil] at hprefix
  cases hprefix

end Sample

end Registry
