import FileTransfer.ServerFrames
import FileTransfer.ServerSystem
import FileTransfer.MessageRoundTrip

/-! # Durability of approved files

A run with the version of every file that was approved last. Only `saveFile` changes what
is on disk; the runs that keep the approved versions are those in which every approved
save is complete and no save reaches the place of another approved file. -/
namespace DurableFiles

open ByteField PathWalk ServerProtocol ServerTables ServerState ServerFiles ServerDatabase
  ServerHandlers ServerThread ServerFrames ServerSystem StepRun RaisingProgram

section Definitions

/-- The content that was in memory when a file was approved last. -/
abbrev Approvals := ClientId → Text → Option (Option Bytes)

def Approvals.none : Approvals := fun _ _ => .none

def Approvals.approve (m : Approvals) (q : CrcStatusRequest) (version : Option Bytes) :
    Approvals :=
  fun c f => if c = q.clientID ∧ f = q.fileName then some version else m c f

def approvedBy (w : World) (out : ReadStep) (m : Approvals) : Approvals :=
  match out.handled with
  | some (.crcValid q) =>
    if Response.receivingApproved ∈ out.sent then
      m.approve q ((getFileInstance w q.clientID q.fileName).bind (·.content))
    else m
  | _ => m

variable (crypto : PyCrypto)

def recordNext (p : System × Approvals) (e : Event) : Option (System × Approvals) :=
  (p.1.next crypto e).map fun t =>
    match e with
    | .recv c r env =>
      match p.1.served crypto c r env with
      | some out => (t, approvedBy p.1.world out p.2)
      | none => (t, p.2)
    | _ => (t, p.2)

def RecordedStep (p : System × Approvals) (e : Event) (p' : System × Approvals) : Prop :=
  recordNext crypto p e = some p'

def place (w : World) (c : ClientId) (f : Text) : Loc := clientFolder w c ++ [f]

/-- Every approved file is on disk with the version that was approved last. -/
def Durable (w : World) (m : Approvals) : Prop :=
  ∀ c f version, Plain f → m c f = some version →
    ∃ bytes, version = some bytes ∧ w.disk.node (place w c f) = some (.file bytes)

def Answered (env : Env) : Prop := env.sql 3 ≠ .connectRaises ∧ env.sendOk = true

/-- What is approved is written, and what is opened over an approved file is its own new
version and is approved. -/
def Keeps (env : Env) (w : World) (m : Approvals) (q : CrcStatusRequest) : Prop :=
  Saves env w q → ∀ file, getFileInstance w q.clientID q.fileName = some file →
    (Plain q.fileName → Answered env → Writable env w.disk file.fullPath file.content) ∧
    ∀ c f, Plain f → (m c f).isSome = true → Opens env w.disk file.fullPath (place w c f) →
      Answered env ∧ c = q.clientID ∧ f = q.fileName

def CleanStep (p : System × Approvals) (e : Event) (p' : System × Approvals) : Prop :=
  RecordedStep crypto p e p' ∧ ∀ c r env, e = .recv c r env → ∀ out q,
    p.1.served crypto c r env = some out → out.handled = some (.crcValid q) →
      Keeps env p.1.world p.2 q

end Definitions

variable {crypto : PyCrypto} {env : Env} {w : World} {m : Approvals}

section Places

variable {c : ClientId} {f : Text} {disk : Disk} {loc : Loc}

theorem place_plain (w : World) (c : ClientId) (hf : Plain f) :
    ∀ name ∈ place w c f, Plain name := by
  intro name h
  rcases List.mem_append.mp h with h | h
  · exact clientFolder_plain w c name h
  · rw [List.mem_singleton.mp h]
    exact hf

theorem opens_plain (hf : Plain f) (h : Opens env disk (filePath w c f) loc) :
    loc = place w c f := by
  obtain ⟨-, dir, name, htarget, -, rfl⟩ := h
  have hresolve := (openTarget_eq_some htarget).1
  rw [filePath_plain w c hf, ← place, moves_render (place_plain w c hf), resolve_downs,
    List.nil_append] at hresolve
  exact hresolve.symm

theorem place_injective {c' : ClientId} {f' : Text} (h : place w c f = place w c' f') :
    c = c' ∧ f = f' := by
  obtain ⟨hfolder, hname⟩ := List.append_inj' h rfl
  refine ⟨clientDirectory_injective ?_, List.singleton_inj.mp hname⟩
  exact List.singleton_inj.mp (List.append_cancel_left hfolder)

theorem place_congr {w' : World} (h : w'.cwd = w.cwd) (c : ClientId) (f : Text) :
    place w' c f = place w c f := by
  rw [place, clientFolder, h, place, clientFolder]

/-- A request for a plain name keeps everything once it is written and approved. -/
theorem keeps_plain {q : CrcStatusRequest} (hf : Plain q.fileName) (hanswered : Answered env)
    (hwritable : ∀ file, getFileInstance w q.clientID q.fileName = some file →
      Writable env w.disk file.fullPath file.content) : Keeps env w m q := by
  intro _ file hfile
  refine ⟨fun _ _ => hwritable file hfile, fun c f _ _ hopens => ⟨hanswered, ?_⟩⟩
  rw [(getFileInstance_keyed hfile).1] at hopens
  exact place_injective (opens_plain hf hopens)

end Places

section Frame

def KeepsFiles (t u : Turn) : Prop :=
  u.world.cwd = t.world.cwd ∧ ∀ loc bytes, t.world.disk.node loc = some (.file bytes) →
    u.world.disk.node loc = some (.file bytes)

instance : Std.Refl KeepsFiles := ⟨fun _ => ⟨rfl, fun _ _ h => h⟩⟩

instance : IsTrans Turn KeepsFiles :=
  ⟨fun _ _ _ h k => ⟨k.1.trans h.1, fun loc bytes hn => k.2 loc bytes (h.2 loc bytes hn)⟩⟩

theorem unsaved_keepsFiles : Unsaved KeepsFiles where
  pop _ := ⟨rfl, fun _ _ h => h⟩
  send _ _ := ⟨rfl, fun _ _ h => h⟩
  world t w hdisk hcwd := by
    refine ⟨hcwd, fun loc bytes h => ?_⟩
    rw [inWorld_world, hdisk]
    exact h
  mkdir t parent a disk hmade := by
    refine ⟨rfl, fun loc bytes h => ?_⟩
    obtain ⟨-, hfree, hnode⟩ := Tree.mkdir_eq_some hmade
    have hne : loc ≠ parent ++ [a] := by
      rintro rfl
      rw [hfree] at h
      cases h
    rw [inWorld_world, hnode, Function.update_of_ne hne, h]

theorem durable_of_keepsFiles {w' : World} (hcwd : w'.cwd = w.cwd)
    (hfiles : ∀ loc bytes, w.disk.node loc = some (.file bytes) →
      w'.disk.node loc = some (.file bytes)) (h : Durable w m) : Durable w' m := by
  intro c f version hf hm
  obtain ⟨bytes, hversion, hnode⟩ := h c f version hf hm
  exact ⟨bytes, hversion, by rw [place_congr hcwd]; exact hfiles _ _ hnode⟩

end Frame

section Saving

variable {q : CrcStatusRequest} {file : File}

theorem settle_saves (hsaves : Saves env w q)
    (hfile : getFileInstance w q.clientID q.fileName = some file) :
    (Response.receivingApproved ∈
        (settle env w (some (.crcValid q)) (crcValid env q)).sent ↔ Answered env) ∧
      (settle env w (some (.crcValid q)) (crcValid env q)).world =
        verifiedWorld env file q.clientID true (Turn.start w env).pop := by
  obtain ⟨u, hrun, hworld, hsent, -⟩ := crcValid_saves env hsaves hfile
  unfold Answered
  by_cases hr : env.sql 3 = .connectRaises
  · rw [if_pos hr] at hrun
    rw [settle_refused env hrun, hsent]
    refine ⟨iff_of_false ?_ fun h => h.1 hr, hworld⟩
    dsimp only
    split <;> simp
  · rw [if_neg hr] at hrun
    rw [settle_written env hrun, hsent]
    refine ⟨?_, hworld⟩
    by_cases hok : env.sendOk = true <;> simp [hr, hok]

theorem verified_node (w : World) (loc : Loc) :
    (verifiedWorld env file q.clientID true (Turn.start w env).pop).disk.node loc =
      (saved env w.disk file.fullPath file.content).1.node loc := by
  simp only [verifiedWorld, if_true]
  rfl

theorem verified_cwd (w : World) :
    (verifiedWorld env file q.clientID true (Turn.start w env).pop).cwd = w.cwd := by
  simp [verifiedWorld, World.store]

theorem saved_durable (hfile : getFileInstance w q.clientID q.fileName = some file)
    (hf : Plain q.fileName) (hwritable : Writable env w.disk file.fullPath file.content) :
    ∃ bytes, file.content = some bytes ∧
      (saved env w.disk file.fullPath file.content).1.node (place w q.clientID q.fileName) =
        some (.file bytes) := by
  obtain ⟨⟨loc, hopens⟩, hcut, hsome⟩ := hwritable
  obtain ⟨bytes, hcontent⟩ := Option.isSome_iff_exists.mp hsome
  have hloc : loc = place w q.clientID q.fileName := by
    rw [(getFileInstance_keyed hfile).1] at hopens
    exact opens_plain hf hopens
  refine ⟨bytes, hcontent, ?_⟩
  rw [hcontent, saved_node env hopens hcut, hloc, Function.update_self]

theorem crcValid_durable (hkeeps : Keeps env w m q) (h : Durable w m) :
    Durable (settle env w (some (.crcValid q)) (crcValid env q)).world
      (approvedBy w (settle env w (some (.crcValid q)) (crcValid env q)) m) := by
  have hhandled := (settle_world env w (some (.crcValid q)) (crcValid env q)).2.2
  rw [approvedBy, hhandled]
  dsimp only
  by_cases hsaves : Saves env w q
  · obtain ⟨file, hfile⟩ := Option.isSome_iff_exists.mp hsaves.2.2
    obtain ⟨hwrites, hover⟩ := hkeeps hsaves file hfile
    obtain ⟨hsent, hworld⟩ := settle_saves hsaves hfile
    rw [hworld, hfile, Option.bind_some]
    -- an approved file that keeps its version is not opened
    have hothers : ∀ c f version, Plain f → m c f = some version →
        ¬(Answered env ∧ c = q.clientID ∧ f = q.fileName) → ∃ bytes, version = some bytes ∧
          (saved env w.disk file.fullPath file.content).1.node (place w c f) =
            some (.file bytes) := by
      intro c f version hf hm hne
      obtain ⟨bytes, hversion, hnode⟩ := h c f version hf hm
      have hclosed : ¬Opens env w.disk file.fullPath (place w c f) :=
        fun hopens => hne (hover c f hf (by rw [hm]; rfl) hopens)
      exact ⟨bytes, hversion, by rw [saved_node_of_not_opens env _ hclosed, hnode]⟩
    intro c f version hf hm
    rw [place_congr (verified_cwd w), verified_node]
    by_cases hanswered : Answered env
    · rw [if_pos (hsent.mpr hanswered), Approvals.approve] at hm
      by_cases hself : c = q.clientID ∧ f = q.fileName
      · obtain ⟨rfl, rfl⟩ := hself
        rw [if_pos ⟨rfl, rfl⟩, Option.some.injEq] at hm
        rw [← hm]
        exact saved_durable hfile hf (hwrites hf hanswered)
      · rw [if_neg hself] at hm
        exact hothers c f version hf hm fun hs => hself hs.2
    · rw [if_neg (hsent.not.mpr hanswered)] at hm
      exact hothers c f version hf hm fun hs => hanswered hs.1
  · obtain ⟨u, hrun, hu, -⟩ := crcValid_refused env hsaves
    have hsilent : Response.receivingApproved ∉
        (settle env w (some (.crcValid q)) (crcValid env q)).sent := by
      rw [settle_refused env hrun, hu.sent]
      dsimp only
      split <;> simp
    rw [if_neg hsilent, settle_refused env hrun]
    refine durable_of_keepsFiles hu.cwd (fun loc bytes hnode => ?_) h
    rw [hu.disk, hnode]

end Saving

section Runs

variable {p p' : System × Approvals} {e : Event}

theorem recorded_recv {c : ℕ} {r : RecvResult} (h : RecordedStep crypto p (.recv c r env) p') :
    ∃ out, p.1.served crypto c r env = some out ∧ p'.1.world = out.world ∧
      p'.2 = approvedBy p.1.world out p.2 := by
  obtain ⟨t, hstep, hp⟩ := Option.map_eq_some_iff.mp h
  obtain ⟨conn, hc, hawaits, rfl⟩ := step_recv hstep
  have hserved : p.1.served crypto c r env =
      some (readStep crypto env p.1.world conn.control r) := by
    simp only [System.served, hc, if_pos hawaits]
  simp only [hserved] at hp
  rw [← hp]
  exact ⟨_, hserved, finish_world, rfl⟩

/-- The step lemma: a clean step keeps every approved version on disk. -/
theorem step_durable (h : CleanStep crypto p e p') (hd : Durable p.1.world p.2) :
    Durable p'.1.world p'.2 := by
  obtain ⟨h, hclean⟩ := h
  cases e with
  | accept =>
    obtain ⟨t, hstep, rfl⟩ := Option.map_eq_some_iff.mp h
    obtain ⟨-, rfl⟩ := step_accept hstep
    exact hd
  | start =>
    obtain ⟨t, hstep, rfl⟩ := Option.map_eq_some_iff.mp h
    obtain ⟨c, -, -, rfl⟩ := step_start hstep
    exact hd
  | recv c r env =>
    obtain ⟨out, hserved, hworld, hm⟩ := recorded_recv h
    rw [hworld, hm]
    obtain ⟨conn, -, hawaits, rfl⟩ := served_eq_some hserved
    by_cases hq : ∃ q, (readStep crypto env p.1.world conn.control r).handled =
        some (.crcValid q)
    · obtain ⟨q, hq⟩ := hq
      have hkeeps := hclean c r env rfl _ q hserved hq
      have hreceived := (readStep_handled_iff crypto env p.1.world hawaits).mp hq
      rw [readStep_eq_react crypto env p.1.world hawaits, hreceived]
      exact crcValid_durable hkeeps hd
    · have hne : ∀ q, (readStep crypto env p.1.world conn.control r).handled ≠
          some (.crcValid q) := fun q h => hq ⟨q, h⟩
      obtain ⟨u, hu, hworld', -⟩ :=
        readStep_related unsaved_keepsFiles crypto env p.1.world hawaits r hne
      have hsame : approvedBy p.1.world (readStep crypto env p.1.world conn.control r) p.2 =
          p.2 := by
        unfold approvedBy
        split
        · next q hq' => exact absurd hq' (hne q)
        · rfl
      rw [hsame, hworld']
      exact durable_of_keepsFiles hu.1 hu.2 hd

/-- Main theorem: in a run of clean steps every approved file keeps the version that was
approved last. -/
theorem run_durable {es : List Event} (h : Run (CleanStep crypto) (.initial w, .none) es p) :
    Durable p.1.world p.2 := by
  refine Run.invariant (I := fun p => Durable p.1.world p.2) h ?_ fun hd hs => step_durable hs hd
  intro c f version _ hm
  cases hm

end Runs

section Sample

open ClientChannel MessageRoundTrip

def upload (ciphertext : Bytes) : Bytes :=
  requestToSendFileMessage sampleId ciphertext.length (nameField [0x78]) ciphertext

def approval : Bytes := crcStatusRequestMessage requestCrcValid sampleId (nameField [0x78])

def delivered (p : System × Approvals) (data : Bytes) : System × Approvals :=
  (recordNext .trivial p (.recv 0 (.chunk data) .undisturbed)).getD p

theorem delivered_step {p : System × Approvals} {data : Bytes}
    (h : (recordNext .trivial p (.recv 0 (.chunk data) .undisturbed)).isSome = true) :
    RecordedStep .trivial p (.recv 0 (.chunk data) .undisturbed) (delivered p data) := by
  obtain ⟨p', hp⟩ := Option.isSome_iff_exists.mp h
  rw [RecordedStep, delivered, hp]
  rfl

def handledNext (p : System × Approvals) (data : Bytes) : Option Request :=
  (p.1.served .trivial 0 (.chunk data) .undisturbed).bind (·.handled)

theorem delivered_clean {p : System × Approvals} {data : Bytes} {request : Request}
    (h : (recordNext .trivial p (.recv 0 (.chunk data) .undisturbed)).isSome = true)
    (hnext : handledNext p data = some request)
    (hkeeps : ∀ q, request = .crcValid q → Keeps .undisturbed p.1.world p.2 q) :
    CleanStep .trivial p (.recv 0 (.chunk data) .undisturbed) (delivered p data) := by
  refine ⟨delivered_step h, fun c r env he out q hserved hq => ?_⟩
  cases he
  rw [handledNext, hserved, Option.bind_some, hq] at hnext
  exact hkeeps q (Option.some.inj hnext).symm

def served₀ : System × Approvals := (.serving .withClient, .none)
def served₁ : System × Approvals := delivered served₀ (upload (.replicate 16 5))
def served₂ : System × Approvals := delivered served₁ approval
def served₃ : System × Approvals := delivered served₂ (upload [0])
def served₄ : System × Approvals := delivered served₃ approval

theorem serving_clean :
    Run (CleanStep .trivial) (.initial .withClient, .none) [.accept, .start] served₀ := by
  have haccept : CleanStep .trivial (.initial .withClient, .none) .accept
      ({ System.initial .withClient with accepted := 1, waiting := some 0 }, .none) :=
    ⟨rfl, fun c r env h => (by cases h)⟩
  exact .cons haccept (.cons ⟨rfl, fun c r env h => (by cases h)⟩ (.nil _))

def approvalRequest : CrcStatusRequest :=
  ⟨⟨sampleId, clientVersion, requestCrcValid, clientIdSize + fileNameSize⟩, sampleId, [0x78]⟩

theorem approval_keeps : Keeps .undisturbed served₁.1.world served₁.2 approvalRequest := by
  refine keeps_plain (by decide) ⟨by decide, rfl⟩ fun file hfile => ?_
  have hsaved : (getFileInstance served₁.1.world sampleId [0x78]).map (fun file =>
      (saved .undisturbed served₁.1.world.disk file.fullPath file.content).2) = some true := by
    decide +kernel
  rw [show getFileInstance served₁.1.world sampleId [0x78] = some file from hfile, Option.map_some,
    Option.some.injEq] at hsaved
  exact (saved_eq_true_iff _ _ _ _).mp hsaved

def sampleEvents : List Event :=
  [.accept, .start] ++ [upload (.replicate 16 5), approval, upload [0]].map fun data =>
    .recv 0 (.chunk data) .undisturbed

theorem upload_clean {p : System × Approvals} {data : Bytes} {q : RequestToSendFile}
    (h : (recordNext .trivial p (.recv 0 (.chunk data) .undisturbed)).isSome = true)
    (hnext : handledNext p data = some (.sendFile q)) :
    CleanStep .trivial p (.recv 0 (.chunk data) .undisturbed) (delivered p data) :=
  delivered_clean h hnext fun q h => by cases h

theorem served₀_clean :
    CleanStep .trivial served₀ (.recv 0 (.chunk (upload (.replicate 16 5))) .undisturbed) served₁ :=
  @upload_clean _ _ ⟨⟨sampleId, clientVersion, requestToSendFile, 275⟩, 16, [0x78], .replicate 16 5⟩
    (by decide +kernel) (by decide +kernel)

theorem served₁_clean :
    CleanStep .trivial served₁ (.recv 0 (.chunk approval) .undisturbed) served₂ := by
  have hnext : handledNext served₁ approval = some (.crcValid approvalRequest) := by
    decide +kernel
  refine delivered_clean (by decide +kernel) hnext fun q hq => ?_
  cases hq
  exact approval_keeps

theorem served₂_clean :
    CleanStep .trivial served₂ (.recv 0 (.chunk (upload [0])) .undisturbed) served₃ :=
  @upload_clean _ _ ⟨⟨sampleId, clientVersion, requestToSendFile, 260⟩, 1, [0x78], [0]⟩
    (by decide +kernel) (by decide +kernel)

theorem served₃_run :
    Run (CleanStep .trivial) (.initial .withClient, .none) sampleEvents served₃ :=
  serving_clean.append (.cons served₀_clean (.cons served₁_clean (.cons served₂_clean (.nil _))))

/-- A file is approved, and the next upload is not decrypted and not approved. -/
theorem run_durable_approved : served₃.2 sampleId [0x78] = some (some (.replicate 16 5)) ∧
    Durable served₃.1.world served₃.2 :=
  ⟨by decide +kernel, run_durable served₃_run⟩

/-- The approval of the upload that was not decrypted empties the approved file. -/
theorem not_durable_undecrypted :
    ¬∀ (crypto : PyCrypto) (w : World) (es : List Event) (p : System × Approvals),
      Run (RecordedStep crypto) (.initial w, .none) es p → Durable p.1.world p.2 := by
  intro h
  have hstep : RecordedStep .trivial served₃ (.recv 0 (.chunk approval) .undisturbed) served₄ :=
    delivered_step (by decide +kernel)
  have hrun := (served₃_run.mono fun hs => hs.1).snoc hstep
  have hversion : served₄.2 sampleId [0x78] = some none := by decide +kernel
  obtain ⟨bytes, hbytes, -⟩ := h .trivial .withClient _ served₄ hrun sampleId [0x78] none
    (by decide) hversion
  cases hbytes

end Sample

end DurableFiles
