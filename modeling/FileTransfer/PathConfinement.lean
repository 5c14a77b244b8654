import FileTransfer.ServerFrames
import FileTransfer.ServerSystem
import FileTransfer.MessageRoundTrip

/-! # Path confinement

The only path that a request opens for writing is the client directory joined with the
file name. Where it leads depends on the name through its normal form alone. -/
namespace PathConfinement

open ByteField PathWalk ServerProtocol ServerTables ServerState ServerFiles ServerDatabase
  ServerHandlers ServerThread ServerFrames ServerSystem RaisingProgram

variable (crypto : PyCrypto) (env : Env)

section Names

/-- Where a file name leads from the client directory: an absolute name by its own normal
form, a relative one when it comes back into the levels that it left. -/
def NameConfined (dir : Loc) (name : Bytes) : Prop :=
  if name.head? = some slash then StrictlyInside dir (normal (moves name)).2
  else StrictlyInside (dir.drop (dir.length - (normal (moves name)).1)) (normal (moves name)).2

instance (dir : Loc) (name : Bytes) : Decidable (NameConfined dir name) := by
  unfold NameConfined
  infer_instance

theorem resolve_joinPath_absolute {name : Bytes} (h : name.head? = some slash) (base : Bytes) :
    resolve [] (moves (joinPath base name)) = (normal (moves name)).2 := by
  rw [joinPath, if_pos h, resolve_eq_climb]
  simp [climb]

theorem resolve_joinPath_relative {dir : Loc} (hdir : ∀ c ∈ dir, Plain c) (hne : dir ≠ [])
    {name : Bytes} (h : name.head? ≠ some slash) :
    resolve [] (moves (joinPath (render dir) name)) = climb dir (normal (moves name)) := by
  rw [joinPath_relative hdir hne h, moves_slash, moves_render hdir, resolve_append,
    resolve_downs, List.nil_append, resolve_eq_climb]

theorem strictlyInside_joinPath {dir : Loc} (hdir : ∀ c ∈ dir, Plain c) (hne : dir ≠ [])
    (name : Bytes) :
    StrictlyInside dir (resolve [] (moves (joinPath (render dir) name))) ↔
      NameConfined dir name := by
  unfold NameConfined
  split
  · next h => rw [resolve_joinPath_absolute h]
  · next h => rw [resolve_joinPath_relative hdir hne h, ← strictlyInside_climb]

theorem nameConfined_plain (dir : Loc) {name : Bytes} (h : Plain name) :
    NameConfined dir name := by
  have hn : normal (moves name) = (0, [name]) := by
    rw [moves_plain h]
    rfl
  rw [NameConfined, if_neg (head?_plain h), hn]
  exact ⟨[name], by simp, by simp⟩

end Names

section Opened

theorem unsaved_opened : Unsaved fun t u : Turn => u.opened = t.opened where
  pop _ := rfl
  send _ _ := rfl
  world _ _ _ _ := rfl
  mkdir _ _ _ _ _ := rfl

instance : Std.Refl fun t u : Turn => u.opened = t.opened := ⟨fun _ => rfl⟩
instance : IsTrans Turn fun t u => u.opened = t.opened := ⟨fun _ _ _ h k => k.trans h⟩

theorem write_opened (response : Response) (t : Turn) :
    ((write env response).run t).2.opened = t.opened :=
  guarantees_write unsaved_opened.frame env trivial t

theorem refuse_opened (t : Turn) : ((refuse env).run t).2.opened = t.opened :=
  guarantees_refuse unsaved_opened.frame env trivial t

theorem crcValid_opened (w : World) (q : CrcStatusRequest) :
    ((crcValid env q).run (Turn.start w env)).2.opened =
      if Saves env w q then [filePath w q.clientID q.fileName] else [] := by
  by_cases hsaves : Saves env w q
  · obtain ⟨file, hfile⟩ := Option.isSome_iff_exists.mp hsaves.2.2
    obtain ⟨u, hrun, -, -, hopened⟩ := crcValid_saves env hsaves hfile
    rw [hrun, if_pos hsaves, ← (getFileInstance_keyed hfile).1]
    split
    · rw [refuse_opened, hopened]
    · rw [write_opened, hopened]
  · obtain ⟨u, hrun, hu, -⟩ := crcValid_refused env hsaves
    rw [hrun, if_neg hsaves, refuse_opened, hu.opened]

/-- A recv result opens a path only when it completes a CRC-valid request that saves. -/
theorem mem_opened_iff (w : World) {control : Control} (hc : control.awaits = true)
    (r : RecvResult) {path : Text} :
    path ∈ (readStep crypto env w control r).opened ↔
      ∃ q, (readStep crypto env w control r).handled = some (.crcValid q) ∧ Saves env w q ∧
        path = filePath w q.clientID q.fileName := by
  by_cases hq : ∃ q, (readStep crypto env w control r).handled = some (.crcValid q)
  · obtain ⟨q, hq⟩ := hq
    have hreceived := (readStep_handled_iff crypto env w hc).mp hq
    have hopened := (settle_world env w (some (.crcValid q)) (crcValid env q)).2.1
    rw [hq, readStep_eq_react crypto env w hc, hreceived, react, handle, hopened, crcValid_opened]
    split
    · next hs => simp [hs]
    · next hs => simp [hs]
  · have hne : ∀ q, (readStep crypto env w control r).handled ≠ some (.crcValid q) :=
      fun q h => hq ⟨q, h⟩
    obtain ⟨u, hu, -, hopened⟩ := readStep_related unsaved_opened crypto env w hc r hne
    have hnil : u.opened = [] := hu
    rw [hopened, hnil]
    constructor
    · intro h
      cases h
    · rintro ⟨q, h, -⟩
      exact absurd h (hne q)

end Opened

/-- Every path that the step opened lies strictly inside the directory of the client that
the request names. -/
def Confined (w : World) (out : ReadStep) : Prop :=
  ∀ path ∈ out.opened, ∃ q, out.handled = some (.crcValid q) ∧
    StrictlyInside (clientFolder w q.clientID) (resolve [] (moves path))

variable {crypto env}

/-- Main theorem: a step is confined exactly when it does not save under a name that leads
out of the client's directory. -/
theorem confined_iff {s : System} {c : ℕ} {r : RecvResult} {out : ReadStep}
    (h : s.served crypto c r env = some out) :
    Confined s.world out ↔ ∀ q, out.handled = some (.crcValid q) → Saves env s.world q →
      NameConfined (clientFolder s.world q.clientID) q.fileName := by
  obtain ⟨conn, -, hawaits, rfl⟩ := served_eq_some h
  have hjoin : ∀ q : CrcStatusRequest,
      StrictlyInside (clientFolder s.world q.clientID)
        (resolve [] (moves (filePath s.world q.clientID q.fileName))) ↔
        NameConfined (clientFolder s.world q.clientID) q.fileName := fun q =>
    strictlyInside_joinPath (clientFolder_plain _ _) (clientFolder_ne_nil _ _) _
  constructor
  · intro hconf q hq hsaves
    have hmem := (mem_opened_iff crypto env s.world hawaits r).mpr ⟨q, hq, hsaves, rfl⟩
    obtain ⟨q', hq', hinside⟩ := hconf _ hmem
    cases hq.symm.trans hq'
    exact (hjoin q).mp hinside
  · intro hnames path hpath
    obtain ⟨q, hq, hsaves, rfl⟩ := (mem_opened_iff crypto env s.world hawaits r).mp hpath
    exact ⟨q, hq, (hjoin q).mpr (hnames q hq hsaves)⟩

section Sample

open ClientChannel MessageRoundTrip StepRun

def emptyUpload (name : Bytes) : Bytes := requestToSendFileMessage sampleId 0 (nameField name) []

def approval (name : Bytes) : Bytes :=
  crcStatusRequestMessage requestCrcValid sampleId (nameField name)

def approvalRequest (name : Bytes) : CrcStatusRequest :=
  ⟨⟨sampleId, clientVersion, requestCrcValid, clientIdSize + fileNameSize⟩, sampleId, name⟩

theorem confined_iff_plain : ∃ s out,
    System.lastServed .trivial .withClient [emptyUpload [0x78]] (approval [0x78]) =
      some (s, out) ∧ out.opened ≠ [] ∧ Confined s.world out := by
  have hfacts : (System.lastServed .trivial .withClient [emptyUpload [0x78]]
      (approval [0x78])).map (fun ⟨_, out⟩ => (out.handled, out.opened)) =
      some (some (.crcValid (approvalRequest [0x78])),
        [slash :: clientDirectory sampleId ++ [slash, 0x78]]) := by decide +kernel
  obtain ⟨⟨s, out⟩, hlast, hfacts⟩ := Option.map_eq_some_iff.mp hfacts
  simp only [Prod.mk.injEq] at hfacts
  obtain ⟨hhandled, hopened⟩ := hfacts
  refine ⟨s, out, hlast, by simp [hopened],
    (confined_iff (lastServed_eq_some hlast).2).mpr fun q hq _ => ?_⟩
  cases hhandled.symm.trans hq
  exact nameConfined_plain _ (by decide)

/-- An absolute name is opened as it is. -/
theorem not_confined_absolute :
    ¬∀ (crypto : PyCrypto) (w : World) (es : List Event) (s : System) (c : ℕ) (r : RecvResult)
      (env : Env) (out : ReadStep), Run (Step crypto) (.initial w) es s →
        s.served crypto c r env = some out → Confined s.world out := by
  intro h
  have hfacts : (System.lastServed .trivial .withClient [emptyUpload [0x2F, 0x78]]
      (approval [0x2F, 0x78])).map (fun ⟨s, out⟩ => (out.handled, out.opened,
        clientFolder s.world sampleId)) =
      some (some (.crcValid (approvalRequest [0x2F, 0x78])), [[0x2F, 0x78]],
        [clientDirectory sampleId]) := by decide +kernel
  obtain ⟨⟨s, out⟩, hlast, hfacts⟩ := Option.map_eq_some_iff.mp hfacts
  simp only [Prod.mk.injEq] at hfacts
  obtain ⟨hhandled, hopened, hfolder⟩ := hfacts
  obtain ⟨⟨es, hrun⟩, hserved⟩ := lastServed_eq_some hlast
  have hconf := h .trivial .withClient es s 0 _ .undisturbed out hrun hserved
  obtain ⟨q, hq, hinside⟩ := hconf [0x2F, 0x78] (by rw [hopened]; simp)
  cases hhandled.symm.trans hq
  have hfolder' : clientFolder s.world (approvalRequest [0x2F, 0x78]).clientID =
      [clientDirectory sampleId] := hfolder
  rw [hfolder'] at hinside
  exact absurd hinside (by decide +kernel)

end Sample

end PathConfinement
