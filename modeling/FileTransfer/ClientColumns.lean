import FileTransfer.ServerFrames

/-! # What the handlers leave in the table of clients

A column, or a group of them, that no statement of a handler sets is the same behind the
handler. Every handler but two sets `LastSeen` alone, and only these two send a response
with an id or a key. -/
namespace ClientColumns

open ByteField ServerProtocol ServerTables ServerState ServerFiles ServerDatabase ServerHandlers
  ServerThread ServerFrames RaisingProgram

section Definitions

variable {β : Type} (col : ClientRow → β)

def columns (db : Tables) : List β := db.server.map col

def Steady : Prop := ∀ (row : ClientRow) (lastSeen : ℕ), col { row with lastSeen } = col row

/-- The columns are as they were, and no response was sent but such ones. -/
structure Leaves (p : Response → Prop) (t u : Turn) : Prop where
  columns : columns col u.world.db = columns col t.world.db
  sent : ∀ r ∈ u.sent, r ∈ t.sent ∨ p r

instance (p : Response → Prop) : Std.Refl (Leaves col p) := ⟨fun _ => ⟨rfl, fun _ h => .inl h⟩⟩

instance (p : Response → Prop) : IsTrans Turn (Leaves col p) where
  trans _ _ _ h k := ⟨k.columns.trans h.columns, fun r hr => (k.sent r hr).elim (h.sent r) .inr⟩

def Keeps {α : Type} (statement : Tables → Option (α × Tables)) : Prop :=
  ∀ db a db', statement db = some (a, db') → columns col db' = columns col db

end Definitions

variable {β : Type} {col : ClientRow → β} {p : Response → Prop} {clientId : ClientId}
  {fileName : Text}

section Statements

theorem keeps_select (q : ClientRow → Bool) : Keeps col (selectClients q) := by
  intro db rows db' h
  cases h
  rfl

theorem keeps_update {q : ClientRow → Bool} {f : ClientRow → ClientRow}
    (hf : ∀ row, (f row).id = row.id) (hcol : ∀ row, q row = true → col (f row) = col row) :
    Keeps col (updateClients q f hf) := by
  intro db a db' h
  cases h
  simp only [columns, Tables.updateClients, List.map_map]
  apply List.map_congr_left
  intro row _
  dsimp only [Function.comp]
  split
  · next hq => exact hcol row hq
  · rfl

theorem keeps_updateVarified (varified : Bool) :
    Keeps col (updateVarified clientId fileName varified) := by
  intro db a db' h
  cases h
  rfl

theorem keeps_insertFile (row : FileRow) : Keeps col (insertFile row) := by
  intro db a db' h
  unfold insertFile at h
  split at h
  · cases h
    rfl
  · cases h

theorem insertClient_rows {row : ClientRow} {db db' : Tables} {u : Unit}
    (h : insertClient row db = some (u, db')) :
    (∀ r ∈ db.server, r.id ≠ row.id) ∧ db'.server = db.server ++ [row] := by
  unfold insertClient at h
  split at h
  · next hfree =>
    cases h
    exact ⟨hfree, rfl⟩
  · cases h

end Statements

section Frames

theorem leaves_same {t u : Turn} (hworld : u.world.db = t.world.db) (hsent : u.sent = t.sent) :
    Leaves col p t u :=
  ⟨by rw [hworld], fun r hr => .inl (hsent ▸ hr)⟩

theorem leaves_frame : Frame (Leaves col p) p where
  pop _ := leaves_same rfl rfl
  send t response hp := by
    refine ⟨rfl, fun r hr => ?_⟩
    rcases List.mem_append.mp hr with hold | hnew
    · exact .inl hold
    · rw [List.mem_singleton.mp hnew]
      exact .inr hp
  entry _ _ := leaves_same rfl rfl
  mkdir _ _ _ _ _ := leaves_same rfl rfl

theorem Keeps.allows {α : Type} {statement : Tables → Option (α × Tables)}
    (h : Keeps col statement) : Allows (Leaves col p) statement := by
  intro t a db hdb
  exact ⟨h _ _ _ hdb, fun r hr => .inl hr⟩

theorem leaves_allowsSeen (hsteady : Steady col) : AllowsSeen (Leaves col p) where
  select q := (keeps_select q).allows
  touch _ now := (keeps_update _ fun row _ => hsteady row now).allows
  updateVarified _ _ varified := (keeps_updateVarified varified).allows
  insertFile row := (keeps_insertFile row).allows

theorem saveFile_leaves (env : Env) (file : File) :
    Guarantees (Leaves col p) (saveFile env file) := by
  apply guarantees_bind
  · exact guarantees_modify fun _ => leaves_same rfl rfl
  · intro _
    refine guarantees_bind guarantees_read fun t => ?_
    dsimp only
    split
    · exact guarantees_pure _
    · split
      · exact guarantees_pure _
      · exact guarantees_bind (guarantees_modify fun _ => leaves_same rfl rfl)
          fun _ => guarantees_pure _

end Frames

section Requests

variable (hsteady : Steady col) (hp : Ordinary p) (crypto : PyCrypto) (env : Env)

include hsteady hp

theorem publicKey_leaves (request : PublicKeyRequest)
    (hpublic : ∀ (row : ClientRow) (key : Bytes), col { row with publicKey := some key } = col row)
    (haes : ∀ (row : ClientRow) (key : Bytes), row.id = request.header.clientID →
      col { row with aesKey := some key } = col row)
    (hsends : ∀ encrypted size, p (.publicKey request.header.clientID encrypted size)) :
    Guarantees (Leaves col p) (publicKey crypto env request) := by
  apply guarantees_publicKey leaves_frame (leaves_allowsSeen hsteady) hp crypto env request
  · intro key
    exact (keeps_update _ fun row _ => hpublic row key).allows
  · intro key
    exact (keeps_update _ fun row hrow => haes row key (of_decide_eq_true hrow)).allows
  · exact hsends

theorem handle_leaves {request : Request} (hregistration : ∀ q, request ≠ .registration q)
    (hkey : ∀ q, request ≠ .publicKey q) :
    Guarantees (Leaves col p) (handle crypto env request) := by
  cases request with
  | registration q => exact absurd rfl (hregistration q)
  | publicKey q => exact absurd rfl (hkey q)
  | sendFile q =>
    exact guarantees_sendFile leaves_frame (leaves_allowsSeen hsteady) hp crypto env q
  | crcValid q =>
    exact guarantees_crcValid leaves_frame (leaves_allowsSeen hsteady) hp env
      (saveFile_leaves env) q
  | crcResend q => exact guarantees_crcResend leaves_frame hp crypto env q
  | crcAbort q => exact guarantees_crcAbort leaves_frame q

omit hsteady in
theorem settle_leaves {w : World} {handled : Option Request} {handler : ServerM Bool}
    (h : Guarantees (Leaves col p) handler) :
    columns col (settle env w handled handler).world.db = columns col w.db ∧
      ∀ r ∈ (settle env w handled handler).sent, p r := by
  have hanswer : Guarantees (Leaves col p) (answer env handler) := by
    apply guarantees_bind h
    intro done
    exact guarantees_ite (fun _ => guarantees_pure _) fun _ =>
      guarantees_refuse leaves_frame env hp.failed
  have hleaves := hanswer (Turn.start w env)
  refine ⟨hleaves.columns, fun r hr => ?_⟩
  rcases hleaves.sent r hr with hnone | hr
  · cases hnone
  · exact hr

/-- A recv result that completes no registration and no key exchange. -/
theorem readStep_leaves (w : World) {control : Control} (hawaits : control.awaits = true)
    {r : RecvResult} (hregistration : ∀ q, received control r ≠ .parsed (.registration q))
    (hkey : ∀ q, received control r ≠ .parsed (.publicKey q)) :
    columns col (readStep crypto env w control r).world.db = columns col w.db ∧
      ∀ response ∈ (readStep crypto env w control r).sent, p response := by
  rw [readStep_eq_react crypto env w hawaits]
  cases hreceived : received control r with
  | parsed request =>
    apply settle_leaves hp env
    apply handle_leaves hsteady hp
    · rintro q rfl
      exact hregistration q hreceived
    · rintro q rfl
      exact hkey q hreceived
  | malformed refused =>
    apply settle_leaves hp env
    exact guarantees_ite (fun _ => guarantees_refuse leaves_frame env hp.failed) fun _ =>
      guarantees_pure _
  | partly p => exact ⟨rfl, List.forall_mem_nil _⟩
  | endOfStream => exact ⟨rfl, List.forall_mem_nil _⟩
  | failure => exact ⟨rfl, List.forall_mem_nil _⟩

end Requests

end ClientColumns
