import FileTransfer.ClientChannel
import FileTransfer.ServerHandlers

/-! # Updates of a client's row

`touch` marks rows as seen, and a key exchange sets the two keys in sessions of their own. -/
namespace RowUpdates

open ByteField ServerProtocol ServerTables ServerState ServerFiles ServerDatabase ServerHandlers
  RaisingProgram

section Seen

def isNamed (nameOrId : NameOrId) (row : ClientRow) : Bool :=
  match nameOrId with
  | .id clientId => row.id = clientId
  | .name text => row.name = text

variable (env : Env) (nameOrId : NameOrId) (t : Turn)

/-- The row that is named is seen at the present time, and every other row is as it was. -/
def TouchesExactly : Prop :=
  let r := (touch env nameOrId).run t
  r.1 = .value () ∧ r.2.world.db.server = t.world.db.server.map fun row =>
    if isNamed nameOrId row then { row with lastSeen := env.now } else row

/-- The ids that SQL takes for true are those that are named, up to rows that are seen at the
present time anyway. -/
def TruthNames : Prop :=
  if t.next = .done then
    match nameOrId with
    | .id clientId => ∀ row ∈ t.world.db.server, row.lastSeen = env.now ∨
        (sqlTruth row.id.val = true ↔ row.id = clientId)
    | .name text => ∀ row ∈ t.world.db.server, row.lastSeen = env.now ∨
        (sqlTruth row.id.val = true → row.name = text)
  else ∀ row ∈ t.world.db.server, isNamed nameOrId row = true → row.lastSeen = env.now

variable {env nameOrId t}

theorem mark_eq_iff {now : ℕ} {row : ClientRow} {p q : Prop} [Decidable p] [Decidable q] :
    (if p then { row with lastSeen := now } else row) =
        (if q then { row with lastSeen := now } else row) ↔
      row.lastSeen = now ∨ (p ↔ q) := by
  have hmarked : { row with lastSeen := now } = row ↔ row.lastSeen = now := by
    constructor
    · exact fun h => (congrArg ClientRow.lastSeen h).symm
    · rintro rfl
      rfl
  by_cases hp : p <;> by_cases hq : q
  · simp [hp, hq]
  · simp [hp, hq, hmarked]
  · simpa [hp, hq] using eq_comm.trans hmarked
  · simp [hp, hq]

theorem touched_iff (row : ClientRow) : touched nameOrId row = true ↔ match nameOrId with
    | .id _ => sqlTruth row.id.val = true
    | .name text => sqlTruth row.id.val = true ∨ row.name = text := by
  cases nameOrId <;> simp [touched]

/-- Main theorem: `touch` marks exactly the row it is called for when no other id, and that
of this row, is true in SQL. -/
theorem touchesExactly_iff : TouchesExactly env nameOrId t ↔ TruthNames env nameOrId t := by
  unfold TouchesExactly TruthNames
  rw [touch_run]
  dsimp only
  rw [eq_self_iff_true, true_and, afterTouch_server]
  by_cases hdone : t.next = .done
  · rw [if_pos hdone, if_pos hdone, touchedRows, List.map_inj_left]
    simp only [mark_eq_iff, touched_iff]
    cases nameOrId with
    | id clientId => simp only [isNamed, decide_eq_true_eq]
    | name text =>
      refine forall₂_congr fun row _ => or_congr Iff.rfl ?_
      simp only [isNamed, decide_eq_true_eq]
      exact ⟨fun h hid => h.mp (.inl hid), fun h => ⟨fun hor => hor.elim h id, .inr⟩⟩
  · rw [if_neg hdone, if_neg hdone]
    -- no row is marked
    have hself : t.world.db.server = t.world.db.server.map fun row =>
        if False then { row with lastSeen := env.now } else row := by simp
    nth_rewrite 1 [hself]
    rw [List.map_inj_left]
    simp only [mark_eq_iff]
    refine forall₂_congr fun row _ => ?_
    rw [false_iff, or_comm, ← imp_iff_not_or]

theorem not_touchesExactly_own : ¬∀ (env : Env) (nameOrId : NameOrId) (t : Turn),
    TouchesExactly env nameOrId t := by
  intro h
  let env : Env := { Env.undisturbed with now := 1 }
  have hseen := congrArg (List.map (·.lastSeen))
    (h env (.id sampleId) (Turn.start .withClient env)).2
  revert hseen
  decide +kernel

end Seen

section Keys

def storedKeys (db : Tables) (id : ClientId) : Option (Option Bytes × Option Bytes) :=
  (db.clientRow id).map fun row => (row.publicKey, row.aesKey)

variable (crypto : PyCrypto) (env : Env) (w : World)

/-- The stored keys are those of the exchange that a 2102 answers, or the old ones. -/
structure Exchanged (request : PublicKeyRequest) (u : Turn) : Prop where
  refused : (∀ id encrypted size, .publicKey id encrypted size ∉ u.sent) →
    storedKeys u.world.db request.header.clientID = storedKeys w.db request.header.clientID
  answered : ∀ id encrypted size, .publicKey id encrypted size ∈ u.sent →
    ∃ aesKey : Field symmetricKeySize,
      storedKeys u.world.db request.header.clientID =
        some (some request.publicKey.val, some aesKey.val) ∧
      encryptAesKeyWithRsaPublic crypto env aesKey.val request.publicKey.val = some encrypted ∧
      size = clientIdSize + encrypted.length

/-- A public key request is handled as a whole or not at all. -/
def Atomic (data : Bytes) : Prop :=
  ∀ request, PublicKeyRequest.unpack data = some request →
    Exchanged crypto env w request
      ((handlePublicKeyRequest crypto env data).run (Turn.start w env)).2

def AlreadyStored (request : PublicKeyRequest) : Prop :=
  ∃ row, w.db.clientRow request.header.clientID = some row ∧
    row.publicKey = some request.publicKey.val ∧
    (env.sql 3 = .done → row.aesKey = some env.aesKey.val)

def GoesThrough (request : PublicKeyRequest) : Prop :=
  Known (Turn.start w env) request.header.clientID → env.sql 2 = .done →
    (env.sql 3 = .done ∧ env.sendOk = true ∧
      encryptAesKeyWithRsaPublic crypto env env.aesKey.val request.publicKey.val ≠ none) ∨
    AlreadyStored env w request

variable {crypto env w} {request : PublicKeyRequest} {u : Turn} {id : ClientId}

theorem storedKeys_afterTouch (n : NameOrId) (t : Turn) :
    storedKeys (afterTouch env n t).world.db id = storedKeys t.world.db id := by
  unfold afterTouch
  rw [inWorld_world]
  split
  · unfold touchedTables storedKeys
    rw [clientRow_update, Option.map_map]
    congr 1
    funext row
    dsimp only [Function.comp]
    split <;> rfl
  · rfl

theorem storedKeys_keyed (t : Turn) :
    storedKeys (keyedTurn env request t).world.db request.header.clientID =
      (storedKeys t.world.db request.header.clientID).map fun keys =>
        (some request.publicKey.val, keys.2) := by
  rw [← pop_world t,
    ← @storedKeys_afterTouch env request.header.clientID (.id request.header.clientID) t.pop]
  unfold keyedTurn storedKeys
  rw [inWorld_world, clientRow_updateClients, Option.map_map, Option.map_map]
  rfl

theorem storedKeys_session (t : Turn) :
    storedKeys (sessionTurn env request t).world.db request.header.clientID =
      (storedKeys t.world.db request.header.clientID).map fun _ =>
        (some request.publicKey.val, some env.aesKey.val) := by
  have hkeyed := @storedKeys_keyed env request t
  unfold storedKeys at hkeyed ⊢
  unfold sessionTurn
  rw [inWorld_world, clientRow_updateClients, Option.map_map]
  have hrows := congrArg (Option.map fun keys => (keys.1, some env.aesKey.val)) hkeyed
  rw [Option.map_map, Option.map_map, Option.map_map] at hrows
  rw [Option.map_map]
  exact hrows

theorem exchanged_silent_iff (hsent : ∀ id encrypted size, .publicKey id encrypted size ∉ u.sent) :
    Exchanged crypto env w request u ↔
      storedKeys u.world.db request.header.clientID =
        storedKeys w.db request.header.clientID := by
  refine ⟨fun h => h.refused hsent, fun h => ⟨fun _ => h, fun id encrypted size hmem => ?_⟩⟩
  exact absurd hmem (hsent id encrypted size)

theorem keyed_unchanged_iff (hk : Known (Turn.start w env) request.header.clientID)
    (h₃ : env.sql 3 ≠ .done) :
    storedKeys (keyedTurn env request (Turn.start w env)).world.db request.header.clientID =
      storedKeys w.db request.header.clientID ↔ AlreadyStored env w request := by
  obtain ⟨row, hrow⟩ := hasClient_iff.mp hk.2
  rw [start_world] at hrow
  rw [storedKeys_keyed, start_world, storedKeys, AlreadyStored, hrow]
  simp [h₃, Prod.ext_iff, eq_comm]

theorem session_unchanged_iff (hk : Known (Turn.start w env) request.header.clientID)
    (h₃ : env.sql 3 = .done) :
    storedKeys (sessionTurn env request (Turn.start w env)).world.db request.header.clientID =
      storedKeys w.db request.header.clientID ↔ AlreadyStored env w request := by
  obtain ⟨row, hrow⟩ := hasClient_iff.mp hk.2
  rw [start_world] at hrow
  rw [storedKeys_session, start_world, storedKeys, AlreadyStored, hrow]
  simp [h₃, eq_comm]

theorem refused_silent {u : Turn} (h : u.sent = []) :
    ∀ id encrypted size, .publicKey id encrypted size ∉ ((refuse env).run u).2.sent := by
  intro id encrypted size hmem
  rw [refuse_run] at hmem
  split at hmem <;> simp [h] at hmem

theorem exchanged_refused {u : Turn} (hsent : u.sent = [])
    (hkeys : storedKeys u.world.db request.header.clientID =
      storedKeys w.db request.header.clientID) :
    Exchanged crypto env w request ((refuse env).run u).2 := by
  rw [exchanged_silent_iff (refused_silent hsent), refuse_world]
  exact hkeys

theorem exchanged_answered (hk : Known (Turn.start w env) request.header.clientID)
    {encrypted : Bytes}
    (henc : encryptAesKeyWithRsaPublic crypto env env.aesKey.val request.publicKey.val =
      some encrypted) :
    Exchanged crypto env w request ((sessionTurn env request (Turn.start w env)).send
      (.publicKey request.header.clientID encrypted (clientIdSize + encrypted.length))) := by
  obtain ⟨row, hrow⟩ := hasClient_iff.mp hk.2
  constructor
  · intro hsilent
    refine absurd ?_ (hsilent request.header.clientID encrypted (clientIdSize + encrypted.length))
    simp
  · intro id encrypted' size hmem
    simp only [send_sent, List.mem_append, List.mem_singleton] at hmem
    rcases hmem with hold | hnew
    · simp [sessionTurn, keyedTurn] at hold
    · cases hnew
      refine ⟨env.aesKey, ?_, henc, rfl⟩
      rw [send_world, storedKeys_session, storedKeys, hrow]
      rfl

theorem exchanged_iff (request : PublicKeyRequest) :
    Exchanged crypto env w request ((publicKey crypto env request).run (Turn.start w env)).2 ↔
      GoesThrough crypto env w request := by
  by_cases hk : Known (Turn.start w env) request.header.clientID
  · by_cases h₂ : env.sql 2 = .done
    · have hgoes : GoesThrough crypto env w request ↔ (env.sql 3 = .done ∧ env.sendOk = true ∧
          encryptAesKeyWithRsaPublic crypto env env.aesKey.val request.publicKey.val ≠ none) ∨
          AlreadyStored env w request := ⟨fun h => h hk h₂, fun h _ _ => h⟩
      rw [hgoes, publicKey_set crypto env hk h₂, start_sql]
      cases h₃ : env.sql 3 with
      | connectRaises =>
        have hne : env.sql 3 ≠ .done := by simp [h₃]
        rw [if_pos rfl, exchanged_silent_iff (by simp [keyedTurn]), pop_world,
          keyed_unchanged_iff hk hne]
        simp
      | fails =>
        have hne : env.sql 3 ≠ .done := by simp [h₃]
        rw [if_neg (by simp), if_pos rfl, exchanged_silent_iff (by simp [keyedTurn]), pop_world,
          keyed_unchanged_iff hk hne]
        simp
      | done =>
        rw [if_neg (by simp), if_neg (by simp)]
        cases henc : encryptAesKeyWithRsaPublic crypto env env.aesKey.val
            request.publicKey.val with
        | none =>
          dsimp only
          rw [exchanged_silent_iff (by simp [sessionTurn, keyedTurn]),
            session_unchanged_iff hk h₃]
          simp
        | some encrypted =>
          dsimp only
          rw [write_run]
          cases hok : env.sendOk with
          | false =>
            rw [if_neg (by simp), exchanged_silent_iff (by simp [sessionTurn, keyedTurn]),
              session_unchanged_iff hk h₃]
            simp
          | true =>
            rw [if_pos rfl]
            exact iff_of_true (exchanged_answered hk henc) (.inl ⟨rfl, rfl, by simp⟩)
    · rw [publicKey_unset crypto env hk h₂]
      refine iff_of_true ?_ fun _ h => absurd h h₂
      have hkeys := @storedKeys_afterTouch env request.header.clientID
        (.id request.header.clientID) (Turn.start w env).pop
      dsimp only
      split
      · exact (exchanged_silent_iff (by simp)).mpr hkeys
      · exact exchanged_refused rfl hkeys
  · rw [publicKey_unknown crypto env hk]
    exact iff_of_true (exchanged_refused rfl rfl) fun h => absurd h hk

/-- Main theorem: key exchange is atomic exactly when nothing fails behind the UPDATE of the
public key, or the keys written were there before. -/
theorem atomic_iff {data : Bytes} : Atomic crypto env w data ↔
    ∀ request, PublicKeyRequest.unpack data = some request → GoesThrough crypto env w request := by
  refine forall₂_congr fun request hparsed => ?_
  rw [handlePublicKeyRequest, hparsed]
  exact exchanged_iff request

section Sample

open ClientChannel

/-- A key that RSA rejects takes the place of the old one. -/
theorem not_atomic_rejected : ¬∀ (crypto : PyCrypto) (env : Env) (w : World) (data : Bytes),
    Atomic crypto env w data := by
  intro h
  let request : PublicKeyRequest :=
    ⟨⟨sampleId, clientVersion, requestPublicKey, clientNameSize + publicKeySize⟩, [0x61],
      filled publicKeySize 5⟩
  have hparsed : PublicKeyRequest.unpack
      (publicKeyRequestMessage sampleId [0x61] (filled publicKeySize 5)) = some request := by
    decide +kernel
  have hsent : ((handlePublicKeyRequest .trivial .undisturbed (publicKeyRequestMessage sampleId
      [0x61] (filled publicKeySize 5))).run (Turn.start .withClient .undisturbed)).2.sent = [] := by
    decide +kernel
  have hkeys := (h .trivial .undisturbed .withClient _ request hparsed).refused
    fun _ _ _ => by simp [hsent]
  revert hkeys
  decide +kernel

end Sample

end Keys

end RowUpdates
