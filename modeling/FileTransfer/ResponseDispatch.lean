import FileTransfer.ClientDialogue

/-! # The dispatcher of the client

`Run` ignores the result of `Read` and looks at its buffer afterwards. The buffer is filled by
responses only, so a `Read` that fails has the last one handled once more. -/
namespace ResponseDispatch

open ByteField ServerProtocol ClientChannel ClientLogic ClientLogic.Client ClientDialogue StepRun

section Definitions

def handlersMap : List ℕ :=
  [registrationSucceeded, registrationFailed, publicKeyReceived, msgReceivedCrc, msgReceived]

/-- The buffers on which `Run` invokes a handler behind its `Read`. A buffer that nothing was
copied to holds anything, also the code of a response. -/
def invocations (d : Dialogue) (e : Exchange) : List (Option Bytes) :=
  if d.client.control = .running then
    match (d.client.buffered e.bytes).buffer with
    | none => [none]
    | some data => if responseCode data ∈ handlersMap then [some data] else []
  else []

/-- An accepted packet is handled once, and no handler is invoked without one. -/
structure DispatchedOnce (d : Dialogue) (e : Exchange) : Prop where
  accepted : d.client.control = .running → ∀ packet, e.Accepts packet →
    ∃ data, invocations d e = [some data] ∧
      packet.take (getHeader packet + headerSize) <+: data
  rejected : (¬∃ packet, e.Accepts packet) → invocations d e = []

def ReadSucceeds (d : Dialogue) (e : Exchange) : Prop :=
  d.client.control = .running → ∃ packet, e.Accepts packet

def Handled (d : Dialogue) : Prop :=
  ∀ data, d.client.buffer = some data → responseCode data ∈ handlersMap

end Definitions

section Steps

variable {cpp : CppCrypto} {c : Client} {d : Dialogue} {e : Exchange} {data packet : Bytes}

theorem mem_handlersMap {code : ℕ} :
    code ∈ handlersMap ↔ code = registrationFailed ∨ IsSuccess code := by
  unfold handlersMap IsSuccess
  simp only [List.mem_cons, List.not_mem_nil, or_false]
  exact or_left_comm

theorem invocations_filled (hrunning : d.client.control = .running)
    (hdata : (d.client.buffered e.bytes).buffer = some data)
    (hcode : responseCode data ∈ handlersMap) : invocations d e = [some data] := by
  unfold invocations
  rw [if_pos hrunning, hdata]
  exact if_pos hcode

theorem invocations_accepts (hrunning : d.client.control = .running) (h : e.Accepts packet) :
    ∃ rest, invocations d e = [some (packet.take (getHeader packet + headerSize) ++ rest)] := by
  obtain ⟨-, data, hdata, hcode⟩ := buffered_accepts h d.client
  obtain ⟨-, rest, hdata'⟩ := buffered_accepted h.2 d.client
  rw [← h.1] at hdata'
  cases hdata.symm.trans hdata'
  refine ⟨rest, invocations_filled hrunning hdata ?_⟩
  rw [hcode]
  exact mem_handlersMap.mpr (accepted_code h.2)

/-- Behind a `Read` that fails a handler is invoked all the same. -/
theorem invocations_rejects (hd : Handled d) (hrunning : d.client.control = .running)
    (h : ¬∃ packet, e.Accepts packet) : invocations d e = [d.client.buffer] := by
  have hbuffer : (d.client.buffered e.bytes).buffer = d.client.buffer := by
    rw [buffered_rejects h]
  cases hold : d.client.buffer with
  | none =>
    unfold invocations
    rw [if_pos hrunning, hbuffer, hold]
  | some data => exact invocations_filled hrunning (hbuffer.trans hold) (hd data hold)

theorem dispatchedOnce_iff (hd : Handled d) : DispatchedOnce d e ↔ ReadSucceeds d e := by
  constructor
  · intro h hrunning
    by_contra hrejects
    have hnone := h.rejected hrejects
    rw [invocations_rejects hd hrunning hrejects] at hnone
    cases hnone
  · intro h
    constructor
    · intro hrunning packet hp
      obtain ⟨rest, hinvoked⟩ := invocations_accepts hrunning hp
      exact ⟨_, hinvoked, List.prefix_append _ _⟩
    · intro hrejects
      unfold invocations
      rw [if_neg fun hrunning => hrejects (h hrunning)]

theorem handled_next (hd : Handled d) (e : Exchange) : Handled (d.next cpp e) := by
  intro data hdata
  rcases d.client.control_cases with hrunning | ⟨v, hresending⟩ | hidle
  · rw [next_buffer.1 hrunning] at hdata
    by_cases haccepts : ∃ packet, e.Accepts packet
    · obtain ⟨packet, hp⟩ := haccepts
      obtain ⟨-, data', hdata', hcode⟩ := buffered_accepts hp d.client
      cases hdata'.symm.trans hdata
      rw [hcode]
      exact mem_handlersMap.mpr (accepted_code hp.2)
    · rw [buffered_rejects haccepts] at hdata
      exact hd data hdata
  · apply hd
    rwa [← next_buffer.2 v hresending]
  · apply hd
    rwa [← @next_idle cpp d e hidle]

end Steps

section Runs

/-- Main theorem: in a run every response is handled once, behind the `Read` that accepted it,
exactly when no `Read` of `Run` fails. -/
theorem run_dispatchedOnce_iff (cpp : CppCrypto) (name : Bytes) (id : ClientId)
    (publicKey : Field publicKeySize) (symmetricKey : Field symmetricKeySize)
    (fileToSend file : Bytes) (isRegistered ok : Bool) (es : List Exchange) :
    Along (Dialogue.next cpp) DispatchedOnce
        (.start (.opened name id publicKey symmetricKey fileToSend file) isRegistered ok) es ↔
      Along (Dialogue.next cpp) ReadSucceeds
        (.start (.opened name id publicKey symmetricKey fileToSend file) isRegistered ok) es := by
  apply along_iff_along (I := Handled)
  · exact fun _ hd => dispatchedOnce_iff hd
  · exact fun e hd _ => handled_next hd e
  · intro data hdata
    rw [Dialogue.start, react_buffer, run_buffer] at hdata
    cases hdata

/-- A refusal is handled again when the server closes the connection behind it. -/
theorem not_dispatchedOnce_closed : ¬∀ (cpp : CppCrypto) (name : Bytes) (id : ClientId)
    (publicKey : Field publicKeySize) (symmetricKey : Field symmetricKeySize)
    (fileToSend file : Bytes) (isRegistered ok : Bool) (es : List Exchange),
    Along (Dialogue.next cpp) DispatchedOnce
      (.start (.opened name id publicKey symmetricKey fileToSend file) isRegistered ok) es := by
  intro h
  let cpp : CppCrypto := ⟨fun _ => 0, fun _ plain => plain, fun _ => none⟩
  let refusal : Exchange := ⟨some (zeroResponse registrationFailed 0), true⟩
  obtain ⟨-, hdispatched, -⟩ := h cpp [0x61] emptyId (filled _ 0) (filled _ 0) [0x78] [] false true
    [refusal, ⟨none, true⟩]
  have hnone := hdispatched.rejected (by
    rintro ⟨packet, hpacket, -⟩
    cases hpacket)
  have hinvoked : (invocations ((Dialogue.start (.opened [0x61] emptyId (filled _ 0) (filled _ 0)
      [0x78] []) false true).next cpp refusal) ⟨none, true⟩).length = 1 := by
    decide +kernel
  rw [hnone] at hinvoked
  cases hinvoked

end Runs

end ResponseDispatch
