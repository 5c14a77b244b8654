import FileTransfer.RequestAnswers
import FileTransfer.TransferSession

/-! # Requests and responses in lockstep

Which runs of the two ends pair every request with one response. A refusal is answered by
the handler and again by the read loop, which then closes the connection. -/
namespace Lockstep

open ByteField ServerProtocol ServerState ServerHandlers ServerThread ClientChannel ClientLogic
  StepRun TransferSession ClientDialogue RequestAnswers

section Definitions

/-- The codes of the requests that the client wrote, the packets that it read, and the requests
that the server took from its socket with what it did. -/
structure Log where
  written : List ℕ
  read : List Bytes
  answers : List (Received × ReadStep)

abbrev Logged := Transfer × Log

def isRequest : Received → Bool
  | .parsed _ => true
  | .malformed _ => true
  | _ => false

def Log.reacts (log : Log) (packet : Option Bytes) (r : Reaction) : Log :=
  { log with
    written := log.written ++ (r.2.map requestCode).toList
    read := log.read ++ packet.toList }

variable (cpp : CppCrypto) (py : PyCrypto)

def Log.serves (log : Log) (t : Transfer) (r : RecvResult) (env : Env) : Log :=
  if isRequest (received t.thread r) then
    { log with
      answers := log.answers ++ [(received t.thread r, readStep py env t.world t.thread r)] }
  else log

def Log.next (log : Log) (t : Transfer) : Event → Log
  | .read fails _ _ =>
    let packet := if fails then none else t.toClient.head?
    log.reacts packet (t.client.receive cpp packet)
  | .recv n env => log.serves py t (.chunk (t.toServer.take n)) env
  | .recvEnds env => log.serves py t (.chunk []) env
  | .recvRaises env => log.serves py t .raises env

def logNext (p : Logged) (e : Event) : Option Logged :=
  (p.1.next cpp py e).map fun t => (t, p.2.next cpp py p.1 e)

def LoggedStep (p : Logged) (e : Event) (p' : Logged) : Prop := logNext cpp py p e = some p'

def Logged.start (c : Client) (isRegistered : Bool) (w : World) (beyond : ℕ → UInt8)
    (delivered : ℕ) : Logged :=
  (.start c isRegistered w beyond delivered,
    ⟨((c.run isRegistered).2.map requestCode).toList, [], []⟩)

def IsAnswer (request response : ℕ) : Prop :=
  response = registrationFailed ∨ successOf request = some response

structure Exchanged where
  request : ℕ
  answer : Received × ReadStep
  packet : Bytes
  asked : ∃ q, answer.1 = .parsed q ∧ codeOf q = request
  only : answer.2.sent.flatMap responsePackets = [packet]
  answers : IsAnswer request (responseCode packet)

/-- The packets that the client read answer the requests that it wrote, one after another. -/
def Log.Paired (log : Log) : Prop :=
  ∃ pairs : List Exchanged, pairs.map (·.request) <+: log.written ∧
    pairs.map (·.answer) <+: log.answers ∧ pairs.map (·.packet) = log.read

/-- Requests and responses are in lockstep, and after a 2101 the server reads on. -/
structure InStep (p : Logged) : Prop where
  answered : ∀ a ∈ p.2.answers, (∀ q, a.1 ≠ .parsed (.crcAbort q)) →
    (a.2.sent.flatMap responsePackets).length = 1
  paired : p.2.Paired
  retried : p.1.client.control.awaits = true →
    (∃ a ∈ p.2.answers, .registrationFailed ∈ a.2.sent) → p.1.thread.awaits = true

def SizesFit (env : Env) (w : World) : Request → Prop
  | .sendFile q => q.contentSize < 256 ^ 4
  | .crcResend q => ∀ file content, resendFile q (Turn.start w env) = some file →
      file.content = some content → content.length < 256 ^ 4
  | _ => True

/-- A recv result that completes a request is answered with success, and takes the rest of the
message while the client waits. Only a client that waits no more leaves a message that cannot
be parsed. -/
def SmoothRecv (t : Transfer) (r : RecvResult) (rest : Bytes) (env : Env) : Prop :=
  match received t.thread r with
  | .parsed (.crcAbort _) => True
  | .parsed q => Answerable py env t.world q ∧ SizesFit env t.world q ∧
      (t.client.control.awaits = true → rest = [])
  | .malformed refused => refused = false ∧ env.sendOk = true ∧ t.client.control.awaits = false
  | _ => True

def Smooth (t : Transfer) : Event → Prop
  | .read .. => True
  | .recv n env => SmoothRecv py t (.chunk (t.toServer.take n)) (t.toServer.drop n) env
  | .recvEnds env => SmoothRecv py t (.chunk []) t.toServer env
  | .recvRaises env => SmoothRecv py t .raises t.toServer env

def SmoothStep (p : Logged) (e : Event) (p' : Logged) : Prop :=
  LoggedStep cpp py p e p' ∧ Smooth py p.1 e

structure Formats : Prop where
  crc32 : ∀ data, py.crc32 data < 256 ^ 4
  rsa : ∀ (key : Field publicKeySize) seed data encrypted,
    py.rsaOaepEncrypt key.val seed data = some encrypted → encrypted.length ≤ publicKeySize

end Definitions

section Phases

/-- A recv result that completes a request takes the rest of the message of a waiting client. -/
def Whole (t : Transfer) : Event → Prop
  | .recv n _ => t.client.control.awaits = true → ∀ q,
      received t.thread (.chunk (t.toServer.take n)) = .parsed q → codeOf q ≠ invalidCrcAbort →
      t.toServer.drop n = []
  | _ => True

/-- The client waits for the answer to its last request, of this code. All before it were
answered, and `last` is what the server has made of it. -/
structure Waits (p : Logged) (code : ℕ) (last : List (Received × ReadStep)) : Prop where
  awaits : p.1.client.control.awaits = true
  queue : ∀ m ∈ p.1.client.messageQueue, IsRequest m
  paired : ∃ pairs : List Exchanged, p.2.written = pairs.map (·.request) ++ [code] ∧
    p.2.answers = pairs.map (·.answer) ++ last ∧ p.2.read = pairs.map (·.packet)

/-- Where a transfer stands as long as no request was refused. -/
inductive Phase (p : Logged) : Prop where
  | asking (m : Bytes) (beyond : ℕ → UInt8) : p.1.thread = .reading →
      p.1.toServer = (writePackets m beyond).flatten → p.1.toClient = [] → IsRequest m →
      Waits p (requestCode m) [] → Phase p
  | receiving (f : PartialFile) : p.1.thread = .receiving f → p.1.toClient = [] →
      Waits p requestToSendFile [] → Phase p
  | answered (q : Request) (out : ReadStep) (r : Response) :
      p.1.thread = .reading ∧ p.1.toServer = [] ∨ p.1.thread.awaits = false →
      p.1.toClient = responsePackets r → OnePacket r → successOf (codeOf q) = some r.code →
      out.sent = [r] → Waits p (codeOf q) [(.parsed q, out)] → Phase p
  | mute (code : ℕ) : p.1.thread.awaits = false → p.1.toClient = [] → Waits p code [] → Phase p
  | ended : p.1.client.control.awaits = false → p.2.Paired → Phase p

def Refuses (py : PyCrypto) (t : Transfer) (r : RecvResult) (env : Env) : Prop :=
  t.client.control.awaits = true ∧
    ((∃ q, received t.thread r = .parsed q ∧ codeOf q ≠ invalidCrcAbort ∧
      ¬Answerable py env t.world q) ∨ ∃ refused, received t.thread r = .malformed refused)

end Phases

section Codes

variable {data m : Bytes} {q : Request}

theorem unpack_code {header : RequestHeader} (h : RequestHeader.unpack data = some header) :
    header.code = requestCode data ∧ requestHeaderSize ≤ data.length := by
  unfold RequestHeader.unpack at h
  obtain ⟨clientID, -, h⟩ := Option.bind_eq_some_iff.mp h
  obtain ⟨headerData, hheader, h⟩ := Option.bind_eq_some_iff.mp h
  cases h
  have hslice := exactly_eq_some.mp hheader
  constructor
  · rw [requestCode, ← hslice]
    simp only [slice, List.drop_take, List.drop_drop, List.take_take, headerSize]
    rfl
  · have hlength := congrArg List.length hslice
    rw [length_slice, headerData.property] at hlength
    unfold headerSize at hlength
    unfold requestHeaderSize headerSize
    omega

theorem requestCode_take {n : ℕ} (h : requestHeaderSize ≤ n) (data : Bytes) :
    requestCode (data.take n) = requestCode data := by
  unfold requestHeaderSize clientIdSize headerSize at h
  unfold requestCode clientIdSize
  rw [slice, slice, List.drop_take, List.take_take, min_eq_left (by omega)]

theorem requestCode_append (h : requestHeaderSize ≤ m.length) (rest : Bytes) :
    requestCode (m ++ rest) = requestCode m := by
  rw [← requestCode_take h (m ++ rest), List.take_left' rfl]

theorem parsed_code (h : Received.ofData data = .parsed q) :
    ∃ header, RequestHeader.unpack data = some header ∧ header.code = codeOf q := by
  unfold Received.ofData at h
  split at h
  · cases h
  · next header hheader =>
    refine ⟨header, hheader, ?_⟩
    split at h
    · next hcode =>
      split at h
      · cases h
      · unfold Received.ofFile at h
        split at h
        · cases h
          exact hcode
        · cases h
    · unfold Received.ofParsed parsedRequest at h
      split at h
      · next request hrequest =>
        cases h
        split_ifs at hrequest with h₁ h₂ h₃ h₄ h₅
        all_goals obtain ⟨-, -, rfl⟩ := Option.map_eq_some_iff.mp hrequest
        · exact h₁
        · exact h₂
        · exact h₃
        · exact h₄
        · exact h₅
      · cases h

end Codes

section Responses

variable {py : PyCrypto} {env : Env} {w : World} {q : Request} {out : ReadStep} {r : Response}

theorem origin_onePacket (hf : Formats py) (h : Origin py env w q r) : OnePacket r := by
  cases r with
  | publicKey id encrypted size =>
    obtain ⟨rfl, key, hkey⟩ := h
    exact onePacket_publicKey id (hf.rsa key _ _ _ hkey)
  | registrationSucceeded id => exact onePacket_of_code (by decide : registrationSucceeded ≠ _)
  | registrationFailed => exact onePacket_of_code (by decide : registrationFailed ≠ _)
  | fileReceivedCrcValue => exact onePacket_of_code (by decide : msgReceivedCrc ≠ _)
  | receivingApproved => exact onePacket_of_code (by decide : msgReceived ≠ _)

theorem origin_packs (hf : Formats py) (hsizes : SizesFit env w q) (h : Origin py env w q r) :
    r.packPayload ≠ none := by
  cases r with
  | fileReceivedCrcValue id size fileName checksum =>
    obtain ⟨hsize, hcrc⟩ := h
    have hchecksum : checksum < 256 ^ 4 := by
      rcases hcrc with rfl | ⟨bytes, rfl⟩
      · decide
      · exact hf.crc32 bytes
    have hfits : size < 256 ^ 4 := by
      cases q with
      | sendFile q => exact lt_of_eq_of_lt hsize hsizes
      | crcResend q =>
        obtain ⟨file, content, hfile, hcontent, rfl⟩ := hsize
        exact hsizes file content hfile hcontent
      | registration => exact hsize.elim
      | publicKey => exact hsize.elim
      | crcValid => exact hsize.elim
      | crcAbort => exact hsize.elim
    rw [Response.packPayload, packUnsigned, packUnsigned, if_pos hfits, if_pos hchecksum]
    exact Option.some_ne_none _
  | publicKey => exact Option.some_ne_none _
  | registrationSucceeded => exact Option.some_ne_none _
  | registrationFailed => exact Option.some_ne_none _
  | receivingApproved => exact Option.some_ne_none _

theorem length_responsePackets (h : OnePacket r) (hpacks : r.packPayload ≠ none) :
    (responsePackets r).length = 1 := by
  rcases responsePackets_eq h with ⟨hnone, -⟩ | ⟨payload, rest, -, hpackets, -⟩
  · exact absurd hnone hpacks
  · rw [hpackets]
    rfl

end Responses

section ClientSteps

variable {cpp : CppCrypto} {py : PyCrypto} {p p' : Logged} {code : ℕ}

theorem logged_read {fails : Bool} {beyond : ℕ → UInt8} {delivered : ℕ}
    (h : LoggedStep cpp py p (.read fails beyond delivered) p') :
    p.1.client.control.awaits = true ∧ ∃ packet toClient,
      (packet = none ∨ ∃ bytes, packet = some bytes ∧ p.1.toClient = bytes :: toClient) ∧
      p' = (Transfer.react { p.1 with toClient } (p.1.client.receive cpp packet) beyond delivered,
        p.2.reacts packet (p.1.client.receive cpp packet)) := by
  obtain ⟨t, hnext, rfl⟩ := Option.map_eq_some_iff.mp h
  simp only [Transfer.next] at hnext
  split at hnext
  · next hawaits =>
    refine ⟨hawaits, ?_⟩
    cases fails with
    | true =>
      cases hnext
      exact ⟨none, p.1.toClient, .inl rfl, rfl⟩
    | false =>
      rw [if_neg Bool.false_ne_true] at hnext
      split at hnext
      · cases hnext
      · next bytes toClient htoClient =>
        cases hnext
        refine ⟨some bytes, toClient, .inr ⟨bytes, rfl, htoClient⟩, ?_⟩
        rw [Log.next, htoClient]
        rfl
  · cases hnext

/-- Requests that are not answered yet do not disturb the pairs. -/
theorem Log.Paired.grows {log log' : Log} (h : log.Paired) (hwritten : log.written <+: log'.written)
    (hanswers : log.answers <+: log'.answers) (hread : log'.read = log.read) : log'.Paired := by
  obtain ⟨pairs, hrequests, hpairs, hpackets⟩ := h
  exact ⟨pairs, hrequests.trans hwritten, hpairs.trans hanswers, hpackets.trans hread.symm⟩

theorem Waits.log_paired {last : List (Received × ReadStep)} (h : Waits p code last) :
    p.2.Paired := by
  obtain ⟨pairs, hwritten, hanswers, hread⟩ := h.paired
  refine ⟨pairs, ?_, ?_, hread.symm⟩
  · rw [hwritten]
    exact List.prefix_append _ _
  · rw [hanswers]
    exact List.prefix_append _ _

theorem fails_phase {last : List (Received × ReadStep)} (h : Waits p code last)
    {toClient : List Bytes} (beyond : ℕ → UInt8) (delivered : ℕ) :
    Phase (Transfer.react { p.1 with toClient } (p.1.client.receive cpp none) beyond delivered,
      p.2.reacts none (p.1.client.receive cpp none)) := by
  have hsilent : (p.1.client.receive cpp none).2 = none := receive_rejected h.awaits nofun
  have hends := (@receive_speaks cpp _ h.awaits none nofun).2 hsilent
  apply Phase.ended
  · rw [Transfer.react, hsilent]
    exact hends
  · apply h.log_paired.grows
    · exact List.prefix_append _ _
    · exact List.prefix_rfl
    · exact List.append_nil _

theorem written_phase {t : Transfer} {log : Log} {r : Reaction}
    (hthread : t.thread = .reading ∧ t.toServer = [] ∨ t.thread.awaits = false)
    (hclient : t.toClient = [])
    (hpaired : ∃ pairs : List Exchanged, log.written = pairs.map (·.request) ∧
      log.answers = pairs.map (·.answer) ∧ log.read = pairs.map (·.packet))
    (hqueue : ∀ m ∈ r.1.messageQueue, IsRequest m)
    (hmessage : ∀ m, r.2 = some m → r.1.control.awaits = true → IsRequest m)
    (hsilent : r.2 = none → r.1.control.awaits = false) (beyond : ℕ → UInt8) (delivered : ℕ) :
    Phase (t.react r beyond delivered,
      { log with written := log.written ++ (r.2.map requestCode).toList }) := by
  obtain ⟨pairs, hwritten, hanswers, hread⟩ := hpaired
  have hended : ∀ t' : Transfer, t'.client.control.awaits = false →
      Phase (t', { log with written := log.written ++ (r.2.map requestCode).toList }) := by
    intro t' ht'
    refine .ended ht' ⟨pairs, ?_, ?_, hread.symm⟩
    · rw [hwritten]
      exact List.prefix_append _ _
    · exact ⟨[], by rw [hanswers, List.append_nil]⟩
  unfold Transfer.react
  split
  · next hnone => exact hended _ (hsilent hnone)
  · next m hm =>
    dsimp only
    split
    · exact hended _ (Client.writeFailed_ends r.1)
    · next hall =>
      by_cases hawaits : r.1.control.awaits = true
      · have hwaits : ∀ toServer, Waits (⟨r.1, t.thread, t.world, toServer, t.toClient, t.served⟩,
            { log with written := log.written ++ (r.2.map requestCode).toList })
            (requestCode m) [] := by
          intro toServer
          refine ⟨hawaits, hqueue, pairs, ?_, ?_, hread⟩
          · rw [hm, hwritten]
            rfl
          · rw [hanswers, List.append_nil]
        rcases hthread with ⟨hreading, hserver⟩ | hdead
        · refine .asking m beyond hreading ?_ hclient (hmessage m hm hawaits) (hwaits _)
          dsimp only
          rw [hserver, List.nil_append, List.take_of_length_le (by omega)]
        · exact .mute (requestCode m) hdead hclient (hwaits _)
      · exact hended _ (by simpa using hawaits)

theorem answered_phase {q : Request} {out : ReadStep} {bytes : Bytes} {toClient : List Bytes}
    (h : Waits p (codeOf q) [(.parsed q, out)])
    (hthread : p.1.thread = .reading ∧ p.1.toServer = [] ∨ p.1.thread.awaits = false)
    (hclient : toClient = []) (hlength : headerSize ≤ bytes.length)
    (hsent : out.sent.flatMap responsePackets = [bytes])
    (hcode : IsAnswer (codeOf q) (responseCode bytes)) (beyond : ℕ → UInt8) (delivered : ℕ) :
    Phase (Transfer.react { p.1 with toClient } (p.1.client.receive cpp (some bytes)) beyond
      delivered, p.2.reacts (some bytes) (p.1.client.receive cpp (some bytes))) := by
  obtain ⟨hspeaks, hsilent⟩ := @receive_speaks cpp _ h.awaits (some bytes) (by
    rintro _ ⟨⟩
    exact hlength)
  obtain ⟨pairs, hwritten, hanswers, hread⟩ := h.paired
  let pair : Exchanged := ⟨codeOf q, (.parsed q, out), bytes, ⟨q, rfl, rfl⟩, hsent, hcode⟩
  have hsaid : ∀ m, Sayable p.1.client m → IsRequest m := fun m hm => hm.elim (h.queue m) id
  apply @written_phase { p.1 with toClient } { p.2 with read := p.2.read ++ [bytes] } _ hthread
    hclient
  · refine ⟨pairs ++ [pair], ?_, ?_, ?_⟩
    · simpa using hwritten
    · simpa using hanswers
    · simp [hread, pair]
  · exact fun m hm => hsaid m (hspeaks.queue m hm)
  · exact fun m hm hawaits => hsaid m (hspeaks.message m hm hawaits)
  · exact hsilent

theorem read_phase {fails : Bool} {beyond : ℕ → UInt8} {delivered : ℕ} (h : Phase p)
    (hstep : LoggedStep cpp py p (.read fails beyond delivered) p') : Phase p' := by
  obtain ⟨hawaits, packet, toClient, hpacket, rfl⟩ := logged_read hstep
  cases h with
  | asking m beyond' hthread hserver hclient hm hwaits =>
    rcases hpacket with rfl | ⟨bytes, -, hbytes⟩
    · exact fails_phase hwaits beyond delivered
    · cases hclient.symm.trans hbytes
  | receiving f hthread hclient hwaits =>
    rcases hpacket with rfl | ⟨bytes, -, hbytes⟩
    · exact fails_phase hwaits beyond delivered
    · cases hclient.symm.trans hbytes
  | answered q out r hthread hclient hone hcode hsent hwaits =>
    rcases hpacket with rfl | ⟨bytes, rfl, hbytes⟩
    · exact fails_phase hwaits beyond delivered
    · have hmem : bytes ∈ responsePackets r := by
        rw [← hclient, hbytes]
        exact List.mem_cons_self
      obtain ⟨hsingle, hlength, hbytesCode, -⟩ := mem_responsePackets hone hmem
      rw [hclient, hsingle, List.cons.injEq] at hbytes
      apply answered_phase hwaits hthread hbytes.2.symm
      · rw [hlength]
        decide
      · rw [hsent, List.flatMap_singleton]
        exact hsingle
      · rw [hbytesCode]
        exact .inr hcode
  | mute code hthread hclient hwaits =>
    rcases hpacket with rfl | ⟨bytes, -, hbytes⟩
    · exact fails_phase hwaits beyond delivered
    · cases hclient.symm.trans hbytes
  | ended hended =>
    rw [hended] at hawaits
    cases hawaits

end ClientSteps

section ServerSteps

variable {cpp : CppCrypto} {py : PyCrypto} {p p' : Logged} {code : ℕ} {env : Env}

/-- A step of the read thread: what its `recv` gives, and what stays on the way to it. -/
def Recvs (p : Logged) : Event → RecvResult → Bytes → Env → Prop
  | .recv n env, r, rest, env' => env' = env ∧ r = .chunk (p.1.toServer.take n) ∧
      rest = p.1.toServer.drop n ∧ 0 < n ∧ n ≤ p.1.toServer.length
  | .recvEnds env, r, rest, env' => env' = env ∧ r = .chunk [] ∧ rest = p.1.toServer ∧
      p.1.client.control.awaits = false ∧ p.1.toServer = []
  | .recvRaises env, r, rest, env' => env' = env ∧ r = .raises ∧ rest = p.1.toServer
  | .read .., _, _, _ => False

theorem logged_serve {e : Event} (h : LoggedStep cpp py p e p')
    (hread : ∀ fails beyond delivered, e ≠ .read fails beyond delivered) :
    p.1.thread.awaits = true ∧ ∃ r rest env, Recvs p e r rest env ∧
      p' = (Transfer.serve py { p.1 with toServer := rest } r env, p.2.serves py p.1 r env) := by
  obtain ⟨t, hnext, rfl⟩ := Option.map_eq_some_iff.mp h
  cases e with
  | read fails beyond delivered => exact absurd rfl (hread fails beyond delivered)
  | recv n env =>
    obtain ⟨hawaits, hpos, -, hlength, rfl⟩ := @step_recv cpp py _ _ _ _ hnext
    exact ⟨hawaits, _, _, env, ⟨rfl, rfl, rfl, hpos, hlength⟩, rfl⟩
  | recvEnds env =>
    obtain ⟨hawaits, hempty, hclient, rfl⟩ := @step_recvEnds cpp py _ _ _ hnext
    exact ⟨hawaits, _, _, env, ⟨rfl, rfl, rfl, by simpa using hclient, hempty⟩, rfl⟩
  | recvRaises env =>
    obtain ⟨hawaits, rfl⟩ := @step_recvRaises cpp py _ _ _ hnext
    exact ⟨hawaits, _, _, env, ⟨rfl, rfl, rfl⟩, rfl⟩

theorem serves_written (log : Log) (t : Transfer) (r : RecvResult) (env : Env) :
    (log.serves py t r env).written = log.written ∧ (log.serves py t r env).read = log.read := by
  unfold Log.serves
  split
  · exact ⟨rfl, rfl⟩
  · exact ⟨rfl, rfl⟩

theorem Waits.serves_request {q : Request} {r : RecvResult} (h : Waits p code [])
    (hq : received p.1.thread r = .parsed q) (rest : Bytes) (env : Env) :
    Waits (Transfer.serve py { p.1 with toServer := rest } r env, p.2.serves py p.1 r env) code
      [(.parsed q, readStep py env p.1.world p.1.thread r)] := by
  obtain ⟨hwritten, hread⟩ := @serves_written py p.2 p.1 r env
  obtain ⟨pairs, hpairs, hanswers, hpackets⟩ := h.paired
  refine ⟨h.awaits, h.queue, pairs, hwritten.trans hpairs, ?_, hread.trans hpackets⟩
  unfold Log.serves
  rw [hq, if_pos (show isRequest (.parsed q) = true from rfl)]
  dsimp only
  rw [hanswers, List.append_nil]

theorem Waits.serves_nothing {last : List (Received × ReadStep)} {r : RecvResult}
    (h : Waits p code last) (hr : isRequest (received p.1.thread r) = false) (rest : Bytes)
    (env : Env) : Waits (Transfer.serve py { p.1 with toServer := rest } r env,
      p.2.serves py p.1 r env) code last := by
  obtain ⟨hwritten, hread⟩ := @serves_written py p.2 p.1 r env
  obtain ⟨pairs, hpairs, hanswers, hpackets⟩ := h.paired
  refine ⟨h.awaits, h.queue, pairs, hwritten.trans hpairs, ?_, hread.trans hpackets⟩
  unfold Log.serves
  rw [hr, if_neg Bool.false_ne_true]
  exact hanswers

theorem quiet_serves (hawaits : p.1.thread.awaits = true) {r : RecvResult}
    (hr : isRequest (received p.1.thread r) = false) (rest : Bytes) :
    (Transfer.serve py { p.1 with toServer := rest } r env).toClient = p.1.toClient := by
  have hout := readStep_eq_react py env p.1.world hawaits r
  have hsent : (readStep py env p.1.world p.1.thread r).sent = [] := by
    rw [hout]
    cases hreceived : received p.1.thread r with
    | parsed q =>
      rw [hreceived] at hr
      cases hr
    | malformed refused =>
      rw [hreceived] at hr
      cases hr
    | partly f => rfl
    | endOfStream => rfl
    | failure => rfl
  unfold Transfer.serve
  dsimp only
  rw [hsent]
  exact List.append_nil _

theorem served_phase (hf : Formats py) (hawaits : p.1.thread.awaits = true)
    (hwaits : Waits p code []) (hclient : p.1.toClient = []) {r : RecvResult} {rest : Bytes}
    (hparsed : ∀ q, received p.1.thread r = .parsed q → codeOf q = code ∧ rest = [])
    (hpartly : ∀ f, received p.1.thread r = .partly f → code = requestToSendFile)
    (hne : code ≠ invalidCrcAbort) :
    Phase (Transfer.serve py { p.1 with toServer := rest } r env, p.2.serves py p.1 r env) ∨
      Refuses py p.1 r env ∧
        (Transfer.serve py { p.1 with toServer := rest } r env).thread.awaits = false := by
  have hout := readStep_eq_react py env p.1.world hawaits r
  cases hreceived : received p.1.thread r with
  | parsed q =>
    obtain ⟨rfl, hrest⟩ := hparsed q hreceived
    have hserved := @Waits.serves_request py p (codeOf q) q r hwaits hreceived rest env
    rw [hreceived, ServerThread.react] at hout
    obtain ⟨hyes, hno⟩ := @handle_answers py env p.1.world (some q) q
    by_cases hanswerable : Answerable py env p.1.world q
    · obtain ⟨hcontrol, response, hsent, hresponse, horigin⟩ := hyes hanswerable
      rw [← hout] at hcontrol hsent
      refine .inl (.answered q _ response (.inl ⟨hcontrol, hrest⟩) ?_
        (origin_onePacket hf horigin) hresponse hsent hserved)
      unfold Transfer.serve
      dsimp only
      rw [hclient, hsent, List.flatMap_singleton, List.nil_append]
    · refine .inr ⟨⟨hwaits.awaits, .inl ⟨q, hreceived, hne, hanswerable⟩⟩, ?_⟩
      unfold Transfer.serve
      dsimp only
      rw [hout]
      exact hno hanswerable
  | malformed refused =>
    refine .inr ⟨⟨hwaits.awaits, .inr ⟨refused, hreceived⟩⟩, ?_⟩
    unfold Transfer.serve
    dsimp only
    rw [hout, hreceived]
    exact (react_malformed py env p.1.world refused).1
  | partly f =>
    have hnone : isRequest (received p.1.thread r) = false := by rw [hreceived]; rfl
    obtain rfl := hpartly f hreceived
    rw [hreceived] at hout
    refine .inl (.receiving f ?_ ((quiet_serves hawaits hnone rest).trans hclient)
      (hwaits.serves_nothing hnone rest env))
    unfold Transfer.serve
    dsimp only
    rw [hout]
    rfl
  | endOfStream =>
    have hnone : isRequest (received p.1.thread r) = false := by rw [hreceived]; rfl
    rw [hreceived] at hout
    refine .inl (.mute code ?_ ((quiet_serves hawaits hnone rest).trans hclient)
      (hwaits.serves_nothing hnone rest env))
    unfold Transfer.serve
    dsimp only
    rw [hout]
    rfl
  | failure =>
    have hnone : isRequest (received p.1.thread r) = false := by rw [hreceived]; rfl
    rw [hreceived] at hout
    refine .inl (.mute code ?_ ((quiet_serves hawaits hnone rest).trans hclient)
      (hwaits.serves_nothing hnone rest env))
    unfold Transfer.serve
    dsimp only
    rw [hout]
    rfl

theorem ended_serves (h : p.1.client.control.awaits = false) (hpaired : p.2.Paired) (rest : Bytes)
    (r : RecvResult) (env : Env) :
    Phase (Transfer.serve py { p.1 with toServer := rest } r env, p.2.serves py p.1 r env) := by
  obtain ⟨hwritten, hread⟩ := @serves_written py p.2 p.1 r env
  refine .ended h (hpaired.grows ?_ ?_ hread)
  · exact ⟨[], by rw [hwritten, List.append_nil]⟩
  · unfold Log.serves
    split
    · exact List.prefix_append _ _
    · exact List.prefix_rfl

theorem code_of_front {m : Bytes} (hm : requestHeaderSize ≤ m.length) (rest : Bytes) {n : ℕ}
    {header : RequestHeader} (h : RequestHeader.unpack ((m ++ rest).take n) = some header) :
    header.code = requestCode m := by
  obtain ⟨hcode, hlength⟩ := unpack_code h
  rw [List.length_take] at hlength
  rw [hcode, requestCode_take (by omega), requestCode_append hm]

theorem received_front {data : Bytes} (h : data ≠ []) :
    received .reading (.chunk data) = Received.ofData data := by
  cases data with
  | nil => exact absurd rfl h
  | cons b bs => rfl

theorem raises_ends (hthread : p.1.thread = .reading) (rest : Bytes) :
    (Transfer.serve py { p.1 with toServer := rest } .raises env).thread.awaits = false := by
  unfold Transfer.serve
  dsimp only
  rw [hthread]
  rfl

theorem rest_of_whole {e : Event} {r : RecvResult} {rest : Bytes} {q : Request}
    (hwhole : Whole p.1 e) (hrecvs : Recvs p e r rest env)
    (hclient : p.1.client.control.awaits = true) (hq : received p.1.thread r = .parsed q)
    (hcode : codeOf q ≠ invalidCrcAbort) : rest = [] := by
  cases e with
  | read fails beyond delivered => exact hrecvs.elim
  | recv n env' =>
    obtain ⟨-, rfl, rfl, -⟩ := hrecvs
    exact hwhole hclient q hq hcode
  | recvEnds env' =>
    obtain ⟨-, -, -, hidle, -⟩ := hrecvs
    cases hidle.symm.trans hclient
  | recvRaises env' =>
    obtain ⟨-, rfl, -⟩ := hrecvs
    cases hthread : p.1.thread <;> rw [hthread] at hq <;> cases hq

theorem asks_code {e : Event} {r : RecvResult} {rest m : Bytes} {beyond : ℕ → UInt8}
    (hrecvs : Recvs p e r rest env) (hclient : p.1.client.control.awaits = true)
    (hthread : p.1.thread = .reading) (hserver : p.1.toServer = (writePackets m beyond).flatten)
    (hm : IsRequest m) :
    (∀ q, received p.1.thread r = .parsed q → codeOf q = requestCode m) ∧
      ∀ f, received p.1.thread r = .partly f → requestCode m = requestToSendFile := by
  cases e with
  | read fails beyond delivered => exact hrecvs.elim
  | recv n env' =>
    obtain ⟨-, rfl, -, hpos, hle⟩ := hrecvs
    have hne : p.1.toServer.take n ≠ [] := by
      apply List.ne_nil_of_length_pos
      rw [List.length_take]
      omega
    rw [hthread, received_front hne, hserver, flatten_writePackets]
    constructor
    · intro q hq
      obtain ⟨header, hheader, hcode⟩ := parsed_code hq
      rw [← hcode]
      exact code_of_front hm.1 _ hheader
    · intro f hf
      obtain ⟨header, hheader, hcode⟩ := code_of_partly hf
      rw [← hcode]
      exact (code_of_front hm.1 _ hheader).symm
  | recvEnds env' =>
    obtain ⟨-, -, -, hidle, -⟩ := hrecvs
    cases hidle.symm.trans hclient
  | recvRaises env' =>
    obtain ⟨-, rfl, -⟩ := hrecvs
    rw [hthread]
    exact ⟨nofun, nofun⟩

theorem receives_code {r : RecvResult} {f : PartialFile} {q : Request}
    (hthread : p.1.thread = .receiving f) (hq : received p.1.thread r = .parsed q) :
    codeOf q = requestToSendFile := by
  rw [hthread] at hq
  cases r with
  | raises => cases hq
  | chunk data =>
    unfold received Received.ofFile at hq
    dsimp only at hq
    split at hq
    · cases hq
      rfl
    · cases hq

theorem serve_phase (hf : Formats py) (h : Phase p) {e : Event} (hstep : LoggedStep cpp py p e p')
    (hread : ∀ fails beyond delivered, e ≠ .read fails beyond delivered) (hwhole : Whole p.1 e) :
    Phase p' ∨ p'.1.thread.awaits = false ∧
      ∃ r rest env, Recvs p e r rest env ∧ Refuses py p.1 r env := by
  obtain ⟨hawaits, r, rest, env, hrecvs, rfl⟩ := logged_serve hstep hread
  cases h with
  | asking m beyond hthread hserver hclient hm hwaits =>
    obtain ⟨hparsed, hpartly⟩ := asks_code hrecvs hwaits.awaits hthread hserver hm
    rcases @served_phase py p _ env hf hawaits hwaits hclient r rest (fun q hq =>
      have hcode := hparsed q hq
      ⟨hcode, rest_of_whole hwhole hrecvs hwaits.awaits hq (hcode ▸ hm.2)⟩) hpartly hm.2 with
      hphase | ⟨hrefuses, hends⟩
    · exact .inl hphase
    · exact .inr ⟨hends, r, rest, env, hrecvs, hrefuses⟩
  | receiving f hthread hclient hwaits =>
    rcases @served_phase py p _ env hf hawaits hwaits hclient r rest (fun q hq =>
      have hcode := receives_code hthread hq
      ⟨hcode, rest_of_whole hwhole hrecvs hwaits.awaits hq (by rw [hcode]; decide)⟩)
      (fun _ _ => rfl) (by decide) with hphase | ⟨hrefuses, hends⟩
    · exact .inl hphase
    · exact .inr ⟨hends, r, rest, env, hrecvs, hrefuses⟩
  | answered q out response hthread hclient hone hcode hsent hwaits =>
    left
    rcases hthread with ⟨hreading, hempty⟩ | hdead
    · cases e with
      | read fails beyond delivered => exact hrecvs.elim
      | recv n env' =>
        obtain ⟨-, -, -, hpos, hle⟩ := hrecvs
        rw [hempty, List.length_nil] at hle
        omega
      | recvEnds env' =>
        obtain ⟨-, -, -, hidle, -⟩ := hrecvs
        cases hidle.symm.trans hwaits.awaits
      | recvRaises env' =>
        obtain ⟨rfl, rfl, rfl⟩ := hrecvs
        have hnone : isRequest (received p.1.thread .raises) = false := by rw [hreading]; rfl
        exact .answered q out response (.inr (raises_ends hreading p.1.toServer))
          ((quiet_serves hawaits hnone p.1.toServer).trans hclient) hone hcode hsent
          (hwaits.serves_nothing hnone p.1.toServer env)
    · rw [hdead] at hawaits
      cases hawaits
  | mute code hdead hclient hwaits =>
    rw [hdead] at hawaits
    cases hawaits
  | ended hended hpaired => exact .inl (ended_serves hended hpaired rest r env)

end ServerSteps

section Runs

variable {cpp : CppCrypto} {py : PyCrypto} {p p' : Logged} {env : Env}

structure Kept (p : Logged) : Prop where
  phase : Phase p
  answered : ∀ a ∈ p.2.answers, (∀ q, a.1 ≠ .parsed (.crcAbort q)) →
    (a.2.sent.flatMap responsePackets).length = 1
  unrefused : p.1.client.control.awaits = true → ∀ a ∈ p.2.answers,
    .registrationFailed ∉ a.2.sent

theorem Phase.paired (h : Phase p) : p.2.Paired := by
  cases h with
  | asking _ _ _ _ _ _ hwaits => exact hwaits.log_paired
  | receiving _ _ _ hwaits => exact hwaits.log_paired
  | answered _ _ _ _ _ _ _ _ hwaits => exact hwaits.log_paired
  | mute _ _ _ hwaits => exact hwaits.log_paired
  | ended _ hpaired => exact hpaired

theorem Kept.inStep (h : Kept p) : InStep p where
  answered := h.answered
  paired := h.phase.paired
  retried := fun hawaits ⟨a, ha, hfailed⟩ => absurd hfailed (h.unrefused hawaits a ha)

theorem smoothRecv {e : Event} {r : RecvResult} {rest : Bytes} (h : Smooth py p.1 e)
    (hrecvs : Recvs p e r rest env) : SmoothRecv py p.1 r rest env := by
  cases e with
  | read fails beyond delivered => exact hrecvs.elim
  | recv n env' =>
    obtain ⟨rfl, rfl, rfl, -⟩ := hrecvs
    exact h
  | recvEnds env' =>
    obtain ⟨rfl, rfl, rfl, -⟩ := hrecvs
    exact h
  | recvRaises env' =>
    obtain ⟨rfl, rfl, rfl⟩ := hrecvs
    exact h

theorem smooth_parsed {t : Transfer} {r : RecvResult} {rest : Bytes} {q : Request}
    (h : SmoothRecv py t r rest env) (hq : received t.thread r = .parsed q)
    (hcode : codeOf q ≠ invalidCrcAbort) : Answerable py env t.world q ∧
      SizesFit env t.world q ∧ (t.client.control.awaits = true → rest = []) := by
  unfold SmoothRecv at h
  rw [hq] at h
  cases q with
  | crcAbort q => exact absurd rfl hcode
  | registration q => exact h
  | publicKey q => exact h
  | sendFile q => exact h
  | crcValid q => exact h
  | crcResend q => exact h

theorem whole_of_smooth {e : Event} (h : Smooth py p.1 e) : Whole p.1 e := by
  cases e with
  | read fails beyond delivered => trivial
  | recv n env => exact fun hawaits q hq hcode => (smooth_parsed h hq hcode).2.2 hawaits
  | recvEnds env => trivial
  | recvRaises env => trivial

theorem not_refuses_of_smooth {r : RecvResult} {rest : Bytes} (h : SmoothRecv py p.1 r rest env) :
    ¬Refuses py p.1 r env := by
  rintro ⟨hawaits, ⟨q, hq, hcode, hno⟩ | ⟨refused, hrefused⟩⟩
  · exact hno (smooth_parsed h hq hcode).1
  · unfold SmoothRecv at h
    rw [hrefused] at h
    cases h.2.2.symm.trans hawaits

structure AnswersOnce (t : Transfer) (received : Received) (out : ReadStep) : Prop where
  once : (∀ q, received ≠ .parsed (.crcAbort q)) → (out.sent.flatMap responsePackets).length = 1
  unrefused : t.client.control.awaits = true → .registrationFailed ∉ out.sent

theorem answersOnce_answerable (hf : Formats py) {q : Request} {w : World} {t : Transfer}
    {rest : Bytes} (h : Answerable py env w q ∧ SizesFit env w q ∧
      (t.client.control.awaits = true → rest = [])) :
    AnswersOnce t (.parsed q) (ServerThread.react py env w (.parsed q)) := by
  obtain ⟨hanswerable, hsizes, -⟩ := h
  obtain ⟨-, response, hsent, hresponse, horigin⟩ :=
    (@handle_answers py env w (some q) q).1 hanswerable
  have hone := length_responsePackets (origin_onePacket hf horigin)
    (origin_packs hf hsizes horigin)
  unfold ServerThread.react
  constructor
  · intro _
    dsimp only
    rw [hsent, List.flatMap_singleton]
    exact hone
  · intro _ hfailed
    dsimp only at hfailed
    rw [hsent, List.mem_singleton] at hfailed
    subst hfailed
    cases q <;> cases hresponse

theorem answersOnce_of_smooth (hf : Formats py) (hawaits : p.1.thread.awaits = true)
    {r : RecvResult} {rest : Bytes} (h : SmoothRecv py p.1 r rest env)
    (hrequest : isRequest (received p.1.thread r) = true) :
    AnswersOnce p.1 (received p.1.thread r) (readStep py env p.1.world p.1.thread r) := by
  rw [readStep_eq_react py env p.1.world hawaits]
  unfold SmoothRecv at h
  generalize received p.1.thread r = received at h hrequest
  cases received with
  | parsed q =>
    cases q with
    | crcAbort q =>
      refine ⟨fun hno => absurd rfl (hno q), fun _ hfailed => ?_⟩
      have hrun : (handle py env (.crcAbort q)).run (Turn.start p.1.world env) =
          (.raised .attributeError, (Turn.start p.1.world env).pop) := crcAbort_run q _
      unfold ServerThread.react at hfailed
      dsimp only at hfailed
      rw [settle_raised env hrun] at hfailed
      cases hfailed
    | registration q => exact answersOnce_answerable hf h
    | publicKey q => exact answersOnce_answerable hf h
    | sendFile q => exact answersOnce_answerable hf h
    | crcValid q => exact answersOnce_answerable hf h
    | crcResend q => exact answersOnce_answerable hf h
  | malformed refused =>
    obtain ⟨rfl, hok, hclient⟩ := h
    have hrun : (return false : ServerM Bool).run (Turn.start p.1.world env) =
        (.value false, Turn.start p.1.world env) := rfl
    have hreact : (ServerThread.react py env p.1.world (.malformed false)).sent =
        [.registrationFailed] := by
      unfold ServerThread.react
      dsimp only
      rw [if_neg Bool.false_ne_true, settle_value env hrun]
      dsimp only
      rw [if_pos ⟨rfl, hok⟩]
      rfl
    constructor
    · intro _
      rw [hreact]
      decide
    · intro hwaits
      cases hclient.symm.trans hwaits
  | partly f => cases hrequest
  | endOfStream => cases hrequest
  | failure => cases hrequest

theorem mem_serves {log : Log} {t : Transfer} {r : RecvResult} {a : Received × ReadStep}
    (h : a ∈ (log.serves py t r env).answers) : a ∈ log.answers ∨
      isRequest (received t.thread r) = true ∧
        a = (received t.thread r, readStep py env t.world t.thread r) := by
  unfold Log.serves at h
  split at h
  · next hrequest =>
    rcases List.mem_append.mp h with hold | hnew
    · exact .inl hold
    · exact .inr ⟨hrequest, List.mem_singleton.mp hnew⟩
  · exact .inl h

theorem kept_step (hf : Formats py) {e : Event} (h : Kept p) (hstep : SmoothStep cpp py p e p') :
    Kept p' := by
  obtain ⟨hlogged, hsmooth⟩ := hstep
  by_cases hread : ∃ fails beyond delivered, e = .read fails beyond delivered
  · obtain ⟨fails, beyond, delivered, rfl⟩ := hread
    have hphase := read_phase h.phase hlogged
    obtain ⟨hawaits, packet, toClient, -, rfl⟩ := logged_read hlogged
    exact ⟨hphase, h.answered, fun _ => h.unrefused hawaits⟩
  · push Not at hread
    obtain ⟨hawaits, r, rest, env, hrecvs, rfl⟩ := logged_serve hlogged hread
    have hrecv := smoothRecv hsmooth hrecvs
    have hnew := answersOnce_of_smooth hf hawaits hrecv
    constructor
    · rcases serve_phase hf h.phase hlogged hread (whole_of_smooth hsmooth) with
        hphase | ⟨-, r', rest', env', hrecvs', hrefuses⟩
      · exact hphase
      · exact absurd hrefuses (not_refuses_of_smooth (smoothRecv hsmooth hrecvs'))
    · intro a ha hno
      rcases mem_serves ha with hold | ⟨hrequest, rfl⟩
      · exact h.answered a hold hno
      · exact (hnew hrequest).once hno
    · intro hclient a ha
      rcases mem_serves ha with hold | ⟨hrequest, rfl⟩
      · exact h.unrefused hclient a hold
      · exact (hnew hrequest).unrefused hclient

theorem start_log (name : Bytes) (id : ClientId) (publicKey : Field publicKeySize)
    (symmetricKey : Field symmetricKeySize) (fileToSend file : Bytes) (isRegistered : Bool)
    (w : World) (beyond : ℕ → UInt8) (delivered : ℕ) :
    (Logged.start (.opened name id publicKey symmetricKey fileToSend file) isRegistered w beyond
      delivered).2 =
      ⟨[if isRegistered then requestPublicKey else requestRegistration], [], []⟩ := by
  cases isRegistered with
  | true =>
    have hcode := requestCode_publicKey id name publicKey
    exact congrArg (fun code => (⟨[code], [], []⟩ : Log)) hcode
  | false =>
    have hcode := requestCode_registration name
    exact congrArg (fun code => (⟨[code], [], []⟩ : Log)) hcode

theorem start_phase (name : Bytes) (id : ClientId) (publicKey : Field publicKeySize)
    (symmetricKey : Field symmetricKeySize) (fileToSend file : Bytes) (isRegistered : Bool)
    (w : World) (beyond : ℕ → UInt8) (delivered : ℕ) :
    Phase (Logged.start (.opened name id publicKey symmetricKey fileToSend file) isRegistered w
      beyond delivered) := by
  have hspeaks := @run_speaks (.opened name id publicKey symmetricKey fileToSend file) rfl
    isRegistered
  have hsaid : ∀ m, Sayable (.opened name id publicKey symmetricKey fileToSend file) m →
      IsRequest m := fun m hm => hm.elim (fun h => nomatch h) (fun h => h)
  have hsome : ∃ m, ((Client.opened name id publicKey symmetricKey fileToSend file).run
      isRegistered).2 = some m := by
    cases isRegistered
    · exact ⟨_, rfl⟩
    · exact ⟨_, rfl⟩
  obtain ⟨m, hm⟩ := hsome
  apply @written_phase ⟨_, .reading, w, [], [], []⟩ ⟨[], [], []⟩ _ (.inl ⟨rfl, rfl⟩) rfl
    ⟨[], rfl, rfl, rfl⟩
  · exact fun m' hm' => hsaid m' (hspeaks.queue m' hm')
  · exact fun m' hm' hawaits => hsaid m' (hspeaks.message m' hm' hawaits)
  · intro hnone
    cases hm.symm.trans hnone

/-- Requests and responses stay in lockstep as long as every request is answered with
success. -/
theorem run_inStep {name : Bytes} {id : ClientId} {publicKey : Field publicKeySize}
    {symmetricKey : Field symmetricKeySize} {fileToSend file : Bytes} {isRegistered : Bool}
    {w : World} {beyond : ℕ → UInt8} {delivered : ℕ} {es : List Event} (hf : Formats py)
    (hrun : Run (SmoothStep cpp py) (.start (.opened name id publicKey symmetricKey fileToSend file)
      isRegistered w beyond delivered) es p) : InStep p := by
  have hstart : Kept (.start (.opened name id publicKey symmetricKey fileToSend file) isRegistered
      w beyond delivered) := by
    refine ⟨start_phase .., ?_, ?_⟩
    · exact fun a ha => nomatch ha
    · exact fun _ a ha => nomatch ha
  exact (hrun.invariant hstart fun h hstep => kept_step hf h hstep).inStep

end Runs

section Sessions

variable {t t' : Transfer} {env : Env}

def smoothNow (t : Transfer) (env : Env) : Bool :=
  match received t.thread (.chunk (t.toServer.take packetSize)) with
  | .parsed q =>
    (readStep samplePy env t.world t.thread (.chunk (t.toServer.take packetSize))).control.awaits &&
      t.toServer.length = packetSize && match q with
        | .sendFile q => q.contentSize < 256 ^ 4
        | .crcResend _ => false
        | .crcAbort _ => false
        | _ => true
  | _ => false

theorem smooth_of_smoothNow (hawaits : t.thread.awaits = true) (h : smoothNow t env = true) :
    Smooth samplePy t (.recv packetSize env) := by
  unfold smoothNow at h
  split at h
  · next q hq =>
    simp only [Bool.and_eq_true, decide_eq_true_eq] at h
    obtain ⟨⟨hgoes, hlength⟩, hsizes⟩ := h
    have hrest : t.toServer.drop packetSize = [] := List.drop_of_length_le hlength.le
    have hanswerable : Answerable samplePy env t.world q := by
      by_contra hno
      rw [readStep_eq_react samplePy env t.world hawaits, hq] at hgoes
      have hends := (@handle_answers samplePy env t.world (some q) q).2 hno
      unfold ServerThread.react at hgoes
      exact nomatch hends.symm.trans hgoes
    unfold Smooth SmoothRecv
    dsimp only
    rw [hq]
    cases q with
    | registration q => exact ⟨hanswerable, trivial, fun _ => hrest⟩
    | publicKey q => exact ⟨hanswerable, trivial, fun _ => hrest⟩
    | sendFile q =>
      have hsize : q.contentSize < 256 ^ 4 := of_decide_eq_true hsizes
      exact ⟨hanswerable, hsize, fun _ => hrest⟩
    | crcValid q => exact ⟨hanswerable, trivial, fun _ => hrest⟩
    | crcResend q => cases hsizes
    | crcAbort q => cases hsizes
  · cases h

theorem logged_of_step {cpp : CppCrypto} {py : PyCrypto} {e : Event}
    (h : TransferStep cpp py t e t') (log : Log) :
    LoggedStep cpp py (t, log) e (t', log.next cpp py t e) := by
  have hnext : t.next cpp py e = some t' := h
  unfold LoggedStep logNext
  rw [hnext]
  rfl

theorem rounds_smooth {envs : List Env} {log : Log} (h : envs.foldlM (fun t env =>
    if smoothNow t env then t.round sampleCpp samplePy env else none) t = some t') :
    ∃ log', Run (SmoothStep sampleCpp samplePy) (t, log) (envs.flatMap exchange) (t', log') := by
  induction envs generalizing t log with
  | nil =>
    cases h
    exact ⟨log, .nil _⟩
  | cons env envs ih =>
    obtain ⟨u, hround, hrest⟩ := Option.bind_eq_some_iff.mp h
    dsimp only at hround
    split at hround
    · next hsmooth =>
      obtain ⟨v, hrecv, hread⟩ := round_steps hround
      have hawaits := (step_recv hrecv).1
      obtain ⟨log', hlater⟩ := @ih u _ hrest
      have hfirst : Run (SmoothStep sampleCpp samplePy) (t, log) (exchange env) (u, _) :=
        .cons ⟨logged_of_step hrecv log, smooth_of_smoothNow hawaits hsmooth⟩
          (.cons ⟨logged_of_step hread _, trivial⟩ (.nil _))
      exact ⟨log', hfirst.append hlater⟩
    · cases hround

theorem sample_formats : Formats samplePy where
  crc32 data := by
    unfold samplePy sampleCrc
    dsimp only
    split
    · decide
    · decide
  rsa key seed data encrypted h := by
    unfold samplePy at h
    dsimp only at h
    split at h
    · cases h
      decide +kernel
    · cases h

theorem run_inStep_transfer : ∃ p : Logged, p.1.client.control = .ended false ∧ InStep p := by
  have hout : ((Transfer.sample sampleBlock).bind fun t =>
      (List.replicate 3 sampleEnv).foldlM (fun t env =>
        if smoothNow t env then t.round sampleCpp samplePy env else none) t).map
      (fun t => t.client.control) = some (.ended false) := by
    decide +kernel
  obtain ⟨t, ht, hended⟩ := Option.map_eq_some_iff.mp hout
  obtain ⟨s, hs, hrest⟩ := Option.bind_eq_some_iff.mp ht
  have hstart : Logged.start (sampleClient sampleBlock) true .withClient (fun _ => 0) packetSize =
      (s, ⟨[requestPublicKey], [], []⟩) := by
    have hasked := asked_eq hs
    apply Prod.ext
    · exact hasked
    · exact start_log [0x61] sampleId samplePublicKey (filled symmetricKeySize 0) [0x78]
        sampleBlock true .withClient (fun _ => 0) packetSize
  obtain ⟨log, hrun⟩ := @rounds_smooth s t _ ⟨[requestPublicKey], [], []⟩ hrest
  rw [← hstart] at hrun
  exact ⟨(t, log), hended, run_inStep sample_formats hrun⟩

/-- A name that is taken: the server refuses twice, and closes the connection while the client
tries again. -/
theorem not_inStep_refused : ¬∀ (cpp : CppCrypto) (py : PyCrypto) (name : Bytes) (id : ClientId)
    (publicKey : Field publicKeySize) (symmetricKey : Field symmetricKeySize)
    (fileToSend file : Bytes) (isRegistered : Bool) (w : World) (beyond : ℕ → UInt8)
    (delivered : ℕ) (es : List Event) (p : Logged), Formats py →
    Run (LoggedStep cpp py) (.start (.opened name id publicKey symmetricKey fileToSend file)
      isRegistered w beyond delivered) es p → InStep p := by
  intro h
  let c : Client := .opened [0x61] emptyId samplePublicKey (filled _ 0) [0x78] []
  have hout : ((Transfer.asked ⟨c, .reading, .withClient, [], [], []⟩ (c.run false)).bind fun t =>
      logNext sampleCpp samplePy (t, ⟨[requestRegistration], [], []⟩)
        (.recv packetSize sampleEnv)).map (fun p => (p.1.client.control.awaits,
        p.2.answers.any fun a => a.2.sent.contains .registrationFailed, p.1.thread.awaits)) =
      some (true, true, false) := by
    decide +kernel
  obtain ⟨p, hp, hfacts⟩ := Option.map_eq_some_iff.mp hout
  simp only [Prod.mk.injEq, List.any_eq_true, List.contains_iff_mem] at hfacts
  obtain ⟨hawaits, hrefused, hclosed⟩ := hfacts
  obtain ⟨t, ht, hstep⟩ := Option.bind_eq_some_iff.mp hp
  have hstart : Logged.start c false .withClient (fun _ => 0) packetSize =
      (t, ⟨[requestRegistration], [], []⟩) := by
    have hasked := asked_eq ht
    apply Prod.ext
    · exact hasked
    · exact start_log [0x61] emptyId samplePublicKey (filled _ 0) [0x78] [] false .withClient
        (fun _ => 0) packetSize
  have hrun : Run (LoggedStep sampleCpp samplePy)
      (.start c false .withClient (fun _ => 0) packetSize) [.recv packetSize sampleEnv] p := by
    rw [hstart]
    exact .cons hstep (.nil _)
  have hinStep := h _ _ _ _ _ _ _ _ _ _ _ _ _ _ sample_formats hrun
  exact nomatch hclosed.symm.trans (hinStep.retried hawaits hrefused)

end Sessions

end Lockstep
