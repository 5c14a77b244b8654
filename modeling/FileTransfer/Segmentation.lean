import FileTransfer.ServerSystem
import FileTransfer.SendFileReassembly

/-! # Segmentation of the byte stream

One connection's read loop as a function of its chunks. The environment is that of the
requests handled so far, so that two ways of cutting a stream can be compared. The loop
gives the same session for the cuts that keep to the packets of the requests. -/
namespace Segmentation

open ByteField ServerProtocol ServerState ServerHandlers ServerThread ServerSystem ClientChannel
  MessageRoundTrip SendFileReassembly

variable (crypto : PyCrypto) (oracle : ℕ → Env)

section Sessions

/-- The read thread with the requests it handled and the responses it wrote. -/
structure Session where
  control : Control
  world : World
  requests : List Request
  responses : List Response

def Session.start (w : World) : Session := ⟨.reading, w, [], []⟩

def Session.after (s : Session) (out : ReadStep) : Session :=
  ⟨out.control, out.world, s.requests ++ out.handled.toList, s.responses ++ out.sent⟩

def Session.env (s : Session) : Env := oracle s.requests.length

def Session.recv (s : Session) (data : Bytes) : Session :=
  if s.control.awaits then s.after (readStep crypto (s.env oracle) s.world s.control (.chunk data))
  else s

def Session.run (s : Session) (chunks : List Bytes) : Session :=
  chunks.foldl (Session.recv crypto oracle) s

def Session.react (s : Session) (r : Received) : Session :=
  s.after (ServerThread.react crypto (s.env oracle) s.world r)

end Sessions

section Streams

inductive WellFormed : Bytes → Prop where
  | registration (id : ClientId) {name : Bytes} : WireName name →
      WellFormed (requestHeader id requestRegistration clientNameSize ++ clientName name)
  | publicKey (id : ClientId) {name : Bytes} (key : Field publicKeySize) : WireName name →
      WellFormed (publicKeyRequestMessage id name key)
  | sendFile (id : ClientId) {contentSize : ℕ} {name : Bytes} (encrypted : Bytes) :
      contentSize < 256 ^ 4 → WireName name → 4 + fileNameSize + encrypted.length < 256 ^ 4 →
      WellFormed (requestToSendFileMessage id contentSize (nameField name) encrypted)
  | crcStatus (id payloadId : ClientId) {code : ℕ} {name : Bytes} :
      code ∈ [requestCrcValid, invalidCrcResendRequest, invalidCrcAbort] → WireName name →
      WellFormed (requestHeader id code (clientIdSize + fileNameSize) ++ payloadId.val ++
        (nameField name).val)

/-- A request followed by whatever fills its last packet. -/
def Padded (message : Bytes) : Prop :=
  ∃ request padding, WellFormed request ∧ message = request ++ padding ∧
    message.length = packetSize * packetCount request.length

/-- Recv results of a stream: none is empty or larger than what `recv` asks for. -/
def Cut (stream : List Bytes) (chunks : List Bytes) : Prop :=
  chunks.flatten = stream.flatten ∧ ∀ chunk ∈ chunks, chunk ≠ [] ∧ chunk.length ≤ packetSize

/-- The chunks of one request: a whole first packet, and in the receive loop of a file a
last chunk that starts in the ciphertext and goes to the end of the padding. -/
def Whole (message : Bytes) (chunks : List Bytes) : Prop :=
  ∃ first rest, chunks = first :: rest ∧ first ++ rest.flatten = message ∧
    first.length = packetSize ∧
    ∀ p, Received.ofData first = .partly p → ExactFit p.need rest

def Session.deliver (s : Session) (message : Bytes) : Session :=
  if s.control = .reading then
    match Received.ofData (message.take packetSize) with
    | .partly p => s.react crypto oracle (.parsed (.sendFile { p.request with
        fileContent := p.fileContent ++ (message.drop packetSize).take p.need }))
    | r => s.react crypto oracle r
  else s

/-- As long as the thread reads on, the chunks come request by request. -/
def Aligned (s : Session) : List Bytes → List Bytes → Prop
  | [], chunks => chunks = []
  | message :: stream, chunks => s.control = .reading →
      ∃ group rest, chunks = group ++ rest ∧ Whole message group ∧
        Aligned (s.deliver crypto oracle message) stream rest

end Streams

variable {crypto oracle}

section Receiving

variable {s : Session} {p : PartialFile}

theorem recv_received (s : Session) (h : s.control.awaits = true) (data : Bytes) :
    s.recv crypto oracle data = s.react crypto oracle (received s.control (.chunk data)) := by
  rw [Session.recv, if_pos h, readStep_eq_react crypto (s.env oracle) s.world h, Session.react]

theorem run_append (s : Session) (chunks chunks' : List Bytes) :
    s.run crypto oracle (chunks ++ chunks') =
      (s.run crypto oracle chunks).run crypto oracle chunks' := List.foldl_append

theorem recv_ended (s : Session) (h : s.control.awaits = false) (chunks : List Bytes) :
    s.run crypto oracle chunks = s := by
  induction chunks with
  | nil => rfl
  | cons chunk chunks ih =>
    have hstay : s.recv crypto oracle chunk = s := by
      rw [Session.recv, if_neg (by rw [h]; decide)]
    rw [Session.run, List.foldl_cons, hstay]
    exact ih

theorem react_partly (s : Session) (p : PartialFile) :
    s.react crypto oracle (.partly p) = { s with control := .receiving p } := by
  simp [Session.react, ServerThread.react, Session.after, ReadStep.quiet]

theorem react_parsed (s : Session) (control : Control) (request : Request) :
    Session.react crypto oracle { s with control } (.parsed request) =
      s.react crypto oracle (.parsed request) := rfl

theorem run_receiving {chunks : List Bytes} (hc : s.control = .receiving p)
    (hneed : 0 < p.need) (h : ExactFit p.need chunks) :
    s.run crypto oracle chunks = s.react crypto oracle (.parsed (.sendFile { p.request with
      fileContent := p.fileContent ++ chunks.flatten.take p.need })) := by
  induction chunks generalizing s p with
  | nil =>
    have hzero : p.need = 0 := h
    omega
  | cons chunk chunks ih =>
    obtain ⟨-, hfit⟩ := h
    obtain ⟨hfed, hcontent⟩ := feed_need p chunk
    have hawaits : s.control.awaits = true := by rw [hc]; rfl
    have hreceived : received s.control (.chunk chunk) = .ofFile (p.feed chunk) := by
      rw [hc]
      rfl
    rw [Session.run, List.foldl_cons, recv_received s hawaits, hreceived, ← Session.run,
      Received.ofFile]
    by_cases hlast : (p.feed chunk).need = 0
    · -- the loop ends, and no chunk is left
      have hnil : chunks = [] := by
        rw [← hfed, hlast] at hfit
        cases chunks with
        | nil => rfl
        | cons => exact absurd hfit.1 (lt_irrefl 0)
      subst hnil
      have htake : chunk.take p.need = [chunk].flatten.take p.need := by simp
      rw [if_pos ((complete_iff _).mpr hlast), ← htake, ← hcontent]
      rfl
    · have hrec := @ih { s with control := .receiving (p.feed chunk) } (p.feed chunk) rfl
        (by omega) (hfed ▸ hfit)
      rw [if_neg ((complete_iff _).not.mpr hlast), react_partly, hrec, react_parsed, hfed, hcontent,
        List.flatten_cons, List.take_append, List.append_assoc]
      rfl

end Receiving

section Messages

variable {message : Bytes}

theorem ofData_sendFileFront (id : ClientId) {contentSize : ℕ} {name : Bytes} {n : ℕ}
    (content : Bytes) (hn : 4 + fileNameSize + n < 256 ^ 4) :
    Received.ofData (sendFileFront id contentSize name n ++ content) =
      match RequestToSendFile.begin (sendFileFront id contentSize name n ++ content) with
      | none => .malformed true
      | some p => .ofFile p := by
  have hheader := unpack_requestHeader id requestToSendFile (4 + fileNameSize + n)
    (leBytes 4 contentSize ++ (nameField name).val ++ content) (by decide) hn
  have hfront : sendFileFront id contentSize name n ++ content =
      requestHeader id requestToSendFile (4 + fileNameSize + n) ++
        (leBytes 4 contentSize ++ (nameField name).val ++ content) := by
    simp only [sendFileFront, List.append_assoc]
  rw [Received.ofData, hfront, hheader]
  exact if_pos rfl

theorem length_of_parsed (h : Padded message) {request : Request}
    (hparsed : Received.ofData (message.take packetSize) = .parsed request) :
    message.length = packetSize := by
  obtain ⟨request', padding, hwell, rfl, hlength⟩ := h
  have hshort : request'.length ≤ packetSize → request' ≠ [] →
      (request' ++ padding).length = packetSize := by
    intro hle hne
    have hpos := List.length_pos_of_ne_nil hne
    have hcount : packetCount request'.length = 1 := by
      simp only [packetCount, packetSize] at hle ⊢
      omega
    rw [hlength, hcount, Nat.mul_one]
  have hheader : ∀ {id code size} {rest : Bytes}, requestHeader id code size ++ rest ≠ [] := by
    intro id code size rest hnil
    have := congrArg List.length hnil
    simp [requestHeaderSize, clientIdSize] at this
  cases hwell with
  | registration id hname =>
    refine hshort ?_ hheader
    simp [clientName, requestHeaderSize, clientIdSize, headerSize, clientNameSize, packetSize]
  | publicKey id key hname =>
    refine hshort ?_ ?_
    · simp [publicKeyRequestMessage, clientName, requestHeaderSize, clientIdSize, headerSize,
        clientNameSize, packetSize, publicKeySize, key.property]
    · rw [publicKeyRequestMessage, List.append_assoc]
      exact hheader
  | crcStatus id payloadId hcode hname =>
    refine hshort ?_ ?_
    · simp [(nameField _).property, payloadId.property, requestHeaderSize, clientIdSize,
        headerSize, fileNameSize, packetSize]
    · rw [List.append_assoc]
      exact hheader
  | @sendFile id contentSize name encrypted hsize hname hn =>
    rw [requestToSendFileMessage_eq] at hparsed hlength hshort ⊢
    have hfrontLength := length_sendFileFront id contentSize name encrypted.length
    by_cases hfits : encrypted.length ≤ 742
    · refine hshort ?_ ?_
      · rw [List.length_append, hfrontLength]
        simp only [packetSize]
        omega
      · rw [sendFileFront, List.append_assoc, List.append_assoc]
        exact hheader
    · exfalso
      have htake : (sendFileFront id contentSize name encrypted.length ++ encrypted ++
          padding).take packetSize =
            sendFileFront id contentSize name encrypted.length ++
              (encrypted ++ padding).take 742 := by
        rw [List.append_assoc, List.take_append, hfrontLength,
          List.take_of_length_le (by rw [hfrontLength]; decide)]
        rfl
      have hfull : ((encrypted ++ padding).take 742).length = 742 := by
        rw [List.length_take, List.length_append]
        omega
      rw [htake, ofData_sendFileFront id _ hn,
        begin_sendFileFront id _ hsize hname hn, hfull] at hparsed
      by_cases hlong : 1024 < encrypted.length
      · have hread : firstRead encrypted.length = 742 := if_pos hlong
        rw [hread, if_pos le_rfl] at hparsed
        dsimp only at hparsed
        rw [Received.ofFile, if_neg] at hparsed
        · cases hparsed
        · simp only [PartialFile.complete, decide_eq_true_eq]
          omega
      · have hread : firstRead encrypted.length = encrypted.length :=
          if_neg (by simp only [packetSize]; omega)
        rw [hread, if_neg hfits] at hparsed
        cases hparsed

end Messages

section Runs

variable {s : Session} {message : Bytes}

def BetweenRequests (s : Session) : Prop := s.control = .reading ∨ s.control.awaits = false

theorem settle_between (env : Env) (w : World) (handled : Option Request)
    (handler : ServerM Bool) :
    (settle env w handled handler).control = .reading ∨
      (settle env w handled handler).control.awaits = false := by
  rcases h : handler.run (Turn.start w env) with ⟨o, u⟩
  cases o with
  | value b =>
    rw [settle_value env h]
    cases b <;> cases env.sendOk <;> simp [Control.awaits]
  | raised e => rw [settle_raised env h]; exact .inr rfl
  | hangs => rw [settle_hangs env h]; exact .inr rfl

theorem deliver_between (h : BetweenRequests s) :
    BetweenRequests (s.deliver crypto oracle message) := by
  unfold Session.deliver
  split
  · cases hreceived : Received.ofData (message.take packetSize) with
    | parsed request => exact settle_between _ _ (some request) _
    | malformed refused => exact settle_between _ _ none _
    | partly p => exact settle_between _ _ none _
    | endOfStream => exact .inr rfl
    | failure => exact .inr rfl
  · exact h

theorem deliver_ended (h : s.control.awaits = false) (stream : List Bytes) :
    stream.foldl (Session.deliver crypto oracle) s = s := by
  induction stream with
  | nil => rfl
  | cons message stream ih =>
    have hstay : s.deliver crypto oracle message = s := by
      rw [Session.deliver, if_neg]
      intro hreading
      rw [hreading] at h
      cases h
    rw [List.foldl_cons, hstay, ih]

theorem malformed_awaits (s : Session) (refused : Bool) :
    (s.react crypto oracle (.malformed refused)).control.awaits = false := by
  have hends := (react_malformed crypto (s.env oracle) s.world refused).1
  rw [Session.react]
  exact hends

theorem need_pos_of_partly {data : Bytes} {p : PartialFile}
    (h : Received.ofData data = .partly p) : 0 < p.need := by
  have hfile : ∀ {p' : PartialFile}, Received.ofFile p' = .partly p → 0 < p.need := by
    intro p' h
    rw [Received.ofFile] at h
    split at h
    · cases h
    · next hc =>
      cases h
      rw [complete_iff] at hc
      omega
  unfold Received.ofData at h
  split at h
  · cases h
  · split at h
    · split at h
      · cases h
      · exact hfile h
    · unfold Received.ofParsed at h
      split at h <;> cases h

/-- The chunks of one request have the effect of the request. -/
theorem run_whole (hpadded : Padded message) (hs : s.control = .reading) {group : List Bytes}
    (hnonempty : ∀ chunk ∈ group, chunk ≠ []) (h : Whole message group) :
    s.run crypto oracle group = s.deliver crypto oracle message := by
  obtain ⟨first, rest, rfl, hmessage, hfirst, hfit⟩ := h
  have hawaits : s.control.awaits = true := by rw [hs]; rfl
  have htake : message.take packetSize = first := by
    rw [← hmessage, ← hfirst, List.take_left]
  have hdrop : message.drop packetSize = rest.flatten := by
    rw [← hmessage, ← hfirst, List.drop_left]
  have hne : first ≠ [] := hnonempty first (by simp)
  have hreceived : received s.control (.chunk first) = Received.ofData first := by
    rw [hs]
    cases first with
    | nil => exact absurd rfl hne
    | cons => rfl
  rw [Session.run, List.foldl_cons, recv_received s hawaits, hreceived, ← Session.run,
    Session.deliver, if_pos hs, htake, hdrop]
  cases hdata : Received.ofData first with
  | partly p =>
    have hexact := hfit p hdata
    have hneed : 0 < p.need := need_pos_of_partly hdata
    have hrun := @run_receiving crypto oracle { s with control := .receiving p } p rest rfl hneed
      hexact
    rw [react_partly, hrun, react_parsed]
  | parsed request =>
    have hlength := length_of_parsed hpadded (by rw [htake, hdata])
    have hnil : rest = [] := by
      have hflat : rest.flatten = [] := by
        rw [← hdrop, List.drop_eq_nil_of_le hlength.le]
      cases rest with
      | nil => rfl
      | cons chunk rest =>
        rw [List.flatten_cons, List.append_eq_nil_iff] at hflat
        exact absurd hflat.1 (hnonempty chunk (by simp))
    rw [hnil]
    rfl
  | malformed refused =>
    dsimp only
    exact recv_ended _ (malformed_awaits s refused) rest
  | endOfStream => exact recv_ended _ rfl rest
  | failure => exact recv_ended _ rfl rest

/-- The run lemma: an aligned cut gives the session of the requests. -/
theorem run_aligned {stream chunks : List Bytes} (hpadded : ∀ message ∈ stream, Padded message)
    (hnonempty : ∀ chunk ∈ chunks, chunk ≠ []) (hs : BetweenRequests s)
    (h : Aligned crypto oracle s stream chunks) :
    s.run crypto oracle chunks = stream.foldl (Session.deliver crypto oracle) s := by
  induction stream generalizing s chunks with
  | nil =>
    have hnil : chunks = [] := h
    rw [hnil]
    rfl
  | cons message stream ih =>
    rcases hs with hreading | hended
    · obtain ⟨group, rest, rfl, hwhole, haligned⟩ := h hreading
      have hgroup : s.run crypto oracle group = s.deliver crypto oracle message :=
        run_whole (hpadded message (by simp)) hreading
          (fun chunk hc => hnonempty chunk (by simp [hc])) hwhole
      rw [run_append, hgroup, List.foldl_cons]
      exact ih (fun m hm => hpadded m (by simp [hm]))
        (fun chunk hc => hnonempty chunk (by simp [hc]))
        (deliver_between (.inl hreading)) haligned
    · rw [recv_ended s hended, deliver_ended hended]

/-- Main theorem: two aligned cuts of a stream give the same requests and responses. -/
theorem sessions_agree {w : World} {stream cut cut' : List Bytes}
    (hpadded : ∀ message ∈ stream, Padded message) (hcut : Cut stream cut)
    (hcut' : Cut stream cut') (h : Aligned crypto oracle (.start w) stream cut)
    (h' : Aligned crypto oracle (.start w) stream cut') :
    ((Session.start w).run crypto oracle cut).requests =
        ((Session.start w).run crypto oracle cut').requests ∧
      ((Session.start w).run crypto oracle cut).responses =
        ((Session.start w).run crypto oracle cut').responses := by
  rw [run_aligned hpadded (fun chunk hc => (hcut.2 chunk hc).1) (.inl rfl) h,
    run_aligned hpadded (fun chunk hc => (hcut'.2 chunk hc).1) (.inl rfl) h']
  exact ⟨rfl, rfl⟩

end Runs

section Sample

def fileMessage : Bytes :=
  requestToSendFileMessage sampleId 1024 (nameField [0x78]) (.replicate 1040 5) ++
    .replicate 726 0

def fileFirst : Bytes := fileMessage.take packetSize
def fileSecond : Bytes := fileMessage.drop packetSize

theorem fileMessage_padded : Padded fileMessage :=
  ⟨_, _, .sendFile sampleId (.replicate 1040 5) (by decide) (by decide)
    (by rw [List.length_replicate]; decide), rfl, by decide +kernel⟩

theorem fileFirst_need {p : PartialFile} (h : Received.ofData fileFirst = .partly p) :
    p.need = 298 := by
  have hneed : (match Received.ofData fileFirst with
      | .partly p => p.need
      | _ => 0) = 298 := by decide +kernel
  rwa [h] at hneed

theorem fileMessage_aligned {rest : List Bytes} (hrest : rest.flatten = fileSecond)
    (hfit : ExactFit 298 rest) :
    Aligned .trivial (fun _ => .undisturbed) (.start .withClient) [fileMessage]
      (fileFirst :: rest) := by
  refine fun _ => ⟨fileFirst :: rest, [], by rw [List.append_nil], ?_, rfl⟩
  refine ⟨fileFirst, rest, rfl, ?_, by decide +kernel, fun p hp => ?_⟩
  · rw [hrest, fileFirst, fileSecond, List.take_append_drop]
  · rw [fileFirst_need hp]
    exact hfit

theorem fileMessage_cut {rest : List Bytes} (hrest : rest.flatten = fileSecond)
    (hsize : ∀ chunk ∈ fileFirst :: rest, chunk ≠ [] ∧ chunk.length ≤ packetSize) :
    Cut [fileMessage] (fileFirst :: rest) := by
  refine ⟨?_, hsize⟩
  rw [List.flatten_cons, hrest, fileFirst, fileSecond, List.take_append_drop]
  simp

theorem sessions_agree_two_pieces :
    let cut := [fileFirst, fileSecond]
    let cut' := [fileFirst, fileSecond.take 100, fileSecond.drop 100]
    let session := (Session.start .withClient).run .trivial fun _ => .undisturbed
    (session cut).requests.length = 1 ∧ (session cut).requests = (session cut').requests ∧
      (session cut).responses = (session cut').responses := by
  refine ⟨by decide +kernel, @sessions_agree _ _ _ [fileMessage] _ _ ?_ ?_ ?_ ?_ ?_⟩
  · intro message hm
    rw [List.mem_singleton.mp hm]
    exact fileMessage_padded
  · exact fileMessage_cut (by simp) (by decide +kernel)
  · exact fileMessage_cut (by simp) (by decide +kernel)
  · exact fileMessage_aligned (by simp) (by decide +kernel)
  · exact fileMessage_aligned (by simp) (by decide +kernel)

def registrationPacket : Bytes := registrationRequestMessage [0x61] ++ .replicate 746 0

/-- A registration that arrives in two pieces is not handled. -/
theorem not_sessions_agree_registration :
    ¬∀ (crypto : PyCrypto) (oracle : ℕ → Env) (w : World) (stream cut cut' : List Bytes),
      (∀ message ∈ stream, Padded message) → Cut stream cut → Cut stream cut' →
        ((Session.start w).run crypto oracle cut).requests =
            ((Session.start w).run crypto oracle cut').requests ∧
          ((Session.start w).run crypto oracle cut).responses =
            ((Session.start w).run crypto oracle cut').responses := by
  intro h
  have hpadded : ∀ message ∈ [registrationPacket], Padded message := by
    intro message hm
    rw [List.mem_singleton.mp hm]
    exact ⟨_, _, .registration emptyId (by decide), rfl, by decide +kernel⟩
  have hcut : Cut [registrationPacket] [registrationPacket] := ⟨rfl, by decide +kernel⟩
  have hcut' : Cut [registrationPacket]
      [registrationPacket.take 200, registrationPacket.drop 200] :=
    ⟨by simp, by decide +kernel⟩
  have hrequests := (h .trivial (fun _ => .undisturbed) .sample _ _ _ hpadded hcut hcut').1
  exact absurd hrequests (by decide +kernel)

end Sample

end Segmentation
