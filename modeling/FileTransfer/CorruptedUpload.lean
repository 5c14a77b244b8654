import FileTransfer.FirstUpload

/-! # Corrupted uploads

What the retries of the client do after the server stored a file with another checksum. A
1105 is answered from the stored file, and the client never sends the file again. -/
namespace CorruptedUpload

open ByteField ServerProtocol ServerState ServerFiles ServerHandlers ServerThread ClientChannel
  ClientLogic MessageRoundTrip StepRun TransferAnswers TransferSession ClientDialogue
  RequestAnswers Lockstep FirstUpload
open RaisingProgram (Prog)
open TransferIntegrity (AtRest OnDisk givesUp_harmless rest_after)
open ClientLogic.Client (Unapproved Failed Harmless crcStatusMessage checksum)

section Definitions

variable (cpp : CppCrypto) (py : PyCrypto)

def isRetry (a : Answer) : Bool :=
  match a.1 with
  | .parsed (.crcResend _) => true
  | _ => false

def sendsCrc (a : Answer) : Bool := a.2.sent.any fun r => r.code = msgReceivedCrc

/-- A file message is handled before or when the next 2103 is sent. -/
def freshCrc : List Answer → Bool
  | [] => true
  | a :: answers => isFile a || !sendsCrc a && freshCrc answers

/-- Each retry makes the file be transmitted again before the next 2103. -/
def retransmits : List Answer → Bool
  | [] => true
  | a :: answers => (!isRetry a || freshCrc (a :: answers)) && retransmits answers

def later (p₁ p : Logged) : List Answer := p.2.answers.drop p₁.2.answers.length

/-- The session has not been given up, and if it is over it ended with the client's file on the
server. -/
def Succeeding (p : Logged) : Prop :=
  invalidCrcAbort ∉ p.2.written ∧ (p.1.client.control.awaits = false →
    p.1.client.control = .ended false ∧
      OnDisk p.1.client p.1.world (ClientFile.fileBuffer p.1.client.file))

structure Recovers (p₁ p : Logged) : Prop where
  retransmits : retransmits (later p₁ p) = true
  succeeds : (∃ a ∈ later p₁ p, isFile a = true ∧ ∃ id size fileName,
    Response.fileReceivedCrcValue id size fileName p₁.1.client.calculatedCrc ∈ a.2.sent) →
      Succeeding p

/-- The step of the server that stores this content for a file message and tells its checksum. -/
structure Uploads (p p' : Logged) (q : RequestToSendFile) (content : Bytes) : Prop where
  handled : ∃ out, p'.2.answers = p.2.answers ++ [(.parsed (.sendFile q), out)] ∧
    ∃ r, out.sent = [r] ∧ Tells py content r
  stored : ∃ file, getFileInstance p'.1.world q.header.clientID q.fileName = some file ∧
    file.content = some content

/-- No 1105 is answered with a 2103: its client is not found, or the socket does not take it. -/
def Unanswered (p : Logged) : NoisyEvent → Prop
  | .quiet e => ∀ r rest env q, Recvs p e r rest env →
      received p.1.thread r = .parsed (.crcResend q) →
      ¬(Known (Turn.start p.1.world env) q.header.clientID ∧ env.sendOk = true)
  | .noise _ => True

end Definitions

section Retries

variable {cpp : CppCrypto} {c c' : Client} {v packet : Bytes} {r : Reaction}

def Mismatch (c : Client) (v : Bytes) : Prop :=
  responseCode v = msgReceivedCrc → checksum v ≠ c.calculatedCrc

structure SameFile (c c' : Client) : Prop where
  id : c'.id = c.id
  name : c'.fileToSend = c.fileToSend
  crc : c'.calculatedCrc = c.calculatedCrc

inductive Retries (c : Client) (r : Reaction) : Prop where
  | fails : r.1.Failed → r.2 = none → Retries c r
  | aborts : SameFile c r.1 → r.1.Failed → r.2 = some (r.1.crcStatusMessage invalidCrcAbort) →
      Retries c r
  | resends (v : Bytes) : SameFile c r.1 → r.1.control = .resending v → r.1.isOpen = true →
      Mismatch r.1 v → r.2 = some (r.1.crcStatusMessage invalidCrcResendRequest) → Retries c r

theorem retries_crcLoop (h : SameFile c c') (hv : Mismatch c v) : Retries c (c'.crcLoop v) := by
  have hv' : Mismatch c' v := by
    intro hcode
    rw [h.crc]
    exact hv hcode
  unfold Client.crcLoop
  split
  · split
    · next hopen =>
      exact .resends v ⟨h.id, h.name, h.crc⟩ rfl hopen hv' rfl
    · exact .fails ⟨rfl, nofun⟩ rfl
  · unfold Client.sendMessageToChannel
    dsimp only
    split
    · exact .aborts ⟨h.id, h.name, h.crc⟩ ⟨rfl, nofun⟩ rfl
    · exact .fails ⟨rfl, nofun⟩ rfl

theorem retries_checkResponse (h : SameFile c c') (hv : Mismatch c v) :
    Retries c (c'.checkResponse v) := by
  unfold Client.checkResponse
  split
  · next hcode =>
    split
    · next hsame =>
      rw [h.crc] at hsame
      exact absurd hsame (hv hcode)
    · exact retries_crcLoop ⟨h.id, h.name, h.crc⟩ hv
  · exact retries_crcLoop h hv

theorem retries_receivedWithCrc (h : SameFile c c') (hv : checksum v ≠ c.calculatedCrc) :
    Retries c (c'.handelMessageReceivedWithCrc v) := by
  unfold Client.handelMessageReceivedWithCrc
  split
  · split
    · next hsame =>
      rw [h.crc] at hsame
      exact absurd hsame hv
    · apply retries_crcLoop h
      intro hcode
      exact nomatch hcode
  · exact .fails ⟨rfl, nofun⟩ rfl

theorem retries_atLoopHead (h : Retries c r) : Retries c (r.1.atLoopHead, r.2) := by
  cases h with
  | fails hfailed hsilent => exact .fails (Client.failed_atLoopHead hfailed) hsilent
  | aborts hsame hfailed hmessage =>
    have hhead : r.1.atLoopHead = r.1 := by
      unfold Client.atLoopHead
      rw [if_neg]
      rintro ⟨hrunning, -⟩
      rw [Failed, hrunning] at hfailed
      cases hfailed.1
    refine .aborts ?_ ?_ ?_
    · rwa [hhead]
    · rwa [hhead]
    · rwa [hhead]
  | resends v hsame hcontrol hopen hv hmessage =>
    have hhead : r.1.atLoopHead = r.1 := Client.atLoopHead_open hopen
    refine .resends v ?_ ?_ ?_ ?_ ?_
    · rwa [hhead]
    · rwa [hhead]
    · rwa [hhead]
    · rwa [hhead]
    · rwa [hhead]

theorem retries_receive (hlength : packet.length = packetSize) (hawaits : c.control.awaits = true)
    (hun : c.Unapproved) (hcode : responseCode packet = msgReceivedCrc)
    (hcrc : checksum packet ≠ c.calculatedCrc) : Retries c (c.receive cpp (some packet)) := by
  cases haccepts : readAccepts packet with
  | false =>
    obtain ⟨hsilent, hfailed⟩ := @Client.receive_fails cpp _ hawaits hun (some packet) (by
      rintro _ ⟨⟩
      exact haccepts)
    exact .fails hfailed hsilent
  | true =>
    have hheader : headerSize ≤ packet.length := by
      rw [hlength]
      decide
    rcases Client.awaits_cases hawaits with hcontrol | ⟨v, hcontrol⟩
    · obtain ⟨-, rest, hdata⟩ := Client.buffered_accepted haccepts c
      have hcode' := (header_copied hheader (getHeader packet) rest).1.trans hcode
      have hcrc' := checksum_copied hlength haccepts hcode rest
      rw [Client.receive_running hcontrol, Client.dispatch_crcValue hdata hcode']
      apply retries_atLoopHead
      apply retries_receivedWithCrc
      · exact ⟨rfl, rfl, rfl⟩
      · rwa [hcrc']
    · have hcrc' := checksum_copied hlength haccepts hcode (v.drop (getHeader packet + headerSize))
      rw [Client.receive_resending hcontrol, read_accepted haccepts]
      apply retries_atLoopHead
      apply retries_checkResponse
      · exact ⟨rfl, rfl, rfl⟩
      · intro _
        rwa [hcrc']

end Retries

section Spoilt

/-- What the lookups of the server find for the client's file has this content. -/
def Finds (content : Bytes) (id : ClientId) (name : Bytes) (w : World) : Prop :=
  ∀ text, fieldText (nameField name).val = some text → ContentIs w id text content

structure Doubts (content : Bytes) (t : Transfer) : Prop where
  awaits : t.client.control.awaits = true
  unapproved : t.client.Unapproved
  finds : Finds content t.client.id t.client.fileToSend t.world

def Leaves (content : Bytes) (t : Transfer) : Prop :=
  ∃ code id name rest n, (code = invalidCrcResendRequest ∨ code = invalidCrcAbort) ∧
    t.toServer = (crcStatusRequestMessage code id (nameField name) ++ rest).take n ∧
    Finds content id name t.world

/-- The phases of a transfer after the server told another checksum than the client's. -/
inductive Spoilt (py : PyCrypto) (content : Bytes) (t : Transfer) : Prop where
  | told (r : Response) : AtRest t → t.toClient = responsePackets r → Tells py content r →
      py.crc32 content ≠ t.client.calculatedCrc → Doubts content t → Spoilt py content t
  | retrying (rest : Bytes) : t.thread = .reading →
      t.toServer = t.client.crcStatusMessage invalidCrcResendRequest ++ rest →
      t.toClient = [] → py.crc32 content ≠ t.client.calculatedCrc → Doubts content t →
      Spoilt py content t
  | refused : t.thread.awaits = false → t.client.control.awaits = true → t.client.Unapproved →
      (∀ packet ∈ t.toClient, Harmless (some packet)) → Spoilt py content t
  | finished : t.client.Failed → AtRest t ∨ t.thread = .reading ∧ Leaves content t →
      Spoilt py content t

variable {cpp : CppCrypto} {py : PyCrypto} {content : Bytes} {t t' : Transfer}
  {r : Reaction} {beyond : ℕ → UInt8} {delivered : ℕ}

theorem finds_congr {c c' : Client} {w : World} (h : SameFile c c')
    (hfinds : Finds content c.id c.fileToSend w) : Finds content c'.id c'.fileToSend w := by
  rwa [h.id, h.name]

theorem retries_react (h : Retries t.client r) (hun : r.1.Unapproved) (hrest : AtRest t)
    (hclient : t.toClient = []) (hcrc : py.crc32 content ≠ t.client.calculatedCrc)
    (hfinds : Finds content t.client.id t.client.fileToSend t.world) :
    Spoilt py content (t.react r beyond delivered) := by
  have hstream : ∀ code, ∃ rest, (writePackets (r.1.crcStatusMessage code) beyond).flatten =
      r.1.crcStatusMessage code ++ rest := fun code => ⟨_, flatten_writePackets _ _⟩
  have hleaves : ∀ {c' : Client} {code n}, code = invalidCrcResendRequest ∨ code = invalidCrcAbort →
      SameFile t.client r.1 → c'.Failed →
      Spoilt py content { t with
        client := c'
        toServer := t.toServer ++
          (writePackets (r.1.crcStatusMessage code) beyond).flatten.take n } := by
    intro c' code n hcode hsame hfailed
    refine .finished hfailed ?_
    rcases hrest with ⟨hthread, hserver⟩ | hdead
    · obtain ⟨rest, hrest⟩ := hstream code
      refine .inr ⟨hthread, code, r.1.id, r.1.fileToSend, rest, n, hcode, ?_,
        finds_congr hsame hfinds⟩
      dsimp only
      rw [hserver, List.nil_append, hrest]
      rfl
    · exact .inl (.inr hdead)
  cases h with
  | fails hfailed hsilent =>
    rw [react_silent hsilent]
    exact .finished hfailed (.inl hrest)
  | aborts hsame hfailed hmessage =>
    unfold Transfer.react
    rw [hmessage]
    apply hleaves (.inr rfl) hsame
    split
    · exact Client.writeFailed_failed hfailed.2
    · exact hfailed
  | resends v hsame hcontrol hopen hv hmessage =>
    unfold Transfer.react
    rw [hmessage]
    dsimp only
    split
    · exact hleaves (.inl rfl) hsame (Client.writeFailed_failed (by rw [hcontrol]; exact nofun))
    · next hall =>
      have hcrc' : py.crc32 content ≠ r.1.calculatedCrc := by rwa [hsame.crc]
      have hawaits : r.1.control.awaits = true := by
        rw [hcontrol]
        rfl
      have hfinds' := finds_congr hsame hfinds
      rcases hrest with ⟨hthread, hserver⟩ | hdead
      · obtain ⟨rest, hrest⟩ := hstream invalidCrcResendRequest
        refine .retrying rest hthread ?_ hclient hcrc' ⟨hawaits, hun, hfinds'⟩
        dsimp only
        rw [hserver, List.nil_append, List.take_of_length_le (by omega), hrest]
      · refine .refused hdead hawaits hun fun packet hp => ?_
        dsimp only at hp
        rw [hclient] at hp
        cases hp

theorem refused_react (hthread : t.thread.awaits = false)
    (hclient : ∀ packet ∈ t.toClient, Harmless (some packet)) (hun : r.1.Unapproved)
    (hcontrol : r.1.control ≠ .ended false) :
    Spoilt py content (t.react r beyond delivered) := by
  obtain ⟨hthread', htoClient, hreacts⟩ := react_leaves t r beyond delivered
  by_cases hawaits : (t.react r beyond delivered).client.control.awaits = true
  · rcases hreacts with hsame | hfails
    · refine .refused (by rwa [hthread']) hawaits ?_ ?_
      · rwa [hsame]
      · rwa [htoClient]
    · rw [hfails, Client.writeFailed_ends] at hawaits
      cases hawaits
  · refine .finished ⟨by simpa using hawaits, ?_⟩ (.inl (.inr (by rwa [hthread'])))
    rcases hreacts with hsame | hfails
    · rwa [hsame]
    · rw [hfails]
      exact (Client.writeFailed_failed hcontrol).2

theorem tells_packet {response : Response} {packet : Bytes} (h : Tells py content response)
    (hpacket : packet ∈ responsePackets response) :
    responsePackets response = [packet] ∧ packet.length = packetSize ∧
      responseCode packet = msgReceivedCrc ∧ checksum packet = py.crc32 content := by
  obtain ⟨id, size, fileName, rfl⟩ := h
  have hone : OnePacket (.fileReceivedCrcValue id size fileName (py.crc32 content)) :=
    onePacket_of_code (by decide : msgReceivedCrc ≠ _)
  obtain ⟨hsingle, hlength, hcode, -, payload, hpayload, hslice⟩ := mem_responsePackets hone hpacket
  refine ⟨hsingle, hlength, hcode, ?_⟩
  simp only [Response.packPayload, packUnsigned] at hpayload
  split at hpayload
  · split at hpayload
    · next hfits =>
      cases hpayload
      have hfront : (padded clientIdSize id ++ leBytes 4 size ++
          padded fileNameSize fileName).length = clientIdSize + 4 + fileNameSize := by
        simp only [List.length_append, length_padded, length_leBytes]
      have hfield := slice_middle _ (leBytes 4 (py.crc32 content)) [] hfront (length_leBytes 4 _)
      rw [List.append_nil, ← hslice, slice_slice] at hfield
      swap
      · rw [List.length_append, hfront, length_leBytes]
      have hoffset : headerSize + clientIdSize + 4 + fileNameSize =
          headerSize + (clientIdSize + 4 + fileNameSize) := rfl
      rw [checksum, hoffset, hfield, leValue_leBytes_of_lt hfits]
    · cases hpayload
  · cases hpayload

theorem spoilt_read {fails : Bool} (h : Spoilt py content t)
    (hstep : TransferStep cpp py t (.read fails beyond delivered) t') : Spoilt py content t' := by
  obtain ⟨hawaits, packet, toClient, hpacket, rfl⟩ := step_read hstep
  have hfails : t.client.Unapproved → packet = none →
      (t.client.receive cpp packet).2 = none ∧ (t.client.receive cpp packet).1.Failed := by
    rintro hun rfl
    exact Client.receive_fails hawaits hun nofun
  cases h with
  | told response hrest hclient htells hcrc hdoubts =>
    rcases hpacket with hnone | ⟨bytes, rfl, hbytes⟩
    · obtain ⟨hsilent, hfailed⟩ := hfails hdoubts.unapproved hnone
      rw [react_silent hsilent]
      exact .finished hfailed (.inl hrest)
    · have hmem : bytes ∈ responsePackets response := by
        rw [← hclient, hbytes]
        exact List.mem_cons_self
      obtain ⟨hsingle, hlength, hcode, hchecksum⟩ := tells_packet htells hmem
      have hharmless : Harmless (some bytes) := by
        rintro _ ⟨⟩
        rw [hlength, hcode]
        exact ⟨by decide, by decide⟩
      rw [hclient, hsingle, List.cons.injEq] at hbytes
      have hretries := @retries_receive cpp t.client bytes hlength hawaits hdoubts.unapproved hcode
        (by rwa [hchecksum])
      exact @retries_react py content { t with toClient } _ _ _ hretries
        (Client.receive_harmless hawaits hdoubts.unapproved hharmless).2 hrest hbytes.2.symm hcrc
        hdoubts.finds
  | retrying rest hthread hserver hclient hcrc hdoubts =>
    rcases hpacket with hnone | ⟨bytes, -, hbytes⟩
    · obtain ⟨hsilent, hfailed⟩ := hfails hdoubts.unapproved hnone
      rw [react_silent hsilent]
      refine .finished hfailed (.inr ⟨hthread, invalidCrcResendRequest, t.client.id,
        t.client.fileToSend, rest, t.toServer.length, .inl rfl, ?_, hdoubts.finds⟩)
      dsimp only
      rw [hserver]
      exact List.take_length.symm
    · cases hclient.symm.trans hbytes
  | refused hthread _ hun hharmless =>
    rcases hpacket with hnone | ⟨bytes, rfl, hbytes⟩
    · obtain ⟨hsilent, hfailed⟩ := hfails hun hnone
      rw [react_silent hsilent]
      exact .finished hfailed (.inl (.inr hthread))
    · obtain ⟨hcontrol, hun'⟩ := @Client.receive_harmless cpp _ hawaits hun (some bytes)
        (hharmless bytes (by simp [hbytes]))
      exact @refused_react py content { t with toClient } _ _ _ hthread
        (fun q hq => hharmless q (by rw [hbytes]; exact List.mem_cons_of_mem bytes hq)) hun'
        hcontrol
  | finished hfailed =>
    rw [hfailed.1] at hawaits
    cases hawaits

end Spoilt

section Serving

variable {cpp : CppCrypto} {py : PyCrypto} {content : Bytes} {t t' : Transfer} {env : Env}

theorem length_statusMessage (code : ℕ) (id : ClientId) (fileName : Field fileNameSize) :
    requestHeaderSize ≤ (crcStatusRequestMessage code id fileName).length := by
  rw [crcStatusRequestMessage, List.append_assoc, List.length_append, length_requestHeader]
  exact Nat.le_add_right _ _

theorem status_of_take {data : Bytes} {n : ℕ} {q : CrcStatusRequest}
    (h : CrcStatusRequest.unpack (data.take n) = some q) :
    CrcStatusRequest.unpack data = some q := by
  unfold CrcStatusRequest.unpack at h ⊢
  obtain ⟨header, hheader, h⟩ := Option.bind_eq_some_iff.mp h
  obtain ⟨clientID, hid, h⟩ := Option.bind_eq_some_iff.mp h
  obtain ⟨fileNameData, hname, h⟩ := Option.bind_eq_some_iff.mp h
  refine Option.bind_eq_some_iff.mpr ⟨header, unpack_take hheader, ?_⟩
  refine Option.bind_eq_some_iff.mpr ⟨clientID, exactly_slice_take hid, ?_⟩
  exact Option.bind_eq_some_iff.mpr ⟨fileNameData, exactly_slice_take hname, h⟩

theorem ofData_cases (data : Bytes) : isRequest (Received.ofData data) = true ∨
    ∃ f, Received.ofData data = .partly f := by
  unfold Received.ofData
  split
  · exact .inl rfl
  · split
    · split
      · exact .inl rfl
      · unfold Received.ofFile
        split
        · exact .inl rfl
        · exact .inr ⟨_, rfl⟩
    · unfold Received.ofParsed
      split
      · exact .inl rfl
      · exact .inl rfl

theorem status_of_parsed {data : Bytes} {q : CrcStatusRequest}
    (h : Received.ofData data = .parsed (.crcResend q)) :
    CrcStatusRequest.unpack data = some q := by
  obtain ⟨header, hheader, hcode⟩ := parsed_code h
  have hresend : header.code = invalidCrcResendRequest := hcode
  unfold Received.ofData at h
  rw [hheader] at h
  dsimp only at h
  rw [hresend, if_neg (by decide)] at h
  unfold Received.ofParsed parsedRequest at h
  rw [if_neg (by decide), if_neg (by decide), if_neg (by decide), if_pos rfl] at h
  split at h
  · next request hrequest =>
    cases h
    obtain ⟨q', hq', hsame⟩ := Option.map_eq_some_iff.mp hrequest
    cases hsame
    exact hq'
  · cases h

theorem status_received {code : ℕ} {id : ClientId} {name rest : Bytes} {n : ℕ}
    (hcode : code = invalidCrcResendRequest ∨ code = invalidCrcAbort)
    (hne : (crcStatusRequestMessage code id (nameField name) ++ rest).take n ≠ []) :
    let r := received .reading
      (.chunk ((crcStatusRequestMessage code id (nameField name) ++ rest).take n))
    (∃ refused, r = .malformed refused) ∨ (∃ q, r = .parsed (.crcAbort q)) ∨
      ∃ q, r = .parsed (.crcResend q) ∧ q.clientID = id ∧
        fieldText (nameField name).val = some q.fileName := by
  have hlt : code < 256 ^ 2 := by rcases hcode with rfl | rfl <;> decide
  have hlength := length_statusMessage code id (nameField name)
  have hmessage : requestCode (crcStatusRequestMessage code id (nameField name)) = code :=
    requestCode_crcStatus hlt id _
  dsimp only
  rw [received_front hne]
  cases hr : Received.ofData
      ((crcStatusRequestMessage code id (nameField name) ++ rest).take n) with
  | malformed refused => exact .inl ⟨refused, rfl⟩
  | parsed q =>
    right
    obtain ⟨header, hheader, hsame⟩ := parsed_code hr
    rw [code_of_front hlength rest hheader, hmessage] at hsame
    cases q with
    | crcAbort q => exact .inl ⟨q, rfl⟩
    | crcResend q =>
      have hq := status_of_take (status_of_parsed hr)
      rw [unpack_crcStatusRequest id name rest hlt] at hq
      obtain ⟨text, htext, rfl⟩ := Option.map_eq_some_iff.mp hq
      exact .inr ⟨_, rfl, rfl, htext⟩
    | registration q => rcases hcode with rfl | rfl <;> cases hsame
    | publicKey q => rcases hcode with rfl | rfl <;> cases hsame
    | sendFile q => rcases hcode with rfl | rfl <;> cases hsame
    | crcValid q => rcases hcode with rfl | rfl <;> cases hsame
  | partly f =>
    obtain ⟨header, hheader, hsend⟩ := code_of_partly hr
    rw [code_of_front hlength rest hheader, hmessage] at hsend
    rcases hcode with rfl | rfl <;> cases hsend
  | endOfStream =>
    rcases ofData_cases ((crcStatusRequestMessage code id (nameField name) ++ rest).take n) with
      hrequest | ⟨f, hf⟩
    · rw [hr] at hrequest
      cases hrequest
    · cases hr.symm.trans hf
  | failure =>
    rcases ofData_cases ((crcStatusRequestMessage code id (nameField name) ++ rest).take n) with
      hrequest | ⟨f, hf⟩
    · rw [hr] at hrequest
      cases hrequest
    · cases hr.symm.trans hf

structure Spent (py : PyCrypto) (content : Bytes) (a : Answer) : Prop where
  noFile : isFile a = false
  retry : sendsCrc a = true → isRetry a = true
  same : ∀ r ∈ a.2.sent, r.code = msgReceivedCrc → Tells py content r ∨ r = .emptyCrcValue

theorem sendsCrc_false {a : Answer} (h : ∀ r ∈ a.2.sent, r = .registrationFailed) :
    sendsCrc a = false := by
  unfold sendsCrc
  rw [List.any_eq_false]
  intro r hr
  rw [h r hr]
  decide

theorem crcResend_told {w : World} {handled : Option Request} {q : CrcStatusRequest}
    (hcontent : ContentIs w q.clientID q.fileName content)
    (hk : Known (Turn.start w env) q.header.clientID) (hok : env.sendOk = true) :
    ∃ r ∈ (settle env w handled (crcResend py env q)).sent, r.code = msgReceivedCrc := by
  have hrun := crcResend_known py env hk
  split at hrun
  · rw [Prog.run_bind, write_run, if_pos hok] at hrun
    rw [settle_value env hrun]
    dsimp only
    rw [if_pos ⟨rfl, hok⟩]
    exact ⟨.emptyCrcValue, List.mem_append_left _ (List.mem_append_right _ (by simp)), rfl⟩
  · next file hfile =>
    have hsome : file.content = some content := by
      unfold resendFile at hfile
      split at hfile
      · exact hcontent file hfile
      · cases hfile
    rw [hsome] at hrun
    rw [settle_written env hrun, hok]
    exact ⟨_, List.mem_append_right _ (List.mem_singleton_self _), rfl⟩

theorem crcResend_untold {w : World} {handled : Option Request} {q : CrcStatusRequest}
    (hno : ¬(Known (Turn.start w env) q.header.clientID ∧ env.sendOk = true)) :
    ∀ r ∈ (settle env w handled (crcResend py env q)).sent, r = .registrationFailed := by
  by_cases hk : Known (Turn.start w env) q.header.clientID
  · have hok : ¬env.sendOk = true := fun hok => hno ⟨hk, hok⟩
    have hrun := crcResend_known py env hk
    split at hrun
    · rw [Prog.run_bind, write_run, if_neg hok] at hrun
      rw [settle_hangs env hrun]
      exact List.forall_mem_nil _
    · next file hfile =>
      split at hrun
      · rw [settle_raised env hrun]
        exact List.forall_mem_nil _
      · rw [settle_written env hrun]
        dsimp only
        rw [if_neg hok]
        exact List.forall_mem_nil _
  · rw [settle_refused env (crcResend_unknown py env hk)]
    dsimp only
    split
    · simp [Turn.start, Turn.pop]
    · exact List.forall_mem_nil _

/-- A 1105 is answered with a 2103 when its client is found and the socket takes it. -/
theorem crcResend_sendsCrc {w : World} {q : CrcStatusRequest} {received : Received}
    (hcontent : ContentIs w q.clientID q.fileName content) :
    sendsCrc (received, settle env w (some (.crcResend q)) (handle py env (.crcResend q))) = true ↔
      Known (Turn.start w env) q.header.clientID ∧ env.sendOk = true := by
  constructor
  · intro hsends
    by_contra hno
    have hsilent := @crcResend_untold py env w (some (.crcResend q)) q hno
    rw [sendsCrc_false hsilent] at hsends
    cases hsends
  · rintro ⟨hk, hok⟩
    obtain ⟨r, hr, hcode⟩ :=
      @crcResend_told py content env w (some (.crcResend q)) q hcontent hk hok
    exact List.any_eq_true.mpr ⟨r, hr, decide_eq_true hcode⟩

theorem status_spent {w : World} {received : Received} {id : ClientId} {name : Bytes}
    (hfinds : Finds content id name w)
    (hreceived : (∃ refused, received = .malformed refused) ∨
      (∃ q, received = .parsed (.crcAbort q)) ∨ ∃ q, received = .parsed (.crcResend q) ∧
        q.clientID = id ∧ fieldText (nameField name).val = some q.fileName) :
    Settles (fun w' r => Tells py content r ∧ Finds content id name w')
        (ServerThread.react py env w received) ∧
      Spent py content (received, ServerThread.react py env w received) := by
  have hrefused : ∀ (received : Received) (out : ReadStep),
      isFile (received, out) = false → (∀ r ∈ out.sent, r = .registrationFailed) →
      Spent py content (received, out) := by
    intro received out hfile hsent
    refine ⟨hfile, ?_, ?_⟩
    · rw [sendsCrc_false hsent]
      exact nofun
    · intro r hr hcode
      rw [hsent r hr] at hcode
      cases hcode
  rcases hreceived with ⟨refused, rfl⟩ | ⟨q, rfl⟩ | ⟨q, rfl, rfl, htext⟩
  · obtain ⟨-, -, hsent⟩ := react_malformed py env w refused
    exact ⟨malformed_settles refused, hrefused _ _ rfl hsent⟩
  · have hrun : (handle py env (.crcAbort q)).run (Turn.start w env) =
        (.raised .attributeError, (Turn.start w env).pop) := crcAbort_run q _
    refine ⟨settles_raised hrun rfl, hrefused _ _ rfl ?_⟩
    unfold ServerThread.react
    dsimp only
    rw [settle_raised env hrun]
    exact List.forall_mem_nil _
  · have hcontent := hfinds q.fileName htext
    have hsettles := @crcResend_settles py env w (some (.crcResend q)) q content hcontent
    constructor
    · refine hsettles.mono ?_
      rintro w' r ⟨htells, hfound⟩
      refine ⟨htells, fun text htext' => ?_⟩
      cases htext.symm.trans htext'
      exact hfound
    · refine ⟨rfl, fun _ => rfl, fun r hr hcode => ?_⟩
      rcases hsettles with ⟨-, hsent⟩ | ⟨-, r', hsent, htells, -⟩
      · rcases hsent r hr with rfl | rfl
        · cases hcode
        · exact .inr rfl
      · have hsame : r ∈ [r'] := hsent ▸ hr
        rw [List.mem_singleton.mp hsame]
        exact .inl htells

variable {p p' : Logged} {e : Event} {r : RecvResult} {rest : Bytes}

theorem recvs_unique {r' : RecvResult} {rest' : Bytes} {env' : Env} (h : Recvs p e r rest env)
    (h' : Recvs p e r' rest' env') : r' = r ∧ rest' = rest ∧ env' = env := by
  cases e with
  | read fails beyond delivered => exact h.elim
  | recv n env =>
    obtain ⟨rfl, rfl, rfl, -⟩ := h
    obtain ⟨rfl, rfl, rfl, -⟩ := h'
    exact ⟨rfl, rfl, rfl⟩
  | recvEnds env =>
    obtain ⟨rfl, rfl, rfl, -⟩ := h
    obtain ⟨rfl, rfl, rfl, -⟩ := h'
    exact ⟨rfl, rfl, rfl⟩
  | recvRaises env =>
    obtain ⟨rfl, rfl, rfl⟩ := h
    obtain ⟨rfl, rfl, rfl⟩ := h'
    exact ⟨rfl, rfl, rfl⟩

/-- What a step adds to the answers, and whether it answers a 1105 with a 2103. -/
def Adds (py : PyCrypto) (content : Bytes) (p : Logged) (e : NoisyEvent) (p' : Logged) : Prop :=
  ∃ added, p'.2.answers = p.2.answers ++ added ∧ (∀ a ∈ added, Spent py content a) ∧
    ((∀ a ∈ added, sendsCrc a = false) ↔ Unanswered p e)

theorem adds_nothing {e : NoisyEvent} (h : p'.2.answers = p.2.answers) (hno : Unanswered p e) :
    Adds py content p e p' :=
  ⟨[], by rw [h, List.append_nil], List.forall_mem_nil _, iff_of_true (List.forall_mem_nil _) hno⟩

theorem quiet_adds (hrecvs : Recvs p e r rest env)
    (hquiet : isRequest (received p.1.thread r) = false) :
    Adds py content p (.quiet e)
      (Transfer.serve py { p.1 with toServer := rest } r env, p.2.serves py p.1 r env) := by
  apply adds_nothing
  · dsimp only
    rw [Log.serves, hquiet, if_neg Bool.false_ne_true]
  · intro r' rest' env' q hrecvs' hq
    obtain ⟨rfl, -, -⟩ := recvs_unique hrecvs hrecvs'
    rw [hq] at hquiet
    cases hquiet

theorem status_adds {id : ClientId} {name : Bytes} (hawaits : p.1.thread.awaits = true)
    (hrecvs : Recvs p e r rest env) (hfinds : Finds content id name p.1.world)
    (hreceived : (∃ refused, received p.1.thread r = .malformed refused) ∨
      (∃ q, received p.1.thread r = .parsed (.crcAbort q)) ∨
      ∃ q, received p.1.thread r = .parsed (.crcResend q) ∧ q.clientID = id ∧
        fieldText (nameField name).val = some q.fileName) :
    Adds py content p (.quiet e)
      (Transfer.serve py { p.1 with toServer := rest } r env, p.2.serves py p.1 r env) := by
  have hspent := (@status_spent py content env _ _ _ _ hfinds hreceived).2
  have hrequest : isRequest (received p.1.thread r) = true := by
    rcases hreceived with ⟨refused, h⟩ | ⟨q, h⟩ | ⟨q, h, -⟩ <;> rw [h] <;> rfl
  have hout := readStep_eq_react py env p.1.world hawaits r
  refine ⟨[(received p.1.thread r, readStep py env p.1.world p.1.thread r)], ?_, ?_, ?_⟩
  · dsimp only
    rw [Log.serves, if_pos hrequest]
  · intro a ha
    rw [List.mem_singleton.mp ha, hout]
    exact hspent
  · simp only [List.mem_singleton, forall_eq]
    rw [hout]
    constructor
    · intro hsilent r' rest' env' q hrecvs' hq hanswered
      obtain ⟨rfl, -, rfl⟩ := recvs_unique hrecvs hrecvs'
      rw [hq] at hsilent hreceived
      rcases hreceived with ⟨_, h⟩ | ⟨_, h⟩ | ⟨q', h, hid, htext⟩
      · cases h
      · cases h
      · cases h
        have hcontent := hfinds q.fileName htext
        rw [← hid] at hcontent
        have hsends := (@crcResend_sendsCrc py content env' _ q (.parsed (.crcResend q))
          hcontent).mpr hanswered
        cases hsilent.symm.trans hsends
    · intro hno
      by_contra hsends
      rw [Bool.not_eq_false] at hsends
      rcases hreceived with ⟨refused, h⟩ | ⟨q, h⟩ | ⟨q, h, hid, htext⟩
      · have hretry := hspent.retry hsends
        rw [h] at hretry
        cases hretry
      · have hretry := hspent.retry hsends
        rw [h] at hretry
        cases hretry
      · have hcontent := hfinds q.fileName htext
        rw [← hid] at hcontent
        rw [h] at hsends
        exact hno r rest env q hrecvs h ((crcResend_sendsCrc hcontent).mp hsends)

theorem quiet_ends (hthread : p.1.thread = .reading) (hr : r = .raises ∨ r = .chunk []) :
    isRequest (received p.1.thread r) = false ∧
      ∃ control, readStep py env p.1.world p.1.thread r = .quiet p.1.world control ∧
        control.awaits = false := by
  rw [hthread]
  refine ⟨?_, readStep_ended py env p.1.world hr⟩
  rcases hr with rfl | rfl
  · rfl
  · rfl

theorem status_serves {code n : ℕ} {id : ClientId} {name rest' : Bytes}
    (hcode : code = invalidCrcResendRequest ∨ code = invalidCrcAbort)
    (hawaits : p.1.thread.awaits = true) (hthread : p.1.thread = .reading)
    (hserver : p.1.toServer = (crcStatusRequestMessage code id (nameField name) ++ rest').take n)
    (hfinds : Finds content id name p.1.world) (hrecvs : Recvs p e r rest env)
    (htakes : TakesRest p.1 e) :
    Adds py content p (.quiet e)
        (Transfer.serve py { p.1 with toServer := rest } r env, p.2.serves py p.1 r env) ∧
      ((readStep py env p.1.world p.1.thread r).control.awaits = false ∧
          (∀ response ∈ (readStep py env p.1.world p.1.thread r).sent, GivesUp response) ∨
        (readStep py env p.1.world p.1.thread r).control = .reading ∧ rest = [] ∧
          ∃ response, (readStep py env p.1.world p.1.thread r).sent = [response] ∧
            Tells py content response ∧
            Finds content id name (readStep py env p.1.world p.1.thread r).world) := by
  have hcases : (r = .raises ∨ r = .chunk []) ∨
      ((∃ refused, received p.1.thread r = .malformed refused) ∨
        (∃ q, received p.1.thread r = .parsed (.crcAbort q)) ∨
        ∃ q, received p.1.thread r = .parsed (.crcResend q) ∧ q.clientID = id ∧
          fieldText (nameField name).val = some q.fileName) := by
    cases e with
    | read fails beyond delivered => exact hrecvs.elim
    | recv m env' =>
      obtain ⟨-, rfl, -, hpos, hle⟩ := hrecvs
      right
      have hne : p.1.toServer.take m ≠ [] := by
        apply List.ne_nil_of_length_pos
        rw [List.length_take]
        omega
      rw [hserver, List.take_take] at hne
      rw [hthread, hserver, List.take_take]
      exact status_received hcode hne
    | recvEnds env' => exact .inl (.inr hrecvs.2.1)
    | recvRaises env' => exact .inl (.inl hrecvs.2.1)
  rcases hcases with hr | hreceived
  · obtain ⟨hquiet, control, hout, hended⟩ := @quiet_ends py env p r hthread hr
    refine ⟨quiet_adds hrecvs hquiet, .inl ?_⟩
    rw [hout]
    exact ⟨hended, List.forall_mem_nil _⟩
  · refine ⟨status_adds hawaits hrecvs hfinds hreceived, ?_⟩
    rw [readStep_eq_react py env p.1.world hawaits r]
    rcases (@status_spent py content env _ _ _ _ hfinds hreceived).1 with
      hends | ⟨hcontrol, response, hsent, htells, hfinds'⟩
    · exact .inl hends
    · refine .inr ⟨hcontrol, ?_, response, hsent, htells, hfinds'⟩
      rcases hreceived with ⟨refused, h⟩ | ⟨q, h⟩ | ⟨q, h, -⟩
      · have hends := (react_malformed py env p.1.world refused).1
        rw [h] at hcontrol
        rw [hcontrol] at hends
        cases hends
      · exact rest_of_takes htakes hrecvs h
      · exact rest_of_takes htakes hrecvs h

theorem spoilt_serve (h : Spoilt py content p.1) (hstep : LoggedStep cpp py p e p')
    (hread : ∀ fails beyond delivered, e ≠ .read fails beyond delivered)
    (htakes : TakesRest p.1 e) :
    Spoilt py content p'.1 ∧ Adds py content p (.quiet e) p' := by
  obtain ⟨hawaits, r, rest, env, hrecvs, rfl⟩ := logged_serve hstep hread
  have hafter := @TransferIntegrity.serve_after py p.1 rest r env
  have hrest : AtRest p.1 → p.1.thread = .reading ∧ (r = .raises ∨ r = .chunk []) := by
    rintro (⟨hthread, hempty⟩ | hdead)
    · refine ⟨hthread, ?_⟩
      cases e with
      | read fails beyond delivered => exact hrecvs.elim
      | recv n env' =>
        obtain ⟨-, -, -, hpos, hle⟩ := hrecvs
        rw [hempty, List.length_nil] at hle
        omega
      | recvEnds env' => exact .inr hrecvs.2.1
      | recvRaises env' => exact .inl hrecvs.2.1
    · rw [hdead] at hawaits
      cases hawaits
  cases h with
  | told response hatRest hclient htells hcrc hdoubts =>
    obtain ⟨hthread, hr⟩ := hrest hatRest
    obtain ⟨hquiet, control, hout, hended⟩ := @quiet_ends py env p r hthread hr
    refine ⟨.told response (.inr ?_) ?_ htells hcrc ?_, quiet_adds hrecvs hquiet⟩
    · rw [hafter.thread, hout]
      exact hended
    · rw [hafter.toClient, hout, hclient]
      exact List.append_nil _
    · refine ⟨hdoubts.awaits, hdoubts.unapproved, ?_⟩
      rw [hafter.world, hout]
      exact hdoubts.finds
  | retrying rest' hthread hserver hclient hcrc hdoubts =>
    have hfront : p.1.toServer = (crcStatusRequestMessage invalidCrcResendRequest p.1.client.id
        (nameField p.1.client.fileToSend) ++ rest').take p.1.toServer.length := by
      rw [hserver]
      exact List.take_length.symm
    obtain ⟨hadds, hserves⟩ := @status_serves py content env p e r rest _ _ _ _ _ (.inl rfl) hawaits
      hthread hfront hdoubts.finds hrecvs htakes
    refine ⟨?_, hadds⟩
    rcases hserves with ⟨hends, hsent⟩ | ⟨hcontrol, hempty, response, hsent, htells, hfinds⟩
    · refine .refused ?_ hdoubts.awaits hdoubts.unapproved ?_
      · rw [hafter.thread]
        exact hends
      · rw [hafter.toClient, hclient, List.nil_append]
        exact givesUp_harmless hsent
    · refine .told response (.inl ⟨hafter.thread.trans hcontrol, hempty⟩) ?_ htells hcrc ?_
      · rw [hafter.toClient, hclient, hsent, List.flatMap_singleton, List.nil_append]
      · refine ⟨hdoubts.awaits, hdoubts.unapproved, ?_⟩
        rw [hafter.world]
        exact hfinds
  | refused hdead =>
    rw [hdead] at hawaits
    cases hawaits
  | finished hfailed hwhere =>
    rcases hwhere with hatRest | ⟨hthread, code, id, name, rest', n, hcode, hserver, hfinds⟩
    · obtain ⟨hthread, hr⟩ := hrest hatRest
      obtain ⟨hquiet, control, hout, hended⟩ := @quiet_ends py env p r hthread hr
      refine ⟨.finished hfailed (.inl (.inr ?_)), quiet_adds hrecvs hquiet⟩
      rw [hafter.thread, hout]
      exact hended
    · obtain ⟨hadds, hserves⟩ := @status_serves py content env p e r rest _ _ _ _ _ hcode hawaits
        hthread hserver hfinds hrecvs htakes
      refine ⟨.finished hfailed (.inl ?_), hadds⟩
      rcases hserves with ⟨hends, -⟩ | ⟨hcontrol, hempty, -⟩
      · right
        rw [hafter.thread]
        exact hends
      · exact .inl ⟨hafter.thread.trans hcontrol, hempty⟩

end Serving

section Steps

variable {cpp : CppCrypto} {py : PyCrypto} {content : Bytes} {p p' : Logged} {e : NoisyEvent}

theorem requestCode_whole {data : Bytes} {n : ℕ} (h : 256 ≤ requestCode (data.take n)) :
    requestCode (data.take n) = requestCode data := by
  by_cases hn : clientIdSize + 3 ≤ n
  · unfold clientIdSize at hn
    unfold requestCode clientIdSize
    rw [slice, slice, List.drop_take, List.take_take, min_eq_left (by omega)]
  · unfold requestCode at h
    have hlt := leValue_lt (slice (data.take n) (clientIdSize + 1) 2)
    have hshort : (slice (data.take n) (clientIdSize + 1) 2).length ≤ 1 := by
      rw [length_slice, List.length_take]
      omega
    have hpow := Nat.pow_le_pow_right (by decide : 0 < 256) hshort
    omega

theorem not_garbles {stream : Bytes} (h : Spoilt py content p.1) : ¬Garbles p.1 stream := by
  rintro ⟨-, hgarbles⟩
  have hrest : AtRest p.1 → False := by
    rintro (⟨hthread, hempty⟩ | hdead)
    · rw [hthread, hempty] at hgarbles
      exact absurd hgarbles.1 (by decide)
    · split at hgarbles
      · next hthread =>
        rw [hthread] at hdead
        cases hdead
      · next hthread =>
        rw [hthread] at hdead
        cases hdead
      · exact hgarbles
  have hstatus : ∀ {code n : ℕ} {id name rest}, code = invalidCrcResendRequest ∨
      code = invalidCrcAbort → p.1.toServer =
        (crcStatusRequestMessage code id (nameField name) ++ rest).take n →
      p.1.thread = .reading → False := by
    intro code n id name rest hcode hserver hthread
    rw [hthread, hserver] at hgarbles
    have hsend := hgarbles.1
    have hlt : code < 256 ^ 2 := by rcases hcode with rfl | rfl <;> decide
    have hwhole := requestCode_whole (hsend.symm ▸ (by decide : 256 ≤ requestToSendFile))
    rw [hsend, requestCode_append (length_statusMessage code id _),
      requestCode_crcStatus hlt] at hwhole
    rcases hcode with rfl | rfl <;> cases hwhole
  cases h with
  | told r hatRest => exact hrest hatRest
  | retrying rest hthread hserver =>
    refine @hstatus invalidCrcResendRequest p.1.toServer.length p.1.client.id
      p.1.client.fileToSend rest (.inl rfl) ?_ hthread
    rw [hserver]
    exact List.take_length.symm
  | refused hdead => exact hrest (.inr hdead)
  | finished _ hwhere =>
    rcases hwhere with hatRest | ⟨hthread, code, id, name, rest, n, hcode, hserver, -⟩
    · exact hrest hatRest
    · exact hstatus hcode hserver hthread

theorem spoilt_step (h : Spoilt py content p.1) (hstep : NoisyStep cpp py p e p') :
    Spoilt py content p'.1 ∧ Adds py content p e p' := by
  cases e with
  | noise stream => exact absurd hstep.1 (not_garbles h)
  | quiet e =>
    obtain ⟨hlogged, htakes⟩ := hstep
    by_cases hread : ∃ fails beyond delivered, e = .read fails beyond delivered
    · obtain ⟨fails, beyond, delivered, rfl⟩ := hread
      obtain ⟨t, hnext, rfl⟩ := Option.map_eq_some_iff.mp hlogged
      refine ⟨spoilt_read h hnext, adds_nothing rfl ?_⟩
      exact fun _ _ _ _ hrecvs => hrecvs.elim
    · push Not at hread
      exact spoilt_serve h hlogged hread htakes

end Steps

section Runs

variable {cpp : CppCrypto} {py : PyCrypto} {content : Bytes} {p p₁ : Logged} {e : NoisyEvent}
  {q : RequestToSendFile}

theorem upload_serve (hstep : NoisyStep cpp py p e p₁) (h : Uploads py p p₁ q content) :
    ∃ e' r rest env, e = .quiet e' ∧ TakesRest p.1 e' ∧ p.1.thread.awaits = true ∧
      Recvs p e' r rest env ∧ received p.1.thread r = .parsed (.sendFile q) ∧
      p₁ = (Transfer.serve py { p.1 with toServer := rest } r env, p.2.serves py p.1 r env) ∧
      ∃ response, (readStep py env p.1.world p.1.thread r).sent = [response] ∧
        Tells py content response := by
  obtain ⟨out, hanswers, response, hsent, htells⟩ := h.handled
  have hnew : p₁.2.answers ≠ p.2.answers := by
    rw [hanswers]
    intro hsame
    exact absurd (List.append_right_eq_self.mp hsame) (List.cons_ne_nil _ _)
  cases e with
  | noise stream =>
    obtain ⟨-, rfl⟩ := hstep
    exact absurd rfl hnew
  | quiet e =>
    obtain ⟨hlogged, htakes⟩ := hstep
    by_cases hread : ∃ fails beyond delivered, e = .read fails beyond delivered
    · obtain ⟨fails, beyond, delivered, rfl⟩ := hread
      obtain ⟨-, packet, toClient, -, rfl⟩ := logged_read hlogged
      exact absurd rfl hnew
    · push Not at hread
      obtain ⟨hawaits, r, rest, env, hrecvs, rfl⟩ := logged_serve hlogged hread
      have hserves : (p.2.serves py p.1 r env).answers =
          p.2.answers ++ [(.parsed (.sendFile q), out)] := hanswers
      unfold Log.serves at hserves
      split at hserves
      · have hpair := List.singleton_inj.mp (List.append_cancel_left hserves)
        simp only [Prod.mk.injEq] at hpair
        obtain ⟨hq, rfl⟩ := hpair
        exact ⟨e, r, rest, env, rfl, htakes, hawaits, hrecvs, hq, rfl, response, hsent, htells⟩
      · exact absurd (List.append_right_eq_self.mp hserves.symm) (List.cons_ne_nil _ _)

theorem upload_spoilt (h : Early p) (hstep : NoisyStep cpp py p e p₁)
    (hupload : Uploads py p p₁ q content) (hcrc : py.crc32 content ≠ p₁.1.client.calculatedCrc) :
    Spoilt py content p₁.1 := by
  obtain ⟨e', r, rest, env, rfl, htakes, hawaits, hrecvs, hq, rfl, response, hsent, htells⟩ :=
    upload_serve hstep hupload
  have hafter := @TransferIntegrity.serve_after py p.1 rest r env
  have hempty : rest = [] := rest_of_takes htakes hrecvs hq
  have hatRest : AtRest (Transfer.serve py { p.1 with toServer := rest } r env) := by
    have hout := readStep_eq_react py env p.1.world hawaits r
    rw [hq, ServerThread.react] at hout
    obtain ⟨hyes, hno⟩ := @handle_answers py env p.1.world (some (.sendFile q)) (.sendFile q)
    by_cases hanswerable : Answerable py env p.1.world (.sendFile q)
    · left
      rw [← hout] at hyes
      exact ⟨hafter.thread.trans (hyes hanswerable).1, hempty⟩
    · right
      rw [hafter.thread, hout]
      exact hno hanswerable
  rcases h with hdead | ⟨hphase, hfailed | ⟨hrunning, hun, before, code, hwritten, hlast⟩⟩
  · rw [hdead] at hawaits
    cases hawaits
  · exact .finished hfailed (.inl hatRest)
  · obtain ⟨hcode, hclient⟩ := request_of_last hphase hrunning hwritten hawaits hrecvs hq
    have hnamed : Named p.1 := by
      rcases hlast with ⟨h, -⟩ | h | ⟨-, hnamed⟩
      · cases hcode.trans h
      · cases hcode.trans h
      · exact hnamed
    obtain ⟨hid, hname⟩ := (named_received hnamed hrecvs hawaits).1 q hq
    obtain ⟨file, hfile, hcontent⟩ := hupload.stored
    refine .told response hatRest ?_ htells hcrc ⟨?_, hun, ?_⟩
    · rw [hafter.toClient, hclient, hsent, List.flatMap_singleton, List.nil_append]
    · rw [hafter.client, hrunning]
      rfl
    · intro text htext found hfound
      cases hname.symm.trans htext
      rw [hid] at hfile
      cases hfile.symm.trans hfound
      exact hcontent

/-- Where a transfer ends up after such an upload: no file message is handled any more, each
2103 repeats the checksum or is that of a file that is not found, and the client does not
report success. -/
structure Hopeless (py : PyCrypto) (content : Bytes) (p₁ p : Logged) : Prop where
  spent : ∀ a ∈ later p₁ p, Spent py content a
  unfinished : p.1.client.control ≠ .ended false

theorem spoilt_unfinished (h : Spoilt py content p.1) : p.1.client.control ≠ .ended false := by
  intro hended
  have hidle : p.1.client.control.awaits = false := by
    rw [hended]
    rfl
  cases h with
  | told r _ _ _ _ hdoubts => exact nomatch hidle.symm.trans hdoubts.awaits
  | retrying rest _ _ _ _ hdoubts => exact nomatch hidle.symm.trans hdoubts.awaits
  | refused _ hawaits => exact nomatch hidle.symm.trans hawaits
  | finished hfailed => exact hfailed.2 hended

theorem noisy_deterministic {p' p'' : Logged} (h : NoisyStep cpp py p e p')
    (h' : NoisyStep cpp py p e p'') : p' = p'' := by
  cases e with
  | noise stream => exact h.2.trans h'.2.symm
  | quiet e => exact Option.some.inj (h.1.symm.trans h'.1)

theorem run_spoilt {es : List NoisyEvent} (h : Spoilt py content p₁.1)
    (hrun : Run (NoisyStep cpp py) p₁ es p) :
    Spoilt py content p.1 ∧ ∃ added, p.2.answers = p₁.2.answers ++ added ∧
      (∀ a ∈ added, Spent py content a) ∧ ((∀ a ∈ added, sendsCrc a = false) ↔
        Run (fun p e p' => NoisyStep cpp py p e p' ∧ Unanswered p e) p₁ es p) := by
  induction hrun with
  | nil => exact ⟨h, [], by rw [List.append_nil], List.forall_mem_nil _,
      iff_of_true (List.forall_mem_nil _) (.nil _)⟩
  | @snoc t u es e hrun hstep ih =>
    obtain ⟨hspoilt, added, hanswers, hspent, hiff⟩ := ih
    obtain ⟨hspoilt', more, hmore, hmoreSpent, hmoreIff⟩ := spoilt_step hspoilt hstep
    refine ⟨hspoilt', added ++ more, ?_, ?_, ?_⟩
    · rw [hmore, hanswers, List.append_assoc]
    · exact List.forall_mem_append.mpr ⟨hspent, hmoreSpent⟩
    · rw [List.forall_mem_append, hiff, hmoreIff]
      constructor
      · rintro ⟨hruns, hno⟩
        exact hruns.snoc ⟨hstep, hno⟩
      · intro hruns
        obtain ⟨v, hbefore, -, hno⟩ := hruns.last
        have hnoisy : Run (NoisyStep cpp py) p₁ es v := hbefore.mono And.left
        have hsame : v = t := hnoisy.deterministic hrun noisy_deterministic
        rw [hsame] at hbefore hno
        exact ⟨hbefore, hno⟩

theorem freshCrc_silent {answers : List Answer} (h : ∀ a ∈ answers, sendsCrc a = false) :
    freshCrc answers = true := by
  induction answers with
  | nil => rfl
  | cons a answers ih =>
    rw [freshCrc, h a List.mem_cons_self, ih fun b hb => h b (List.mem_cons_of_mem a hb)]
    simp

/-- When no file message is handled, only silent retries are fresh. -/
theorem retransmits_iff {answers : List Answer} (h : ∀ a ∈ answers, Spent py content a) :
    retransmits answers = true ↔ ∀ a ∈ answers, sendsCrc a = false := by
  constructor
  · intro hretransmits a ha
    by_contra hsends
    rw [Bool.not_eq_false] at hsends
    induction answers with
    | nil => cases ha
    | cons b answers ih =>
      rw [retransmits, Bool.and_eq_true] at hretransmits
      rcases List.mem_cons.mp ha with rfl | hmem
      · have hspent := h a List.mem_cons_self
        have hfresh := hretransmits.1
        rw [hspent.retry hsends, freshCrc, hspent.noFile, hsends] at hfresh
        cases hfresh
      · exact ih (fun c hc => h c (List.mem_cons_of_mem b hc)) hretransmits.2 hmem
  · intro hsilent
    induction answers with
    | nil => rfl
    | cons b answers ih =>
      rw [retransmits, freshCrc_silent hsilent, ih
        (fun c hc => h c (List.mem_cons_of_mem b hc))
        fun c hc => hsilent c (List.mem_cons_of_mem b hc)]
      simp

theorem later_eq {added : List Answer} (h : p.2.answers = p₁.2.answers ++ added) :
    later p₁ p = added := by
  rw [later, h, List.drop_left]

/-- After an upload whose stored content has another checksum nothing more helps. -/
theorem run_hopeless {name : Bytes} {id : ClientId} {publicKey : Field publicKeySize}
    {symmetricKey : Field symmetricKeySize} {fileToSend file : Bytes} {isRegistered : Bool}
    {w : World} {beyond : ℕ → UInt8} {delivered : ℕ} {p₀ : Logged} {es₀ es : List NoisyEvent}
    (hf : Formats py)
    (hbefore : Run (NoisyStep cpp py)
      (.start (.opened name id publicKey symmetricKey fileToSend file) isRegistered w beyond
        delivered) es₀ p₀)
    (hfirst : ∀ a ∈ p₀.2.answers, isFile a = false) (hstep : NoisyStep cpp py p₀ e p₁)
    (hupload : Uploads py p₀ p₁ q content) (hcrc : py.crc32 content ≠ p₁.1.client.calculatedCrc)
    (hrun : Run (NoisyStep cpp py) p₁ es p) : Hopeless py content p₁ p := by
  have hearly := run_early hf (start_early ..) hbefore hfirst
  obtain ⟨hspoilt, added, hanswers, hspent, -⟩ :=
    run_spoilt (upload_spoilt hearly hstep hupload hcrc) hrun
  refine ⟨?_, spoilt_unfinished hspoilt⟩
  rw [later_eq hanswers]
  exact hspent

/-- Main theorem: the transfer recovers from a corrupted upload as long as no 1105 is answered. -/
theorem run_recovers_iff {name : Bytes} {id : ClientId} {publicKey : Field publicKeySize}
    {symmetricKey : Field symmetricKeySize} {fileToSend file : Bytes} {isRegistered : Bool}
    {w : World} {beyond : ℕ → UInt8} {delivered : ℕ} {p₀ : Logged} {es₀ es : List NoisyEvent}
    (hf : Formats py)
    (hbefore : Run (NoisyStep cpp py)
      (.start (.opened name id publicKey symmetricKey fileToSend file) isRegistered w beyond
        delivered) es₀ p₀)
    (hfirst : ∀ a ∈ p₀.2.answers, isFile a = false) (hstep : NoisyStep cpp py p₀ e p₁)
    (hupload : Uploads py p₀ p₁ q content) (hcrc : py.crc32 content ≠ p₁.1.client.calculatedCrc)
    (hrun : Run (NoisyStep cpp py) p₁ es p) :
    Recovers p₁ p ↔ Run (fun p e p' => NoisyStep cpp py p e p' ∧ Unanswered p e) p₁ es p := by
  have hearly := run_early hf (start_early ..) hbefore hfirst
  obtain ⟨-, added, hanswers, hspent, hiff⟩ :=
    run_spoilt (upload_spoilt hearly hstep hupload hcrc) hrun
  have hlater := later_eq hanswers
  rw [← hiff, ← retransmits_iff hspent]
  constructor
  · intro h
    rw [← hlater]
    exact h.retransmits
  · intro hretransmits
    refine ⟨hlater ▸ hretransmits, ?_⟩
    -- nothing is transmitted again
    rintro ⟨a, ha, hfile, -⟩
    rw [hlater] at ha
    exact nomatch (hspent a ha).noFile.symm.trans hfile

end Runs

section Sessions

/-- The ciphertext of the samples with one flipped bit, and what the library decrypts it to. -/
def noisyCiphertext : Bytes := 0xB1 :: sampleCiphertext.tail

def noisyBlock : Bytes :=
  [0x66, 0xBA, 0xF1, 0xE1, 0xF9, 0xF1, 0x70, 0xCB, 0xD9, 0xF5, 0x6B, 0x8B, 0x58, 0x49, 0x10, 0xD3]

def noisyPy : PyCrypto where
  crc32 data := if data = noisyBlock then 370240029 else sampleCrc data
  aesCbcDecrypt key ciphertext :=
    if key = sampleKey.val ∧ ciphertext = noisyCiphertext then
      some (noisyBlock ++ 0x11 :: List.replicate 15 0x10)
    else samplePy.aesCbcDecrypt key ciphertext
  rsaOaepEncrypt := samplePy.rsaOaepEncrypt

theorem noisy_formats : Formats noisyPy where
  crc32 data := by
    unfold noisyPy
    dsimp only
    split
    · decide
    · exact sample_formats.crc32 data
  rsa := sample_formats.rsa

def serverTurn (p : Logged) : Option Logged :=
  if p.1.thread = .reading ∧ p.1.toServer.length = packetSize then
    some (Transfer.serve noisyPy { p.1 with toServer := [] } (.chunk p.1.toServer) sampleEnv,
      p.2.serves noisyPy p.1 (.chunk p.1.toServer) sampleEnv)
  else none

def clientTurn (p : Logged) : Option Logged :=
  match p.1.toClient with
  | [] => none
  | packet :: toClient =>
    if p.1.client.control.awaits then
      (Transfer.asked { p.1 with toClient } (p.1.client.receive sampleCpp (some packet))).map
        fun t => (t, p.2.reacts (some packet) (p.1.client.receive sampleCpp (some packet)))
    else none

def noiseTurn (p : Logged) : Option Logged :=
  let stream := p.1.toServer.set fileFrontSize 0xB1
  if p.1.thread = .reading ∧ requestCode p.1.toServer = requestToSendFile ∧
      stream.take fileFrontSize = p.1.toServer.take fileFrontSize then
    some ({ p.1 with toServer := stream }, p.2)
  else none

theorem serverTurn_step {p p' : Logged} (h : serverTurn p = some p') :
    NoisyStep sampleCpp noisyPy p (.quiet (.recv packetSize sampleEnv)) p' := by
  unfold serverTurn at h
  split at h
  · next henabled =>
    obtain ⟨hthread, hlength⟩ := henabled
    cases h
    have htake : p.1.toServer.take packetSize = p.1.toServer := List.take_of_length_le hlength.le
    have hdrop : p.1.toServer.drop packetSize = [] := List.drop_of_length_le hlength.le
    refine ⟨?_, fun _ _ => hdrop⟩
    have hstep : TransferStep sampleCpp noisyPy p.1 (.recv packetSize sampleEnv)
        (Transfer.serve noisyPy { p.1 with toServer := [] } (.chunk p.1.toServer) sampleEnv) := by
      unfold TransferStep Transfer.next
      dsimp only
      rw [if_pos ⟨by rw [hthread]; rfl, by decide, by rw [hthread]; exact le_rfl, hlength.ge⟩,
        htake, hdrop]
    have hlogged := logged_of_step hstep p.2
    unfold Log.next at hlogged
    dsimp only at hlogged
    rw [htake] at hlogged
    exact hlogged
  · cases h

theorem clientTurn_step {p p' : Logged} (h : clientTurn p = some p') :
    NoisyStep sampleCpp noisyPy p (.quiet (.read false (fun _ => 0) packetSize)) p' := by
  unfold clientTurn at h
  split at h
  · cases h
  · next packet toClient hpacket =>
    split at h
    · next hawaits =>
      obtain ⟨t, ht, rfl⟩ := Option.map_eq_some_iff.mp h
      refine ⟨?_, trivial⟩
      have hstep : TransferStep sampleCpp noisyPy p.1 (.read false (fun _ => 0) packetSize) t := by
        unfold TransferStep Transfer.next
        dsimp only
        rw [if_pos hawaits, if_neg Bool.false_ne_true, hpacket]
        dsimp only
        rw [asked_eq ht]
      have hlogged := logged_of_step hstep p.2
      unfold Log.next at hlogged
      dsimp only at hlogged
      rw [if_neg Bool.false_ne_true, hpacket] at hlogged
      exact hlogged
    · cases h

theorem noiseTurn_step {p p' : Logged} (h : noiseTurn p = some p') :
    NoisyStep sampleCpp noisyPy p (.noise (p.1.toServer.set fileFrontSize 0xB1)) p' := by
  unfold noiseTurn at h
  dsimp only at h
  split at h
  · next henabled =>
    obtain ⟨hthread, hcode, hfront⟩ := henabled
    cases h
    refine ⟨⟨List.length_set .., ?_⟩, rfl⟩
    rw [hthread]
    exact ⟨hcode, hfront⟩
  · cases h

def takeTurns (turns : List (Logged → Option Logged)) (p : Logged) : Option Logged :=
  turns.foldlM (fun p turn => turn p) p

theorem turns_run {turns : List (Logged → Option Logged)} {p p' : Logged}
    (hturns : ∀ turn ∈ turns, ∀ p p', turn p = some p' →
      ∃ e, NoisyStep sampleCpp noisyPy p e p')
    (h : takeTurns turns p = some p') : ∃ es, Run (NoisyStep sampleCpp noisyPy) p es p' := by
  induction turns generalizing p with
  | nil =>
    cases h
    exact ⟨[], .nil _⟩
  | cons turn turns ih =>
    obtain ⟨u, hturn, hrest⟩ := Option.bind_eq_some_iff.mp h
    obtain ⟨e, hstep⟩ := hturns turn List.mem_cons_self p u hturn
    obtain ⟨es, hrun⟩ := ih (fun turn hmem => hturns turn (List.mem_cons_of_mem _ hmem)) hrest
    exact ⟨e :: es, .cons hstep hrun⟩

theorem turn_steps {turn : Logged → Option Logged}
    (h : turn ∈ [serverTurn, clientTurn, noiseTurn]) (p p' : Logged) (hturn : turn p = some p') :
    ∃ e, NoisyStep sampleCpp noisyPy p e p' := by
  simp only [List.mem_cons, List.not_mem_nil, or_false] at h
  rcases h with rfl | rfl | rfl
  · exact ⟨_, serverTurn_step hturn⟩
  · exact ⟨_, clientTurn_step hturn⟩
  · exact ⟨_, noiseTurn_step hturn⟩

def uploadsNow (p p' : Logged) (q : RequestToSendFile) : Bool :=
  (match (readStep noisyPy sampleEnv p.1.world p.1.thread (.chunk p.1.toServer)).sent with
    | [.fileReceivedCrcValue _ _ _ crc] => crc = noisyPy.crc32 noisyBlock
    | _ => false) &&
  match getFileInstance p'.1.world q.header.clientID q.fileName with
  | some file => file.content = some noisyBlock
  | none => false

theorem uploads_of_now {p p' : Logged} {q : RequestToSendFile} (hstep : serverTurn p = some p')
    (hq : received p.1.thread (.chunk p.1.toServer) = .parsed (.sendFile q))
    (h : uploadsNow p p' q = true) : Uploads noisyPy p p' q noisyBlock := by
  unfold uploadsNow at h
  rw [Bool.and_eq_true] at h
  obtain ⟨htold, hstored⟩ := h
  constructor
  · unfold serverTurn at hstep
    split at hstep
    · cases hstep
      refine ⟨readStep noisyPy sampleEnv p.1.world p.1.thread (.chunk p.1.toServer), ?_, ?_⟩
      · unfold Log.serves
        rw [hq]
        rfl
      · split at htold
        · next id size fileName crc hsent =>
          refine ⟨_, hsent, id, size, fileName, ?_⟩
          rw [of_decide_eq_true htold]
        · cases htold
    · cases hstep
  · split at hstored
    · next file hfile => exact ⟨file, hfile, of_decide_eq_true hstored⟩
    · cases hstored

/-- A transfer whose upload is spoilt on the way, up to the answer to the first retry. -/
structure NoisySession (p₀ p₁ p : Logged) : Prop where
  before : ∃ es, Run (NoisyStep sampleCpp noisyPy)
    (.start (sampleClient sampleBlock) true .withClient (fun _ => 0) packetSize) es p₀
  first : ∀ a ∈ p₀.2.answers, isFile a = false
  step : NoisyStep sampleCpp noisyPy p₀ (.quiet (.recv packetSize sampleEnv)) p₁
  uploads : ∃ q, Uploads noisyPy p₀ p₁ q noisyBlock
  crc : noisyPy.crc32 noisyBlock ≠ p₁.1.client.calculatedCrc
  after : ∃ es, Run (NoisyStep sampleCpp noisyPy) p₁ es p
  stale : retransmits (later p₁ p) = false

def noisySession (p : Logged) : Option (Logged × Logged × Logged) :=
  (takeTurns [serverTurn, clientTurn, noiseTurn] p).bind fun p₀ =>
    (serverTurn p₀).bind fun p₁ =>
      (takeTurns [clientTurn, serverTurn] p₁).map fun p => (p₀, p₁, p)

def noisyChecks (s : Logged × Logged × Logged) : Bool :=
  !s.1.2.answers.any isFile &&
  (match received s.1.1.thread (.chunk s.1.1.toServer) with
    | .parsed (.sendFile q) => uploadsNow s.1 s.2.1 q
    | _ => false) &&
  s.2.1.1.client.calculatedCrc = 2073188163 && !retransmits (later s.2.1 s.2.2)

theorem exists_noisySession : ∃ p₀ p₁ p, NoisySession p₀ p₁ p := by
  have hout : ((Transfer.sample sampleBlock).bind fun t =>
      noisySession (t, ⟨[requestPublicKey], [], []⟩)).map noisyChecks = some true := by
    decide +kernel
  obtain ⟨⟨p₀, p₁, p⟩, hsession, hchecks⟩ := Option.map_eq_some_iff.mp hout
  obtain ⟨s, hs, hturns⟩ := Option.bind_eq_some_iff.mp hsession
  obtain ⟨_, hbefore, hturns⟩ := Option.bind_eq_some_iff.mp hturns
  obtain ⟨_, hupload, hturns⟩ := Option.bind_eq_some_iff.mp hturns
  obtain ⟨_, hafter, hsame⟩ := Option.map_eq_some_iff.mp hturns
  cases hsame
  have hstart : Logged.start (sampleClient sampleBlock) true .withClient (fun _ => 0) packetSize =
      (s, ⟨[requestPublicKey], [], []⟩) := by
    have hasked := asked_eq hs
    apply Prod.ext
    · exact hasked
    · exact start_log [0x61] sampleId samplePublicKey (filled symmetricKeySize 0) [0x78]
        sampleBlock true .withClient (fun _ => 0) packetSize
  unfold noisyChecks at hchecks
  simp only [Bool.and_eq_true, decide_eq_true_eq, Bool.not_eq_true'] at hchecks
  obtain ⟨⟨⟨hfirst, hq⟩, hcrc⟩, hstale⟩ := hchecks
  have hcomes := turns_run (fun turn hmem => turn_steps hmem) hbefore
  refine ⟨p₀, p₁, p, ?_, ?_, serverTurn_step hupload, ?_, ?_, ?_, hstale⟩
  · rw [hstart]
    exact hcomes
  · intro a ha
    exact Bool.eq_false_iff.mpr (List.any_eq_false.mp hfirst a ha)
  · split at hq
    · next q hreceived => exact ⟨q, uploads_of_now hupload hreceived hq⟩
    · cases hq
  · rw [hcrc]
    decide
  · refine turns_run (fun turn hmem => turn_steps ?_) hafter
    simp only [List.mem_cons, List.not_mem_nil, or_false] at hmem ⊢
    rcases hmem with h | h
    · exact .inr (.inl h)
    · exact .inl h

/-- The upload of the samples with one flipped bit: it recovers only in runs that answer no
1105. -/
theorem run_recovers_iff_noisy : ∃ p₀ p₁ p es, NoisySession p₀ p₁ p ∧ (Recovers p₁ p ↔
    Run (fun p e p' => NoisyStep sampleCpp noisyPy p e p' ∧ Unanswered p e) p₁ es p) := by
  obtain ⟨p₀, p₁, p, h⟩ := exists_noisySession
  obtain ⟨es₀, hbefore⟩ := h.before
  obtain ⟨q, huploads⟩ := h.uploads
  obtain ⟨es, hafter⟩ := h.after
  exact ⟨p₀, p₁, p, es, h,
    run_recovers_iff noisy_formats hbefore h.first h.step huploads h.crc hafter⟩

/-- The client asks for a retry, and the server tells the checksum of the stored file again. -/
theorem not_recovers_noisy : ¬∀ (cpp : CppCrypto) (py : PyCrypto) (name : Bytes) (id : ClientId)
    (publicKey : Field publicKeySize) (symmetricKey : Field symmetricKeySize)
    (fileToSend file : Bytes) (isRegistered : Bool) (w : World) (beyond : ℕ → UInt8)
    (delivered : ℕ) (es₀ es : List NoisyEvent) (e : NoisyEvent) (p₀ p₁ p : Logged)
    (q : RequestToSendFile) (content : Bytes), Formats py →
    Run (NoisyStep cpp py) (.start (.opened name id publicKey symmetricKey fileToSend file)
      isRegistered w beyond delivered) es₀ p₀ →
    (∀ a ∈ p₀.2.answers, isFile a = false) → NoisyStep cpp py p₀ e p₁ →
    Uploads py p₀ p₁ q content → py.crc32 content ≠ p₁.1.client.calculatedCrc →
    Run (NoisyStep cpp py) p₁ es p → Recovers p₁ p := by
  intro hall
  obtain ⟨p₀, p₁, p, h⟩ := exists_noisySession
  obtain ⟨es₀, hbefore⟩ := h.before
  obtain ⟨q, huploads⟩ := h.uploads
  obtain ⟨es, hafter⟩ := h.after
  have hrecovers := hall _ _ _ _ _ _ _ _ _ _ _ _ _ _ _ _ _ _ _ _ noisy_formats hbefore h.first
    h.step huploads h.crc hafter
  exact nomatch h.stale.symm.trans hrecovers.retransmits

end Sessions

end CorruptedUpload
