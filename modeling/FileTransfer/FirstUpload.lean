import FileTransfer.Lockstep
import FileTransfer.TransferIntegrity

/-! # The first upload of a transfer

Up to the first file message, with noise on its way to the server. -/
namespace FirstUpload

open ByteField ServerProtocol ServerState ServerHandlers ServerThread ClientChannel ClientLogic
  MessageRoundTrip StepRun TransferSession ClientDialogue RequestAnswers Lockstep
open TransferIntegrity (AtRest)
open ClientLogic.Client (Unapproved Failed Harmless fileMessage)

section Definitions

inductive NoisyEvent where
  | quiet (e : Event)
  | noise (stream : Bytes)

def fileFrontSize : ℕ := requestHeaderSize + 4 + fileNameSize

def Garbles (t : Transfer) (stream : Bytes) : Prop :=
  stream.length = t.toServer.length ∧ match t.thread with
    | .reading => requestCode t.toServer = requestToSendFile ∧
        stream.take fileFrontSize = t.toServer.take fileFrontSize
    | .receiving _ => True
    | _ => False

/-- A recv result that completes a request takes the rest of its message. -/
def TakesRest (t : Transfer) : Event → Prop
  | .recv n _ => ∀ q, received t.thread (.chunk (t.toServer.take n)) = .parsed q →
      t.toServer.drop n = []
  | _ => True

variable (cpp : CppCrypto) (py : PyCrypto)

def NoisyStep (p : Logged) (e : NoisyEvent) (p' : Logged) : Prop :=
  match e with
  | .quiet e => LoggedStep cpp py p e p' ∧ TakesRest p.1 e
  | .noise stream => Garbles p.1 stream ∧ p' = ({ p.1 with toServer := stream }, p.2)

abbrev Answer := Received × ReadStep

def isFile (a : Answer) : Bool :=
  match a.1 with
  | .parsed (.sendFile _) => true
  | _ => false

end Definitions

section Names

variable {c : Client} {p p' : Logged} {e : Event} {r : RecvResult} {rest : Bytes} {env : Env}

theorem rest_of_takes {q : Request} (htakes : TakesRest p.1 e) (hrecvs : Recvs p e r rest env)
    (hq : received p.1.thread r = .parsed q) : rest = [] := by
  cases e with
  | read fails beyond delivered => exact hrecvs.elim
  | recv n env' =>
    obtain ⟨-, rfl, rfl, -⟩ := hrecvs
    exact htakes q hq
  | recvEnds env' =>
    obtain ⟨-, -, rfl, -, hempty⟩ := hrecvs
    exact hempty
  | recvRaises env' =>
    obtain ⟨-, rfl, -⟩ := hrecvs
    cases hthread : p.1.thread <;> rw [hthread] at hq <;> cases hq

def FileOf (c : Client) (id : ClientId) (fileName : Text) : Prop :=
  id = c.id ∧ fieldText (nameField c.fileToSend).val = some fileName

def Fronts (c : Client) (stream : Bytes) : Prop :=
  slice stream 0 clientIdSize = c.id.val ∧
    slice stream (requestHeaderSize + 4) fileNameSize = (nameField c.fileToSend).val

theorem fronts_take {stream stream' : Bytes} (h : Fronts c stream)
    (hsame : stream'.take fileFrontSize = stream.take fileFrontSize) : Fronts c stream' := by
  have hslice : ∀ {off len}, off + len ≤ fileFrontSize →
      slice stream' off len = slice stream off len := by
    intro off len hle
    have htake : ∀ data : Bytes, slice (data.take fileFrontSize) off len = slice data off len := by
      intro data
      rw [slice, slice, List.drop_take, List.take_take, min_eq_left (by omega)]
    rw [← htake stream', hsame, htake]
  unfold Fronts
  rw [hslice (by decide), hslice (by decide)]
  exact h

theorem fronts_fileMessage (cpp : CppCrypto) (c : Client) (rest : Bytes) :
    Fronts c (fileMessage cpp c ++ rest) := by
  unfold fileMessage requestToSendFileMessage
  constructor
  · simp only [requestHeader, List.append_assoc]
    exact slice_front _ _ c.id.property
  · rw [List.append_assoc]
    apply slice_payload
    · rw [length_leBytes]
    · exact (nameField c.fileToSend).property

theorem begin_names {stream : Bytes} {n : ℕ} {f : PartialFile} (hfronts : Fronts c stream)
    (h : RequestToSendFile.begin (stream.take n) = some f) :
    FileOf c f.header.clientID f.fileName := by
  unfold RequestToSendFile.begin at h
  obtain ⟨header, hheader, h⟩ := Option.bind_eq_some_iff.mp h
  obtain ⟨contentSize, -, h⟩ := Option.bind_eq_some_iff.mp h
  obtain ⟨fileNameData, hname, h⟩ := Option.bind_eq_some_iff.mp h
  obtain ⟨fileName, htext, h⟩ := Option.bind_eq_some_iff.mp h
  obtain ⟨-, -, h⟩ := Option.bind_eq_some_iff.mp h
  obtain ⟨fileContent, -, h⟩ := Option.bind_eq_some_iff.mp h
  cases h
  unfold RequestHeader.unpack at hheader
  obtain ⟨clientID, hid, hheader⟩ := Option.bind_eq_some_iff.mp hheader
  obtain ⟨headerData, -, hheader⟩ := Option.bind_eq_some_iff.mp hheader
  cases hheader
  have hid' := exactly_eq_some.mp (exactly_slice_take hid)
  have hname' := exactly_eq_some.mp (exactly_slice_take hname)
  constructor
  · apply Subtype.ext
    exact hid'.symm.trans hfronts.1
  · rw [← hfronts.2, hname']
    exact htext

theorem ofData_file {data : Bytes} {q : RequestToSendFile}
    (h : Received.ofData data = .parsed (.sendFile q)) :
    ∃ f, RequestToSendFile.begin data = some f ∧ q = f.request := by
  obtain ⟨header, hheader, hcode⟩ := parsed_code h
  have hsend : header.code = requestToSendFile := hcode
  unfold Received.ofData at h
  rw [hheader] at h
  dsimp only at h
  rw [if_pos hsend] at h
  split at h
  · cases h
  · next f hf =>
    unfold Received.ofFile at h
    split at h
    · cases h
      exact ⟨f, hf, rfl⟩
    · cases h

theorem ofData_partly {data : Bytes} {f : PartialFile} (h : Received.ofData data = .partly f) :
    RequestToSendFile.begin data = some f := by
  obtain ⟨header, hheader, hsend⟩ := code_of_partly h
  unfold Received.ofData at h
  rw [hheader] at h
  dsimp only at h
  rw [if_pos hsend] at h
  split at h
  · cases h
  · next f' hf =>
    unfold Received.ofFile at h
    split at h
    · cases h
    · cases h
      exact hf

end Names

section Early

/-- The file message is on its way, or a part of it was read. -/
structure Named (t : Transfer) : Prop where
  asking : t.thread = .reading → Fronts t.client t.toServer
  receiving : ∀ f, t.thread = .receiving f → FileOf t.client f.header.clientID f.fileName

/-- A client that has not yet read an answer to its file message. -/
structure Uploading (p : Logged) : Prop where
  running : p.1.client.control = .running
  unapproved : p.1.client.Unapproved
  last : ∃ before code, p.2.written = before ++ [code] ∧
    (code = requestRegistration ∧ p.1.client.messageQueue.tail = [] ∨ code = requestPublicKey ∨
      code = requestToSendFile ∧ Named p.1)

/-- A transfer in which no file message was handled yet, as long as the thread goes on. -/
def Early (p : Logged) : Prop :=
  p.1.thread.awaits = false ∨ Phase p ∧ (p.1.client.Failed ∨ Uploading p)

variable {cpp : CppCrypto} {py : PyCrypto} {c : Client} {p p' : Logged} {packet : Bytes}
  {env : Env}

theorem last_eq {last : List (Received × ReadStep)} {before : List ℕ} {code code' : ℕ}
    (h : Waits p code last) (hwritten : p.2.written = before ++ [code']) : code = code' := by
  obtain ⟨pairs, hpairs, -⟩ := h.paired
  have hsame := hpairs.symm.trans hwritten
  exact (List.append_inj' hsame rfl).2 |> List.singleton_inj.mp

theorem noise_writes {m stream : Bytes} {beyond : ℕ → UInt8}
    (h : stream.length = (writePackets m beyond).flatten.length) :
    ∃ beyond', stream = (writePackets (stream.take m.length) beyond').flatten := by
  have hflat := flatten_writePackets m beyond
  rw [hflat, List.length_append, List.length_map, List.length_range] at h
  have hlength : (stream.take m.length).length = m.length := by
    rw [List.length_take]
    omega
  refine ⟨fun i => (stream.drop m.length).getD i 0, ?_⟩
  rw [flatten_writePackets, hlength]
  nth_rewrite 1 [← List.take_append_drop m.length stream]
  congr 1
  apply List.ext_getElem
  · rw [List.length_drop, List.length_map, List.length_range]
    omega
  · intro i h₁ h₂
    rw [List.getElem_map, List.getElem_range, List.getElem_eq_getD]

theorem noise_phase {stream : Bytes} (h : Phase p) (hgarbles : Garbles p.1 stream) :
    Phase ({ p.1 with toServer := stream }, p.2) := by
  obtain ⟨hlength, hgarbles⟩ := hgarbles
  cases h with
  | asking m beyond hthread hserver hclient hm hwaits =>
    rw [hthread] at hgarbles
    rw [hserver] at hlength
    obtain ⟨beyond', hstream⟩ := noise_writes hlength
    have hfront : requestHeaderSize ≤ m.length := hm.1
    have htake : (stream.take m.length).length = m.length := by
      rw [List.length_take, hlength, flatten_writePackets, List.length_append]
      omega
    have hsame : requestCode (stream.take m.length) = requestCode m := by
      rw [requestCode_take hfront,
        ← requestCode_take (by decide : requestHeaderSize ≤ fileFrontSize) stream, hgarbles.2,
        requestCode_take (by decide), hserver, flatten_writePackets, requestCode_append hfront]
    refine .asking (stream.take m.length) beyond' hthread hstream hclient ⟨?_, ?_⟩ ?_
    · rwa [htake]
    · rw [hsame]
      exact hm.2
    · rw [hsame]
      exact ⟨hwaits.awaits, hwaits.queue, hwaits.paired⟩
  | receiving f hthread hclient hwaits =>
    exact .receiving f hthread hclient ⟨hwaits.awaits, hwaits.queue, hwaits.paired⟩
  | answered q out r hthread hclient hone hcode hsent hwaits =>
    rcases hthread with ⟨hthread, hempty⟩ | hdead
    · rw [hthread, hempty] at hgarbles
      exact absurd hgarbles.1 (by decide)
    · exact .answered q out r (.inr hdead) hclient hone hcode hsent
        ⟨hwaits.awaits, hwaits.queue, hwaits.paired⟩
  | mute code hdead hclient hwaits =>
    exact .mute code hdead hclient ⟨hwaits.awaits, hwaits.queue, hwaits.paired⟩
  | ended hended hpaired => exact .ended hended hpaired

theorem noise_early {stream : Bytes} (h : Early p) (hgarbles : Garbles p.1 stream) :
    Early ({ p.1 with toServer := stream }, p.2) := by
  rcases h with hdead | ⟨hphase, hclient⟩
  · exact .inl hdead
  · refine .inr ⟨noise_phase hphase hgarbles, hclient.imp_right ?_⟩
    rintro ⟨hrunning, hun, before, code, hwritten, hlast⟩
    refine ⟨hrunning, hun, before, code, hwritten, ?_⟩
    rcases hlast with hregistration | hkey | ⟨hfile, hnamed⟩
    · exact .inl hregistration
    · exact .inr (.inl hkey)
    · refine .inr (.inr ⟨hfile, ?_, hnamed.receiving⟩)
      intro hthread
      have hgarbles' := hgarbles.2
      have hreading : p.1.thread = .reading := hthread
      rw [hreading] at hgarbles'
      exact fronts_take (hnamed.asking hthread) hgarbles'.2

theorem receive_key (haccepts : readAccepts packet = true) (hlength : headerSize ≤ packet.length)
    (hcontrol : c.control = .running) (hcode : responseCode packet = publicKeyReceived) :
    (c.receive cpp (some packet)).1.Failed ∨
      (c.receive cpp (some packet)).1.control = .running ∧
        (c.receive cpp (some packet)).2 =
          some (fileMessage cpp (c.receive cpp (some packet)).1) := by
  obtain ⟨hopen, rest, hdata⟩ := Client.buffered_accepted haccepts c
  have hcode' := (header_copied hlength (getHeader packet) rest).1.trans hcode
  rw [Client.receive_running hcontrol, Client.dispatch_publicKey hdata hcode']
  unfold Client.handelSymmetricKeyResponseFromServer
  dsimp only
  split
  · exact .inl (Client.failed_atLoopHead ⟨rfl, nofun⟩)
  · generalize hset : ({ Client.popFront _ with symmetricKey := _ } : Client) = c'
    have hopen' : c'.isOpen = true := by
      rw [← hset]
      exact hopen
    obtain ⟨hsent, hlost | ⟨hrunning, -, -, hmessage⟩⟩ :=
      @Client.sendEncryptedFile_open cpp c' hopen'
    · rw [Client.atLoopHead_open hsent]
      refine .inl ⟨?_, ?_⟩
      · rw [hlost.1]
        rfl
      · rw [hlost.1]
        exact nofun
    · rw [Client.atLoopHead_open hsent]
      refine .inr ⟨?_, hmessage⟩
      rw [hrunning, ← hset]
      exact hcontrol

theorem uploading_react {t : Transfer} {log : Log} {r : Reaction} {m : Bytes}
    {beyond : ℕ → UInt8} {delivered : ℕ} (hrunning : r.1.control = .running)
    (hun : r.1.Unapproved) (hm : r.2 = some m)
    (hlast : requestCode m = requestRegistration ∧ r.1.messageQueue.tail = [] ∨
      requestCode m = requestPublicKey ∨ requestCode m = requestToSendFile ∧
        ∀ rest, Fronts r.1 (m ++ rest))
    (hthread : t.thread = .reading ∧ t.toServer = []) :
    (t.react r beyond delivered).client.Failed ∨ Uploading (t.react r beyond delivered,
      { log with written := log.written ++ (r.2.map requestCode).toList }) := by
  unfold Transfer.react
  rw [hm]
  dsimp only
  split
  · left
    apply Client.writeFailed_failed
    rw [hrunning]
    exact nofun
  · next hall =>
    right
    refine ⟨hrunning, hun, log.written, requestCode m, rfl, ?_⟩
    rcases hlast with hregistration | hkey | ⟨hfile, hfronts⟩
    · exact .inl hregistration
    · exact .inr (.inl hkey)
    · refine .inr (.inr ⟨hfile, fun _ => ?_, fun f hf => ?_⟩)
      · dsimp only
        rw [hthread.2, List.nil_append, List.take_of_length_le (by omega), flatten_writePackets]
        exact hfronts _
      · exact nomatch hthread.1.symm.trans hf

theorem answered_uploading {t : Transfer} {log : Log} {q : Request} {out : ReadStep}
    {beyond : ℕ → UInt8} {delivered : ℕ} (hrunning : t.client.control = .running)
    (hun : t.client.Unapproved) (hlength : packet.length = packetSize)
    (hnone : isFile (.parsed q, out) = false)
    (hresponse : successOf (codeOf q) = some (responseCode packet))
    (hlast : codeOf q = requestRegistration ∧ t.client.messageQueue.tail = [] ∨
      codeOf q = requestPublicKey ∨ codeOf q = requestToSendFile)
    (hthread : t.thread = .reading ∧ t.toServer = []) :
    (t.react (t.client.receive cpp (some packet)) beyond delivered).client.Failed ∨
      Uploading (t.react (t.client.receive cpp (some packet)) beyond delivered,
        log.reacts (some packet) (t.client.receive cpp (some packet))) := by
  have hawaits : t.client.control.awaits = true := by
    rw [hrunning]
    rfl
  have hheader : headerSize ≤ packet.length := by
    rw [hlength]
    decide
  cases haccepts : readAccepts packet with
  | false =>
    left
    apply failed_react
    apply (@Client.receive_fails cpp _ hawaits hun (some packet) _).2
    rintro _ ⟨⟩
    exact haccepts
  | true =>
    have hgoes : ∀ {m}, responseCode packet ≠ msgReceived →
        (t.client.receive cpp (some packet)).1.Failed ∨
          (t.client.receive cpp (some packet)).1.control = .running ∧
            (t.client.receive cpp (some packet)).2 = some m →
        (requestCode m = requestPublicKey ∨ requestCode m = requestToSendFile ∧
          ∀ rest, Fronts (t.client.receive cpp (some packet)).1 (m ++ rest)) →
        (t.react (t.client.receive cpp (some packet)) beyond delivered).client.Failed ∨
          Uploading (t.react (t.client.receive cpp (some packet)) beyond delivered,
            log.reacts (some packet) (t.client.receive cpp (some packet))) := by
      intro m hne hreads hm
      have hharmless : Harmless (some packet) := by
        rintro _ ⟨⟩
        exact ⟨hheader, hne⟩
      rcases hreads with hfailed | ⟨hcontrol, hmessage⟩
      · exact .inl (failed_react hfailed t beyond delivered)
      · exact @uploading_react t { log with read := log.read ++ [packet] } _ _ _ _ hcontrol
          (Client.receive_harmless hawaits hun hharmless).2 hmessage (.inr hm) hthread
    cases q with
    | registration q =>
      obtain ⟨-, hqueue⟩ | hkey | hfile := hlast
      · have hcode : responseCode packet = registrationSucceeded := (Option.some.inj hresponse).symm
        refine hgoes ?_ (Client.receive_registration haccepts hheader hrunning hcode hqueue)
          (.inl ?_)
        · rw [hcode]
          decide
        · exact requestCode_publicKey _ _ _
      · cases hkey
      · cases hfile
    | publicKey q =>
      have hcode : responseCode packet = publicKeyReceived := (Option.some.inj hresponse).symm
      refine hgoes ?_ (receive_key haccepts hheader hrunning hcode) (.inr ⟨?_, ?_⟩)
      · rw [hcode]
        decide
      · exact requestCode_sendFile _ _ _ _
      · exact fronts_fileMessage cpp _
    | sendFile q => cases hnone
    | crcValid q => rcases hlast with ⟨h, -⟩ | h | h <;> cases h
    | crcResend q => rcases hlast with ⟨h, -⟩ | h | h <;> cases h
    | crcAbort q => rcases hlast with ⟨h, -⟩ | h | h <;> cases h

theorem early_read {fails : Bool} {beyond : ℕ → UInt8} {delivered : ℕ} (h : Early p)
    (hstep : LoggedStep cpp py p (.read fails beyond delivered) p')
    (hnone : ∀ a ∈ p.2.answers, isFile a = false) : Early p' := by
  rcases h with hdead | ⟨hphase, hclient⟩
  · left
    obtain ⟨-, packet, toClient, -, rfl⟩ := logged_read hstep
    rwa [(react_leaves ..).1]
  · have hphase' := read_phase hphase hstep
    obtain ⟨hawaits, packet, toClient, hpacket, rfl⟩ := logged_read hstep
    rcases hclient with hfailed | ⟨hrunning, hun, before, code, hwritten, hlast⟩
    · rw [hfailed.1] at hawaits
      cases hawaits
    · have hrejected : (∀ bytes, packet = some bytes → readAccepts bytes = false) →
          Early (Transfer.react { p.1 with toClient } (p.1.client.receive cpp packet) beyond
            delivered, p.2.reacts packet (p.1.client.receive cpp packet)) := by
        intro hno
        exact .inr ⟨hphase', .inl (failed_react (Client.receive_fails hawaits hun hno).2 ..)⟩
      have hempty : packet = none → ∀ bytes, packet = some bytes → readAccepts bytes = false := by
        rintro rfl
        exact nofun
      have hsilent : p.1.toClient = [] → Early (Transfer.react { p.1 with toClient }
          (p.1.client.receive cpp packet) beyond delivered,
          p.2.reacts packet (p.1.client.receive cpp packet)) := by
        intro htoClient
        rcases hpacket with hnone' | ⟨bytes, -, hbytes⟩
        · exact hrejected (hempty hnone')
        · cases htoClient.symm.trans hbytes
      cases hphase with
      | asking m beyond' hthread hserver htoClient hm hwaits => exact hsilent htoClient
      | receiving f hthread htoClient hwaits => exact hsilent htoClient
      | mute code' hdead htoClient hwaits => exact hsilent htoClient
      | ended hended =>
        rw [hended] at hawaits
        cases hawaits
      | answered q out r hthread htoClient hone hresponse hsent hwaits =>
        rcases hpacket with hnone' | ⟨bytes, rfl, hbytes⟩
        · exact hrejected (hempty hnone')
        rcases hthread with hthread | hdead
        · have hmem : bytes ∈ responsePackets r := by
            rw [← htoClient, hbytes]
            exact List.mem_cons_self
          obtain ⟨-, hlength, hcode, -⟩ := mem_responsePackets hone hmem
          obtain rfl := last_eq hwaits hwritten
          have hnew : isFile (.parsed q, out) = false := by
            obtain ⟨pairs, -, hanswers, -⟩ := hwaits.paired
            apply hnone
            rw [hanswers]
            exact List.mem_append_right _ (List.mem_singleton_self _)
          exact .inr ⟨hphase', @answered_uploading cpp bytes { p.1 with toClient } _ _ _ _ _
            hrunning hun hlength hnew (by rwa [hcode]) (hlast.imp_right (Or.imp_right And.left))
            hthread⟩
        · left
          rwa [(react_leaves ..).1]

variable {e : Event} {r : RecvResult} {rest : Bytes}

/-- Whatever the server reads of a file message names the client and its file. -/
theorem named_received (hnamed : Named p.1) (hrecvs : Recvs p e r rest env)
    (hawaits : p.1.thread.awaits = true) :
    (∀ q, received p.1.thread r = .parsed (.sendFile q) →
      FileOf p.1.client q.header.clientID q.fileName) ∧
    ∀ f, received p.1.thread r = .partly f → FileOf p.1.client f.header.clientID f.fileName := by
  cases hthread : p.1.thread with
  | closed =>
    rw [hthread] at hawaits
    cases hawaits
  | dead e =>
    rw [hthread] at hawaits
    cases hawaits
  | spinning =>
    rw [hthread] at hawaits
    cases hawaits
  | receiving f =>
    have hfile := hnamed.receiving f hthread
    cases r with
    | raises => exact ⟨nofun, nofun⟩
    | chunk data =>
      unfold received Received.ofFile
      dsimp only
      split
      · refine ⟨fun q hq => ?_, nofun⟩
        cases hq
        exact hfile
      · refine ⟨nofun, fun f' hf => ?_⟩
        cases hf
        exact hfile
  | reading =>
    have hfronts := hnamed.asking hthread
    have hquiet : r = .raises ∨ r = .chunk [] → (∀ q, received .reading r =
        .parsed (.sendFile q) → FileOf p.1.client q.header.clientID q.fileName) ∧
        ∀ f, received .reading r = .partly f → FileOf p.1.client f.header.clientID f.fileName := by
      rintro (rfl | rfl)
      · exact ⟨nofun, nofun⟩
      · exact ⟨nofun, nofun⟩
    cases e with
    | read fails beyond delivered => exact hrecvs.elim
    | recvEnds env' => exact hquiet (.inr hrecvs.2.1)
    | recvRaises env' => exact hquiet (.inl hrecvs.2.1)
    | recv n env' =>
      obtain ⟨-, rfl, -, hpos, hle⟩ := hrecvs
      have hne : p.1.toServer.take n ≠ [] := by
        apply List.ne_nil_of_length_pos
        rw [List.length_take]
        omega
      rw [received_front hne]
      constructor
      · intro q hq
        obtain ⟨f, hf, rfl⟩ := ofData_file hq
        exact begin_names hfronts hf
      · intro f hf
        exact begin_names hfronts (ofData_partly hf)

theorem request_of_last {before : List ℕ} {code : ℕ} {q : Request} (h : Phase p)
    (hrunning : p.1.client.control = .running) (hwritten : p.2.written = before ++ [code])
    (hawaits : p.1.thread.awaits = true) (hrecvs : Recvs p e r rest env)
    (hq : received p.1.thread r = .parsed q) : codeOf q = code ∧ p.1.toClient = [] := by
  have hclient : p.1.client.control.awaits = true := by
    rw [hrunning]
    rfl
  cases h with
  | asking m beyond hthread hserver htoClient hm hwaits =>
    obtain rfl := last_eq hwaits hwritten
    exact ⟨(asks_code hrecvs hclient hthread hserver hm).1 q hq, htoClient⟩
  | receiving f hthread htoClient hwaits =>
    obtain rfl := last_eq hwaits hwritten
    exact ⟨receives_code hthread hq, htoClient⟩
  | answered q' out response hthread =>
    rcases hthread with ⟨hreading, hempty⟩ | hdead
    · cases e with
      | read fails beyond delivered => exact hrecvs.elim
      | recv n env' =>
        obtain ⟨-, -, -, hpos, hle⟩ := hrecvs
        rw [hempty, List.length_nil] at hle
        omega
      | recvEnds env' =>
        obtain ⟨-, rfl, -⟩ := hrecvs
        rw [hreading] at hq
        cases hq
      | recvRaises env' =>
        obtain ⟨-, rfl, -⟩ := hrecvs
        rw [hreading] at hq
        cases hq
    · rw [hdead] at hawaits
      cases hawaits
  | mute code' hdead =>
    rw [hdead] at hawaits
    cases hawaits
  | ended hended =>
    rw [hended] at hclient
    cases hclient

theorem early_serve (hf : Formats py) (h : Early p) (hstep : LoggedStep cpp py p e p')
    (hread : ∀ fails beyond delivered, e ≠ .read fails beyond delivered) (htakes : TakesRest p.1 e)
    (hnone : ∀ a ∈ p'.2.answers, isFile a = false) : Early p' := by
  have hwhole : Whole p.1 e := by
    cases e with
    | recv n env' => exact fun _ q hq _ => htakes q hq
    | read fails beyond delivered => trivial
    | recvEnds env' => trivial
    | recvRaises env' => trivial
  by_cases hends : p'.1.thread.awaits = false
  · exact .inl hends
  obtain ⟨hawaits, r, rest, env, hrecvs, rfl⟩ := logged_serve hstep hread
  rcases h with hdead | ⟨hphase, hclient⟩
  · rw [hdead] at hawaits
    cases hawaits
  have hphase' := (serve_phase hf hphase hstep hread hwhole).resolve_right fun h => hends h.1
  refine .inr ⟨hphase', hclient.imp_right ?_⟩
  rintro ⟨hrunning, hun, before, code, hwritten, hlast⟩
  refine ⟨hrunning, hun, before, code, (serves_written _ _ _ _).1.trans hwritten, ?_⟩
  rcases hlast with hregistration | hkey | ⟨rfl, hnamed⟩
  · exact .inl hregistration
  · exact .inr (.inl hkey)
  · refine .inr (.inr ⟨rfl, ?_⟩)
    have hafter := @TransferIntegrity.serve_after py p.1 rest r env
    have hout := readStep_eq_react py env p.1.world hawaits r
    rw [hafter.thread, hout] at hends
    cases hreceived : received p.1.thread r with
    | parsed q =>
      have hcode := (request_of_last hphase hrunning hwritten hawaits hrecvs hreceived).1
      have hnew := hnone (.parsed q, readStep py env p.1.world p.1.thread r) (by
        dsimp only
        rw [Log.serves, hreceived, if_pos (show isRequest (.parsed q) = true from rfl)]
        exact List.mem_append_right _ (List.mem_singleton_self _))
      cases q with
      | sendFile q => cases hnew
      | registration q => cases hcode
      | publicKey q => cases hcode
      | crcValid q => cases hcode
      | crcResend q => cases hcode
      | crcAbort q => cases hcode
    | malformed refused =>
      rw [hreceived] at hends
      exact absurd (react_malformed py env p.1.world refused).1 hends
    | partly f =>
      have hthread' : (Transfer.serve py { p.1 with toServer := rest } r env).thread =
          .receiving f := by
        rw [hafter.thread, hout, hreceived]
        rfl
      refine ⟨fun hthread => (nomatch hthread'.symm.trans hthread), fun f' hf' => ?_⟩
      cases hthread'.symm.trans hf'
      exact (named_received hnamed hrecvs hawaits).2 f hreceived
    | endOfStream =>
      rw [hreceived] at hends
      exact absurd rfl hends
    | failure =>
      rw [hreceived] at hends
      exact absurd rfl hends

theorem early_step (hf : Formats py) {e : NoisyEvent} (h : Early p)
    (hstep : NoisyStep cpp py p e p') (hnone : ∀ a ∈ p'.2.answers, isFile a = false) :
    Early p' := by
  cases e with
  | noise stream =>
    obtain ⟨hgarbles, rfl⟩ := hstep
    exact noise_early h hgarbles
  | quiet e =>
    obtain ⟨hlogged, htakes⟩ := hstep
    by_cases hread : ∃ fails beyond delivered, e = .read fails beyond delivered
    · obtain ⟨fails, beyond, delivered, rfl⟩ := hread
      refine early_read h hlogged fun a ha => hnone a ?_
      obtain ⟨-, packet, toClient, -, rfl⟩ := logged_read hlogged
      exact ha
    · push Not at hread
      exact early_serve hf h hlogged hread htakes hnone

theorem noisy_answers {e : NoisyEvent} (h : NoisyStep cpp py p e p') :
    p.2.answers <+: p'.2.answers := by
  cases e with
  | noise stream =>
    obtain ⟨-, rfl⟩ := h
    exact List.prefix_rfl
  | quiet e =>
    obtain ⟨hlogged, -⟩ := h
    by_cases hread : ∃ fails beyond delivered, e = .read fails beyond delivered
    · obtain ⟨fails, beyond, delivered, rfl⟩ := hread
      obtain ⟨-, packet, toClient, -, rfl⟩ := logged_read hlogged
      exact List.prefix_rfl
    · push Not at hread
      obtain ⟨-, r, rest, env, -, rfl⟩ := logged_serve hlogged hread
      dsimp only
      unfold Log.serves
      split
      · exact List.prefix_append _ _
      · exact List.prefix_rfl

theorem start_early (name : Bytes) (id : ClientId) (publicKey : Field publicKeySize)
    (symmetricKey : Field symmetricKeySize) (fileToSend file : Bytes) (isRegistered : Bool)
    (w : World) (beyond : ℕ → UInt8) (delivered : ℕ) :
    Early (.start (.opened name id publicKey symmetricKey fileToSend file) isRegistered w beyond
      delivered) := by
  refine .inr ⟨start_phase .., ?_⟩
  have hun : ∀ b, ((Client.opened name id publicKey symmetricKey fileToSend file).run
      b).1.Unapproved := by
    intro b data hdata
    cases b <;> cases hdata
  cases isRegistered with
  | true =>
    have hm : ((Client.opened name id publicKey symmetricKey fileToSend file).run true).2 =
        some (publicKeyRequestMessage id name publicKey) := rfl
    have hcode := requestCode_publicKey id name publicKey
    exact @uploading_react ⟨_, .reading, w, [], [], []⟩ ⟨[], [], []⟩ _ _ _ _ rfl (hun _) hm
      (.inr (.inl hcode)) ⟨rfl, rfl⟩
  | false =>
    have hm : ((Client.opened name id publicKey symmetricKey fileToSend file).run false).2 =
        some (registrationRequestMessage name) := rfl
    have hcode := requestCode_registration name
    have hqueue : ((Client.opened name id publicKey symmetricKey fileToSend file).run
        false).1.messageQueue.tail = [] := rfl
    have hstart := @uploading_react ⟨.opened name id publicKey symmetricKey fileToSend file,
      .reading, w, [], [], []⟩ ⟨[], [], []⟩ _ _ beyond delivered rfl (hun false) hm
      (.inl ⟨hcode, hqueue⟩) ⟨rfl, rfl⟩
    rw [List.nil_append] at hstart
    exact hstart

theorem run_early {es : List NoisyEvent} (hf : Formats py) (h : Early p)
    (hrun : Run (NoisyStep cpp py) p es p') (hnone : ∀ a ∈ p'.2.answers, isFile a = false) :
    Early p' := by
  induction hrun with
  | nil => exact h
  | snoc hrun hstep ih =>
    have hbefore := ih fun a ha => hnone a ((noisy_answers hstep).subset ha)
    exact early_step hf hbefore hstep hnone

end Early

end FirstUpload
