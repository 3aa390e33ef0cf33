import PbsGui.Client.StreamFeed
import PbsGui.Relay.Agent

/-!
# A relay backup from the statement to the commit

`relay::backup::backup_database_to_pbs` issues the `BACKUP` statement on the
proxy while the agent drains the virtual device and the proxy uploads what
arrives.  Four tasks on two machines take part.

The end of the stream on the proxy is decided by the agent's `End` frame, whose
verdict is that of the device loop.  The statement's outcome only decides whether
chain metadata is sent to the uploader.
-/

namespace PbsGui.Relay

open Lib Client List

/-- The completion codes the device loop reports. -/
inductive CompletionCode
  | success
  | writeFault
  | notSupported
  deriving DecidableEq

/-- Where the device session stands. -/
inductive DrainStage
  | creating
  | opening
  | draining (total : UInt64)
  | completing (total : UInt64) (code : CompletionCode)
  | finished (result : Except String UInt64)

/-- The device session; `closed` is set when SQL Server has closed the device
(`VD_E_CLOSE`), and no step reads it. -/
structure VdiDevice where
  stage : DrainStage
  closed : Bool

def VdiDevice.new : VdiDevice := { stage := .creating, closed := false }

/-- `relay_backup_device`: create the device set, then `drain_device`. -/
inductive VdiRunner (device : VdiDevice) : DeviceEvent → VdiDevice → Prop
  | initFailed (text : String) (hstage : device.stage = .creating) :
      VdiRunner device .working { device with stage := .finished (.error text) }
  | createFailed (text : String) (hstage : device.stage = .creating) :
      VdiRunner device (.ready (.error ("VDI CreateEx failed: " ++ text)))
        { device with stage := .finished (.error ("VDI CreateEx failed: " ++ text)) }
  | created (hstage : device.stage = .creating) :
      VdiRunner device (.ready (.ok ())) { device with stage := .opening }
  | openFailed (text : String) (hstage : device.stage = .opening) :
      VdiRunner device .working { device with stage := .finished (.error text) }
  | opened (hstage : device.stage = .opening) :
      VdiRunner device .working { device with stage := .draining 0 }
  | cancelled {total : UInt64} (hstage : device.stage = .draining total) :
      VdiRunner device .working { device with stage := .finished (.error "backup cancelled") }
  -- the loop polls with a timeout, to notice a cancel request
  | timedOut {total : UInt64} (hstage : device.stage = .draining total) :
      VdiRunner device .working device
  | closed {total : UInt64} (hstage : device.stage = .draining total) :
      -- `VD_E_CLOSE` is the only good end, whatever becomes of the statement
      VdiRunner device .working { stage := .finished (.ok total), closed := true }
  | getFailed {total : UInt64} (text : String) (hstage : device.stage = .draining total) :
      VdiRunner device .working
        { device with stage := .finished (.error ("VDI GetCommand failed: " ++ text)) }
  | wrote {total : UInt64} (data : Bytes) (hstage : device.stage = .draining total) :
      VdiRunner device (.sent data)
        { device with
          stage := .completing (total + UInt64.ofNat data.length) .success }
  | writeRefused {total : UInt64} (hstage : device.stage = .draining total) :
      VdiRunner device .sendRefused { device with stage := .completing total .writeFault }
  /-- `VDC_FLUSH` and `VDC_CLEAR_ERROR`, which do nothing on a channel sink. -/
  | acknowledged {total : UInt64} (hstage : device.stage = .draining total) :
      VdiRunner device .working { device with stage := .completing total .success }
  | unsupported {total : UInt64} (hstage : device.stage = .draining total) :
      VdiRunner device .working { device with stage := .completing total .notSupported }
  | completed {total : UInt64} {code : CompletionCode}
      (hstage : device.stage = .completing total code) :
      VdiRunner device .working
        { device with
          stage := if code = .writeFault then
            .finished (.error "failed writing backup data to the sink")
          else
            .draining total }
  | completeFailed {total : UInt64} {code : CompletionCode} (text : String)
      (hstage : device.stage = .completing total code) :
      VdiRunner device .working
        { device with stage := .finished (.error ("VDI CompleteCommand failed: " ++ text)) }
  | returned {result : Except String UInt64} (hstage : device.stage = .finished result) :
      VdiRunner device (.returned result) device

/-- A device loop that is done without an error has seen the device close. -/
def VdiDevice.Ok (device : VdiDevice) : Prop :=
  ∀ total, device.stage = .finished (.ok total) → device.closed = true

theorem VdiRunner.ok {device after : VdiDevice} {event : DeviceEvent}
    (hstep : VdiRunner device event after) (h : device.Ok) : after.Ok := by
  intro total hfin
  cases hstep with
  | closed => rfl
  | timedOut | returned => exact h total hfin
  | @completed _ code hstage => cases code <;> exact nomatch hfin
  | _ => exact nomatch hfin

/-! ### The whole backup -/

/-- The `BACKUP` statement the proxy issued. -/
inductive Statement
  | issued
  | succeeded
  | failed (text : String)

def metaBlobName : String := "meta.json.blob"

/-- Everything that feeds the proxy's reader.  `arrived` holds all the bytes that
have reached the proxy; no step reads it beyond what is in flight. -/
structure RelayEnv where
  agent : AgentSession VdiDevice
  arrived : Bytes
  pump : Pump
  statement : Statement
  catalog : Catalog

def Pump.extend (more : Bytes) : Pump → Pump
  | .reading rest => .reading (rest ++ more)
  | .sending payload rest => .sending payload (rest ++ more)
  | .returned => .returned

/-- The steps of everything but the uploader.  A pump that waits for more bytes
may find the connection cut or failed at any time. -/
inductive RelayEnvStep (codec : ControlCodec) (env : RelayEnv)
    (stream : VerdictStream UInt8 IoError) :
    RelayEnv → VerdictStream UInt8 IoError → Prop
  | agent {agent : AgentSession VdiDevice} (hstep : AgentStep codec VdiRunner env.agent agent) :
      RelayEnvStep codec env stream { env with agent := agent } stream
  | arrive {more : Bytes} (hwire : env.arrived ++ more <+: env.agent.wire) :
      RelayEnvStep codec env stream
        { env with arrived := env.arrived ++ more, pump := env.pump.extend more } stream
  | pump (tail : StreamTail) {after : RelaySession}
      (hstep : PumpStep codec tail { pump := env.pump, stream := stream } after) :
      RelayEnvStep codec env stream { env with pump := after.pump } after.stream
  | succeeded (hstatement : env.statement = .issued) :
      RelayEnvStep codec env stream { env with statement := .succeeded } stream
  /-- The failed statement ends its task, which drops the metadata sender. -/
  | failed (text : String) (hstatement : env.statement = .issued) :
      RelayEnvStep codec env stream
        { env with statement := .failed text, catalog := .dropped } stream
  | metadataSent (content : Bytes) (hstatement : env.statement = .succeeded)
      (hpending : env.catalog = .pending) :
      RelayEnvStep codec env stream
        { env with catalog := .sent metaBlobName content } stream
  | metadataFailed (hstatement : env.statement = .succeeded) (hpending : env.catalog = .pending) :
      RelayEnvStep codec env stream { env with catalog := .dropped } stream

theorem RelayEnvStep.produces {codec : ControlCodec} {env env' : RelayEnv}
    {stream stream' : VerdictStream UInt8 IoError}
    (hstep : RelayEnvStep codec env stream env' stream') :
    stream' = stream ∨ stream.Produces dataQueue stream' := by
  cases hstep with
  | pump tail hpump => exact hpump.produces
  | _ => exact .inl rfl

/-- What stands behind the proxy's `RelayRead`. -/
def relayProducer (codec : ControlCodec) : StreamProducer RelayEnv where
  capacity := dataQueue
  failure := relayReadFailure
  catalog := RelayEnv.catalog
  step := RelayEnvStep codec
  produces _ _ _ _ hstep := hstep.produces

/-- The state in which the proxy issues the statement and starts the upload: the
agent's data connection is bound to the session. -/
def RelayEnv.start (agent : AgentSession VdiDevice) : RelayEnv :=
  { agent := agent, arrived := [], pump := .reading [], statement := .issued
    catalog := .pending }

/-- What the pump has made of the bytes that have arrived. -/
def Pump.Parsed (codec : ControlCodec) (arrived : Bytes)
    (stream : VerdictStream UInt8 IoError) : Pump → Prop
  | .reading rest =>
    (∀ payload ∈ stream.sent, payload.length ≤ maxFrame) ∧
      stream.channel.verdict = .pending ∧
      arrived = stream.sent.flatMap (rawFrame kindData) ++ rest
  | .sending payload rest =>
    (∀ payload ∈ stream.sent, payload.length ≤ maxFrame) ∧ payload.length ≤ maxFrame ∧
      stream.channel.verdict = .pending ∧
      arrived = stream.sent.flatMap (rawFrame kindData) ++ (rawFrame kindData payload ++ rest)
  | .returned => ∀ ok, stream.channel.verdict = .sent ok →
      EndedStream codec arrived stream.sent ok

/-- What holds of everything behind the reader in every run. -/
structure RelayEnvInv (codec : ControlCodec) (env : RelayEnv)
    (stream : VerdictStream UInt8 IoError) : Prop where
  agent : AgentInv codec env.agent
  device : env.agent.device.Ok
  thread : ∀ total, env.agent.thread = .returned (.ok total) → env.agent.device.closed = true
  arrived : env.arrived <+: env.agent.wire
  pump : env.pump.Parsed codec env.arrived stream
  catalog : env.catalog ≠ .pending → env.statement ≠ .issued

section Invariant

variable {codec : ControlCodec} {env env' : RelayEnv}
  {stream stream' : VerdictStream UInt8 IoError}

/-- All that a step of the agent can do to the device loop, its thread and the
connection. -/
theorem agentStep_effect {agent after : AgentSession VdiDevice}
    (hstep : AgentStep codec VdiRunner agent after) (hok : agent.device.Ok)
    (hthr : ∀ total, agent.thread = .returned (.ok total) → agent.device.closed = true) :
    after.device.Ok ∧
      (∀ total, after.thread = .returned (.ok total) → after.device.closed = true) ∧
      agent.wire <+: after.wire := by
  cases hstep with
  | forward hstep =>
    -- The forwarding task does not touch the device.
    have hsame : after.device = agent.device ∧ after.thread = agent.thread := by
      cases hstep <;> exact ⟨rfl, rfl⟩
    refine ⟨hsame.1 ▸ hok, ?_, ?_⟩
    · rw [hsame.1, hsame.2]
      exact hthr
    · cases hstep <;> first | exact prefix_refl _ | exact prefix_append _ _
  | device hstep =>
    have hwire := hstep.effect.wire
    have hrun := hstep.effect.running
    refine ⟨?_, ?_, hwire ▸ prefix_refl _⟩
    · cases hstep with
      | working _ hrunner | ready _ _ hrunner | sent _ _ _ _ hrunner | sendRefused _ _ hrunner
      | dropSender _ hrunner | returned _ hrunner | panicked _ hrunner => exact hrunner.ok hok
    · intro total hret
      cases hstep with
      -- The thread returns what the device loop returned, and that is a success only on a close.
      | returned _ hrunner =>
        cases hret
        cases hrunner with
        | returned hstage => exact hok total hstage
      | panicked => exact nomatch hret
      | _ => exact nomatch hrun.symm.trans hret

theorem Pump.Parsed.extend {pump : Pump} {arrived more : Bytes}
    (h : pump.Parsed codec arrived stream) :
    (pump.extend more).Parsed codec (arrived ++ more) stream := by
  cases pump with
  | reading =>
    obtain ⟨hsizes, hpend, harr⟩ := h
    exact ⟨hsizes, hpend, by rw [harr, append_assoc]⟩
  | sending =>
    obtain ⟨hsizes, hsize, hpend, harr⟩ := h
    exact ⟨hsizes, hsize, hpend, by simp only [harr, append_assoc]⟩
  | returned => exact fun ok hverd => (h ok hverd).mono (prefix_append _ _)

theorem Pump.Parsed.step {tail : StreamTail} {session after : RelaySession} {arrived : Bytes}
    (h : session.pump.Parsed codec arrived session.stream)
    (hstep : PumpStep codec tail session after) :
    after.pump.Parsed codec arrived after.stream := by
  cases hstep with
  | receive hpump hact =>
    rw [hpump] at h
    obtain ⟨hsizes, hpend, harr⟩ := h
    obtain ⟨hsize, rfl⟩ := pumpAction_forward_iff.mp hact
    exact ⟨hsizes, hsize, hpend, harr⟩
  | @forward payload rest hpump hopen hroom =>
    rw [hpump] at h
    obtain ⟨hsizes, hsize, hpend, harr⟩ := h
    refine ⟨?_, hpend, ?_⟩
    · intro other hother
      rcases mem_append.mp hother with hold | hnew
      · exact hsizes other hold
      · rw [mem_singleton.mp hnew]
        exact hsize
    · rw [harr]
      simp [VerdictStream.send]
  | ended hpump hact =>
    rw [hpump] at h
    obtain ⟨hsizes, _, harr⟩ := h
    obtain ⟨json, rest, error, hsize, hjson, rfl⟩ := pumpAction_ended_iff.mp hact
    intro ok hverd
    cases hverd
    exact ⟨hsizes, json, rest, error, hsize, hjson, harr⟩
  | stopped hpump =>
    rw [hpump] at h
    intro ok hverd
    cases h.2.1.symm.trans hverd
  | dropData hpump =>
    simp only [hpump] at h ⊢
    exact h
  | dropDone hpump =>
    simp only [hpump]
    intro ok hverd
    cases hverd

theorem Pump.Parsed.congr {pump : Pump} {arrived : Bytes} (hsent : stream'.sent = stream.sent)
    (hverd : stream'.channel.verdict = stream.channel.verdict)
    (h : pump.Parsed codec arrived stream) : pump.Parsed codec arrived stream' := by
  cases pump <;> simpa only [Pump.Parsed, hsent, hverd] using h

theorem RelayEnvInv.step (h : RelayEnvInv codec env stream)
    (hstep : RelayEnvStep codec env stream env' stream') : RelayEnvInv codec env' stream' := by
  cases hstep with
  | agent hagent =>
    obtain ⟨hdev, hthr, hwire⟩ := agentStep_effect hagent h.device h.thread
    exact ⟨h.agent.step hagent, hdev, hthr, h.arrived.trans hwire, h.pump, h.catalog⟩
  | arrive hwire => exact ⟨h.agent, h.device, h.thread, hwire, h.pump.extend, h.catalog⟩
  | pump tail hpump => exact ⟨h.agent, h.device, h.thread, h.arrived, h.pump.step hpump, h.catalog⟩
  | succeeded _ | failed _ _ =>
    exact ⟨h.agent, h.device, h.thread, h.arrived, h.pump, nofun⟩
  | metadataSent _ hstmt _ | metadataFailed hstmt _ =>
    exact ⟨h.agent, h.device, h.thread, h.arrived, h.pump,
      (fun _ hiss => nomatch hstmt.symm.trans hiss)⟩

theorem RelayEnvInv.closed (h : RelayEnvInv codec env stream) (hcodec : codec.Lawful)
    (hverd : stream.channel.verdict = .sent true) : env.agent.device.closed = true := by
  have hparse := h.pump
  -- Only a pump that has returned can have sent a verdict.
  have hended : EndedStream codec env.arrived stream.sent true := by
    cases hpump : env.pump with
    | returned =>
      rw [hpump] at hparse
      exact hparse true hverd
    | reading =>
      rw [hpump] at hparse
      exact nomatch hverd.symm.trans hparse.2.1
    | sending =>
      rw [hpump] at hparse
      exact nomatch hverd.symm.trans hparse.2.2.1
  obtain ⟨-, error, hagent⟩ := h.agent.endedStream hcodec (hended.mono h.arrived)
  obtain ⟨⟨total, hret⟩, -⟩ := h.agent.ended_ok hagent
  exact h.thread total hret

end Invariant

section Runs

variable {codec : ControlCodec} {cfg : UploadConfig} {agent : AgentSession VdiDevice}
  {state : UploadSystem (StreamSource RelayEnv)}

theorem RelayEnvInv.start (hagent : AgentReaches codec VdiRunner VdiDevice.new agent) :
    RelayEnvInv codec (RelayEnv.start agent) .new := by
  have hdev : agent.device.Ok ∧
      ∀ total, agent.thread = .returned (.ok total) → agent.device.closed = true := by
    induction hagent with
    | refl => exact ⟨nofun, nofun⟩
    | tail _ hlast ih =>
      obtain ⟨hok, hthr, -⟩ := agentStep_effect hlast ih.1 ih.2
      exact ⟨hok, hthr⟩
  exact ⟨hagent.inv, hdev.1, hdev.2, nil_prefix, ⟨nofun, rfl, rfl⟩, (fun h => absurd rfl h)⟩

/-- The run of a relay backup from the statement on. -/
def RelayBackupReaches (codec : ControlCodec) (cfg : UploadConfig)
    (agent : AgentSession VdiDevice) (state : UploadSystem (StreamSource RelayEnv)) : Prop :=
  UploadReaches cfg (relayProducer codec).feed (StreamSource.new (RelayEnv.start agent)) state

theorem RelayBackupReaches.env (hagent : AgentReaches codec VdiRunner VdiDevice.new agent)
    (hrun : RelayBackupReaches codec cfg agent state) :
    RelayEnvInv codec state.feed.source.env state.feed.source.stream := by
  refine UploadReaches.producer_invariant (RelayEnvInv.start hagent)
    (fun _ _ _ _ h hstep => h.step hstep) (fun _ _ _ h hsent hverd => ?_) hrun
  exact ⟨h.agent, h.device, h.thread, h.arrived, h.pump.congr hsent hverd, h.catalog⟩

theorem RelayBackupReaches.finish (hcodec : codec.Lawful)
    (hagent : AgentReaches codec VdiRunner VdiDevice.new agent)
    (hrun : RelayBackupReaches codec cfg agent state) (hfin : state.up.Issued cfg .finish) :
    state.feed.source.env.agent.device.closed = true ∧
      state.feed.source.env.statement ≠ .issued := by
  have henv := hrun.env hagent
  obtain ⟨hexit, -⟩ := hrun.inv.issued hfin (.inl rfl)
  obtain ⟨-, hverd, -⟩ := hrun.streamFeed.whole hexit
  refine ⟨henv.closed hcodec hverd, henv.catalog ?_⟩
  refine UploadReaches.catalog_settled (fun env stream env' stream' hstep hsett => ?_) hrun ?_
  · cases hstep with
    | failed | metadataSent | metadataFailed => exact nofun
    | _ => exact hsett
  · rcases hfin with ⟨reply, hmem⟩ | ⟨next, hpend⟩
    · exact .inr ⟨reply, hmem⟩
    · exact .inl (Upload.pendingRequest_afterCatalog hpend (.inr rfl))

/-- SQL Server has closed the device as it does at the end of a backup, and yet
the statement has failed. -/
def RelayEnv.ClosedThoughFailed (env : RelayEnv) : Prop :=
  env.agent.device.closed = true ∧ ∃ text, env.statement = .failed text

/-- In every run in which SQL Server never closes the device normally for a
statement that fails, the snapshot is finished only if the statement succeeded. -/
theorem relayBackup_finish_only_after_success (hcodec : codec.Lawful)
    (hagent : AgentReaches codec VdiRunner VdiDevice.new agent)
    (hrun : Relation.ReflTransGen
      (fun before after => SystemStep cfg (relayProducer codec).feed before after ∧
        ¬ after.feed.source.env.ClosedThoughFailed)
      (UploadSystem.initial (StreamSource.new (RelayEnv.start agent))) state)
    (hfinish : state.up.Issued cfg .finish) :
    state.feed.source.env.statement = .succeeded := by
  have hplain : RelayBackupReaches codec cfg agent state :=
    hrun.lift id fun _ _ hstep => hstep.1
  have hhonest : ¬ state.feed.source.env.ClosedThoughFailed := by
    refine @Transition.invariant_of_reachable _ _
      (fun state : UploadSystem (StreamSource RelayEnv) =>
        ¬ state.feed.source.env.ClosedThoughFailed) _ _
      ?_ (fun _ _ _ hstep => hstep.2) hrun
    rintro ⟨-, text, hfailed⟩
    exact nomatch hfailed
  obtain ⟨hclosed, hsettled⟩ := hplain.finish hcodec hagent hfinish
  cases hstatement : state.feed.source.env.statement with
  | succeeded => rfl
  | issued => exact absurd hstatement hsettled
  | failed text => exact absurd ⟨hclosed, text, hstatement⟩ hhonest

end Runs

/-! ### A run

The device hands over `ab` and is closed by SQL Server; the agent reports a whole
stream. -/

/-- The agent once its data connection is bound. -/
def sampleAgent : AgentSession VdiDevice :=
  { AgentSession.new { VdiDevice.new with stage := .opening } with
    ready := .sent (.ok ()), phase := .streaming }

theorem sampleAgent_reached : AgentReaches sampleCodec VdiRunner VdiDevice.new sampleAgent :=
  .head (.device (.ready rfl rfl (.created rfl))) <|
  .head (.forward (.readied rfl rfl)) <|
  .head (.forward (.dialed rfl)) <|
  .head (.forward (.greeted rfl)) .refl

theorem sampleRelay_reads : ∃ source : StreamSource RelayEnv,
    Relation.ReflTransGen (relayProducer sampleCodec).feed.Idle
      (StreamSource.new (RelayEnv.start sampleAgent)) source ∧
      source.pending = [97, 98] ∧ source.eof = true ∧ source.stream.call = none ∧
      source.env.statement = .issued ∧ source.env.catalog = .pending := by
  have hwrite : writeData [97, 98] = .ok (rawFrame kindData [97, 98]) := rfl
  have hdata : pumpAction sampleCodec .eof (rawFrame kindData [97, 98]) =
      .forward [97, 98] [] :=
    pumpAction_forward_iff.mpr ⟨by decide, (append_nil _).symm⟩
  exact ⟨_,
    .head (.quiet ⟨_, _, .agent (.device (.working rfl (.opened rfl))), rfl⟩) <|
    .head (.quiet ⟨_, _, .agent (.device
      (.sent rfl rfl rfl (by decide) (.wrote [97, 98] rfl))), rfl⟩) <|
    .head (.quiet ⟨_, _, .agent (.device (.working rfl (.completed rfl))), rfl⟩) <|
    .head (.quiet ⟨_, _, .agent (.forward (.wrote rfl rfl hwrite)), rfl⟩) <|
    .head (.quiet ⟨_, _, .arrive (prefix_refl (rawFrame kindData [97, 98])), rfl⟩) <|
    .head (.quiet ⟨_, _, .pump .eof (.receive rfl hdata), rfl⟩) <|
    .head (.quiet ⟨_, _, .pump .eof (.forward rfl rfl (by decide)), rfl⟩) <|
    .head (.quiet ⟨_, _, .agent (.device (.working rfl (.closed rfl))), rfl⟩) <|
    .head (.quiet ⟨_, _, .agent (.device (.returned rfl (.returned rfl))), rfl⟩) <|
    .head (.quiet ⟨_, _, .agent (.forward (.channelClosed rfl rfl rfl)), rfl⟩) <|
    .head (.quiet ⟨_, _, .agent (.forward (.joined rfl rfl)), rfl⟩) <|
    .head (.quiet ⟨_, _, .agent (.forward
      (.ended rfl sampleCodec_end (prefix_refl _) nofun)), rfl⟩) <|
    .head (.quiet ⟨_, _, .arrive (prefix_refl
      (rawFrame kindData [97, 98] ++ rawFrame kindControl sampleEndJson)), rfl⟩) <|
    .head (.quiet ⟨_, _, .pump .eof (.ended rfl sampleEnd_read rfl), rfl⟩) <|
    .head (.quiet ⟨_, _, .pump .eof (.dropData rfl rfl), rfl⟩) <|
    .head (.read (.startRead 8 (by decide) rfl rfl)) <|
    .head (.read (.pulled rfl rfl)) <|
    .head (.read (.filled rfl rfl)) <|
    .head (.read (.startRead 6 (by decide) rfl rfl)) <|
    .head (.read (.filled rfl rfl)) <|
    .refl, rfl, rfl, rfl, rfl, rfl⟩

/-- Whatever becomes of the statement after that, the uploader finishes the
snapshot once the metadata sender is gone. -/
theorem sampleRelay_finishes {statement : Statement}
    (hstmt : ∀ source : StreamSource RelayEnv, source.env.statement = .issued →
      source.env.catalog = .pending →
      Relation.ReflTransGen (relayProducer sampleCodec).feed.Idle source
        { source with env := { source.env with statement := statement, catalog := .dropped } }) :
    ∃ state, RelayBackupReaches sampleCodec sampleConfig sampleAgent state ∧
      Event.request .finish (.ok ()) ∈ state.up.trace ∧
      state.feed.source.env.statement = statement := by
  obtain ⟨source, hidle, hpend, heof, hcall, hiss, hcat⟩ := sampleRelay_reads
  have hall := hidle.trans (hstmt source hiss hcat)
  obtain ⟨state, hrun, hlast, -, htrace⟩ := sampleRun_of_feed hall
    ⟨hcall, [98], hpend, rfl⟩ ⟨hcall, [], rfl, rfl⟩ (ChunkerEnds.finished hcall heof rfl)
    (.inr rfl)
  refine ⟨state, hrun, ?_, by rw [hlast]⟩
  rw [htrace]
  simp [sampleTrace]

/-- A failed statement commits: SQL Server closes the device, the agent reports a
whole stream, the statement then fails, and the snapshot is finished. -/
theorem relayBackup_finish_after_failure : ∃ state,
    AgentReaches sampleCodec VdiRunner VdiDevice.new sampleAgent ∧
      RelayBackupReaches sampleCodec sampleConfig sampleAgent state ∧
      Event.request .finish (.ok ()) ∈ state.up.trace ∧
      state.feed.source.env.statement =
        .failed "BACKUP DATABASE is terminating abnormally." := by
  obtain ⟨state, hrun, hfinish, hfailed⟩ :=
    sampleRelay_finishes fun source hissued hcatalog =>
      .single (.quiet ⟨_, _, .failed "BACKUP DATABASE is terminating abnormally." hissued, rfl⟩)
  exact ⟨state, sampleAgent_reached, hrun, hfinish, hfailed⟩

variable {codec : ControlCodec}

theorem failed_stays {cfg : UploadConfig} {state after : UploadSystem (StreamSource RelayEnv)}
    {text : String} (hstep : SystemStep cfg (relayProducer codec).feed state after)
    (hfail : state.feed.source.env.statement = .failed text) :
    after.feed.source.env.statement = .failed text := by
  cases hstep with
  | upload => exact hfail
  | read _ _ hread => cases hread <;> exact hfail
  | ends _ _ hends => cases hends <;> exact hfail
  | chunk _ _ _ _ hchunk =>
    obtain ⟨_, rest, _, rfl⟩ := hchunk
    exact hfail
  | quiet hquiet =>
    obtain ⟨env, stream, henv, rfl⟩ := hquiet
    cases henv with
    | succeeded hiss | failed other hiss => exact nomatch hfail.symm.trans hiss
    | _ => exact hfail

/-- The same run with a statement that succeeds. -/
theorem sampleRelay_succeeded : ∃ state,
    RelayBackupReaches sampleCodec sampleConfig sampleAgent state ∧
      Event.request .finish (.ok ()) ∈ state.up.trace ∧
      state.feed.source.env.statement = .succeeded := by
  obtain ⟨state, hrun, hfinish, hsucceeded⟩ :=
    sampleRelay_finishes fun source hissued hcatalog =>
      .head (.quiet ⟨_, _, .succeeded hissued, rfl⟩) <|
      .single (.quiet ⟨_, _, .metadataFailed rfl hcatalog, rfl⟩)
  refine ⟨state, hrun, hfinish, ?_⟩
  have hhonest := Transition.avoids_of_stays
    (fun state => ∃ text, state.feed.source.env.statement = .failed text)
    (fun _ _ hstep => Exists.imp fun _ => failed_stays hstep) (by simp [hsucceeded]) hrun
  exact relayBackup_finish_only_after_success sampleCodec_lawful sampleAgent_reached
    (hhonest.lift id fun _ _ hstep => ⟨hstep.1, fun h => hstep.2 h.2⟩)
    (.inl ⟨_, hfinish⟩)

end PbsGui.Relay
