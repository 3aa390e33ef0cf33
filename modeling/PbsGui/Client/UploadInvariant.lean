import PbsGui.Client.UploadIndex
import PbsGui.Lib.Transition

/-!
# Invariants of the upload

What holds in every state of `SystemStep`, however the upload tasks interleave:

* `IndexInv`: the locals describe the chunks indexed so far, and these with the current one
  and the queued ones are what the source has yielded, in order;
* `TaskInv`: every indexed chunk the server did not have is in the hands of a task or has been
  uploaded, and a failed upload is remembered until the call fails;
* `CommitInv`: the index is appended, closed and finished only after all of that, in this
  order.
-/

namespace PbsGui.Client

open Lib Lib.Transition List

namespace Phase

def current : Phase → Option CurrentChunk
  | .acquiring current | .reaping current => some current
  | _ => none

/-- The current chunk once its upload task exists. -/
def spawned : Phase → List Bytes
  | .reaping current => [current.data]
  | _ => []

/-- The locals inside the loop body, from those at its beginning. -/
def adjust : Phase → LoopState → LoopState
  | .acquiring current, base => base.countNew (UInt64.ofNat current.data.length)
  | .reaping current, base => (base.countNew (UInt64.ofNat current.data.length)).countSpawned
  | _, base => base

/-- The phases that send the index and finish the snapshot. -/
def committing : Phase → Bool
  | .appending _ | .awaitingChunker | .closing | .awaitingCatalog | .sendingCatalog _ _
  | .encodingManifest | .sendingManifest _ | .finishing | .finished => true
  | _ => false

/-- The phases after the chunker thread was awaited. -/
def afterChunker : Phase → Bool
  | .closing | .awaitingCatalog | .sendingCatalog _ _ | .encodingManifest | .sendingManifest _
  | .finishing | .finished => true
  | _ => false

/-- The chunker runs and the loop is not inside its body. -/
def plain : Phase → Bool
  | .receiving | .joining => true
  | phase => phase.committing

variable {phase : Phase}

theorem plain_of_committing (h : phase.committing = true) : phase.plain = true := by
  cases phase <;> first | rfl | exact h

theorem committing_of_afterChunker (h : phase.afterChunker = true) : phase.committing = true := by
  cases phase <;> first | rfl | exact h

theorem plain_facts (h : phase.plain = true) :
    phase.started = true ∧ phase.current = none ∧ phase.spawned = [] ∧
      ∀ base, phase.adjust base = base := by
  cases phase <;>
    first | exact ⟨rfl, rfl, rfl, fun _ => rfl⟩ | exact absurd h Bool.false_ne_true

end Phase

/-- The requests of the main task, each between the phase it is sent in and the
phase a success leads to. -/
inductive Upload.Sends (cfg : UploadConfig) (up : Upload) : Phase → Request → Phase → Prop
  | append (batch : List Digest × List UInt64) (rest : List (List Digest × List UInt64)) :
      up.Sends cfg (.appending (batch :: rest)) (appendRequest up.wid batch) (.appending rest)
  | close : up.Sends cfg .closing (up.closeRequest cfg) .awaitingCatalog
  | catalog (name : String) (blob : Bytes) :
      up.Sends cfg (.sendingCatalog name blob) (.uploadBlob name blob) .encodingManifest
  | manifest (blob : Bytes) :
      up.Sends cfg (.sendingManifest blob) (.uploadBlob manifestBlobName blob) .finishing
  | finish : up.Sends cfg .finishing .finish .finished

section Pending

variable {cfg : UploadConfig} {up : Upload} {request : Request} {next : Phase}

theorem Upload.sends_of_pendingRequest (h : up.pendingRequest cfg = some (request, next)) :
    up.Sends cfg up.phase request next := by
  unfold Upload.pendingRequest at h
  split at h
  case h_6 => cases h
  all_goals
    rename_i hphase
    cases h
    rw [hphase]
    constructor

theorem Upload.pendingRequest_committing (h : up.pendingRequest cfg = some (request, next)) :
    up.phase.committing = true ∧ next.committing = true := by
  have hsends := sends_of_pendingRequest h
  generalize up.phase = phase at hsends ⊢
  cases hsends <;> exact ⟨rfl, rfl⟩

/-- The requests after the chunker was awaited lead from one such phase to the
next. -/
theorem Upload.pendingRequest_afterChunker (h : up.pendingRequest cfg = some (request, next))
    (hnext : next.afterChunker = true) : up.phase.afterChunker = true := by
  have hsends := sends_of_pendingRequest h
  generalize up.phase = phase at hsends ⊢
  cases hsends with
  | append => cases hnext
  | _ => rfl

end Pending

/-- The locals and the channel against what the source has yielded. -/
structure Upload.IndexInv (cfg : UploadConfig) (emitted : List Bytes) (up : Upload) : Prop where
  fresh : up.phase.started = false →
    emitted = [] ∧ up.queue = [] ∧ up.inflight = [] ∧ up.trace = [] ∧ up.indexed = []
  locals : up.phase.started = true → ∃ base : LoopState,
    base.Describes cfg up.known up.indexed ∧ up.locals = up.phase.adjust base
  current : ∀ chunk, up.phase.current = some chunk →
    chunk.digest = cfg.digest chunk.data ∧ chunk.digest ∉ up.known ∧
      chunk.startOffset = UInt64.ofNat (totalLength up.indexed)
  queued : ∀ item ∈ up.queue, item.1 = cfg.digest item.2
  emitted_eq : emitted = up.indexed ++ (up.phase.current.map CurrentChunk.data).toList ++
    up.queue.map Prod.snd

namespace Upload.IndexInv

variable {cfg : UploadConfig} {emitted : List Bytes} {up after : Upload}

theorem initial : Upload.initial.IndexInv cfg [] where
  fresh _ := ⟨rfl, rfl, rfl, rfl, rfl⟩
  locals h := absurd h (by decide)
  current chunk h := by simp [Upload.initial, Phase.current] at h
  queued item h := by simp [Upload.initial] at h
  emitted_eq := rfl

variable (h : up.IndexInv cfg emitted)

include h

theorem describes (hplain : up.phase.plain = true) :
    up.locals.Describes cfg up.known up.indexed := by
  obtain ⟨hstart, -, -, hadjust⟩ := Phase.plain_facts hplain
  obtain ⟨base, hbase, hlocals⟩ := h.locals hstart
  rw [hlocals, hadjust]
  exact hbase

theorem of_plain (hfrom : up.phase.plain = true) (hto : after.phase.plain = true)
    (hknown : after.known = up.known) (hlocals : after.locals = up.locals)
    (hqueue : after.queue = up.queue) (hidx : after.indexed = up.indexed) :
    after.IndexInv cfg emitted := by
  obtain ⟨-, hcur, -, -⟩ := Phase.plain_facts hfrom
  obtain ⟨hstart, hcur', -, hadjust⟩ := Phase.plain_facts hto
  refine ⟨fun hfresh => ?_, fun _ => ?_, fun chunk hchunk => ?_, ?_, ?_⟩
  · rw [hstart] at hfresh
    exact absurd hfresh (by decide)
  · refine ⟨up.locals, ?_, by rw [hadjust, hlocals]⟩
    rw [hknown, hidx]
    exact h.describes hfrom
  · rw [hcur'] at hchunk
    exact absurd hchunk (by simp)
  · rw [hqueue]
    exact h.queued
  · rw [hidx, hqueue, hcur', ← hcur]
    exact h.emitted_eq

theorem of_fresh (hfrom : up.phase.started = false) (hto : after.phase.started = false)
    (hcur : after.phase.current = none) (hqueue : after.queue = up.queue)
    (hfly : after.inflight = up.inflight) (htrace : after.trace = up.trace)
    (hidx : after.indexed = up.indexed) : after.IndexInv cfg emitted := by
  obtain ⟨hemit, hnoQueue, hnoInflight, hnoTrace, hnoIndexed⟩ := h.fresh hfrom
  rw [← hqueue] at hnoQueue
  rw [← hfly] at hnoInflight
  rw [← htrace] at hnoTrace
  rw [← hidx] at hnoIndexed
  refine ⟨fun _ => ⟨hemit, hnoQueue, hnoInflight, hnoTrace, hnoIndexed⟩, fun hstart => ?_,
    fun chunk hchunk => ?_, fun item hitem => ?_, ?_⟩
  · rw [hto] at hstart
    exact absurd hstart (by decide)
  · rw [hcur] at hchunk
    exact absurd hchunk (by simp)
  · rw [hnoQueue] at hitem
    exact absurd hitem (by simp)
  · rw [hemit, hnoIndexed, hnoQueue, hcur]
    rfl

theorem chunk (hstart : up.phase.started = true) (data : Bytes) :
    { up with queue := up.queue ++ [(cfg.digest data, data)] }.IndexInv cfg
      (emitted ++ [data]) := by
  refine ⟨fun hfresh => ?_, h.locals, h.current, ?_, ?_⟩
  · rw [show up.phase.started = true from hstart] at hfresh
    exact absurd hfresh (by decide)
  · intro item hitem
    rcases mem_append.mp hitem with hold | hnew
    · exact h.queued item hold
    · rw [mem_singleton.mp hnew]
  · change emitted ++ [data] = _ ++ (up.queue ++ [(cfg.digest data, data)]).map Prod.snd
    rw [h.emitted_eq, map_append, ← append_assoc]
    rfl

theorem started_of_inflight {left right : List UploadTask} {task : UploadTask}
    (hfly : up.inflight = left ++ task :: right) : up.phase.started ≠ false := by
  intro hfresh
  have hnone := (h.fresh hfresh).2.2.1
  rw [hfly] at hnone
  exact absurd hnone (by simp)

theorem head {digest : Digest} {data : Bytes} {rest : List (Digest × Bytes)}
    (hphase : up.phase = .receiving) (hqueue : up.queue = (digest, data) :: rest) :
    digest = cfg.digest data ∧ (∀ item ∈ rest, item.1 = cfg.digest item.2) ∧
      emitted = up.indexed ++ [data] ++ rest.map Prod.snd := by
  have hqueued := h.queued
  rw [hqueue] at hqueued
  refine ⟨hqueued _ mem_cons_self, (forall_mem_cons.mp hqueued).2, ?_⟩
  rw [h.emitted_eq, hphase, hqueue]
  simp [Phase.current]

theorem step {exit : Option ChunkerExit} {catalog : Catalog}
    (hstep : UploadStep cfg exit catalog up after) : after.IndexInv cfg emitted := by
  cases hstep with
  | connected hphase =>
    have hnext : ∀ dedup : Bool,
        (if dedup then Phase.fetchingPrevious else .creatingIndex).started = false ∧
          (if dedup then Phase.fetchingPrevious else .creatingIndex).current = none := by
      decide
    obtain ⟨hto, hcur⟩ := hnext cfg.dedupWithPrevious
    exact h.of_fresh (by rw [hphase]; rfl) hto hcur rfl rfl rfl rfl
  | fetchedPrevious hphase => exact h.of_fresh (by rw [hphase]; rfl) rfl rfl rfl rfl rfl rfl
  | createdIndex wid uuid hphase =>
    obtain ⟨hemit, hqueue, -, -, hidx⟩ := h.fresh (by rw [hphase]; rfl)
    refine ⟨nofun, fun _ => ?_, nofun, h.queued, ?_⟩
    · refine ⟨LoopState.initial cfg.params.backupTime uuid, ?_, rfl⟩
      change LoopState.Describes cfg up.known up.indexed _
      rw [hidx]
      exact LoopState.Describes.initial _ _
    · change emitted = up.indexed ++ [] ++ up.queue.map Prod.snd
      rw [hemit, hidx, hqueue]
      rfl
  | @receivedKnown digest data rest hphase hqueue hknown =>
    -- A known chunk is counted and indexed in one go.
    obtain ⟨hdig, hrest, hemit⟩ := h.head hphase hqueue
    subst hdig
    have hbase := h.describes (by rw [hphase]; rfl)
    refine ⟨nofun, fun _ => ⟨_, hbase.pushReused hknown, rfl⟩, nofun, hrest, ?_⟩
    rw [hemit]
    simp [pushCurrent, Phase.current]
  | @receivedNew digest data rest hphase hqueue hnew =>
    obtain ⟨hdig, hrest, hemit⟩ := h.head hphase hqueue
    have hbase := h.describes (by rw [hphase]; rfl)
    refine ⟨nofun, fun _ => ⟨up.locals, hbase, rfl⟩, ?_, hrest, hemit⟩
    intro chunk hchunk
    cases hchunk
    exact ⟨hdig, hnew, hbase.endOffset⟩
  | @spawned current hphase hperm =>
    -- From here until the chunk is pushed the counters are ahead of the index.
    obtain ⟨base, hbase, hlocals⟩ := h.locals (by rw [hphase]; rfl)
    rw [hphase] at hlocals
    have hcur := h.current current (by rw [hphase]; rfl)
    refine ⟨nofun, fun _ => ⟨base, hbase, ?_⟩, ?_, h.queued, ?_⟩
    · change up.locals.countSpawned = _
      rw [hlocals]
      rfl
    · intro chunk hchunk
      cases hchunk
      exact hcur
    · rw [h.emitted_eq, hphase]
      rfl
  | taskMoved hfly | reaped hphase hfly =>
    exact ⟨fun hfresh => absurd hfresh (h.started_of_inflight hfly), h.locals, h.current,
      h.queued, h.emitted_eq⟩
  | @pushed current hphase =>
    -- The start offset was read when the chunk was received; nothing was indexed since.
    obtain ⟨base, hbase, hlocals⟩ := h.locals (by rw [hphase]; rfl)
    obtain ⟨hdig, hnew, hstart⟩ := h.current current (by rw [hphase]; rfl)
    rw [hphase] at hlocals
    refine ⟨nofun, fun _ => ?_, nofun, h.queued, ?_⟩
    · refine ⟨_, hbase.pushNew (hdig ▸ hnew : cfg.digest current.data ∉ up.known), ?_⟩
      change up.locals.pushEntry current.startOffset current.digest = _
      rw [hlocals, hstart, hdig, ← hbase.endOffset]
      rfl
    · rw [h.emitted_eq, hphase]
      simp [pushCurrent, Phase.current]
  | streamEnded hphase | joined hphase | appended hphase | chunkerFinished hphase
  | catalogSkipped hphase | catalogEncoded hphase | manifestEncoded hphase =>
    exact h.of_plain (by rw [hphase]; rfl) rfl rfl rfl rfl rfl
  | accepted hpend =>
    obtain ⟨hfrom, hto⟩ := pendingRequest_committing hpend
    exact h.of_plain (Phase.plain_of_committing hfrom) (Phase.plain_of_committing hto)
      rfl rfl rfl rfl
  | refused error hpend =>
    have hfrom := Phase.plain_of_committing (pendingRequest_committing hpend).1
    exact h.of_plain hfrom hfrom rfl rfl rfl rfl
  | failed | returned => exact ⟨h.fresh, h.locals, h.current, h.queued, h.emitted_eq⟩

end Upload.IndexInv

/-! ### Every new chunk is uploaded -/

/-- The chunk was uploaded in this run, with bytes that encode it. -/
def UploadedIn (cfg : UploadConfig) (wid : UInt64) (trace : List Event) (data : Bytes) : Prop :=
  ∃ random blob, encodeFor cfg.prims cfg.crypt cfg.compress random data = .ok blob ∧
    Event.request (.uploadDynamicChunk wid (cfg.digest data) (UInt64.ofNat data.length) blob)
      (.ok ()) ∈ trace

variable {cfg : UploadConfig}

theorem UploadedIn.mono {wid : UInt64} {trace longer : List Event} {data : Bytes}
    (hsub : trace ⊆ longer) (h : UploadedIn cfg wid trace data) :
    UploadedIn cfg wid longer data := by
  obtain ⟨random, blob, hblob, hsent⟩ := h
  exact ⟨random, blob, hblob, hsub hsent⟩

theorem Event.FailedUpload.isUpload {event : Event} (h : event.FailedUpload) :
    event.IsUpload := by
  cases event with
  | uploadFailed => trivial
  | request request => cases request <;> trivial

theorem Upload.pendingRequest_not_upload {up : Upload} {request : Request} {next : Phase}
    (h : up.pendingRequest cfg = some (request, next)) (reply : Except PbsError Unit) :
    ¬ (Event.request request reply).IsUpload := by
  have hsends := sends_of_pendingRequest h
  generalize up.phase = phase at hsends
  cases hsends <;> exact id

/-- What an upload task knows about its chunk. -/
structure TaskOk (cfg : UploadConfig) (emitted : List Bytes) (up : Upload) (task : UploadTask) :
    Prop where
  digest : task.digest = cfg.digest task.data
  emitted : task.data ∈ emitted
  new : task.digest ∉ up.known
  sending : ∀ blob, task.stage = .sending blob → ∃ random,
    encodeFor cfg.prims cfg.crypt cfg.compress random task.data = .ok blob
  finished : task.stage = .finished (.ok ()) → UploadedIn cfg up.wid up.trace task.data

/-- A task's knowledge outlives steps that keep the session and only add events. -/
theorem TaskOk.mono {emitted : List Bytes} {up later : Upload} {task : UploadTask}
    (h : TaskOk cfg emitted up task) (hwid : later.wid = up.wid) (hknown : later.known = up.known)
    (hsub : up.trace ⊆ later.trace) : TaskOk cfg emitted later task := by
  refine ⟨h.digest, h.emitted, ?_, h.sending, fun hstage => ?_⟩
  · rw [hknown]
    exact h.new
  · rw [hwid]
    exact (h.finished hstage).mono hsub

/-- The upload tasks against the index and the trace. -/
structure Upload.TaskInv (cfg : UploadConfig) (emitted : List Bytes) (up : Upload) : Prop where
  tasks : ∀ task ∈ up.inflight, TaskOk cfg emitted up task
  accounted : ∀ data ∈ up.indexed ++ up.phase.spawned, cfg.digest data ∉ up.known →
    (∃ task ∈ up.inflight, task.data = data) ∨ UploadedIn cfg up.wid up.trace data
  failures : ∀ event ∈ up.trace, event.FailedUpload →
    (∃ error, up.result = some (.error error)) ∨
      ∃ task ∈ up.inflight, ∃ error, task.stage = .finished (.error error)
  sent : ∀ wid digest len blob reply,
    Event.request (.uploadDynamicChunk wid digest len blob) reply ∈ up.trace →
      wid = up.wid ∧ digest ∉ up.known ∧ ∃ data ∈ emitted, ∃ random,
        digest = cfg.digest data ∧ len = UInt64.ofNat data.length ∧
          encodeFor cfg.prims cfg.crypt cfg.compress random data = .ok blob

namespace Upload.TaskInv

variable {cfg : UploadConfig} {emitted : List Bytes} {up after : Upload}

theorem of_empty (hfly : up.inflight = []) (htrace : up.trace = [])
    (hcont : up.indexed ++ up.phase.spawned = []) :
    up.TaskInv cfg emitted where
  tasks task h := by simp [hfly] at h
  accounted data h := by simp [hcont] at h
  failures event h := by simp [htrace] at h
  sent wid digest len blob reply h := by simp [htrace] at h

theorem chunk (h : up.TaskInv cfg emitted) (data : Bytes) (queue : List (Digest × Bytes)) :
    { up with queue := queue }.TaskInv cfg (emitted ++ [data]) where
  tasks task htask :=
    let hok := h.tasks task htask
    ⟨hok.digest, mem_append_left _ hok.emitted, hok.new, hok.sending, hok.finished⟩
  accounted := h.accounted
  failures := h.failures
  sent wid digest len blob reply hsent := by
    obtain ⟨hwid, hnew, data, hdata, hrest⟩ := h.sent wid digest len blob reply hsent
    exact ⟨hwid, hnew, data, mem_append_left _ hdata, hrest⟩

theorem of_main (h : up.TaskInv cfg emitted) (hrun : up.result = none)
    (extra : List Event) (hextra : ∀ event ∈ extra, ¬ event.IsUpload)
    (htrace : after.trace = up.trace ++ extra) (hwid : after.wid = up.wid)
    (hknown : after.known = up.known) (hfly : after.inflight = up.inflight)
    (hcont : ∀ data ∈ after.indexed ++ after.phase.spawned, cfg.digest data ∉ up.known →
      data ∈ up.indexed ++ up.phase.spawned) :
    after.TaskInv cfg emitted := by
  have hsub : up.trace ⊆ after.trace := by
    rw [htrace]
    exact subset_append_left _ _
  have hback : ∀ event ∈ after.trace, event.IsUpload → event ∈ up.trace := by
    intro event hevent hup
    rw [htrace] at hevent
    exact (mem_append.mp hevent).resolve_right fun hnew => hextra event hnew hup
  refine ⟨fun task htask => ?_, fun data hdata hnew => ?_, fun event hevent hfail => ?_,
    fun wid digest len blob reply hsent => ?_⟩
  · rw [hfly] at htask
    exact (h.tasks task htask).mono hwid hknown hsub
  · rw [hknown] at hnew
    rw [hfly, hwid]
    exact (h.accounted data (hcont data hdata hnew) hnew).imp_right (·.mono hsub)
  · rw [hfly]
    rcases h.failures event (hback event hevent hfail.isUpload) hfail with herror | htask
    · rw [hrun] at herror
      obtain ⟨error, herror⟩ := herror
      exact nomatch herror
    · exact Or.inr htask
  · rw [hwid, hknown]
    exact h.sent wid digest len blob reply (hback _ hsent trivial)

variable {task moved : UploadTask}

theorem taskStep_facts {wid : UInt64} {events : List Event} {stored : UInt64}
    (hstep : TaskStep cfg wid task moved events stored) :
    moved.digest = task.digest ∧ moved.data = task.data ∧
      (∀ result, task.stage ≠ .finished result) ∧
      (∀ blob, moved.stage = .sending blob → ∃ random,
        encodeFor cfg.prims cfg.crypt cfg.compress random task.data = .ok blob) ∧
      (moved.stage = .finished (.ok ()) → ∃ blob, task.stage = .sending blob ∧
        Event.request (.uploadDynamicChunk wid task.digest (UInt64.ofNat task.data.length) blob)
          (.ok ()) ∈ events) ∧
      (∀ event ∈ events, event.FailedUpload → ∃ error, moved.stage = .finished (.error error)) ∧
      (∀ wid' digest len blob reply,
        Event.request (.uploadDynamicChunk wid' digest len blob) reply ∈ events →
          wid' = wid ∧ digest = task.digest ∧ len = UInt64.ofNat task.data.length ∧
            task.stage = .sending blob) := by
  cases hstep with
  | encoded hstage hblob =>
    refine ⟨rfl, rfl, by simp [hstage], fun blob h => ?_, by simp, by simp, by simp⟩
    cases h
    exact ⟨_, hblob⟩
  | encodeFailed hstage =>
    exact ⟨rfl, rfl, by simp [hstage], by simp, by simp, fun _ _ _ => ⟨_, rfl⟩, by simp⟩
  | panicked hstage =>
    refine ⟨rfl, rfl, fun result h => ?_, by simp, by simp, fun _ _ _ => ⟨_, rfl⟩, by simp⟩
    simp [UploadTask.holdsPermit, h] at hstage
  | @replied blob reply hstage =>
    refine ⟨rfl, rfl, by simp [hstage], by simp, fun h => ⟨blob, hstage, ?_⟩, ?_, ?_⟩
    · cases h
      exact mem_singleton_self _
    · intro event hevent hfail
      obtain rfl := mem_singleton.mp hevent
      cases reply with
      | ok => exact absurd hfail id
      | error error => exact ⟨error, rfl⟩
    · intro wid' digest len blob' reply' hevent
      simp only [mem_singleton, Event.request.injEq, Request.uploadDynamicChunk.injEq] at hevent
      obtain ⟨⟨rfl, rfl, rfl, rfl⟩, -⟩ := hevent
      exact ⟨rfl, rfl, rfl, hstage⟩

variable {left right : List UploadTask}

theorem taskMoved {events : List Event} {stored : UInt64} (h : up.TaskInv cfg emitted)
    (hrun : up.result = none) (hfly : up.inflight = left ++ task :: right)
    (hstep : TaskStep cfg up.wid task moved events stored) :
    { up with
      inflight := left ++ moved :: right
      trace := up.trace ++ events
      storedBytes := up.storedBytes + stored }.TaskInv cfg emitted := by
  obtain ⟨hdig, hdata, hlive, hsending, hdone, hfailure, hreq⟩ := taskStep_facts hstep
  have htasks := h.tasks
  rw [hfly, forall_mem_middle] at htasks
  have hself := htasks.1
  have hsub : up.trace ⊆ up.trace ++ events := subset_append_left _ _
  -- Only the one task changes: the others are there before and after.
  have hkeep : ∀ other ∈ up.inflight, other = task ∨ other ∈ left ++ moved :: right := by
    rw [hfly]
    exact fun other hother => (mem_middle.mp hother).imp_right fun h => mem_middle.mpr (.inr h)
  have hmoved : moved ∈ left ++ moved :: right := by simp
  refine ⟨forall_mem_middle.mpr ⟨?_, fun other hother => ?_⟩, fun data hmem hnew => ?_,
    fun event hevent hfail => ?_, fun wid digest len blob reply hsent => ?_⟩
  · refine ⟨?_, hdata ▸ hself.emitted, hdig ▸ hself.new, hdata ▸ hsending, fun hstage => ?_⟩
    · rw [hdig, hdata, hself.digest]
    · -- The task has just had its reply, to the request with the blob it was sending.
      obtain ⟨blob, hblob, hevent⟩ := hdone hstage
      obtain ⟨random, henc⟩ := hself.sending blob hblob
      rw [hself.digest] at hevent
      rw [hdata]
      exact ⟨random, blob, henc, mem_append_right _ hevent⟩
  · exact (htasks.2 other hother).mono rfl rfl hsub
  · rcases h.accounted data hmem hnew with ⟨other, hother, hsame⟩ | hup
    · left
      rcases hkeep other hother with rfl | hstays
      · exact ⟨moved, hmoved, hdata.trans hsame⟩
      · exact ⟨other, hstays, hsame⟩
    · exact Or.inr (hup.mono hsub)
  · right
    rcases mem_append.mp hevent with hold | hevent
    · rcases h.failures event hold hfail with ⟨error, herror⟩ | ⟨other, hother, error, hstage⟩
      · rw [hrun] at herror
        exact nomatch herror
      · rcases hkeep other hother with rfl | hstays
        · exact absurd hstage (hlive _)
        · exact ⟨other, hstays, error, hstage⟩
    · obtain ⟨error, hstage⟩ := hfailure event hevent hfail
      exact ⟨moved, hmoved, error, hstage⟩
  · rcases mem_append.mp hsent with hold | hnew
    · exact h.sent wid digest len blob reply hold
    · obtain ⟨rfl, rfl, rfl, hstage⟩ := hreq wid digest len blob reply hnew
      obtain ⟨random, henc⟩ := hself.sending blob hstage
      exact ⟨rfl, hself.new, task.data, hself.emitted, random, hself.digest, rfl, henc⟩

theorem reaped {task : UploadTask} (h : up.TaskInv cfg emitted)
    (hfly : up.inflight = left ++ task :: right) (hstage : task.stage = .finished (.ok ())) :
    { up with inflight := left ++ right }.TaskInv cfg emitted := by
  obtain ⟨htasks, haccounted, hfailures, hsent⟩ := h
  rw [hfly] at htasks haccounted hfailures
  refine ⟨fun other hother => ?_, fun data hmem hnew => ?_, fun event hevent hfail => ?_, hsent⟩
  · exact (htasks other (mem_middle.mpr (.inr hother))).mono rfl rfl (List.Subset.refl _)
  · rcases haccounted data hmem hnew with ⟨other, hother, hsame⟩ | hup
    · rcases mem_middle.mp hother with rfl | hstays
      · exact Or.inr (hsame ▸ (htasks _ hother).finished hstage)
      · exact Or.inl ⟨other, hstays, hsame⟩
    · exact Or.inr hup
  · refine (hfailures event hevent hfail).imp_right ?_
    rintro ⟨other, hother, error, hfailure⟩
    rcases mem_middle.mp hother with rfl | hstays
    · rw [hstage] at hfailure
      exact nomatch hfailure
    · exact ⟨other, hstays, error, hfailure⟩

theorem spawned {current : CurrentChunk} (h : up.TaskInv cfg emitted)
    (hindex : up.IndexInv cfg emitted) (hphase : up.phase = .acquiring current) :
    { up with
      phase := .reaping current
      inflight := up.inflight ++ [UploadTask.mk current.digest current.data .encoding]
      locals := up.locals.countSpawned }.TaskInv cfg emitted := by
  obtain ⟨hdig, hnew, -⟩ := hindex.current current (by rw [hphase]; rfl)
  have hemit : current.data ∈ emitted := by
    rw [hindex.emitted_eq, hphase]
    simp [Phase.current]
  refine ⟨fun task htask => ?_, fun data hmem hfresh => ?_, fun event hevent hfail => ?_, h.sent⟩
  · rcases mem_append.mp htask with hold | hself
    · exact (h.tasks task hold).mono rfl rfl (List.Subset.refl _)
    · obtain rfl := mem_singleton.mp hself
      exact ⟨hdig, hemit, hnew, nofun, nofun⟩
  · rcases mem_append.mp hmem with hold | hself
    · refine (h.accounted data (mem_append_left _ hold) hfresh).imp_left ?_
      rintro ⟨task, htask, hsame⟩
      exact ⟨task, mem_append_left _ htask, hsame⟩
    · obtain rfl := mem_singleton.mp hself
      exact Or.inl ⟨_, mem_append_right _ (mem_singleton_self _), rfl⟩
  · refine (h.failures event hevent hfail).imp_right ?_
    rintro ⟨task, htask, hfailure⟩
    exact ⟨task, mem_append_left _ htask, hfailure⟩

theorem step {exit : Option ChunkerExit} {catalog : Catalog} (h : up.TaskInv cfg emitted)
    (hindex : up.IndexInv cfg emitted) (hrun : up.result = none)
    (hstep : UploadStep cfg exit catalog up after) :
    after.TaskInv cfg emitted := by
  have hsilent : ∀ event ∈ ([] : List Event), ¬ event.IsUpload := by simp
  have htrace : up.trace = up.trace ++ [] := (append_nil _).symm
  -- A phase change between phases without a spawned chunk.
  have hmove : ∀ next : Phase, next.spawned = [] →
      ∀ data ∈ up.indexed ++ next.spawned, cfg.digest data ∉ up.known →
        data ∈ up.indexed ++ up.phase.spawned := by
    intro next hnext data hdata _
    rw [hnext, append_nil] at hdata
    exact mem_append_left _ hdata
  cases hstep with
  | connected hphase =>
    obtain ⟨-, -, hfly, htrace, hidx⟩ := hindex.fresh (by rw [hphase]; rfl)
    refine of_empty hfly htrace ?_
    change up.indexed ++ _ = []
    rw [hidx]
    cases cfg.dedupWithPrevious <;> rfl
  | fetchedPrevious hphase | createdIndex wid uuid hphase =>
    obtain ⟨-, -, hfly, htrace, hidx⟩ := hindex.fresh (by rw [hphase]; rfl)
    exact of_empty hfly htrace (by simp [hidx, Phase.spawned])
  | @receivedKnown digest data rest hphase hqueue hknown =>
    -- The chunk indexed here is a known one, for which no upload has to account.
    obtain ⟨rfl, -, -⟩ := hindex.head hphase hqueue
    refine h.of_main hrun [] hsilent htrace rfl rfl rfl ?_
    intro other hother hnew
    simp only [pushCurrent, Phase.spawned, append_nil, mem_append, mem_singleton] at hother ⊢
    rcases hother with hold | rfl
    · exact Or.inl hold
    · exact absurd hknown hnew
  | spawned hphase => exact h.spawned hindex hphase
  | taskMoved hfly htask => exact h.taskMoved hrun hfly htask
  | reaped hphase hfly hstage => exact h.reaped hfly hstage
  | pushed hphase =>
    -- The spawned chunk enters the index; its task goes on accounting for it.
    refine h.of_main hrun [] hsilent htrace rfl rfl rfl ?_
    intro data hdata _
    rw [hphase]
    simpa [pushCurrent, Phase.spawned] using hdata
  | receivedNew | streamEnded | joined | appended | chunkerFinished | catalogSkipped
  | catalogEncoded | manifestEncoded =>
    exact h.of_main hrun [] hsilent htrace rfl rfl rfl (hmove _ rfl)
  | @accepted request next hpend =>
    have hnext := Phase.plain_of_committing (pendingRequest_committing hpend).2
    refine h.of_main hrun [.request request (.ok ())] ?_ rfl rfl rfl rfl
      (hmove next (Phase.plain_facts hnext).2.2.1)
    simpa using pendingRequest_not_upload hpend (.ok ())
  | @refused request next error hpend =>
    refine h.of_main hrun [.request request (.error error)] ?_ rfl rfl rfl rfl
      (fun _ hdata _ => hdata)
    simpa using pendingRequest_not_upload hpend (.error error)
  | failed | returned =>
    exact h.of_main hrun [] hsilent htrace rfl rfl rfl (fun _ hdata _ => hdata)

end Upload.TaskInv

/-! ### The order of the commit -/

def Request.IsBlob : Request → Prop
  | .uploadBlob .. => True
  | _ => False

namespace Upload

def appendRequests (up : Upload) : List Request :=
  up.locals.batches.map (appendRequest up.wid)

/-- What the main task has had accepted when it stands in its present phase. -/
def SentBy (cfg : UploadConfig) (up : Upload) (issued : List Request) : Prop :=
  match up.phase with
  | .appending rest => ∃ done, up.locals.batches = done ++ rest ∧
      issued = done.map (appendRequest up.wid)
  | .awaitingChunker | .closing => issued = up.appendRequests
  | .awaitingCatalog | .sendingCatalog _ _ => issued = up.appendRequests ++ [up.closeRequest cfg]
  | .encodingManifest | .sendingManifest _ | .finishing => ∃ blobs : List Request,
      (∀ request ∈ blobs, request.IsBlob) ∧
        issued = up.appendRequests ++ [up.closeRequest cfg] ++ blobs
  | .finished => ∃ blobs : List Request, (∀ request ∈ blobs, request.IsBlob) ∧
      issued = up.appendRequests ++ [up.closeRequest cfg] ++ blobs ++ [.finish]
  | _ => issued = []

def acceptedEvent (request : Request) : Event := .request request (.ok ())

/-- The trace is the uploads, then the accepted requests of the main task, then
perhaps the request that was refused. -/
def TraceShape (cfg : UploadConfig) (up : Upload) : Prop :=
  ∃ (uploads : List Event) (issued : List Request) (refused : List Event),
    up.trace = uploads ++ issued.map acceptedEvent ++ refused ∧
      (∀ event ∈ uploads, event.IsUpload) ∧ up.SentBy cfg issued ∧
      (refused = [] ∨ ∃ request next error, up.pendingRequest cfg = some (request, next) ∧
        up.result = some (.error error) ∧ refused = [.request request (.error error)])

/-- The order in which a run commits. -/
structure CommitInv (cfg : UploadConfig) (exit : Option ChunkerExit) (up : Upload) : Prop where
  drained : up.phase.committing = true ∨ up.phase = .joining → up.queue = [] ∧ exit ≠ none
  joined : up.phase.committing = true → up.inflight = []
  exited : up.phase.afterChunker = true → exit = some .ok
  succeeded : up.phase.committing = true → ∀ event ∈ up.trace, ¬ event.FailedUpload
  shape : up.TraceShape cfg
  outcome : ∀ stats, up.result = some (.ok stats) → up.phase = .finished ∧ stats = up.stats cfg

variable {cfg : UploadConfig} {up : Upload}

/-- Before the commit the trace holds uploads only, and this is all there is to
its shape. -/
theorem traceShape_of_loop (hphase : up.phase.committing = false) :
    up.TraceShape cfg ↔ ∀ event ∈ up.trace, event.IsUpload := by
  have hpend : up.pendingRequest cfg = none := by
    cases hcase : up.pendingRequest cfg with
    | none => rfl
    | some =>
      have := (pendingRequest_committing hcase).1
      rw [hphase] at this
      exact nomatch this
  have hsent : ∀ issued, up.SentBy cfg issued ↔ issued = [] := by
    intro issued
    unfold SentBy
    split <;> simp_all [Phase.committing]
  constructor
  · rintro ⟨uploads, issued, refused, htrace, hups, hiss, href⟩
    rw [hsent] at hiss
    rw [hpend] at href
    have hnone : refused = [] := by simpa using href
    rw [htrace, hiss, hnone]
    simpa using hups
  · intro hups
    exact ⟨up.trace, [], [], by simp, hups, (hsent []).mpr rfl, Or.inl rfl⟩

theorem TraceShape.running (h : up.TraceShape cfg) (hrun : up.result = none) :
    ∃ uploads issued, up.trace = uploads ++ issued.map acceptedEvent ∧
      (∀ event ∈ uploads, event.IsUpload) ∧ up.SentBy cfg issued := by
  obtain ⟨uploads, issued, refused, htrace, hups, hiss, href⟩ := h
  refine ⟨uploads, issued, ?_, hups, hiss⟩
  rcases href with rfl | ⟨_, _, _, -, hres, -⟩
  · rw [htrace, append_nil]
  · rw [hrun] at hres
    exact nomatch hres

theorem TraceShape.silent {up after : Upload} (h : up.TraceShape cfg) (hrun : up.result = none)
    (htrace : after.trace = up.trace)
    (hsent : ∀ issued, up.SentBy cfg issued → after.SentBy cfg issued) : after.TraceShape cfg := by
  obtain ⟨uploads, issued, hup, hups, hiss⟩ := h.running hrun
  exact ⟨uploads, issued, [], by rw [htrace, hup, append_nil], hups, hsent issued hiss, Or.inl rfl⟩

theorem sentBy_accepted {request : Request} {next : Phase} {issued : List Request}
    (trace : List Event) (hpend : up.pendingRequest cfg = some (request, next))
    (hiss : up.SentBy cfg issued) :
    { up with phase := next, trace := trace }.SentBy cfg (issued ++ [request]) := by
  have hsends := sends_of_pendingRequest hpend
  unfold SentBy at hiss
  generalize up.phase = phase at hsends hiss
  cases hsends with
  | append batch =>
    obtain ⟨done, hdone, rfl⟩ := hiss
    refine ⟨done ++ [batch], ?_, by rw [map_append, map_singleton]⟩
    change up.locals.batches = _
    rw [hdone, append_assoc, singleton_append]
  | close =>
    dsimp only at hiss
    rw [hiss]
    rfl
  | catalog =>
    dsimp only at hiss
    rw [hiss]
    exact ⟨[_], by simp [Request.IsBlob], rfl⟩
  | manifest =>
    obtain ⟨blobs, hblobs, rfl⟩ := hiss
    refine ⟨blobs ++ [_], ?_, by rw [← append_assoc]; rfl⟩
    intro request hreq
    rcases mem_append.mp hreq with hold | hnew
    · exact hblobs request hold
    · rw [mem_singleton.mp hnew]
      trivial
  | finish =>
    obtain ⟨blobs, hblobs, rfl⟩ := hiss
    exact ⟨blobs, hblobs, rfl⟩

end Upload

namespace Upload.CommitInv

variable {cfg : UploadConfig} {exit : Option ChunkerExit} {up after : Upload}

theorem of_loop (hphase : after.phase.committing = false)
    (hjoining : after.phase = .joining → after.queue = [] ∧ exit ≠ none)
    (hups : ∀ event ∈ after.trace, event.IsUpload)
    (hres : ∀ stats, after.result ≠ some (.ok stats)) :
    after.CommitInv cfg exit where
  drained h := hjoining (h.resolve_left (by simp [hphase]))
  joined h := by simp [hphase] at h
  exited h := by simp [Phase.committing_of_afterChunker h] at hphase
  succeeded h := by simp [hphase] at h
  shape := (traceShape_of_loop hphase).mpr hups
  outcome stats h := absurd h (hres stats)

theorem initial : Upload.initial.CommitInv cfg none :=
  of_loop rfl nofun (by simp [Upload.initial]) (by simp [Upload.initial])

theorem chunk (h : up.CommitInv cfg none) (queue : List (Digest × Bytes)) :
    { up with queue := queue }.CommitInv cfg none := by
  exact ⟨fun hcase => absurd rfl (h.drained hcase).2, h.joined, h.exited, h.succeeded, h.shape,
    h.outcome⟩

theorem ends (h : up.CommitInv cfg none) (result : ChunkerExit) :
    up.CommitInv cfg (some result) :=
  ⟨fun hcase => absurd rfl (h.drained hcase).2, h.joined,
    (fun hafter => nomatch h.exited hafter), h.succeeded, h.shape, h.outcome⟩

theorem move (h : up.CommitInv cfg exit) (hrun : up.result = none)
    (hfrom : up.phase.committing = true) (hqueue : after.queue = up.queue)
    (hfly : after.inflight = up.inflight) (htrace : after.trace = up.trace)
    (hres : after.result = up.result) (hexit : after.phase.afterChunker = true → exit = some .ok)
    (hsent : ∀ issued, up.SentBy cfg issued → after.SentBy cfg issued) :
    after.CommitInv cfg exit := by
  refine ⟨fun _ => ?_, fun _ => ?_, hexit, fun _ => ?_, h.shape.silent hrun htrace hsent,
    fun stats hstats => ?_⟩
  · rw [hqueue]
    exact h.drained (Or.inl hfrom)
  · rw [hfly]
    exact h.joined hfrom
  · rw [htrace]
    exact h.succeeded hfrom
  · rw [hres, hrun] at hstats
    exact nomatch hstats

variable {next : Phase}

theorem moveOn (h : up.CommitInv cfg exit) (hrun : up.result = none)
    (hfrom : up.phase.afterChunker = true)
    (hsent : ∀ issued, up.SentBy cfg issued → { up with phase := next }.SentBy cfg issued) :
    { up with phase := next }.CommitInv cfg exit :=
  h.move hrun (Phase.committing_of_afterChunker hfrom) rfl rfl rfl rfl
    (fun _ => h.exited hfrom) hsent

theorem returns (h : up.CommitInv cfg exit) (hrun : up.result = none)
    (result : Except PbsError BackupStats)
    (hres : ∀ stats, result = .ok stats → up.phase = .finished ∧ stats = up.stats cfg) :
    { up with result := some result }.CommitInv cfg exit := by
  obtain ⟨uploads, issued, htrace, hups, hiss⟩ := h.shape.running hrun
  exact ⟨h.drained, h.joined, h.exited, h.succeeded,
    ⟨uploads, issued, [], by simpa using htrace, hups, hiss, Or.inl rfl⟩,
    fun stats hstats => hres stats (Option.some.inj hstats)⟩

variable {request : Request}

theorem succeeded_append {reply : Except PbsError Unit} (h : up.CommitInv cfg exit)
    (hpend : up.pendingRequest cfg = some (request, next)) :
    ∀ event ∈ up.trace ++ [.request request reply], ¬ event.FailedUpload := by
  rw [forall_mem_append]
  refine ⟨h.succeeded (pendingRequest_committing hpend).1, fun event hnew hfail => ?_⟩
  rw [mem_singleton.mp hnew] at hfail
  exact pendingRequest_not_upload hpend _ hfail.isUpload

theorem accepted (h : up.CommitInv cfg exit) (hrun : up.result = none)
    (hpend : up.pendingRequest cfg = some (request, next)) :
    { up with phase := next, trace := up.trace ++ [acceptedEvent request] }.CommitInv
      cfg exit := by
  have hfrom := (pendingRequest_committing hpend).1
  obtain ⟨uploads, issued, htrace, hups, hiss⟩ := h.shape.running hrun
  refine ⟨fun _ => h.drained (Or.inl hfrom), fun _ => h.joined hfrom,
    fun hafter => h.exited (pendingRequest_afterChunker hpend hafter),
    fun _ => h.succeeded_append hpend,
    ⟨uploads, issued ++ [request], [], ?_, hups, sentBy_accepted _ hpend hiss,
      Or.inl rfl⟩, fun stats hstats => ?_⟩
  · simp [htrace, acceptedEvent]
  · rw [show up.result = none from hrun] at hstats
    exact nomatch hstats

theorem refused {error : PbsError} (h : up.CommitInv cfg exit) (hrun : up.result = none)
    (hpend : up.pendingRequest cfg = some (request, next)) :
    { up with
      result := some (.error error)
      trace := up.trace ++ [Event.request request (.error error)] }.CommitInv cfg exit := by
  obtain ⟨uploads, issued, htrace, hups, hiss⟩ := h.shape.running hrun
  refine ⟨h.drained, h.joined, h.exited, fun _ => h.succeeded_append hpend,
    ⟨uploads, issued, [.request request (.error error)], ?_, hups, hiss,
      Or.inr ⟨request, next, error, hpend, rfl, rfl⟩⟩, nofun⟩
  change up.trace ++ _ = _
  rw [htrace]

variable {emitted : List Bytes}

theorem begins (h : up.CommitInv cfg exit) (htasks : up.TaskInv cfg emitted)
    (hrun : up.result = none) (hphase : up.phase = .joining) (hfly : up.inflight = []) :
    { up with phase := .appending up.locals.batches }.CommitInv cfg exit := by
  have hups := (traceShape_of_loop (by rw [hphase]; rfl)).mp h.shape
  refine ⟨fun _ => h.drained (Or.inr hphase), fun _ => hfly, nofun,
    fun _ event hevent hfail => ?_, ?_, fun stats hstats => ?_⟩
  · rcases htasks.failures event hevent hfail with ⟨error, herror⟩ | ⟨task, htask, -⟩
    · rw [hrun] at herror
      exact nomatch herror
    · rw [hfly] at htask
      exact absurd htask not_mem_nil
  · exact ⟨up.trace, [], [], by simp, hups, ⟨[], rfl, rfl⟩, Or.inl rfl⟩
  · rw [show up.result = none from hrun] at hstats
    exact nomatch hstats

theorem step {catalog : Catalog} (h : up.CommitInv cfg exit) (htasks : up.TaskInv cfg emitted)
    (hrun : up.result = none) (hstep : UploadStep cfg exit catalog up after) :
    after.CommitInv cfg exit := by
  have hopen : ∀ stats, up.result ≠ some (.ok stats) := by simp [hrun]
  have hups : up.phase.committing = false → ∀ event ∈ up.trace, event.IsUpload :=
    fun hphase => (traceShape_of_loop hphase).mp h.shape
  cases hstep with
  | connected hphase =>
    refine of_loop ?_ (fun hjoin => ?_) (hups (by rw [hphase]; rfl)) hopen
    · change (if cfg.dedupWithPrevious then Phase.fetchingPrevious else .creatingIndex).committing
        = false
      cases cfg.dedupWithPrevious <;> rfl
    · change (if cfg.dedupWithPrevious then Phase.fetchingPrevious else .creatingIndex)
        = .joining at hjoin
      cases hdedup : cfg.dedupWithPrevious <;> rw [hdedup] at hjoin <;> exact nomatch hjoin
  | fetchedPrevious hphase | createdIndex wid uuid hphase | receivedKnown hphase
  | receivedNew hphase | spawned hphase | pushed hphase =>
    exact of_loop rfl nofun (hups (by rw [hphase]; rfl)) hopen
  | @taskMoved left right task moved events stored hfly htask =>
    -- A running task means that the commit has not begun.
    have hloop : up.phase.committing = false := by
      by_contra hcomm
      have hnone := h.joined (by simpa using hcomm)
      rw [hfly] at hnone
      exact absurd hnone (by simp)
    refine of_loop hloop (fun hjoin => h.drained (Or.inr hjoin)) (fun event hevent => ?_) hopen
    rcases mem_append.mp hevent with hold | hnew
    · exact hups hloop event hold
    · cases htask <;> simp at hnew <;> subst hnew <;> trivial
  | reaped hphase =>
    have hloop : up.phase.committing = false := by
      rcases hphase with ⟨current, hphase⟩ | hphase <;> rw [hphase] <;> rfl
    exact of_loop hloop (fun hjoin => h.drained (Or.inr hjoin)) (hups hloop) hopen
  | streamEnded hphase hqueue hexit =>
    exact of_loop rfl (fun _ => ⟨hqueue, hexit⟩) (hups (by rw [hphase]; rfl)) hopen
  | joined hphase hfly => exact h.begins htasks hrun hphase hfly
  | appended hphase =>
    refine h.move hrun (by rw [hphase]; rfl) rfl rfl rfl rfl nofun
      fun issued hiss => ?_
    simp only [SentBy, hphase, append_nil] at hiss
    obtain ⟨done, hdone, rfl⟩ := hiss
    change _ = up.locals.batches.map _
    rw [hdone]
  | chunkerFinished hphase hexit =>
    refine h.move hrun (by rw [hphase]; rfl) rfl rfl rfl rfl (fun _ => hexit)
      fun issued hiss => ?_
    simp only [SentBy, hphase] at hiss
    exact hiss
  | catalogSkipped hphase =>
    refine h.moveOn hrun (by rw [hphase]; rfl) fun issued hiss => ⟨[], by simp, ?_⟩
    simp only [SentBy, hphase] at hiss
    rw [hiss, append_nil]
    rfl
  | catalogEncoded hphase | manifestEncoded hphase =>
    refine h.moveOn hrun (by rw [hphase]; rfl) fun issued hiss => ?_
    simp only [SentBy, hphase] at hiss
    exact hiss
  | accepted hpend => exact h.accepted hrun hpend
  | refused error hpend => exact h.refused hrun hpend
  | failed => exact h.returns hrun _ nofun
  | returned hphase =>
    exact h.returns hrun _ fun stats hstats => ⟨hphase, (Except.ok.inj hstats).symm⟩

end Upload.CommitInv

/-- All invariants of a state of the system. -/
structure UploadSystem.Inv {Source : Type*} (cfg : UploadConfig)
    (state : UploadSystem Source) : Prop where
  index : state.up.IndexInv cfg state.feed.emitted
  tasks : state.up.TaskInv cfg state.feed.emitted
  commit : state.up.CommitInv cfg state.feed.exit

section System

variable {Source : Type*} {cfg : UploadConfig} {feed : Feed Source}
  {state after : UploadSystem Source}

theorem UploadSystem.Inv.step (h : state.Inv cfg) (hstep : SystemStep cfg feed state after) :
    after.Inv cfg := by
  cases hstep with
  | quiet | read => exact ⟨h.index, h.tasks, h.commit⟩
  | @chunk source data hstart hrun hroom hopen hchunk =>
    have hcomm := h.commit
    rw [hopen] at hcomm
    refine ⟨h.index.chunk hstart data, h.tasks.chunk data _, ?_⟩
    change Upload.CommitInv cfg state.feed.exit _
    rw [hopen]
    exact hcomm.chunk _
  | ends hstart hopen =>
    have hcomm := h.commit
    rw [hopen] at hcomm
    exact ⟨h.index, h.tasks, hcomm.ends _⟩
  | upload hrun hstep =>
    exact ⟨h.index.step hstep, h.tasks.step h.index hrun hstep, h.commit.step h.tasks hrun hstep⟩

theorem UploadReaches.inv {source : Source} (h : UploadReaches cfg feed source state) :
    state.Inv cfg := by
  refine Transition.invariant_of_reachable ⟨?_, ?_, ?_⟩
    (fun _ _ hpre hstep => hpre.step hstep) h
  · exact Upload.IndexInv.initial
  · exact Upload.TaskInv.of_empty rfl rfl rfl
  · exact Upload.CommitInv.initial

theorem UploadReaches.feedRun {source : Source} (h : UploadReaches cfg feed source state) :
    Relation.ReflTransGen (FeedStep feed)
      { source := source, emitted := [], exit := none } state.feed := by
  induction h with
  | refl => exact .refl
  | tail _ hlast ih =>
    cases hlast with
    | quiet hquiet => exact ih.tail (.quiet hquiet)
    | read _ hopen hread => exact ih.tail (.read hopen hread)
    | chunk _ _ _ hopen hchunk => exact ih.tail (.chunk hopen hchunk)
    | ends _ hopen hends => exact ih.tail (.ends hopen hends)
    | upload => exact ih

end System

end PbsGui.Client
