import PbsGui.Client.UploadInvariant

/-!
# What the server sees of an upload

The trace of requests is a list of chunk uploads followed by requests of the main task, which
are a beginning of: the append batches, the close request, blobs, finish.  Nothing of that
part is sent unless every chunk has arrived and every upload has succeeded.
-/

namespace PbsGui.Client

open Lib List

/-- The digests a request appends to the index. -/
def Request.appendedDigests : Request → List Digest
  | .appendDynamicIndex _ digests _ => digests
  | _ => []

/-- The start offsets a request appends to the index. -/
def Request.appendedOffsets : Request → List UInt64
  | .appendDynamicIndex _ _ offsets => offsets
  | _ => []

/-- The digests of all append requests of a trace, in order. -/
def sentDigests (trace : List Event) : List Digest :=
  trace.flatMap fun
    | .request request _ => request.appendedDigests
    | .uploadFailed .. => []

/-- The start offsets of all append requests of a trace, in order. -/
def sentOffsets (trace : List Event) : List UInt64 :=
  trace.flatMap fun
    | .request request _ => request.appendedOffsets
    | .uploadFailed .. => []

/-- A request of the main task with its reply, as it stands in the trace. -/
def Event.ofReply (pair : Request × Except PbsError Unit) : Event :=
  .request pair.1 pair.2

theorem sent_append_of_uploads {uploads : List Event} (rest : List Event)
    (hups : ∀ event ∈ uploads, event.IsUpload) :
    sentDigests (uploads ++ rest) = sentDigests rest ∧
      sentOffsets (uploads ++ rest) = sentOffsets rest := by
  induction uploads with
  | nil => exact ⟨rfl, rfl⟩
  | cons event uploads ih =>
    obtain ⟨hdigs, hoffs⟩ := ih fun other hother => hups other (by simp [hother])
    have hevent := hups event (by simp)
    cases event with
    | uploadFailed => exact ⟨hdigs, hoffs⟩
    | request request =>
      cases request <;> first | exact ⟨hdigs, hoffs⟩ | exact absurd hevent id

theorem uploads_before {uploads rest before after : List Event} {event : Event}
    (hsplit : uploads ++ rest = before ++ event :: after)
    (hups : ∀ other ∈ uploads, other.IsUpload) (hevent : ¬ event.IsUpload) :
    ∃ middle, before = uploads ++ middle ∧ rest = middle ++ event :: after := by
  rcases append_eq_append_iff.mp hsplit with ⟨middle, hpre, hrest⟩ | ⟨middle, hup, htail⟩
  · exact ⟨middle, hpre, hrest⟩
  · cases middle with
    | nil => exact ⟨[], by simpa using hup.symm, by simpa using htail.symm⟩
    | cons =>
      obtain ⟨rfl, -⟩ := cons.inj htail
      exact absurd (hups event (by simp [hup])) hevent

namespace Upload

variable {cfg : UploadConfig} {up : Upload}

theorem appendRequests_flatMap (h : up.locals.Describes cfg up.known up.indexed) :
    up.appendRequests.flatMap Request.appendedDigests = up.indexed.map cfg.digest ∧
      up.appendRequests.flatMap Request.appendedOffsets = startOffsets up.indexed := by
  simp only [appendRequests, flatMap_map]
  exact h.batches_flatMap

/-- The requests of a phase: a beginning of the appends, or all of them, the
close request and what follows it. -/
theorem sentBy_cases {issued : List Request} (h : up.SentBy cfg issued) :
    (issued <+: up.appendRequests ∧ (issued ≠ [] → up.phase.committing = true)) ∨
      (up.phase.afterChunker = true ∧ ∃ tail, issued = up.appendRequests ++
        up.closeRequest cfg :: tail ∧ ∀ request ∈ tail, request.IsBlob ∨ request = .finish) := by
  have hblobs : ∀ blobs : List Request, (∀ request ∈ blobs, request.IsBlob) →
      ∀ request ∈ blobs, request.IsBlob ∨ request = .finish :=
    fun blobs hall request hreq => Or.inl (hall request hreq)
  unfold SentBy at h
  split at h
  case h_1 rest hphase =>
    obtain ⟨done, hdone, rfl⟩ := h
    refine Or.inl ⟨?_, fun _ => by rw [hphase]; rfl⟩
    rw [appendRequests, hdone, map_append]
    exact prefix_append _ _
  case h_2 hphase | h_3 hphase =>
    exact Or.inl ⟨h ▸ prefix_refl _, fun _ => by rw [hphase]; rfl⟩
  case h_4 hphase | h_5 hphase => exact Or.inr ⟨by rw [hphase]; rfl, [], h, by simp⟩
  case h_6 hphase | h_7 hphase | h_8 hphase =>
    obtain ⟨blobs, hall, rfl⟩ := h
    exact Or.inr ⟨by rw [hphase]; rfl, blobs, by simp, hblobs blobs hall⟩
  case h_9 hphase =>
    obtain ⟨blobs, hall, rfl⟩ := h
    refine Or.inr ⟨by rw [hphase]; rfl, blobs ++ [.finish], by simp, ?_⟩
    intro request hreq
    rcases mem_append.mp hreq with hblob | hfin
    · exact hblobs blobs hall request hblob
    · exact Or.inr (mem_singleton.mp hfin)
  case h_10 => exact Or.inl ⟨by simp [h], fun hne => absurd h hne⟩

theorem not_isUpload_of_order {requests : List Request}
    (horder : requests <+: up.appendRequests ∨ ∃ tail, requests = up.appendRequests ++
      up.closeRequest cfg :: tail ∧ ∀ request ∈ tail, request.IsBlob ∨ request = .finish)
    {request : Request} (hreq : request ∈ requests) (reply : Except PbsError Unit) :
    ¬ (Event.request request reply).IsUpload := by
  have happ : request ∈ up.appendRequests → ¬ (Event.request request reply).IsUpload := by
    intro hmem
    obtain ⟨batch, -, rfl⟩ := mem_map.mp hmem
    exact id
  rcases horder with hbegin | ⟨tail, rfl, htail⟩
  · exact happ (hbegin.subset hreq)
  · simp only [mem_append, mem_cons] at hreq
    rcases hreq with hmem | rfl | hmem
    · exact happ hmem
    · exact id
    · rcases htail request hmem with hblob | rfl
      · cases request <;> first | exact id | exact absurd hblob id
      · exact id

end Upload

/-- The requests of the main task in a reachable state: they follow the uploads,
and come in the order appends, close, blobs, finish. -/
structure MainRequests (cfg : UploadConfig) (up : Upload) (uploads : List Event)
    (main : List (Request × Except PbsError Unit)) : Prop where
  trace_eq : up.trace = uploads ++ main.map Event.ofReply
  uploads_only : ∀ event ∈ uploads, event.IsUpload
  committing : main ≠ [] → up.phase.committing = true
  order : main.map Prod.fst <+: up.appendRequests ∨
    (up.phase.afterChunker = true ∧ ∃ tail, main.map Prod.fst = up.appendRequests ++
      up.closeRequest cfg :: tail ∧ ∀ request ∈ tail, request.IsBlob ∨ request = .finish)

namespace MainRequests

variable {cfg : UploadConfig} {up : Upload} {uploads : List Event}
  {main : List (Request × Except PbsError Unit)}

theorem main_only (h : MainRequests cfg up uploads main) :
    ∀ event ∈ main.map Event.ofReply, ¬ event.IsUpload := by
  intro event hevent
  obtain ⟨pair, hpair, rfl⟩ := mem_map.mp hevent
  exact Upload.not_isUpload_of_order (h.order.imp_right And.right)
    (mem_map_of_mem hpair) pair.2

variable {reply : Except PbsError Unit}

variable (h : MainRequests cfg up uploads main)

include h

theorem mem_main {request : Request} (hmem : Event.request request reply ∈ up.trace)
    (hmain : ¬ (Event.request request reply).IsUpload) : (request, reply) ∈ main := by
  rw [h.trace_eq] at hmem
  rcases mem_append.mp hmem with hup | hmem
  · exact absurd (h.uploads_only _ hup) hmain
  · obtain ⟨pair, hpair, hsame⟩ := mem_map.mp hmem
    cases hsame
    exact hpair

theorem sent_eq :
    sentDigests up.trace = (main.map Prod.fst).flatMap Request.appendedDigests ∧
      sentOffsets up.trace = (main.map Prod.fst).flatMap Request.appendedOffsets := by
  obtain ⟨hdigs, hoffs⟩ := sent_append_of_uploads (main.map Event.ofReply) h.uploads_only
  rw [h.trace_eq, hdigs, hoffs]
  simp only [sentDigests, sentOffsets, flatMap_map]
  exact ⟨rfl, rfl⟩

theorem sent_all (hdesc : up.locals.Describes cfg up.known up.indexed) {tail : List Request}
    (hmain : main.map Prod.fst = up.appendRequests ++ up.closeRequest cfg :: tail)
    (htail : ∀ request ∈ tail, request.IsBlob ∨ request = .finish) :
    sentDigests up.trace = up.indexed.map cfg.digest ∧
      sentOffsets up.trace = startOffsets up.indexed := by
  obtain ⟨hdigs, hoffs⟩ := h.sent_eq
  obtain ⟨hall, hall'⟩ := Upload.appendRequests_flatMap hdesc
  have hempty : tail.flatMap Request.appendedDigests = [] ∧
      tail.flatMap Request.appendedOffsets = [] := by
    simp only [flatMap_eq_nil_iff]
    constructor <;> intro request hreq <;>
      rcases htail request hreq with hblob | rfl <;>
      first | rfl | (cases request <;> first | rfl | exact absurd hblob id)
  rw [hdigs, hoffs, hmain, flatMap_append, flatMap_append, flatMap_cons,
    flatMap_cons, hempty.1, hempty.2, hall, hall']
  simp [Upload.closeRequest, Request.appendedDigests, Request.appendedOffsets]

theorem sent_prefix (hdesc : main ≠ [] → up.locals.Describes cfg up.known up.indexed) :
    sentDigests up.trace <+: up.indexed.map cfg.digest ∧
      sentOffsets up.trace <+: startOffsets up.indexed := by
  obtain ⟨hdigs, hoffs⟩ := h.sent_eq
  by_cases hnone : main = []
  · rw [hdigs, hoffs, hnone]
    exact ⟨ nil_prefix, nil_prefix⟩
  · rcases h.order with ⟨rest, hrest⟩ | ⟨-, tail, hmain, htail⟩
    · obtain ⟨hall, hall'⟩ := Upload.appendRequests_flatMap (hdesc hnone)
      rw [hdigs, hoffs, ← hall, ← hall', ← hrest, flatMap_append, flatMap_append]
      exact ⟨prefix_append _ _, prefix_append _ _⟩
    · obtain ⟨hall, hall'⟩ := h.sent_all (hdesc hnone) hmain htail
      exact ⟨hall ▸ prefix_refl _, hall' ▸ prefix_refl _⟩

theorem after_close {request : Request} (hmem : (request, reply) ∈ main)
    (hreq : request = .finish ∨
      ∃ wid count size csum, request = .closeDynamicIndex wid count size csum) :
    up.phase.afterChunker = true ∧ (request = .finish ∨ request = up.closeRequest cfg) ∧
      ∃ tail, main.map Prod.fst = up.appendRequests ++ up.closeRequest cfg :: tail ∧
        ∀ request ∈ tail, request.IsBlob ∨ request = .finish := by
  have hnotAppend : request ∉ up.appendRequests := by
    intro hmem
    obtain ⟨batch, -, rfl⟩ := mem_map.mp hmem
    rcases hreq with hfin | ⟨wid, count, size, csum, hclose⟩
    · exact nomatch hfin
    · exact nomatch hclose
  have hin : request ∈ main.map Prod.fst := mem_map_of_mem hmem
  rcases h.order with hbegin | ⟨hafter, tail, hmain, htail⟩
  · exact absurd (hbegin.subset hin) hnotAppend
  · refine ⟨hafter, ?_, tail, hmain, htail⟩
    rw [hmain] at hin
    simp only [mem_append, mem_cons] at hin
    rcases hin with hin | hclose | hin
    · exact absurd hin hnotAppend
    · exact Or.inr hclose
    · rcases htail request hin with hblob | hfin
      · rcases hreq with rfl | ⟨wid, count, size, csum, rfl⟩ <;> exact absurd hblob id
      · exact Or.inl hfin

end MainRequests

section Trace

variable {Source : Type*} {cfg : UploadConfig} {state : UploadSystem Source}

theorem UploadSystem.Inv.mainRequests (h : state.Inv cfg) :
    ∃ uploads main, MainRequests cfg state.up uploads main := by
  obtain ⟨uploads, issued, refused, htrace, hups, hiss, href⟩ := h.commit.shape
  have hevs : (issued.map fun request => (request, (.ok () : Except PbsError Unit))).map
      Event.ofReply = issued.map Upload.acceptedEvent := by
    rw [map_map]
    rfl
  have hreqs : (issued.map fun request => (request, (.ok () : Except PbsError Unit))).map
      Prod.fst = issued := by
    rw [map_map]
    exact map_id issued
  rcases href with rfl | ⟨request, next, error, hpend, -, rfl⟩
  · refine ⟨uploads, issued.map fun request => (request, .ok ()), ?_, hups, ?_, ?_⟩
    · rw [htrace, hevs, append_nil]
    · intro hne
      rcases Upload.sentBy_cases hiss with ⟨-, hcomm⟩ | ⟨hafter, -⟩
      · exact hcomm (by simpa using hne)
      · exact Phase.committing_of_afterChunker hafter
    · rw [hreqs]
      exact (Upload.sentBy_cases hiss).imp_left And.left
  · -- The refused request is the next one of the same order.
    have hnext := Upload.sentBy_cases (Upload.sentBy_accepted [] hpend hiss)
    refine ⟨uploads, (issued.map fun request => (request, .ok ())) ++ [(request, .error error)],
      ?_, hups, fun _ => (Upload.pendingRequest_committing hpend).1, ?_⟩
    · rw [htrace, map_append, hevs, append_assoc]
      rfl
    · rw [map_append, hreqs]
      exact hnext.imp And.left fun ⟨hafter, hrest⟩ =>
        ⟨Upload.pendingRequest_afterChunker hpend hafter, hrest⟩

/-- Once the commit has begun, every chunk of the source is indexed and every
new one was uploaded. -/
theorem UploadSystem.Inv.committed (h : state.Inv cfg) (hphase : state.up.phase.committing = true) :
    state.up.indexed = state.feed.emitted ∧ state.feed.exit ≠ none ∧ state.up.inflight = [] ∧
      state.up.locals.Describes cfg state.up.known state.up.indexed ∧
      (∀ event ∈ state.up.trace, ¬ event.FailedUpload) ∧
      ∀ data ∈ state.up.indexed, cfg.digest data ∈ state.up.known ∨
        UploadedIn cfg state.up.wid state.up.trace data := by
  have hplain := Phase.plain_of_committing hphase
  obtain ⟨-, hcur, hspawn, -⟩ := Phase.plain_facts hplain
  obtain ⟨hqueue, hexit⟩ := h.commit.drained (Or.inl hphase)
  have hfly := h.commit.joined hphase
  refine ⟨?_, hexit, hfly, h.index.describes hplain, h.commit.succeeded hphase, ?_⟩
  · rw [h.index.emitted_eq, hcur, hqueue]
    simp
  · intro data hdata
    by_cases hknown : cfg.digest data ∈ state.up.known
    · exact Or.inl hknown
    · right
      rcases h.tasks.accounted data (by simp [hdata]) hknown with ⟨task, htask, -⟩ | hup
      · rw [hfly] at htask
        exact absurd htask not_mem_nil
      · exact hup

theorem UploadSystem.Inv.finish_mem (h : state.Inv cfg) (hphase : state.up.phase = .finished) :
    Event.request .finish (.ok ()) ∈ state.up.trace := by
  obtain ⟨uploads, issued, refused, htrace, -, hiss, -⟩ := h.commit.shape
  simp only [Upload.SentBy, hphase] at hiss
  obtain ⟨blobs, -, rfl⟩ := hiss
  rw [htrace]
  simp [Upload.acceptedEvent]

variable {reply : Except PbsError Unit}

/-- A close or finish request is sent only when the source has ended well, and
then the appended index is that of everything the source yielded. -/
theorem UploadSystem.Inv.closed (h : state.Inv cfg) {request : Request}
    (hmem : Event.request request reply ∈ state.up.trace)
    (hreq : request = .finish ∨
      ∃ wid count size csum, request = .closeDynamicIndex wid count size csum) :
    state.feed.exit = some .ok ∧ state.up.indexed = state.feed.emitted ∧
      state.up.locals.Describes cfg state.up.known state.up.indexed ∧
      sentDigests state.up.trace = state.up.indexed.map cfg.digest ∧
      sentOffsets state.up.trace = startOffsets state.up.indexed ∧
      (request = .finish ∨ request = state.up.closeRequest cfg) ∧
      ∀ data ∈ state.up.indexed, cfg.digest data ∈ state.up.known ∨
        UploadedIn cfg state.up.wid state.up.trace data := by
  obtain ⟨uploads, main, hmain⟩ := h.mainRequests
  have hnotUpload : ¬ (Event.request request reply).IsUpload := by
    rcases hreq with rfl | ⟨wid, count, size, csum, rfl⟩ <;> exact id
  obtain ⟨hafter, hsame, tail, hall, htail⟩ :=
    hmain.after_close (hmain.mem_main hmem hnotUpload) hreq
  obtain ⟨hidx, -, -, hdesc, -, hsrcs⟩ := h.committed (Phase.committing_of_afterChunker hafter)
  obtain ⟨hdigs, hoffs⟩ := hmain.sent_all hdesc hall htail
  exact ⟨h.commit.exited hafter, hidx, hdesc, hdigs, hoffs, hsame, hsrcs⟩

theorem Upload.phase_of_sentBy_finish {up : Upload} {issued : List Request}
    (h : up.SentBy cfg issued) (hfin : Request.finish ∈ issued) : up.phase = .finished := by
  have happ : Request.finish ∉ up.appendRequests := by
    intro hmem
    obtain ⟨batch, -, hbatch⟩ := mem_map.mp hmem
    exact nomatch hbatch
  have hblob : ∀ blobs : List Request, (∀ request ∈ blobs, request.IsBlob) →
      Request.finish ∉ blobs :=
    fun blobs hall hmem => absurd (hall _ hmem) id
  unfold SentBy at h
  split at h
  case h_1 rest hphase =>
    obtain ⟨done, hdone, rfl⟩ := h
    obtain ⟨batch, -, hbatch⟩ := mem_map.mp hfin
    exact nomatch hbatch
  case h_9 hphase => exact hphase
  case h_10 => exact absurd hfin (by simp [h])
  all_goals
    first
    | obtain ⟨blobs, hall, rfl⟩ := h
      simp [happ, hblob blobs hall, closeRequest] at hfin
    | subst h
      simp [happ, closeRequest] at hfin

variable {feed : Feed Source}

theorem SystemStep.mem_trace {after : UploadSystem Source} (hstep : SystemStep cfg feed state after)
    {event : Event} (hmem : event ∈ state.up.trace) : event ∈ after.up.trace := by
  cases hstep with
  | upload hrun hstep => cases hstep <;> first | exact hmem | exact mem_append_left _ hmem
  | _ => exact hmem

variable {source : Source}

theorem UploadReaches.ok_of_finished (hrun : UploadReaches cfg feed source state)
    (hphase : state.up.phase = .finished) {error : PbsError} :
    state.up.result ≠ some (.error error) := by
  induction hrun with
  | refl => exact nomatch hphase
  | tail _ hlast ih =>
    cases hlast with
    | upload hrunning hstep =>
      cases hstep with
      | refused refusal hpend =>
        -- no request is pending in the last phase
        rw [Upload.pendingRequest, hphase] at hpend
        exact nomatch hpend
      | failed hfails =>
        cases hfails with
        | opening hnot =>
          rw [hphase] at hnot
          exact nomatch hnot
        | upload hat => rcases hat with ⟨current, hat⟩ | hat <;> exact nomatch hphase.symm.trans hat
        | chunkerIo hat | chunkerPanic hat | catalogEncode hat | manifestEncode hat =>
          exact nomatch hphase.symm.trans hat
      | returned => simp
      | _ => simp [Upload.pushCurrent, hrunning]
    | _ => exact ih hphase

theorem UploadReaches.phase_of_finish_mem (hrun : UploadReaches cfg feed source state)
    (hmem : Event.request .finish (.ok ()) ∈ state.up.trace) : state.up.phase = .finished := by
  obtain ⟨uploads, issued, refused, htrace, hups, hiss, href⟩ := hrun.inv.commit.shape
  refine Upload.phase_of_sentBy_finish hiss ?_
  rw [htrace] at hmem
  simp only [mem_append, mem_map] at hmem
  rcases hmem with (hup | ⟨request, hreq, hsame⟩) | hlast
  · exact absurd (hups _ hup) id
  · obtain ⟨rfl, -⟩ := Event.request.inj hsame
    exact hreq
  · rcases href with rfl | ⟨request, next, error, -, -, rfl⟩
    · exact absurd hlast not_mem_nil
    · obtain ⟨-, hreply⟩ := Event.request.inj (mem_singleton.mp hlast)
      exact nomatch hreply

theorem UploadReaches.ok_of_finish_mem (hrun : UploadReaches cfg feed source state)
    (hmem : Event.request .finish (.ok ()) ∈ state.up.trace) {result : Except PbsError BackupStats}
    (hres : state.up.result = some result) : ∃ stats, result = .ok stats := by
  cases result with
  | ok stats => exact ⟨stats, rfl⟩
  | error => exact absurd hres (hrun.ok_of_finished (hrun.phase_of_finish_mem hmem))

end Trace

/-- **The upload protocol.**  In every state a backup can reach, whatever its
source, the known digests, the pipeline width and the order in which the upload
tasks proceed:

* an append request is preceded by the successful upload of every chunk the
  source yields in this run and the server does not have, and no upload follows
  it;
* the appended digests and offsets are a beginning of the index in stream order;
* when the close request is sent they are all of it, and its chunk count, size
  and checksum are those of that list;
* every appended digest was known or uploaded in this run with bytes that encode
  its chunk;
* after a failed upload no index, close or finish request is ever sent, and the
  call does not return Ok;
* the returned statistics add up. -/
theorem dynamicUpload_protocol {Source : Type*} {cfg : UploadConfig} {feed : Feed Source}
    {source : Source} {state : UploadSystem Source}
    (hreach : UploadReaches cfg feed source state) :
    (∀ before wid digests offsets reply after,
      state.up.trace =
        before ++ Event.request (.appendDynamicIndex wid digests offsets) reply :: after →
      state.up.indexed = state.feed.emitted ∧ state.feed.exit ≠ none ∧
        state.up.inflight = [] ∧ (∀ event ∈ before, ¬ event.FailedUpload) ∧
        (∀ event ∈ after, ¬ event.IsUpload) ∧
        ∀ data ∈ state.up.indexed, cfg.digest data ∈ state.up.known ∨
          UploadedIn cfg state.up.wid before data) ∧
    (sentDigests state.up.trace <+: state.up.indexed.map cfg.digest ∧
      sentOffsets state.up.trace <+: startOffsets state.up.indexed) ∧
    (∀ wid count size csum reply,
      Event.request (.closeDynamicIndex wid count size csum) reply ∈ state.up.trace →
      sentDigests state.up.trace = state.up.indexed.map cfg.digest ∧
        sentOffsets state.up.trace = startOffsets state.up.indexed ∧
        count = UInt64.ofNat state.up.indexed.length ∧
        size = UInt64.ofNat (totalLength state.up.indexed) ∧
        csum = entriesCsum cfg.prims (indexEntries cfg state.up.indexed)) ∧
    (∀ digest ∈ sentDigests state.up.trace, digest ∈ state.up.known ∨
      ∃ data ∈ state.up.indexed, digest = cfg.digest data ∧
        UploadedIn cfg state.up.wid state.up.trace data) ∧
    ((∃ event ∈ state.up.trace, event.FailedUpload) →
      (∀ request reply, Event.request request reply ∈ state.up.trace →
        (Event.request request reply).IsUpload) ∧
      ∀ stats, state.up.result ≠ some (.ok stats)) ∧
    (∀ stats, state.up.result = some (.ok stats) →
      state.up.indexed = state.feed.emitted ∧
        stats.chunks = UInt64.ofNat state.feed.emitted.length ∧
        stats.bytes = UInt64.ofNat (totalLength state.feed.emitted) ∧
        stats.chunks = stats.reused + stats.uploaded ∧
        stats.bytes = stats.uploadedBytes +
          UInt64.ofNat (totalLength (reusedOf cfg state.up.known state.feed.emitted))) := by
  have hinv := hreach.inv
  obtain ⟨uploads, main, hmain⟩ := hinv.mainRequests
  have hbegin := hmain.sent_prefix fun hne => (hinv.committed (hmain.committing hne)).2.2.2.1
  refine ⟨?_, hbegin, ?_, ?_, ?_, ?_⟩
  -- An append is a request of the main task, which sends nothing before it has committed to
  -- the index: then every upload has been joined, and all of them come first in the trace.
  · intro before wid digests offsets reply after htrace
    have hnotUpload :
        ¬ (Event.request (.appendDynamicIndex wid digests offsets) reply).IsUpload := id
    obtain ⟨middle, rfl, hrest⟩ := uploads_before (hmain.trace_eq.symm.trans htrace)
      hmain.uploads_only hnotUpload
    have hne : main ≠ [] := by
      rintro rfl
      simp at hrest
    obtain ⟨hindexed, hexit, hinflight, -, hsucceeded, huploaded⟩ :=
      hinv.committed (hmain.committing hne)
    refine ⟨hindexed, hexit, hinflight, fun event hevent => hsucceeded event ?_,
      fun event hevent => hmain.main_only event ?_, fun data hdata => ?_⟩
    · rw [htrace]
      exact mem_append_left _ hevent
    · rw [hrest]
      simp [hevent]
    · refine (huploaded data hdata).imp_right ?_
      rintro ⟨random, blob, hblob, hsent⟩
      refine ⟨random, blob, hblob, mem_append_left _ ?_⟩
      rw [hmain.trace_eq] at hsent
      exact (mem_append.mp hsent).resolve_right fun h => hmain.main_only _ h trivial
  -- The close request carries the locals of the loop, which describe the indexed chunks.
  · intro wid count size csum reply hclose
    obtain ⟨-, -, hdescribes, hdigests, hoffsets, hrequest, -⟩ :=
      hinv.closed hclose (Or.inr ⟨wid, count, size, csum, rfl⟩)
    obtain ⟨hcount, hsize, hcsum⟩ := hdescribes.close_fields
    have hsame : Request.closeDynamicIndex wid count size csum = state.up.closeRequest cfg :=
      hrequest.resolve_left nofun
    obtain ⟨rfl, rfl, rfl, rfl⟩ := Request.closeDynamicIndex.inj hsame
    exact ⟨hdigests, hoffsets, by rw [hcount], hsize, hcsum⟩
  · intro digest hdigest
    have hne : main ≠ [] := by
      rintro rfl
      rw [hmain.trace_eq, (sent_append_of_uploads _ hmain.uploads_only).1] at hdigest
      exact absurd hdigest not_mem_nil
    obtain ⟨-, -, -, -, -, huploaded⟩ := hinv.committed (hmain.committing hne)
    obtain ⟨data, hdata, rfl⟩ := mem_map.mp (hbegin.1.subset hdigest)
    exact (huploaded data hdata).imp_right fun h => ⟨data, hdata, rfl, h⟩
  · rintro ⟨event, hevent, hfailed⟩
    -- A failed upload keeps the main task from its first request.
    have hnone : main = [] := by
      by_contra hne
      exact (hinv.committed (hmain.committing hne)).2.2.2.2.1 event hevent hfailed
    refine ⟨fun request reply hmem => ?_, fun stats hstats => ?_⟩
    · by_contra hnot
      have := hmain.mem_main hmem hnot
      rw [hnone] at this
      exact absurd this not_mem_nil
    · have hphase := (hinv.commit.outcome stats hstats).1
      exact hinv.commit.succeeded (by rw [hphase]; rfl) event hevent hfailed
  · intro stats hstats
    obtain ⟨hphase, rfl⟩ := hinv.commit.outcome stats hstats
    obtain ⟨hindexed, -, -, hdescribes, -, -⟩ := hinv.committed (by rw [hphase]; rfl)
    rw [← hindexed]
    obtain ⟨hchunks, hbytes⟩ := hdescribes.counters
    obtain ⟨-, hsize, -⟩ := hdescribes.close_fields
    exact ⟨rfl, hdescribes.chunks, hsize, hchunks, hsize.trans hbytes⟩

/-! ### A run

A stream of two chunks, `a` and `b`, against a server that holds the first one
from the previous snapshot.  The digests and checksums are the real ones. -/

/-- SHA-256 of `a`. -/
def sampleDigestA : Digest := FixedBytes.ofBytes 32
  [202, 151, 129, 18, 202, 27, 189, 202, 250, 194, 49, 179, 154, 35, 220, 77, 167, 134, 239, 248,
    20, 124, 78, 114, 185, 128, 119, 133, 175, 238, 72, 187]

/-- SHA-256 of `b`. -/
def sampleDigestB : Digest := FixedBytes.ofBytes 32
  [62, 35, 232, 22, 0, 57, 89, 74, 51, 137, 79, 101, 100, 225, 177, 52, 139, 189, 122, 0, 136, 212,
    44, 74, 203, 115, 238, 174, 213, 156, 0, 157]

/-- SHA-256 of the entries of the previous index, which lists `a` alone. -/
def samplePreviousCsum : Digest := FixedBytes.ofBytes 32
  [205, 35, 208, 156, 76, 183, 109, 175, 90, 80, 241, 114, 195, 21, 118, 178, 10, 142, 119, 194,
    125, 190, 154, 220, 165, 175, 204, 93, 138, 27, 161, 100]

def sampleCsum : Digest := FixedBytes.ofBytes 32
  [247, 84, 74, 222, 134, 47, 157, 49, 12, 11, 217, 227, 88, 121, 181, 63, 13, 245, 117, 174, 92,
    151, 178, 2, 241, 133, 155, 187, 149, 151, 244, 220]

/-- The primitives on the inputs of the sample run. -/
def samplePrimitives : Primitives where
  sha256 input :=
    if input = [97] then sampleDigestA
    else if input = [98] then sampleDigestB
    else if input = entryBytes (1, sampleDigestA) then samplePreviousCsum
    else sampleCsum
  crc32 payload :=
    if payload = [97] then 3904355907 else if payload = [98] then 1908338681 else 2393359901
  zstdEncode payload := payload
  zstdDecode frame := .ok frame
  idKey key := key
  aesGcmEncrypt _ iv plain := some (plain, iv)
  aesGcmDecrypt _ _ cipher _ := some cipher

theorem samplePrimitives_lawful : samplePrimitives.Lawful where
  zstd_roundtrip _ := rfl
  aesGcm_roundtrip key iv plain cipher tag h := by
    obtain ⟨rfl, -⟩ := Prod.mk.inj (Option.some.inj h)
    rfl

def samplePrevious : DynamicIndexBuilder :=
  (DynamicIndexBuilder.new 1699900000 (FixedBytes.ofBytes 16 [])).push 1 sampleDigestA

def sampleManifestText (cryptMode size csum : String) : Bytes :=
  ("\x7b\"backup-type\":\"host\",\"backup-id\":\"sql01\",\"backup-time\":1700000000," ++
    "\"files\":[\x7b\"filename\":\"db.didx\",\"crypt-mode\":\"" ++ cryptMode ++
    "\",\"size\":" ++ size ++ ",\"csum\":\"" ++ csum ++
    "\"\x7d],\"unprotected\":\x7b\x7d\x7d").toUTF8.toList

def sampleManifest : Bytes :=
  sampleManifestText "none" "2" "f7544ade862f9d310c0bd9e35879b53f0df575ae5c97b202f1859bbb9597f4dc"

/-- A plain backup with deduplication and a pipeline of two. -/
def sampleConfig : UploadConfig where
  prims := samplePrimitives
  params := { backupType := "host", backupId := "sql01", backupTime := 1700000000 }
  archiveName := "db.didx"
  dedupWithPrevious := true
  compress := false
  totalBytes := 2
  crypt := none
  manifestJson _ := .ok sampleManifest
  pipelineWidth := 2
  previous := some (samplePrevious.serialize samplePrimitives)

/-- The events of the sample run: one upload, one append batch, and the commit. -/
def sampleTrace : List Event :=
  [.request (.uploadDynamicChunk 1 sampleDigestB 1 (encodeUncompressed samplePrimitives [98]))
      (.ok ()),
    .request (.appendDynamicIndex 1 [sampleDigestA, sampleDigestB] [0, 1]) (.ok ()),
    .request (.closeDynamicIndex 1 2 2 sampleCsum) (.ok ()),
    .request (.uploadBlob manifestBlobName (encodeUncompressed samplePrimitives sampleManifest))
      (.ok ()),
    .request .finish (.ok ())]

/-- What feeds the reader, and the chunker thread once it exists, can go on while
the main task waits. -/
inductive Feed.Idle {Source : Type*} (feed : Feed Source) (before after : Source) : Prop
  | quiet (hquiet : feed.quiet before after)
  | read (hread : feed.read before after)

theorem idle_run {Source : Type*} {cfg : UploadConfig} {feed : Feed Source} {up : Upload}
    {before after : Source} {emitted : List Bytes} (hstart : up.phase.started = true)
    (hrun : Relation.ReflTransGen feed.Idle before after) :
    Relation.ReflTransGen (SystemStep cfg feed)
      { feed := { source := before, emitted := emitted, exit := none }, up := up }
      { feed := { source := after, emitted := emitted, exit := none }, up := up } := by
  induction hrun with
  | refl => exact .refl
  | tail _ hlast ih =>
    cases hlast with
    | quiet hquiet => exact ih.tail (.quiet hquiet)
    | read hread => exact ih.tail (.read hstart rfl hread)

/-- The sample backup with other session parameters, archive name and size. -/
def sampleConfigFor (params : SessionParams) (archiveName : String) (totalBytes : UInt64) :
    UploadConfig :=
  { sampleConfig with params := params, archiveName := archiveName, totalBytes := totalBytes }

section SampleRun

variable {Source : Type*} {feed : Feed Source} {params : SessionParams} {archiveName : String}
  {totalBytes : UInt64} {start first second third last : Source}

theorem sampleConfigFor_known :
    (sampleConfigFor params archiveName totalBytes).knownFromPrevious = [sampleDigestA] := by
  simp only [UploadConfig.knownFromPrevious, sampleConfigFor, sampleConfig, parse_serialize]
  rfl

theorem sampleConfig_known : sampleConfig.knownFromPrevious = [sampleDigestA] :=
  sampleConfigFor_known

attribute [local irreducible] UploadConfig.knownFromPrevious in
/-- A run over any source that can yield `a` and `b` and then end, up to the
catalog: it reuses `a`, uploads `b` and closes the index. -/
theorem sampleRun_toCatalog (hidle : Relation.ReflTransGen feed.Idle start first)
    (hfirst : feed.chunk first [97] second) (hsnd : feed.chunk second [98] third)
    (hends : feed.ends third .ok last) :
    ∃ up : Upload, UploadReaches (sampleConfigFor params archiveName totalBytes) feed start
        { feed := { source := last, emitted := [[97], [98]], exit := some .ok }, up := up } ∧
      up.phase = .awaitingCatalog ∧ up.result = none ∧ up.trace = sampleTrace.take 3 ∧
      up.stats (sampleConfigFor params archiveName totalBytes) =
        ⟨2, 1, 1, 2, 1, 13, sampleCsum⟩ := by
  have hknown : sampleDigestA ∈
      (sampleConfigFor params archiveName totalBytes).knownFromPrevious := by
    rw [sampleConfigFor_known]
    exact mem_singleton.mpr rfl
  have hnew : sampleDigestB ∉
      (sampleConfigFor params archiveName totalBytes).knownFromPrevious := by
    rw [sampleConfigFor_known]
    decide
  have hblob : encodeFor samplePrimitives none false (.ok (FixedBytes.ofBytes 16 [])) [98] =
    .ok (encodeUncompressed samplePrimitives [98]) := rfl
  have hperm : 0 < 2 := by decide
  have hroom : 0 < chunkChannelCapacity := by decide
  have hroom' : 1 < chunkChannelCapacity := by decide
  refine ⟨_,
    .head (.upload rfl (.connected rfl)) <|
    .head (.upload rfl (.fetchedPrevious rfl)) <|
    .head (.upload rfl (.createdIndex 1 (FixedBytes.ofBytes 16 []) rfl)) <|
    (idle_run rfl hidle).trans <|
    .head (.chunk rfl rfl hroom rfl hfirst) <|
    .head (.chunk rfl rfl hroom' rfl hsnd) <|
    .head (.upload rfl (.receivedKnown rfl rfl hknown)) <|
    .head (.ends rfl rfl hends) <|
    .head (.upload rfl (.receivedNew rfl rfl hnew)) <|
    .head (.upload rfl (.spawned rfl hperm)) <|
    .head (.upload rfl (.pushed rfl)) <|
    .head (.upload rfl (.taskMoved (nil_append _).symm (.encoded rfl hblob))) <|
    .head (.upload rfl (.streamEnded rfl rfl (by simp))) <|
    .head (.upload rfl (.taskMoved (nil_append _).symm (.replied (.ok ()) rfl))) <|
    .head (.upload rfl (.reaped (Or.inr rfl) (nil_append _).symm rfl)) <|
    .head (.upload rfl (.joined rfl rfl)) <|
    .head (.upload rfl (.accepted rfl)) <|
    .head (.upload rfl (.appended rfl)) <|
    .head (.upload rfl (.chunkerFinished rfl rfl)) <|
    .head (.upload rfl (.accepted rfl)) .refl, rfl, rfl, ?_, ?_⟩
  · with_unfolding_all rfl
  · with_unfolding_all rfl

theorem manifest_run {cfg : UploadConfig} {state : UploadSystem Source} {json : Bytes}
    (hphase : state.up.phase = .encodingManifest) (hrun : state.up.result = none)
    (hjson : cfg.manifestJson (state.up.manifest cfg) = .ok json) :
    Relation.ReflTransGen (SystemStep cfg feed) state
      { state with
        up :=
          { state.up with
            phase := .finished
            trace := state.up.trace ++
              [.request (.uploadBlob manifestBlobName (encodeUncompressed cfg.prims json)) (.ok ()),
                .request .finish (.ok ())]
            result := some (.ok (state.up.stats cfg)) } } := by
  refine .head (.upload hrun (.manifestEncoded hphase hjson)) <|
    .head (.upload hrun (.accepted rfl)) <|
    .head (.upload hrun (.accepted rfl)) <|
    .head (.upload hrun (.returned rfl)) ?_
  rw [append_assoc]
  exact .refl

theorem sampleRun_of_feed (hidle : Relation.ReflTransGen feed.Idle start first)
    (hfirst : feed.chunk first [97] second) (hsnd : feed.chunk second [98] third)
    (hends : feed.ends third .ok last)
    (hcat : feed.catalog last = .absent ∨ feed.catalog last = .dropped) :
    ∃ state, UploadReaches sampleConfig feed start state ∧ state.feed.source = last ∧
      state.up.result = some (.ok ⟨2, 1, 1, 2, 1, 13, sampleCsum⟩) ∧
      state.up.trace = sampleTrace := by
  obtain ⟨up, hrun, hphase, hrunning, htrace, hstats⟩ :=
    @sampleRun_toCatalog _ _ sampleConfig.params sampleConfig.archiveName sampleConfig.totalBytes
      _ _ _ _ _ hidle hfirst hsnd hends
  refine ⟨_, hrun.trans <|
    .head (.upload hrunning (.catalogSkipped hphase hcat)) (manifest_run rfl hrunning rfl),
    rfl, ?_, ?_⟩
  · exact congrArg (some ∘ Except.ok) hstats
  · rw [htrace]
    rfl

end SampleRun

theorem sampleRun : ∃ state, UploadReaches sampleConfig chunkFeed ([[97], [98]], .absent) state ∧
    state.up.result = some (.ok ⟨2, 1, 1, 2, 1, 13, sampleCsum⟩) ∧
    state.up.trace = sampleTrace := by
  have hfirst : chunkFeed.chunk ([[97], [98]], .absent) [97] ([[98]], .absent) := ⟨rfl, rfl⟩
  have hsnd : chunkFeed.chunk ([[98]], .absent) [98] ([], .absent) := ⟨rfl, rfl⟩
  have hends : chunkFeed.ends ([], .absent) .ok ([], .absent) := ⟨rfl, fun _ => rfl⟩
  obtain ⟨state, hreach, -, hres, htrace⟩ := sampleRun_of_feed .refl hfirst hsnd hends (.inl rfl)
  exact ⟨state, hreach, hres, htrace⟩

/-- The protocol at the end of the sample run. -/
theorem sampleRun_protocol : ∃ state,
    UploadReaches sampleConfig chunkFeed ([[97], [98]], .absent) state ∧
      state.up.trace.length = 5 ∧
      (sentDigests state.up.trace <+: state.up.indexed.map sampleConfig.digest ∧
        sentOffsets state.up.trace <+: startOffsets state.up.indexed) ∧
      ∀ digest ∈ sentDigests state.up.trace, digest ∈ state.up.known ∨
        ∃ data ∈ state.up.indexed, digest = sampleConfig.digest data ∧
          UploadedIn sampleConfig state.up.wid state.up.trace data := by
  obtain ⟨state, hreach, -, htrace⟩ := sampleRun
  obtain ⟨-, hbegin, -, hsource, -, -⟩ := dynamicUpload_protocol hreach
  exact ⟨state, hreach, by rw [htrace]; rfl, hbegin, hsource⟩

end PbsGui.Client
