import PbsGui.Relay.AgentRegistry
import PbsGui.Relay.Sessions

/-!
# What other peers can do to a session

For a session of some agent, a connection is hostile if its peer does not hold that agent's
token.  A run is compared with the run from which the frames of the hostile connections are
left out.  The session's call ends in both in the same way, unless one of these frames names
the session: a `Hello` takes the slot out of the map before its token is looked at, and a
failure is taken from whichever agent reports it.
-/

namespace PbsGui.Relay

open Lib Function

/-! ### Hostile connections -/

namespace ServerEvent

def hostileFrame (hostile : ConnId → Bool) : ServerEvent → Bool
  | firstFrame id (some _) | controlFrame id (some _) => hostile id
  | _ => false

def LacksToken (hostile : ConnId → Bool) (secret : String) : ServerEvent → Prop
  | firstFrame id (some (.control (.register _ _ token _ _))) => hostile id = true → token ≠ secret
  | firstFrame id (some (.control (.hello _ token))) => hostile id = true → token ≠ secret
  | _ => True

/-- No hostile connection opens the session's data connection or reports its failure. -/
def Ignores (hostile : ConnId → Bool) (sessionId : String) : ServerEvent → Prop
  | firstFrame id (some (.control (.hello named _))) => hostile id = true → named ≠ sessionId
  | controlFrame id (some (.control (.sessionDone named false _ _))) =>
    hostile id = true → named ≠ sessionId
  | _ => True

def FreshFor (call : CallId) (sessionId : String) : ServerEvent → Prop
  | insertSlot other drawn => other ≠ call → drawn ≠ sessionId
  | _ => True

instance (hostile : ConnId → Bool) (secret : String) (event : ServerEvent) :
    Decidable (event.LacksToken hostile secret) := by
  unfold LacksToken
  split <;> infer_instance

instance (hostile : ConnId → Bool) (sessionId : String) (event : ServerEvent) :
    Decidable (event.Ignores hostile sessionId) := by
  unfold Ignores
  split <;> infer_instance

instance (call : CallId) (sessionId : String) (event : ServerEvent) :
    Decidable (event.FreshFor call sessionId) := by
  unfold FreshFor
  split <;> infer_instance

theorem hostile_of_hostileFrame {hostile : ConnId → Bool} {event : ServerEvent}
    (h : event.hostileFrame hostile = true) : ∃ conn, event.connId = some conn ∧ hostile conn = true := by
  unfold hostileFrame at h
  split at h
  · exact ⟨_, rfl, h⟩
  · exact ⟨_, rfl, h⟩
  · cases h

end ServerEvent

namespace Server

variable {tokens : AgentTokens} {server left right : Server} {event : ServerEvent}
  {sessionId : String} {arrival : SessionSlot → Arrival} {phase : CallPhase}

/-- Nothing that the agent's sessions use belongs to a hostile connection. -/
structure Trusted (hostile : ConnId → Bool) (agent : String) (server : Server) : Prop where
  welcoming : ∀ conn host version, (server.conns conn).phase = .welcoming agent host version →
    hostile conn = false
  entry : ∀ entry, server.agents agent = some entry → hostile entry.control = false
  control : ∀ id control, (server.calls id).agent = agent → (server.calls id).phase.Uses control →
    hostile control = false

theorem token_of_refusal {agentName token : String} {proto : UInt32}
    (h : refusal tokens agentName token proto = none) : tokens agentName = some token := by
  unfold refusal at h
  split at h
  · cases h
  · split at h
    · rename_i expected hexpected
      split at h
      · rename_i htoken
        rw [hexpected, htoken]
      · cases h
    · cases h

/-- Only a `Register` with the agent's token makes a connection welcome under its name. -/
theorem welcoming_of_step {conn : ConnId} {agent host version : String}
    (h : ((server.step tokens event).conns conn).phase = .welcoming agent host version) :
    (server.conns conn).phase = .welcoming agent host version ∨
      ∃ token proto, event = .firstFrame conn (some (.control (.register agent host token version proto))) ∧
        tokens agent = some token := by
  by_cases hevent : event.connId = some conn
  · have heff : ConnEffect tokens server conn event (server.step tokens event) := step_of_conn hevent
    generalize server.step tokens event = after at heff h
    cases heff with
    | idle => exact .inl h
    | moves hmove =>
      rw [setConn_conns, update_self] at h
      generalize server.conns conn = before at hmove ⊢
      cases hmove with
      | welcomed hphase hrefusal =>
        cases h
        exact .inr ⟨_, _, rfl, token_of_refusal hrefusal⟩
      | writerFailed => exact .inl h
      | accepted | closed | refused | unwelcomed | ended | aborted => cases h
    | registers hphase | leaves hphase | hello _ hphase => simp [register, deregister, setPhase] at h
    | report =>
      rw [settle_conns] at h
      exact .inl h
  · rw [step_conns_of_ne hevent] at h
    exact .inl h

theorem entry_of_step {agent : String} {entry : AgentConn}
    (h : (server.step tokens event).agents agent = some entry) :
    server.agents agent = some entry ∨
      ∃ host version, (server.conns entry.control).phase = .welcoming agent host version := by
  rcases @step_registry tokens server event with
    ⟨id, agentName, host, version, hphase, hstep⟩ | ⟨id, agentName, -, hstep⟩ | hsame
  · rw [hstep] at h
    simp only [register, setConn_agents] at h
    by_cases hagent : agent = agentName
    · subst hagent
      rw [update_self] at h
      cases h
      exact .inr ⟨host, version, hphase⟩
    · rw [update_of_ne hagent] at h
      exact .inl h
  · rw [hstep] at h
    exact .inl (Registry.eq_some_of_removeOwned h).1
  · rw [hsame.agents] at h
    exact .inl h

section Trust

variable {hostile : ConnId → Bool} {agent secret : String}

theorem Trusted.new : Trusted hostile agent new where
  welcoming _ _ _ h := by cases h
  entry _ h := by cases h
  control _ _ _ h := by simp [Server.new, CallPhase.Uses] at h

theorem Trusted.step (hsecret : tokens agent = some secret) (h : Trusted hostile agent server)
    (hlacks : event.LacksToken hostile secret) : Trusted hostile agent (server.step tokens event) where
  welcoming conn host version hphase := by
    rcases welcoming_of_step hphase with hold | ⟨token, proto, rfl, htoken⟩
    · exact h.welcoming conn host version hold
    · -- a hostile connection would have shown the token
      rw [hsecret] at htoken
      cases htoken
      exact Bool.eq_false_iff.mpr fun hhostile => hlacks hhostile rfl
  entry entry hentry := by
    rcases entry_of_step hentry with hold | ⟨host, version, hphase⟩
    · exact h.entry entry hold
    · exact h.welcoming entry.control host version hphase
  control id control hagent huses := by
    rcases uses_of_step huses with ⟨hold, hsame⟩ | ⟨-, entry, hentry, rfl⟩
    · exact h.control id control (hsame ▸ hagent) hold
    · exact h.entry entry (hagent ▸ hentry)

end Trust

/-! ### One session -/

/-- A call and the slot under its session's id. -/
def session (server : Server) (call : CallId) (sessionId : String) : Call × Option SessionSlot :=
  (server.calls call, server.sessions sessionId)

/-- The call has this id for its session, and no other call has. -/
structure Watched (tokens : AgentTokens) (call : CallId) (sessionId : String) (server : Server)
    : Prop where
  inv : SessionsInv tokens server
  own : (server.calls call).sessionId = some sessionId
  others : ∀ other, (server.calls other).sessionId = some sessionId → other = call

variable {call other : CallId} {named : String}

theorem others_step (h : ∀ other, (server.calls other).sessionId = some sessionId → other = call)
    (hfresh : event.FreshFor call sessionId) :
    ∀ other, ((server.step tokens event).calls other).sessionId = some sessionId → other = call := by
  intro other hid
  rcases sessionId_of_step hid with hold | rfl
  · exact h other hold
  · by_contra hother
    exact hfresh hother rfl

theorem session_of_sameCalls {after : Server} (h : SameCalls server after) :
    after.session call sessionId = server.session call sessionId := by
  rw [session, h.calls, h.sessions, session]

theorem session_setCall {changed : Call} (hother : other ≠ call) :
    (server.setCall other changed).session call sessionId = server.session call sessionId := by
  rw [session, setCall_calls, update_of_ne hother.symm]
  rfl

theorem session_moveCall :
    (server.moveCall call phase).session call sessionId =
      ({ (server.session call sessionId).1 with phase := phase }, (server.session call sessionId).2) := by
  rw [session, moveCall, setCall_calls, update_self]
  rfl

namespace Watched

theorem not_early (h : Watched tokens call sessionId server) : ¬ (server.calls call).phase.Early := by
  intro hearly
  have hnone := ((h.inv.call call).early hearly).1
  rw [h.own] at hnone
  cases hnone

theorem step (h : Watched tokens call sessionId server) (hfresh : event.FreshFor call sessionId) :
    Watched tokens call sessionId (server.step tokens event) where
  inv := h.inv.step
  own := h.inv.step_keeps.sessionId sessionId h.own
  others := others_step h.others hfresh

theorem of_run {events : List ServerEvent} (hfresh : ∀ event ∈ events, event.FreshFor call sessionId)
    (hsess : ((run tokens new events).calls call).sessionId = some sessionId) :
    Watched tokens call sessionId (run tokens new events) where
  inv := sessionsInv_run .new events
  own := hsess
  others := @EventRuns.invariant_of_foldl _ _ _ _
    (fun state => ∀ other, (state.calls other).sessionId = some sessionId → other = call)
    (fun _ _ hevent h => others_step h hevent) events hfresh new fun other hid => by cases hid

variable (h : Watched tokens call sessionId server)

include h

theorem session_settle_of_ne (hnamed : named ≠ sessionId) :
    (server.settle named arrival).session call sessionId = server.session call sessionId := by
  have hcall : (server.settle named arrival).calls call = server.calls call := by
    cases hslot : server.sessions named with
    | none => rw [settle_of_none hslot]
    | some slot =>
      have hdel : call ≠ slot.deliver := by
        rintro rfl
        have hown := (h.inv.slot named slot hslot).sessionId
        rw [h.own] at hown
        exact hnamed (Option.some.inj hown).symm
      rw [settle_calls_of_some hslot, update_of_ne hdel]
  rw [session, hcall, settle_sessions, update_of_ne hnamed.symm]
  rfl

theorem session_settle :
    (server.settle sessionId arrival).session call sessionId =
      (match server.sessions sessionId with
        | some slot => { server.calls call with arrival := arrival slot }
        | none => server.calls call, none) := by
  rw [session, settle_sessions, update_self]
  cases hslot : server.sessions sessionId with
  | none => rw [settle_of_none hslot]
  | some slot =>
    obtain rfl : slot.deliver = call := h.others _ (h.inv.slot sessionId slot hslot).sessionId
    rw [settle_calls_of_some hslot, update_self]

theorem session_of_other (hfresh : event.FreshFor call sessionId)
    (hevent : event.callId = some other) (hother : other ≠ call) :
    (server.step tokens event).session call sessionId = server.session call sessionId := by
  have heff : CallEffect tokens server other event (server.step tokens event) := step_of_call hevent
  generalize server.step tokens event = after at heff ⊢
  cases heff with
  | idle => rfl
  | looks agent | moves => exact session_setCall hother
  | inserts drawn =>
    have hdrawn : drawn ≠ sessionId := hfresh hother
    have hsett := @session_settle_of_ne _ _ _ (fun _ => .dropped) _ _ h hdrawn
    unfold Server.insertSlot
    dsimp only
    rw [session_setCall hother, ← hsett]
    simp [session, update_of_ne hdrawn.symm]
  | fails =>
    unfold Server.failCall
    dsimp only
    split
    · rename_i named hnamed
      have hne : named ≠ sessionId := by
        rintro rfl
        exact hother (h.others other hnamed)
      exact (session_setCall hother).trans (h.session_settle_of_ne hne)
    · exact session_setCall hother

theorem session_of_hostileFrame {hostile : ConnId → Bool}
    (hevent : event.hostileFrame hostile = true) (hignores : event.Ignores hostile sessionId) :
    (server.step tokens event).session call sessionId = server.session call sessionId := by
  obtain ⟨conn, hconn, -⟩ := ServerEvent.hostile_of_hostileFrame hevent
  by_cases hsett : ∃ named arrival, event.Settles conn (server.conns conn).phase named arrival
  · obtain ⟨named, arrival, hsett⟩ := hsett
    have hnamed : named ≠ sessionId := by
      generalize (server.conns conn).phase = phase at hsett
      cases hsett with
      | hello | report => exact hignores hevent
    rw [session_of_sameCalls (step_settles hsett), h.session_settle_of_ne hnamed]
  · exact session_of_sameCalls (step_sameCalls hconn fun _ _ hone => hsett ⟨_, _, hone⟩)

end Watched

/-- The two states look the same to the session. -/
structure Alike (tokens : AgentTokens) (hostile : ConnId → Bool) (call : CallId) (sessionId : String)
    (left right : Server) : Prop where
  watchedLeft : Watched tokens call sessionId left
  watchedRight : Watched tokens call sessionId right
  session : left.session call sessionId = right.session call sessionId
  conns : ∀ conn, hostile conn = false → left.conns conn = right.conns conn
  control : ∀ control, (left.calls call).phase.Uses control → hostile control = false

namespace Alike

variable {hostile : ConnId → Bool}

variable (h : Alike tokens hostile call sessionId left right)

include h

theorem calls_eq : left.calls call = right.calls call := congrArg Prod.fst h.session

theorem sessions_eq : left.sessions sessionId = right.sessions sessionId :=
  congrArg Prod.snd h.session

theorem session_settle :
    (left.settle named arrival).session call sessionId =
      (right.settle named arrival).session call sessionId := by
  by_cases hnamed : named = sessionId
  · subst hnamed
    rw [h.watchedLeft.session_settle, h.watchedRight.session_settle, h.calls_eq, h.sessions_eq]
  · rw [h.watchedLeft.session_settle_of_ne hnamed, h.watchedRight.session_settle_of_ne hnamed, h.session]

theorem session_moveCall (phase : CallPhase) :
    (left.moveCall call phase).session call sessionId =
      (right.moveCall call phase).session call sessionId := by
  rw [Server.session_moveCall, Server.session_moveCall, h.session]

theorem session_of_conn {conn : ConnId} (hevent : event.connId = some conn)
    (hkept : event.hostileFrame hostile = false) :
    (left.step tokens event).session call sessionId = (right.step tokens event).session call sessionId := by
  cases hhostile : hostile conn with
  | true =>
    -- without its frames, a hostile connection has no say in the sessions
    have hnone : ∀ phase named arrival, ¬ event.Settles conn phase named arrival := by
      intro phase named arrival hsett
      cases hsett with
      | hello | report => cases hhostile.symm.trans hkept
    rw [session_of_sameCalls (step_sameCalls hevent (hnone _)),
      session_of_sameCalls (step_sameCalls hevent (hnone _)), h.session]
  | false =>
    have hconn : left.conns conn = right.conns conn := h.conns conn hhostile
    by_cases hsett : ∃ named arrival, event.Settles conn (left.conns conn).phase named arrival
    · obtain ⟨named, arrival, hsett⟩ := hsett
      rw [session_of_sameCalls (step_settles hsett),
        session_of_sameCalls (step_settles (hconn ▸ hsett)), h.session_settle]
    · have hnone : ∀ named arrival, ¬ event.Settles conn (left.conns conn).phase named arrival :=
        fun named arrival hone => hsett ⟨named, arrival, hone⟩
      rw [session_of_sameCalls (step_sameCalls hevent hnone),
        session_of_sameCalls (step_sameCalls hevent (hconn ▸ hnone)), h.session]

theorem session_of_own (hevent : event.callId = some call) :
    (left.step tokens event).session call sessionId = (right.step tokens event).session call sessionId := by
  have hcalls := h.calls_eq
  have hearly := h.watchedRight.not_early
  cases event with
  | accept | firstFrame | welcomed | controlFrame | teardown | abortWriter | writerFailed => cases hevent
  | openSession id =>
    cases hevent
    simp only [Server.step, hcalls]
    split
    · rename_i hphase
      exact absurd (.inl hphase) hearly
    · exact h.session
  | insertSlot id =>
    cases hevent
    simp only [Server.step, hcalls]
    split
    · rename_i control token hphase
      exact absurd (.inr ⟨control, token, hphase⟩) hearly
    · exact h.session
  | sendStart id =>
    cases hevent
    simp only [Server.step, hcalls]
    split
    · rename_i control hphase
      rw [h.conns control (h.control control (.inl (hcalls ▸ hphase)))]
      split
      · exact h.session_moveCall _
      · exact h.session_moveCall _
    · exact h.session
  | poll id =>
    cases hevent
    simp only [Server.step, Server.pollCall, hcalls]
    split
    · split
      · exact h.session_moveCall _
      · exact h.session_moveCall _
      · exact h.session_moveCall _
      · split
        · exact h.session_moveCall _
        · exact h.session
    · exact h.session
  | removeSlot id =>
    cases hevent
    simp only [Server.step, Server.failCall, hcalls, h.watchedRight.own]
    split
    · rw [Server.session_moveCall, Server.session_moveCall, h.session_settle]
    · exact h.session
  | cancel id =>
    cases hevent
    simp only [Server.step, hcalls]
    split
    · exact h.session_moveCall _
    · exact h.session_moveCall _
    · exact h.session

theorem session_of_kept (hfresh : event.FreshFor call sessionId)
    (hkept : event.hostileFrame hostile = false) :
    (left.step tokens event).session call sessionId = (right.step tokens event).session call sessionId := by
  cases hconn : event.connId with
  | some => exact h.session_of_conn hconn hkept
  | none =>
    obtain ⟨other, hother⟩ := ServerEvent.exists_callId hconn
    by_cases hown : other = call
    · exact h.session_of_own (hown ▸ hother)
    · rw [h.watchedLeft.session_of_other hfresh hother hown,
        h.watchedRight.session_of_other hfresh hother hown, h.session]

theorem control_step {control : ConnId}
    (huses : ((left.step tokens event).calls call).phase.Uses control) :
    hostile control = false := by
  rcases uses_of_step huses with ⟨hold, -⟩ | ⟨habs, -⟩
  · exact h.control control hold
  · exact absurd (.inl habs) h.watchedLeft.not_early

theorem kept (hfresh : event.FreshFor call sessionId) (hkept : event.hostileFrame hostile = false) :
    Alike tokens hostile call sessionId (left.step tokens event) (right.step tokens event) where
  watchedLeft := h.watchedLeft.step hfresh
  watchedRight := h.watchedRight.step hfresh
  session := h.session_of_kept hfresh hkept
  conns conn hconn := step_conns_congr (h.conns conn hconn)
  control _ huses := h.control_step huses

theorem leftOut (hfresh : event.FreshFor call sessionId)
    (hignores : event.Ignores hostile sessionId) (hhostile : event.hostileFrame hostile = true) :
    Alike tokens hostile call sessionId (left.step tokens event) right where
  watchedLeft := h.watchedLeft.step hfresh
  watchedRight := h.watchedRight
  session := (h.watchedLeft.session_of_hostileFrame hhostile hignores).trans h.session
  conns conn hconn := by
    obtain ⟨sender, hsender, hsends⟩ := ServerEvent.hostile_of_hostileFrame hhostile
    have hne : event.connId ≠ some conn := by
      intro hevent
      obtain rfl : sender = conn := Option.some.inj (hsender.symm.trans hevent)
      cases hconn.symm.trans hsends
    rw [step_conns_of_ne hne]
    exact h.conns conn hconn
  control _ huses := h.control_step huses

end Alike

/-- Whatever hostile connections send, a session that they do not name in a `Hello` or in
the report of a failure ends as it ends without their frames.  Before the session they
must not have got into the agent's place, and the id of the session is its own. -/
theorem session_undisturbed (tokens : AgentTokens) (hostile : ConnId → Bool)
    (past later : List ServerEvent)
    (call : CallId) (agent secret sessionId : String) (hsecret : tokens agent = some secret)
    (hagent : ((run tokens new past).calls call).agent = agent)
    (hsession : ((run tokens new past).calls call).sessionId = some sessionId)
    (hlacks : ∀ event ∈ past, event.LacksToken hostile secret)
    (hfresh : ∀ event ∈ past ++ later, event.FreshFor call sessionId)
    (hignores : ∀ event ∈ later, event.Ignores hostile sessionId) :
    let before := run tokens new past
    (before.run tokens later).calls call =
      (before.run tokens (later.filter fun event => !event.hostileFrame hostile)).calls call := by
  intro before
  have hwatched : Watched tokens call sessionId before :=
    .of_run (List.forall_mem_append.mp hfresh).1 hsession
  have htrusted : Trusted hostile agent before :=
    EventRuns.invariant_of_foldl (fun _ _ hevent h => h.step hsecret hevent) hlacks .new
  have hstart : Alike tokens hostile call sessionId before before :=
    ⟨hwatched, hwatched, rfl, fun _ _ => rfl, fun control huses =>
      htrusted.control call control hagent huses⟩
  have hend : Alike tokens hostile call sessionId (before.run tokens later)
      (before.run tokens (later.filter fun event => !event.hostileFrame hostile)) := by
    refine @EventRuns.related_of_filter _ _ _
      (fun event => event.FreshFor call sessionId ∧ event.Ignores hostile sessionId) _ _
      (fun left right event hevent hkeep h => ?_) (fun left right event hevent hkeep h => ?_) _
      (fun event hevent => ?_) _ _ hstart
    · exact h.kept hevent.1 (by simpa using hkeep)
    · exact h.leftOut hevent.1 hevent.2 (by simpa using hkeep)
    · exact ⟨hfresh event (List.mem_append_right _ hevent), hignores event hevent⟩
  exact hend.calls_eq

def sampleTokens : AgentTokens := fun agentName =>
  if agentName = "alpha" then some "a-token" else if agentName = "beta" then some "b-token" else none

/-- `alpha` on connection 1 and `beta` on connection 2 are connected, and a session has been
started on `alpha`. -/
def samplePast : List ServerEvent :=
  [.accept 1, .firstFrame 1 (some (.control (.register "alpha" "host1" "a-token" "1.0" 1))),
    .welcomed 1 true,
    .accept 2, .firstFrame 2 (some (.control (.register "beta" "host2" "b-token" "1.0" 1))),
    .welcomed 2 true,
    .openSession 0 "alpha", .insertSlot 0 "session", .sendStart 0]

/-- Only connections 1 and 4 are those of `alpha`. -/
def sampleHostile (conn : ConnId) : Bool := conn ≠ 1 && conn ≠ 4

/-- The agent opens its data connection, and the call goes on to its end. -/
def sampleArrival : List ServerEvent :=
  [.accept 4, .firstFrame 4 (some (.control (.hello "session" "a-token"))), .poll 0 false, .removeSlot 0]

/-- A stranger opens a data connection for the session with a token it has made up. -/
def sampleGuess : List ServerEvent :=
  [.accept 3, .firstFrame 3 (some (.control (.hello "session" "guess")))]

/-- `beta` reports that the session of `alpha` has failed. -/
def sampleReport : List ServerEvent :=
  [.controlFrame 2 (some (.control (.sessionDone "session" false (some "no device") 0)))]

/-- The same two name a session that is not there. -/
def sampleElsewhere : List ServerEvent :=
  [.accept 3, .firstFrame 3 (some (.control (.hello "other" "guess"))),
    .controlFrame 2 (some (.control (.sessionDone "other" false (some "no device") 0)))]

theorem sampleElsewhere_undisturbed :
    let before := run sampleTokens new samplePast
    let later := sampleElsewhere ++ sampleArrival
    (before.run sampleTokens later).calls 0 =
        (before.run sampleTokens (later.filter fun event => !event.hostileFrame sampleHostile)).calls 0 ∧
      ((before.run sampleTokens later).calls 0).phase = .returned (.ok 4) := by
  refine ⟨session_undisturbed sampleTokens sampleHostile samplePast (sampleElsewhere ++ sampleArrival) 0
    "alpha" "a-token" "session" rfl rfl rfl ?_ ?_ ?_, rfl⟩
  · decide
  · decide
  · decide

/-- The session is pending, no hostile frame shows the token of its agent, and yet either of
the two frames that name the session decides how it ends. -/
theorem hostileFrames_disturb_session :
    let before := run sampleTokens new samplePast
    let hostileLeftOut := fun later : List ServerEvent =>
      later.filter fun event => !event.hostileFrame sampleHostile
    before.calls 0 = ⟨"alpha", some "session", .waiting, .pending⟩ ∧
      sampleTokens "alpha" = some "a-token" ∧
      (∀ event ∈ samplePast ++ sampleGuess ++ sampleReport ++ sampleArrival,
        event.LacksToken sampleHostile "a-token" ∧ event.FreshFor 0 "session") ∧
      ((before.run sampleTokens (sampleGuess ++ sampleArrival)).calls 0).phase =
        .returned (.error (noDataConn "alpha")) ∧
      ((before.run sampleTokens (hostileLeftOut (sampleGuess ++ sampleArrival))).calls 0).phase =
        .returned (.ok 4) ∧
      ((before.run sampleTokens (sampleReport ++ sampleArrival)).calls 0).phase =
        .returned (.error ("relay agent '" ++ "alpha" ++ "' could not start the session: " ++
          "no device")) ∧
      ((before.run sampleTokens (hostileLeftOut (sampleReport ++ sampleArrival))).calls 0).phase =
        .returned (.ok 4) := by
  refine ⟨rfl, rfl, ?_, rfl, rfl, rfl, rfl⟩
  decide

end Server

end PbsGui.Relay
