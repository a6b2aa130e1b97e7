import E6irc.Core.SignIn

/-!
# The payload of a SASL exchange

The chunks of a payload are collected in `sasl_buf`, beside the state that says which
mechanism they are for.  Whatever ends an exchange has to clear both: `sasl_fail`
clears the state only, and `cmd_authenticate` calls it with chunks in the buffer when
the session has withdrawn its `sasl` capability.

`Quiet` is what every event but an `AUTHENTICATE` line may do to the two, and `Takes`
what such a line does.
-/

namespace E6irc.Connecting

open Base Session State

/-! ## Handing over a payload -/

/-- The name a mechanism is selected by. -/
def SaslState.mechanism : SaslState → Option Bytes
  | .plainPending => some (ascii "PLAIN")
  | .bearerPending => some (ascii "OAUTHBEARER")
  | .idle | .verifying => none

/-- What an argument of `AUTHENTICATE` adds to the payload. -/
def piece (arg : Bytes) : Bytes :=
  if arg = ascii "+" then [] else arg

namespace State

/-- The payload that an event hands to the parser of a mechanism. -/
def handed (cfg : Config) (s : State) : Event → Option (ConnId × SaslState × Bytes)
  | .authenticate conn _ p => do
    let session ← s.sessions.lookup conn
    guard (cfg.saslEnabled ∧ session.caps.contains (ascii "sasl"))
    let arg ← p.head?
    guard (session.account = none ∧ arg ≠ ascii "*" ∧ session.sasl.mechanism.isSome)
    -- A chunk of full length is not the last one.
    guard (arg.length < maxAuthenticateChunkLen)
    let payload := session.saslBuf ++ piece arg
    guard (payload.length ≤ maxAuthenticatePayloadLen)
    guard (session.pendingIdentify = false ∧ session.saslVerify = false)
    some (conn, session.sasl, payload)
  | _ => none

end State

/-! ## What other events do to an exchange -/

/-- The exchange goes on as it was, or it is over: with nothing kept of it, or while
its credentials were being verified. -/
def Session.Quiet (before after : Session) : Prop :=
  (after.sasl = before.sasl ∧ after.saslBuf = before.saslBuf ∧
      (after.account = none → before.account = none)) ∨
    (after.sasl = .idle ∧
      (after.saslBuf = [] ∨ before.sasl = .verifying ∧ after.saslBuf = before.saslBuf))

theorem Session.Quiet.refl (session : Session) : session.Quiet session := .inl ⟨rfl, rfl, id⟩

theorem Session.Quiet.trans {a b c : Session} (first : a.Quiet b) (second : b.Quiet c) :
    a.Quiet c := by
  rcases first with ⟨sasl, buf, account⟩ | ⟨idle, kept⟩
  · rcases second with ⟨sasl', buf', account'⟩ | ⟨idle', kept'⟩
    · exact .inl ⟨sasl'.trans sasl, buf'.trans buf, account ∘ account'⟩
    · rw [sasl, buf] at kept'
      exact .inr ⟨idle', kept'⟩
  · rcases second with ⟨sasl', buf', -⟩ | ⟨idle', empty | ⟨verifying, -⟩⟩
    · rw [← buf'] at kept
      exact .inr ⟨sasl'.trans idle, kept⟩
    · exact .inr ⟨idle', .inl empty⟩
    · rw [idle] at verifying
      cases verifying

theorem Session.frame_quiet : Frame Quiet where
  other same := .inl ⟨same.sasl, same.saslBuf, fun out => by rwa [account, same.login] at out⟩
  abandons _ := .inr ⟨rfl, .inl rfl⟩
  trans := Quiet.trans

namespace State

variable {cfg : Config} {s s' t : State} {conn : ConnId}

/-- Every session that is left was there, and its exchange is as it was or over. -/
def Quiet (s s' : State) : Prop :=
  ∀ conn after, s'.sessions.lookup conn = some after →
    ∃ before, s.sessions.lookup conn = some before ∧ before.Quiet after

theorem Quiet.refl (s : State) : Quiet s s := fun _ after held => ⟨after, held, .refl after⟩

theorem Quiet.trans (first : Quiet s t) (second : Quiet t s') : Quiet s s' := by
  intro conn after held
  obtain ⟨mid, heldMid, later⟩ := second conn after held
  obtain ⟨before, heldBefore, earlier⟩ := first conn mid heldMid
  exact ⟨before, heldBefore, earlier.trans later⟩

variable {session : Session} {f : Session → Session}

theorem quiet_modify
    (own : ∀ session, s.sessions.lookup conn = some session → session.Quiet (f session)) :
    Quiet s (s.modify conn f) := by
  intro other after held
  rcases eq_or_ne other conn with rfl | apart
  · rw [modify_sessions] at held
    obtain ⟨before, heldBefore, rfl⟩ := Option.map_eq_some_iff.mp held
    exact ⟨before, heldBefore, own before heldBefore⟩
  · rw [modify_sessions_of_ne f apart] at held
    exact ⟨after, held, .refl after⟩

/-- A change to what an exchange does not use. -/
theorem quiet_modify_other
    (same : ∀ session, (f session).sasl = session.sasl ∧ (f session).saslBuf = session.saslBuf ∧
      (f session).login = session.login := by exact fun _ => ⟨rfl, rfl, rfl⟩) :
    Quiet s (s.modify conn f) := by
  refine quiet_modify fun session _ => .inl ?_
  obtain ⟨sasl, buf, login⟩ := same session
  exact ⟨sasl, buf, fun out => by rwa [account, login] at out⟩

theorem quiet_send (reply : Reply) : Quiet s (s.send conn reply) :=
  (moved_send frame_quiet reply).sessions

theorem quiet_maybeCompleteRegistration : Quiet s (s.maybeCompleteRegistration conn) :=
  (moved_maybeCompleteRegistration frame_quiet).sessions

/-- An attempt goes on, charged, or the session is closed. -/
theorem quiet_credentialAttempt (go : State → State) (goes : ∀ s, Quiet s (go s)) :
    Quiet s (s.credentialAttempt conn go) := by
  unfold credentialAttempt
  split
  · exact .refl s
  split
  · exact (moved_closeWithError frame_quiet _).sessions
  · refine Quiet.trans ?_ (goes _)
    exact quiet_modify_other

theorem quiet_credentialCheckQueued (origin : CredentialOrigin) :
    Quiet s (s.credentialCheckQueued conn origin) := by
  have queued : Quiet s { s with inFlight := s.inFlight ++ [(conn, origin)] } := .refl s
  exact queued.trans quiet_modify_other

theorem quiet_nickservIdentify (queued : Bool) : Quiet s (s.nickservIdentify conn queued) := by
  unfold nickservIdentify
  split
  · exact .refl s
  split
  · exact .refl s
  split
  · exact quiet_send _
  refine quiet_credentialAttempt _ fun s => ?_
  split
  · refine Quiet.trans ?_ (quiet_credentialCheckQueued _)
    exact quiet_modify_other
  · exact quiet_send _

theorem Settles.quiet {origin : CredentialOrigin} (settles : Settles conn origin s t) :
    Quiet s t := by
  induction settles with
  | stays => exact .refl s
  | ends going =>
    refine quiet_modify fun session held => ?_
    cases origin with
    | sasl => exact .inr ⟨rfl, .inr ⟨of_decide_eq_true (going session held), rfl⟩⟩
    | nickServIdentify => exact .inl ⟨rfl, rfl, id⟩
  | signs _ signed ih =>
    refine ih.trans (quiet_modify fun session _ => .inl ?_)
    exact ⟨(signed session).sasl, (signed session).saslBuf, (signed session).account⟩
  | completes _ ih => exact ih.trans quiet_maybeCompleteRegistration

theorem quiet_dbReply (origin : CredentialOrigin) (verdict : Verdict) :
    Quiet s (s.dbReply cfg conn origin verdict) := by
  cases found : s.sessions.lookup conn with
  | none =>
    rw [dbReply, found]
    exact .refl s
  | some session =>
    refine Quiet.trans ?_ (Settles.dbReply found verdict rfl).quiet
    split
    · exact quiet_modify_other
    · exact .refl s

/-! ## What a line does to an exchange -/

end State

/-- What an `AUTHENTICATE` line with the parameters `p` does to its session. -/
inductive Session.Takes (cfg : Config) (p : List Bytes) (before after : Session) : Prop
  /-- The session may not authenticate: the state is cleared and the buffer is not. -/
  | barred : ¬ (cfg.saslEnabled = true ∧ ascii "sasl" ∈ before.caps) → after.sasl = .idle →
    after.saslBuf = before.saslBuf → Takes cfg p before after
  | refused : p.head? = none ∨ before.account ≠ none → after.sasl = before.sasl →
    after.saslBuf = before.saslBuf → after.account = before.account → Takes cfg p before after
  | ended : after.sasl.mechanism = none → after.saslBuf = [] → Takes cfg p before after
  | selected {arg : Bytes} : before.sasl = .idle → p.head? = some arg →
    after.sasl.mechanism = some (toAsciiUppercase arg) → after.saslBuf = before.saslBuf →
    Takes cfg p before after
  | nothing : before.sasl.mechanism = none → after.sasl = .idle →
    after.saslBuf = before.saslBuf → Takes cfg p before after
  | chunk {arg : Bytes} : p.head? = some arg → before.account = none →
    before.sasl.mechanism.isSome → after.sasl = before.sasl →
    after.saslBuf = before.saslBuf ++ piece arg → Takes cfg p before after

namespace State

variable {cfg : Config} {s s' t : State} {conn : ConnId}

/-- Only the session of `conn` changes. -/
def Apart (conn : ConnId) (s s' : State) : Prop :=
  ∀ other ≠ conn, s'.sessions.lookup other = s.sessions.lookup other

theorem Exchanges.apart (did : Exchanges conn s s') : Apart conn s s' := by
  induction did with
  | refl => exact fun _ _ => rfl
  | queues _ _ ih => exact ih
  | modify _ _ ih => exact fun other apart => (modify_sessions_of_ne _ apart).trans (ih other apart)
  | closes _ _ ih => exact fun other apart => (AList.lookup_erase_ne apart).trans (ih other apart)

variable {after : Session} {queued : Bool} {p : List Bytes}

/-- The session that an attempt goes on with. -/
theorem credentialAttempt_eq_some {go : State → State}
    (held : (s.credentialAttempt conn go).sessions.lookup conn = some after) :
    (go (s.modify conn fun session =>
      { session with credentialAttempts := session.credentialAttempts + 1 })).sessions.lookup conn =
        some after := by
  unfold credentialAttempt at held
  split at held
  · rename_i gone
    rw [gone] at held
    cases held
  split at held
  · have erased : (s.closeWithError conn (ascii "Too many authentication attempts")
        ).sessions.lookup conn = none := AList.lookup_erase _ _
    rw [erased] at held
    cases held
  · exact held

variable {session : Session}

theorem authenticateChunk_takes {mechanism : SaslState}
    {arg : Bytes} (found : s.sessions.lookup conn = some session)
    (given : p.head? = some arg) (out : session.account = none)
    (pending : session.sasl.mechanism.isSome)
    (held : (s.authenticateChunk cfg conn mechanism queued session arg).sessions.lookup conn =
      some after) : session.Takes cfg p after := by
  unfold authenticateChunk at held
  dsimp only at held
  generalize isPayload : session.saslBuf ++ (if arg = ascii "+" then [] else arg) = payload at held
  split at held
  · have failed := credentialAttempt_eq_some held
    obtain rfl := eq_of_modify (lookup_modify (lookup_modify (lookup_modify found _) _) _) failed
    exact .ended rfl rfl
  split at held
  · obtain rfl := eq_of_modify found held
    exact .chunk given out pending rfl isPayload.symm
  have kept := lookup_modify found fun session => { session with saslBuf := [] }
  split at held
  · obtain rfl := eq_of_modify (lookup_modify kept _) held
    exact .ended rfl rfl
  have goes := credentialAttempt_eq_some held
  have charged := lookup_modify kept fun session =>
    { session with credentialAttempts := session.credentialAttempts + 1 }
  split at goes
  · split at goes
    · simp only [saslVerifyQueued, credentialCheckQueued, modify_sessions, found, Option.map_some,
        Option.some.injEq] at goes
      subst goes
      exact .ended rfl rfl
    · obtain rfl := eq_of_modify (lookup_modify (lookup_modify charged _) _) goes
      exact .ended rfl rfl
  · obtain rfl := eq_of_modify (lookup_modify charged _) goes
    exact .ended rfl rfl

theorem cmdAuthenticate_takes (found : s.sessions.lookup conn = some session)
    (held : (s.cmdAuthenticate cfg conn queued p).sessions.lookup conn = some after) :
    session.Takes cfg p after := by
  simp only [cmdAuthenticate, found] at held
  split at held
  · rename_i barred
    obtain rfl := eq_of_modify (lookup_modify found _) held
    exact .barred (by simpa [Decidable.imp_iff_not_or] using barred) rfl rfl
  split at held
  · rename_i missing
    obtain rfl := eq_of_modify found held
    exact .refused (.inl missing) rfl rfl rfl
  rename_i arg given
  split at held
  · rename_i isIn
    obtain rfl := eq_of_modify found held
    exact .refused (.inr (Option.isSome_iff_ne_none.mp isIn)) rfl rfl rfl
  rename_i isOut
  split at held
  · obtain rfl := eq_of_modify (lookup_modify found _) held
    exact .ended rfl rfl
  split at held
  · obtain rfl := eq_of_modify (lookup_modify found _) held
    exact .ended rfl rfl
  cases state : session.sasl with
  | idle =>
    simp only [state] at held
    split at held
    · rename_i plain
      obtain rfl := eq_of_modify (lookup_modify found _) held
      exact .selected state given (congrArg some plain.symm) rfl
    split at held
    · rename_i bearer
      obtain rfl := eq_of_modify (lookup_modify found _) held
      exact .selected state given (congrArg some bearer.symm) rfl
    · obtain rfl := eq_of_modify (lookup_modify (lookup_modify found _) _) held
      exact .nothing (by rw [state]; rfl) rfl rfl
  | plainPending | bearerPending =>
    simp only [state] at held
    exact authenticateChunk_takes found given (by simpa using isOut) (by rw [state]; rfl) held
  | verifying =>
    simp only [state] at held
    obtain rfl := eq_of_modify (lookup_modify found _) held
    exact .nothing (by rw [state]; rfl) rfl rfl

end State

/-! ## The chunks since a mechanism was selected -/

/-- What an event adds to the payload of `conn`. -/
def chunk (conn : ConnId) : Event → Bytes
  | .authenticate other _ p => if other = conn then p.head?.elim [] piece else []
  | _ => []

section Since

variable {cfg : Config} {conn : ConnId} {mechanism : SaslState} {es during : List Event}
variable {s s' : State} {e : Event}

variable (cfg conn mechanism es during) in
/-- `during` follows the line that selected the mechanism of `conn`, and the
mechanism has been the current one ever since. -/
def Since : Prop :=
  ∃ front queued p arg s session, es = front ++ .authenticate conn queued p :: during ∧
    (shard cfg).Run System.anyStep front s ∧ s.sessions.lookup conn = some session ∧
    session.sasl = .idle ∧ p.head? = some arg ∧
    mechanism.mechanism = some (toAsciiUppercase arg) ∧
    ∀ middle t, middle <+: during →
      (shard cfg).Run System.anyStep (front ++ .authenticate conn queued p :: middle) t →
        ∃ session, t.sessions.lookup conn = some session ∧ session.sasl = mechanism

variable {session : Session} {queued : Bool} {p : List Bytes}

theorem Since.snoc (since : Since cfg conn mechanism es during)
    (run : (shard cfg).Run System.anyStep (es ++ [e]) s')
    (held : s'.sessions.lookup conn = some session) (current : session.sasl = mechanism) :
    Since cfg conn mechanism (es ++ [e]) (during ++ [e]) := by
  obtain ⟨front, queued, p, arg, s, before, rfl, reached, found, idle, given, named, always⟩ := since
  refine ⟨front, queued, p, arg, s, before, by simp, reached, found, idle, given, named, ?_⟩
  intro middle t part runs
  rcases List.prefix_concat_iff.mp part with rfl | shorter
  · have whole : (shard cfg).Run System.anyStep
        (front ++ .authenticate conn queued p :: (during ++ [e])) s' := by
      simpa using run
    have same : t = s' := runs.unique whole
    exact ⟨session, same ▸ held, current⟩
  · exact always middle t shorter runs

variable {after : Session}

theorem since_selected {arg : Bytes}
    (run : (shard cfg).Run System.anyStep es s) (found : s.sessions.lookup conn = some session)
    (idle : session.sasl = .idle) (given : p.head? = some arg)
    (step : (shard cfg).step s (.authenticate conn queued p) = some s')
    (held : s'.sessions.lookup conn = some after)
    (named : after.sasl.mechanism = some (toAsciiUppercase arg)) :
    Since cfg conn after.sasl (es ++ [.authenticate conn queued p]) [] := by
  refine ⟨es, queued, p, arg, s, session, rfl, run, found, idle, given, named, ?_⟩
  intro middle t part runs
  obtain rfl := List.prefix_nil.mp part
  have same : t = s' := runs.unique (run.snoc trivial step)
  exact ⟨after, same ▸ held, rfl⟩

/-! ## What the buffer holds -/

variable (cfg conn es) in
/-- The buffer holds the chunks since the current mechanism was selected, and nothing
while there is none.  A session that is logged in has its lines refused. -/
structure Collects (session : Session) : Prop where
  between : session.sasl.mechanism = none → session.saslBuf = []
  pending : session.sasl.mechanism.isSome → session.account = none →
    ∃ during, Since cfg conn session.sasl es during ∧ session.saslBuf = during.flatMap (chunk conn)

variable {before : Session}

theorem Collects.same (collects : Collects cfg conn es before)
    (run : (shard cfg).Run System.anyStep (es ++ [e]) s')
    (held : s'.sessions.lookup conn = some after) (silent : chunk conn e = [])
    (sasl : after.sasl = before.sasl) (buf : after.saslBuf = before.saslBuf)
    (account : after.account = none → before.account = none) :
    Collects cfg conn (es ++ [e]) after where
  between noMechanism := by
    rw [buf]
    exact collects.between (sasl ▸ noMechanism)
  pending isPending out := by
    obtain ⟨during, since, collected⟩ := collects.pending (sasl ▸ isPending) (account out)
    refine ⟨during ++ [e], sasl ▸ since.snoc run held sasl, ?_⟩
    rw [buf, collected, List.flatMap_append]
    simp [silent]

theorem Collects.of_none (noMechanism : session.sasl.mechanism = none)
    (empty : session.saslBuf = []) : Collects cfg conn es session where
  between _ := empty
  pending isPending := by
    rw [noMechanism] at isPending
    cases isPending

theorem Collects.quiet (collects : Collects cfg conn es before)
    (run : (shard cfg).Run System.anyStep (es ++ [e]) s')
    (held : s'.sessions.lookup conn = some after) (silent : chunk conn e = [])
    (quiet : before.Quiet after) : Collects cfg conn (es ++ [e]) after := by
  rcases quiet with ⟨sasl, buf, account⟩ | ⟨idle, empty | ⟨verifying, buf⟩⟩
  · exact collects.same run held silent sasl buf account
  · exact .of_none (by rw [idle]; rfl) empty
  · refine .of_none (by rw [idle]; rfl) ?_
    rw [buf]
    exact collects.between (by rw [verifying]; rfl)

theorem Collects.takes
    (collects : Collects cfg conn es before) (run : (shard cfg).Run System.anyStep es s)
    (step : (shard cfg).step s (.authenticate conn queued p) = some s')
    (found : s.sessions.lookup conn = some before)
    (held : s'.sessions.lookup conn = some after) (takes : before.Takes cfg p after)
    (clean : (cfg.saslEnabled = true ∧ ascii "sasl" ∈ before.caps) ∨ before.saslBuf = []) :
    Collects cfg conn (es ++ [.authenticate conn queued p]) after := by
  have runs := run.snoc trivial step
  cases takes with
  | barred barred idle buf =>
    exact .of_none (by rw [idle]; rfl) (buf.trans (clean.resolve_left barred))
  | refused why sasl buf account =>
    rcases why with missing | isIn
    · refine collects.same runs held ?_ sasl buf fun out => account.symm.trans out
      simp [chunk, missing]
    · refine ⟨fun noMechanism => buf.trans (collects.between (sasl ▸ noMechanism)), fun _ out => ?_⟩
      exact absurd (account.symm.trans out) isIn
  | ended noMechanism empty => exact .of_none noMechanism empty
  | selected idle given named buf =>
    have empty : after.saslBuf = [] := buf.trans (collects.between (by rw [idle]; rfl))
    refine ⟨fun _ => empty, fun _ _ => ⟨[], ?_, empty⟩⟩
    exact since_selected run found idle given step held named
  | nothing noMechanism idle buf =>
    exact .of_none (by rw [idle]; rfl) (buf.trans (collects.between noMechanism))
  | chunk given out pending sasl buf =>
    obtain ⟨during, since, collected⟩ := collects.pending pending out
    constructor
    · intro noMechanism
      rw [sasl] at noMechanism
      rw [noMechanism] at pending
      cases pending
    · intro _ _
      refine ⟨during ++ [.authenticate conn queued p], sasl ▸ since.snoc runs held sasl, ?_⟩
      rw [buf, collected, List.flatMap_append]
      simp [chunk, given]

variable (cfg s) in
/-- An `AUTHENTICATE` line of a session that may not authenticate finds no chunks. -/
def State.FindsClear : Event → Prop
  | .authenticate conn _ _ => ∀ session, s.sessions.lookup conn = some session →
      (cfg.saslEnabled = true ∧ ascii "sasl" ∈ session.caps) ∨ session.saslBuf = []
  | _ => True

/-- Every event but a line and an opening leaves exchanges as they were or over. -/
theorem State.step_quiet (step : s.step cfg e = some s') :
    (∃ conn host saslRequired, e = .opened conn host saslRequired) ∨
      (∃ conn queued p, e = .authenticate conn queued p) ∨ s.Quiet s' ∧ ∀ conn, chunk conn e = [] := by
  cases e
  case opened conn host saslRequired => exact .inl ⟨conn, host, saslRequired, rfl⟩
  case authenticate conn queued p => exact .inr (.inl ⟨conn, queued, p, rfl⟩)
  all_goals refine .inr (.inr ⟨?_, fun _ => rfl⟩)
  case verdict conn origin verdict =>
    obtain ⟨-, rfl⟩ := guard_some_eq_some.mp step
    have taken : s.Quiet { s with inFlight := s.inFlight.erase (conn, origin) } := .refl s
    exact taken.trans (quiet_dbReply origin verdict)
  all_goals cases step
  case nick conn checks p => exact ((Registers.cmdNick checks p).moved frame_quiet).sessions
  case user conn p => exact ((Registers.cmdUser p).moved frame_quiet).sessions
  case cap conn p => exact ((Registers.cmdCap p).moved frame_quiet).sessions
  case identify conn queued => exact quiet_nickservIdentify queued
  case gone conn => exact (moved_close frame_quiet).sessions
  case suspension account suspended reason =>
    unfold applyAccountSuspension
    dsimp only
    split
    · have noted : s.Quiet { s with
          suspendedAccounts := s.suspendedAccounts.insert (cfg.casemap.casefold account) } :=
        .refl s
      exact noted.trans (moved_closeEvery frame_quiet _ _).sessions
    · exact .refl s
  case ended ended reason =>
    have noted : s.Quiet (s.endCredentials ended) := .refl s
    refine noted.trans ?_
    unfold endSignIns
    dsimp only
    split
    · exact (moved_closeEvery frame_quiet _ _).sessions
    · exact (moved_closeEvery frame_quiet _ _).sessions
    · exact .refl _
  case nicksElsewhere => exact .refl s
  case bans => exact .refl s

variable (cfg es s) in
/-- Every buffer holds what it should. -/
def Collecting : Prop :=
  ∀ conn session, s.sessions.lookup conn = some session → Collects cfg conn es session

theorem Collecting.step (collecting : Collecting cfg es s)
    (run : (shard cfg).Run System.anyStep es s) (clear : s.FindsClear cfg e)
    (step : (shard cfg).step s e = some s') : Collecting cfg (es ++ [e]) s' := by
  have runs := run.snoc trivial step
  intro conn after held
  rcases step_quiet step with ⟨own, host, saslRequired, rfl⟩ | ⟨own, queued, p, rfl⟩ | ⟨quiet, silent⟩
  · obtain ⟨-, opened⟩ := guard_bind_eq_some.mp step
    cases opened
    rcases of_lookup_insert held with ⟨-, rfl⟩ | ⟨-, before⟩
    · exact .of_none rfl rfl
    · exact (collecting conn after before).quiet runs held rfl (.refl after)
  · rcases eq_or_ne conn own with rfl | apart
    · cases found : s.sessions.lookup conn with
      | none =>
        cases step
        rw [cmdAuthenticate, found] at held
        dsimp only at held
        rw [found] at held
        cases held
      | some before =>
        have takes : before.Takes cfg p after := by
          cases step
          exact cmdAuthenticate_takes found held
        exact (collecting conn before found).takes run step found held takes (clear before found)
    · have before := held
      cases step
      rw [(Exchanges.cmdAuthenticate queued p).apart conn apart] at before
      refine (collecting conn after before).quiet runs held ?_ (.refl after)
      exact if_neg apart.symm
  · obtain ⟨before, found, quiet⟩ := quiet conn after held
    exact (collecting conn before found).quiet runs held (silent conn) quiet

theorem collecting_of_run (run : (shard cfg).Run (fun _ s e => s.FindsClear cfg e) es s) :
    (shard cfg).Run System.anyStep es s ∧ Collecting cfg es s := by
  have start : Collecting cfg [] (shard cfg).init := by
    intro conn session held
    rw [shard, init, AList.lookup_empty] at held
    cases held
  refine System.Run.invariant
    (P := fun es s => (shard cfg).Run System.anyStep es s ∧ Collecting cfg es s)
    ⟨.nil, start⟩ ?_ run
  rintro es s e s' ⟨run, collecting⟩ clear step
  exact ⟨run.snoc trivial step, collecting.step run clear step⟩

/-! ## The payloads that are handed over -/

theorem State.handed_eq_some {payload : Bytes}
    (hands : s.handed cfg e = some (conn, mechanism, payload)) :
    ∃ queued p arg session, e = .authenticate conn queued p ∧
      s.sessions.lookup conn = some session ∧ p.head? = some arg ∧ session.account = none ∧
      session.sasl = mechanism ∧ mechanism.mechanism.isSome ∧
      payload = session.saslBuf ++ piece arg := by
  cases e with
  | authenticate own queued p =>
    obtain ⟨session, found, rest⟩ := Option.bind_eq_some_iff.mp hands
    obtain ⟨-, rest⟩ := guard_bind_eq_some.mp rest
    obtain ⟨arg, given, rest⟩ := Option.bind_eq_some_iff.mp rest
    obtain ⟨⟨out, -, pending⟩, rest⟩ := guard_bind_eq_some.mp rest
    obtain ⟨-, rest⟩ := guard_bind_eq_some.mp rest
    obtain ⟨-, rest⟩ := guard_bind_eq_some.mp rest
    obtain ⟨-, rest⟩ := guard_bind_eq_some.mp rest
    cases rest
    exact ⟨queued, p, arg, session, rfl, found, given, out, rfl, pending, rfl⟩
  | _ => cases hands

variable (cfg es) in
/-- Every payload that is handed to a parser is what was sent since the line that
selected the parser's mechanism. -/
def HandsWhatWasSent : Prop :=
  ∀ front e back s conn mechanism payload, es = front ++ e :: back →
    (shard cfg).Run System.anyStep front s →
    s.handed cfg e = some (conn, mechanism, payload) →
      ∃ during, Since cfg conn mechanism front during ∧
        payload = (during ++ [e]).flatMap (chunk conn)

/-- Payloads are what was sent, so long as no chunks are left behind. -/
theorem payload_is_what_was_sent (run : (shard cfg).Run (fun _ s e => s.FindsClear cfg e) es s) :
    HandsWhatWasSent cfg es := by
  intro front e back t conn mechanism payload whole reached hands
  have part : front <+: es := ⟨e :: back, whole.symm⟩
  obtain ⟨mid, before⟩ := run.of_prefix part
  obtain rfl := reached.unique before
  obtain ⟨-, collecting⟩ := collecting_of_run before
  obtain ⟨queued, p, arg, session, rfl, found, given, out, rfl, pending, rfl⟩ :=
    handed_eq_some hands
  obtain ⟨during, since, collected⟩ := (collecting conn session found).pending pending out
  refine ⟨during, since, ?_⟩
  rw [collected, List.flatMap_append]
  simp [chunk, given]

end Since

/-! ## Two exchanges -/

/-- A chunk of full length. -/
def fullChunk : Bytes :=
  List.replicate 400 (byte 'A')

/-- A client selects PLAIN and sends a chunk that is not the last one. -/
def begun : List Event :=
  [.opened 1 (ascii "host") false, .cap 1 [ascii "REQ", ascii "sasl"],
    .authenticate 1 true [ascii "PLAIN"], .authenticate 1 true [fullChunk]]

/-- It withdraws the capability, is refused, and begins anew. -/
def begunAnew : List Event :=
  begun ++ [.cap 1 [ascii "REQ", ascii "-sasl"], .authenticate 1 true [ascii "+"],
    .cap 1 [ascii "REQ", ascii "sasl"], .authenticate 1 true [ascii "PLAIN"]]

theorem payload_is_what_was_sent_begun :
    ∃ s s', (shard saslServer).Run (fun _ s e => s.FindsClear saslServer e) begun s ∧
      s.step saslServer (.authenticate 1 true [ascii "QUJD"]) = some s' ∧
      s.handed saslServer (.authenticate 1 true [ascii "QUJD"]) =
        some (1, .plainPending, fullChunk ++ ascii "QUJD") ∧
      HandsWhatWasSent saslServer (begun ++ [.authenticate 1 true [ascii "QUJD"]]) := by
  let allowed (s : State) : Event → Bool
    | .authenticate conn _ _ => (s.sessions.lookup conn).all (·.caps.contains (ascii "sasl"))
    | _ => true
  have clear (s : State) (e : Event) (may : allowed s e = true) :
      s.FindsClear saslServer e := by
    cases e with
    | authenticate conn queued p =>
      intro session found
      simp only [allowed, found, Option.all_some, List.contains_iff_mem] at may
      exact .inl ⟨rfl, may⟩
    | _ => trivial
  have observed : (((shard saslServer).restrict allowed).exec begun).map (fun s =>
      (s.handed saslServer (.authenticate 1 true [ascii "QUJD"]),
        allowed s (.authenticate 1 true [ascii "QUJD"]))) =
        some (some (1, .plainPending, fullChunk ++ ascii "QUJD"), true) := by
    decide +kernel
  obtain ⟨s, replay, seen⟩ := System.exists_run observed
  obtain ⟨hands, may⟩ := Prod.mk.inj seen
  have run := replay.of_restrict.mono fun _ s e => clear s e
  refine ⟨s, _, run, rfl, hands, ?_⟩
  exact payload_is_what_was_sent (run.snoc (clear s _ may) rfl)

/-- The payload of the second exchange begins with the chunk of the first. -/
theorem payload_of_two_exchanges :
    ∃ s, (shard saslServer).Run System.anyStep begunAnew s ∧
      s.handed saslServer (.authenticate 1 true [ascii "QUJD"]) =
        some (1, .plainPending, fullChunk ++ ascii "QUJD") ∧
      ¬ HandsWhatWasSent saslServer (begunAnew ++ [.authenticate 1 true [ascii "QUJD"]]) := by
  have observed : ((shard saslServer).exec begunAnew).map (fun s =>
      s.handed saslServer (.authenticate 1 true [ascii "QUJD"])) =
        some (some (1, .plainPending, fullChunk ++ ascii "QUJD")) := by
    decide +kernel
  obtain ⟨s, run, hands⟩ := System.exists_run observed
  refine ⟨s, run, hands, fun sent => ?_⟩
  obtain ⟨during, ⟨front, queued, p, arg, t, session, whole, -⟩, payload⟩ :=
    sent begunAnew _ [] s 1 .plainPending _ rfl run hands
  have suffix : during ∈ begunAnew.tails := by
    rw [List.mem_tails, whole]
    exact ⟨front ++ [.authenticate 1 queued p], by simp⟩
  have lengths : ∀ during ∈ begunAnew.tails,
      ((during ++ [Event.authenticate 1 true [ascii "QUJD"]]).flatMap (chunk 1)).length ≠ 404 := by
    decide +kernel
  refine lengths during suffix ?_
  rw [← payload, List.length_append, fullChunk, List.length_replicate]
  rfl

end E6irc.Connecting
