import E6irc.Core.Registration

/-!
# No session is stuck before registration

A session is stuck when it is not registered although it waits for nothing.
Every command that can take away the last thing a session waits for calls
`maybe_complete_registration`, and so does every verdict that goes against the
session; a verdict in its favour does not when it is turned into a denial or
finds its attempt aborted, although it has just stopped being outstanding.

`shard_always_unstuck_iff` says exactly which runs keep every session unstuck:
those in which no such verdict lands on a session that waits for nothing else.
-/

namespace E6irc.Connecting

open Base Option Session State

/-- The session's part in signing in is what it was. -/
structure Session.SameSignIn (before after : Session) : Prop where
  sasl : after.sasl = before.sasl
  saslBuf : after.saslBuf = before.saslBuf
  login : after.login = before.login
  saslVerify : after.saslVerify = before.saslVerify
  pendingIdentify : after.pendingIdentify = before.pendingIdentify
  verifyEpoch : after.verifyEpoch = before.verifyEpoch

namespace State

variable {cfg : Config} {s : State} {conn : ConnId}

/-- No session but perhaps that of `conn` is stuck. -/
def UnstuckBut (conn : ConnId) (s : State) : Prop :=
  ∀ other ≠ conn, ∀ session, s.sessions.lookup other = some session → session.isStuck = false

def Unstuck (s : State) : Prop :=
  ∀ conn session, s.sessions.lookup conn = some session → session.isStuck = false

theorem UnstuckBut.own (others : s.UnstuckBut conn) (own : ∀ session,
    s.sessions.lookup conn = some session → session.isStuck = false) : s.Unstuck := by
  intro other session found
  rcases eq_or_ne other conn with rfl | apart
  · exact own session found
  · exact others other apart session found

theorem Unstuck.but (unstuck : s.Unstuck) (conn : ConnId) : s.UnstuckBut conn :=
  fun other _ => unstuck other

/-! ## Changing one session -/

theorem modify_sessions (f : Session → Session) :
    (s.modify conn f).sessions.lookup conn = (s.sessions.lookup conn).map f := by
  unfold modify
  cases held : s.sessions.lookup conn with
  | none => simpa using held
  | some session => exact AList.lookup_insert _

theorem lookup_modify {session : Session} (found : s.sessions.lookup conn = some session)
    (f : Session → Session) : (s.modify conn f).sessions.lookup conn = some (f session) := by
  rw [modify_sessions, found]
  rfl

theorem eq_of_modify {session after : Session} {f : Session → Session}
    (found : s.sessions.lookup conn = some session)
    (held : (s.modify conn f).sessions.lookup conn = some after) : after = f session :=
  Option.some.inj (held.symm.trans (lookup_modify found f))

theorem modify_sessions_of_ne (f : Session → Session) {other : ConnId} (apart : other ≠ conn) :
    (s.modify conn f).sessions.lookup other = s.sessions.lookup other := by
  unfold modify
  cases held : s.sessions.lookup conn with
  | none => rfl
  | some session => exact AList.lookup_insert_ne apart

theorem modify_deniedVerdict (f : Session → Session) (session : Session) (account : Bytes)
    (credential : CredentialId) :
    (s.modify conn f).deniedVerdict cfg session account credential =
      s.deniedVerdict cfg session account credential := by
  unfold modify
  cases s.sessions.lookup conn <;> rfl

theorem UnstuckBut.modify (unstuck : s.UnstuckBut conn) (f : Session → Session) :
    (s.modify conn f).UnstuckBut conn := by
  intro other apart session held
  rw [modify_sessions_of_ne f apart] at held
  exact unstuck other apart session held

/-- A change that leaves a session as stuck as it was. -/
theorem Unstuck.modify (unstuck : s.Unstuck) (f : Session → Session)
    (keeps : ∀ session, session.isStuck = false → (f session).isStuck = false) :
    (s.modify conn f).Unstuck := by
  refine ((unstuck.but conn).modify f).own fun session held => ?_
  rw [modify_sessions] at held
  obtain ⟨before, found, rfl⟩ := map_eq_some_iff.mp held
  exact keeps before (unstuck conn before found)

theorem Unstuck.send (unstuck : s.Unstuck) (reply : Reply) : (s.send conn reply).Unstuck :=
  unstuck.modify _ fun _ still => still

theorem close_sessions (other : ConnId) (session : Session) :
    (s.close conn).sessions.lookup other = some session →
      other ≠ conn ∧ s.sessions.lookup other = some session :=
  of_lookup_erase

theorem UnstuckBut.close (unstuck : s.UnstuckBut conn) : (s.close conn).Unstuck := by
  intro other session held
  obtain ⟨apart, before⟩ := close_sessions other session held
  exact unstuck other apart session before

theorem UnstuckBut.closeWithError (unstuck : s.UnstuckBut conn) (reason : Bytes) :
    (s.closeWithError conn reason).Unstuck :=
  unstuck.close

theorem Unstuck.closeEvery (unstuck : s.Unstuck) (whose : Session → Bool) (reason : Bytes) :
    (s.closeEvery whose reason).Unstuck := by
  unfold State.closeEvery
  generalize (s.sessions.entries.filter fun held => whose held.2).map Sigma.fst = conns
  induction conns generalizing s with
  | nil => exact unstuck
  | cons conn conns ih => exact ih ((unstuck.but conn).closeWithError reason)

/-! ## Completing registration -/

variable {session : Session}

theorem isRegistered_completeRegistration (ready : session.waits = false) :
    session.reg.completeRegistration.isRegistered = true := by
  simp only [waits, Bool.or_eq_false_iff] at ready
  obtain ⟨⟨⟨-, nick⟩, user⟩, -⟩ := ready
  cases reg : session.reg with
  | registered nick user realname => rfl
  | registering nick' user' realname refusedNick =>
    rw [reg] at nick user
    cases nick' with
    | none => cases nick
    | some nick =>
      cases user' with
      | none => cases user
      | some user => rfl

theorem UnstuckBut.abandonSasl (unstuck : s.UnstuckBut conn) (session : Session) :
    (s.abandonSasl conn session).UnstuckBut conn := by
  unfold State.abandonSasl
  split
  · exact (unstuck.modify _).modify _
  · exact unstuck

theorem abandonSasl_reg (found : s.sessions.lookup conn = some session) :
    ((s.abandonSasl conn session).sessions.lookup conn).map reg = some session.reg := by
  unfold abandonSasl
  split
  · rw [numeric, send, modify_sessions, modify_sessions, found]
    rfl
  · rw [found]
    rfl

/-- Trying to complete the registration of `conn` never leaves it stuck. -/
theorem UnstuckBut.maybeCompleteRegistration (unstuck : s.UnstuckBut conn) :
    (s.maybeCompleteRegistration conn).Unstuck := by
  unfold State.maybeCompleteRegistration
  cases found : s.sessions.lookup conn with
  | none => exact unstuck.own (by simp [found])
  | some session =>
    dsimp only
    split
    · rename_i early
      refine unstuck.own fun held same => ?_
      cases found.symm.trans same
      rw [isStuck, ← Bool.not_or, early]
      rfl
    · rename_i ready
      simp only [Bool.or_eq_true, not_or, Bool.not_eq_true] at ready
      have others := unstuck.abandonSasl session
      have reg := abandonSasl_reg found
      split
      · exact (others.modify _).closeWithError _
      split
      · exact (others.modify _).closeWithError _
      refine Unstuck.send ((others.modify _).own fun next now => ?_) _
      rw [modify_sessions] at now
      obtain ⟨before, held, rfl⟩ := map_eq_some_iff.mp now
      rw [held, map_some, some.injEq] at reg
      simp only [isStuck, reg, isRegistered_completeRegistration ready.2,
        Bool.not_true, Bool.false_and]

/-! ## Commands -/

theorem isRegistered_setNick (reg : Registration) (nick : Bytes) :
    (reg.setNick nick).isRegistered = reg.isRegistered := by
  cases reg <;> rfl

/-- What NICK, USER and CAP do to their session: they leave its part in signing in
alone, and one that is not stuck stays so or has its registration completed. -/
inductive Registers (conn : ConnId) (s : State) : State → Prop
  | refl : Registers conn s s
  | claims {t : State} (nicks : AList fun _ : Bytes => ConnId) :
    Registers conn s t → Registers conn s { t with nicks }
  | modify {t : State} {f : Session → Session} : Registers conn s t →
    (∀ session : Session, session.SameSignIn (f session)) →
    (∀ session, t.sessions.lookup conn = some session → session.isStuck = false →
      (f session).isStuck = false) → Registers conn s (t.modify conn f)
  | completes {t : State} {f : Session → Session} : Registers conn s t →
    (∀ session : Session, session.SameSignIn (f session)) →
    Registers conn s ((t.modify conn f).maybeCompleteRegistration conn)

namespace Registers

variable {t : State}

theorem unstuck (did : Registers conn s t) (unstuck : s.Unstuck) : t.Unstuck := by
  induction did with
  | refl => exact unstuck
  | claims _ _ ih => exact ih
  | modify _ _ keeps ih =>
    refine ((ih.but conn).modify _).own fun session held => ?_
    rw [modify_sessions] at held
    obtain ⟨before, found, rfl⟩ := map_eq_some_iff.mp held
    exact keeps before found (ih conn before found)
  | completes _ _ ih => exact ((ih.but conn).modify _).maybeCompleteRegistration

theorem touch (did : Registers conn s t) (f : Session → Session)
    (same : ∀ session : Session, session.SameSignIn (f session) := by
      exact fun _ => ⟨rfl, rfl, rfl, rfl, rfl, rfl⟩)
    (keeps : ∀ session, session.isStuck = false → (f session).isStuck = false := by
      exact fun _ => id) : Registers conn s (t.modify conn f) :=
  did.modify same fun session _ => keeps session

theorem send (did : Registers conn s t) (reply : Reply) : Registers conn s (t.send conn reply) :=
  did.touch _

theorem completed (did : Registers conn s t) (f : Session → Session)
    (same : ∀ session : Session, session.SameSignIn (f session) := by
      exact fun _ => ⟨rfl, rfl, rfl, rfl, rfl, rfl⟩) :
    Registers conn s ((t.modify conn f).maybeCompleteRegistration conn) :=
  did.completes same

theorem changeClaimedNick (found : s.sessions.lookup conn = some session) (nick key : Bytes) :
    Registers conn s (s.changeClaimedNick cfg conn session nick key) := by
  have claimed : Registers conn s (s.claimedNick cfg conn session key) := refl.claims _
  unfold State.changeClaimedNick
  dsimp only
  split
  · rename_i registered
    refine claimed.modify (fun _ => ⟨rfl, rfl, rfl, rfl, rfl, rfl⟩) fun before held _ => ?_
    cases found.symm.trans held
    simp [isStuck, isRegistered_setNick, registered]
  · exact claimed.completed _

theorem cmdNick (checks : NickChecks) (p : List Bytes) :
    Registers conn s (s.cmdNick cfg conn checks p) := by
  unfold State.cmdNick
  split
  · exact refl.send _
  rename_i nick _
  dsimp only
  split
  · exact refl.send _
  split
  · exact refl.send _
  split
  · exact refl
  rename_i found
  split
  · exact refl
  split
  · exact refl.send _
  split
  · exact refl.send _
  split
  · refine send (refl.touch _ ?_ fun session still => ?_) _
    · exact fun _ => ⟨rfl, rfl, rfl, rfl, rfl, rfl⟩
    · cases reg : session.reg <;> simp_all [isStuck, waits,
        Registration.noteNickInUse, Registration.isRegistered, Registration.nick, Registration.user]
  · exact changeClaimedNick found nick _

theorem cmdUser (p : List Bytes) : Registers conn s (s.cmdUser conn p) := by
  unfold State.cmdUser
  repeat' split
  · exact refl
  · exact refl.send _
  · exact refl.send _
  · exact refl.send _
  · exact refl.completed _
  · exact refl.send _

theorem markNegotiating : Registers conn s (s.markNegotiating conn) := by
  refine refl.touch _ (fun session => ?_) fun session still => ?_
  · split <;> exact ⟨rfl, rfl, rfl, rfl, rfl, rfl⟩
  · split
    · exact still
    · simp [isStuck, waits]

theorem cmdCap (p : List Bytes) : Registers conn s (s.cmdCap cfg conn p) := by
  have marked : Registers conn s (s.markNegotiating conn) := markNegotiating
  unfold State.cmdCap
  split
  · exact refl
  dsimp only
  repeat' split
  · exact (marked.touch _).send _
  · exact marked.send _
  · exact refl.send _
  · exact (marked.touch _).send _
  · exact marked.send _
  · exact refl.completed _
  · exact refl
  · exact refl.send _

end Registers

/-- What AUTHENTICATE and a NickServ IDENTIFY do: no session that waits for nothing else
stops waiting. -/
inductive Exchanges (conn : ConnId) (s : State) : State → Prop
  | refl : Exchanges conn s s
  | queues {t : State} (origin : CredentialOrigin) : Exchanges conn s t →
    Exchanges conn s { t with inFlight := t.inFlight ++ [(conn, origin)] }
  | modify {t : State} {f : Session → Session} : Exchanges conn s t →
    (∀ session, session.isStuck = false → (f session).isStuck = false) →
    Exchanges conn s (t.modify conn f)
  | closes {t : State} (reason : Bytes) : Exchanges conn s t →
    Exchanges conn s (t.closeWithError conn reason)

namespace Exchanges

variable {t : State}

theorem unstuck (did : Exchanges conn s t) (unstuck : s.Unstuck) : t.Unstuck := by
  induction did with
  | refl => exact unstuck
  | queues _ _ ih => exact ih
  | modify _ keeps ih => exact ih.modify _ keeps
  | closes reason _ ih => exact (ih.but conn).closeWithError reason

section

variable (did : Exchanges conn s t)
include did

theorem touch (f : Session → Session)
    (keeps : ∀ session, session.isStuck = false → (f session).isStuck = false := by
      exact fun _ => id) : Exchanges conn s (t.modify conn f) :=
  did.modify keeps

theorem saslFail : Exchanges conn s (t.saslFail conn) := (did.touch _).touch _

theorem credentialAttempt {go : State → State}
    (goes : ∀ t, Exchanges conn s t → Exchanges conn s (go t)) :
    Exchanges conn s (t.credentialAttempt conn go) := by
  unfold State.credentialAttempt
  split
  · exact did
  split
  · exact did.closes _
  · exact goes _ (did.touch _)

theorem credentialCheckQueued (origin : CredentialOrigin) :
    Exchanges conn s (t.credentialCheckQueued conn origin) :=
  (did.queues origin).touch _

theorem saslVerifyQueued : Exchanges conn s (t.saslVerifyQueued conn) := by
  refine credentialCheckQueued (did.touch _ fun session _ => ?_) .sasl
  simp [isStuck, waits]

end

theorem authenticateChunk (mechanism : SaslState) (queued : Bool) (session : Session) (arg : Bytes) :
    Exchanges conn s (s.authenticateChunk cfg conn mechanism queued session arg) := by
  unfold State.authenticateChunk
  dsimp only
  generalize session.saslBuf ++ (if arg = ascii "+" then [] else arg) = payload
  split
  · exact refl.credentialAttempt fun t charged => (charged.touch _).saslFail
  split
  · exact refl.touch _
  split
  · exact (refl.touch _).saslFail
  refine (refl.touch _).credentialAttempt fun t charged => ?_
  split
  · split
    · exact (charged.touch _).saslVerifyQueued
    · exact (charged.touch _).saslFail
  · exact charged.saslFail

theorem cmdAuthenticate (queued : Bool) (p : List Bytes) :
    Exchanges conn s (s.cmdAuthenticate cfg conn queued p) := by
  unfold State.cmdAuthenticate
  split
  · exact refl
  split
  · exact refl.saslFail
  split
  · exact refl.touch _
  dsimp only
  split
  · exact refl.touch _
  split
  · exact (refl.touch _).touch _
  split
  · exact (refl.touch _).touch _
  split
  · split
    · exact (refl.touch _).touch _
    split
    · exact (refl.touch _).touch _
    · exact (refl.touch _).saslFail
  · exact authenticateChunk _ _ _ _
  · exact authenticateChunk _ _ _ _
  · exact (refl.touch _).touch _

theorem nickservIdentify (queued : Bool) : Exchanges conn s (s.nickservIdentify conn queued) := by
  unfold State.nickservIdentify
  split
  · exact refl
  split
  · exact refl
  split
  · exact refl.touch _
  refine refl.credentialAttempt fun t charged => ?_
  split
  · exact (charged.touch _).credentialCheckQueued _
  · exact charged.touch _

end Exchanges

/-! ## Verdicts -/

end State

/-- The session's attempt that a check of `origin` is for goes on. -/
def Session.attempts (session : Session) : CredentialOrigin → Bool
  | .sasl => session.sasl = .verifying
  | .nickServIdentify => session.pendingIdentify

/-- The session with that attempt over. -/
def Session.settle (origin : CredentialOrigin) (session : Session) : Session :=
  match origin with
  | .sasl => { session with sasl := .idle }
  | .nickServIdentify => { session with pendingIdentify := false }

/-- The session may have been given an account, and told so. -/
structure Session.Signed (before after : Session) : Prop where
  sasl : after.sasl = before.sasl
  saslBuf : after.saslBuf = before.saslBuf
  saslVerify : after.saslVerify = before.saslVerify
  pendingIdentify : after.pendingIdentify = before.pendingIdentify
  verifyEpoch : after.verifyEpoch = before.verifyEpoch
  isStuck : after.isStuck = before.isStuck
  account : after.account = none → before.account = none

namespace State

/-- What a verdict does once its check is not outstanding any more: its attempt is
over, or was before, and the session may be signed in and its registration completed. -/
inductive Settles (conn : ConnId) (origin : CredentialOrigin) (s : State) : State → Prop
  | stays : (∀ session, s.sessions.lookup conn = some session → session.attempts origin = false) →
    Settles conn origin s s
  | ends : (∀ session, s.sessions.lookup conn = some session → session.attempts origin = true) →
    Settles conn origin s (s.modify conn (settle origin))
  | signs {t : State} {f : Session → Session} : Settles conn origin s t →
    (∀ session : Session, session.Signed (f session)) → Settles conn origin s (t.modify conn f)
  | completes {t : State} : Settles conn origin s t →
    Settles conn origin s (t.maybeCompleteRegistration conn)

namespace Settles

variable {cfg : Config} {s t : State} {conn : ConnId} {origin : CredentialOrigin} {session : Session}

theorem sign (settles : Settles conn origin s t) (f : Session → Session)
    (signed : ∀ session : Session, session.Signed (f session) := by
      exact fun _ => ⟨rfl, rfl, rfl, rfl, rfl, rfl, by first | exact id | nofun⟩) :
    Settles conn origin s (t.modify conn f) :=
  settles.signs signed

theorem verifyDenied (denial : Denial) :
    Settles conn origin s (s.verifyDenied conn origin denial) := by
  unfold State.verifyDenied
  split
  · rename_i gone
    exact .stays fun session held => by simp [gone] at held
  rename_i session found
  cases origin with
  | sasl | nickServIdentify =>
    dsimp only
    split
    · rename_i going
      refine sign (.ends fun held isHeld => ?_) _
      cases isHeld.symm.trans found
      simpa [attempts] using going
    · rename_i past
      refine .stays fun held isHeld => ?_
      cases isHeld.symm.trans found
      simpa [attempts] using past

theorem verified (same : ∀ held, s.sessions.lookup conn = some held →
      held.attempts origin = session.attempts origin) (account : Bytes) (credential : CredentialId) :
    Settles conn origin s (s.verified conn origin session account credential) := by
  unfold State.verified
  cases origin with
  | sasl | nickServIdentify =>
    dsimp only
    split
    · rename_i past
      refine .stays fun held isHeld => ?_
      rw [same held isHeld]
      simpa [attempts] using past
    · rename_i going
      refine .completes (sign (sign (sign (.ends fun held isHeld => ?_) _) _) _)
      rw [same held isHeld]
      simpa [attempts] using going

theorem dbReply (found : s.sessions.lookup conn = some session) (verdict : Verdict)
    (released : t = if origin = .sasl then
      s.modify conn fun session => { session with saslVerify := false } else s) :
    Settles conn origin t (s.dbReply cfg conn origin verdict) := by
  unfold State.dbReply
  rw [found]
  dsimp only
  rw [← released]
  split
  · split
    · exact verifyDenied _
    · refine verified (fun held isHeld => ?_) _ _
      rw [released] at isHeld
      split at isHeld
      · rw [eq_of_modify found isHeld]
        cases origin <;> rfl
      · cases isHeld.symm.trans found
        rfl
  · exact .completes (verifyDenied _)
  · exact .completes (verifyDenied _)
  · exact .completes (verifyDenied _)

end Settles

variable {cfg : Config} {s : State} {conn : ConnId} {session : Session}

/-- Every session is as stuck as it was, and none came or went. -/
def SameStuck (s s' : State) : Prop :=
  ∀ conn, (s'.sessions.lookup conn).map isStuck =
    (s.sessions.lookup conn).map isStuck

theorem sameStuck_modify (f : Session → Session)
    (same : ∀ session, (f session).isStuck = session.isStuck) : SameStuck s (s.modify conn f) := by
  intro other
  rcases eq_or_ne other conn with rfl | apart
  · rw [modify_sessions, map_map]
    exact congrArg (Option.map · _) (funext same)
  · rw [modify_sessions_of_ne f apart]

variable {s' : State}

theorem SameStuck.trans {s'' : State} (left : SameStuck s s') (right : SameStuck s' s'') :
    SameStuck s s'' :=
  fun conn => (right conn).trans (left conn)

theorem SameStuck.of_lookup (same : SameStuck s s')
    (found : s'.sessions.lookup conn = some session) :
    ∃ before, s.sessions.lookup conn = some before ∧ before.isStuck = session.isStuck := by
  have both := same conn
  rw [found, map_some] at both
  exact map_eq_some_iff.mp both.symm

theorem SameStuck.unstuckBut (same : SameStuck s s')
    (unstuck : s.UnstuckBut conn) : s'.UnstuckBut conn := by
  intro other apart session found
  obtain ⟨before, held, agree⟩ := same.of_lookup found
  exact agree ▸ unstuck other apart before held

theorem SameStuck.unstuck_iff (same : SameStuck s s') : s'.Unstuck ↔ s.Unstuck := by
  have forth {s s' : State} (same : SameStuck s s') (unstuck : s.Unstuck) : s'.Unstuck := by
    intro conn session found
    obtain ⟨before, held, agree⟩ := same.of_lookup found
    exact agree ▸ unstuck conn before held
  exact ⟨forth fun conn => (same conn).symm, forth same⟩

/-- A denial only ends an attempt. -/
theorem sameStuck_verifyDenied (origin : CredentialOrigin) (denial : Denial) :
    SameStuck s (s.verifyDenied conn origin denial) := by
  unfold verifyDenied
  split
  · exact fun _ => rfl
  cases origin with
  | sasl | nickServIdentify =>
    dsimp only
    split
    · refine SameStuck.trans ?_ (sameStuck_modify _ fun _ => rfl)
      exact sameStuck_modify _ fun _ => rfl
    · exact fun _ => rfl

/-- The verdict of the session's check is the last thing it waits for. -/
def lastObstacle (session : Session) : Bool :=
  !session.reg.isRegistered && !session.capNegotiating && session.reg.nick.isSome &&
    session.reg.user.isSome

/-- A check no longer outstanding leaves its session stuck exactly if it was
the last thing waited for. -/
theorem unstuck_released_iff (unstuck : s.Unstuck) (found : s.sessions.lookup conn = some session) :
    (s.modify conn fun session => { session with saslVerify := false }).Unstuck ↔
      lastObstacle session = false := by
  have own : ({ session with saslVerify := false } : Session).isStuck = lastObstacle session := by
    cases nick : session.reg.nick <;> cases user : session.reg.user <;>
      simp [isStuck, waits, lastObstacle, nick, user]
  refine ⟨fun released => ?_, fun other => ((unstuck.but conn).modify _).own fun next now => ?_⟩
  · rw [← own]
    exact released conn _ (by rw [modify_sessions, found]; rfl)
  · rw [modify_sessions, found] at now
    cases now
    rw [own, other]

/-- A verdict in the session's favour is let through and finds its attempt
going on, or its check is not the last thing the session waits for. -/
def Completes (cfg : Config) (s : State) : Event → Prop
  | .verdict conn .sasl (.verified account credential) =>
    ∀ session, s.sessions.lookup conn = some session →
      lastObstacle session = false ∨
        s.deniedVerdict cfg session account credential = none ∧ session.sasl = .verifying
  | _ => True

theorem UnstuckBut.verified_sasl (others : s.UnstuckBut conn)
    (going : session.sasl = .verifying) (account : Bytes) (credential : CredentialId) :
    (s.verified conn .sasl session account credential).Unstuck := by
  simp only [verified, going, ne_eq, not_true_eq_false, if_false]
  exact ((((others.modify _).modify _).modify _).modify _).maybeCompleteRegistration

theorem UnstuckBut.denied (others : s.UnstuckBut conn) (origin : CredentialOrigin)
    (denial : Denial) :
    ((s.verifyDenied conn origin denial).maybeCompleteRegistration conn).Unstuck :=
  ((sameStuck_verifyDenied origin denial).unstuckBut others).maybeCompleteRegistration

/-- The verdict of a NickServ check changes nothing a session waits for. -/
theorem Unstuck.dbReply_identify (unstuck : s.Unstuck) (verdict : Verdict) :
    (s.dbReply cfg conn .nickServIdentify verdict).Unstuck := by
  cases found : s.sessions.lookup conn with
  | none =>
    rw [dbReply, found]
    exact unstuck
  | some session =>
    have settles : Settles conn .nickServIdentify s (s.dbReply cfg conn .nickServIdentify verdict) :=
      .dbReply found verdict rfl
    generalize s.dbReply cfg conn .nickServIdentify verdict = t at settles ⊢
    induction settles with
    | stays => exact unstuck
    | ends => exact unstuck.modify _ fun _ => id
    | signs _ signed ih => exact ih.modify _ fun session => ((signed session).isStuck ▸ ·)
    | completes _ ih => exact (ih.but conn).maybeCompleteRegistration

theorem Unstuck.dbReply_sasl_iff (unstuck : s.Unstuck) (verdict : Verdict) :
    (s.dbReply cfg conn .sasl verdict).Unstuck ↔ s.Completes cfg (.verdict conn .sasl verdict) := by
  unfold dbReply
  cases found : s.sessions.lookup conn with
  | none => exact iff_of_true unstuck (by cases verdict <;> simp [Completes, found])
  | some session =>
    have others := (unstuck.but conn).modify fun session => { session with saslVerify := false }
    have released := unstuck_released_iff unstuck found
    dsimp only
    rw [if_pos rfl]
    cases verdict with
    | rejected | throttled retryAfter | unavailable => exact iff_of_true (others.denied _ _) trivial
    | verified account credential =>
      dsimp only
      rw [modify_deniedVerdict]
      cases denied : s.deniedVerdict cfg session account credential with
      | some denial =>
        rw [(sameStuck_verifyDenied _ _).unstuck_iff, released]
        simp [Completes, found, denied]
      | none =>
        rcases Decidable.em (session.sasl = .verifying) with going | aborted
        · exact iff_of_true (others.verified_sasl going account credential)
            (by simp [Completes, found, denied, going])
        · rw [verified, if_pos aborted, released]
          simp [Completes, found, denied, aborted]

/-! ## Runs -/

theorem Unstuck.step_iff {event : Event} (unstuck : s.Unstuck)
    (step : s.step cfg event = some s') : s'.Unstuck ↔ s.Completes cfg event := by
  cases event with
  | opened conn host saslRequired =>
    obtain ⟨-, rfl⟩ := guard_some_eq_some.mp step
    have others : UnstuckBut conn { s with
        sessions := s.sessions.insert conn (.opened host saslRequired) } := by
      intro other apart session held
      rw [AList.lookup_insert_ne apart] at held
      exact unstuck other session held
    refine iff_of_true (others.own fun session held => ?_) trivial
    rw [AList.lookup_insert] at held
    cases held
    rfl
  | nick conn checks p =>
    cases step
    exact iff_of_true ((Registers.cmdNick checks p).unstuck unstuck) trivial
  | user conn p =>
    cases step
    exact iff_of_true ((Registers.cmdUser p).unstuck unstuck) trivial
  | cap conn p =>
    cases step
    exact iff_of_true ((Registers.cmdCap p).unstuck unstuck) trivial
  | authenticate conn queued p =>
    cases step
    exact iff_of_true ((Exchanges.cmdAuthenticate queued p).unstuck unstuck) trivial
  | identify conn queued =>
    cases step
    exact iff_of_true ((Exchanges.nickservIdentify queued).unstuck unstuck) trivial
  | verdict conn origin verdict =>
    obtain ⟨-, rfl⟩ := guard_some_eq_some.mp step
    have answered : ({ s with inFlight := s.inFlight.erase (conn, origin) } : State).Unstuck :=
      unstuck
    cases origin with
    | sasl => exact answered.dbReply_sasl_iff verdict
    | nickServIdentify => exact iff_of_true (answered.dbReply_identify verdict) trivial
  | gone conn =>
    cases step
    exact iff_of_true (unstuck.but conn).close trivial
  | suspension account suspended reason =>
    cases step
    refine iff_of_true ?_ trivial
    unfold applyAccountSuspension
    dsimp only
    split
    · refine Unstuck.closeEvery ?_ _ _
      exact unstuck
    · exact unstuck
  | ended ended reason =>
    cases step
    refine iff_of_true ?_ trivial
    have refused : (s.endCredentials ended).Unstuck := unstuck
    cases ended with
    | account key | credential id => exact refused.closeEvery _ _
    | every => exact refused
  | nicksElsewhere nicks | bans banMatch =>
    cases step
    exact iff_of_true unstuck trivial

end State

/-- A run keeps every session unstuck after each of its events exactly when
every verdict it handles completes what it answers. -/
theorem shard_always_unstuck_iff (cfg : Config) (events : List Event) (s : State)
    (run : (shard cfg).Run System.anyStep events s) :
    (shard cfg).Always (fun _ s => s.Unstuck) events ↔
      (shard cfg).Run (fun _ s event => s.Completes cfg event) events s := by
  refine run.always_iff (J := fun _ _ => True) ?_ trivial (fun _ _ _ _ _ _ => trivial) ?_
  · intro conn session held
    simp [shard, init] at held
  · intro _ s event s' _ unstuck step
    exact unstuck.step_iff step

/-! ## A verdict for an attempt that was aborted -/

/-- A server that offers SASL and takes any payload for a credential. -/
def saslServer : Config where
  serverName := ascii "irc.example"
  casemap := .rfc1459
  nickLen := 16
  saslEnabled := true
  capNames := []
  valueCaps := [⟨ascii "sasl", fun _ => some (ascii "sasl")⟩]
  parsePlainPayload _ := some (ascii "alice", ascii "secret")
  parseOauthbearerPayload _ := none

/-- A client negotiates SASL, sends its credentials, and while they are checked
gives its nick and user. -/
def authenticating : List Event :=
  [.opened 1 (ascii "host") false, .cap 1 [ascii "REQ", ascii "sasl"],
    .authenticate 1 true [ascii "PLAIN"], .authenticate 1 true [ascii "Zm9v"],
    .nick 1 ⟨none, false⟩ [ascii "alice"],
    .user 1 [ascii "alice", ascii "0", ascii "*", ascii "Alice"]]

/-- It aborts the attempt, ends negotiation, and is verified. -/
def aborted : List Event :=
  authenticating ++ [.authenticate 1 true [ascii "*"], .cap 1 [ascii "END"],
    .verdict 1 .sasl (.verified (ascii "alice") .accountPassword)]

/-- The verdict of the aborted attempt was the last thing waited for, and the
session is left as it is. -/
theorem shard_stuck_after_aborted :
    ∃ s, (shard saslServer).Run System.anyStep aborted s ∧
      (∃ session, s.sessions.lookup 1 = some session ∧ session.isStuck = true) ∧ ¬ s.Unstuck := by
  have observed : ((shard saslServer).exec aborted).map (fun s =>
      (s.sessions.lookup 1).map isStuck) = some (some true) := by
    decide +kernel
  obtain ⟨s, replay, seen⟩ := System.exists_run observed
  obtain ⟨session, found, stuck⟩ := map_eq_some_iff.mp seen
  refine ⟨s, replay, ⟨session, found, stuck⟩, fun unstuck => ?_⟩
  exact absurd stuck (by simp [unstuck 1 session found])

/-- The same client without the abort. -/
theorem shard_always_unstuck_iff_authenticated :
    ∃ s, (shard saslServer).Run System.anyStep (authenticating ++ [.cap 1 [ascii "END"],
        .verdict 1 .sasl (.verified (ascii "alice") .accountPassword)]) s ∧
      ((shard saslServer).Always (fun _ s => s.Unstuck) (authenticating ++ [.cap 1 [ascii "END"],
          .verdict 1 .sasl (.verified (ascii "alice") .accountPassword)]) ↔
        (shard saslServer).Run (fun _ s event => s.Completes saslServer event)
          (authenticating ++ [.cap 1 [ascii "END"],
            .verdict 1 .sasl (.verified (ascii "alice") .accountPassword)]) s) := by
  have replayed : ((shard saslServer).exec (authenticating ++ [.cap 1 [ascii "END"],
      .verdict 1 .sasl (.verified (ascii "alice") .accountPassword)])).isSome = true := by
    decide +kernel
  obtain ⟨s, replay⟩ := isSome_iff_exists.mp replayed
  have run := System.run_of_exec replay
  exact ⟨s, run, shard_always_unstuck_iff saslServer _ s run⟩

end E6irc.Connecting
