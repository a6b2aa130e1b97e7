import E6irc.Core.Unstuck

/-!
# A login answers a check that stands

A verdict is matched to the session by flags only: which check it answers, whether
the attempt was given up, and what has ended since it was queued.  Each session has
at most one check outstanding, so the epoch it keeps is that check's, and what
`endCredentials` prunes is older than every check it could matter to.

`Moved` says once what a step does to the sessions, as far as checks go; every
command is `Calm`, or queues one check.
-/

namespace E6irc.Connecting

open Base List Option Session State Endings

/-! ## What a step does to the checks -/

/-- The session waits for the same check as before, and starts no attempt. -/
structure Session.Calmer (before after : Session) : Prop where
  saslVerify : after.saslVerify = before.saslVerify
  pendingIdentify : after.pendingIdentify = before.pendingIdentify
  verifyEpoch : after.verifyEpoch = before.verifyEpoch
  sasl : after.sasl = .verifying → before.sasl = .verifying

theorem Session.Calmer.trans {a b c : Session} (first : a.Calmer b) (second : b.Calmer c) :
    a.Calmer c where
  saslVerify := second.saslVerify.trans first.saslVerify
  pendingIdentify := second.pendingIdentify.trans first.pendingIdentify
  verifyEpoch := second.verifyEpoch.trans first.verifyEpoch
  sasl going := first.sasl (second.sasl going)

/-- The session had no check outstanding, and now has one of `origin` that was
queued in `epoch`. -/
structure Session.Starts (epoch : ℕ) (origin : CredentialOrigin) (before after : Session) :
    Prop where
  free : before.saslVerify = false ∧ before.pendingIdentify = false
  saslVerify : after.saslVerify = decide (origin = .sasl)
  pendingIdentify : after.pendingIdentify = decide (origin = .nickServIdentify)
  verifyEpoch : after.verifyEpoch = epoch
  sasl : after.sasl = .verifying → origin = .sasl ∨ before.sasl = .verifying

/-- A relation that allows what commands do that sign nobody in: they change something
else, or abandon an exchange. -/
structure Session.Frame (R : Session → Session → Prop) : Prop where
  other : ∀ {before after : Session}, before.SameSignIn after → R before after
  abandons : ∀ session : Session, R session { session with sasl := .idle, saslBuf := [] }
  trans : ∀ {a b c : Session}, R a b → R b c → R a c

theorem Session.frame_calmer : Frame Calmer where
  other same := ⟨same.saslVerify, same.pendingIdentify, same.verifyEpoch, fun going =>
    same.sasl ▸ going⟩
  abandons _ := ⟨rfl, rfl, rfl, nofun⟩
  trans := Calmer.trans

namespace State

variable {cfg : Config} {s s' t : State} {conn : ConnId}

/-- Every session that is left was there, and changed as `R` allows; the checks in
flight and what is remembered of ended credentials are as they were. -/
structure Moved (R : ConnId → Session → Session → Prop) (s s' : State) : Prop where
  inFlight : s'.inFlight = s.inFlight
  credentialEpoch : s'.credentialEpoch = s.credentialEpoch
  credentialsEnded : s'.credentialsEnded = s.credentialsEnded
  sessions : ∀ conn after, s'.sessions.lookup conn = some after →
    ∃ before, s.sessions.lookup conn = some before ∧ R conn before after

variable {R : ConnId → Session → Session → Prop}

theorem Moved.trans {R' R'' : ConnId → Session → Session → Prop} (first : Moved R s t)
    (second : Moved R' t s') (both : ∀ conn a b c, R conn a b → R' conn b c → R'' conn a c) :
    Moved R'' s s' where
  inFlight := second.inFlight.trans first.inFlight
  credentialEpoch := second.credentialEpoch.trans first.credentialEpoch
  credentialsEnded := second.credentialsEnded.trans first.credentialsEnded
  sessions conn after held := by
    obtain ⟨mid, heldMid, later⟩ := second.sessions conn after held
    obtain ⟨before, heldBefore, earlier⟩ := first.sessions conn mid heldMid
    exact ⟨before, heldBefore, both conn before mid after earlier later⟩

@[simp] theorem modify_inFlight (f : Session → Session) : (s.modify conn f).inFlight = s.inFlight := by
  unfold modify
  cases s.sessions.lookup conn <;> rfl

@[simp] theorem modify_credentialEpoch (f : Session → Session) :
    (s.modify conn f).credentialEpoch = s.credentialEpoch := by
  unfold modify
  cases s.sessions.lookup conn <;> rfl

@[simp] theorem modify_credentialsEnded (f : Session → Session) :
    (s.modify conn f).credentialsEnded = s.credentialsEnded := by
  unfold modify
  cases s.sessions.lookup conn <;> rfl

theorem modify_modify (f g : Session → Session) :
    (s.modify conn f).modify conn g = s.modify conn (g ∘ f) := by
  unfold modify
  cases held : s.sessions.lookup conn with
  | none => simp [held]
  | some session => simp [AList.insert_insert]

theorem moved_modify (f : Session → Session) (own : ∀ session, R conn session (f session))
    (others : ∀ other session, other ≠ conn → R other session session) :
    Moved R s (s.modify conn f) := by
  refine ⟨by simp, by simp, by simp, fun other after held => ?_⟩
  rcases eq_or_ne other conn with rfl | apart
  · rw [modify_sessions] at held
    obtain ⟨before, heldBefore, rfl⟩ := map_eq_some_iff.mp held
    exact ⟨before, heldBefore, own before⟩
  · rw [modify_sessions_of_ne f apart] at held
    exact ⟨after, held, others other after apart⟩

/-! ## Commands that sign nobody in -/

section Frame

variable {R : Session → Session → Prop} (frame : Frame R)

include frame

theorem moved_refl (s : State) : Moved (fun _ => R) s s :=
  ⟨rfl, rfl, rfl, fun _ after held => ⟨after, held, frame.other ⟨rfl, rfl, rfl, rfl, rfl, rfl⟩⟩⟩

theorem moved_trans (first : Moved (fun _ => R) s t) (second : Moved (fun _ => R) t s') :
    Moved (fun _ => R) s s' :=
  Moved.trans first second fun _ _ _ _ => frame.trans

theorem moved_modify_frame (f : Session → Session) (own : ∀ session, R session (f session)) :
    Moved (fun _ => R) s (s.modify conn f) :=
  moved_modify f own fun _ _ _ => frame.other ⟨rfl, rfl, rfl, rfl, rfl, rfl⟩

theorem moved_modify_other (f : Session → Session)
    (same : ∀ session : Session, session.SameSignIn (f session) := by
      exact fun _ => ⟨rfl, rfl, rfl, rfl, rfl, rfl⟩) :
    Moved (fun _ => R) s (s.modify conn f) :=
  moved_modify_frame frame f fun session => frame.other (same session)

theorem moved_send (reply : Reply) : Moved (fun _ => R) s (s.send conn reply) :=
  moved_modify_other frame _

theorem moved_numeric (code : ℕ) (params : List Bytes) (text : Bytes) :
    Moved (fun _ => R) s (s.numeric conn code params text) :=
  moved_send frame _

theorem moved_close : Moved (fun _ => R) s (s.close conn) :=
  ⟨rfl, rfl, rfl, fun other after held => ⟨after, (close_sessions other after held).2,
    frame.other ⟨rfl, rfl, rfl, rfl, rfl, rfl⟩⟩⟩

theorem moved_closeWithError (reason : Bytes) :
    Moved (fun _ => R) s (s.closeWithError conn reason) :=
  ⟨rfl, rfl, rfl, (moved_close frame).sessions⟩

theorem moved_closeEvery (whose : Session → Bool) (reason : Bytes) :
    Moved (fun _ => R) s (s.closeEvery whose reason) := by
  unfold closeEvery
  generalize (s.sessions.entries.filter fun held => whose held.2).map Sigma.fst = conns
  induction conns generalizing s with
  | nil => exact moved_refl frame s
  | cons conn conns ih => exact moved_trans frame (moved_closeWithError frame reason) ih

theorem moved_abandonSasl (session : Session) :
    Moved (fun _ => R) s (s.abandonSasl conn session) := by
  unfold abandonSasl
  split
  · refine moved_trans frame ?_ (moved_numeric frame 906 [] _)
    exact moved_modify_frame frame _ frame.abandons
  · exact moved_refl frame s

theorem moved_maybeCompleteRegistration :
    Moved (fun _ => R) s (s.maybeCompleteRegistration conn) := by
  unfold maybeCompleteRegistration
  split
  · exact moved_refl frame s
  rename_i session _
  split
  · exact moved_refl frame s
  dsimp only
  have abandoned : Moved (fun _ => R) s (s.abandonSasl conn session) :=
    moved_abandonSasl frame session
  refine moved_trans frame abandoned ?_
  split
  · exact moved_trans frame (moved_numeric frame 465 [] _) (moved_closeWithError frame _)
  split
  · exact moved_trans frame (moved_numeric frame 465 [] _) (moved_closeWithError frame _)
  · refine moved_trans frame ?_ (moved_send frame .welcome)
    exact moved_modify_other frame _

theorem Registers.moved (did : Registers conn s t) : Moved (fun _ => R) s t := by
  induction did with
  | refl => exact moved_refl frame s
  | claims _ _ ih => exact ⟨ih.inFlight, ih.credentialEpoch, ih.credentialsEnded, ih.sessions⟩
  | modify _ same _ ih => exact moved_trans frame ih (moved_modify_other frame _ same)
  | completes _ same ih =>
    refine moved_trans frame ih ?_
    exact moved_trans frame (moved_modify_other frame _ same) (moved_maybeCompleteRegistration frame)

end Frame

/-- Checks go on as they were. -/
abbrev Calm : State → State → Prop :=
  Moved fun _ => Calmer

theorem Calm.refl (s : State) : Calm s s := moved_refl frame_calmer s

theorem Calm.trans (first : Calm s t) (second : Calm t s') : Calm s s' :=
  moved_trans frame_calmer first second

theorem calm_modify (f : Session → Session)
    (calmer : ∀ session : Session, session.Calmer (f session) := by
      exact fun _ => ⟨rfl, rfl, rfl, by first | exact id | nofun⟩) :
    Calm s (s.modify conn f) :=
  moved_modify_frame frame_calmer f calmer

theorem calm_send (reply : Reply) : Calm s (s.send conn reply) :=
  moved_send frame_calmer reply

theorem calm_numeric (code : ℕ) (params : List Bytes) (text : Bytes) :
    Calm s (s.numeric conn code params text) :=
  calm_send _

theorem calm_saslFail : Calm s (s.saslFail conn) := by
  refine Calm.trans ?_ (calm_numeric 904 [] _)
  exact calm_modify _

theorem calm_closeWithError (reason : Bytes) : Calm s (s.closeWithError conn reason) :=
  moved_closeWithError frame_calmer reason

theorem calm_maybeCompleteRegistration : Calm s (s.maybeCompleteRegistration conn) :=
  moved_maybeCompleteRegistration frame_calmer

/-! ## Queueing a check -/

structure Queued (conn : ConnId) (origin : CredentialOrigin) (s s' : State) : Prop where
  present : ∃ session, s.sessions.lookup conn = some session
  inFlight : s'.inFlight = s.inFlight ++ [(conn, origin)]
  credentialEpoch : s'.credentialEpoch = s.credentialEpoch
  credentialsEnded : s'.credentialsEnded = s.credentialsEnded
  own : ∀ after, s'.sessions.lookup conn = some after →
    ∃ before, s.sessions.lookup conn = some before ∧ before.Starts s.credentialEpoch origin after
  others : ∀ other ≠ conn, s'.sessions.lookup other = s.sessions.lookup other

/-- An attempt goes on, charged, or the session is closed for having had too many. -/
theorem credentialAttempt_cases (s : State) (conn : ConnId) (go : State → State) :
    Calm s (s.credentialAttempt conn go) ∨
      s.credentialAttempt conn go = go (s.modify conn fun session =>
        { session with credentialAttempts := session.credentialAttempts + 1 }) := by
  unfold credentialAttempt
  split
  · exact .inl (.refl s)
  · split
    · exact .inl (calm_closeWithError _)
    · exact .inr rfl

/-- A check that the database worker does not take starts no attempt. -/
theorem calm_saslFail_of_refused :
    Calm s ((s.modify conn fun session => { session with sasl := .verifying }).saslFail conn) := by
  refine Calm.trans ?_ (calm_numeric 904 [] _)
  rw [modify_modify]
  exact calm_modify _

variable {session : Session}

attribute [local simp] credentialCheckQueued saslVerifyQueued

theorem authenticateChunk_cases (found : s.sessions.lookup conn = some session)
    (mechanism : SaslState) (queued : Bool) (arg : Bytes) :
    Calm s (s.authenticateChunk cfg conn mechanism queued session arg) ∨
      Queued conn .sasl s (s.authenticateChunk cfg conn mechanism queued session arg) := by
  unfold authenticateChunk
  dsimp only
  generalize session.saslBuf ++ (if arg = ascii "+" then [] else arg) = payload
  split
  · left
    rcases credentialAttempt_cases s conn _ with calm | goes
    · exact calm
    rw [goes]
    refine Calm.trans ?_ calm_saslFail
    refine Calm.trans ?_ (calm_modify _)
    exact calm_modify _
  split
  · exact .inl (calm_modify _)
  have emptied : Calm s (s.modify conn fun session => { session with saslBuf := [] }) :=
    calm_modify _
  split
  · exact .inl (emptied.trans calm_saslFail)
  rename_i free
  simp only [Bool.or_eq_true, not_or, Bool.not_eq_true] at free
  rcases credentialAttempt_cases (s.modify conn fun session => { session with saslBuf := [] }) conn
    _ with calm | goes
  · exact .inl (emptied.trans calm)
  rw [goes]
  have charged : Calm s ((s.modify conn fun session => { session with saslBuf := [] }).modify
      conn fun session => { session with credentialAttempts := session.credentialAttempts + 1 }) :=
    emptied.trans (calm_modify _)
  split
  · split
    · right
      constructor
      case present => exact ⟨session, found⟩
      case own =>
        intro after held
        simp only [saslVerifyQueued, credentialCheckQueued, modify_sessions, found,
          map_some, Option.some.injEq] at held
        refine ⟨session, found, ⟨free.2, free.1⟩, ?_, ?_, ?_, fun _ => .inl rfl⟩
        · rw [← held]
          rfl
        · rw [← held]
          exact free.1
        · simp [← held]
      case others =>
        intro other apart
        simp [modify_sessions_of_ne, apart]
      all_goals simp
    · left
      exact charged.trans calm_saslFail_of_refused
  · exact .inl (charged.trans calm_saslFail)

theorem cmdAuthenticate_cases (queued : Bool) (p : List Bytes) :
    Calm s (s.cmdAuthenticate cfg conn queued p) ∨
      Queued conn .sasl s (s.cmdAuthenticate cfg conn queued p) := by
  have idle : Calm s (s.modify conn fun session => { session with sasl := .idle, saslBuf := [] }) :=
    calm_modify _
  unfold cmdAuthenticate
  split
  · exact .inl (.refl s)
  rename_i session found
  split
  · exact .inl calm_saslFail
  split
  · exact .inl (calm_numeric 461 _ _)
  rename_i arg _
  dsimp only
  split
  · exact .inl (calm_numeric 907 [] _)
  split
  · exact .inl (idle.trans (calm_numeric 906 [] _))
  split
  · exact .inl (idle.trans (calm_numeric 905 [] _))
  split
  · left
    split
    · refine Calm.trans ?_ (calm_send _)
      exact calm_modify _
    split
    · refine Calm.trans ?_ (calm_send _)
      exact calm_modify _
    · exact (calm_numeric 908 _ _).trans calm_saslFail
  · exact authenticateChunk_cases found _ _ _
  · exact authenticateChunk_cases found _ _ _
  · left
    refine Calm.trans ?_ (calm_numeric 904 [] _)
    exact calm_modify _

theorem nickservIdentify_cases (queued : Bool) :
    Calm s (s.nickservIdentify conn queued) ∨
      Queued conn .nickServIdentify s (s.nickservIdentify conn queued) := by
  unfold nickservIdentify
  split
  · exact .inl (.refl s)
  rename_i session found
  split
  · exact .inl (.refl s)
  split
  · exact .inl (calm_send _)
  rename_i free
  simp only [Bool.or_eq_true, not_or, Bool.not_eq_true] at free
  rcases credentialAttempt_cases s conn _ with calm | goes
  · exact .inl calm
  rw [goes]
  split
  · right
    constructor
    case present => exact ⟨session, found⟩
    case own =>
      intro after held
      simp only [credentialCheckQueued, modify_sessions, found, map_some, Option.some.injEq] at held
      refine ⟨session, found, free, ?_, ?_, ?_, fun going => .inr ?_⟩
      · rw [← held]
        exact free.1
      · rw [← held]
        rfl
      · simp [← held]
      · rwa [← held] at going
    case others =>
      intro other apart
      simp [modify_sessions_of_ne, apart]
    all_goals simp
  · left
    refine Calm.trans ?_ (calm_send _)
    exact calm_modify _

/-! ## Verdicts -/

/-- The attempt that a check of `origin` was for is over. -/
structure Ends (origin : CredentialOrigin) (before after : Session) : Prop where
  saslVerify : after.saslVerify = before.saslVerify
  pendingIdentify :
    after.pendingIdentify = (before.pendingIdentify && decide (origin ≠ .nickServIdentify))
  verifyEpoch : after.verifyEpoch = before.verifyEpoch
  sasl : after.sasl = .verifying → origin ≠ .sasl ∧ before.sasl = .verifying

theorem Ends.calmer {origin : CredentialOrigin} {a b c : Session} (ends : Ends origin a b)
    (calmer : b.Calmer c) : Ends origin a c where
  saslVerify := calmer.saslVerify.trans ends.saslVerify
  pendingIdentify := calmer.pendingIdentify.trans ends.pendingIdentify
  verifyEpoch := calmer.verifyEpoch.trans ends.verifyEpoch
  sasl going := ends.sasl (calmer.sasl going)

/-- `P` of the session of `conn`, and no change to the others. -/
def Only (conn : ConnId) (P : Session → Session → Prop) : ConnId → Session → Session → Prop :=
  fun other before after => if other = conn then P before after else before.Calmer after

variable {P : Session → Session → Prop} {origin : CredentialOrigin}

theorem Moved.calm (moved : Moved (Only conn (Ends origin)) s t)
    (calm : Calm t s') : Moved (Only conn (Ends origin)) s s' := by
  refine moved.trans calm fun other a b c first second => ?_
  unfold Only at first ⊢
  split at first
  · rw [if_pos ‹_›]
    exact first.calmer second
  · rw [if_neg ‹_›]
    exact first.trans second

theorem moved_only_modify (f : Session → Session)
    (own : ∀ session, P session (f session)) : Moved (Only conn P) s (s.modify conn f) := by
  refine moved_modify f (fun session => ?_) fun other session apart => ?_
  · rw [Only, if_pos rfl]
    exact own session
  · rw [Only, if_neg apart]
    exact ⟨rfl, rfl, rfl, id⟩

/-- A change to nothing, where the session meets `P` already. -/
theorem moved_only_refl
    (own : ∀ session, s.sessions.lookup conn = some session → P session session) :
    Moved (Only conn P) s s := by
  refine ⟨rfl, rfl, rfl, fun other session held => ⟨session, held, ?_⟩⟩
  unfold Only
  split
  · rename_i same
    exact own session (same ▸ held)
  · exact ⟨rfl, rfl, rfl, id⟩

theorem Settles.moved (settles : Settles conn origin s t) :
    Moved (Only conn (Ends origin)) s t := by
  induction settles with
  | stays past =>
    refine moved_only_refl fun session held => ?_
    have past := past session held
    cases origin with
    | sasl => exact ⟨rfl, by simp, rfl, fun going => absurd going (of_decide_eq_false past)⟩
    | nickServIdentify =>
      exact ⟨rfl, by simpa [attempts] using past, rfl, fun going => ⟨by simp, going⟩⟩
  | ends =>
    refine moved_only_modify _ fun session => ?_
    cases origin with
    | sasl => exact ⟨rfl, by simp [settle], rfl, fun going => by cases going⟩
    | nickServIdentify =>
      exact ⟨rfl, by simp [settle], rfl, fun going => ⟨by simp, going⟩⟩
  | signs _ signed ih =>
    refine ih.calm (calm_modify _ fun session => ?_)
    obtain ⟨sasl, -, saslVerify, pendingIdentify, verifyEpoch, -⟩ := signed session
    exact ⟨saslVerify, pendingIdentify, verifyEpoch, sasl ▸ id⟩
  | completes _ ih => exact ih.calm calm_maybeCompleteRegistration

/-- The session no longer waits for its check of `origin`. -/
structure Answers (origin : CredentialOrigin) (before after : Session) : Prop where
  saslVerify : after.saslVerify = (before.saslVerify && decide (origin ≠ .sasl))
  pendingIdentify :
    after.pendingIdentify = (before.pendingIdentify && decide (origin ≠ .nickServIdentify))
  verifyEpoch : after.verifyEpoch = before.verifyEpoch
  sasl : after.sasl = .verifying → origin ≠ .sasl ∧ before.sasl = .verifying

theorem moved_dbReply (origin : CredentialOrigin) (verdict : Verdict) :
    Moved (Only conn (Answers origin)) s (s.dbReply cfg conn origin verdict) := by
  cases found : s.sessions.lookup conn with
  | none =>
    rw [dbReply, found]
    exact moved_only_refl fun session held => by simp [found] at held
  | some session =>
    have released : Moved (Only conn fun before after =>
        after = { before with saslVerify := before.saslVerify && decide (origin ≠ .sasl) }) s
        (if origin = .sasl then s.modify conn fun session => { session with saslVerify := false }
          else s) := by
      split
      · rename_i sasl
        exact moved_only_modify _ fun _ => by simp [sasl]
      · rename_i other
        exact moved_only_refl fun _ _ => by simp [other]
    refine released.trans (Settles.dbReply found verdict rfl).moved fun other a b c first second => ?_
    unfold Only at first second ⊢
    split at first
    · rw [if_pos ‹_›] at second ⊢
      subst first
      exact ⟨second.saslVerify, second.pendingIdentify, second.verifyEpoch, second.sasl⟩
    · rw [if_neg ‹_›] at second ⊢
      exact first.trans second

/-! ## Logging in -/

end State

/-- RPL_LOGGEDIN, which `setAccount` sends. -/
def Reply.isLogin : Reply → Bool
  | .numeric code _ _ => code = 900
  | _ => false

/-- The session was given an account, or told so. -/
def Session.LoggedIn (before after : Session) : Prop :=
  after.login ≠ before.login ∨ ∃ reply ∈ after.sent.drop before.sent.length, reply.isLogin = true

/-- The session's login is as it was, and it was told of none. -/
def Session.Silent (before after : Session) : Prop :=
  after.login = before.login ∧ ∃ new, after.sent = before.sent ++ new ∧
    ∀ reply ∈ new, reply.isLogin = false

variable {before after : Session}

theorem Session.Silent.not_loggedIn (silent : before.Silent after) : ¬ before.LoggedIn after := by
  obtain ⟨login, new, sent, quiet⟩ := silent
  rintro (changed | ⟨reply, among, isLogin⟩)
  · exact changed login
  · rw [sent, drop_left] at among
    exact Bool.false_ne_true ((quiet reply among).symm.trans isLogin)

namespace State

variable {cfg : Config} {s s' : State} {conn : ConnId} {before after : Session} {account : Bytes}

theorem silent_verifyDenied (origin : CredentialOrigin) (denial : Denial)
    (held : s.sessions.lookup conn = some before)
    (left : (s.verifyDenied conn origin denial).sessions.lookup conn = some after) :
    before.Silent after := by
  have unchanged (same : s.sessions.lookup conn = some after) : before.Silent after := by
    cases held.symm.trans same
    exact ⟨rfl, [], by simp, by simp⟩
  unfold verifyDenied at left
  rw [held] at left
  cases origin with
  | sasl | nickServIdentify =>
    dsimp only at left
    split at left
    · simp only [numeric, send, modify_sessions, held, map_some, Option.some.injEq] at left
      subst left
      exact ⟨rfl, _, rfl, by simp [Reply.isLogin]⟩
    · exact unchanged left

variable {credential : CredentialId}

theorem deniedVerdict_eq_none {session : Session} :
    s.deniedVerdict cfg session account credential = none ↔
      s.isAccountSuspended cfg account = false ∧
        s.endedSince session (.account (cfg.casemap.casefold account)) = false ∧
        (credential.isIssued = true → s.endedSince session (.credential credential) = false) ∧
        s.endedSince session .every = false := by
  unfold deniedVerdict
  split_ifs <;> grind

/-- A verdict in the session's favour logs it in only while its attempt goes on,
the account is not suspended, and nothing it vouches for has ended. -/
theorem stands_of_loggedIn {origin : CredentialOrigin} (held : s.sessions.lookup conn = some before)
    (left : (s.dbReply cfg conn origin (.verified account credential)).sessions.lookup conn =
      some after) (loggedIn : before.LoggedIn after) :
    s.deniedVerdict cfg before account credential = none ∧
      (origin = .sasl → before.sasl = .verifying) ∧
      (origin = .nickServIdentify → before.pendingIdentify = true) := by
  unfold dbReply at left
  rw [held] at left
  dsimp only at left
  generalize isReleased : (if origin = .sasl then
    s.modify conn fun session => { session with saslVerify := false } else s) = t at left
  have denied : t.deniedVerdict cfg before account credential =
      s.deniedVerdict cfg before account credential := by
    rw [← isReleased]
    split
    · exact modify_deniedVerdict _ _ _ _
    · rfl
  obtain ⟨mid, heldMid, login, sent⟩ : ∃ mid, t.sessions.lookup conn = some mid ∧
      mid.login = before.login ∧ mid.sent = before.sent := by
    rw [← isReleased]
    split
    · refine ⟨{ before with saslVerify := false }, ?_, rfl, rfl⟩
      rw [modify_sessions, held, map_some]
    · exact ⟨before, held, rfl, rfl⟩
  have silent (quiet : mid.Silent after) : False := by
    unfold Silent at quiet
    rw [login, sent] at quiet
    exact Silent.not_loggedIn quiet loggedIn
  have unchanged (same : t.sessions.lookup conn = some after) : False := by
    cases heldMid.symm.trans same
    exact silent ⟨rfl, [], by simp, by simp⟩
  rw [denied] at left
  cases isDenied : s.deniedVerdict cfg before account credential with
  | some denial =>
    rw [isDenied] at left
    exact (silent (silent_verifyDenied origin denial heldMid left)).elim
  | none =>
    rw [isDenied] at left
    refine ⟨rfl, ?_, ?_⟩
    · rintro rfl
      by_contra notGoing
      simp only [verified, ne_eq, notGoing, not_false_eq_true, if_true] at left
      exact unchanged left
    · rintro rfl
      by_contra notPending
      rw [Bool.not_eq_true] at notPending
      simp only [verified, notPending, Bool.not_false, if_true] at left
      exact unchanged left

end State

/-! ## The check a session waits for -/

/-- The connections opened by the events, each under the id it was given. -/
def openings : List Event → List ConnId :=
  List.filterMap fun
    | .opened conn _ _ => some conn
    | _ => none

/-- The checks of `conn` that are not answered yet. -/
def State.checks (s : State) (conn : ConnId) : List (ConnId × CredentialOrigin) :=
  s.inFlight.filter fun check => check.1 = conn

def Attempting (conn : ConnId) (origin : CredentialOrigin) (s : State) : Prop :=
  ∃ session, s.sessions.lookup conn = some session ∧ session.attempts origin = true

/-- The run `es` to `s` queued a check of `origin` for `conn`, which is still the
one that `conn` waits for; the events `after` came since, and `holds` was true of
every state since. -/
inductive Checking (cfg : Config) (conn : ConnId) (origin : CredentialOrigin)
    (holds : State → Prop) : List Event → State → List Event → Prop
  | queued {es : List Event} {s s' : State} {e : Event} :
    (shard cfg).Run System.anyStep es s → s.step cfg e = some s' →
    s'.inFlight = s.inFlight ++ [(conn, origin)] → s'.checks conn = [(conn, origin)] → holds s' →
    Checking cfg conn origin holds (es ++ [e]) s' []
  | since {es after : List Event} {s s' : State} {e : Event} :
    Checking cfg conn origin holds es s after → s.step cfg e = some s' →
    (∀ origin verdict, e ≠ .verdict conn origin verdict) → s'.checks conn = [(conn, origin)] →
    holds s' → Checking cfg conn origin holds (es ++ [e]) s' (after ++ [e])

variable {cfg : Config} {s s' : State} {conn : ConnId} {es : List Event} {e : Event}

variable {origin : CredentialOrigin}

theorem mem_checks : (conn, origin) ∈ s.checks conn ↔ (conn, origin) ∈ s.inFlight := by
  simp [checks]

/-- The flags of a session say which check it waits for, its epoch is that of the
check, and what has ended since is remembered. -/
structure Watched (cfg : Config) (es : List Event) (s : State) (conn : ConnId)
    (session : Session) : Prop where
  checks : s.checks conn = (if session.saslVerify then [(conn, .sasl)] else []) ++
    if session.pendingIdentify then [(conn, .nickServIdentify)] else []
  single : session.saslVerify = false ∨ session.pendingIdentify = false
  going : session.sasl = .verifying → session.saslVerify = true
  epoch : session.verifyEpoch ≤ s.credentialEpoch
  tells : ∀ origin, (conn, origin) ∈ s.inFlight → ∃ after,
    Checking cfg conn origin (fun _ => True) es s after ∧
      Tells s.credentialsEnded session.verifyEpoch
        (fun ended => ∃ reason, .ended ended reason ∈ after) ∧
      (session.attempts origin = true → Checking cfg conn origin (Attempting conn origin) es s after)

variable {session : Session}

theorem Watched.checks_eq (watched : Watched cfg es s conn session)
    (outstanding : (conn, origin) ∈ s.inFlight) : s.checks conn = [(conn, origin)] := by
  have among := mem_checks.mpr outstanding
  have single := watched.single
  rw [watched.checks] at among ⊢
  cases sasl : session.saslVerify <;> cases identify : session.pendingIdentify <;>
    simp_all

theorem Watched.outstanding (watched : Watched cfg es s conn session)
    (among : (conn, origin) ∈ s.inFlight) :
    (session.saslVerify || session.pendingIdentify) = true := by
  have held := mem_checks.mpr among
  rw [watched.checks] at held
  cases sasl : session.saslVerify <;> cases identify : session.pendingIdentify <;> simp_all

theorem attempts_of_calmer (calmer : before.Calmer after) (goes : after.attempts origin = true) :
    before.attempts origin = true := by
  cases origin with
  | sasl => exact decide_eq_true (calmer.sasl (of_decide_eq_true goes))
  | nickServIdentify => exact calmer.pendingIdentify.symm.trans goes

/-- A step that leaves the session waiting for its check. -/
theorem Watched.next (watched : Watched cfg es s conn before)
    (step : s.step cfg e = some s') (other : ∀ origin verdict, e ≠ .verdict conn origin verdict)
    (held : s'.sessions.lookup conn = some after) (calmer : before.Calmer after)
    (checks : s'.checks conn = s.checks conn) (epoch : s.credentialEpoch ≤ s'.credentialEpoch)
    (tells : ∀ since, (before.saslVerify || before.pendingIdentify) = true →
      Tells s.credentialsEnded before.verifyEpoch since →
      Tells s'.credentialsEnded before.verifyEpoch
        fun ended => since ended ∨ ∃ reason, e = .ended ended reason) :
    Watched cfg (es ++ [e]) s' conn after where
  checks := by rw [checks, calmer.saslVerify, calmer.pendingIdentify, watched.checks]
  single := by rw [calmer.saslVerify, calmer.pendingIdentify]; exact watched.single
  going going := by rw [calmer.saslVerify]; exact watched.going (calmer.sasl going)
  epoch := by rw [calmer.verifyEpoch]; exact watched.epoch.trans epoch
  tells origin among := by
    have before : (conn, origin) ∈ s.inFlight := by
      rw [← mem_checks, ← checks, mem_checks]
      exact among
    have same : s'.checks conn = [(conn, origin)] := checks.trans (watched.checks_eq before)
    obtain ⟨since, checking, told, attempt⟩ := watched.tells origin before
    refine ⟨since ++ [e], checking.since step other same trivial, ?_, fun goes => ?_⟩
    · have later := tells _ (watched.outstanding before) told
      rw [calmer.verifyEpoch]
      intro ended
      rw [later ended]
      simp only [mem_append, mem_singleton, exists_or, eq_comm]
    · exact (attempt (attempts_of_calmer calmer goes)).since step other same ⟨after, held, goes⟩

/-! ## Every step -/

structure Sound (cfg : Config) (es : List Event) (s : State) : Prop where
  run : (shard cfg).Run System.anyStep es s
  opened : ∀ conn session, s.sessions.lookup conn = some session → conn ∈ openings es
  known : ∀ conn origin, (conn, origin) ∈ s.inFlight → conn ∈ openings es
  past : ∀ ended epoch, s.credentialsEnded.lookup ended = some epoch → epoch ≤ s.credentialEpoch
  watched : ∀ conn session, s.sessions.lookup conn = some session → Watched cfg es s conn session

theorem mem_openings_snoc (among : conn ∈ openings es) (e : Event) :
    conn ∈ openings (es ++ [e]) := by
  unfold openings
  rw [filterMap_append]
  exact mem_append_left _ among

variable {t : State} {since : EndedSignIns → Prop}

theorem Endings.tells_or_false {endings : Endings EndedSignIns} {taken : ℕ}
    {never : EndedSignIns → Prop} (not : ∀ ended, ¬ never ended)
    (tells : endings.Tells taken since) : endings.Tells taken fun ended => since ended ∨ never ended := by
  intro ended
  rw [tells ended]
  simp [not ended]

/-- A step that opens no session and queues no check. -/
theorem Sound.moved {R : ConnId → Session → Session → Prop} (sound : Sound cfg es s)
    (step : s.step cfg e = some s') (moved : t.Moved R s') (sessions : t.sessions = s.sessions)
    (inFlight : t.inFlight ⊆ s.inFlight)
    (past : ∀ ended epoch, t.credentialsEnded.lookup ended = some epoch → epoch ≤ t.credentialEpoch)
    (watched : ∀ conn before after, s'.sessions.lookup conn = some after →
      Watched cfg es s conn before → R conn before after → s.sessions.lookup conn = some before →
        Watched cfg (es ++ [e]) s' conn after) : Sound cfg (es ++ [e]) s' where
  run := sound.run.snoc trivial step
  opened conn after held := by
    obtain ⟨before, heldBefore, _⟩ := moved.sessions conn after held
    exact mem_openings_snoc (sound.opened conn before (sessions ▸ heldBefore)) e
  known conn origin among := by
    rw [moved.inFlight] at among
    exact mem_openings_snoc (sound.known conn origin (inFlight among)) e
  past := by
    rw [moved.credentialsEnded, moved.credentialEpoch]
    exact past
  watched conn after held := by
    obtain ⟨before, heldBefore, changed⟩ := moved.sessions conn after held
    rw [sessions] at heldBefore
    exact watched conn before after held (sound.watched conn before heldBefore) changed heldBefore

theorem Sound.calm (sound : Sound cfg es s) (step : s.step cfg e = some s') (calm : s.Calm s')
    (noVerdict : ∀ conn origin verdict, e ≠ .verdict conn origin verdict := by simp)
    (noEnd : ∀ ended reason, e ≠ .ended ended reason := by simp) : Sound cfg (es ++ [e]) s' := by
  refine sound.moved step calm rfl (List.Subset.refl _) sound.past
    fun conn before after held watched calmer _ => ?_
  refine watched.next step (noVerdict conn) held calmer ?_ calm.credentialEpoch.ge ?_
  · rw [checks, calm.inFlight, checks]
  · intro since _ tells
    rw [calm.credentialsEnded]
    exact Endings.tells_or_false (fun ended ⟨reason, is⟩ => noEnd ended reason is) tells

theorem Sound.queued (sound : Sound cfg es s)
    (step : s.step cfg e = some s') (queued : s.Queued conn origin s')
    (noVerdict : ∀ conn origin verdict, e ≠ .verdict conn origin verdict := by simp)
    (noEnd : ∀ ended reason, e ≠ .ended ended reason := by simp) : Sound cfg (es ++ [e]) s' := by
  obtain ⟨session, present⟩ := queued.present
  have checks (other : ConnId) : s'.checks other =
      s.checks other ++ if conn = other then [(conn, origin)] else [] := by
    rw [checks, queued.inFlight, filter_append, filter_singleton]
    simp [checks]
  constructor
  case run => exact sound.run.snoc trivial step
  case opened =>
    intro other after held
    rcases eq_or_ne other conn with rfl | apart
    · exact mem_openings_snoc (sound.opened other session present) e
    · rw [queued.others other apart] at held
      exact mem_openings_snoc (sound.opened other after held) e
  case known =>
    intro other kind among
    rw [queued.inFlight, mem_append, mem_singleton, Prod.mk.injEq] at among
    rcases among with before | ⟨rfl, _⟩
    · exact mem_openings_snoc (sound.known other kind before) e
    · exact mem_openings_snoc (sound.opened other session present) e
  case past =>
    rw [queued.credentialsEnded, queued.credentialEpoch]
    exact sound.past
  case watched =>
    intro other after held
    rcases eq_or_ne other conn with rfl | apart
    · obtain ⟨before, heldBefore, starts⟩ := queued.own after held
      have watched := sound.watched other before heldBefore
      have single : s'.checks other = [(other, origin)] := by
        rw [checks, watched.checks]
        simp [starts.free]
      constructor
      case checks =>
        rw [single, starts.saslVerify, starts.pendingIdentify]
        cases origin <;> rfl
      case single =>
        rw [starts.saslVerify, starts.pendingIdentify]
        cases origin <;> simp
      case going =>
        intro going
        rw [starts.saslVerify]
        rcases starts.sasl going with rfl | earlier
        · rfl
        · have unwatched := watched.going earlier
          rw [starts.free.1] at unwatched
          cases unwatched
      case epoch =>
        rw [starts.verifyEpoch]
        exact queued.credentialEpoch.ge
      case tells =>
        intro kind among
        obtain rfl : kind = origin := by
          have held := mem_checks.mpr among
          rw [single] at held
          simpa using held
        refine ⟨[], .queued sound.run step queued.inFlight single trivial, ?_, fun goes => ?_⟩
        · rw [starts.verifyEpoch, queued.credentialsEnded]
          simpa using tells_now sound.past
        · exact .queued sound.run step queued.inFlight single ⟨after, held, goes⟩
    · have heldBefore := held
      rw [queued.others other apart] at heldBefore
      refine (sound.watched other after heldBefore).next step (noVerdict other) held
        ⟨rfl, rfl, rfl, id⟩ ?_ queued.credentialEpoch.ge ?_
      · simp [checks, apart.symm]
      · intro since _ tells
        rw [queued.credentialsEnded]
        exact Endings.tells_or_false (fun ended ⟨reason, is⟩ => noEnd ended reason is) tells

theorem Sound.verdict {verdict : Verdict}
    (sound : Sound cfg es s) (step : s.step cfg (.verdict conn origin verdict) = some s') :
    Sound cfg (es ++ [.verdict conn origin verdict]) s' := by
  obtain ⟨outstanding, answered⟩ := guard_bind_eq_some.mp step
  have moved : Moved (Only conn (Answers origin))
      { s with inFlight := s.inFlight.erase (conn, origin) } s' := by
    rw [← Option.some.inj answered]
    exact moved_dbReply origin verdict
  have checks (other : ConnId) : s'.checks other = (s.checks other).erase (conn, origin) := by
    rw [checks, moved.inFlight]
    exact erase_filter.symm
  refine sound.moved step moved rfl (fun _ => mem_of_mem_erase) sound.past
    fun other before after held watched changed _ => ?_
  unfold Only at changed
  split at changed
  · rename_i isConn
    subst isConn
    have none : s'.checks other = [] := by
      rw [checks, watched.checks_eq outstanding]
      simp
    have waited := watched.checks.symm.trans (watched.checks_eq outstanding)
    have flags : after.saslVerify = false ∧ after.pendingIdentify = false := by
      rw [changed.saslVerify, changed.pendingIdentify]
      cases origin <;> cases sasl : before.saslVerify <;>
        cases identify : before.pendingIdentify <;> simp_all
    constructor
    case checks => simp [none, flags]
    case single => exact .inl flags.1
    case going =>
      intro going
      obtain ⟨identify, earlier⟩ := changed.sasl going
      have waits := watched.going earlier
      rw [waits] at waited
      cases origin with
      | sasl => exact absurd rfl identify
      | nickServIdentify => simp at waited
    case epoch =>
      rw [changed.verifyEpoch, moved.credentialEpoch]
      exact watched.epoch
    case tells =>
      intro kind among
      have held := mem_checks.mpr among
      rw [none] at held
      cases held
  · rename_i apart
    refine watched.next step (fun _ _ same => ?_) held changed ?_ moved.credentialEpoch.ge ?_
    · exact apart (Event.verdict.inj same).1.symm
    · rw [checks]
      refine erase_of_not_mem fun among => ?_
      have own := of_mem_filter among
      exact apart (of_decide_eq_true own).symm
    · intro since _ tells
      rw [moved.credentialsEnded]
      exact Endings.tells_or_false (by simp) tells

/-- The oldest check that a session waits for is no later than any other. -/
theorem State.tells_endCredentials (held : s.sessions.lookup conn = some session)
    (waits : (session.saslVerify || session.pendingIdentify) = true)
    (epoch : session.verifyEpoch ≤ s.credentialEpoch)
    (tells : Tells s.credentialsEnded session.verifyEpoch since) (ended : EndedSignIns) :
    Tells (s.endCredentials ended).credentialsEnded session.verifyEpoch
      fun other => other = ended ∨ since other := by
  have among : session.verifyEpoch ∈ s.sessions.entries.filterMap fun held =>
      if held.2.saslVerify || held.2.pendingIdentify then some held.2.verifyEpoch else none :=
    mem_filterMap.mpr ⟨⟨conn, session⟩, AList.mem_lookup_iff.mp held, if_pos waits⟩
  unfold endCredentials
  dsimp only
  split
  · rename_i none
    rw [List.min?_eq_none_iff] at none
    rw [none] at among
    cases among
  · rename_i oldest least
    have older := (List.min?_eq_some_iff.mp least).2 _ among
    exact (tells.retain older).insert (Nat.lt_succ_of_le epoch) ended

theorem Sound.ended {ended : EndedSignIns} {reason : Bytes}
    (sound : Sound cfg es s) (step : s.step cfg (.ended ended reason) = some s') :
    Sound cfg (es ++ [.ended ended reason]) s' := by
  have calm : (s.endCredentials ended).Calm s' := by
    rw [← Option.some.inj step]
    unfold endSignIns
    dsimp only
    split
    · exact moved_closeEvery frame_calmer _ _
    · exact moved_closeEvery frame_calmer _ _
    · exact .refl _
  refine sound.moved step calm rfl (List.Subset.refl _) (fun other epoch found => ?_)
    fun conn before after held watched calmer heldBefore => ?_
  · unfold endCredentials at found ⊢
    dsimp only at found ⊢
    split at found
    · cases found
    rcases of_lookup_insert found with ⟨-, rfl⟩ | ⟨-, found⟩
    · exact le_rfl
    · have before := sound.past other epoch (lookup_retain_eq_some.mp found).1
      exact before.trans (Nat.le_succ _)
  · refine watched.next step (by simp) held calmer ?_ ?_ ?_
    · rw [checks, calm.inFlight]
      rfl
    · rw [calm.credentialEpoch]
      exact Nat.le_succ _
    intro since waits tells
    rw [calm.credentialsEnded]
    have later := tells_endCredentials heldBefore waits watched.epoch tells ended
    intro other
    rw [later other]
    simp [or_comm, eq_comm]

theorem Sound.opening {host : Bytes} {saslRequired : Bool} (sound : Sound cfg es s)
    (step : s.step cfg (.opened conn host saslRequired) = some s')
    (once : (openings (es ++ [.opened conn host saslRequired])).Nodup) :
    Sound cfg (es ++ [.opened conn host saslRequired]) s' := by
  have grown : openings (es ++ [.opened conn host saslRequired]) = openings es ++ [conn] := by
    simp [openings]
  have fresh : conn ∉ openings es := by
    rw [grown, nodup_append] at once
    intro among
    exact once.2.2 conn among conn (mem_singleton_self conn) rfl
  obtain ⟨_, isNext⟩ := guard_some_eq_some.mp step
  subst isNext
  constructor
  case run => exact sound.run.snoc trivial step
  case opened =>
    intro other after held
    rcases of_lookup_insert held with ⟨rfl, -⟩ | ⟨-, held⟩
    · simp [grown]
    · exact mem_openings_snoc (sound.opened other after held) _
  case known =>
    intro other origin among
    exact mem_openings_snoc (sound.known other origin among) _
  case past => exact sound.past
  case watched =>
    intro other after held
    rcases of_lookup_insert held with ⟨rfl, rfl⟩ | ⟨-, heldBefore⟩
    · have none (origin : CredentialOrigin) : (other, origin) ∉ s.inFlight :=
        fun among => fresh (sound.known other origin among)
      have noChecks : s.checks other = [] := by
        refine filter_eq_nil_iff.mpr fun check among => ?_
        simp only [decide_eq_true_eq]
        rintro rfl
        exact none check.2 among
      exact ⟨noChecks, .inl rfl, nofun, Nat.zero_le _,
        fun origin among => absurd among (none origin)⟩
    · refine (sound.watched other after heldBefore).next step (by simp) held
        ⟨rfl, rfl, rfl, id⟩ rfl le_rfl fun since _ tells => ?_
      exact Endings.tells_or_false (by simp) tells

theorem Sound.step (sound : Sound cfg es s) (step : s.step cfg e = some s')
    (once : (openings (es ++ [e])).Nodup) : Sound cfg (es ++ [e]) s' := by
  have same := Calm.refl s
  cases e with
  | opened conn host saslRequired => exact sound.opening step once
  | nick conn checks p =>
    cases step
    exact sound.calm rfl ((Registers.cmdNick checks p).moved frame_calmer)
  | user conn p =>
    cases step
    exact sound.calm rfl ((Registers.cmdUser p).moved frame_calmer)
  | cap conn p =>
    cases step
    exact sound.calm rfl ((Registers.cmdCap p).moved frame_calmer)
  | authenticate conn queued p =>
    cases step
    rcases cmdAuthenticate_cases queued p with calm | queues
    · exact sound.calm rfl calm
    · exact sound.queued rfl queues
  | identify conn queued =>
    cases step
    rcases nickservIdentify_cases queued with calm | queues
    · exact sound.calm rfl calm
    · exact sound.queued rfl queues
  | verdict conn origin verdict => exact sound.verdict step
  | gone conn =>
    cases step
    exact sound.calm rfl (moved_close frame_calmer)
  | suspension account suspended reason =>
    cases step
    refine sound.calm rfl ?_
    rw [applyAccountSuspension]
    split
    · refine Calm.trans ?_ (moved_closeEvery frame_calmer _ _)
      exact ⟨rfl, rfl, rfl, same.sessions⟩
    · exact ⟨rfl, rfl, rfl, same.sessions⟩
  | ended ended reason => exact sound.ended step
  | nicksElsewhere nicks | bans banMatch =>
    cases step
    exact sound.calm rfl ⟨rfl, rfl, rfl, same.sessions⟩

/-! ## Every run -/

theorem sound_init (cfg : Config) : Sound cfg [] (shard cfg).init where
  run := .nil
  opened _ _ held := by cases held
  known _ _ among := by cases among
  past _ _ found := by cases found
  watched _ _ held := by cases held

theorem sound_of_run (run : (shard cfg).Run System.anyStep es s) (once : (openings es).Nodup) :
    Sound cfg es s := by
  refine run.invariant (P := fun es s => (openings es).Nodup → Sound cfg es s)
    (fun _ => sound_init cfg) (fun es s e s' sound _ step once => ?_) once
  have before : (openings es).Nodup := by
    rw [openings, filterMap_append] at once
    exact once.of_append_left
  exact (sound before).step step once

/-- In every run of a shard, with connection ids given out once: a session has at
most one check outstanding, and everything that ended since it was queued is
remembered.  A verdict in a session's favour logs it in only if it answers the
check the session waits for, whose attempt went on ever since it was queued, the
account is not suspended, and nothing it vouches for ended since. -/
theorem a_login_answers_a_standing_check {cfg : Config} {es : List Event} {s : State}
    (run : (shard cfg).Run System.anyStep es s) (once : (openings es).Nodup) :
    (∀ conn session, s.sessions.lookup conn = some session → (s.checks conn).length ≤ 1) ∧
      (∀ conn session origin, s.sessions.lookup conn = some session →
        (conn, origin) ∈ s.inFlight →
          ∃ after, Checking cfg conn origin (fun _ => True) es s after ∧
            ∀ ended, s.endedSince session ended = true ↔ ∃ reason, .ended ended reason ∈ after) ∧
      ∀ conn origin account credential s' before after, s.sessions.lookup conn = some before →
        s.step cfg (.verdict conn origin (.verified account credential)) = some s' →
        s'.sessions.lookup conn = some after → before.LoggedIn after →
          ∃ since, Checking cfg conn origin (Attempting conn origin) es s since ∧
            s.isAccountSuspended cfg account = false ∧
            ∀ ended reason, .ended ended reason ∈ since →
              ended ≠ .account (cfg.casemap.casefold account) ∧
                (credential.isIssued = true → ended ≠ .credential credential) ∧ ended ≠ .every := by
  have sound := sound_of_run run once
  refine ⟨fun conn session held => ?_, fun conn session origin held among => ?_, ?_⟩
  · have watched := sound.watched conn session held
    rw [watched.checks]
    rcases watched.single with noSasl | noIdentify
    · cases session.pendingIdentify <;> simp [noSasl]
    · cases session.saslVerify <;> simp [noIdentify]
  · obtain ⟨after, checking, tells, _⟩ := (sound.watched conn session held).tells origin among
    exact ⟨after, checking, tells⟩
  · intro conn origin account credential s' before after held step left loggedIn
    obtain ⟨outstanding, answered⟩ := guard_bind_eq_some.mp step
    rw [← Option.some.inj answered] at left
    obtain ⟨stands, sasl, identify⟩ := stands_of_loggedIn
      (s := { s with inFlight := s.inFlight.erase (conn, origin) }) held left loggedIn
    obtain ⟨since, _, tells, attempt⟩ := (sound.watched conn before held).tells origin outstanding
    have goes : before.attempts origin = true := by
      cases origin with
      | sasl => exact decide_eq_true (sasl rfl)
      | nickServIdentify => exact identify rfl
    obtain ⟨free, account, credential, every⟩ := deniedVerdict_eq_none.mp stands
    have spared {ended : EndedSignIns} {reason : Bytes} (among : .ended ended reason ∈ since) :
        s.endedSince before ended = true := (tells ended).mpr ⟨reason, among⟩
    refine ⟨since, attempt goes, free, fun ended reason among => ⟨?_, fun issued => ?_, ?_⟩⟩
    · rintro rfl
      exact Bool.false_ne_true (account.symm.trans (spared among))
    · rintro rfl
      exact Bool.false_ne_true ((credential issued).symm.trans (spared among))
    · rintro rfl
      exact Bool.false_ne_true (every.symm.trans (spared among))

/-- Another account's credentials end while a client's are checked. -/
theorem a_login_answers_a_standing_check_of_authenticating :
    ∃ s s' before after, (shard saslServer).Run System.anyStep
        (authenticating ++ [.ended (.account (ascii "bob")) (ascii "Password changed")]) s ∧
      s.step saslServer (.verdict 1 .sasl (.verified (ascii "alice") .accountPassword)) = some s' ∧
      s.sessions.lookup 1 = some before ∧ s'.sessions.lookup 1 = some after ∧
      before.LoggedIn after ∧ (s.checks 1).length ≤ 1 ∧
      ∃ since, Checking saslServer 1 .sasl (Attempting 1 .sasl)
        (authenticating ++ [.ended (.account (ascii "bob")) (ascii "Password changed")]) s since := by
  have observed : ((shard saslServer).exec (authenticating ++
      [.ended (.account (ascii "bob")) (ascii "Password changed")])).map (fun s =>
        (s.sessions.lookup 1).map login) = some (some none) := by
    decide +kernel
  have observedNext : ((shard saslServer).exec (authenticating ++
      [.ended (.account (ascii "bob")) (ascii "Password changed")] ++
        [.verdict 1 .sasl (.verified (ascii "alice") .accountPassword)])).map (fun s' =>
          (s'.sessions.lookup 1).map login) =
        some (some (some (ascii "alice", .accountPassword))) := by
    decide +kernel
  obtain ⟨s, replay, seen⟩ := map_eq_some_iff.mp observed
  obtain ⟨before, held, noLogin⟩ := map_eq_some_iff.mp seen
  obtain ⟨s', replayNext, seenNext⟩ := map_eq_some_iff.mp observedNext
  obtain ⟨after, left, login⟩ := map_eq_some_iff.mp seenNext
  have step : s.step saslServer (.verdict 1 .sasl (.verified (ascii "alice") .accountPassword)) =
      some s' := by
    rw [System.exec_snoc, replay, bind_some] at replayNext
    exact replayNext
  have loggedIn : before.LoggedIn after := .inl (by simp [login, noLogin])
  have run := System.run_of_exec replay
  obtain ⟨single, _, stands⟩ := a_login_answers_a_standing_check run (by decide)
  obtain ⟨since, checking, _⟩ := stands 1 .sasl _ _ s' before after held step left loggedIn
  exact ⟨s, s', before, after, run, step, held, left, loggedIn, single 1 before held, since, checking⟩

end E6irc.Connecting
