import E6irc.Base.Assoc
import E6irc.Base.Run
import E6irc.Core.Names
import E6irc.Proto.Text

/-!
# Connection registration

The commands a connection registers with (`NICK`, `USER`, `CAP` and
`AUTHENTICATE`, from `handler/registration.rs` and `handler/sasl.rs`) and the
verdicts of the credential checks they start (`db_reply`).  A session registers
once it has a nick and a user, is not negotiating capabilities and has no SASL
check outstanding; `maybe_complete_registration` is called by hand wherever one
of these changes.

Labels are left out: they frame what is answered, not what is done.  Payload
parsing, the bans in force, the SASL requirement and the checks `NICK` makes of
a registered session are parameters.
-/

namespace E6irc.Connecting

open Base

abbrev ConnId := ℕ

/-! ## Sessions -/

/-- A session that is registered has a nick, a user and a realname. -/
inductive Registration
  | registering (nick user realname refusedNick : Option Bytes)
  | registered (nick user realname : Bytes)
deriving DecidableEq, Repr

namespace Registration

def nick : Registration → Option Bytes
  | registering nick _ _ _ => nick
  | registered nick _ _ => some nick

def user : Registration → Option Bytes
  | registering _ user _ _ => user
  | registered _ user _ => some user

def isRegistered : Registration → Bool
  | registering _ _ _ _ => false
  | registered _ _ _ => true

def setNick (value : Bytes) : Registration → Registration
  | registering _ user realname _ => registering (some value) user realname none
  | registered _ user realname => registered value user realname

def noteNickInUse (value : Bytes) : Registration → Registration
  | registering nick user realname _ => registering nick user realname (some value)
  | registered nick user realname => registered nick user realname

def setUser (value : Bytes) : Registration → Registration
  | registering nick _ realname refusedNick => registering nick (some value) realname refusedNick
  | registered nick user realname => registered nick user realname

def setRealname (value : Bytes) : Registration → Registration
  | registering nick user _ refusedNick => registering nick user (some value) refusedNick
  | registered nick user _ => registered nick user value

def completeRegistration : Registration → Registration
  | registering (some nick) (some user) realname _ => registered nick user (realname.getD [])
  | other => other

end Registration

inductive SaslState
  | idle | plainPending | bearerPending | verifying
deriving DecidableEq, Repr

/-- The credential a sign-in presented. -/
inductive CredentialId
  | accountPassword | appPassword (id : ℤ) | apiToken (id : ℤ)
deriving DecidableEq, Repr

def CredentialId.isIssued : CredentialId → Bool
  | accountPassword => false
  | appPassword _ | apiToken _ => true

inductive CredentialOrigin
  | sasl | nickServIdentify
deriving DecidableEq, Repr

/-- Which sign-ins no longer stand. -/
inductive EndedSignIns
  | account (key : Bytes) | credential (id : CredentialId) | every
deriving DecidableEq, Repr

inductive Reply
  | numeric (code : ℕ) (params : List Bytes) (text : Bytes)
  | line (text : Bytes)
  | capList (subcommand : Bytes) (tokens : List Bytes) (v302 : Bool)
  | notice (service text : Bytes)
  /-- The welcome burst: 001 to 004, ISUPPORT, LUSERS, the MOTD. -/
  | welcome
deriving DecidableEq, Repr

structure Session where
  reg : Registration
  host : Bytes
  /-- Not a local connection, from an address the SASL requirement covers. -/
  saslRequired : Bool
  capNegotiating : Bool
  cap302 : Bool
  caps : List Bytes
  login : Option (Bytes × CredentialId)
  sasl : SaslState
  saslVerify : Bool
  saslBuf : Bytes
  credentialAttempts : ℕ
  pendingIdentify : Bool
  verifyEpoch : ℕ
  sent : List Reply
deriving DecidableEq

namespace Session

def opened (host : Bytes) (saslRequired : Bool) : Session where
  reg := .registering none none none none
  host := host
  saslRequired := saslRequired
  capNegotiating := false
  cap302 := false
  caps := []
  login := none
  sasl := .idle
  saslVerify := false
  saslBuf := []
  credentialAttempts := 0
  pendingIdentify := false
  verifyEpoch := 0
  sent := []

def account (session : Session) : Option Bytes :=
  session.login.map Prod.fst

def loginMask (session : Session) : Bytes :=
  session.reg.nick.getD (ascii "*") ++ byte '!' :: session.reg.user.getD (ascii "*") ++
    byte '@' :: session.host

/-- What `maybe_complete_registration` waits for, apart from being registered. -/
def waits (session : Session) : Bool :=
  session.capNegotiating || session.reg.nick.isNone || session.reg.user.isNone || session.saslVerify

/-- Nothing is waited for, and yet the session is not registered. -/
def isStuck (session : Session) : Bool :=
  !session.reg.isRegistered && !session.waits

end Session

/-! ## The shard -/

/-- A capability with a value, and what `CAP LS` lists it as when it is offered. -/
structure ValueCap where
  name : Bytes
  lsToken : Bool → Option Bytes

structure Config where
  serverName : Bytes
  casemap : CaseMapping
  nickLen : ℕ
  saslEnabled : Bool
  capNames : List Bytes
  valueCaps : List ValueCap
  /-- `parse_plain_payload`: the account and the password. -/
  parsePlainPayload : Bytes → Option (Bytes × Bytes)
  /-- `parse_oauthbearer_payload`: the authorization identity and the token. -/
  parseOauthbearerPayload : Bytes → Option (Option Bytes × Bytes)

structure State where
  sessions : AList fun _ : ConnId => Session
  nicks : AList fun _ : Bytes => ConnId
  suspendedAccounts : List Bytes
  credentialEpoch : ℕ
  credentialsEnded : AList fun _ : EndedSignIns => ℕ
  /-- The label and public reason of a ban in force that matches the session. -/
  banMatch : Session → Option (Bytes × Bytes)
  /-- The checks sent to the database and not answered yet. -/
  inFlight : List (ConnId × CredentialOrigin)
  /-- The sessions closed by the server, and why. -/
  closed : List (ConnId × Bytes)

namespace State

def init : State := ⟨∅, ∅, [], 0, ∅, fun _ => none, [], []⟩

variable (cfg : Config) (s : State) (conn : ConnId)

/-- Change the session of `conn`, if it is still there. -/
def modify (f : Session → Session) : State :=
  (s.sessions.lookup conn).elim s fun session =>
    { s with sessions := s.sessions.insert conn (f session) }

def send (reply : Reply) : State :=
  s.modify conn fun session => { session with sent := session.sent ++ [reply] }

def numeric (code : ℕ) (params : List Bytes) (text : Bytes) : State :=
  s.send conn (.numeric code params text)

def errNeedmoreparams (command : Bytes) : State :=
  s.numeric conn 461 [command] (ascii "Not enough parameters")

/-- The session goes, and its nick with it. -/
def close : State :=
  { s with
    sessions := s.sessions.erase conn
    nicks := retain (fun _ owner => owner ≠ conn) s.nicks }

def closeWithError (reason : Bytes) : State :=
  { s.close conn with closed := s.closed ++ [(conn, reason)] }

/-! ## Registration -/

/-- An exchange begun and never finished cannot hold registration open. -/
def abandonSasl (session : Session) : State :=
  if session.sasl = .plainPending ∨ session.sasl = .bearerPending then
    (s.modify conn fun session => { session with sasl := .idle, saslBuf := [] }).numeric
      conn 906 [] (ascii "SASL authentication aborted")
  else s

def maybeCompleteRegistration : State :=
  match s.sessions.lookup conn with
  | none => s
  | some session =>
    if session.reg.isRegistered || session.waits then s
    else
      let s := s.abandonSasl conn session
      match s.banMatch session with
      | some (label, reason) =>
        (s.numeric conn 465 [] (ascii "You are banned from this server: " ++ reason)).closeWithError
          conn (label ++ ascii "d: " ++ reason)
      | none =>
        if session.account.isNone && session.saslRequired then
          (s.numeric conn 465 [] (ascii "You need to identify via SASL to use this server")
            ).closeWithError conn (ascii "SASL access only")
        else
          (s.modify conn fun session =>
            { session with reg := session.reg.completeRegistration }).send conn .welcome

def serviceNicks : List Bytes := [ascii "nickserv", ascii "chanserv"]

/-- What `NICK` asks about a registered session: the channel it is banned or
quieted in, and whether it changes nick too fast. -/
structure NickChecks where
  silencedIn : Option Bytes
  tooFast : Bool

/-- `conn` holds `key` in the nick directory instead of the nick it had. -/
def claimedNick (session : Session) (key : Bytes) : State :=
  let old := session.reg.nick.map cfg.casemap.casefold
  { s with
    nicks := (retain (fun held owner => owner ≠ conn ∨ some held ≠ old) s.nicks).insert key conn }

/-- `conn` takes the nick it has claimed. -/
def changeClaimedNick (session : Session) (nick key : Bytes) : State :=
  let s := (s.claimedNick cfg conn session key).modify conn fun session =>
    { session with reg := session.reg.setNick nick }
  if session.reg.isRegistered then s else s.maybeCompleteRegistration conn

def cmdNick (checks : NickChecks) (p : List Bytes) : State :=
  match p.head?.filter (· ≠ []) with
  | none => s.numeric conn 431 [] (ascii "No nickname given")
  | some nick =>
    if !validNick nick cfg.nickLen then
      s.numeric conn 432 [nick] (ascii "Erroneous nickname")
    else
      let key := cfg.casemap.casefold nick
      if key ∈ serviceNicks then s.numeric conn 432 [nick] (ascii "Nickname is reserved")
      else
        match s.sessions.lookup conn with
        | none => s
        | some session =>
          let registered := session.reg.isRegistered
          let heldByAnother := (s.nicks.lookup key).any (· ≠ conn)
          if registered && session.reg.nick == some nick then s
          else if registered && checks.silencedIn.isSome then
            s.numeric conn 435 [nick, checks.silencedIn.getD []]
              (ascii "Cannot change nickname while banned on channel")
          else if registered && !heldByAnother && checks.tooFast then
            s.numeric conn 438 [session.reg.nick.getD (ascii "*"), nick]
              (ascii "Nick change too fast. Please wait 20 seconds.")
          else if heldByAnother then
            (s.modify conn fun session =>
              { session with reg := session.reg.noteNickInUse nick }).numeric
                conn 433 [nick] (ascii "Nickname is already in use")
          else s.changeClaimedNick cfg conn session nick key

def userLen : ℕ := 10

/-- `sanitize::username`: cut to `maxLen` bytes, refused for what would break a
source prefix. -/
def username (raw : Bytes) (maxLen : ℕ) : Option Bytes :=
  let valid := raw.all (fun b => b != byte '!' && b != byte '@' && b != byte ' ') && !hasControl raw
  let kept := truncateOnCharBoundary raw maxLen
  if valid && kept ≠ [] then some kept else none

def cmdUser (p : List Bytes) : State :=
  match s.sessions.lookup conn with
  | none => s
  | some session =>
    if session.reg.isRegistered then
      s.numeric conn 462 [] (ascii "You may not reregister")
    else
      match p with
      | name :: _ :: _ :: realname :: _ =>
        if name = [] ∨ realname = [] then s.errNeedmoreparams conn (ascii "USER")
        else
          match username name userLen with
          | none => s.numeric conn 468 [name] (ascii "Invalid username")
          | some user =>
            (s.modify conn fun session =>
              { session with
                reg := (session.reg.setUser user).setRealname
                  (truncateOnCharBoundary realname realLen) }).maybeCompleteRegistration conn
      | _ => s.errNeedmoreparams conn (ascii "USER")

/-! ## Capabilities -/

/-- `parse::<u32>`: digits, with a `+` in front or not, that fit. -/
def parseU32 (text : Bytes) : Option ℕ :=
  let digits := if text.head? = some (byte '+') then text.tail else text
  let value := digits.foldl (fun n b => 10 * n + (b.toNat - 48)) 0
  if digits ≠ [] ∧ digits.all isAsciiDigit ∧ value < 2 ^ 32 then some value else none

def capVersion302 (version : Option Bytes) : Bool :=
  (version.bind parseU32).any (302 ≤ ·)

def markNegotiating : State :=
  s.modify conn fun session =>
    if session.reg.isRegistered then session else { session with capNegotiating := true }

def enableCap (caps : List Bytes) (name : Bytes) (enable : Bool) : List Bytes :=
  if enable then caps.insert name else caps.filter (· ≠ name)

/-- A capability that may be asked for: one with a value only while it is offered. -/
def capOffered (name : Bytes) : Bool :=
  cfg.valueCaps.any (fun cap => cap.name == name && (cap.lsToken false).isSome) ||
    cfg.capNames.contains name

/-- Every token of a `CAP REQ` applied in turn, or none of them. -/
def applyCaps (cap302 : Bool) : List Bytes → List Bytes → Option (List Bytes)
  | [], caps => some caps
  | token :: rest, caps =>
    let disable := token.head? = some (byte '-')
    let name := if disable then token.tail else token
    if cap302 && name == ascii "cap-notify" then applyCaps cap302 rest caps
    else if capOffered cfg name then applyCaps cap302 rest (enableCap caps name (!disable))
    else none

def cmdCap (p : List Bytes) : State :=
  match s.sessions.lookup conn with
  | none => s
  | some session =>
    let target := session.reg.nick.getD (ascii "*")
    let sub := toAsciiUppercase (p.head?.getD [])
    if sub = ascii "LS" then
      let v302 := capVersion302 p.tail.head?
      let s := s.markNegotiating conn
      let s :=
        if v302 then
          s.modify conn fun session =>
            { session with cap302 := true, caps := session.caps.insert (ascii "cap-notify") }
        else s
      s.send conn (.capList sub (cfg.capNames ++ cfg.valueCaps.filterMap (·.lsToken v302)) v302)
    else if sub = ascii "LIST" then
      let active := (cfg.capNames ++ cfg.valueCaps.map ValueCap.name).filter (session.caps.contains ·)
      s.send conn (.capList sub active session.cap302)
    else if sub = ascii "REQ" then
      let request := p.tail.head?.getD []
      let s := s.markNegotiating conn
      let caps := applyCaps cfg session.cap302
        ((request.splitOn (byte ' ')).filter (· ≠ [])) session.caps
      let head (verb : Bytes) :=
        byte ':' :: cfg.serverName ++ ascii " CAP " ++ target ++ byte ' ' :: verb ++ ascii " :"
      let echo := truncateOnCharBoundary request (510 - (head (ascii "ACK")).length)
      if request ≠ [] ∧ caps.isSome ∧ echo.length = request.length then
        (s.modify conn fun session => { session with caps := caps.getD session.caps }).send conn
          (.line (head (ascii "ACK") ++ echo))
      else s.send conn (.line (head (ascii "NAK") ++ echo))
    else if sub = ascii "END" then
      if !session.reg.isRegistered && session.capNegotiating then
        (s.modify conn fun session =>
          { session with capNegotiating := false }).maybeCompleteRegistration conn
      else s
    else s.numeric conn 410 [sub] (ascii "Invalid CAP command")

/-! ## Credential checks -/

def saslFail : State :=
  (s.modify conn fun session => { session with sasl := .idle }).numeric conn 904 []
    (ascii "SASL authentication failed")

def credentialAttemptLimit : ℕ := 8

/-- Charge an attempt and go on, or close the connection that has none left. -/
def credentialAttempt (go : State → State) : State :=
  match s.sessions.lookup conn with
  | none => s
  | some session =>
    if credentialAttemptLimit ≤ session.credentialAttempts then
      s.closeWithError conn (ascii "Too many authentication attempts")
    else
      go (s.modify conn fun session =>
        { session with credentialAttempts := session.credentialAttempts + 1 })

/-- A check is sent to the database under the epoch it starts in. -/
def credentialCheckQueued (origin : CredentialOrigin) : State :=
  { s with inFlight := s.inFlight ++ [(conn, origin)] }.modify conn fun session =>
    { session with verifyEpoch := s.credentialEpoch }

def saslVerifyQueued : State :=
  (s.modify conn fun session => { session with saslVerify := true }).credentialCheckQueued
    conn .sasl

def maxAuthenticateChunkLen : ℕ := 400

def maxAuthenticatePayloadLen : ℕ := 8192

/-- The payload is a credential of the mechanism's kind. -/
def parsesPayload (mechanism : SaslState) (payload : Bytes) : Bool :=
  if mechanism = .plainPending then (cfg.parsePlainPayload payload).isSome
  else (cfg.parseOauthbearerPayload payload).isSome

/-- A chunk of a payload: kept, or with the ones before it sent to be verified.
`queued` says whether the database worker takes the request. -/
def authenticateChunk (mechanism : SaslState) (queued : Bool) (session : Session) (arg : Bytes) :
    State :=
  let piece := if arg = ascii "+" then [] else arg
  let payload := session.saslBuf ++ piece
  if maxAuthenticatePayloadLen < payload.length then
    s.credentialAttempt conn fun s =>
      (s.modify conn fun session => { session with saslBuf := [] }).saslFail conn
  else if arg.length = maxAuthenticateChunkLen then
    s.modify conn fun session => { session with saslBuf := payload }
  else
    let s := s.modify conn fun session => { session with saslBuf := [] }
    if session.pendingIdentify || session.saslVerify then s.saslFail conn
    else
      s.credentialAttempt conn fun s =>
        if parsesPayload cfg mechanism payload then
          let s := s.modify conn fun session => { session with sasl := .verifying }
          if queued then s.saslVerifyQueued conn else s.saslFail conn
        else s.saslFail conn

def cmdAuthenticate (queued : Bool) (p : List Bytes) : State :=
  match s.sessions.lookup conn with
  | none => s
  | some session =>
    if !cfg.saslEnabled || !session.caps.contains (ascii "sasl") then s.saslFail conn
    else
      match p.head? with
      | none => s.errNeedmoreparams conn (ascii "AUTHENTICATE")
      | some arg =>
        let reset := s.modify conn fun session => { session with sasl := .idle, saslBuf := [] }
        if session.account.isSome then
          s.numeric conn 907 [] (ascii "You have already authenticated")
        else if arg = ascii "*" then
          reset.numeric conn 906 [] (ascii "SASL authentication aborted")
        else if maxAuthenticateChunkLen < arg.length then
          reset.numeric conn 905 [] (ascii "SASL message too long")
        else
          match session.sasl with
          | .idle =>
            let pending (mechanism : SaslState) :=
              (s.modify conn fun session => { session with sasl := mechanism }).send conn
                (.line (ascii "AUTHENTICATE +"))
            if toAsciiUppercase arg = ascii "PLAIN" then pending .plainPending
            else if toAsciiUppercase arg = ascii "OAUTHBEARER" then pending .bearerPending
            else
              (s.numeric conn 908 [ascii "PLAIN,OAUTHBEARER"]
                (ascii "are available SASL mechanisms")).saslFail conn
          | .plainPending => s.authenticateChunk cfg conn .plainPending queued session arg
          | .bearerPending => s.authenticateChunk cfg conn .bearerPending queued session arg
          | .verifying =>
            (s.modify conn fun session => { session with sasl := .idle }).numeric conn 904 []
              (ascii "SASL authentication abandoned while it was being verified")

/-- NickServ `IDENTIFY`, which shares the budget and the one check at a time. -/
def nickservIdentify (queued : Bool) : State :=
  match s.sessions.lookup conn with
  | none => s
  | some session =>
    if !session.reg.isRegistered then s
    else if session.saslVerify || session.pendingIdentify then
      s.send conn (.notice (ascii "NickServ")
        (ascii "An authentication is already in progress. Try again in a moment."))
    else
      s.credentialAttempt conn fun s =>
        if queued then
          (s.modify conn fun session => { session with pendingIdentify := true }
            ).credentialCheckQueued conn .nickServIdentify
        else
          s.send conn (.notice (ascii "NickServ")
            (ascii "Services are temporarily unavailable. Try again later."))

/-! ## Verdicts -/

inductive Verdict
  | verified (account : Bytes) (credential : CredentialId)
  | rejected
  | throttled (retryAfter : ℕ)
  | unavailable

/-- Why a check did not log the session in. -/
inductive Denial
  | rejected | throttled (retryAfter : ℕ) | unavailable | rechecked

def rechecked : Bytes :=
  ascii "Credentials were re-checked while yours were being verified; please try again"

/-- `LoginRetryAfter::explanation`. -/
def retryExplanation (seconds : ℕ) : Bytes :=
  ascii "Too many failed login attempts for this account; try again in " ++ decimal seconds ++
    ascii " seconds"

/-- A denial ends the attempt it answers; one whose attempt was aborted says nothing. -/
def verifyDenied (origin : CredentialOrigin) (denial : Denial) : State :=
  match s.sessions.lookup conn with
  | none => s
  | some session =>
    match origin with
    | .sasl =>
      if session.sasl = .verifying then
        (s.modify conn fun session => { session with sasl := .idle }).numeric conn 904 [] <|
          match denial with
          | .rejected => ascii "SASL authentication failed"
          | .throttled retryAfter => retryExplanation retryAfter
          | .unavailable => ascii "SASL authentication temporarily unavailable"
          | .rechecked => rechecked
      else s
    | .nickServIdentify =>
      if session.pendingIdentify then
        (s.modify conn fun session => { session with pendingIdentify := false }).send conn <|
          .notice (ascii "NickServ") <|
            match denial with
            | .rejected =>
              ascii "Invalid password for \x02" ++ session.reg.nick.getD (ascii "*") ++ ascii "\x02."
            | .throttled retryAfter => retryExplanation retryAfter
            | .unavailable => ascii "Services are temporarily unavailable. Try again later."
            | .rechecked => rechecked
      else s

def isAccountSuspended (account : Bytes) : Bool :=
  s.suspendedAccounts.contains (cfg.casemap.casefold account)

/-- The session's outstanding check was queued before `ended`. -/
def endedSince (session : Session) (ended : EndedSignIns) : Bool :=
  (s.credentialsEnded.lookup ended).any (session.verifyEpoch < ·)

/-- The denial a verdict in the session's favour is turned into, if its account
is suspended or it was read before what it vouches for ended. -/
def deniedVerdict (session : Session) (account : Bytes) (credential : CredentialId) :
    Option Denial :=
  if s.isAccountSuspended cfg account then some .rejected
  else if s.endedSince session (.account (cfg.casemap.casefold account)) ||
      (credential.isIssued && s.endedSince session (.credential credential)) then some .rejected
  else if s.endedSince session .every then some .rechecked
  else none

def setAccount (account : Bytes) (credential : CredentialId) : State :=
  let mask := (s.sessions.lookup conn).elim [] Session.loginMask
  (s.modify conn fun session => { session with login := some (account, credential) }).numeric conn
    900 [mask, account] (ascii "You are now logged in as " ++ account)

/-- A check came out in the session's favour and stands. -/
def verified (origin : CredentialOrigin) (session : Session) (account : Bytes)
    (credential : CredentialId) : State :=
  match origin with
  | .sasl =>
    -- The attempt was aborted: its verdict is dropped.
    if session.sasl ≠ .verifying then s
    else
      let s := (s.modify conn fun session => { session with sasl := .idle }).setAccount conn
        account credential
      (s.numeric conn 903 [] (ascii "SASL authentication successful")).maybeCompleteRegistration conn
  | .nickServIdentify =>
    if !session.pendingIdentify then s
    else
      let s := (s.modify conn fun session => { session with pendingIdentify := false }).setAccount
        conn account credential
      (s.send conn (.notice (ascii "NickServ") (ascii "You are now identified for \x02" ++ account ++
        ascii "\x02."))).maybeCompleteRegistration conn

/-- The verdict of a check; a session that is gone has nothing to be told. -/
def dbReply (origin : CredentialOrigin) (verdict : Verdict) : State :=
  match s.sessions.lookup conn with
  | none => s
  | some session =>
    let s :=
      if origin = .sasl then s.modify conn fun session => { session with saslVerify := false }
      else s
    match verdict with
    | .verified account credential =>
      match s.deniedVerdict cfg session account credential with
      | some denial => s.verifyDenied conn origin denial
      | none => s.verified conn origin session account credential
    | .rejected => (s.verifyDenied conn origin .rejected).maybeCompleteRegistration conn
    | .throttled retryAfter =>
      (s.verifyDenied conn origin (.throttled retryAfter)).maybeCompleteRegistration conn
    | .unavailable => (s.verifyDenied conn origin .unavailable).maybeCompleteRegistration conn

/-! ## What administrators and the revocation listener do -/

/-- Close every session that `whose` picks. -/
def closeEvery (whose : Session → Bool) (reason : Bytes) : State :=
  ((s.sessions.entries.filter fun held => whose held.2).map Sigma.fst).foldl
    (fun s conn => s.closeWithError conn reason) s

def applyAccountSuspension (account : Bytes) (suspended : Bool) (reason : Bytes) : State :=
  let key := cfg.casemap.casefold account
  if suspended then
    { s with suspendedAccounts := s.suspendedAccounts.insert key }.closeEvery
      (fun session => session.account.map cfg.casemap.casefold == some key) reason
  else { s with suspendedAccounts := s.suspendedAccounts.filter (· ≠ key) }

/-- A verdict for any check queued before now is refused when it lands. -/
def endCredentials (ended : EndedSignIns) : State :=
  let epoch := s.credentialEpoch + 1
  let outstanding := s.sessions.entries.filterMap fun held =>
    if held.2.saslVerify || held.2.pendingIdentify then some held.2.verifyEpoch else none
  { s with
    credentialEpoch := epoch
    credentialsEnded :=
      match outstanding.min? with
      | none => ∅
      | some oldest => (retain (fun _ at_ => oldest < at_) s.credentialsEnded).insert ended epoch }

/-- The sessions that ended sign-ins opened are closed. -/
def endSignIns (ended : EndedSignIns) (reason : Bytes) : State :=
  let s := s.endCredentials ended
  match ended with
  | .account key =>
    s.closeEvery (fun session => session.account.map cfg.casemap.casefold == some key) reason
  | .credential id => s.closeEvery (fun session => session.login.map Prod.snd == some id) reason
  | .every => s

/-! ## Events -/

inductive Event
  | opened (conn : ConnId) (host : Bytes) (saslRequired : Bool)
  | nick (conn : ConnId) (checks : NickChecks) (p : List Bytes)
  | user (conn : ConnId) (p : List Bytes)
  | cap (conn : ConnId) (p : List Bytes)
  | authenticate (conn : ConnId) (queued : Bool) (p : List Bytes)
  | identify (conn : ConnId) (queued : Bool)
  | verdict (conn : ConnId) (origin : CredentialOrigin) (verdict : Verdict)
  | gone (conn : ConnId)
  | suspension (account : Bytes) (suspended : Bool) (reason : Bytes)
  | ended (ended : EndedSignIns) (reason : Bytes)
  /-- Sessions of other shards take and give up nicks. -/
  | nicksElsewhere (nicks : AList fun _ : Bytes => ConnId)
  | bans (banMatch : Session → Option (Bytes × Bytes))

def step : Event → Option State
  | .opened conn host saslRequired => do
    guard (conn ∉ s.sessions)
    some { s with sessions := s.sessions.insert conn (.opened host saslRequired) }
  | .nick conn checks p => some (s.cmdNick cfg conn checks p)
  | .user conn p => some (s.cmdUser conn p)
  | .cap conn p => some (s.cmdCap cfg conn p)
  | .authenticate conn queued p => some (s.cmdAuthenticate cfg conn queued p)
  | .identify conn queued => some (s.nickservIdentify conn queued)
  | .verdict conn origin verdict => do
    guard ((conn, origin) ∈ s.inFlight)
    some ({ s with inFlight := s.inFlight.erase (conn, origin) }.dbReply cfg conn origin verdict)
  | .gone conn => some (s.close conn)
  | .suspension account suspended reason =>
    some (s.applyAccountSuspension cfg account suspended reason)
  | .ended ended reason => some (s.endSignIns cfg ended reason)
  | .nicksElsewhere nicks => some { s with nicks }
  | .bans banMatch => some { s with banMatch }

end State

/-- One shard, as far as registration goes. -/
def shard (cfg : Config) : System State State.Event where
  init := .init
  step := State.step cfg

end E6irc.Connecting
