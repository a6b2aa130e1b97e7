import E6irc.Base.Assoc
import E6irc.Client.Names

/-!
# Which attachment an upstream line answers

`ReplyRouter` of `bouncer/replies.rs`.  Where the upstream labels its answers, a
forwarded line carries a label; otherwise a forwarded command waits in a queue, and
a numeric is attributed to a command of it.
-/

namespace E6irc.Bouncer

open Base Client

/-! ## Queries -/

/-- The numerics a query command is answered with. -/
structure Query where
  verb : Bytes
  replies : List ℕ
  ends : List ℕ
  /-- Errors after which the end still follows. -/
  continuingErrors : List ℕ
  /-- Parameters past which another server answers. -/
  localParams : Option ℕ
deriving DecidableEq, Repr

def queries : List Query := [
  ⟨ascii "WHO", [352, 354], [315], [], none⟩,
  ⟨ascii "WHOIS",
    [276, 301, 307, 310, 311, 312, 313, 317, 319, 320, 330, 335, 338, 378, 379, 671],
    [318], [401, 402], some 1⟩,
  ⟨ascii "WHOWAS", [312, 314, 330, 338], [369], [406], none⟩,
  ⟨ascii "LIST", [321, 322], [323], [], none⟩,
  ⟨ascii "NAMES", [353], [366], [403], none⟩,
  ⟨ascii "TOPIC", [332], [331, 333], [], none⟩,
  ⟨ascii "MODE", [324, 346, 348, 367, 728], [221, 329, 347, 349, 368, 729], [], none⟩,
  ⟨ascii "USERHOST", [], [302], [], none⟩,
  ⟨ascii "ISON", [], [303], [], none⟩,
  ⟨ascii "INVITE", [336], [337, 341], [], none⟩,
  ⟨ascii "AWAY", [], [305, 306], [], none⟩,
  ⟨ascii "LUSERS", [251, 252, 253, 254, 255, 265], [266], [], some 1⟩,
  ⟨ascii "MOTD", [372, 375], [376, 422], [], some 0⟩,
  ⟨ascii "TIME", [], [391], [], some 0⟩,
  ⟨ascii "ADMIN", [256, 257, 258], [259], [], some 0⟩,
  ⟨ascii "INFO", [371, 373], [374], [], some 0⟩,
  ⟨ascii "LINKS", [364], [365], [], some 1⟩,
  ⟨ascii "STATS",
    [211, 212, 213, 214, 215, 216, 217, 218, 240, 241, 242, 243, 244, 245, 246, 247, 248, 249, 250],
    [219], [], some 1⟩]

/-- A MODE that changes nothing: of a target alone, or a list mode without a mask. -/
def modeAsks (params : List Bytes) : Bool :=
  match params with
  | [_] => true
  | [_, modes] =>
    match modes.dropWhile (· == byte '+') with
    | [mode] => (ascii "beIq").contains mode
    | _ => false
  | _ => false

/-- The query a command line is, when it is one. -/
def queryOf (verb : Bytes) (params : List Bytes) : Option Query := do
  let query ← queries.find? (·.verb = verb)
  let asks :=
    if verb = ascii "MODE" then modeAsks params
    else if verb = ascii "TOPIC" then params.length == 1
    else if verb = ascii "INVITE" then params.length == 2 || params.isEmpty
    else true
  if asks then some query else none

/-- Whether another server answers it, and so possibly after later commands. -/
def Query.isRemote (query : Query) (params : List Bytes) : Bool :=
  query.localParams.any (· < params.length)

/-- Every name a command is about, folded: its parameters but a free text at the
end, split at commas. -/
def commandTargets (verb : Bytes) (params : List Bytes) (names : NetworkNames) : List Bytes :=
  let textLast := verb ∈
    ["PRIVMSG", "NOTICE", "PART", "KICK", "TOPIC", "QUIT", "AWAY", "KNOCK"].map ascii
  let named := if textLast ∧ 1 < params.length then params.dropLast else params
  ((named.flatMap fun param => param.splitOn (byte ',')).filter (· ≠ [])).map fun name =>
    names.fold (names.conversation name)

/-! ## The router -/

inductive Correlation
  | labels | order
deriving DecidableEq, Repr

/-- What an upstream line is to the attached clients. -/
inductive Upstream
  | session (line : Bytes) (origin : Option ℕ)
  | reply (line : Bytes) (origin : ℕ)
  | consumed
deriving DecidableEq, Repr

/-- A forwarded command that awaits its answer. -/
structure Pending where
  id : ℕ
  origin : ℕ
  verb : Bytes
  targets : List Bytes
  query : Option Query
  remote : Bool
  since : ℕ
deriving DecidableEq, Repr

structure Labelled where
  origin : ℕ
  since : ℕ
deriving DecidableEq, Repr

structure ReplyRouter where
  pending : List Pending
  labels : AList fun _ : Bytes => Labelled
  /-- Open batches, each with the label it answers. -/
  batches : AList fun _ : Bytes => Option Bytes
  /-- Channels whose join burst is still arriving. -/
  joining : List Bytes
  nextId : ℕ
  barrierSent : Option ℕ

/-- In nanoseconds. -/
def pendingReplyWindow : ℕ := 60 * 10 ^ 9

def maxPending : ℕ := 128

def barrierToken : Bytes := ascii "e6bnc-route-"

def joinBurst : List ℕ := [324, 328, 329, 332, 333, 353, 366]

def rplAway : ℕ := 301

def isFresh (now since : ℕ) : Bool :=
  now - since < pendingReplyWindow

/-- `line` with its own `label` replaced, when the tags can take it. -/
def withLabel (line : Bytes) (message : Message) (label : Bytes) : Option Bytes :=
  let body :=
    match stripFirst (byte '@') line with
    | some rest => (splitOnce (byte ' ') rest).elim [] Prod.snd
    | none => line
  let tags := (message.tags.filter (·.key ≠ ascii "label")).map fun tag =>
    tag.value.elim tag.key fun value => tag.key ++ byte '=' :: escapeTagValue value
  let labelled := byte '@' ::
    ([byte ';'].intercalate (tags ++ [ascii "label=" ++ label]) ++ byte ' ' :: body)
  if clientFrameFits labelled then some labelled else none

/-- `raw` without the tags that frame it. -/
def withoutFramingTags (raw : Bytes) : Bytes :=
  match (stripFirst (byte '@') raw).bind (splitOnce (byte ' ')) with
  | none => raw
  | some (tags, body) =>
    let all := tags.splitOn (byte ';')
    let kept := all.filter fun tag =>
      (tag.splitOn (byte '=')).head? ∉ [some (ascii "label"), some (ascii "batch")]
    if kept.length = all.length then raw
    else if kept = [] then body
    else byte '@' :: ([byte ';'].intercalate kept ++ byte ' ' :: body)

def isError (code : ℕ) : Bool :=
  (400 ≤ code && code < 600) || code == 263

def isStandardReply (message : OwnedMessage) : Bool :=
  message.command ∈ ["FAIL", "WARN", "NOTE"].map ascii

namespace Pending

/-- Whether the command names the subject. -/
def about (subject : Option Bytes) (pending : Pending) : Bool :=
  subject.any pending.targets.contains

/-- Whether the numeric is one the query is answered with. -/
def answers (code : ℕ) (pending : Pending) : Bool :=
  pending.query.any fun query =>
    query.replies.contains code || query.ends.contains code || query.continuingErrors.contains code

/-- Whether the numeric ends the answer. -/
def endedBy (code : ℕ) (pending : Pending) : Bool :=
  pending.query.any fun query =>
    query.ends.contains code || (isError code && !query.continuingErrors.contains code)

end Pending

namespace ReplyRouter

def new : ReplyRouter where
  pending := []
  labels := ∅
  batches := ∅
  joining := []
  nextId := 0
  barrierSent := none

/-- Forget commands whose answer is overdue. -/
def expire (now : ℕ) (r : ReplyRouter) : ReplyRouter :=
  { r with
    pending := r.pending.filter (isFresh now ·.since)
    labels := retain (fun _ labelled => isFresh now labelled.since) r.labels }

/-- Insert a label; at the bound the oldest one goes. -/
def insertLabel (label : Bytes) (labelled : Labelled) (r : ReplyRouter) : ReplyRouter :=
  let oldest := if maxPending ≤ r.labels.entries.length then
      r.labels.entries.argmin (·.2.since)
    else none
  let labels := oldest.elim r.labels fun entry => r.labels.erase entry.1
  { r with labels := labels.insert label labelled }

/-- Take a client line about to be forwarded and return the line to write.  Origin
0 is no attachment. -/
def forward (origin : ℕ) (line : Bytes) (correlation : Correlation) (names : NetworkNames)
    (now : ℕ) (r : ReplyRouter) : Bytes × ReplyRouter :=
  let r := r.expire now
  match Message.parse line with
  | .error _ => (line, r)
  | .ok message =>
    if origin = 0 then (line, r)
    else
      let r := { r with nextId := r.nextId + 1 }
      match correlation with
      | .labels =>
        let label := ascii "e6b" ++ decimal r.nextId
        match withLabel line message label with
        | none => (line, r)
        | some labelled => (labelled, r.insertLabel label ⟨origin, now⟩)
      | .order =>
        let verb := toAsciiUppercase message.command
        let query := queryOf verb message.params
        let waiting := if maxPending ≤ r.pending.length then r.pending.tail else r.pending
        let pending : Pending :=
          { id := r.nextId
            origin
            verb
            targets := commandTargets verb message.params names
            query
            remote := query.any (·.isRemote message.params)
            since := now }
        (line, { r with pending := waiting ++ [pending] })

/-- The `PING` to write now, after the newest command that may have no answer. -/
def barrierDue (r : ReplyRouter) : Option Bytes × ReplyRouter :=
  match r.barrierSent, ((r.pending.filter (·.query.isNone)).map Pending.id).max? with
  | none, some newest =>
    (some (ascii "PING :" ++ barrierToken ++ decimal newest), { r with barrierSent := some newest })
  | _, _ => (none, r)

/-- The label of the batch a line is in. -/
def batchLabel (message : OwnedMessage) (r : ReplyRouter) : Option Bytes :=
  ((message.tag (ascii "batch")).bind r.batches.lookup).join

def frameBatch (message : OwnedMessage) (r : ReplyRouter) : ReplyRouter :=
  match message.params.head? with
  | none => r
  | some reference =>
    match stripFirst (byte '+') reference, stripFirst (byte '-') reference with
    | some id, _ =>
      let label := message.tag (ascii "label") <|> r.batchLabel message
      if r.batches.entries.length < maxPending then
        { r with batches := r.batches.insert id label }
      else r
    | none, some id =>
      let closed := { r with batches := r.batches.erase id }
      match (r.batches.lookup id).join with
      | none => closed
      | some label =>
        if closed.batches.entries.any (·.2 = some label) then closed
        else { closed with labels := closed.labels.erase label }
    | none, none => r

/-- The command of ours that a `PONG` answers. -/
def barrierCovered (message : OwnedMessage) : Option ℕ := do
  guard (message.command = ascii "PONG")
  let token ← message.params.getLast?
  guard (barrierToken <+: token)
  parseUnsigned 64 (token.drop barrierToken.length)

def passBarrier (covered : ℕ) (r : ReplyRouter) : ReplyRouter :=
  { r with
    pending := r.pending.filter fun pending => pending.query.isSome || decide (covered < pending.id)
    barrierSent := if r.barrierSent = some covered then none else r.barrierSent }

/-- Our own `JOIN` begins a channel's join burst. -/
def trackJoinBurst (message : OwnedMessage) (names : NetworkNames) (ownNick : Bytes)
    (r : ReplyRouter) : ReplyRouter :=
  let nick := message.source.map fun source => ((splitOnce (byte '!') source).elim source Prod.fst)
  let ours := nick.any fun nick => names.fold nick = names.fold ownNick
  if ours ∧ toAsciiUppercase message.command = ascii "JOIN" then
    let channels := (message.params.head?.getD []).splitOn (byte ',')
    { r with
      joining := (channels.filter (· ≠ [])).foldl (fun joining channel =>
        if joining.length < maxPending then joining.insert (names.fold channel) else joining)
        r.joining }
  else r

/-- Whether a numeric is part of a join burst, which its end of names ends. -/
def inJoinBurst (code : ℕ) (message : OwnedMessage) (names : NetworkNames) (r : ReplyRouter) :
    Bool × ReplyRouter :=
  match message.numericSubject with
  | none => (false, r)
  | some channel =>
    let key := names.fold channel
    if joinBurst.contains code && r.joining.contains key then
      (true, if code = 366 then { r with joining := r.joining.erase key } else r)
    else (false, r)

/-- The pending command a numeric is attributed to. -/
def attribution (code : ℕ) (message : OwnedMessage) (names : NetworkNames) (r : ReplyRouter) :
    Option ℕ :=
  let subject := message.numericSubject.map names.fold
  r.pending.findIdx? (fun pending => pending.answers code && pending.about subject) <|>
    (if code = rplAway then r.pending.findIdx? (·.about subject) else none) <|>
    r.pending.findIdx? (·.answers code) <|>
    if ¬ isError code then none
    else if code ∈ [263, 421, 461] then do
      let verb ← message.params[1]?
      r.pending.findIdx? (·.verb = toAsciiUppercase verb)
    else r.pending.findIdx? (·.about subject)

/-- The attachment a numeric answers.  A local query older than the one answering
now has had its whole answer. -/
def answerToNumeric (code : ℕ) (message : OwnedMessage) (names : NetworkNames)
    (r : ReplyRouter) : Option ℕ × ReplyRouter :=
  match r.attribution code message names with
  | none => (none, r)
  | some index =>
    match r.pending[index]? with
    | none => (none, r)
    | some answered =>
      let left := if answered.endedBy code then r.pending.eraseIdx index else r.pending
      (some answered.origin,
        { r with
          pending := left.filter fun pending =>
            decide (answered.id ≤ pending.id) || pending.remote || pending.query.isNone })

/-- The attachment a standard reply answers: the oldest command it names. -/
def answerToStandardReply (message : OwnedMessage) (r : ReplyRouter) : Option ℕ × ReplyRouter :=
  match message.params.head? with
  | none => (none, r)
  | some named =>
    match r.pending.findIdx? (·.verb = toAsciiUppercase named) with
    | none => (none, r)
    | some index =>
      match r.pending[index]? with
      | none => (none, r)
      | some answered =>
        (some answered.origin,
          if message.command = ascii "FAIL" ∧ answered.query.isSome then
            { r with pending := r.pending.eraseIdx index }
          else r)

/-- What a line is that no label names. -/
def classifyUnlabelled (message : OwnedMessage) (line : Bytes) (names : NetworkNames)
    (r : ReplyRouter) : Upstream × ReplyRouter :=
  let (origin, r) :=
    match message.numeric with
    | some code => r.answerToNumeric code message names
    | none => if isStandardReply message then r.answerToStandardReply message else (none, r)
  (origin.elim (.session line none) (.reply line), r)

/-- What a line is that answers under `label`. -/
def classifyLabelled (message : OwnedMessage) (line label : Bytes) (direct joinState : Bool)
    (r : ReplyRouter) : Upstream × ReplyRouter :=
  let origin := (r.labels.lookup label).map Labelled.origin
  let r := if direct then { r with labels := r.labels.erase label } else r
  match origin with
  | none => (.session line none, r)
  | some origin =>
    if (message.numeric.isSome && !joinState) || isStandardReply message then (.reply line origin, r)
    else (.session line (some origin), r)

/-- Classify one upstream line. -/
def classify (message : OwnedMessage) (raw : Bytes) (names : NetworkNames) (ownNick : Bytes)
    (now : ℕ) (r : ReplyRouter) : Upstream × ReplyRouter :=
  let r := r.expire now
  if message.command = ascii "BATCH" then (.consumed, r.frameBatch message)
  else
    match barrierCovered message with
    | some covered => (.consumed, r.passBarrier covered)
    | none =>
      let direct := message.tag (ascii "label")
      let label := direct <|> r.batchLabel message
      let line := withoutFramingTags raw
      if message.command = ascii "ACK" then
        (.consumed, label.elim r fun label => { r with labels := r.labels.erase label })
      else
        let r := r.trackJoinBurst message names ownNick
        let (joinState, r) := message.numeric.elim (false, r) fun code =>
          r.inJoinBurst code message names
        match label with
        | some label => r.classifyLabelled message line label direct.isSome joinState
        | none =>
          if joinState then (.session line none, r) else r.classifyUnlabelled message line names

end ReplyRouter

end E6irc.Bouncer
