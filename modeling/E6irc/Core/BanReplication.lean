import E6irc.Base.Links
import E6irc.Base.Run
import E6irc.Core.ServerBan

/-!
# Server bans over the shards of the core

Operators and administrators change server bans on any shard.  A change is
queued for the database, which works through the requests one at a time and
answers each to the shard it came from; that shard then applies the change to
its own hot list and tells every other shard (`Input::ServerBanApplied`).  A
shard refuses a second change of a ban while its own first one is out
(`pending_server_bans`); it does not know of the other shards' changes.

Time does not pass between the steps, so no ban lapses here; the sessions a new
ban disconnects are not part of the model.
-/

namespace E6irc.Bans

open Base

/-- The case mapping all shards use, and the rows in force when they boot. -/
structure Config where
  casemap : CaseMapping
  rows : List BanRow
  nextId : ℤ
  keyed : Keyed (BanRow.key casemap) rows

/-- Who is told the verdict: `ServerBanRequester`. -/
inductive Requester
  | oper (conn : ℕ) (label : Option Bytes)
  | admin (requestId : ℕ)
deriving DecidableEq, Repr

inductive BanControlError
  | notFound | conflict | unavailable
deriving DecidableEq, Repr

/-- An operator's NOTICE, or the reply to an administrative request. -/
inductive Answer
  | notice (text : Bytes)
  | ok (text : Bytes)
  | banErr (kind : BanControlError) (message : Bytes)
deriving DecidableEq, Repr

/-- `DbRequest::MutateServerBan`, with the shard its result goes to. -/
structure Request (Shard : Type) where
  shard : Shard
  requester : Requester
  mutation : ServerBanMutation
deriving DecidableEq, Repr

structure State (Shard : Type) where
  hot : Shard → List ServerBan
  pending : Shard → List BanKey
  table : BanTable
  requests : List (Request Shard)
  results : List (Request Shard × ServerBanResult)
  links : Links Shard ServerBanMutation
  answers : List (Requester × Answer)

inductive Event (Shard : Type)
  /-- A command reaches its mutation; `room` is whether the database's queue has any. -/
  | change (request : Request Shard) (nowSecs : ℕ) (room : Bool)
  /-- The database works on a request it holds. -/
  | commit (request : Request Shard)
  /-- The database fails on a request it holds. -/
  | fail (request : Request Shard)
  /-- `Input::ServerBanResult` at the requester's shard. -/
  | serverBanResult (request : Request Shard) (result : ServerBanResult)
  /-- `Input::ServerBanApplied` from one shard at another. -/
  | serverBanApplied (src dst : Shard)
deriving DecidableEq, Repr

/-! ## What the requester is told -/

/-- Why a change is not queued. -/
inductive Refusal
  | notFound | alreadyPending | persistenceUnavailable
deriving DecidableEq, Repr

def banAddedText (kind : BanKind) (mask : Bytes) : Option ServerBanExpiry → Bytes
  | some expiry =>
    ascii "Added temporary " ++ decimal expiry.minutes ++ ascii " min. " ++ kind.label ++
      ascii " for " ++ mask
  | none => ascii "Added " ++ kind.label ++ ascii " for " ++ mask

/-- What `begin_oper_server_ban` and `queue_admin_server_ban` say a change was not. -/
def unavailableAction : ServerBanMutation → Bytes
  | .add .. => ascii "added"
  | .remove .. => ascii "removed"

def refusalAnswer (requester : Requester) (mutation : ServerBanMutation) (refusal : Refusal) :
    Answer :=
  let label := mutation.kind.label
  let mask := mutation.mask.display
  match requester, refusal with
  | .oper .., .notFound => .notice (ascii "No " ++ label ++ ascii " found for " ++ mask)
  | .oper .., .alreadyPending =>
    .notice (ascii "A " ++ label ++ ascii " change for " ++ mask ++ ascii " is already in progress")
  | .oper .., .persistenceUnavailable =>
    .notice (ascii "Services are temporarily unavailable; " ++ label ++ ascii " not " ++
      unavailableAction mutation)
  | .admin .., .notFound =>
    .banErr .notFound (ascii "no " ++ label ++ ascii " matching " ++ mask)
  | .admin .., .alreadyPending =>
    .banErr .conflict (ascii "a " ++ label ++ ascii " change for " ++ mask ++
      ascii " is already in progress")
  | .admin .., .persistenceUnavailable =>
    .banErr .unavailable (ascii "persistence unavailable; server ban not " ++
      unavailableAction mutation)

/-- `finish_server_ban`. -/
def finishServerBan (requester : Requester) (operatorText : Bytes) (adminReply : Answer) : Answer :=
  match requester with
  | .oper .. => .notice operatorText
  | .admin .. => adminReply

def resultAnswer (requester : Requester) (mutation : ServerBanMutation) :
    ServerBanResult → Answer
  | .unavailable =>
    let reason := ascii "services are temporarily unavailable"
    finishServerBan requester (ascii "Server-ban change failed: " ++ reason)
      (.banErr .unavailable (ascii "server-ban change failed: " ++ reason))
  | .missing =>
    finishServerBan requester
      (ascii "No stored " ++ mutation.kind.label ++ ascii " for " ++ mutation.mask.display)
      (.banErr .notFound (ascii "server ban no longer exists"))
  | .stored =>
    let text := match mutation with
      | .add mask kind _ _ expiry => banAddedText kind mask.display expiry
      | .remove _ mask kind _ => ascii "Removed " ++ kind.label ++ ascii " for " ++ mask.display
    finishServerBan requester text (.ok text)

/-! ## The steps -/

variable {Shard : Type} [DecidableEq Shard]

namespace State

variable (casemap : CaseMapping) (s : State Shard)

/-- The checks of `cmd_remove_ban` and `begin_remove_ban`, then those of
`queue_server_ban_mutation`. -/
def refusal (request : Request Shard) (nowSecs : ℕ) (room : Bool) : Option Refusal :=
  let key := request.mutation.key casemap
  let enforced := (s.hot request.shard).any fun ban => ban.inForce nowSecs && ban.key casemap = key
  if request.mutation.ban.isNone && !enforced then some .notFound
  else if key ∈ s.pending request.shard then some .alreadyPending
  else if !room then some .persistenceUnavailable
  else none

def answer (requester : Requester) (answer : Answer) : State Shard :=
  { s with answers := s.answers ++ [(requester, answer)] }

/-- `queue_server_ban_mutation`, once nothing speaks against it. -/
def enqueue (request : Request Shard) : State Shard :=
  { s with
    requests := s.requests ++ [request]
    pending := Function.update s.pending request.shard
      (request.mutation.key casemap :: s.pending request.shard) }

/-- The database is done with a request. -/
def resolve (request : Request Shard) (outcome : BanTable × ServerBanResult) : State Shard :=
  { s with
    table := outcome.1
    requests := s.requests.erase request
    results := s.results ++ [(request, outcome.2)] }

/-- `apply_committed_server_ban` on one shard. -/
def apply (shard : Shard) (mutation : ServerBanMutation) : State Shard :=
  { s with
    hot := Function.update s.hot shard (applyCommittedServerBan casemap (s.hot shard) mutation) }

/-- `reconcile_server_ban_everywhere`: here at once, elsewhere by broadcast. -/
def reconcile (shard : Shard) (mutation : ServerBanMutation) : State Shard :=
  { s.apply casemap shard mutation with links := s.links.broadcast shard mutation }

/-- The result leaves the queue and the shard may take up another change of the ban. -/
def release (request : Request Shard) (result : ServerBanResult) : State Shard :=
  { s with
    results := s.results.erase (request, result)
    pending := Function.update s.pending request.shard
      ((s.pending request.shard).filter (· ≠ request.mutation.key casemap)) }

/-- `server_ban_result` and what `handle_input` does with its verdict. -/
def serverBanResult (request : Request Shard) (result : ServerBanResult) : State Shard :=
  let s := (s.release casemap request result).answer request.requester
    (resultAnswer request.requester request.mutation result)
  match (serverBanVerdict request.mutation result).applied with
  | none => s
  | some mutation => s.reconcile casemap request.shard mutation

variable {casemap s} {shard other : Shard} {mutation : ServerBanMutation}

theorem hot_apply_self :
    (s.apply casemap shard mutation).hot shard =
      applyCommittedServerBan casemap (s.hot shard) mutation :=
  Function.update_self ..

theorem hot_apply_of_ne (apart : other ≠ shard) :
    (s.apply casemap shard mutation).hot other = s.hot other :=
  Function.update_of_ne apart ..

variable {request : Request Shard} {result : ServerBanResult}

theorem requests_serverBanResult :
    (s.serverBanResult casemap request result).requests = s.requests := by
  unfold serverBanResult
  split <;> rfl

theorem results_serverBanResult :
    (s.serverBanResult casemap request result).results = s.results.erase (request, result) := by
  unfold serverBanResult
  split <;> rfl

theorem table_serverBanResult : (s.serverBanResult casemap request result).table = s.table := by
  unfold serverBanResult
  split <;> rfl

theorem pending_serverBanResult :
    (s.serverBanResult casemap request result).pending =
      (s.release casemap request result).pending := by
  unfold serverBanResult
  split <;> rfl

/-- A result puts nothing but its own mutation on the links that leave its shard. -/
theorem mem_links_serverBanResult {src dst : Shard}
    (queued : mutation ∈ (s.serverBanResult casemap request result).links src dst) :
    mutation ∈ s.links src dst ∨
      (src = request.shard ∧ dst ≠ request.shard) ∧ mutation = request.mutation := by
  unfold serverBanResult at queued
  split at queued
  · exact .inl queued
  · rename_i verdict
    rw [ServerBanVerdict.eq_of_applied verdict] at queued
    exact Links.mem_broadcast.mp queued

end State

/-- Only the console can pin a removal to a row. -/
def Request.wellFormed (request : Request Shard) : Bool :=
  match request.requester, request.mutation with
  | .oper .., .remove (some _) .. => false
  | _, _ => true

def step (casemap : CaseMapping) (s : State Shard) : Event Shard → Option (State Shard)
  | .change request nowSecs room => do
      guard request.wellFormed
      match s.refusal casemap request nowSecs room with
      | some refusal =>
        some (s.answer request.requester (refusalAnswer request.requester request.mutation refusal))
      | none => some (s.enqueue casemap request)
  | .commit request => do
      guard (request ∈ s.requests)
      some (s.resolve request (mutateServerBanAudited casemap s.table request.mutation))
  | .fail request => do
      guard (request ∈ s.requests)
      some (s.resolve request (s.table, .unavailable))
  | .serverBanResult request result => do
      guard ((request, result) ∈ s.results)
      some (s.serverBanResult casemap request result)
  | .serverBanApplied src dst => do
      let (mutation, rest) ← s.links.receive src dst
      some ({ s with links := rest }.apply casemap dst mutation)

/-- Every shard boots from the same rows. -/
def bans (cfg : Config) (Shard : Type) [DecidableEq Shard] : System (State Shard) (Event Shard) where
  init :=
    { hot := fun _ => cfg.rows.map BanRow.ban
      pending := fun _ => []
      table := ⟨cfg.rows, cfg.nextId⟩
      requests := []
      results := []
      links := Links.empty
      answers := [] }
  step := step cfg.casemap

end E6irc.Bans
