import E6irc.Base.Assoc
import E6irc.Base.Run
import E6irc.Base.Slots
import E6irc.Proto.Casemap

/-!
# Account leases

`AccountRevocations` of `bouncer/account_lease.rs`: an attachment holds a lease on
its account and on the credential it signed in with, and is told when either is
revoked.  A ticket taken before the credential is checked holds the lease to the
revocations since; these are remembered by epoch, and only while a ticket older
than them is outstanding.

Each operation runs under the lock and is one step.  Dropping the ticket that
`lease` was given takes the lock again, so it is a step of its own.
-/

namespace E6irc.Bouncer.Revocations

open Base

inductive IssuedCredential
  | appPassword (id : ℤ) | apiToken (id : ℤ)
deriving DecidableEq, Repr

inductive CredentialId
  | accountPassword | issued (credential : IssuedCredential)
deriving DecidableEq, Repr

/-- What ended a lease, or refused it. -/
inductive Revocation
  | account | credential (credential : IssuedCredential) | rechecked
deriving DecidableEq, Repr

/-- What a revocation names. -/
inductive Revoked
  | account (folded : Bytes) | credential (credential : IssuedCredential) | every
deriving DecidableEq, Repr

def Revoked.revocation : Revoked → Revocation
  | .account _ => .account
  | .credential issued => .credential issued
  | .every => .rechecked

def fold (account : Bytes) : Bytes :=
  CaseMapping.casefold .rfc1459 account

/-! ## The state under the lock -/

/-- A live lease; its sender is that of the lease's own channel. -/
structure LiveLease where
  credential : CredentialId
deriving DecidableEq, Repr

structure RevocationState where
  epoch : ℕ := 0
  revokedAt : Endings Revoked := ∅
  /-- Outstanding tickets, by the epoch they were taken at. -/
  tickets : AList (fun _ : ℕ => ℕ) := ∅
  /-- Live leases, by folded account and by lease. -/
  leases : AList (fun _ : Bytes => AList fun _ : ℕ => LiveLease) := ∅
  nextLease : ℕ := 0

namespace RevocationState

variable (s : RevocationState)

/-- Revocations that no outstanding ticket predates are forgotten. -/
def prune : RevocationState :=
  { s with
    revokedAt :=
      match s.tickets.keys.min? with
      | none => ∅
      | some oldest => retain (fun _ revoked => oldest < revoked) s.revokedAt }

def takeTicket : RevocationState :=
  { s with tickets := s.tickets.insert s.epoch ((s.tickets.lookup s.epoch).getD 0 + 1) }

def releaseTicket (epoch : ℕ) : RevocationState :=
  let tickets :=
    match s.tickets.lookup epoch with
    | none => s.tickets
    | some count =>
      if count - 1 = 0 then s.tickets.erase epoch else s.tickets.insert epoch (count - 1)
  { s with tickets }.prune

/-- The leases that `ends` picks, of the live ones. -/
def told (ends : Bytes → LiveLease → Bool) : List ℕ :=
  s.leases.entries.flatMap fun held =>
    (held.2.entries.filter fun lease => ends held.1 lease.2).map Sigma.fst

/-- Record `revoked` for the tickets outstanding, and drop the leases that `ends`
picks; the leases told are the second result. -/
def revoke (revoked : Revoked) (ends : Bytes → LiveLease → Bool) : RevocationState × List ℕ :=
  let epoch := s.epoch + 1
  let revokedAt :=
    if s.tickets.entries = [] then s.revokedAt else s.revokedAt.insert revoked epoch
  let kept := mapValues (fun account => retain fun _ lease => !ends account lease) s.leases
  ({ s with
      epoch, revokedAt
      leases := retain (fun _ leases => leases.entries ≠ []) kept }.prune,
    s.told ends)

/-- The checks of `lease`, against a ticket of `epoch`. -/
def refusal (epoch : ℕ) (folded : Bytes) (credential : CredentialId) : Option Revocation :=
  let revokedSince := s.revokedAt.endedSince epoch
  if revokedSince (.account folded) then some .account
  else
    match credential with
    | .issued issued =>
      if revokedSince (.credential issued) then some (.credential issued)
      else if revokedSince .every then some .rechecked
      else none
    | .accountPassword => if revokedSince .every then some .rechecked else none

/-- A lease that is granted. -/
def grant (folded : Bytes) (credential : CredentialId) : RevocationState :=
  { s with
    nextLease := s.nextLease + 1
    leases := s.leases.insert folded
      (((s.leases.lookup folded).getD ∅).insert s.nextLease ⟨credential⟩) }

def dropLease (folded : Bytes) (id : ℕ) : RevocationState :=
  match s.leases.lookup folded with
  | none => s
  | some leases =>
    let leases := leases.erase id
    { s with
      leases :=
        if leases.entries = [] then s.leases.erase folded else s.leases.insert folded leases }

end RevocationState

/-! ## Tickets and leases in use -/

/-- `spent` once `lease` was called with it. -/
structure Ticket where
  epoch : ℕ
  spent : Bool := false
  dropped : Bool := false
deriving DecidableEq, Repr

/-- An `AccountLease`, with what was sent on its channel. -/
structure AccountLease where
  account : Bytes
  credential : CredentialId
  sent : List Revocation := []
  dropped : Bool := false
deriving DecidableEq, Repr

inductive Answer
  | done | leased (id : ℕ) | refused (revocation : Revocation) | told (leases : ℕ)
deriving DecidableEq, Repr

inductive Event
  | ticket
  | dropTicket (ticket : ℕ)
  | lease (ticket : ℕ) (account : Bytes) (credential : CredentialId)
  | dropLease (lease : ℕ)
  | revoke (account : Bytes)
  | revokeCredential (credential : IssuedCredential)
  | refuseInFlight
deriving DecidableEq, Repr

/-- The state, with the tickets and leases handed out, in order, and the answer
to each event. -/
structure World where
  state : RevocationState := {}
  tickets : List Ticket := []
  leases : List AccountLease := []
  answers : List Answer := []

namespace World

variable (w : World)

/-- Every sender in `told` sends `revocation`. -/
def tell (told : List ℕ) (revocation : Revocation) : List AccountLease :=
  w.leases.mapIdx fun id lease =>
    { lease with sent := lease.sent ++ List.replicate (told.count id) revocation }

def revoke (revoked : Revoked) (ends : Bytes → LiveLease → Bool) (answer : ℕ → Answer) : World :=
  let (state, told) := w.state.revoke revoked ends
  { w with
    state
    leases := w.tell told revoked.revocation
    answers := w.answers ++ [answer told.length] }

def step : Event → Option World
  | .ticket => some { w with
      state := w.state.takeTicket
      tickets := w.tickets ++ [{ epoch := w.state.epoch }]
      answers := w.answers ++ [.done] }
  | .dropTicket i => do
    let ticket ← w.tickets[i]?
    guard (ticket.dropped = false)
    some { w with
      state := w.state.releaseTicket ticket.epoch
      tickets := w.tickets.set i { ticket with dropped := true }
      answers := w.answers ++ [.done] }
  | .lease i account credential => do
    let ticket ← w.tickets[i]?
    guard (ticket.spent = false ∧ ticket.dropped = false)
    let tickets := w.tickets.set i { ticket with spent := true }
    match w.state.refusal ticket.epoch (fold account) credential with
    | some revocation =>
      some { w with tickets, answers := w.answers ++ [.refused revocation] }
    | none =>
      some {
        state := w.state.grant (fold account) credential
        tickets
        leases := w.leases ++ [{ account, credential }]
        answers := w.answers ++ [.leased w.state.nextLease] }
  | .dropLease id => do
    let lease ← w.leases[id]?
    guard (lease.dropped = false)
    some { w with
      state := w.state.dropLease (fold lease.account) id
      leases := w.leases.set id { lease with dropped := true }
      answers := w.answers ++ [.done] }
  | .revoke account =>
    some (w.revoke (.account (fold account)) (fun held _ => held = fold account) .told)
  | .revokeCredential credential =>
    some (w.revoke (.credential credential) (fun _ lease => lease.credential = .issued credential)
      .told)
  | .refuseInFlight => some (w.revoke .every (fun _ _ => false) fun _ => .done)

end World

/-- `AccountRevocations`, as used by any number of threads. -/
def revocations : System World Event where
  init := {}
  step := World.step

end E6irc.Bouncer.Revocations
