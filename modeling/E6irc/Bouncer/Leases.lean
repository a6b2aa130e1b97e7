import E6irc.Bouncer.AccountLease

/-!
# Leases heed the revocations since their ticket

A ticket that is out keeps every later revocation remembered, so `lease` refuses
exactly what was revoked since.  A lease is in the map from the moment it is
granted until it is dropped or told, so the first revocation that names it tells
it, and no other does.
-/

namespace E6irc.Bouncer.Revocations

open Base List Option RevocationState

/-! ## What the operations leave alone -/

namespace RevocationState

variable {s : RevocationState}

@[simp] theorem prune_tickets : s.prune.tickets = s.tickets := rfl

@[simp] theorem prune_epoch : s.prune.epoch = s.epoch := rfl

@[simp] theorem prune_leases : s.prune.leases = s.leases := rfl

/-- Pruning forgets nothing that an outstanding ticket predates. -/
theorem tells_prune {taken : ℕ} {since : Revoked → Prop} (tells : s.revokedAt.Tells taken since)
    (outstanding : taken ∈ s.tickets) : s.prune.revokedAt.Tells taken since := by
  unfold prune
  dsimp only
  split
  · rename_i none
    rw [min?_eq_none_iff] at none
    rw [AList.mem_keys, none] at outstanding
    cases outstanding
  · rename_i oldest least
    exact tells.retain ((min?_eq_some_iff.mp least).2 taken (AList.mem_keys.mp outstanding))

theorem lookup_prune {name : Revoked} {revoked : ℕ}
    (found : s.prune.revokedAt.lookup name = some revoked) :
    s.revokedAt.lookup name = some revoked := by
  unfold prune at found
  dsimp only at found
  split at found
  · cases found
  · exact (lookup_retain_eq_some.mp found).1

/-- With no ticket out, nothing is remembered. -/
theorem prune_of_no_ticket (none : s.tickets.entries = []) : s.prune.revokedAt = ∅ := by
  have keys : s.tickets.keys = [] := by simp [AList.keys, keys, none]
  simp [prune, keys]

theorem lookup_releaseTicket {epoch count : ℕ} (held : s.tickets.lookup epoch = some count)
    (other : ℕ) :
    (s.releaseTicket epoch).tickets.lookup other =
      if other = epoch then if count - 1 = 0 then none else some (count - 1)
      else s.tickets.lookup other := by
  unfold releaseTicket
  rw [held]
  dsimp only [prune_tickets]
  rcases eq_or_ne other epoch with rfl | apart
  · rw [if_pos rfl]
    split_ifs <;> simp
  · rw [if_neg apart]
    split_ifs <;> simp [apart]

end RevocationState

/-! ## What an event revokes -/

def Event.revokes : Event → Option Revoked
  | .revoke account => some (.account (fold account))
  | .revokeCredential credential => some (.credential credential)
  | .refuseInFlight => some .every
  | _ => none

/-- A lease on `account` with `credential` is refused after this. -/
def Revoked.refuses (account : Bytes) (credential : CredentialId) : Revoked → Bool
  | .account folded => folded = fold account
  | .credential issued => credential = .issued issued
  | .every => true

theorem RevocationState.refusal_eq_none {s : RevocationState} {epoch : ℕ} {since : Revoked → Prop}
    (tells : s.revokedAt.Tells epoch since) (account : Bytes) (credential : CredentialId) :
    s.refusal epoch (fold account) credential = none ↔
      ∀ revoked, since revoked → revoked.refuses account credential = false := by
  have byName : (∀ revoked, since revoked → revoked.refuses account credential = false) ↔
      ¬ since (.account (fold account)) ∧
        (∀ issued, credential = .issued issued → ¬ since (.credential issued)) ∧ ¬ since .every := by
    constructor
    · intro spared
      refine ⟨fun held => ?_, fun issued same held => ?_, fun held => ?_⟩
      · simpa [Revoked.refuses] using spared _ held
      · simpa [Revoked.refuses, same] using spared _ held
      · simpa [Revoked.refuses] using spared _ held
    · rintro ⟨noAccount, noCredential, notEvery⟩ revoked held
      cases revoked with
      | account folded =>
        refine decide_eq_false fun same => noAccount ?_
        rwa [← same]
      | credential issued => exact decide_eq_false fun same => noCredential issued same held
      | every => exact absurd held notEvery
  rw [byName, ← tells (.account (fold account)), ← tells .every]
  unfold refusal
  dsimp only
  cases credential with
  | accountPassword =>
    cases s.revokedAt.endedSince epoch (.account (fold account)) <;>
      cases s.revokedAt.endedSince epoch .every <;> simp
  | issued issued =>
    simp only [CredentialId.issued.injEq, forall_eq', ← tells (.credential issued)]
    cases s.revokedAt.endedSince epoch (.account (fold account)) <;>
      cases s.revokedAt.endedSince epoch (.credential issued) <;>
        cases s.revokedAt.endedSince epoch .every <;> simp

theorem ne_of_revokes {e x : Event} {revoked : Revoked} (revokes : e.revokes = some revoked)
    (quiet : x.revokes = none) : e ≠ x := by
  rintro rfl
  cases quiet.symm.trans revokes

theorem split_before {e x : Event} {es before after : List Event} (other : e ≠ x)
    (split : es ++ [e] = before ++ x :: after) :
    ∃ between, after = between ++ [e] ∧ es = before ++ x :: between := by
  rcases snoc_eq_split.mp split with ⟨_, same, _⟩ | later
  · exact absurd same other
  · exact later

/-! ## Tickets -/

namespace World

variable {w w' : World} {es : List Event} {e : Event}

/-- How many tickets of an epoch are out. -/
def outstanding (w : World) (epoch : ℕ) : ℕ :=
  w.tickets.countP fun ticket => !ticket.dropped && ticket.epoch = epoch

/-- Every ticket that is out is counted, and the revocations since it was taken
are remembered. -/
structure Ticketed (es : List Event) (w : World) : Prop where
  taken : w.tickets.length = es.count .ticket
  counts : ∀ epoch, w.state.tickets.lookup epoch =
    if w.outstanding epoch = 0 then none else some (w.outstanding epoch)
  past : ∀ name revoked, w.state.revokedAt.lookup name = some revoked → revoked ≤ w.state.epoch
  epochs : ∀ ticket ∈ w.tickets, ticket.epoch ≤ w.state.epoch
  tells : ∀ before after, es = before ++ .ticket :: after →
    ∀ ticket, w.tickets[before.count .ticket]? = some ticket → ticket.dropped = false →
      w.state.revokedAt.Tells ticket.epoch fun name => ∃ e ∈ after, e.revokes = some name
  forgotten : w.state.tickets.entries = [] → w.state.revokedAt = ∅

theorem outstanding_pos {ticket : Ticket} (among : ticket ∈ w.tickets)
    (kept : ticket.dropped = false) : 0 < w.outstanding ticket.epoch :=
  countP_pos_iff.mpr ⟨ticket, among, by simp [kept]⟩

theorem Ticketed.lookup (ticketed : w.Ticketed es) {ticket : Ticket} (among : ticket ∈ w.tickets)
    (kept : ticket.dropped = false) :
    w.state.tickets.lookup ticket.epoch = some (w.outstanding ticket.epoch) := by
  rw [ticketed.counts, if_neg (outstanding_pos among kept).ne']

/-- Nothing about tickets changes but that one may be spent. -/
theorem Ticketed.still (ticketed : w.Ticketed es) (other : e ≠ .ticket) (quiet : e.revokes = none)
    (epoch : w'.state.epoch = w.state.epoch) (revokedAt : w'.state.revokedAt = w.state.revokedAt)
    (counts : w'.state.tickets = w.state.tickets)
    (tickets : w'.tickets.map (fun ticket => (ticket.epoch, ticket.dropped)) =
      w.tickets.map fun ticket => (ticket.epoch, ticket.dropped)) :
    w'.Ticketed (es ++ [e]) := by
  have outstanding (epoch : ℕ) : w'.outstanding epoch = w.outstanding epoch := by
    have counted (w : World) : w.outstanding epoch =
        (w.tickets.map fun ticket => (ticket.epoch, ticket.dropped)).countP
          fun entry => !entry.2 && entry.1 = epoch := by
      rw [countP_map]
      rfl
    rw [counted, counted, tickets]
  have same {i : ℕ} {ticket : Ticket} (found : w'.tickets[i]? = some ticket) :
      ∃ old, w.tickets[i]? = some old ∧ old.epoch = ticket.epoch ∧ old.dropped = ticket.dropped := by
    have agree := congrArg (·[i]?) tickets
    simp only [getElem?_map, found, map_some] at agree
    obtain ⟨old, foundOld, agree⟩ := map_eq_some_iff.mp agree.symm
    exact ⟨old, foundOld, Prod.mk.inj agree⟩
  have length : w'.tickets.length = w.tickets.length := by
    simpa using congrArg length tickets
  constructor
  case taken => rw [length, ticketed.taken, count_append, count_singleton]; simp [other]
  case counts => simpa only [counts, outstanding] using ticketed.counts
  case past => simpa only [revokedAt, epoch] using ticketed.past
  case epochs =>
    intro ticket among
    obtain ⟨i, found⟩ := mem_iff_getElem?.mp among
    obtain ⟨old, foundOld, sameEpoch, _⟩ := same found
    rw [epoch, ← sameEpoch]
    exact ticketed.epochs old (mem_of_getElem? foundOld)
  case tells =>
    intro before after split ticket found kept
    obtain ⟨between, rfl, rfl⟩ := split_before other split
    obtain ⟨old, foundOld, sameEpoch, sameDropped⟩ := same found
    have tells := ticketed.tells before between rfl old foundOld (sameDropped.trans kept)
    rw [revokedAt, ← sameEpoch]
    simpa [quiet] using tells
  case forgotten => simpa only [counts, revokedAt] using ticketed.forgotten

attribute [local simp] RevocationState.takeTicket outstanding

theorem Ticketed.ticket (ticketed : w.Ticketed es) (step : w.step .ticket = some w') :
    w'.Ticketed (es ++ [.ticket]) := by
  cases step
  constructor
  case taken => simp [ticketed.taken]
  case counts =>
    intro epoch
    have counted : w.outstanding w.state.epoch = (w.state.tickets.lookup w.state.epoch).getD 0 := by
      rw [ticketed.counts]
      split <;> simp_all
    rcases eq_or_ne epoch w.state.epoch with rfl | apart
    · simp [← counted]
    · have before := ticketed.counts epoch
      simpa [apart, apart.symm] using before
  case past => exact ticketed.past
  case epochs =>
    intro ticket among
    rcases mem_append.mp among with before | new
    · exact ticketed.epochs ticket before
    · rw [mem_singleton.mp new]
      exact le_rfl
  case tells =>
    intro before after split ticket found kept
    rcases snoc_eq_split.mp split with ⟨rfl, _, rfl⟩ | ⟨between, rfl, rfl⟩
    · rw [← ticketed.taken, getElem?_concat_length] at found
      cases found
      simpa using Endings.tells_now ticketed.past
    · have early : before.count .ticket < w.tickets.length := by simp [ticketed.taken]
      rw [getElem?_append_left early] at found
      have tells := ticketed.tells before between rfl ticket found kept
      simpa [Event.revokes] using tells
  case forgotten =>
    intro none
    have held : w.state.epoch ∈ w.state.takeTicket.tickets := by simp
    rw [AList.mem_keys, AList.keys, keys, none] at held
    cases held

/-- What holds of the state before it is pruned holds after. -/
theorem ticketed_of_prune {state : RevocationState} (pruned : w.state = state.prune)
    (taken : w.tickets.length = es.count .ticket)
    (counts : ∀ epoch, state.tickets.lookup epoch =
      if w.outstanding epoch = 0 then none else some (w.outstanding epoch))
    (past : ∀ name revoked, state.revokedAt.lookup name = some revoked → revoked ≤ state.epoch)
    (epochs : ∀ ticket ∈ w.tickets, ticket.epoch ≤ state.epoch)
    (tells : ∀ before after, es = before ++ .ticket :: after →
      ∀ ticket, w.tickets[before.count .ticket]? = some ticket → ticket.dropped = false →
        state.revokedAt.Tells ticket.epoch fun name => ∃ e ∈ after, e.revokes = some name) :
    w.Ticketed es where
  taken := taken
  counts := by simpa only [pruned, prune_tickets] using counts
  past name revoked found := by
    rw [pruned] at found ⊢
    exact past name revoked (lookup_prune found)
  epochs := by simpa only [pruned, prune_epoch] using epochs
  tells before after split ticket found kept := by
    have positive := outstanding_pos (mem_of_getElem? found) kept
    have out : ticket.epoch ∈ state.tickets := by
      rw [← AList.lookup_isSome, counts, if_neg positive.ne']
      rfl
    rw [pruned]
    exact tells_prune (tells before after split ticket found kept) out
  forgotten none := by
    rw [pruned] at none ⊢
    exact prune_of_no_ticket none

theorem Ticketed.dropTicket {i : ℕ} (ticketed : w.Ticketed es)
    (step : w.step (.dropTicket i) = some w') : w'.Ticketed (es ++ [.dropTicket i]) := by
  obtain ⟨ticket, found, step⟩ := bind_eq_some_iff.mp step
  obtain ⟨kept, rfl⟩ := guard_some_eq_some.mp step
  have among := mem_of_getElem? found
  have counted := ticketed.lookup among kept
  obtain ⟨left, released⟩ : ∃ tickets,
      w.state.releaseTicket ticket.epoch = { w.state with tickets }.prune := ⟨_, rfl⟩
  refine ticketed_of_prune released (by simp [ticketed.taken]) (fun epoch => ?_) ticketed.past
    (fun other held => ?_) fun before after split other foundOther keptOther => ?_
  · have lookup := lookup_releaseTicket counted epoch
    rw [released, prune_tickets] at lookup
    obtain ⟨inside, here⟩ := List.getElem?_eq_some_iff.mp found
    have fewer : outstanding { w with tickets := w.tickets.set i { ticket with dropped := true } }
        epoch = w.outstanding epoch - if ticket.epoch = epoch then 1 else 0 := by
      simp [countP_set inside, here, kept]
    unfold outstanding at fewer ⊢
    rw [fewer, lookup]
    rcases eq_or_ne epoch ticket.epoch with rfl | apart
    · rw [if_pos rfl, if_pos rfl]
      rfl
    · simp [apart, apart.symm, ticketed.counts]
  · rcases mem_or_eq_of_mem_set held with before | rfl
    · exact ticketed.epochs other before
    · exact ticketed.epochs ticket among
  · obtain ⟨between, rfl, rfl⟩ := split_before (by simp) split
    have old : w.tickets[before.count .ticket]? = some other := by
      rcases getElem?_set_cases foundOther with ⟨_, rfl⟩ | ⟨_, old⟩
      · cases keptOther
      · exact old
    simpa [Event.revokes] using ticketed.tells before between rfl other old keptOther

/-- A revocation is remembered for every ticket that is out. -/
theorem Ticketed.revoke (ticketed : w.Ticketed es) {revoked : Revoked}
    (revokes : e.revokes = some revoked) (ends : Bytes → LiveLease → Bool) (answer : ℕ → Answer) :
    (w.revoke revoked ends answer).Ticketed (es ++ [e]) := by
  have other : e ≠ .ticket := ne_of_revokes revokes rfl
  refine ticketed_of_prune rfl ?_ ticketed.counts (fun name at_ found => ?_)
    (fun ticket among => ?_) fun before after split ticket found kept => ?_
  · simp [World.revoke, ticketed.taken, other]
  · dsimp only at found ⊢
    split at found
    · exact (ticketed.past name at_ found).trans (Nat.le_succ _)
    rcases eq_or_ne name revoked with rfl | apart
    · rw [AList.lookup_insert] at found
      exact (Option.some.inj found).ge
    · rw [AList.lookup_insert_ne apart] at found
      exact (ticketed.past name at_ found).trans (Nat.le_succ _)
  · exact (ticketed.epochs ticket among).trans (Nat.le_succ _)
  · obtain ⟨between, rfl, rfl⟩ := split_before other split
    have tells := ticketed.tells before between rfl ticket found kept
    have among := mem_of_getElem? found
    have held : w.state.tickets.entries ≠ [] := by
      intro none
      have counted := AList.mem_lookup_iff.mp (ticketed.lookup among kept)
      rw [none] at counted
      cases counted
    dsimp only
    rw [if_neg held]
    have inserted := tells.insert (Nat.lt_succ_of_le (ticketed.epochs ticket among)) revoked
    intro name
    rw [inserted name]
    simp only [mem_append, mem_singleton, or_and_right, exists_or, exists_eq_left,
      revokes, Option.some.injEq]
    rw [or_comm, eq_comm]

end World

/-! ## Leases -/

namespace RevocationState

variable {s : RevocationState} {folded : Bytes} {id : ℕ} {live : LiveLease}

/-- The live lease `id` on an account. -/
def liveAt (s : RevocationState) (folded : Bytes) (id : ℕ) : Option LiveLease :=
  (s.leases.lookup folded).bind fun leases => leases.lookup id

theorem liveAt_grant (account : Bytes) (credential : CredentialId) :
    (s.grant account credential).liveAt folded id =
      if folded = account ∧ id = s.nextLease then some ⟨credential⟩ else s.liveAt folded id := by
  unfold liveAt grant
  dsimp only
  rcases eq_or_ne folded account with rfl | apart
  · rw [AList.lookup_insert, bind_some]
    rcases eq_or_ne id s.nextLease with rfl | other
    · simp
    · rw [AList.lookup_insert_ne other, if_neg (by simp [other])]
      cases s.leases.lookup folded <;> rfl
  · rw [AList.lookup_insert_ne apart, if_neg (by simp [apart])]

theorem liveAt_dropLease (account : Bytes) (dropped : ℕ) :
    (s.dropLease account dropped).liveAt folded id =
      if folded = account ∧ id = dropped then none else s.liveAt folded id := by
  unfold liveAt dropLease
  cases held : s.leases.lookup account with
  | none =>
    rcases eq_or_ne folded account with rfl | apart
    · simp [held]
    · simp [apart]
  | some leases =>
    dsimp only
    rcases eq_or_ne folded account with rfl | apart
    · rw [held, bind_some]
      have left : (leases.erase dropped).lookup id =
          if id = dropped then none else leases.lookup id := by
        rcases eq_or_ne id dropped with rfl | other
        · simp
        · simp [other]
      split
      · rename_i empty
        rw [AList.lookup_erase, bind_none]
        have none : (leases.erase dropped).lookup id = none := by
          rw [AList.lookup_eq_none, AList.mem_keys, AList.keys, keys, empty]
          exact not_mem_nil
        rw [none] at left
        split_ifs at left ⊢ <;> simp_all
      · rw [AList.lookup_insert, bind_some, left]
        simp
    · have elsewhere : ¬ (folded = account ∧ id = dropped) := fun same => apart same.1
      rw [if_neg elsewhere]
      congr 1
      split
      · exact AList.lookup_erase_ne apart
      · exact AList.lookup_insert_ne apart

theorem liveAt_revoke (revoked : Revoked) (ends : Bytes → LiveLease → Bool) :
    (s.revoke revoked ends).1.liveAt folded id = some live ↔
      s.liveAt folded id = some live ∧ ends folded live = false := by
  unfold liveAt revoke
  simp only [prune_leases, bind_eq_some_iff, lookup_retain_eq_some, lookup_mapValues_eq_some]
  constructor
  · rintro ⟨_, ⟨⟨leases, held, rfl⟩, _⟩, found⟩
    obtain ⟨before, kept⟩ := lookup_retain_eq_some.mp found
    exact ⟨⟨leases, held, before⟩, by simpa using kept⟩
  · rintro ⟨⟨leases, held, before⟩, kept⟩
    have found : (retain (fun _ lease => !ends folded lease) leases).lookup id = some live :=
      lookup_retain_eq_some.mpr ⟨before, by simp [kept]⟩
    refine ⟨_, ⟨⟨leases, held, rfl⟩, decide_eq_true fun empty => ?_⟩, found⟩
    have among := AList.mem_lookup_iff.mp found
    rw [empty] at among
    cases among

theorem mem_told (ends : Bytes → LiveLease → Bool) :
    id ∈ s.told ends ↔ ∃ folded live, s.liveAt folded id = some live ∧ ends folded live = true := by
  unfold told liveAt
  simp only [List.mem_flatMap, List.mem_map, List.mem_filter, Option.bind_eq_some_iff]
  constructor
  · rintro ⟨⟨folded, leases⟩, held, ⟨id, live⟩, ⟨among, ended⟩, rfl⟩
    exact ⟨folded, live, ⟨leases, AList.mem_lookup_iff.mpr held, AList.mem_lookup_iff.mpr among⟩,
      ended⟩
  · rintro ⟨folded, live, ⟨leases, held, found⟩, ended⟩
    exact ⟨⟨folded, leases⟩, AList.mem_lookup_iff.mp held, ⟨id, live⟩,
      ⟨AList.mem_lookup_iff.mp found, ended⟩, rfl⟩

/-- A lease of one account is told once. -/
theorem nodup_told (ends : Bytes → LiveLease → Bool)
    (single : ∀ folded folded' id, (s.liveAt folded id).isSome → (s.liveAt folded' id).isSome →
      folded = folded') : (s.told ends).Nodup := by
  have found {held : Sigma fun _ : Bytes => AList fun _ : ℕ => LiveLease} {id : ℕ}
      (among : held ∈ s.leases.entries)
      (picked : id ∈ (held.2.entries.filter fun lease => ends held.1 lease.2).map Sigma.fst) :
      (s.liveAt held.1 id).isSome := by
    obtain ⟨⟨id, live⟩, lease, rfl⟩ := mem_map.mp picked
    have inner := AList.mem_lookup_iff.mpr (mem_of_mem_filter lease)
    have outer := AList.mem_lookup_iff.mpr among
    rw [liveAt, outer, bind_some, inner]
    rfl
  refine nodup_flatMap.mpr ⟨fun held _ => ?_, ?_⟩
  · exact Nodup.sublist (filter_sublist.map _) held.2.nodupKeys
  have keys : s.leases.entries.Pairwise fun held other => held.1 ≠ other.1 :=
    pairwise_map.mp s.leases.nodupKeys
  refine (Pairwise.and_mem.mp keys).imp fun {held other} ⟨among, amongOther, apart⟩ => ?_
  intro id inHeld inOther
  exact apart (single _ _ id (found among inHeld) (found amongOther inOther))

end RevocationState

/-- A live lease on `account` with `credential` is ended by this. -/
def Revoked.ends (account : Bytes) (credential : CredentialId) : Revoked → Bool
  | .account folded => folded = fold account
  | .credential issued => credential = .issued issued
  | .every => false

/-- What the lease `id` is sent of the events since it was granted: the first
revocation that ends it, if it was not dropped before. -/
def heard (account : Bytes) (credential : CredentialId) (id : ℕ) (after : List Event) :
    List Revocation :=
  let revoked := (after.takeWhile (· ≠ .dropLease id)).filterMap Event.revokes
  ((revoked.find? (·.ends account credential)).map Revoked.revocation).toList

section heard

variable {account : Bytes} {credential : CredentialId} {id : ℕ} {after : List Event} {e : Event}

theorem heard_snoc_of_dropped (dropped : .dropLease id ∈ after) :
    heard account credential id (after ++ [e]) = heard account credential id after := by
  have cut : (after.takeWhile (· ≠ .dropLease id)).length ≠ after.length := by
    intro whole
    have all := takeWhile_eq_self_iff.mp (( takeWhile_prefix _).eq_of_length whole)
    simpa using all _ dropped
  unfold heard
  rw [takeWhile_append, if_neg cut]

theorem takeWhile_of_kept (kept : .dropLease id ∉ after) :
    after.takeWhile (· ≠ .dropLease id) = after := by
  refine takeWhile_eq_self_iff.mpr fun e among => decide_eq_true ?_
  rintro rfl
  exact kept among

theorem heard_snoc_of_quiet (quiet : e.revokes = none) :
    heard account credential id (after ++ [e]) = heard account credential id after := by
  by_cases dropped : .dropLease id ∈ after
  · exact heard_snoc_of_dropped dropped
  unfold heard
  rw [takeWhile_append, takeWhile_of_kept dropped, if_pos rfl, filterMap_append]
  have nothing : ([e].takeWhile (· ≠ .dropLease id)).filterMap Event.revokes = [] := by
    rw [takeWhile_cons]
    split <;> simp [quiet]
  rw [nothing, append_nil]

theorem heard_snoc_of_revokes {revoked : Revoked} (kept : .dropLease id ∉ after)
    (revokes : e.revokes = some revoked) :
    heard account credential id (after ++ [e]) =
      if heard account credential id after = [] ∧ revoked.ends account credential = true then
        [revoked.revocation]
      else heard account credential id after := by
  have other : e ≠ .dropLease id := ne_of_revokes revokes rfl
  have whole : (after ++ [e]).takeWhile (· ≠ .dropLease id) = after ++ [e] := by
    refine takeWhile_of_kept ?_
    simpa [eq_comm] using ⟨kept, other⟩
  unfold heard
  dsimp only
  rw [whole, takeWhile_of_kept kept, filterMap_append, find?_append]
  simp only [filterMap_cons, revokes, filterMap_nil, find?_cons, find?_nil]
  rcases eq_none_or_eq_some
      ((after.filterMap Event.revokes).find? (·.ends account credential)) with first | ⟨_, earlier⟩
  · cases ends : revoked.ends account credential <;> simp [first]
  · simp [earlier]

end heard

namespace World

variable {w w' : World} {es : List Event} {e : Event}

/-- The leases in the map are those neither dropped nor told, and each was sent
what it was to hear. -/
structure Leased (es : List Event) (w : World) : Prop where
  answered : w.answers.length = es.length
  numbered : w.state.nextLease = w.leases.length
  live : ∀ folded id live, w.state.liveAt folded id = some live ↔
    ∃ lease, w.leases[id]? = some lease ∧ fold lease.account = folded ∧
      lease.credential = live.credential ∧ lease.dropped = false ∧ lease.sent = []
  told : ∀ before after i account credential id, es = before ++ .lease i account credential :: after →
    w.answers[before.length]? = some (.leased id) →
      ∃ lease, w.leases[id]? = some lease ∧ lease.account = account ∧
        lease.credential = credential ∧ lease.dropped = decide (.dropLease id ∈ after) ∧
        lease.sent = heard account credential id after

/-- A step that neither leases, drops a lease nor revokes. -/
theorem Leased.still {answer : Answer} (leased : w.Leased es)
    (other : ∀ i account credential, e = .lease i account credential → ∀ id, answer ≠ .leased id)
    (kept : ∀ id, e ≠ .dropLease id) (quiet : e.revokes = none)
    (answers : w'.answers = w.answers ++ [answer])
    (nextLease : w'.state.nextLease = w.state.nextLease)
    (leases : w'.state.leases = w.state.leases) (same : w'.leases = w.leases) :
    w'.Leased (es ++ [e]) where
  answered := by simp [answers, leased.answered]
  numbered := by rw [nextLease, same, leased.numbered]
  live folded id live := by
    rw [same, ← leased.live folded id live]
    simp [liveAt, leases]
  told before after i account credential id split answered := by
    rcases snoc_eq_split.mp split with ⟨rfl, isLease, rfl⟩ | ⟨between, rfl, rfl⟩
    · rw [answers, ← leased.answered, getElem?_concat_length] at answered
      exact absurd (Option.some.inj answered) (other _ _ _ isLease id)
    have early : before.length < w.answers.length := by simp [leased.answered]
    rw [answers, getElem?_append_left early] at answered
    obtain ⟨lease, found, isAccount, isCredential, dropped, sent⟩ :=
      leased.told before between i account credential id rfl answered
    refine ⟨lease, same ▸ found, isAccount, isCredential, ?_, ?_⟩
    · simpa [(kept id).symm] using dropped
    · rw [heard_snoc_of_quiet quiet, sent]

theorem Leased.lease {i : ℕ} {account : Bytes} {credential : CredentialId} (leased : w.Leased es)
    (tickets : List Ticket) :
    Leased (es ++ [.lease i account credential]) {
      state := w.state.grant (fold account) credential
      tickets
      leases := w.leases ++ [{ account, credential }]
      answers := w.answers ++ [.leased w.state.nextLease] } where
  answered := by simp [leased.answered]
  numbered := by simp [grant, leased.numbered]
  live folded id live := by
    rw [liveAt_grant, leased.numbered]
    dsimp only
    rcases eq_or_ne id w.leases.length with rfl | apart
    · rw [getElem?_concat_length]
      constructor
      · intro held
        split at held
        · rename_i isFolded
          cases held
          exact ⟨_, rfl, isFolded.1.symm, rfl, rfl, rfl⟩
        · obtain ⟨lease, found, _⟩ := (leased.live folded w.leases.length live).mp held
          simp at found
      · rintro ⟨lease, isNew, isFolded, isCredential, _⟩
        cases isNew
        rw [if_pos ⟨isFolded.symm, rfl⟩, Option.some.injEq]
        exact congrArg LiveLease.mk isCredential
    · rw [if_neg (fun same => apart same.2), leased.live folded id live]
      rcases lt_or_gt_of_ne apart with early | late
      · rw [getElem?_append_left early]
      have past : w.leases[id]? = none := getElem?_eq_none late.le
      have past' : (w.leases ++ [({ account, credential } : AccountLease)])[id]? = none :=
        getElem?_eq_none (by simpa using Nat.succ_le_of_lt late)
      rw [past, past']
  told before after j account' credential' id split answered := by
    rcases snoc_eq_split.mp split with ⟨rfl, isLease, rfl⟩ | ⟨between, rfl, rfl⟩
    · rw [← leased.answered, getElem?_concat_length] at answered
      cases isLease
      obtain rfl := Answer.leased.inj (Option.some.inj answered)
      exact ⟨_, by rw [leased.numbered, getElem?_concat_length], rfl, rfl, rfl, rfl⟩
    · have early : before.length < w.answers.length := by simp [leased.answered]
      rw [getElem?_append_left early] at answered
      obtain ⟨lease, found, isAccount, isCredential, dropped, sent⟩ :=
        leased.told before between j account' credential' id rfl answered
      have inside := (List.getElem?_eq_some_iff.mp found).1
      refine ⟨lease, (getElem?_append_left inside).trans found, isAccount, isCredential, ?_, ?_⟩
      · simpa using dropped
      · rw [heard_snoc_of_quiet rfl, sent]

theorem Leased.dropLease {dropped : ℕ} (leased : w.Leased es)
    (step : w.step (.dropLease dropped) = some w') : w'.Leased (es ++ [.dropLease dropped]) := by
  obtain ⟨lease, found, step⟩ := bind_eq_some_iff.mp step
  obtain ⟨kept, rfl⟩ := guard_some_eq_some.mp step
  constructor
  case answered => simp [leased.answered]
  case numbered =>
    have same : (w.state.dropLease (fold lease.account) dropped).nextLease = w.state.nextLease := by
      unfold dropLease
      split <;> rfl
    simpa [same] using leased.numbered
  case live =>
    intro folded id live
    rw [liveAt_dropLease]
    rcases eq_or_ne id dropped with rfl | apart
    · have inside := (List.getElem?_eq_some_iff.mp found).1
      rw [getElem?_set_self inside]
      constructor
      · intro held
        split at held
        · cases held
        rename_i elsewhere
        obtain ⟨other, foundOther, isFolded, _⟩ := (leased.live folded id live).mp held
        cases foundOther.symm.trans found
        exact absurd ⟨isFolded.symm, rfl⟩ elsewhere
      · rintro ⟨other, isDropped, _, _, notDropped, _⟩
        cases isDropped
        cases notDropped
    · rw [if_neg (fun same => apart same.2), leased.live folded id live,
        getElem?_set_ne apart.symm]
  case told =>
    intro before after i account credential id split answered
    obtain ⟨between, rfl, rfl⟩ := split_before (by simp) split
    have early : before.length < w.answers.length := by simp [leased.answered]
    rw [getElem?_append_left early] at answered
    obtain ⟨other, foundOther, isAccount, isCredential, isDropped, sent⟩ :=
      leased.told before between i account credential id rfl answered
    rw [heard_snoc_of_quiet rfl]
    rcases eq_or_ne id dropped with rfl | apart
    · cases foundOther.symm.trans found
      have inside := (List.getElem?_eq_some_iff.mp found).1
      exact ⟨_, getElem?_set_self inside, isAccount, isCredential, by simp, sent⟩
    · refine ⟨other, ?_, isAccount, isCredential, by simpa [apart] using isDropped, sent⟩
      rw [getElem?_set_ne apart.symm, foundOther]

/-- The lease is neither dropped nor told, and `revoked` ends it. -/
def heeds (revoked : Revoked) (lease : AccountLease) : Bool :=
  !lease.dropped && lease.sent.isEmpty && revoked.ends lease.account lease.credential

section revoke

variable {revoked : Revoked} {ends : Bytes → LiveLease → Bool}

section

variable (leased : w.Leased es)
include leased

theorem Leased.mem_told
    (picks : ∀ account live, ends (fold account) live = revoked.ends account live.credential)
    (id : ℕ) : id ∈ w.state.told ends ↔
      ∃ lease, w.leases[id]? = some lease ∧ heeds revoked lease = true := by
  rw [RevocationState.mem_told]
  constructor
  · rintro ⟨folded, live, held, ended⟩
    obtain ⟨lease, found, rfl, isCredential, kept, untold⟩ := (leased.live folded id live).mp held
    refine ⟨lease, found, ?_⟩
    rw [picks, ← isCredential] at ended
    simp [heeds, kept, untold, ended]
  · rintro ⟨lease, found, heeded⟩
    simp only [heeds, Bool.and_eq_true, Bool.not_eq_true', List.isEmpty_iff] at heeded
    obtain ⟨⟨kept, untold⟩, ended⟩ := heeded
    refine ⟨fold lease.account, ⟨lease.credential⟩, ?_, ?_⟩
    · exact (leased.live _ id _).mpr ⟨lease, found, rfl, rfl, kept, untold⟩
    · rw [picks, ended]

theorem Leased.nodup_told : (w.state.told ends).Nodup := by
  refine RevocationState.nodup_told ends fun folded folded' id here there => ?_
  obtain ⟨live, held⟩ := isSome_iff_exists.mp here
  obtain ⟨live', held'⟩ := isSome_iff_exists.mp there
  obtain ⟨lease, found, isFolded, _⟩ := (leased.live folded id live).mp held
  obtain ⟨lease', found', isFolded', _⟩ := (leased.live folded' id live').mp held'
  cases found.symm.trans found'
  exact isFolded.symm.trans isFolded'

/-- Exactly the leases that heed a revocation are told, once each. -/
theorem Leased.tell_eq
    (picks : ∀ account live, ends (fold account) live = revoked.ends account live.credential) :
    w.tell (w.state.told ends) revoked.revocation = w.leases.map fun lease =>
      if heeds revoked lease then { lease with sent := [revoked.revocation] } else lease := by
  refine ext_getElem? fun id => ?_
  rw [tell, getElem?_mapIdx, getElem?_map]
  cases found : w.leases[id]? with
  | none => rfl
  | some lease =>
    simp only [map_some, Option.some.injEq]
    split
    · rename_i heeded
      have among := (leased.mem_told picks id).mpr ⟨lease, found, heeded⟩
      rw [count_eq_one_of_mem leased.nodup_told among]
      simp only [heeds, Bool.and_eq_true, List.isEmpty_iff] at heeded
      simp [heeded.1.2]
    · rename_i unheeded
      have absent : id ∉ w.state.told ends := by
        intro among
        obtain ⟨other, foundOther, heeded⟩ := (leased.mem_told picks id).mp among
        cases foundOther.symm.trans found
        exact unheeded heeded
      rw [count_eq_zero_of_not_mem absent]
      simp

theorem Leased.length_told
    (picks : ∀ account live, ends (fold account) live = revoked.ends account live.credential) :
    (w.state.told ends).length = w.leases.countP (heeds revoked) :=
  length_eq_countP leased.nodup_told (leased.mem_told picks)

theorem Leased.revoke (revokes : e.revokes = some revoked)
    (picks : ∀ account live, ends (fold account) live = revoked.ends account live.credential)
    (answer : ℕ → Answer) : (w.revoke revoked ends answer).Leased (es ++ [e]) := by
  have leases : (w.revoke revoked ends answer).leases = w.leases.map fun lease =>
      if heeds revoked lease then { lease with sent := [revoked.revocation] } else lease :=
    leased.tell_eq picks
  constructor
  case answered => simp [World.revoke, leased.answered]
  case numbered =>
    rw [leases, length_map]
    exact leased.numbered
  case live =>
    intro folded id live
    have state : (w.revoke revoked ends answer).state = (w.state.revoke revoked ends).1 := rfl
    rw [state, liveAt_revoke, leased.live folded id live, leases, getElem?_map]
    constructor
    · rintro ⟨⟨lease, found, rfl, isCredential, kept, untold⟩, spared⟩
      rw [picks, ← isCredential] at spared
      have unheeded : heeds revoked lease = false := by simp [heeds, spared]
      exact ⟨lease, by simp [found, unheeded], rfl, isCredential, kept, untold⟩
    · rintro ⟨lease, found, isFolded, isCredential, kept, untold⟩
      obtain ⟨old, foundOld, rfl⟩ := map_eq_some_iff.mp found
      by_cases heeded : heeds revoked old = true
      · simp [heeded] at untold
      rw [if_neg heeded] at isFolded isCredential kept untold
      subst isFolded
      refine ⟨⟨old, foundOld, rfl, isCredential, kept, untold⟩, ?_⟩
      rw [picks, ← isCredential]
      simpa [heeds, kept, untold] using heeded
  case told =>
    intro before after i account credential id split answered
    have other : e ≠ .lease i account credential := ne_of_revokes revokes rfl
    obtain ⟨between, rfl, rfl⟩ := split_before other split
    have early : before.length < w.answers.length := by simp [leased.answered]
    have answered' : (w.answers ++ [answer (w.state.told ends).length])[before.length]? =
      some (.leased id) := answered
    rw [getElem?_append_left early] at answered'
    obtain ⟨lease, found, rfl, rfl, isDropped, sent⟩ :=
      leased.told before between i account credential id rfl answered'
    have notDrop : e ≠ .dropLease id := ne_of_revokes revokes rfl
    have dropped : decide (.dropLease id ∈ between ++ [e]) = lease.dropped := by
      rw [isDropped]
      simp [notDrop.symm]
    refine ⟨if heeds revoked lease then { lease with sent := [revoked.revocation] } else lease,
      ?_, ?_, ?_, ?_, ?_⟩
    · rw [leases, getElem?_map, found, map_some]
    · split <;> rfl
    · split <;> rfl
    · rw [dropped]
      split <;> rfl
    by_cases gone : .dropLease id ∈ between
    · have unheeded : heeds revoked lease = false := by simp [heeds, isDropped, gone]
      rw [heard_snoc_of_dropped gone, ← sent]
      simp [unheeded]
    · rw [heard_snoc_of_revokes gone revokes, ← sent]
      have heeding : heeds revoked lease = true ↔
          lease.sent = [] ∧ revoked.ends lease.account lease.credential = true := by
        simp [heeds, isDropped, gone]
      simp only [heeding]
      split <;> rfl

end

end revoke

end World

/-! ## Every run -/

namespace World

variable {w w' : World} {es : List Event} {e : Event}

/-- The three revocations are one operation. -/
theorem step_of_revokes {revoked : Revoked} (w : World) (revokes : e.revokes = some revoked) :
    ∃ ends answer, w.step e = some (w.revoke revoked ends answer) ∧
      (∀ account live, ends (fold account) live = revoked.ends account live.credential) ∧
      (e ≠ .refuseInFlight → answer = .told) := by
  cases e with
  | revoke account =>
    cases revokes
    exact ⟨_, _, rfl, fun _ _ => by simp [Revoked.ends, eq_comm], fun _ => rfl⟩
  | revokeCredential credential =>
    cases revokes
    exact ⟨_, _, rfl, fun _ _ => rfl, fun _ => rfl⟩
  | refuseInFlight =>
    cases revokes
    exact ⟨_, _, rfl, fun _ _ => rfl, fun other => absurd rfl other⟩
  | _ => cases revokes

theorem Ticketed.step (ticketed : w.Ticketed es) (step : w.step e = some w') :
    w'.Ticketed (es ++ [e]) := by
  cases revokes : e.revokes with
  | some revoked =>
    obtain ⟨ends, answer, isRevoke, _⟩ := w.step_of_revokes revokes
    cases isRevoke.symm.trans step
    exact ticketed.revoke revokes _ _
  | none =>
    cases e with
    | ticket => exact ticketed.ticket step
    | dropTicket i => exact ticketed.dropTicket step
    | lease i account credential =>
      obtain ⟨ticket, found, step⟩ := bind_eq_some_iff.mp step
      obtain ⟨_, step⟩ := guard_bind_eq_some.mp step
      have spent : (w.tickets.set i { ticket with spent := true }).map
          (fun ticket => (ticket.epoch, ticket.dropped)) =
          w.tickets.map fun ticket => (ticket.epoch, ticket.dropped) := by
        obtain ⟨inside, rfl⟩ := List.getElem?_eq_some_iff.mp found
        refine ext_getElem (by simp) fun j _ _ => ?_
        rcases eq_or_ne i j with rfl | apart
        · simp
        · simp [apart]
      dsimp only at step
      split at step
      · cases step
        exact ticketed.still (by simp) rfl rfl rfl rfl spent
      · cases step
        exact ticketed.still (by simp) rfl rfl rfl rfl spent
    | dropLease id =>
      obtain ⟨lease, _, step⟩ := bind_eq_some_iff.mp step
      obtain ⟨_, rfl⟩ := guard_some_eq_some.mp step
      have same : ∃ leases, w.state.dropLease (fold lease.account) id = { w.state with leases } := by
        unfold dropLease
        split
        · exact ⟨_, rfl⟩
        · exact ⟨_, rfl⟩
      obtain ⟨leases, same⟩ := same
      exact ticketed.still (by simp) rfl (by simp [same]) (by simp [same]) (by simp [same]) rfl
    | revoke _ | revokeCredential _ | refuseInFlight => cases revokes

theorem Leased.step (leased : w.Leased es) (step : w.step e = some w') : w'.Leased (es ++ [e]) := by
  cases revokes : e.revokes with
  | some revoked =>
    obtain ⟨ends, answer, isRevoke, picks, _⟩ := w.step_of_revokes revokes
    cases isRevoke.symm.trans step
    exact leased.revoke revokes picks _
  | none =>
    cases e with
    | ticket =>
      cases step
      exact leased.still (by simp) (by simp) rfl rfl rfl rfl rfl
    | dropTicket i =>
      obtain ⟨ticket, found, step⟩ := bind_eq_some_iff.mp step
      obtain ⟨_, rfl⟩ := guard_some_eq_some.mp step
      exact leased.still (by simp) (by simp) rfl rfl rfl rfl rfl
    | lease i account credential =>
      obtain ⟨ticket, found, step⟩ := bind_eq_some_iff.mp step
      obtain ⟨_, step⟩ := guard_bind_eq_some.mp step
      dsimp only at step
      split at step
      · cases step
        exact leased.still (by simp) (by simp) rfl rfl rfl rfl rfl
      · cases step
        exact leased.lease _
    | dropLease id => exact leased.dropLease step
    | revoke _ | revokeCredential _ | refuseInFlight => cases revokes

theorem ticketed_init : revocations.init.Ticketed [] where
  taken := rfl
  counts _ := rfl
  past _ _ found := by cases found
  epochs _ among := by cases among
  tells before after split := by simp at split
  forgotten _ := rfl

theorem leased_init : revocations.init.Leased [] where
  answered := rfl
  numbered := rfl
  live folded id live := by simp [revocations, liveAt]
  told before after i account credential id split := by simp at split

end World

/-- In every run: a lease is granted exactly if nothing that refuses it was
revoked since its ticket was taken; it is sent the first revocation of its
account or credential that follows, unless dropped before, and nothing else; a
revocation returns the number of leases it tells; and with no ticket out no
revocation is remembered. -/
theorem leases_heed_revocations {es : List Event} {w : World}
    (run : revocations.Run System.anyStep es w) :
    (∀ before after account credential w', es = before ++ .ticket :: after →
      w.step (.lease (before.count .ticket) account credential) = some w' →
        ((∃ id, w'.answers = w.answers ++ [.leased id]) ↔
          ∀ e ∈ after, ∀ revoked, e.revokes = some revoked →
            revoked.refuses account credential = false)) ∧
      (∀ before after i account credential id, es = before ++ .lease i account credential :: after →
        w.answers[before.length]? = some (.leased id) →
          ∃ lease, w.leases[id]? = some lease ∧ lease.sent = heard account credential id after) ∧
      (∀ e revoked w', e.revokes = some revoked → w.step e = some w' →
        w'.leases = w.leases.map (fun lease =>
          if World.heeds revoked lease then { lease with sent := [revoked.revocation] } else lease) ∧
        (e ≠ .refuseInFlight →
          w'.answers = w.answers ++ [.told (w.leases.countP (World.heeds revoked))])) ∧
      ((∀ ticket ∈ w.tickets, ticket.dropped = true) → w.state.revokedAt = ∅) := by
  obtain ⟨ticketed, leased⟩ := run.invariant (P := fun es w => w.Ticketed es ∧ w.Leased es)
    ⟨World.ticketed_init, World.leased_init⟩
    fun _ _ _ _ held _ step => ⟨held.1.step step, held.2.step step⟩
  refine ⟨?_, ?_, ?_, ?_⟩
  · intro before after account credential w' split step
    obtain ⟨ticket, found, step⟩ := bind_eq_some_iff.mp step
    obtain ⟨⟨_, kept⟩, step⟩ := guard_bind_eq_some.mp step
    have granted := refusal_eq_none
      (ticketed.tells before after split ticket found kept) account credential
    have spared : (∀ e ∈ after, ∀ revoked, e.revokes = some revoked →
        revoked.refuses account credential = false) ↔
        w.state.refusal ticket.epoch (fold account) credential = none := by
      rw [granted]
      exact ⟨fun each revoked ⟨e, among, is⟩ => each e among revoked is,
        fun each e among revoked is => each revoked ⟨e, among, is⟩⟩
    rw [spared]
    dsimp only at step
    split at step
    · rename_i revocation refused
      cases step
      simp [refused]
    · rename_i free
      cases step
      simp [free]
  · intro before after i account credential id split answered
    obtain ⟨lease, found, _, _, _, sent⟩ := leased.told _ _ _ _ _ _ split answered
    exact ⟨lease, found, sent⟩
  · intro e revoked w' revokes step
    obtain ⟨ends, answer, isRevoke, picks, told⟩ := w.step_of_revokes revokes
    cases isRevoke.symm.trans step
    refine ⟨leased.tell_eq picks, fun other => ?_⟩
    obtain rfl := told other
    rw [← leased.length_told picks]
    rfl
  · intro dropped
    refine ticketed.forgotten (eq_nil_iff_forall_not_mem.mpr ?_)
    rintro ⟨epoch, count⟩ among
    have counted := ticketed.counts epoch
    have none : w.outstanding epoch = 0 :=
      countP_eq_zero.mpr fun ticket held => by simp [dropped ticket held]
    rw [if_pos none, AList.mem_lookup_iff.mpr among] at counted
    cases counted

/-- Two tickets; the first lease is granted and then told, the second refused. -/
def twoTickets : List Event :=
  [.ticket, .lease 0 (ascii "Alice") (.issued (.appPassword 7)), .ticket, .dropTicket 0,
    .revoke (ascii "alice")]

theorem leases_heed_revocations_of_two_tickets :
    ∃ w w', revocations.Run System.anyStep twoTickets w ∧
      w.step (.lease 1 (ascii "ALICE") .accountPassword) = some w' ∧
      (¬ ∃ id, w'.answers = w.answers ++ [.leased id]) ∧
      w.answers = [.done, .leased 0, .done, .done, .told 1] ∧
      ∃ lease, w.leases[0]? = some lease ∧ lease.sent = [.account] := by
  have reached : (revocations.exec twoTickets).map (fun w =>
      (w.answers, (w.step (.lease 1 (ascii "ALICE") .accountPassword)).isSome)) =
      some ([.done, .leased 0, .done, .done, .told 1], true) := by decide +kernel
  obtain ⟨w, run, seen⟩ := System.exists_run reached
  obtain ⟨answers, isStep⟩ := Prod.mk.inj seen
  obtain ⟨w', step⟩ := isSome_iff_exists.mp isStep
  obtain ⟨granted, told, _⟩ := leases_heed_revocations run
  have refused := granted [.ticket, .lease 0 (ascii "Alice") (.issued (.appPassword 7))]
    [.dropTicket 0, .revoke (ascii "alice")] (ascii "ALICE") .accountPassword w' rfl step
  obtain ⟨lease, found, sent⟩ := told [.ticket] _ 0 (ascii "Alice") _ 0 rfl (by rw [answers]; rfl)
  refine ⟨w, w', run, step, fun leased => ?_, answers, lease, found, ?_⟩
  · have spared := refused.mp leased (.revoke (ascii "alice")) (by simp) _ rfl
    revert spared
    decide
  · rw [sent]
    decide

end E6irc.Bouncer.Revocations
