import E6irc.Core.BanReplication

/-!
# Agreement of the shards on the server bans

Seen at one ban, every message of the model is a write: a result waiting at a
shard will write what its verdict says, and a broadcast copy writes what the
committing shard wrote.  As long as all that is outstanding for a ban comes from
one shard (`Settling`), each shard's hot list becomes the table's row once the
copies on its link and then the waiting result are taken.  Two shards that
change one ban at the same time break this: their copies cross, and the shards
keep what reached them last, not what the database committed last.
-/

namespace E6irc.Bans

open Base ServerBanMutation List State

variable {Shard : Type}

/-- What the result of a request does to the ban at one key. -/
abbrev resultAt (casemap : CaseMapping) (k : BanKey) :
    Option ServerBan → Request Shard × ServerBanResult → Option ServerBan :=
  writeAt (fun result => result.1.mutation.key casemap)
    (fun result => settledBan result.1.mutation result.2) k

namespace State

variable (casemap : CaseMapping) (s : State Shard) (k : BanKey)

/-- The ban a shard enforces at a key. -/
def enforced (shard : Shard) : Option ServerBan :=
  entryAt (ServerBan.key casemap) k (s.hot shard)

/-- The ban it enforces once it has taken the copies on their way from `owner`. -/
def caughtUp (owner shard : Shard) : Option ServerBan :=
  (s.links owner shard).foldl (writtenAt casemap k) (s.enforced casemap k shard)

/-- The ban it enforces once the waiting results are broadcast and taken too. -/
def due (owner shard : Shard) : Option ServerBan :=
  s.results.foldl (resultAt casemap k) (s.caughtUp casemap k owner shard)

/-- The changes of the ban that the database or their shard still has to take up. -/
def outstanding : ℕ :=
  s.requests.countP (·.mutation.key casemap = k) + s.results.countP (·.1.mutation.key casemap = k)

/-- All that is outstanding for the ban comes from one shard. -/
structure From (owner : Shard) : Prop where
  requests : ∀ request ∈ s.requests, request.mutation.key casemap = k → request.shard = owner
  results : ∀ result ∈ s.results, result.1.mutation.key casemap = k → result.1.shard = owner
  links : ∀ src dst, ∀ mutation ∈ s.links src dst, mutation.key casemap = k → src = owner

/-- What is outstanding for the ban comes from `owner`, is one change at most
that is not yet broadcast, and brings every shard to the stored row. -/
structure Settling (owner : Shard) : Prop where
  sources : s.From casemap k owner
  single : s.outstanding casemap k ≤ 1
  toOthers : ∀ mutation ∈ s.links owner owner, mutation.key casemap ≠ k
  settles : ∀ shard, s.due casemap k owner shard = s.table.stored casemap k

end State

/-- A shard takes up a change of a ban only when no other shard has one outstanding. -/
def Uncontested (casemap : CaseMapping) (s : State Shard) : Event Shard → Prop
  | .change request nowSecs room =>
    s.refusal casemap request nowSecs room = none →
      s.From casemap (request.mutation.key casemap) request.shard
  | _ => True

variable {casemap : CaseMapping} {s : State Shard} {k : BanKey} {owner : Shard}

namespace State

/-! ## Who owns what is outstanding -/

variable {shard : Shard}

/-- A ban with nothing outstanding but one shard's changes settles from that shard. -/
theorem Settling.of_from (settling : s.Settling casemap k owner)
    (alone : s.From casemap k shard) : s.Settling casemap k shard := by
  rcases eq_or_ne owner shard with rfl | apart
  · exact settling
  have silent : ∀ src dst, ∀ mutation ∈ s.links src dst, mutation.key casemap ≠ k := by
    intro src dst mutation queued same
    exact apart ((settling.sources.links src dst mutation queued same).symm.trans
      (alone.links src dst mutation queued same))
  refine ⟨alone, settling.single, silent shard shard, fun other => ?_⟩
  have same : s.caughtUp casemap k shard other = s.caughtUp casemap k owner other :=
    (foldl_writeAt_of_forall_ne (silent shard other)).trans
      (foldl_writeAt_of_forall_ne (silent owner other)).symm
  rw [← settling.settles other, due, due, same]

theorem caughtUp_congr {t : State Shard} (links : t.links owner shard = s.links owner shard)
    (enforced : t.enforced casemap k shard = s.enforced casemap k shard) :
    t.caughtUp casemap k owner shard = s.caughtUp casemap k owner shard := by
  unfold caughtUp
  rw [links, enforced]

/-- Nothing is on its way: no request, no result and no broadcast copy. -/
def Quiet (s : State Shard) : Prop :=
  s.requests = [] ∧ s.results = [] ∧ ∀ src dst, s.links src dst = []

/-- What holds throughout when changes of a ban never contend: each ban settles,
a change that is out is pending at its shard, and no list holds a ban twice. -/
structure Replicated (casemap : CaseMapping) (s : State Shard) : Prop where
  settling : ∀ k, ∃ owner, s.Settling casemap k owner
  requests : ∀ request ∈ s.requests, request.mutation.key casemap ∈ s.pending request.shard
  results : ∀ result ∈ s.results, result.1.mutation.key casemap ∈ s.pending result.1.shard
  hot : ∀ shard, Keyed (ServerBan.key casemap) (s.hot shard)
  table : Keyed (BanRow.key casemap) s.table.rows

namespace Replicated

/-- A shard that takes up a change has none of that ban outstanding. -/
theorem outstanding_eq_zero {request : Request Shard} (kept : s.Replicated casemap)
    (alone : s.From casemap (request.mutation.key casemap) request.shard)
    (free : request.mutation.key casemap ∉ s.pending request.shard) :
    s.outstanding casemap (request.mutation.key casemap) = 0 := by
  rw [outstanding, Nat.add_eq_zero_iff, countP_eq_zero, countP_eq_zero]
  constructor
  · intro other queued here
    have same := of_decide_eq_true here
    have pending := kept.requests other queued
    rw [alone.requests other queued same, same] at pending
    exact free pending
  · intro other waiting here
    have same := of_decide_eq_true here
    have pending := kept.results other waiting
    rw [alone.results other waiting same, same] at pending
    exact free pending

end Replicated

/-! ## The steps -/

variable [DecidableEq Shard] {request : Request Shard}

/-- A change joins the requests: of another ban, or of one with none out. -/
theorem Settling.enqueue (settling : s.Settling casemap k owner)
    (first : request.mutation.key casemap = k →
      request.shard = owner ∧ s.outstanding casemap k = 0) :
    (s.enqueue casemap request).Settling casemap k owner := by
  refine ⟨⟨?_, settling.sources.results, settling.sources.links⟩, ?_, settling.toOthers,
    settling.settles⟩
  · intro other queued same
    rcases mem_append.mp queued with before | new
    · exact settling.sources.requests other before same
    · rw [mem_singleton.mp new] at same ⊢
      exact (first same).1
  · have before := settling.single
    simp only [outstanding, State.enqueue, countP_append, countP_singleton] at *
    split
    · rename_i here
      have none_out := (first (of_decide_eq_true here)).2
      omega
    · omega

/-- The database is done with a request, and its result says what it did. -/
theorem Settling.resolve {outcome : BanTable × ServerBanResult}
    (settling : s.Settling casemap k owner) (queued : request ∈ s.requests)
    (writes : outcome.1.stored casemap k =
      resultAt casemap k (s.table.stored casemap k) (request, outcome.2)) :
    (s.resolve request outcome).Settling casemap k owner := by
  refine ⟨⟨?_, ?_, settling.sources.links⟩, ?_, settling.toOthers, fun shard => ?_⟩
  · intro other left same
    exact settling.sources.requests other (mem_of_mem_erase left) same
  · intro result waiting same
    rcases mem_append.mp waiting with before | new
    · exact settling.sources.results result before same
    · rw [mem_singleton.mp new] at same ⊢
      exact settling.sources.requests request queued same
  · refine le_trans (le_of_eq ?_) settling.single
    simp only [outstanding, State.resolve, (perm_cons_erase queued).countP_eq,
      countP_append, countP_cons, countP_nil]
    omega
  · have last : (s.resolve request outcome).due casemap k owner shard =
        resultAt casemap k (s.due casemap k owner shard) (request, outcome.2) :=
      foldl_append
    rw [last, settling.settles shard]
    exact writes.symm

variable {mutation : ServerBanMutation}

theorem enforced_apply {other : Shard} : (s.apply casemap shard mutation).enforced casemap k other =
      if other = shard then writtenAt casemap k (s.enforced casemap k other) mutation
      else s.enforced casemap k other := by
  unfold enforced
  split
  · rename_i here
    rw [here, hot_apply_self]
    exact entryAt_applyCommittedServerBan
  · rename_i there
    rw [hot_apply_of_ne there]

theorem writtenAt_of_ne {held : Option ServerBan}
    (elsewhere : mutation.key casemap ≠ k) : writtenAt casemap k held mutation = held :=
  if_neg elsewhere

variable {src : Shard}

/-- A copy arrives: it was the next write on its link. -/
theorem Settling.received {dst : Shard}
    {rest : Links Shard ServerBanMutation} (settling : s.Settling casemap k owner)
    (received : s.links.receive src dst = some (mutation, rest)) :
    ({ s with links := rest }.apply casemap dst mutation).Settling casemap k owner := by
  obtain ⟨head, others⟩ := Links.receive_eq_some received
  refine ⟨⟨settling.sources.requests, settling.sources.results, ?_⟩, settling.single, ?_, ?_⟩
  · intro a b other left
    exact settling.sources.links a b other (Links.mem_of_receive received left)
  · intro other left
    exact settling.toOthers other (Links.mem_of_receive received left)
  intro shard
  have same : ({ s with links := rest }.apply casemap dst mutation).caughtUp casemap k owner shard =
      s.caughtUp casemap k owner shard := by
    rcases Decidable.em (owner = src ∧ shard = dst) with ⟨rfl, rfl⟩ | apart
    · unfold caughtUp
      rw [enforced_apply, if_pos rfl, head, foldl_cons]
      rfl
    · refine caughtUp_congr (others owner shard apart) (enforced_apply.trans ?_)
      split
      · rename_i here
        exact writtenAt_of_ne fun same => apart
          ⟨(settling.sources.links src dst mutation (Links.head_mem received) same).symm, here⟩
      · rfl
  exact (congrArg (s.results.foldl (resultAt casemap k)) same).trans (settling.settles shard)

/-- A committed mutation is one more write on every shard: at once on the one
that broadcasts it, at the end of the link on each other. -/
theorem caughtUp_reconcile (own : mutation.key casemap = k → src = owner)
    (toOthers : ∀ mutation ∈ s.links owner owner, mutation.key casemap ≠ k) (shard : Shard) :
    (s.reconcile casemap src mutation).caughtUp casemap k owner shard =
      writtenAt casemap k (s.caughtUp casemap k owner shard) mutation := by
  have enforced : (s.reconcile casemap src mutation).enforced casemap k shard =
      if shard = src then writtenAt casemap k (s.enforced casemap k shard) mutation
      else s.enforced casemap k shard := enforced_apply
  rcases eq_or_ne shard src with rfl | apart
  · rw [if_pos rfl] at enforced
    have links : (s.reconcile casemap shard mutation).links owner shard = s.links owner shard :=
      if_neg fun link => link.2 rfl
    unfold caughtUp
    rw [enforced, links]
    rcases eq_or_ne (mutation.key casemap) k with here | elsewhere
    · obtain rfl := own here
      rw [foldl_writeAt_of_forall_ne toOthers, foldl_writeAt_of_forall_ne toOthers]
    · rw [writtenAt_of_ne elsewhere, writtenAt_of_ne elsewhere]
  · rw [if_neg apart] at enforced
    rcases eq_or_ne owner src with rfl | foreign
    · have links : (s.reconcile casemap owner mutation).links owner shard =
          s.links owner shard ++ [mutation] := if_pos ⟨rfl, apart⟩
      unfold caughtUp
      rw [enforced, links, foldl_append]
      rfl
    · have elsewhere : mutation.key casemap ≠ k := fun here => foreign (own here).symm
      rw [writtenAt_of_ne elsewhere]
      exact caughtUp_congr (if_neg fun link => foreign link.1) enforced

variable {result : ServerBanResult}

/-- A verdict is one more write on every shard, its own and those it is sent to. -/
theorem Settling.caughtUp_serverBanResult
    (settling : s.Settling casemap k owner) (waiting : (request, result) ∈ s.results)
    (shard : Shard) : (s.serverBanResult casemap request result).caughtUp casemap k owner shard =
      resultAt casemap k (s.caughtUp casemap k owner shard) (request, result) := by
  unfold serverBanResult
  cases verdict : (serverBanVerdict request.mutation result).applied with
  | none =>
    have nothing : ∀ held, settledBan request.mutation result held = held := fun held => by
      rw [settledBan, verdict]
    simp only [resultAt, writeAt, nothing, ite_self]
    rfl
  | some applied =>
    obtain rfl := ServerBanVerdict.eq_of_applied verdict
    have writes : ∀ held, settledBan request.mutation result held = request.mutation.ban :=
      fun held => by rw [settledBan, verdict]
    simp only [resultAt, writeAt, writes]
    exact caughtUp_reconcile (settling.sources.results _ waiting) settling.toOthers shard

/-- The requester's shard takes a result. -/
theorem Settling.serverBanResult
    (settling : s.Settling casemap k owner) (waiting : (request, result) ∈ s.results) :
    (s.serverBanResult casemap request result).Settling casemap k owner := by
  have own := settling.sources.results _ waiting
  refine ⟨⟨?_, ?_, ?_⟩, ?_, ?_, fun shard => ?_⟩
  · rw [requests_serverBanResult]
    exact settling.sources.requests
  · rw [results_serverBanResult]
    intro other left
    exact settling.sources.results other (mem_of_mem_erase left)
  · intro src dst mutation queued same
    rcases mem_links_serverBanResult queued with before | ⟨link, rfl⟩
    · exact settling.sources.links src dst mutation before same
    · exact link.1.trans (own same)
  · have fewer : (s.results.erase (request, result)).countP (·.1.mutation.key casemap = k) ≤
        s.results.countP (·.1.mutation.key casemap = k) := erase_sublist.countP_le
    refine le_trans ?_ settling.single
    rw [outstanding, requests_serverBanResult, results_serverBanResult]
    exact Nat.add_le_add_left fewer _
  · intro mutation queued same
    rcases mem_links_serverBanResult queued with before | ⟨link, rfl⟩
    · exact settling.toOthers mutation before same
    · exact link.2 link.1
  · have single : s.results.countP (·.1.mutation.key casemap = k) ≤ 1 :=
      le_trans (Nat.le_add_left _ _) settling.single
    rw [due, results_serverBanResult, settling.caughtUp_serverBanResult waiting,
      table_serverBanResult]
    exact (foldl_writeAt_front single waiting).trans (settling.settles shard)

namespace Replicated

variable {request : Request Shard}

theorem enqueue (kept : s.Replicated casemap)
    (alone : s.From casemap (request.mutation.key casemap) request.shard)
    (free : request.mutation.key casemap ∉ s.pending request.shard) :
    (s.enqueue casemap request).Replicated casemap := by
  have grows : ∀ shard key, key ∈ s.pending shard →
      key ∈ (s.enqueue casemap request).pending shard := by
    intro shard key pending
    rcases eq_or_ne shard request.shard with rfl | apart
    · simp [State.enqueue, pending]
    · simpa [State.enqueue, Function.update_of_ne apart] using pending
  refine ⟨fun k => ?_, ?_, ?_, kept.hot, kept.table⟩
  · obtain ⟨owner, settling⟩ := kept.settling k
    rcases eq_or_ne (request.mutation.key casemap) k with rfl | elsewhere
    · exact ⟨_, (settling.of_from alone).enqueue fun _ =>
        ⟨rfl, kept.outstanding_eq_zero alone free⟩⟩
    · exact ⟨owner, settling.enqueue fun here => absurd here elsewhere⟩
  · intro other queued
    rcases mem_append.mp queued with before | new
    · exact grows _ _ (kept.requests other before)
    · rw [mem_singleton.mp new]
      simp [State.enqueue]
  · intro other waiting
    exact grows _ _ (kept.results other waiting)

theorem resolve {outcome : BanTable × ServerBanResult}
    (kept : s.Replicated casemap) (queued : request ∈ s.requests)
    (writes : ∀ k, outcome.1.stored casemap k =
      resultAt casemap k (s.table.stored casemap k) (request, outcome.2))
    (keyed : Keyed (BanRow.key casemap) outcome.1.rows) :
    (s.resolve request outcome).Replicated casemap := by
  refine ⟨fun k => ?_, ?_, ?_, kept.hot, keyed⟩
  · obtain ⟨owner, settling⟩ := kept.settling k
    exact ⟨owner, settling.resolve queued (writes k)⟩
  · intro other left
    exact kept.requests other (mem_of_mem_erase left)
  intro other waiting
  rcases mem_append.mp waiting with before | new
  · exact kept.results other before
  · rw [mem_singleton.mp new]
    exact kept.requests request queued

omit [DecidableEq Shard] in
theorem answer {requester : Requester} {answer : Answer} (kept : s.Replicated casemap) :
    (s.answer requester answer).Replicated casemap := by
  refine ⟨fun k => ?_, kept.requests, kept.results, kept.hot, kept.table⟩
  obtain ⟨owner, settling⟩ := kept.settling k
  exact ⟨owner, ⟨settling.sources.requests, settling.sources.results, settling.sources.links⟩,
    settling.single, settling.toOthers, settling.settles⟩

variable {mutation : ServerBanMutation}

theorem hot_apply {shard : Shard}
    (keyed : ∀ shard, Keyed (ServerBan.key casemap) (s.hot shard)) (other : Shard) :
    Keyed (ServerBan.key casemap) ((s.apply casemap shard mutation).hot other) := by
  rcases eq_or_ne other shard with rfl | apart
  · rw [hot_apply_self]
    exact keyed_applyCommittedServerBan (keyed other)
  · rw [hot_apply_of_ne apart]
    exact keyed other

theorem received {src dst : Shard}
    {rest : Links Shard ServerBanMutation} (kept : s.Replicated casemap)
    (received : s.links.receive src dst = some (mutation, rest)) :
    ({ s with links := rest }.apply casemap dst mutation).Replicated casemap := by
  refine ⟨fun k => ?_, kept.requests, kept.results, hot_apply kept.hot, kept.table⟩
  obtain ⟨owner, settling⟩ := kept.settling k
  exact ⟨owner, settling.received received⟩

/-- A result frees its ban at its shard, and nothing of the ban is out any more. -/
theorem serverBanResult {result : ServerBanResult}
    (kept : s.Replicated casemap) (waiting : (request, result) ∈ s.results) :
    (s.serverBanResult casemap request result).Replicated casemap := by
  obtain ⟨owner, settling⟩ := kept.settling (request.mutation.key casemap)
  have single := settling.single
  have counted : 0 < s.results.countP (·.1.mutation.key casemap = request.mutation.key casemap) :=
    countP_pos_iff.mpr ⟨_, waiting, decide_eq_true rfl⟩
  have stays : ∀ shard key, key ∈ s.pending shard → key ≠ request.mutation.key casemap →
      key ∈ (s.release casemap request result).pending shard := by
    intro shard key pending other
    rcases eq_or_ne shard request.shard with rfl | apart
    · simp [release, pending, other]
    · simpa [release, Function.update_of_ne apart] using pending
  refine ⟨fun k => ?_, ?_, ?_, ?_, ?_⟩
  · obtain ⟨owner, settling⟩ := kept.settling k
    exact ⟨owner, settling.serverBanResult waiting⟩
  · rw [requests_serverBanResult, pending_serverBanResult]
    intro other queued
    refine stays _ _ (kept.requests other queued) fun same => ?_
    have also : 0 < s.requests.countP (·.mutation.key casemap = request.mutation.key casemap) :=
      countP_pos_iff.mpr ⟨other, queued, decide_eq_true same⟩
    unfold outstanding at single
    omega
  · rw [results_serverBanResult, pending_serverBanResult]
    intro other left
    refine stays _ _ (kept.results other (mem_of_mem_erase left)) ?_
    exact ne_of_mem_erase (le_trans (Nat.le_add_left _ _) single) waiting rfl other left
  · intro shard
    unfold State.serverBanResult
    split
    · exact kept.hot shard
    · exact hot_apply kept.hot shard
  · rw [table_serverBanResult]
    exact kept.table

/-- One step of a run whose changes are uncontested. -/
theorem step {s' : State Shard} {e : Event Shard} (kept : s.Replicated casemap)
    (uncontested : Uncontested casemap s e) (step : step casemap s e = some s') :
    s'.Replicated casemap := by
  cases e with
  | change request nowSecs room =>
    obtain ⟨-, step⟩ := guard_bind_eq_some.mp step
    cases refused : s.refusal casemap request nowSecs room with
    | some refusal =>
      rw [refused] at step
      cases step
      exact kept.answer
    | none =>
      have free : request.mutation.key casemap ∉ s.pending request.shard := by
        intro pending
        simp only [refusal, if_pos pending] at refused
        split at refused <;> cases refused
      rw [refused] at step
      cases step
      exact kept.enqueue (uncontested refused) free
  | commit request =>
    obtain ⟨queued, rfl⟩ := guard_some_eq_some.mp step
    exact kept.resolve queued (fun _ => BanTable.stored_mutate) (BanTable.keyed_mutate kept.table)
  | fail request =>
    obtain ⟨queued, rfl⟩ := guard_some_eq_some.mp step
    exact kept.resolve queued (fun _ => (ite_self _).symm) kept.table
  | serverBanResult request result =>
    obtain ⟨waiting, rfl⟩ := guard_some_eq_some.mp step
    exact kept.serverBanResult waiting
  | serverBanApplied src dst =>
    obtain ⟨⟨mutation, rest⟩, received, step⟩ := Option.bind_eq_some_iff.mp step
    cases step
    exact kept.received received

theorem init [Nonempty Shard] (cfg : Config) : (bans cfg Shard).init.Replicated cfg.casemap := by
  refine ⟨fun k => ?_, by simp [bans], by simp [bans], ?_, cfg.keyed⟩
  · obtain ⟨owner⟩ := ‹Nonempty Shard›
    refine ⟨owner, ⟨by simp [bans], by simp [bans], by simp [bans]⟩, by simp [bans, outstanding],
      by simp [bans], fun shard => ?_⟩
    exact entryAt_map
  · intro shard
    exact keyed_map.mpr cfg.keyed

omit [DecidableEq Shard] in
/-- Once nothing is on its way, a shard holds the stored bans. -/
theorem hot_perm (kept : s.Replicated casemap) (quiet : s.Quiet) (shard : Shard) :
    (s.hot shard).Perm (s.table.rows.map BanRow.ban) := by
  obtain ⟨noRequests, noResults, noCopies⟩ := quiet
  refine (kept.hot shard).perm (keyed_map.mpr kept.table) fun k => ?_
  obtain ⟨owner, settling⟩ := kept.settling k
  have settled := settling.settles shard
  rw [due, caughtUp, noResults, noCopies] at settled
  exact settled.trans entryAt_map.symm

end Replicated

/-- Every shard enforces exactly the stored bans: same kind, folded mask and expiry. -/
def Agreed (casemap : CaseMapping) (s : State Shard) : Prop :=
  ∀ shard, ((s.hot shard).map (ServerBan.terms casemap)).Perm
    (s.table.rows.map fun row => row.ban.terms casemap)

end State

/-- In every run in which no shard takes up a change of a ban while another has
one outstanding, the shards agree with the database whenever nothing is on its
way. -/
theorem bans_agreed_of_quiet (cfg : Config) (Shard : Type) [DecidableEq Shard]
    (es : List (Event Shard)) (s : State Shard)
    (run : (bans cfg Shard).Run (fun _ s e => Uncontested cfg.casemap s e) es s)
    (quiet : s.Quiet) : s.Agreed cfg.casemap := by
  intro shard
  have : Nonempty Shard := ⟨shard⟩
  have kept : s.Replicated cfg.casemap :=
    run.invariant (P := fun _ s => s.Replicated cfg.casemap) (Replicated.init cfg)
      fun _ _ _ _ kept uncontested step => kept.step uncontested step
  have same := (kept.hot_perm quiet shard).map (ServerBan.terms cfg.casemap)
  rwa [map_map] at same

/-! ## Two operators, two shards and one ban -/

section

variable [Fintype Shard] [DecidableEq Shard]

instance : Decidable (s.From casemap k owner) :=
  decidable_of_iff
    ((∀ request ∈ s.requests, request.mutation.key casemap = k → request.shard = owner) ∧
      (∀ result ∈ s.results, result.1.mutation.key casemap = k → result.1.shard = owner) ∧
      ∀ src dst, ∀ mutation ∈ s.links src dst, mutation.key casemap = k → src = owner)
    ⟨fun ⟨requests, results, links⟩ => ⟨requests, results, links⟩,
      fun sources => ⟨sources.requests, sources.results, sources.links⟩⟩

instance : Decidable s.Quiet :=
  inferInstanceAs (Decidable (s.requests = [] ∧ s.results = [] ∧ ∀ src dst, s.links src dst = []))

instance (e : Event Shard) : Decidable (Uncontested casemap s e) :=
  match e with
  | .change request nowSecs room =>
    inferInstanceAs (Decidable (s.refusal casemap request nowSecs room = none → s.From ..))
  | .commit _ | .fail _ | .serverBanResult .. | .serverBanApplied .. => isTrue trivial

end

def badHost : ServerBan where
  mask := ⟨ascii "*@bad.example"⟩
  reason := ascii "spam"
  setBy := ascii "root"
  kind := .kline
  expiresAtSecs := none

/-- One K-line is stored when the shards boot. -/
def oneBan : Config where
  casemap := .rfc1459
  rows := [⟨1, badHost⟩]
  nextId := 2
  keyed := by simp [Keyed]

/-- `UNKLINE *@bad.example` on shard 0. -/
def lifts : Request (Fin 2) where
  shard := 0
  requester := .oper 4 none
  mutation := .remove none badHost.mask .kline (ascii "ann")

/-- `KLINE *@bad.example :spam` on shard 1. -/
def renews : Request (Fin 2) where
  shard := 1
  requester := .oper 7 none
  mutation := .add badHost.mask .kline badHost.reason badHost.setBy none

/-- The database stores the ban anew and then deletes it; the copies cross, and
shard 0 is left with the ban that is stored nowhere. -/
theorem bans_disagree_after_crossing : ∃ s, (bans oneBan (Fin 2)).Run System.anyStep
    [.change renews 0 true, .change lifts 0 true, .commit renews, .commit lifts,
      .serverBanResult lifts .stored, .serverBanResult renews .stored,
      .serverBanApplied 1 0, .serverBanApplied 0 1] s ∧
    s.Quiet ∧ s.table.rows = [] ∧ s.hot 0 = [badHost] ∧ ¬ s.Agreed oneBan.casemap := by
  have observed : ((bans oneBan (Fin 2)).exec
      [.change renews 0 true, .change lifts 0 true, .commit renews, .commit lifts,
        .serverBanResult lifts .stored, .serverBanResult renews .stored,
        .serverBanApplied 1 0, .serverBanApplied 0 1]).map
      (fun s => (decide s.Quiet, s.table.rows, s.hot 0)) = some (true, [], [badHost]) := by
    decide +kernel
  obtain ⟨s, replay, ended⟩ := System.exists_run observed
  rw [Prod.mk.injEq, Prod.mk.injEq, decide_eq_true_iff] at ended
  obtain ⟨quiet, table, hot⟩ := ended
  refine ⟨s, replay, quiet, table, hot, fun agreed => ?_⟩
  have stale := (agreed 0).length_eq
  rw [table, hot] at stale
  cases stale

/-- The second change is made once the first one's copy has arrived. -/
theorem bans_agreed_of_turns : ∃ s, (bans oneBan (Fin 2)).Run
      (fun _ s e => Uncontested oneBan.casemap s e)
      [.change renews 0 true, .commit renews, .serverBanResult renews .stored,
        .serverBanApplied 1 0, .change lifts 0 true, .commit lifts,
        .serverBanResult lifts .stored, .serverBanApplied 0 1] s ∧
    s.Quiet ∧ s.Agreed oneBan.casemap := by
  have observed : (((bans oneBan (Fin 2)).restrict fun s e => Uncontested oneBan.casemap s e).exec
      [.change renews 0 true, .commit renews, .serverBanResult renews .stored,
        .serverBanApplied 1 0, .change lifts 0 true, .commit lifts,
        .serverBanResult lifts .stored, .serverBanApplied 0 1]).map
      (fun s => decide s.Quiet) = some true := by
    decide +kernel
  obtain ⟨s, replay, ended⟩ := System.exists_run observed
  have quiet : s.Quiet := of_decide_eq_true ended
  have run : (bans oneBan (Fin 2)).Run (fun _ s e => Uncontested oneBan.casemap s e) _ s :=
    replay.of_restrict.mono fun _ _ _ => of_decide_eq_true
  exact ⟨s, run, quiet, bans_agreed_of_quiet oneBan (Fin 2) _ s run quiet⟩

end E6irc.Bans
