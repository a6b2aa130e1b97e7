import E6irc.Base.Assoc
import E6irc.History.Store
import E6irc.Proto.Casemap

/-!
# The counts of the hot history store

The store answers from running counts: the bytes of a ring and of all of them, and
the newest time of each scope.  They are kept as entries come and go, and they equal
a recount from the entries because an entry leaves a ring only at its oldest end, or
with everything counted anew.

Also the erasure of an account's lines, `forget_account` of `core/hot_history.rs`.
-/

namespace E6irc

open Base List HistoryRow HistoryRing AList

namespace HistoryRing

/-- Keep only the entries that `keep` admits, counting anew where any leaves. -/
def retain (keep : HistoryRow → Bool) (ring : HistoryRing) : Bool × HistoryRing :=
  let kept := ring.entries.filter keep
  if kept.length = ring.entries.length then (false, ring)
  else
    let rebuilt := kept.foldl (fun ring entry => ring.push entry (2 ^ 64 - 1)) (new ring.complete)
    (true, { rebuilt with shedThrough := ring.shedThrough })

end HistoryRing

namespace HotHistory

/-- Whether `entry` was not sent by the account that folds to `folded`. -/
def notSentBy (folded : Bytes) (casemap : CaseMapping) (entry : HistoryRow) : Bool :=
  entry.senderAccount.all fun sender => casemap.casefold sender ≠ folded

/-- Erase an account's lines: every conversation it takes part in and every entry it
sent.  The keys of the rings that lost entries but remain are returned. -/
def forgetAccount (hot : HotHistory) (folded : Bytes) (casemap : CaseMapping) :
    HotHistory × List HistoryKey :=
  let hot := hot.forgetIdentity folded
  let erased (ring : HistoryRing) := ring.retain (notSentBy folded casemap)
  let shed := weight (fun ring => ring.bytes - (erased ring).2.bytes) hot.rings
  let changed := hot.rings.entries.filter fun entry => (erased entry.2).1
  ({ hot with
      rings := mapValues (fun _ ring => (erased ring).2) hot.rings
      bytes := hot.bytes - shed },
    changed.map Sigma.fst)

end HotHistory

/-! ## The newest time of a scope -/

/-- The times of the entries that the scope admits. -/
def HistoryScope.times (scope : HistoryScope) (entries : List HistoryRow) : List Millis :=
  (entries.filter fun entry => scope.admits entry.kind).map ts

theorem HistoryScope.times_cons (scope : HistoryScope) (entry : HistoryRow)
    (entries : List HistoryRow) :
    scope.times (entry :: entries) =
      if scope.admits entry.kind then entry.ts :: scope.times entries else scope.times entries := by
  unfold times
  rw [filter_cons]
  split <;> rfl

namespace ScopeNewest

/-- What is kept for a scope whose entries are of these times. -/
structure Counts (scope : ScopeNewest) (times : List Millis) : Prop where
  held : scope.held = times.length
  newest : scope.newest = times.max?

variable {scope : ScopeNewest} {times times' : List Millis} {ts : Millis}

theorem max?_eq_of_perm (same : times.Perm times') : times.max? = times'.max? := by
  refine Option.ext fun newest => ?_
  simp only [List.max?_eq_some_iff, same.mem_iff]

theorem Counts.push (counts : scope.Counts times) (same : times'.Perm (ts :: times)) :
    (scope.push ts).Counts times' := by
  refine ⟨?_, ?_⟩
  · rw [same.length_eq, length_cons, ← counts.held]
    rfl
  · rw [max?_eq_of_perm same, List.max?_cons, ← counts.newest]
    cases newest : scope.newest <;> simp [ScopeNewest.push, newest, max_comm]

/-- The newest time leaves with the last entry only, as the oldest leaves first. -/
theorem Counts.expireOldest (counts : scope.Counts (ts :: times)) (oldest : ∀ t ∈ times, ts ≤ t) :
    scope.expireOldest.Counts times := by
  obtain ⟨held, newest⟩ := counts
  rw [length_cons] at held
  rw [List.max?_cons] at newest
  unfold ScopeNewest.expireOldest
  refine ⟨by simp [held], ?_⟩
  cases times with
  | nil => simp [held]
  | cons t times =>
    obtain ⟨last, found⟩ : ∃ last, (t :: times).max? = some last :=
      Option.isSome_iff_exists.mp (by simp)
    have later := oldest last (List.max?_eq_some_iff.mp found).1
    rw [found, Option.elim_some, max_eq_right later] at newest
    simp [held, newest, found]

end ScopeNewest

/-- What is kept for one scope. -/
def ScopedMaxima.of (maxima : ScopedMaxima) : HistoryScope → ScopeNewest
  | .text => maxima.text
  | .textAndTags => maxima.textAndTags

theorem ScopedMaxima.of_inScopes (maxima : ScopedMaxima) (kind : HistoryKind)
    (change : ScopeNewest → ScopeNewest) (scope : HistoryScope) :
    (maxima.inScopes kind change).of scope =
      if scope.admits kind then change (maxima.of scope) else maxima.of scope := by
  cases scope <;> rfl

/-! ## One ring -/

namespace HistoryRing

/-- The counts are those of the entries held, and these are within the cap. -/
structure Tallied (ring : HistoryRing) : Prop where
  bytes : ring.bytes = (ring.entries.map footprint).sum
  scopes : ∀ scope : HistoryScope, (ring.maxima.of scope).Counts (scope.times ring.entries)

variable {ring : HistoryRing} {entry : HistoryRow}

theorem Tallied.withEntry (tallied : ring.Tallied) (placed : Placed place ring.entries) :
    (ring.withEntry entry).Tallied := by
  have same : (ring.withEntry entry).entries.Perm (entry :: ring.entries) := by
    rw [withEntry_entries placed]
    exact perm_insertPlaced
  refine ⟨?_, fun scope => ?_⟩
  · rw [(same.map footprint).sum_nat, map_cons, sum_cons, ← tallied.bytes]
    exact Nat.add_comm _ _
  have times : (scope.times (ring.withEntry entry).entries).Perm
      (scope.times (entry :: ring.entries)) := (same.filter _).map _
  have before := tallied.scopes scope
  have kept : (ring.withEntry entry).maxima = ring.maxima.push entry := rfl
  rw [kept, ScopedMaxima.push, ScopedMaxima.of_inScopes]
  rw [HistoryScope.times_cons] at times
  split
  · rename_i admitted
    rw [if_pos admitted] at times
    exact before.push times
  · rename_i other
    rw [if_neg other] at times
    exact ⟨before.held.trans times.length_eq.symm,
      before.newest.trans (ScopeNewest.max?_eq_of_perm times.symm)⟩

theorem Tallied.popOldest (tallied : ring.Tallied) (placed : Placed place ring.entries) :
    ring.popOldest.Tallied := by
  unfold HistoryRing.popOldest
  split
  · exact tallied
  rename_i oldest rest entries
  have bytes := tallied.bytes
  rw [entries, map_cons, sum_cons] at bytes
  refine ⟨by simp only [bytes, Nat.add_sub_cancel_left], fun scope => ?_⟩
  have before := tallied.scopes scope
  rw [entries] at placed before
  have later : ∀ held ∈ rest, oldest.ts ≤ held.ts := fun held among =>
    HistoryPlace.ts_le ((pairwise_cons.mp placed).1 held among)
  show ((ring.maxima.expireOldest oldest).of scope).Counts (scope.times rest)
  rw [ScopedMaxima.expireOldest, ScopedMaxima.of_inScopes]
  rw [HistoryScope.times_cons] at before
  split
  · rename_i admitted
    rw [if_pos admitted] at before
    refine before.expireOldest ?_
    intro t among
    obtain ⟨held, inScope, rfl⟩ := mem_map.mp among
    exact later held (mem_filter.mp inScope).1
  · rename_i other
    rw [if_neg other] at before
    exact before

theorem placed_popOldest (placed : Placed place ring.entries) :
    Placed place ring.popOldest.entries := by
  unfold popOldest
  split
  · exact placed
  · rename_i oldest rest entries
    rw [entries] at placed
    exact (pairwise_cons.mp placed).2

theorem Tallied.shedOver (budget fuel : ℕ) (tallied : ring.Tallied)
    (placed : Placed place ring.entries) : (ring.shedOver budget fuel).Tallied := by
  induction fuel generalizing ring with
  | zero => exact tallied
  | succ fuel ih =>
    unfold shedOver
    split
    · exact ih (tallied.popOldest placed) (placed_popOldest placed)
    · exact tallied

theorem Tallied.push (tallied : ring.Tallied) (sound : ring.Sound) (budget : ℕ) :
    (ring.push entry budget).Tallied := by
  unfold HistoryRing.push
  split
  · exact tallied
  · refine (tallied.withEntry sound.placed).shedOver _ _ ?_
    rw [withEntry_entries sound.placed]
    exact sound.placed.insertPlaced

theorem length_push_le (within : ring.entries.length ≤ historyRingCap) (budget : ℕ) :
    (ring.push entry budget).entries.length ≤ historyRingCap := by
  unfold push
  split
  · exact within
  · have done := shedOver_within budget _ (ring.withEntry entry) le_rfl
    simp only [overBounds, Bool.or_eq_false_iff, decide_eq_false_iff_not, not_lt] at done
    exact done.1

/-- In order, counted, and within the cap. -/
structure Kept (ring : HistoryRing) : Prop where
  sound : ring.Sound
  tallied : ring.Tallied
  within : ring.entries.length ≤ historyRingCap

theorem kept_new (complete : Bool) : (new complete).Kept :=
  ⟨sound_new complete, ⟨rfl, fun scope => by cases scope <;> exact ⟨rfl, rfl⟩⟩, Nat.zero_le _⟩

theorem Kept.push (kept : ring.Kept) (entry : HistoryRow) (budget : ℕ) :
    (ring.push entry budget).Kept :=
  ⟨kept.sound.push entry budget, kept.tallied.push kept.sound budget,
    length_push_le kept.within budget⟩

/-! ### Counting anew -/

theorem complete_of_push {budget : ℕ} (complete : (ring.push entry budget).complete = true) :
    ring.complete = true := by
  cases refused : ring.refuses entry with
  | true => rwa [push_of_refuses refused] at complete
  | false =>
    obtain ⟨k, sheds, -⟩ := push_sheds refused budget
    rcases Nat.eq_zero_or_pos k with rfl | pos
    · rwa [sheds.unchanged rfl] at complete
    · rw [sheds.incomplete pos] at complete
      cases complete

/-- An entry that is placed last goes to the end. -/
theorem push_sublist {front : List HistoryRow} {budget : ℕ} (sound : ring.Sound)
    (part : ring.entries.Sublist front) (last : ∀ held ∈ front, held.place ≤ entry.place) :
    (ring.push entry budget).entries.Sublist (front ++ [entry]) := by
  cases refused : ring.refuses entry with
  | true =>
    rw [push_of_refuses refused]
    exact part.trans (sublist_append_left _ _)
  | false =>
    obtain ⟨k, sheds, -⟩ := push_sheds refused budget
    have inserted : insertPlaced place entry (ring.entries ++ []) =
        ring.entries ++ insertPlaced place entry [] :=
      insertPlaced_append_of_le fun held among => last held (part.subset among)
    rw [append_nil, insertPlaced_nil] at inserted
    rw [sheds.entries, withEntry_entries sound.placed, inserted]
    exact (drop_sublist _ _).trans (part.append_right _)

/-- Pushing entries in order, into a ring of earlier ones. -/
theorem Kept.pushAll {entries front : List HistoryRow} (budget : ℕ) (kept : ring.Kept)
    (part : ring.entries.Sublist front) (placed : Placed place (front ++ entries)) :
    let after := entries.foldl (fun ring entry => ring.push entry budget) ring
    after.Kept ∧ after.entries.Sublist (front ++ entries) ∧
      (after.complete = true → ring.complete = true) := by
  induction entries generalizing ring front with
  | nil =>
    rw [append_nil]
    exact ⟨kept, part, id⟩
  | cons entry entries ih =>
    have last : ∀ held ∈ front, held.place ≤ entry.place := fun held among =>
      (pairwise_append.mp placed).2.2 held among entry mem_cons_self
    rw [← singleton_append, ← append_assoc] at placed ⊢
    obtain ⟨keptAfter, partAfter, complete⟩ :=
      ih (kept.push entry budget) (push_sublist kept.sound part last) placed
    exact ⟨keptAfter, partAfter, fun whole => complete_of_push (complete whole)⟩

theorem Kept.retain (kept : ring.Kept) (keep : HistoryRow → Bool) :
    (ring.retain keep).2.Kept ∧ (ring.retain keep).2.bytes ≤ ring.bytes := by
  unfold HistoryRing.retain
  dsimp only
  split
  · exact ⟨kept, le_rfl⟩
  have inOrder : Placed place (ring.entries.filter keep) :=
    kept.sound.placed.sublist filter_sublist
  obtain ⟨after, part, complete⟩ :=
    (kept_new ring.complete).pushAll (2 ^ 64 - 1) (List.Sublist.refl _) inOrder
  have fromRing := part.trans filter_sublist
  refine ⟨⟨⟨after.sound.placed, ?_, ?_⟩, ⟨after.tallied.bytes, after.tallied.scopes⟩,
    after.within⟩, ?_⟩
  · intro shed remembered held among
    exact kept.sound.above shed remembered held (fromRing.subset among)
  · exact fun whole => kept.sound.uncut (complete whole)
  · refine after.tallied.bytes.trans_le ?_
    rw [kept.tallied.bytes]
    exact (fromRing.map footprint).sum_le_sum fun _ _ => Nat.zero_le _

end HistoryRing

/-! ## The store -/

namespace Conversations

/-- No identity is listed without a conversation. -/
def Full (index : Conversations) : Prop :=
  ∀ identity ∈ index, index.keysOf identity ≠ []

variable {index : Conversations} {key : HistoryKey}

theorem Full.add (full : index.Full) (identity : Bytes) : (index.add key identity).Full := by
  intro other listed
  have kept : key ∈ (index.add key identity).keysOf identity := mem_keysOf_add.mpr (.inr ⟨rfl, rfl⟩)
  rcases eq_or_ne other identity with rfl | apart
  · exact ne_nil_of_mem kept
  · have before : other ∈ index := (mem_insert _).mp listed |>.resolve_left apart
    obtain ⟨conversation, among⟩ := exists_mem_of_ne_nil _ (full other before)
    exact ne_nil_of_mem (mem_keysOf_add.mpr (.inl among))

theorem Full.drop (full : index.Full) (identity : Bytes) : (index.drop key identity).Full := by
  unfold Conversations.drop
  cases held : index.lookup identity with
  | none => exact full
  | some keys =>
    dsimp only
    split
    · intro other listed
      obtain ⟨apart, before⟩ := mem_erase.mp listed
      rw [keysOf, lookup_erase_ne apart]
      exact full other before
    · rename_i left
      intro other listed
      rcases eq_or_ne other identity with rfl | apart
      · rw [keysOf, lookup_insert]
        exact left
      · rw [keysOf, lookup_insert_ne apart]
        exact full other ((mem_insert _).mp listed |>.resolve_left apart)

theorem Full.addAll (full : index.Full) (identities : List Bytes) :
    Full (identities.foldl (Conversations.add key) index) := by
  induction identities generalizing index with
  | nil => exact full
  | cons identity identities ih => exact ih (full.add identity)

theorem Full.dropAll (full : index.Full) (identities : List Bytes) :
    Full (identities.foldl (Conversations.drop key) index) := by
  induction identities generalizing index with
  | nil => exact full
  | cons identity identities ih => exact ih (full.drop identity)

end Conversations

namespace HotHistory

/-- Every ring and every total is counted right. -/
structure Counted (hot : HotHistory) : Prop where
  rings : ∀ key ring, hot.rings.lookup key = some ring → ring.Kept
  bytes : hot.bytes = weight HistoryRing.bytes hot.rings
  full : hot.conversations.Full

variable {hot : HotHistory} {key : HistoryKey}

theorem Counted.forgetRing (counted : hot.Counted) (key : HistoryKey) :
    (hot.forgetRing key).2.Counted := by
  unfold HotHistory.forgetRing
  cases held : hot.rings.lookup key with
  | none => exact counted
  | some ring =>
    refine ⟨fun other ring' found => ?_, ?_, counted.full.dropAll _⟩
    · exact counted.rings other ring' (of_lookup_erase found).2
    · show hot.bytes - ring.bytes = weight HistoryRing.bytes (hot.rings.erase key)
      rw [counted.bytes, weight_erase held, Nat.add_sub_cancel_left]

/-- Another ring in place of a key's. -/
theorem Counted.lookup_insert (counted : hot.Counted) {ring : HistoryRing} (kept : ring.Kept) :
    ∀ other ring', (hot.rings.insert key ring).lookup other = some ring' → ring'.Kept := by
  intro other ring' found
  rcases of_lookup_insert found with ⟨-, rfl⟩ | ⟨-, before⟩
  · exact kept
  · exact counted.rings other ring' before

theorem Counted.append (counted : hot.Counted) (key : HistoryKey) (entry : HistoryRow)
    (wholeRecord : Bool) (bounds : HotHistoryBounds) :
    (hot.append key entry wholeRecord bounds).Counted := by
  cases held : hot.rings.lookup key with
  | some ring =>
    have kept := (counted.rings key ring held).push entry bounds.ringBytes
    simp only [HotHistory.append, held]
    refine ⟨counted.lookup_insert kept, ?_, counted.full⟩
    show hot.bytes - ring.bytes + _ = weight HistoryRing.bytes (hot.rings.insert key _)
    rw [weight_insert, counted.bytes, weight_erase held]
    omega
  | none =>
    have kept := (kept_new wholeRecord).push entry bounds.ringBytes
    simp only [HotHistory.append, held]
    refine ⟨counted.lookup_insert kept, ?_, counted.full.addAll _⟩
    show hot.bytes + _ = weight HistoryRing.bytes (hot.rings.insert key _)
    rw [weight_insert, erase_of_lookup_eq_none held, counted.bytes]
    omega

theorem Counted.evictOver (bounds : HotHistoryBounds) (fuel : ℕ) (counted : hot.Counted) :
    (evictOver bounds fuel hot).1.Counted := by
  induction fuel generalizing hot with
  | zero => exact counted
  | succ fuel ih =>
    unfold HotHistory.evictOver
    split
    · split
      · rename_i cold recency popped
        have slots : ({ hot with recency } : HotHistory).Counted :=
          ⟨counted.rings, counted.bytes, counted.full⟩
        exact ih (slots.forgetRing cold)
      · exact ⟨counted.rings, counted.bytes, counted.full⟩
    · exact counted

theorem Counted.remove (counted : hot.Counted) (key : HistoryKey) : (hot.remove key).2.Counted := by
  have slots : ({ hot with recency := (hot.recency.remove key).2 } : HotHistory).Counted :=
    ⟨counted.rings, counted.bytes, counted.full⟩
  exact slots.forgetRing key

theorem Counted.forgetIdentity (counted : hot.Counted) (identity : Bytes) :
    (hot.forgetIdentity identity).Counted := by
  have removeAll (keys : List HistoryKey) : ∀ hot : HotHistory, hot.Counted →
      (keys.foldl (fun hot key => (hot.remove key).2) hot).Counted := by
    induction keys with
    | nil => exact fun _ counted => counted
    | cons key keys ih => exact fun hot counted => ih _ (counted.remove key)
  exact removeAll _ hot counted

theorem Counted.markIncomplete (counted : hot.Counted) (key : HistoryKey) :
    (hot.markIncomplete key).Counted := by
  unfold HotHistory.markIncomplete
  cases held : hot.rings.lookup key with
  | none => exact counted
  | some ring =>
    have kept := counted.rings key ring held
    have marked : ({ ring with complete := false } : HistoryRing).Kept :=
      ⟨⟨kept.sound.placed, kept.sound.above, nofun⟩, ⟨kept.tallied.bytes, kept.tallied.scopes⟩,
        kept.within⟩
    refine ⟨counted.lookup_insert marked, ?_, counted.full⟩
    show hot.bytes = weight HistoryRing.bytes (hot.rings.insert key _)
    rw [weight_insert, counted.bytes, weight_erase held]

theorem Counted.forgetAccount (counted : hot.Counted) (folded : Bytes) (casemap : CaseMapping) :
    (hot.forgetAccount folded casemap).1.Counted := by
  have before := counted.forgetIdentity folded
  unfold HotHistory.forgetAccount
  generalize hot.forgetIdentity folded = hot at before
  refine ⟨fun key ring found => ?_, ?_, before.full⟩
  · obtain ⟨old, held, rfl⟩ := lookup_mapValues_eq_some.mp found
    exact ((before.rings key old held).retain _).1
  refine Nat.sub_eq_of_eq_add ?_
  rw [before.bytes]
  refine (weight_mapValues fun key ring held => ?_).symm
  exact Nat.add_sub_of_le ((before.rings key ring held).retain _).2

theorem Sound.forgetAccount (sound : hot.Sound) (counted : hot.Counted) (folded : Bytes)
    (casemap : CaseMapping) : (hot.forgetAccount folded casemap).1.Sound := by
  have before := (sound.forgetIdentity folded).1
  have after := counted.forgetAccount folded casemap
  have keys (key : HistoryKey) : key ∈ (hot.forgetAccount folded casemap).1.rings ↔
      key ∈ (hot.forgetIdentity folded).rings := by
    rw [← lookup_isSome, ← lookup_isSome, Option.isSome_iff_exists,
      Option.isSome_iff_exists]
    exact ⟨fun ⟨_, found⟩ => ⟨_, (lookup_mapValues_eq_some.mp found).choose_spec.1⟩,
      fun ⟨_, held⟩ => ⟨_, lookup_mapValues_eq_some.mpr ⟨_, held, rfl⟩⟩⟩
  exact
    { recency := before.recency
      live := fun key => (before.live key).trans (keys key).symm
      rings := fun key ring held => (after.rings key ring held).sound
      indexed := fun identity key => by
        rw [keys]
        exact before.indexed identity key }

/-- As many rounds as there are keys end the loop within the bounds. -/
theorem Sound.evictOver_within (bounds : HotHistoryBounds) {fuel : ℕ} (sound : hot.Sound)
    (enough : hot.recency.len ≤ fuel) :
    (HotHistory.evictOver bounds fuel hot).1.overBounds bounds = false := by
  induction fuel generalizing hot with
  | zero =>
    rw [Nat.le_zero] at enough
    simp [HotHistory.evictOver, overBounds, enough]
  | succ fuel ih =>
    cases excess : hot.overBounds bounds with
    | false => simp only [HotHistory.evictOver, excess, Bool.false_eq_true, if_false]
    | true =>
      have length := Recency.length_live sound.recency
      have some_held : hot.recency.live ≠ [] := by
        intro none
        rw [none, length_nil] at length
        simp [overBounds, ← length] at excess
      obtain ⟨cold, recency, popped, head, drops⟩ := sound.pops some_held
      simp only [HotHistory.evictOver, excess, if_true, popped]
      refine ih drops.sound ?_
      have first := mem_of_mem_head? head
      rw [← Recency.length_live drops.sound.recency, drops.live, length_erase_of_mem first, length]
      omega

theorem Sound.live_perm (sound : hot.Sound) : hot.recency.live.Perm hot.rings.keys := by
  refine (perm_ext_iff_of_nodup (Recency.live_nodup sound.recency)
    hot.rings.keys_nodup).mpr fun key => ?_
  rw [sound.live, AList.mem_keys]

/-- After a push the rings are within the bounds, and the one pushed to is there. -/
theorem Sound.push_within (sound : hot.Sound) (key : HistoryKey) (entry : HistoryRow)
    (wholeRecord : Bool) {bounds : HotHistoryBounds} (allowed : 0 < bounds.rings) :
    let after := (hot.push key entry wholeRecord bounds).1
    after.rings.keys.length ≤ bounds.rings ∧
      (after.bytes ≤ bounds.bytes ∨ after.rings.keys.length = 1) ∧ key ∈ after.rings := by
  obtain ⟨after, here, -⟩ := sound.push key entry wholeRecord bounds
  have done := (sound.append key entry wholeRecord bounds).evictOver_within bounds le_rfl
  have held : key ∈ (hot.push key entry wholeRecord bounds).1.rings := by
    rw [← lookup_isSome, here, if_neg (Nat.ne_of_gt allowed)]
    rfl
  have length := after.live_perm.length_eq
  rw [Recency.length_live after.recency] at length
  have one := length_pos_of_mem (mem_keys.mp held)
  simp only [overBounds, Bool.or_eq_false_iff, Bool.and_eq_false_iff, decide_eq_false_iff_not] at done
  obtain ⟨rings, bytes⟩ := done
  replace rings : ¬ bounds.rings < (hot.push key entry wholeRecord bounds).1.recency.len := rings
  replace bytes : ¬ bounds.bytes < (hot.push key entry wholeRecord bounds).1.bytes ∨
    ¬ 1 < (hot.push key entry wholeRecord bounds).1.recency.len := bytes
  exact ⟨by omega, by omega, held⟩

end HotHistory

/-! ## Runs with erasures -/

inductive StoreOp
  | hot (op : HotOp)
  | forgetAccount (folded : Bytes) (casemap : CaseMapping)

def historyStore : System HotHistory StoreOp where
  init := .empty
  step hot
    | .hot op => some (hot.apply op)
    | .forgetAccount folded casemap => some (hot.forgetAccount folded casemap).1

theorem HotHistory.Counted.apply {hot : HotHistory} (counted : hot.Counted) (op : HotOp) :
    (hot.apply op).Counted := by
  cases op with
  | push key entry wholeRecord bounds =>
    exact (counted.append key entry wholeRecord bounds).evictOver bounds _
  | remove key => exact counted.remove key
  | forgetIdentity identity => exact counted.forgetIdentity identity
  | markIncomplete key => exact counted.markIncomplete key

theorem kept_of_run {ok : List StoreOp → HotHistory → StoreOp → Prop} {ops : List StoreOp}
    {hot : HotHistory} (run : historyStore.Run ok ops hot) : hot.Sound ∧ hot.Counted := by
  refine run.invariant (P := fun _ hot => hot.Sound ∧ hot.Counted)
    ⟨HotHistory.sound_empty, ⟨nofun, rfl, nofun⟩⟩ ?_
  rintro _ hot op _ ⟨sound, counted⟩ - step
  cases op with
  | hot op =>
    cases step
    exact ⟨sound.apply op, counted.apply op⟩
  | forgetAccount folded casemap =>
    cases step
    exact ⟨sound.forgetAccount counted folded casemap, counted.forgetAccount folded casemap⟩

/-- In every state of the store: rings are in order, within the cap and counted
right, as are their bytes together; the recency order and the index of conversations
have the keys of the rings; and a push that is allowed a ring leaves the store within
its bounds and its own ring in it. -/
theorem the_store_equals_its_recount (ops : List StoreOp) (hot : HotHistory)
    (run : historyStore.Run System.anyStep ops hot) :
    (∀ key ring, hot.rings.lookup key = some ring →
      ring.entries.Pairwise (fun older newer => older.place ≤ newer.place) ∧
      ring.entries.length ≤ historyRingCap ∧
      ring.bytes = (ring.entries.map footprint).sum ∧
      ∀ scope : HistoryScope, (ring.maxima.of scope).newest = (scope.times ring.entries).max?) ∧
    hot.bytes = (hot.rings.entries.map fun entry => entry.2.bytes).sum ∧
    hot.recency.live.Perm hot.rings.keys ∧
    (∀ identity key, key ∈ hot.conversations.keysOf identity ↔
      key ∈ hot.rings ∧ identity ∈ key.identities) ∧
    (∀ identity ∈ hot.conversations, hot.conversations.keysOf identity ≠ []) ∧
    ∀ before key entry wholeRecord bounds, 0 < bounds.rings →
      ops = before ++ [.hot (.push key entry wholeRecord bounds)] →
      hot.rings.keys.length ≤ bounds.rings ∧
        (hot.bytes ≤ bounds.bytes ∨ hot.rings.keys.length = 1) ∧ key ∈ hot.rings := by
  obtain ⟨sound, counted⟩ := kept_of_run run
  refine ⟨fun key ring held => ?_, counted.bytes, sound.live_perm, sound.indexed, counted.full, ?_⟩
  · have kept := counted.rings key ring held
    exact ⟨kept.sound.placed, kept.within, kept.tallied.bytes,
      fun scope => (kept.tallied.scopes scope).newest⟩
  · rintro before key entry wholeRecord bounds allowed rfl
    obtain ⟨mid, prior, -, step⟩ := run.snoc_inv
    cases step
    exact (kept_of_run prior).1.push_within key entry wholeRecord allowed

/-- Two conversations under a bound of one ring, and an erasure between. -/
def erasingOps : List StoreOp :=
  [.hot (.push ⟨ascii "#a"⟩ (.plain (ascii "1") 5) true ⟨1, 1000, 1000⟩),
    .forgetAccount (ascii "mallory") .rfc1459,
    .hot (.push ⟨ascii "ann!bob"⟩ (.plain (ascii "2") 4) true ⟨1, 1000, 1000⟩)]

theorem the_store_equals_its_recount_of_erasingOps :
    ∃ hot, historyStore.exec erasingOps = some hot ∧ hot.rings.keys.length ≤ 1 ∧
      ⟨ascii "ann!bob"⟩ ∈ hot.rings := by
  obtain ⟨hot, replay⟩ : ∃ hot, historyStore.exec erasingOps = some hot := ⟨_, rfl⟩
  have recount := the_store_equals_its_recount erasingOps hot (System.run_of_exec replay)
  have pushed := recount.2.2.2.2.2 erasingOps.dropLast _ _ _ _ Nat.one_pos rfl
  exact ⟨hot, replay, pushed.1, pushed.2.2⟩

end E6irc
