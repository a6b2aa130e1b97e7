import E6irc.Base.Result
import E6irc.Base.Run
import E6irc.Base.Tally
import E6irc.Proto.Casemap

/-!
# The read marker slots of the accounts of one shard

A shard mirrors the confirmed read markers of its accounts, counts the writes in
flight for each, and counts for each account the targets it has either for
(`core/state.rs`).  That last count is kept by hand at each of the operations; here
it is shown to be the number of targets, whatever the operations and their order.
-/

namespace E6irc.MarkerSlots

open Base AList

/-- A folded account and a target. -/
abbrev MarkerKey := Bytes × Bytes

inductive Panic
  /-- A held marker slot is not counted. -/
  | unreachable
  | underflow
deriving DecidableEq, Repr

structure ReadMarkerNotReserved
deriving DecidableEq, Repr

structure State where
  readMarkers : AList fun _ : MarkerKey => ℕ
  pendingReadMarkers : AList fun _ : MarkerKey => ℕ
  readMarkerSlots : AList fun _ : Bytes => ℕ
  deletedAccounts : List Bytes

namespace State

def init : State := ⟨∅, ∅, ∅, []⟩

def readMarkerSlotHeld (s : State) (key : MarkerKey) : Bool :=
  (s.readMarkers.lookup key).isSome || (s.pendingReadMarkers.lookup key).isSome

def takeReadMarkerSlot (s : State) (account : Bytes) : State :=
  { s with
    readMarkerSlots := s.readMarkerSlots.insert account
      ((s.readMarkerSlots.lookup account).getD 0 + 1) }

def freeReadMarkerSlot (s : State) (account : Bytes) : Except Panic State :=
  match s.readMarkerSlots.lookup account with
  | none => .error .unreachable
  | some 0 => .error .underflow
  | some (left + 1) => .ok
    { s with
      readMarkerSlots :=
        if left = 0 then s.readMarkerSlots.erase account
        else s.readMarkerSlots.insert account left }

/-- Record a confirmed marker; the value it replaced.  Nothing is stored for a
deleted account. -/
def storeReadMarker (s : State) (key : MarkerKey) (marker : ℕ) : Option ℕ × State :=
  if key.1 ∈ s.deletedAccounts then (some marker, s)
  else
    let stored := { s with readMarkers := s.readMarkers.insert key marker }
    (s.readMarkers.lookup key,
      if s.readMarkerSlotHeld key then stored else stored.takeReadMarkerSlot key.1)

/-- Reserve `key` for a write now in flight. -/
def reserveReadMarker (s : State) (key : MarkerKey) : State :=
  let reserved := { s with
    pendingReadMarkers := s.pendingReadMarkers.insert key
      ((s.pendingReadMarkers.lookup key).getD 0 + 1) }
  if s.readMarkerSlotHeld key then reserved else reserved.takeReadMarkerSlot key.1

/-- One write for `key` has been answered. -/
def releaseReadMarker (s : State) (key : MarkerKey) :
    Except Panic (Except ReadMarkerNotReserved Unit × State) :=
  match s.pendingReadMarkers.lookup key with
  | none => .ok (.error {}, s)
  | some writes =>
    if 1 < writes then
      .ok (.ok (), { s with pendingReadMarkers := s.pendingReadMarkers.insert key (writes - 1) })
    else
      let released := { s with pendingReadMarkers := s.pendingReadMarkers.erase key }
      if (s.readMarkers.lookup key).isSome then .ok (.ok (), released)
      else (released.freeReadMarkerSlot key.1).map fun freed => (.ok (), freed)

/-- Drop a confirmed marker; a write still in flight keeps its slot. -/
def dropReadMarker (s : State) (key : MarkerKey) : Except Panic State :=
  let dropped := { s with readMarkers := s.readMarkers.erase key }
  if (s.pendingReadMarkers.lookup key).isSome then .ok dropped
  else dropped.freeReadMarkerSlot key.1

variable (casemap : CaseMapping)

/-- One row that storage maintenance deleted: its account, target and marker. -/
def expireReadMarker (s : State) : Bytes × Bytes × ℕ → Except Panic State
  | (account, target, marker) =>
    match s.readMarkers.lookup (casemap.casefold account, target) with
    | none => .ok s
    | some held =>
      if marker < held then .ok s else s.dropReadMarker (casemap.casefold account, target)

def expireReadMarkers (s : State) (markers : List (Bytes × Bytes × ℕ)) : Except Panic State :=
  markers.foldlM (expireReadMarker casemap) s

/-- Seed the mirror from the stored rows; the slots are counted anew. -/
def preloadReadMarkers (s : State) (rows : List (Bytes × Bytes × ℕ)) : State :=
  let pending := s.pendingReadMarkers.keys.map Prod.fst
  let counted := pending.foldl takeReadMarkerSlot { s with readMarkers := ∅, readMarkerSlots := ∅ }
  rows.foldl (fun s (account, target, marker) =>
    (s.storeReadMarker (casemap.casefold account, target) marker).2) counted

/-- The account was permanently deleted. -/
def forgetAccountReadMarkers (s : State) (account : Bytes) : Except Panic State :=
  let account := casemap.casefold account
  let forgotten := s.readMarkers.keys.filter fun key => key.1 = account
  forgotten.foldlM dropReadMarker { s with deletedAccounts := s.deletedAccounts.insert account }

end State

inductive Event
  | store (key : MarkerKey) (marker : ℕ)
  | reserve (key : MarkerKey)
  | release (key : MarkerKey)
  | expire (markers : List (Bytes × Bytes × ℕ))
  | preload (rows : List (Bytes × Bytes × ℕ))
  | delete (account : Bytes)

def Event.apply (casemap : CaseMapping) (s : State) : Event → Except Panic State
  | .store key marker => .ok (s.storeReadMarker key marker).2
  | .reserve key => .ok (s.reserveReadMarker key)
  | .release key => (s.releaseReadMarker key).map Prod.snd
  | .expire markers => s.expireReadMarkers casemap markers
  | .preload rows => .ok (s.preloadReadMarkers casemap rows)
  | .delete account => s.forgetAccountReadMarkers casemap account

def shard (casemap : CaseMapping) : System State Event where
  init := .init
  step s event := (event.apply casemap s).toOption

/-! ## The slots are counted -/

namespace State

/-- The keys with a confirmed marker or a write in flight. -/
def held (s : State) : Finset MarkerKey :=
  (s.readMarkers.keys ++ s.pendingReadMarkers.keys).toFinset

def Counted (s : State) : Prop :=
  Tallies Prod.fst s.held s.readMarkerSlots

variable {s : State} {key : MarkerKey}

theorem mem_held : key ∈ s.held ↔ key ∈ s.readMarkers ∨ key ∈ s.pendingReadMarkers := by
  simp [held, mem_keys]

theorem readMarkerSlotHeld_iff : s.readMarkerSlotHeld key = true ↔ key ∈ s.held := by
  rw [readMarkerSlotHeld, Bool.or_eq_true, lookup_isSome, lookup_isSome, mem_held]

section

variable (counted : s.Counted)
include counted

/-- A state that holds the same keys and counts the same. -/
theorem Counted.of_same {after : State} (held : ∀ key, key ∈ after.held ↔ key ∈ s.held)
    (slots : after.readMarkerSlots = s.readMarkerSlots) : after.Counted := by
  rw [Counted, slots, Finset.ext held]
  exact counted

/-- A slot is taken for a key that had none. -/
theorem Counted.take {after : State} (fresh : key ∉ s.held)
    (held : ∀ other, other ∈ after.held ↔ other = key ∨ other ∈ s.held)
    (slots : after.readMarkerSlots = s.readMarkerSlots) :
    (after.takeReadMarkerSlot key.1).Counted := by
  have more : after.held = insert key s.held :=
    Finset.ext fun other => (held other).trans Finset.mem_insert.symm
  have same : (after.takeReadMarkerSlot key.1).held = after.held := rfl
  rw [Counted, same, more, takeReadMarkerSlot, slots]
  exact Tallies.add counted fresh

/-- A key is held, and a slot is taken for it where it had none. -/
theorem Counted.hold {after : State}
    (held : ∀ other, other ∈ after.held ↔ other = key ∨ other ∈ s.held)
    (slots : after.readMarkerSlots = s.readMarkerSlots) :
    (if s.readMarkerSlotHeld key then after else after.takeReadMarkerSlot key.1).Counted := by
  split
  · rename_i isHeld
    have among := readMarkerSlotHeld_iff.mp isHeld
    exact counted.of_same
      (fun other => (held other).trans (or_iff_right_of_imp fun same => same ▸ among)) slots
  · rename_i fresh
    exact counted.take (fun among => fresh (readMarkerSlotHeld_iff.mpr among)) held slots

/-- A key is let go, and its slot is freed where nothing else keeps the key. -/
theorem Counted.letGo {after : State} (among : key ∈ s.held) (kept : Prop) [Decidable kept]
    (held : ∀ other, other ∈ after.held ↔ (other = key → kept) ∧ other ∈ s.held)
    (slots : after.readMarkerSlots = s.readMarkerSlots) :
    ∃ freed, (if kept then .ok after else after.freeReadMarkerSlot key.1) = .ok freed ∧
      freed.Counted ∧ freed.readMarkers = after.readMarkers := by
  split
  · rename_i isKept
    have same other := (held other).trans (and_iff_right fun _ => isKept)
    exact ⟨after, rfl, counted.of_same same slots, rfl⟩
  rename_i unkept
  have fewer : after.held = s.held.erase key := by
    ext other
    simpa [unkept] using held other
  obtain ⟨left, found⟩ := Tallies.lookup_of_mem counted among
  rw [freeReadMarkerSlot, slots, found]
  refine ⟨_, rfl, ?_, rfl⟩
  have same : ∀ slots, ({ after with readMarkerSlots := slots } : State).held = after.held :=
    fun _ => rfl
  rw [Counted, same, fewer]
  exact Tallies.remove counted among found

theorem Counted.storeReadMarker (key : MarkerKey) (marker : ℕ) :
    (s.storeReadMarker key marker).2.Counted := by
  unfold State.storeReadMarker
  split
  · exact counted
  refine counted.hold (fun other => ?_) rfl
  simp only [mem_held, mem_insert, or_assoc]

theorem Counted.reserveReadMarker (key : MarkerKey) : (s.reserveReadMarker key).Counted := by
  refine counted.hold (fun other => ?_) rfl
  simp only [mem_held, mem_insert]
  exact or_left_comm

theorem Counted.releaseReadMarker (key : MarkerKey) :
    ∃ result released, s.releaseReadMarker key = .ok (result, released) ∧ released.Counted := by
  unfold State.releaseReadMarker
  cases pending : s.pendingReadMarkers.lookup key with
  | none => exact ⟨_, _, rfl, counted⟩
  | some writes =>
    have isPending : key ∈ s.pendingReadMarkers :=
      lookup_isSome.mp (Option.isSome_iff_exists.mpr ⟨writes, pending⟩)
    dsimp only
    split
    · refine ⟨_, _, rfl, counted.of_same (fun other => ?_) rfl⟩
      rw [mem_held, mem_held, mem_insert]
      exact or_congr_right (or_iff_right_of_imp fun same => same ▸ isPending)
    have left (other : MarkerKey) : other ∈
        ({ s with pendingReadMarkers := s.pendingReadMarkers.erase key } : State).held ↔
          (other = key → (s.readMarkers.lookup key).isSome) ∧ other ∈ s.held := by
      rw [mem_held, mem_held, mem_erase, lookup_isSome]
      rcases eq_or_ne other key with rfl | apart
      · simp [isPending]
      · simp [apart]
    obtain ⟨freed, free, counted, -⟩ := counted.letGo (mem_held.mpr (.inr isPending)) _ left rfl
    refine ⟨.ok (), freed, ?_, counted⟩
    split
    · rename_i confirmed
      rw [if_pos confirmed] at free
      rw [Except.ok.inj free]
    · rename_i unconfirmed
      rw [if_neg unconfirmed] at free
      rw [free]
      rfl

/-- Dropping a confirmed marker succeeds and leaves the others. -/
theorem Counted.dropReadMarker (confirmed : key ∈ s.readMarkers) :
    ∃ dropped, s.dropReadMarker key = .ok dropped ∧ dropped.Counted ∧
      dropped.readMarkers = s.readMarkers.erase key := by
  refine counted.letGo (mem_held.mpr (.inl confirmed)) _ (fun other => ?_) rfl
  rw [mem_held, mem_held, mem_erase, lookup_isSome]
  rcases eq_or_ne other key with rfl | apart
  · simp [confirmed]
  · simp [apart]

end

variable {casemap : CaseMapping}

theorem Counted.expireReadMarkers (counted : s.Counted) (markers : List (Bytes × Bytes × ℕ)) :
    ∃ expired, s.expireReadMarkers casemap markers = .ok expired ∧ expired.Counted := by
  induction markers generalizing s with
  | nil => exact ⟨s, rfl, counted⟩
  | cons row rest ih =>
    have one : ∃ expired, s.expireReadMarker casemap row = .ok expired ∧ expired.Counted := by
      obtain ⟨account, target, marker⟩ := row
      unfold expireReadMarker
      dsimp only
      split
      · exact ⟨s, rfl, counted⟩
      rename_i held found
      split
      · exact ⟨s, rfl, counted⟩
      have confirmed : (casemap.casefold account, target) ∈ s.readMarkers :=
        lookup_isSome.mp (Option.isSome_iff_exists.mpr ⟨held, found⟩)
      obtain ⟨dropped, drop, counted, _⟩ := counted.dropReadMarker confirmed
      exact ⟨dropped, drop, counted⟩
    obtain ⟨expired, expire, counted⟩ := one
    obtain ⟨last, all, counted⟩ := ih counted
    refine ⟨last, ?_, counted⟩
    rw [State.expireReadMarkers, List.foldlM_cons, expire]
    exact all

theorem Counted.dropReadMarkers (counted : s.Counted) {keys : List MarkerKey} (distinct : keys.Nodup)
    (confirmed : ∀ key ∈ keys, key ∈ s.readMarkers) :
    ∃ dropped, keys.foldlM State.dropReadMarker s = .ok dropped ∧ dropped.Counted := by
  induction keys generalizing s with
  | nil => exact ⟨s, rfl, counted⟩
  | cons key rest ih =>
    obtain ⟨first, distinct⟩ := List.nodup_cons.mp distinct
    obtain ⟨here, later⟩ := List.forall_mem_cons.mp confirmed
    obtain ⟨dropped, drop, counted, markers⟩ := counted.dropReadMarker here
    have still : ∀ other ∈ rest, other ∈ dropped.readMarkers := by
      intro other among
      rw [markers, mem_erase]
      exact ⟨fun same => first (same ▸ among), later other among⟩
    obtain ⟨last, all, counted⟩ := ih counted distinct still
    refine ⟨last, ?_, counted⟩
    rw [List.foldlM_cons, drop]
    exact all

theorem Counted.forgetAccountReadMarkers (counted : s.Counted) (account : Bytes) :
    ∃ forgotten, s.forgetAccountReadMarkers casemap account = .ok forgotten ∧
      forgotten.Counted := by
  have marked : State.Counted { s with
      deletedAccounts := s.deletedAccounts.insert (casemap.casefold account) } :=
    counted.of_same (fun _ => Iff.rfl) rfl
  refine marked.dropReadMarkers (s.readMarkers.keys_nodup.filter _) fun key among => ?_
  exact mem_keys.mpr (List.mem_filter.mp among).1

/-- Counting keys that are not yet counted. -/
theorem tallies_foldl_take {keys : List MarkerKey} {done : Finset MarkerKey}
    (tallies : Tallies Prod.fst done s.readMarkerSlots) (distinct : keys.Nodup)
    (fresh : ∀ key ∈ keys, key ∉ done) :
    Tallies Prod.fst (done ∪ keys.toFinset)
      ((keys.map Prod.fst).foldl takeReadMarkerSlot s).readMarkerSlots := by
  induction keys generalizing s done with
  | nil => simpa using tallies
  | cons key rest ih =>
    obtain ⟨first, distinct⟩ := List.nodup_cons.mp distinct
    obtain ⟨here, later⟩ := List.forall_mem_cons.mp fresh
    have more : Tallies Prod.fst (insert key done) (s.takeReadMarkerSlot key.1).readMarkerSlots :=
      Tallies.add tallies here
    have all := ih more distinct fun other among isDone => ?_
    · rw [List.toFinset_cons, Finset.union_insert, ← Finset.insert_union]
      exact all
    · rcases Finset.mem_insert.mp isDone with rfl | isDone
      · exact first among
      · exact later other among isDone

theorem foldl_take_same (accounts : List Bytes) (s : State) :
    (accounts.foldl takeReadMarkerSlot s).readMarkers = s.readMarkers ∧
      (accounts.foldl takeReadMarkerSlot s).pendingReadMarkers = s.pendingReadMarkers := by
  induction accounts generalizing s with
  | nil => exact ⟨rfl, rfl⟩
  | cons account rest ih => exact ih (s.takeReadMarkerSlot account)

theorem counted_preloadReadMarkers (s : State) (rows : List (Bytes × Bytes × ℕ)) :
    (s.preloadReadMarkers casemap rows).Counted := by
  have cleared : ((s.pendingReadMarkers.keys.map Prod.fst).foldl takeReadMarkerSlot
      { s with readMarkers := ∅, readMarkerSlots := ∅ }).Counted := by
    obtain ⟨markers, pending⟩ := foldl_take_same (s.pendingReadMarkers.keys.map Prod.fst)
      { s with readMarkers := ∅, readMarkerSlots := ∅ }
    rw [Counted, held, markers, pending]
    have counts := tallies_foldl_take (s := { s with readMarkers := ∅, readMarkerSlots := ∅ })
      tallies_empty s.pendingReadMarkers.keys_nodup fun _ _ => Finset.notMem_empty _
    rw [Finset.empty_union] at counts
    exact counts
  rw [preloadReadMarkers]
  dsimp only
  generalize (s.pendingReadMarkers.keys.map Prod.fst).foldl takeReadMarkerSlot
    { s with readMarkers := ∅, readMarkerSlots := ∅ } = start at cleared
  induction rows generalizing start with
  | nil => exact cleared
  | cons row rest ih => exact ih _ (cleared.storeReadMarker _ _)

end State

/-- Every operation succeeds where the slots are counted, and leaves them so. -/
theorem State.Counted.apply {s : State} (counted : s.Counted) (casemap : CaseMapping) (event : Event) :
    ∃ after, event.apply casemap s = .ok after ∧ after.Counted := by
  cases event with
  | store key marker => exact ⟨_, rfl, counted.storeReadMarker key marker⟩
  | reserve key => exact ⟨_, rfl, counted.reserveReadMarker key⟩
  | release key =>
    obtain ⟨result, released, release, counted⟩ := counted.releaseReadMarker key
    exact ⟨released, by rw [Event.apply, release]; rfl, counted⟩
  | expire markers => exact counted.expireReadMarkers markers
  | preload rows => exact ⟨_, rfl, State.counted_preloadReadMarkers s rows⟩
  | delete account => exact counted.forgetAccountReadMarkers account

theorem counted_of_run {casemap : CaseMapping} {es : List Event} {s : State}
    (run : (shard casemap).Run System.anyStep es s) : s.Counted := by
  refine run.invariant (P := fun _ s => s.Counted) tallies_empty ?_
  intro _ s event _ counted _ step
  obtain ⟨after, applied, counted⟩ := counted.apply casemap event
  simp only [shard, applied] at step
  cases step
  exact counted

/-- In every state reached, the slots of an account are the targets it has a
confirmed marker or a write in flight for, no count is zero, and no operation
panics. -/
theorem slots_are_counted (casemap : CaseMapping) (es : List Event) (s : State)
    (run : (shard casemap).Run System.anyStep es s) :
    (∀ account, (s.readMarkerSlots.lookup account).getD 0 =
      ((s.readMarkers.keys ++ s.pendingReadMarkers.keys).toFinset.filter
        fun key => key.1 = account).card) ∧
    (∀ account, s.readMarkerSlots.lookup account ≠ some 0) ∧
    ∀ event : Event, ∃ after, event.apply casemap s = .ok after := by
  have counted := counted_of_run run
  refine ⟨Tallies.getD counted, fun account zero => ?_, fun event => ?_⟩
  · have count := counted account
    rw [zero] at count
    split at count
    · cases count
    · rename_i some_owned
      exact some_owned (Option.some.inj count).symm
  · obtain ⟨after, applied, _⟩ := counted.apply casemap event
    exact ⟨after, applied⟩

/-- A marker confirmed while the write of it is in flight. -/
def confirmed : State :=
  ((State.init.reserveReadMarker (ascii "a", ascii "#m")).storeReadMarker (ascii "a", ascii "#m") 5).2

theorem slots_are_counted_confirmed :
    (shard .ascii).Run System.anyStep
        [.reserve (ascii "a", ascii "#m"), .store (ascii "a", ascii "#m") 5] confirmed ∧
      confirmed.readMarkerSlots.lookup (ascii "a") = some 1 ∧
      (confirmed.readMarkerSlots.lookup (ascii "a")).getD 0 =
        ((confirmed.readMarkers.keys ++ confirmed.pendingReadMarkers.keys).toFinset.filter
          fun key => key.1 = ascii "a").card := by
  have run : (shard .ascii).Run System.anyStep
      [.reserve (ascii "a", ascii "#m"), .store (ascii "a", ascii "#m") 5] confirmed :=
    System.run_of_exec rfl
  exact ⟨run, by decide, (slots_are_counted .ascii _ confirmed run).1 (ascii "a")⟩

end E6irc.MarkerSlots
