import E6irc.Base.Run
import E6irc.History.Recency
import E6irc.History.Ring

/-!
# The hot history store

`HotHistory` of `core/hot_history.rs`: one ring per channel or conversation,
under one least-recently-active cap on rings and one on bytes.  Rings come and
go; a ring's memory of what it shed goes with it.

`record` is everything pushed for a key that was not erased on request.
`hotHistory_always_newest_iff` says exactly which runs keep every ring the newest
part of its record: those in which no push puts an entry before one its ring
does not hold.
-/

namespace E6irc

open Base List HistoryRing Recency HistoryRow

/-- A channel's name, or the two identities of a conversation joined by `!`. -/
structure HistoryKey where
  text : Bytes
deriving DecidableEq, Repr

namespace HistoryKey

/-- The two identities of a conversation key, `none` for a channel's. -/
def participants (key : HistoryKey) : Option (Bytes × Bytes) :=
  if key.text.head? = some (byte '#') then none else splitOnce (byte '!') key.text

def identities (key : HistoryKey) : List Bytes :=
  key.participants.elim [] fun pair => [pair.1, pair.2]

end HistoryKey

structure HotHistoryBounds where
  rings : ℕ
  ringBytes : ℕ
  bytes : ℕ

/-- Identity to the conversation keys it takes part in. -/
abbrev Conversations := AList fun _ : Bytes => List HistoryKey

namespace Conversations

def keysOf (index : Conversations) (identity : Bytes) : List HistoryKey :=
  (index.lookup identity).getD []

def add (key : HistoryKey) (index : Conversations) (identity : Bytes) : Conversations :=
  index.insert identity ((index.keysOf identity).insert key)

def drop (key : HistoryKey) (index : Conversations) (identity : Bytes) : Conversations :=
  match index.lookup identity with
  | none => index
  | some keys =>
    let keys := keys.filter (· ≠ key)
    if keys = [] then index.erase identity else index.insert identity keys

variable {index : Conversations} {key other : HistoryKey} {identity identity' : Bytes}

theorem mem_keysOf_add :
    other ∈ (index.add key identity').keysOf identity ↔
      other ∈ index.keysOf identity ∨ identity = identity' ∧ other = key := by
  by_cases same : identity = identity'
  · subst same
    simp [add, keysOf, mem_insert_iff, or_comm]
  · simp [add, keysOf, AList.lookup_insert_ne same, same]

theorem keysOf_drop :
    (index.drop key identity').keysOf identity =
      if identity = identity' then (index.keysOf identity).filter (· ≠ key)
      else index.keysOf identity := by
  unfold drop
  cases held : index.lookup identity' with
  | none =>
    by_cases same : identity = identity'
    · subst same
      simp [keysOf, held]
    · simp [same]
  | some keys =>
    by_cases same : identity = identity'
    · subst same
      dsimp only
      split
      · next gone => simp only [keysOf, AList.lookup_erase, held, if_true, Option.getD_none,
          Option.getD_some, gone]
      · simp only [keysOf, AList.lookup_insert, held, if_true, Option.getD_some]
    · dsimp only
      split
      · simp [keysOf, AList.lookup_erase_ne same]
      · simp [keysOf, AList.lookup_insert_ne same]

theorem mem_keysOf_drop :
    other ∈ (index.drop key identity').keysOf identity ↔
      other ∈ index.keysOf identity ∧ ¬ (identity = identity' ∧ other = key) := by
  rw [keysOf_drop]
  by_cases same : identity = identity' <;> simp [same]

theorem mem_keysOf_addAll (identities : List Bytes) :
    other ∈ (identities.foldl (add key) index).keysOf identity ↔
      other ∈ index.keysOf identity ∨ identity ∈ identities ∧ other = key := by
  induction identities generalizing index with
  | nil => simp
  | cons first rest ih =>
    rw [foldl_cons, ih, mem_keysOf_add, mem_cons]
    tauto

theorem mem_keysOf_dropAll (identities : List Bytes) :
    other ∈ (identities.foldl (drop key) index).keysOf identity ↔
      other ∈ index.keysOf identity ∧ ¬ (identity ∈ identities ∧ other = key) := by
  induction identities generalizing index with
  | nil => simp
  | cons first rest ih =>
    rw [foldl_cons, ih, mem_keysOf_drop, mem_cons]
    tauto

end Conversations

structure HotHistory where
  rings : AList fun _ : HistoryKey => HistoryRing
  recency : Recency HistoryKey
  conversations : Conversations
  bytes : ℕ

namespace HotHistory

def empty : HotHistory := ⟨∅, .empty, ∅, 0⟩

def insert (hot : HotHistory) (key : HistoryKey) (ring : HistoryRing) : HotHistory :=
  { hot with
    conversations := key.identities.foldl (Conversations.add key) hot.conversations
    rings := hot.rings.insert key ring }

/-- Drop the ring and its index entries, not its recency slot. -/
def forgetRing (hot : HotHistory) (key : HistoryKey) : Bool × HotHistory :=
  match hot.rings.lookup key with
  | none => (false, hot)
  | some ring =>
    (true,
      { hot with
        rings := hot.rings.erase key
        bytes := hot.bytes - ring.bytes
        conversations := key.identities.foldl (Conversations.drop key) hot.conversations })

/-- The part of `push` before any eviction: the entry goes into `key`'s ring,
created if absent, and the key becomes the most recently active. -/
def append (hot : HotHistory) (key : HistoryKey) (entry : HistoryRow) (wholeRecord : Bool)
    (bounds : HotHistoryBounds) : HotHistory :=
  let (hot, held) :=
    match hot.rings.lookup key with
    | some ring =>
      let pushed := ring.push entry bounds.ringBytes
      ({ hot with bytes := hot.bytes - ring.bytes, rings := hot.rings.insert key pushed },
        pushed.bytes)
    | none =>
      let ring := (new wholeRecord).push entry bounds.ringBytes
      (hot.insert key ring, ring.bytes)
  { hot with bytes := hot.bytes + held, recency := hot.recency.touch key }

def overBounds (hot : HotHistory) (bounds : HotHistoryBounds) : Bool :=
  bounds.rings < hot.recency.len || (bounds.bytes < hot.bytes && 1 < hot.recency.len)

/-- The eviction loop, at most `fuel` rounds: every round forgets a key, so the
number of keys is enough. -/
def evictOver (bounds : HotHistoryBounds) : ℕ → HotHistory → HotHistory × List HistoryKey
  | 0, hot => (hot, [])
  | fuel + 1, hot =>
    if hot.overBounds bounds then
      match hot.recency.popOldest with
      | (some cold, recency) =>
        let (hot, evicted) := evictOver bounds fuel ({ hot with recency }.forgetRing cold).2
        (hot, cold :: evicted)
      | (none, recency) => ({ hot with recency }, [])
    else (hot, [])

/-- Append to `key`'s ring, then evict least recently active rings over the
bounds.  The evicted keys are returned. -/
def push (hot : HotHistory) (key : HistoryKey) (entry : HistoryRow) (wholeRecord : Bool)
    (bounds : HotHistoryBounds) : HotHistory × List HistoryKey :=
  let hot := hot.append key entry wholeRecord bounds
  evictOver bounds hot.recency.len hot

def markIncomplete (hot : HotHistory) (key : HistoryKey) : HotHistory :=
  match hot.rings.lookup key with
  | some ring => { hot with rings := hot.rings.insert key { ring with complete := false } }
  | none => hot

def remove (hot : HotHistory) (key : HistoryKey) : Bool × HotHistory :=
  { hot with recency := (hot.recency.remove key).2 }.forgetRing key

def forgetIdentity (hot : HotHistory) (identity : Bytes) : HotHistory :=
  (hot.conversations.keysOf identity).foldl (fun hot key => (hot.remove key).2) hot

/-! ## The store's own invariant -/

/-- The recency slots and the conversation index follow the rings, and every
ring is sound. -/
structure Sound (hot : HotHistory) : Prop where
  recency : hot.recency.Sound
  live : ∀ key, key ∈ hot.recency.live ↔ key ∈ hot.rings
  rings : ∀ key ring, hot.rings.lookup key = some ring → ring.Sound
  indexed : ∀ identity key, key ∈ hot.conversations.keysOf identity ↔
    key ∈ hot.rings ∧ identity ∈ key.identities

theorem sound_empty : empty.Sound where
  recency := Recency.sound_empty
  live key := by simp [empty, Recency.empty, Recency.live]
  rings key ring held := by simp [empty] at held
  indexed identity key := by simp [empty, Conversations.keysOf]

variable {hot : HotHistory} {key : HistoryKey}

/-- Dropping a key: its ring, its slot and its index entries go, everything else
stays. -/
structure Drops (key : HistoryKey) (hot hot' : HotHistory) : Prop where
  sound : hot'.Sound
  rings : ∀ other, hot'.rings.lookup other = if other = key then none else hot.rings.lookup other
  live : hot'.recency.live = hot.recency.live.erase key

/-- Forgetting the ring of a key whose slot has been given up. -/
theorem Sound.drops_forgetRing (sound : hot.Sound) {recency : Recency HistoryKey}
    (slots : recency.Sound) (live : recency.live = hot.recency.live.erase key) :
    Drops key hot ({ hot with recency }.forgetRing key).2 := by
  have slot (other : HistoryKey) : other ∈ recency.live ↔ other ≠ key ∧ other ∈ hot.rings := by
    rw [live, (live_nodup sound.recency).mem_erase_iff, sound.live]
  unfold forgetRing
  cases held : hot.rings.lookup key with
  | none =>
    have absent : key ∉ hot.rings := AList.lookup_eq_none.mp held
    refine ⟨⟨slots, fun other => ?_, sound.rings, sound.indexed⟩, fun other => ?_, live⟩
    · rw [slot]
      exact ⟨And.right, fun mem => ⟨fun same => absent (same ▸ mem), mem⟩⟩
    by_cases same : other = key
    · subst same
      simpa using held
    · simp [same]
  | some ring =>
    refine ⟨⟨slots, fun other => ?_, fun other ring' held' => ?_, fun identity other => ?_⟩,
      fun other => ?_, live⟩
    · rw [slot, AList.mem_erase]
    · exact sound.rings other ring' (of_lookup_erase held').2
    · rw [Conversations.mem_keysOf_dropAll, sound.indexed, AList.mem_erase]
      by_cases same : other = key
      · subst same
        tauto
      · tauto
    · by_cases same : other = key
      · subst same
        simp
      · simp [same, AList.lookup_erase_ne same]

theorem Sound.drops_remove (sound : hot.Sound) (key : HistoryKey) :
    Drops key hot (hot.remove key).2 :=
  sound.drops_forgetRing (sound.recency.remove key) (live_remove sound.recency key)

theorem Sound.forgetIdentity (sound : hot.Sound) (identity : Bytes) :
    (hot.forgetIdentity identity).Sound ∧ ∀ other,
      (hot.forgetIdentity identity).rings.lookup other =
        if identity ∈ other.identities then none else hot.rings.lookup other := by
  -- Removing any list of keys, one after another, leaves the others.
  have removeAll (keys : List HistoryKey) : ∀ hot : HotHistory, hot.Sound →
      (keys.foldl (fun hot key => (hot.remove key).2) hot).Sound ∧ ∀ other,
        (keys.foldl (fun hot key => (hot.remove key).2) hot).rings.lookup other =
          if other ∈ keys then none else hot.rings.lookup other := by
    induction keys with
    | nil => exact fun hot sound => ⟨sound, by simp⟩
    | cons first rest ih =>
      intro hot sound
      have drops := sound.drops_remove first
      obtain ⟨sound', rings⟩ := ih _ drops.sound
      refine ⟨sound', fun other => ?_⟩
      rw [foldl_cons, rings, drops.rings]
      by_cases mem : other ∈ rest
      · simp [mem]
      · simp [mem]
  obtain ⟨sound', rings⟩ := removeAll (hot.conversations.keysOf identity) hot sound
  refine ⟨sound', fun other => (rings other).trans ?_⟩
  simp only [sound.indexed]
  by_cases held : other ∈ hot.rings
  · simp [held]
  · simp [AList.lookup_eq_none.mpr held]

theorem Sound.markIncomplete (sound : hot.Sound) (key : HistoryKey) :
    (hot.markIncomplete key).Sound := by
  unfold HotHistory.markIncomplete
  cases held : hot.rings.lookup key with
  | none => exact sound
  | some ring =>
    have mem : key ∈ hot.rings := AList.lookup_isSome.mp (by simp [held])
    have same (other : HistoryKey) (ring : HistoryRing) :
        other ∈ hot.rings.insert key ring ↔ other ∈ hot.rings := by
      rw [AList.mem_insert]
      exact ⟨fun h => h.elim (fun eq => eq ▸ mem) id, .inr⟩
    refine ⟨sound.recency, fun other => ?_, fun other ring' held' => ?_, fun identity other => ?_⟩
    · rw [same, sound.live]
    · rcases of_lookup_insert held' with ⟨rfl, rfl⟩ | ⟨-, before⟩
      · have ringSound := sound.rings other ring held
        exact ⟨ringSound.placed, ringSound.above, by simp⟩
      · exact sound.rings other ring' before
    · rw [sound.indexed, same]

/-! ## Appending and evicting -/

/-- The ring a push to `key` appends to. -/
def ringFor (hot : HotHistory) (key : HistoryKey) (wholeRecord : Bool) : HistoryRing :=
  (hot.rings.lookup key).getD (.new wholeRecord)

section Append

variable (key) (entry : HistoryRow) (wholeRecord : Bool) (bounds : HotHistoryBounds)

theorem append_rings :
    (hot.append key entry wholeRecord bounds).rings =
      hot.rings.insert key ((hot.ringFor key wholeRecord).push entry bounds.ringBytes) := by
  cases held : hot.rings.lookup key <;> simp [append, ringFor, held, insert]

theorem append_recency :
    (hot.append key entry wholeRecord bounds).recency = hot.recency.touch key := by
  cases held : hot.rings.lookup key <;> simp [append, held, insert]

theorem mem_append_conversations (sound : hot.Sound) {identity : Bytes} {other : HistoryKey} :
    other ∈ (hot.append key entry wholeRecord bounds).conversations.keysOf identity ↔
      other ∈ hot.conversations.keysOf identity ∨ identity ∈ key.identities ∧ other = key := by
  cases held : hot.rings.lookup key with
  | none => simp [append, held, insert, Conversations.mem_keysOf_addAll]
  | some ring =>
    have mem : key ∈ hot.rings := AList.lookup_isSome.mp (by simp [held])
    simp only [append, held]
    refine ⟨.inl, fun h => h.elim id ?_⟩
    rintro ⟨takesPart, rfl⟩
    exact (sound.indexed identity other).mpr ⟨mem, takesPart⟩

theorem Sound.ringFor (sound : hot.Sound) : (hot.ringFor key wholeRecord).Sound := by
  unfold HotHistory.ringFor
  cases held : hot.rings.lookup key with
  | none => exact sound_new wholeRecord
  | some ring => exact sound.rings key ring held

theorem Sound.append (sound : hot.Sound) : (hot.append key entry wholeRecord bounds).Sound := by
  refine ⟨?_, fun other => ?_, fun other ring held => ?_, fun identity other => ?_⟩
  · rw [append_recency]
    exact sound.recency.touch key
  · rw [append_recency, append_rings, live_touch sound.recency, AList.mem_insert,
      mem_append, (live_nodup sound.recency).mem_erase_iff, sound.live, mem_singleton]
    by_cases same : other = key <;> simp [same]
  · rw [append_rings] at held
    rcases of_lookup_insert held with ⟨rfl, rfl⟩ | ⟨-, before⟩
    · exact (sound.ringFor other wholeRecord).push entry bounds.ringBytes
    · exact sound.rings other ring before
  · rw [mem_append_conversations key entry wholeRecord bounds sound, append_rings, AList.mem_insert,
      sound.indexed]
    by_cases same : other = key
    · subst same
      tauto
    · tauto

end Append

/-- Evicting a list of keys, the least recently active ones. -/
structure Evicts (evicted : List HistoryKey) (hot hot' : HotHistory) : Prop where
  sound : hot'.Sound
  live : hot.recency.live = evicted ++ hot'.recency.live
  rings : ∀ other,
    hot'.rings.lookup other = if other ∈ evicted then none else hot.rings.lookup other

/-- One round of the loop: the head of the recency order goes. -/
theorem Sound.pops (sound : hot.Sound) (some_held : hot.recency.live ≠ []) :
    ∃ cold recency, hot.recency.popOldest = (some cold, recency) ∧
      hot.recency.live.head? = some cold ∧ Drops cold hot ({ hot with recency }.forgetRing cold).2 := by
  obtain ⟨cold, rest, split⟩ := exists_cons_of_ne_nil some_held
  obtain ⟨slots, head, tail⟩ := popOldest_eq sound.recency
  rw [split] at head tail
  refine ⟨cold, hot.recency.popOldest.2, Prod.ext head rfl, by simp [split], ?_⟩
  exact sound.drops_forgetRing slots (by simp [tail, split])

/-- The loop evicts from the least recently active end.  It leaves a key unless
no ring at all is allowed, and then it leaves none. -/
theorem Sound.evictOver (bounds : HotHistoryBounds) (fuel : ℕ) :
    ∀ {hot : HotHistory}, hot.Sound →
      Evicts (evictOver bounds fuel hot).2 hot (evictOver bounds fuel hot).1 ∧
      (0 < bounds.rings → hot.recency.live ≠ [] → (evictOver bounds fuel hot).1.recency.live ≠ []) ∧
      (bounds.rings = 0 → hot.recency.len ≤ fuel →
        (evictOver bounds fuel hot).1.recency.live = []) := by
  induction fuel with
  | zero =>
    intro hot sound
    refine ⟨⟨sound, rfl, fun _ => rfl⟩, fun _ some_held => some_held, fun _ none => ?_⟩
    rw [← length_live sound.recency, Nat.le_zero] at none
    exact eq_nil_of_length_eq_zero none
  | succ fuel ih =>
    intro hot sound
    have length := length_live sound.recency
    by_cases excess : hot.overBounds bounds = true
    · have bound : bounds.rings < hot.recency.len ∨
          bounds.bytes < hot.bytes ∧ 1 < hot.recency.len := by
        simpa [overBounds] using excess
      have some_held : hot.recency.live ≠ [] := by
        rintro none
        rw [none, length_nil] at length
        omega
      obtain ⟨cold, recency, popped, head, drops⟩ := sound.pops some_held
      obtain ⟨rest, split⟩ : ∃ rest, hot.recency.live = cold :: rest :=
        ⟨_, eq_cons_of_mem_head? head⟩
      have live' := drops.live
      rw [split, erase_cons_head] at live'
      have length' := length_live drops.sound.recency
      rw [live'] at length'
      rw [split, length_cons] at length
      obtain ⟨evicts, leaves, empties⟩ := ih drops.sound
      simp only [HotHistory.evictOver, excess, if_true, popped]
      refine ⟨⟨evicts.sound, ?_, fun other => ?_⟩, fun allowed _ => leaves allowed ?_,
        fun none enough => empties none (by omega)⟩
      · rw [split, cons_append, ← evicts.live, live']
      · rw [evicts.rings, drops.rings]
        by_cases same : other = cold <;> simp [same]
      rw [live']
      rintro rfl
      rw [length_nil] at length
      omega
    · have within : ¬ bounds.rings < hot.recency.len := by
        simp [overBounds] at excess
        omega
      simp only [HotHistory.evictOver, excess, Bool.false_eq_true, if_false]
      refine ⟨⟨sound, rfl, by simp⟩, fun _ some_held => some_held, fun none _ => ?_⟩
      exact eq_nil_of_length_eq_zero (by omega)

section Push

variable (key) (entry : HistoryRow) (wholeRecord : Bool) (bounds : HotHistoryBounds)

theorem append_live (sound : hot.Sound) :
    (hot.append key entry wholeRecord bounds).recency.live =
      hot.recency.live.erase key ++ [key] := by
  rw [append_recency, live_touch sound.recency]

theorem Sound.push_evicts (sound : hot.Sound) :
    Evicts (hot.push key entry wholeRecord bounds).2 (hot.append key entry wholeRecord bounds)
        (hot.push key entry wholeRecord bounds).1 ∧
      (0 < bounds.rings → (hot.push key entry wholeRecord bounds).1.recency.live ≠ []) ∧
      (bounds.rings = 0 → (hot.push key entry wholeRecord bounds).1.recency.live = []) := by
  obtain ⟨evicts, leaves, empties⟩ := (sound.append key entry wholeRecord bounds).evictOver
    bounds (hot.append key entry wholeRecord bounds).recency.len
  exact ⟨evicts, fun allowed => leaves allowed (by simp [append_live, sound]),
    fun none => empties none le_rfl⟩

/-- The key just appended to is the last of the order, so only a loop that leaves
nothing evicts it. -/
theorem Sound.mem_evicted_iff (sound : hot.Sound) :
    key ∈ (hot.push key entry wholeRecord bounds).2 ↔ bounds.rings = 0 := by
  obtain ⟨evicts, leaves, empties⟩ := sound.push_evicts key entry wholeRecord bounds
  have order := evicts.live
  rw [append_live key entry wholeRecord bounds sound] at order
  constructor
  · intro mem
    by_contra allowed
    obtain ⟨front, last, split⟩ :=
      (eq_nil_or_concat _).resolve_left (leaves (Nat.pos_of_ne_zero allowed))
    rw [split, concat_eq_append, ← append_assoc] at order
    obtain ⟨before, -⟩ := append_inj' order rfl
    have once := live_nodup (sound.append key entry wholeRecord bounds).recency
    rw [append_live key entry wholeRecord bounds sound, before] at once
    exact (nodup_append.mp once).2.2 key (mem_append_left _ mem) key (by simp) rfl
  · intro none
    rw [empties none, append_nil] at order
    rw [← order]
    simp

/-- What a push leaves: the entry in its key's ring, unless no ring is allowed,
and every other ring as it was or evicted. -/
theorem Sound.push (sound : hot.Sound) :
    (hot.push key entry wholeRecord bounds).1.Sound ∧
      ((hot.push key entry wholeRecord bounds).1.rings.lookup key =
        if bounds.rings = 0 then none
        else some ((hot.ringFor key wholeRecord).push entry bounds.ringBytes)) ∧
      ∀ other ≠ key, ∀ ring, (hot.push key entry wholeRecord bounds).1.rings.lookup other = some ring →
        hot.rings.lookup other = some ring := by
  obtain ⟨evicts, -, -⟩ := sound.push_evicts key entry wholeRecord bounds
  refine ⟨evicts.sound, ?_, fun other apart ring held => ?_⟩
  · rw [evicts.rings key, append_rings, AList.lookup_insert]
    simp only [sound.mem_evicted_iff]
  rw [evicts.rings other, append_rings, AList.lookup_insert_ne apart] at held
  split at held
  · cases held
  · exact held

end Push

/-- The key has a ring with this entry in it. -/
def Holds (hot : HotHistory) (key : HistoryKey) (entry : HistoryRow) : Prop :=
  ∃ ring, hot.rings.lookup key = some ring ∧ entry ∈ ring.entries

theorem not_holds_empty {key : HistoryKey} {entry : HistoryRow} : ¬ empty.Holds key entry := by
  rintro ⟨ring, held, -⟩
  simp [empty] at held

/-- A push brings in nothing but its entry, under its key. -/
theorem Sound.holds_of_push (sound : hot.Sound) {pushed : HistoryKey} {arrival : HistoryRow}
    {wholeRecord : Bool} {bounds : HotHistoryBounds} {entry : HistoryRow}
    (held : (hot.push pushed arrival wholeRecord bounds).1.Holds key entry) :
    hot.Holds key entry ∨ key = pushed ∧ entry = arrival := by
  obtain ⟨ring, found, mem⟩ := held
  obtain ⟨-, here, elsewhere⟩ := sound.push pushed arrival wholeRecord bounds
  rcases eq_or_ne key pushed with rfl | apart
  · rw [here] at found
    split at found
    · cases found
    cases found
    rcases (sound.ringFor key wholeRecord).mem_push mem with same | before
    · exact .inr ⟨rfl, same⟩
    unfold HotHistory.ringFor at before
    cases old : hot.rings.lookup key with
    | none => simp [old, new] at before
    | some ring => exact .inl ⟨ring, old, by simpa [old] using before⟩
  · exact .inl ⟨ring, elsewhere key apart ring found, mem⟩

/-- A released identity has no ring left, and no other ring changes. -/
theorem Sound.holds_forgetIdentity_iff (sound : hot.Sound) {identity : Bytes} {entry : HistoryRow} :
    (hot.forgetIdentity identity).Holds key entry ↔
      hot.Holds key entry ∧ identity ∉ key.identities := by
  unfold Holds
  rw [(sound.forgetIdentity identity).2 key]
  split <;> rename_i named <;> simp [named]

end HotHistory

/-! ## Runs of the store -/

inductive HotOp
  | push (key : HistoryKey) (entry : HistoryRow) (wholeRecord : Bool) (bounds : HotHistoryBounds)
  | remove (key : HistoryKey)
  | forgetIdentity (identity : Bytes)
  | markIncomplete (key : HistoryKey)

def HotHistory.apply (hot : HotHistory) : HotOp → HotHistory
  | .push key entry wholeRecord bounds => (hot.push key entry wholeRecord bounds).1
  | .remove key => (hot.remove key).2
  | .forgetIdentity identity => hot.forgetIdentity identity
  | .markIncomplete key => hot.markIncomplete key

def hotHistory : System HotHistory HotOp where
  init := .empty
  step hot op := some (hot.apply op)

theorem HotHistory.Sound.apply {hot : HotHistory} (sound : hot.Sound) (op : HotOp) :
    (hot.apply op).Sound := by
  cases op with
  | push key entry wholeRecord bounds => exact (sound.push key entry wholeRecord bounds).1
  | remove key => exact (sound.drops_remove key).sound
  | forgetIdentity identity => exact (sound.forgetIdentity identity).1
  | markIncomplete key => exact sound.markIncomplete key

/-- What an operation does to the record of `key`: pushes add in order, requests
to erase erase. -/
def recordAfter (key : HistoryKey) (record : List HistoryRow) : HotOp → List HistoryRow
  | .push pushed entry _ _ =>
    if pushed = key then insertPlaced place entry record else record
  | .remove removed => if removed = key then [] else record
  | .forgetIdentity identity => if identity ∈ key.identities then [] else record
  | .markIncomplete _ => record

/-- Everything pushed for `key` since the store was created and not erased. -/
def record (ops : List HotOp) (key : HistoryKey) : List HistoryRow :=
  ops.foldl (recordAfter key) []

theorem record_snoc (ops : List HotOp) (op : HotOp) (key : HistoryKey) :
    record (ops ++ [op]) key = recordAfter key (record ops key) op := by
  simp [record]

theorem placed_record (ops : List HotOp) (key : HistoryKey) :
    Placed place (record ops key) := by
  induction ops using List.reverseRecOn with
  | nil => exact List.Pairwise.nil
  | append_singleton ops op ih =>
    rw [record_snoc]
    cases op with
    | push pushed entry wholeRecord bounds =>
      simp only [recordAfter]
      split
      · exact ih.insertPlaced
      · exact ih
    | remove removed | forgetIdentity identity =>
      simp only [recordAfter]
      split
      · exact List.Pairwise.nil
      · exact ih
    | markIncomplete marked => exact ih

/-- The ring holds the newest part of the record, all of it if it says so. -/
structure HistoryRing.Newest (record : List HistoryRow) (ring : HistoryRing) : Prop where
  suffix : ring.entries <:+ record
  whole : ring.complete = true → ring.entries = record

/-- Every ring is the newest part of its key's record. -/
def AllNewest (ops : List HotOp) (hot : HotHistory) : Prop :=
  ∀ key ring, hot.rings.lookup key = some ring → ring.Newest (record ops key)

/-- What of the record a ring that is its newest part does not hold. -/
def missing (record held : List HistoryRow) : List HistoryRow :=
  record.take (record.length - held.length)

theorem missing_append (lost held : List HistoryRow) : missing (lost ++ held) held = lost := by
  simp [missing]

/-- A push keeps the ring the newest part of its record exactly when the ring
turns the entry away, sheds something for it, or misses nothing placed after it. -/
theorem HistoryRing.Newest.push_iff {ring : HistoryRing} {rows : List HistoryRow}
    (newest : ring.Newest rows) (sound : ring.Sound) (placed : Placed place rows)
    (entry : HistoryRow) (budget : ℕ) :
    (ring.push entry budget).Newest (insertPlaced place entry rows) ↔
      ring.refuses entry = true ∨ (ring.withEntry entry).overBounds budget = true ∨
        ∀ a ∈ missing rows ring.entries, a.place ≤ entry.place := by
  obtain ⟨lost, rfl⟩ := newest.suffix
  rw [missing_append]
  by_cases refused : ring.refuses entry = true
  · refine iff_of_true ?_ (.inl refused)
    obtain ⟨shed, remembered, lt⟩ := refuses_iff.mp refused
    have older : ∀ held ∈ ring.entries, entry.place < held.place := fun held mem =>
      lt.trans_le (sound.above shed remembered held mem)
    rw [push_of_refuses refused, insertPlaced_append_of_lt older]
    refine ⟨suffix_append _ _, fun complete => ?_⟩
    simp [sound.uncut complete] at remembered
  obtain ⟨k, sheds, shed_iff⟩ := push_sheds (Bool.eq_false_iff.mpr refused) budget
  have entries := sheds.entries
  rw [withEntry_entries sound.placed] at entries
  have suffix_iff := drop_insertPlaced_suffix_iff (x := entry) placed k
  rw [← entries, shed_iff] at suffix_iff
  simp only [refused, Bool.false_eq_true, false_or]
  refine ⟨fun newest' => (suffix_iff.mp newest'.suffix).symm, fun lands =>
    ⟨suffix_iff.mpr lands.symm, fun complete => ?_⟩⟩
  -- Still complete: nothing was shed, and before the push nothing was missing.
  have none : k = 0 := Nat.eq_zero_of_not_pos fun pos => by simp [sheds.incomplete pos] at complete
  subst none
  rw [sheds.unchanged rfl] at complete
  have all : lost = [] := by simpa using newest.whole complete
  rw [entries, all, nil_append, drop_zero]

theorem HistoryRing.newest_push_new_iff {rows : List HistoryRow}
    (placed : Placed place rows) (entry : HistoryRow) (wholeRecord : Bool) (budget : ℕ) :
    ((new wholeRecord).push entry budget).Newest (insertPlaced place entry rows) ↔
      (∀ a ∈ rows, a.place ≤ entry.place) ∧ (wholeRecord = true → rows = []) := by
  have taken : (new wholeRecord).refuses entry = false := rfl
  obtain ⟨k, sheds, shed_iff⟩ := push_sheds taken budget
  have within : ((new wholeRecord).withEntry entry).overBounds budget = false := by
    simp [withEntry, new, overBounds, historyRingCap, rposition]
  have none : k = 0 := Nat.eq_zero_of_not_pos fun pos => by simp [within] at shed_iff; omega
  subst none
  have entries : ((new wholeRecord).push entry budget).entries = [entry] := by
    rw [sheds.unchanged rfl]
    rfl
  have complete : ((new wholeRecord).push entry budget).complete = wholeRecord := by
    rw [sheds.unchanged rfl]
    rfl
  have noneHeld : Placed place (rows ++ []) := by simpa using placed
  have suffix_iff := drop_insertPlaced_suffix_iff (x := entry) noneHeld 0
  simp only [insertPlaced_nil, drop_zero, append_nil, lt_irrefl, or_false] at suffix_iff
  constructor
  · intro newest
    refine ⟨suffix_iff.mp (entries ▸ newest.suffix), fun whole => ?_⟩
    have same := congrArg List.length (newest.whole (complete.trans whole))
    rw [entries, length_insertPlaced] at same
    exact eq_nil_of_length_eq_zero (by simpa using same)
  · rintro ⟨below, nothing⟩
    refine ⟨entries ▸ suffix_iff.mpr below, fun whole => ?_⟩
    rw [entries, nothing (complete ▸ whole), insertPlaced_nil]

/-- When an operation keeps every ring the newest part of its record.  Only a
push can break it, by putting an entry before one its ring does not hold: one
lost with an evicted ring. -/
def Lands (ops : List HotOp) (hot : HotHistory) : HotOp → Prop
  | .push key entry wholeRecord bounds =>
    bounds.rings = 0 ∨
      match hot.rings.lookup key with
      | none => (∀ a ∈ record ops key, a.place ≤ entry.place) ∧
          (wholeRecord = true → record ops key = [])
      | some ring => ring.refuses entry = true ∨
          (ring.withEntry entry).overBounds bounds.ringBytes = true ∨
          ∀ a ∈ missing (record ops key) ring.entries, a.place ≤ entry.place
  | _ => True

variable {ops : List HotOp} {hot : HotHistory}

theorem AllNewest.push_iff (sound : hot.Sound) (newest : AllNewest ops hot) (key : HistoryKey)
    (entry : HistoryRow) (wholeRecord : Bool) (bounds : HotHistoryBounds) :
    AllNewest (ops ++ [.push key entry wholeRecord bounds])
        (hot.push key entry wholeRecord bounds).1 ↔
      Lands ops hot (.push key entry wholeRecord bounds) := by
  obtain ⟨-, pushed, others⟩ := sound.push key entry wholeRecord bounds
  -- Only the key pushed to is in question.
  have here : AllNewest (ops ++ [.push key entry wholeRecord bounds])
      (hot.push key entry wholeRecord bounds).1 ↔
      (bounds.rings = 0 ∨ ((hot.ringFor key wholeRecord).push entry bounds.ringBytes).Newest
        (insertPlaced place entry (record ops key))) := by
    constructor
    · intro all
      by_cases none : bounds.rings = 0
      · exact .inl none
      · have newest' := all key _ (pushed.trans (if_neg none))
        rw [record_snoc, recordAfter, if_pos rfl] at newest'
        exact .inr newest'
    · intro lands other ring held
      rw [record_snoc, recordAfter]
      by_cases same : other = key
      · subst same
        rw [pushed] at held
        split at held
        · cases held
        · next allowed =>
            cases held
            simpa using lands.resolve_left allowed
      · rw [if_neg (Ne.symm same)]
        exact newest other ring (others other same ring held)
  rw [here, Lands]
  refine or_congr_right ?_
  cases held : hot.rings.lookup key with
  | none =>
    simp only [HotHistory.ringFor, held, Option.getD_none]
    exact newest_push_new_iff (placed_record ops key) entry wholeRecord bounds.ringBytes
  | some ring =>
    simp only [HotHistory.ringFor, held, Option.getD_some]
    exact (newest key ring held).push_iff (sound.rings key ring held) (placed_record ops key) entry
      bounds.ringBytes

theorem AllNewest.apply_iff (sound : hot.Sound) (newest : AllNewest ops hot) (op : HotOp) :
    AllNewest (ops ++ [op]) (hot.apply op) ↔ Lands ops hot op := by
  cases op with
  | push key entry wholeRecord bounds => exact newest.push_iff sound key entry wholeRecord bounds
  | remove key =>
    refine iff_of_true (fun other ring held => ?_) trivial
    rw [HotHistory.apply, (sound.drops_remove key).rings] at held
    rw [record_snoc, recordAfter]
    split at held
    · cases held
    · next apart =>
        rw [if_neg (Ne.symm apart)]
        exact newest other ring held
  | forgetIdentity identity =>
    refine iff_of_true (fun other ring held => ?_) trivial
    rw [HotHistory.apply, (sound.forgetIdentity identity).2] at held
    rw [record_snoc, recordAfter]
    split at held
    · cases held
    · next apart =>
        rw [if_neg apart]
        exact newest other ring held
  | markIncomplete key =>
    refine iff_of_true (fun other ring held => ?_) trivial
    rw [record_snoc, recordAfter]
    rw [HotHistory.apply, HotHistory.markIncomplete] at held
    split at held
    · next marked found =>
        rcases of_lookup_insert held with ⟨rfl, rfl⟩ | ⟨-, before⟩
        · exact ⟨(newest other marked found).suffix, by simp⟩
        · exact newest other ring before
    · exact newest other ring held

/-- A run keeps every ring the newest part of its record, in every state it
passes through, exactly when each of its pushes lands. -/
theorem hotHistory_always_newest_iff (ops : List HotOp) (hot : HotHistory)
    (run : hotHistory.Run System.anyStep ops hot) :
    hotHistory.Always AllNewest ops ↔ hotHistory.Run Lands ops hot := by
  refine run.always_iff (J := fun _ hot => hot.Sound) ?_ HotHistory.sound_empty ?_ ?_
  · intro key ring held
    simp [hotHistory, HotHistory.empty] at held
  · intro ops hot op hot' sound step
    cases step
    exact sound.apply op
  · intro ops hot op hot' sound newest step
    cases step
    exact newest.apply_iff sound op

/-! ## The hole an eviction leaves -/

/-- The state a list of operations leaves; no operation is ever refused. -/
def HotHistory.after (ops : List HotOp) : HotHistory :=
  ops.foldl HotHistory.apply .empty

theorem hotHistory_run_after (ops : List HotOp) :
    hotHistory.Run System.anyStep ops (.after ops) := by
  induction ops using List.reverseRecOn with
  | nil => exact .nil
  | append_singleton ops op ih => exact .snoc ih trivial (by simp [hotHistory, HotHistory.after])

/-- With room for one ring: a message to `#a`, one to `#b` that evicts it, then a
message to `#a` stamped before the first. -/
def lateAfterEviction : List HotOp :=
  [.push ⟨ascii "#a"⟩ (.plain (ascii "m2") 2) true ⟨1, 1000, 1000⟩,
    .push ⟨ascii "#b"⟩ (.plain (ascii "m3") 3) true ⟨1, 1000, 1000⟩,
    .push ⟨ascii "#a"⟩ (.plain (ascii "m1") 1) true ⟨1, 1000, 1000⟩]

/-- The ring created again takes the late message and calls itself complete,
though a message placed after it is on record and not held. -/
theorem hotHistory_hole_after_eviction :
    hotHistory.Run System.anyStep lateAfterEviction (.after lateAfterEviction) ∧
      record lateAfterEviction ⟨ascii "#a"⟩ = [.plain (ascii "m1") 1, .plain (ascii "m2") 2] ∧
      ((HotHistory.after lateAfterEviction).rings.lookup ⟨ascii "#a"⟩).map
        (fun ring => (ring.entries, ring.complete)) = some ([.plain (ascii "m1") 1], true) ∧
      ¬ AllNewest lateAfterEviction (.after lateAfterEviction) := by
  refine ⟨hotHistory_run_after _, by decide, by decide, fun all => ?_⟩
  have newest := all ⟨ascii "#a"⟩ ((new true).push (.plain (ascii "m1") 1) 1000) (by decide)
  exact absurd newest.suffix (by decide)

/-- The equivalence at that run. -/
theorem hotHistory_always_newest_iff_lateAfterEviction :
    hotHistory.Always AllNewest lateAfterEviction ↔
      hotHistory.Run Lands lateAfterEviction (.after lateAfterEviction) :=
  hotHistory_always_newest_iff _ _ (hotHistory_run_after _)

end E6irc
