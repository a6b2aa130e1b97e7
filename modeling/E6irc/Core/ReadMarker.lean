import E6irc.Base.Run

/-!
# The read marker of one target, on every shard

An account's read marker for one target is a row of the database, mirrored on each
shard of the core (`handler/read_marker.rs`, `core/state.rs`).  A MARKREAD is written
to the database, which keeps the later of two markers and answers with the one it
then holds; the shard that asked stores the answer, and when that moved its mirror
forward tells the other shards, which store what is later than their own.

Requests, answers and broadcasts are taken up in any order.
-/

namespace E6irc.ReadMarker

open Base System

/-- What the database says to a write. -/
inductive Answer
  | stored (marker : ℕ)
  | refused
deriving DecidableEq, Repr

/-- One shard's mirror of the marker, the writes it waits for, whether the account is
deleted, and what is on its way to it. -/
structure Mirror where
  marker : Option ℕ
  pending : ℕ
  deleted : Bool
  answers : List Answer
  broadcasts : List ℕ
deriving DecidableEq, Repr

namespace Mirror

def empty : Mirror := ⟨none, 0, false, [], []⟩

/-- The mirror with a confirmed marker, and the value it replaced; nothing is stored
for a deleted account, and the marker is reported as already current. -/
def storeReadMarker (mirror : Mirror) (marker : ℕ) : Option ℕ × Mirror :=
  if mirror.deleted then (some marker, mirror)
  else (mirror.marker, { mirror with marker := some marker })

/-- Whether a MARKREAD is written, and the mirror then.  `room` says that the account
has a slot left for another target. -/
def cmdMarkread (mirror : Mirror) (marker : ℕ) (room : Bool) : Bool × Mirror :=
  if mirror.marker = none ∧ mirror.pending = 0 ∧ room = false then (false, mirror)
  else if mirror.pending = 0 ∧ mirror.marker.any (marker ≤ ·) then (false, mirror)
  else (true, { mirror with pending := mirror.pending + 1 })

/-- The answer to a write of this shard: the mirror then, and whether it moved forward. -/
def readMarkerStored (mirror : Mirror) (marker : ℕ) : Bool × Mirror :=
  let (previous, mirror) := { mirror with pending := mirror.pending - 1 }.storeReadMarker marker
  (previous.all (· < marker), mirror)

/-- A marker that another shard stored. -/
def applyStoredMarker (mirror : Mirror) (marker : ℕ) : Mirror :=
  if mirror.marker.any (marker ≤ ·) then mirror else (mirror.storeReadMarker marker).2

/-- The row was deleted while it held `marker`. -/
def expireReadMarker (mirror : Mirror) (marker : ℕ) : Mirror :=
  if mirror.marker.any (· ≤ marker) then { mirror with marker := none } else mirror

def forgetAccountReadMarkers (mirror : Mirror) : Mirror :=
  { mirror with deleted := true, marker := none }

def preloadReadMarkers (mirror : Mirror) (row : Option ℕ) : Mirror :=
  row.elim { mirror with marker := none } fun marker =>
    ({ mirror with marker := none }.storeReadMarker marker).2

end Mirror

/-- The mirrors, the writes on their way to the database, and its row. -/
structure State (Shard : Type) where
  mirrors : Shard → Mirror
  requests : List (Shard × ℕ)
  row : Option ℕ

namespace State

variable {Shard : Type} [DecidableEq Shard]

def init : State Shard := ⟨fun _ => .empty, [], none⟩

def setMirror (s : State Shard) (shard : Shard) (mirror : Mirror) : State Shard :=
  { s with mirrors := Function.update s.mirrors shard mirror }

/-- Tell every other shard. -/
def broadcastReadMarker (s : State Shard) (shard : Shard) (marker : ℕ) : State Shard :=
  { s with
    mirrors := fun other =>
      if other = shard then s.mirrors other
      else { s.mirrors other with broadcasts := (s.mirrors other).broadcasts ++ [marker] } }

end State

inductive Event (Shard : Type)
  /-- A session of the shard sends MARKREAD. -/
  | markread (shard : Shard) (marker : ℕ) (room : Bool)
  /-- The database takes up a write, which it may refuse. -/
  | write (index : ℕ) (stores : Bool)
  /-- A shard takes up an answer to one of its writes. -/
  | answered (shard : Shard) (index : ℕ)
  /-- A shard takes up a broadcast. -/
  | applied (shard : Shard) (index : ℕ)
  /-- The database deletes the row. -/
  | sweep
  | expire (shard : Shard) (marker : ℕ)
  | delete (shard : Shard)
  | preload (shard : Shard) (row : Option ℕ)

variable {Shard : Type} [DecidableEq Shard]

namespace State

def markread (s : State Shard) (shard : Shard) (marker : ℕ) (room : Bool) : State Shard :=
  let (written, mirror) := (s.mirrors shard).cmdMarkread marker room
  let s := s.setMirror shard mirror
  if written then { s with requests := s.requests ++ [(shard, marker)] } else s

/-- The row keeps the later marker, and the answer is what it then holds. -/
def write (s : State Shard) (index : ℕ) (stores : Bool) : Option (State Shard) := do
  let (shard, marker) ← s.requests[index]?
  let s := { s with requests := s.requests.eraseIdx index }
  let mirror := s.mirrors shard
  if stores then
    let stored := s.row.elim marker (max marker)
    some { s.setMirror shard { mirror with answers := mirror.answers ++ [.stored stored] } with
      row := some stored }
  else some (s.setMirror shard { mirror with answers := mirror.answers ++ [.refused] })

/-- A shard stores an answer, and tells the others when it moved forward. -/
def storeAnswer (s : State Shard) (shard : Shard) (mirror : Mirror) (marker : ℕ) : State Shard :=
  let stored := mirror.readMarkerStored marker
  if stored.1 then (s.setMirror shard stored.2).broadcastReadMarker shard marker
  else s.setMirror shard stored.2

def answered (s : State Shard) (shard : Shard) (index : ℕ) : Option (State Shard) := do
  let mirror := s.mirrors shard
  let answer ← mirror.answers[index]?
  let mirror := { mirror with answers := mirror.answers.eraseIdx index }
  match answer with
  | .refused => some (s.setMirror shard { mirror with pending := mirror.pending - 1 })
  | .stored marker => some (s.storeAnswer shard mirror marker)

def applied (s : State Shard) (shard : Shard) (index : ℕ) : Option (State Shard) := do
  let mirror := s.mirrors shard
  let marker ← mirror.broadcasts[index]?
  let mirror := { mirror with broadcasts := mirror.broadcasts.eraseIdx index }
  some (s.setMirror shard (mirror.applyStoredMarker marker))

def step (s : State Shard) : Event Shard → Option (State Shard)
  | .markread shard marker room => some (s.markread shard marker room)
  | .write index stores => s.write index stores
  | .answered shard index => s.answered shard index
  | .applied shard index => s.applied shard index
  | .sweep => some { s with row := none }
  | .expire shard marker => some (s.setMirror shard ((s.mirrors shard).expireReadMarker marker))
  | .delete shard => some (s.setMirror shard (s.mirrors shard).forgetAccountReadMarkers)
  | .preload shard row => some (s.setMirror shard ((s.mirrors shard).preloadReadMarkers row))

end State

def shards (Shard : Type) [DecidableEq Shard] : System (State Shard) (Event Shard) where
  init := .init
  step := State.step

/-! ## What a mirror keeps -/

/-- The second marker is not behind the first. -/
def NotBehind (before after : Option ℕ) : Prop :=
  ∀ marker, before = some marker → ∃ later, after = some later ∧ marker ≤ later

theorem NotBehind.refl (marker : Option ℕ) : NotBehind marker marker :=
  fun marker held => ⟨marker, held, Nat.le_refl marker⟩

theorem notBehind_some {before : Option ℕ} {after : ℕ} :
    NotBehind before (some after) ↔ ∀ marker, before = some marker → marker ≤ after := by
  simp [NotBehind]

/-- Expiry, deletion of the account and a preload may drop a shard's marker. -/
def Event.Drops (shard : Shard) : Event Shard → Prop
  | .expire other _ | .delete other | .preload other _ => other = shard
  | _ => False

/-- The answer taken up is not behind the mirror that takes it up. -/
def Event.Current (s : State Shard) : Event Shard → Prop
  | .answered shard index => ∀ marker, (s.mirrors shard).answers[index]? = some (.stored marker) →
      (s.mirrors shard).deleted = false →
        ∀ held, (s.mirrors shard).marker = some held → held ≤ marker
  | _ => True

section

variable {s after : State Shard} {shard other : Shard} {mirror : Mirror} {event : Event Shard}

theorem marker_setMirror :
    ((s.setMirror shard mirror).mirrors other).marker =
      if other = shard then mirror.marker else (s.mirrors other).marker := by
  simp only [State.setMirror, Function.update_apply]
  split <;> rfl

theorem marker_setMirror_of_same (same : mirror.marker = (s.mirrors shard).marker) :
    ((s.setMirror shard mirror).mirrors other).marker = (s.mirrors other).marker := by
  rw [marker_setMirror]
  split
  · rename_i here
    rw [here, same]
  · rfl

theorem notBehind_setMirror (keeps : NotBehind (s.mirrors shard).marker mirror.marker) :
    NotBehind (s.mirrors other).marker ((s.setMirror shard mirror).mirrors other).marker := by
  rw [marker_setMirror]
  split
  · rename_i here
    rw [here]
    exact keeps
  · exact .refl _

theorem marker_broadcast (marker : ℕ) :
    ((s.broadcastReadMarker shard marker).mirrors other).marker = (s.mirrors other).marker := by
  simp only [State.broadcastReadMarker]
  split <;> rfl

theorem marker_storeAnswer (marker : ℕ) :
    ((s.storeAnswer shard mirror marker).mirrors other).marker =
      if other = shard then (mirror.readMarkerStored marker).2.marker
      else (s.mirrors other).marker := by
  unfold State.storeAnswer
  dsimp only
  split
  · rw [marker_broadcast, marker_setMirror]
  · rw [marker_setMirror]

theorem marker_cmdMarkread (marker : ℕ) (room : Bool) :
    (mirror.cmdMarkread marker room).2.marker = mirror.marker := by
  unfold Mirror.cmdMarkread
  split
  · rfl
  split <;> rfl

/-- A broadcast never takes a mirror back. -/
theorem notBehind_applyStoredMarker (mirror : Mirror) (marker : ℕ) :
    NotBehind mirror.marker (mirror.applyStoredMarker marker).marker := by
  unfold Mirror.applyStoredMarker
  split
  · exact .refl _
  rename_i behind
  unfold Mirror.storeReadMarker
  split
  · exact .refl _
  · refine notBehind_some.mpr fun held same => ?_
    rw [same] at behind
    simpa using Nat.le_of_lt (by simpa using behind)

/-- An answer takes a mirror back exactly if it is behind it. -/
theorem notBehind_readMarkerStored (mirror : Mirror) (marker : ℕ) :
    NotBehind mirror.marker (mirror.readMarkerStored marker).2.marker ↔
      (mirror.deleted = false → ∀ held, mirror.marker = some held → held ≤ marker) := by
  simp only [Mirror.readMarkerStored, Mirror.storeReadMarker]
  cases deleted : mirror.deleted with
  | true => simpa using NotBehind.refl mirror.marker
  | false => simpa using notBehind_some

/-- A step that drops no marker leaves every mirror where it was or moves it forward,
exactly if the answer it takes up is current. -/
theorem step_keeps (step : s.step event = some after) :
    (∀ shard, ¬ event.Drops shard →
      NotBehind (s.mirrors shard).marker (after.mirrors shard).marker) ↔ event.Current s := by
  cases event with
  | markread shard marker room =>
    cases step
    refine iff_of_true (fun other _ => ?_) trivial
    have kept : ((s.markread shard marker room).mirrors other).marker =
        (s.mirrors other).marker := by
      simp only [State.markread]
      split <;> exact marker_setMirror_of_same (marker_cmdMarkread marker room)
    rw [kept]
    exact .refl _
  | write index stores =>
    refine iff_of_true (fun other _ => ?_) trivial
    obtain ⟨⟨shard, marker⟩, -, step⟩ := Option.bind_eq_some_iff.mp step
    dsimp only at step
    split at step
    · cases step
      refine notBehind_setMirror (s := { s with requests := _ }) ?_
      exact .refl _
    · cases step
      refine notBehind_setMirror (s := { s with requests := _ }) ?_
      exact .refl _
  | answered shard index =>
    obtain ⟨answer, taken, step⟩ := Option.bind_eq_some_iff.mp step
    cases answer with
    | refused =>
      cases step
      refine iff_of_true (fun other _ => ?_) fun marker stored => ?_
      · refine notBehind_setMirror ?_
        exact .refl _
      · rw [taken] at stored
        cases stored
    | stored marker =>
      cases step
      have current : (Event.answered shard index).Current s ↔
          ((s.mirrors shard).deleted = false →
            ∀ held, (s.mirrors shard).marker = some held → held ≤ marker) := by
        simp [Event.Current, taken]
      rw [current]
      constructor
      · intro keeps
        have own := keeps shard id
        rw [marker_storeAnswer, if_pos rfl] at own
        exact (notBehind_readMarkerStored
          { s.mirrors shard with answers := (s.mirrors shard).answers.eraseIdx index } marker).mp own
      · intro inOrder other _
        rw [marker_storeAnswer]
        split
        · rename_i here
          rw [here]
          exact (notBehind_readMarkerStored
          { s.mirrors shard with answers := (s.mirrors shard).answers.eraseIdx index } marker).mpr inOrder
        · exact .refl _
  | applied shard index =>
    refine iff_of_true (fun other _ => ?_) trivial
    obtain ⟨marker, -, step⟩ := Option.bind_eq_some_iff.mp step
    cases step
    exact notBehind_setMirror
      (notBehind_applyStoredMarker
      { s.mirrors shard with broadcasts := (s.mirrors shard).broadcasts.eraseIdx index } marker)
  | sweep =>
    cases step
    exact iff_of_true (fun other _ => .refl _) trivial
  | expire shard marker | delete shard | preload shard row =>
    cases step
    refine iff_of_true (fun other apart => ?_) trivial
    have others : other ≠ shard := fun same => apart same.symm
    rw [marker_setMirror, if_neg others]
    exact .refl _

/-- Along a run no shard's marker goes back, but through expiry, deletion of the account
or a preload, exactly as long as every answer a shard takes up is no older than the
marker it holds. -/
theorem never_goes_back_iff {es : List (Event Shard)} (run : (shards Shard).Run anyStep es s) :
    (shards Shard).Always (fun es s => ∀ front event mid, es = front ++ [event] →
        (shards Shard).Run anyStep front mid → ∀ shard, ¬ event.Drops shard →
          NotBehind (mid.mirrors shard).marker (s.mirrors shard).marker) es ↔
      (shards Shard).Run (fun _ s event => event.Current s) es s := by
  refine Run.always_iff (J := fun es s => (shards Shard).Run anyStep es s) ?_ .nil
    (fun es s event after run step => .snoc run trivial step)
    (fun es s event after run _ step => ?_) run
  · intro front event mid trace
    simp at trace
  rw [← step_keeps step]
  constructor
  · exact fun keeps => keeps es event s rfl run
  intro keeps front last mid trace before
  obtain ⟨rfl, same⟩ := List.append_inj' trace rfl
  cases same
  rw [before.unique run]
  exact keeps

end

/-- Two shards write; the first takes up the second's marker before the answer to its
own. -/
def overtaken : List (Event Bool) :=
  [.markread false 10 true, .markread true 20 true, .write 0 true, .write 0 true,
    .answered true 0, .applied false 0]

theorem never_goes_back_overtaken : ∃ s, (shards Bool).Run anyStep overtaken s ∧
    ((shards Bool).Always (fun es s => ∀ front event mid, es = front ++ [event] →
        (shards Bool).Run anyStep front mid → ∀ shard, ¬ event.Drops shard →
          NotBehind (mid.mirrors shard).marker (s.mirrors shard).marker) overtaken ↔
      (shards Bool).Run (fun _ s event => event.Current s) overtaken s) := by
  obtain ⟨s, reached⟩ : ∃ s, (shards Bool).exec overtaken = some s :=
    Option.isSome_iff_exists.mp (by decide +kernel)
  have run := run_of_exec reached
  exact ⟨s, run, never_goes_back_iff run⟩

/-- The late answer takes the first shard's marker back. -/
theorem late_answer_goes_back : ∃ s after, (shards Bool).Run anyStep overtaken s ∧
    (shards Bool).Run anyStep (overtaken ++ [.answered false 0]) after ∧
    (s.mirrors false).marker = some 20 ∧ (after.mirrors false).marker = some 10 := by
  have before : ((shards Bool).exec overtaken).map (fun s => (s.mirrors false).marker) =
      some (some 20) := by decide +kernel
  have behind : ((shards Bool).exec (overtaken ++ [.answered false 0])).map
      (fun s => (s.mirrors false).marker) = some (some 10) := by decide +kernel
  obtain ⟨s, reached, held⟩ := exists_run before
  obtain ⟨after, then_reached, later⟩ := exists_run behind
  exact ⟨s, after, reached, then_reached, held, later⟩

end E6irc.ReadMarker
