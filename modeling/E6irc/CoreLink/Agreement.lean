import E6irc.CoreLink.Flow

/-!
# What both ends of a stream agree on

The edge learns a session's window from the first grant it reads for it, so the
grant must be the first credit of the session that reaches it.  Until it does the
session has spent nothing (`State.Quiet`), and there is nothing to give back; and
a session is opened once, so it is granted its window once.  `State.Agreed` is
the invariant.
-/

namespace E6irc.CoreLink.Flow

open Base List Function Feeder Option

/-- The items a feeder has yet to hand over. -/
def Feeder.items (feeder : Feeder) : List Item :=
  feeder.queue.filterMap (fun | .item item => some item | .closed _ => none) ++
    feeder.handing.toList

/-! ## Before the first grant -/

/-- The session an `Open` opens. -/
def EdgeFrame.opens : EdgeFrame → Option SessionId
  | .openSession session _ => some session
  | _ => none

namespace State

/-- Nothing of the session's own credit exists yet. -/
structure Unopened (s : State) (x : SessionId) : Prop where
  credits : s.credits x = {}
  counted : s.inputInFlight x = 0
  feeder : s.feeders x = {}
  session : s.sessions x = none
  grants : ∀ bytes, .sessionCredit x bytes ∉ s.toEdge
  granting : ∀ bytes, s.granting ≠ some (x, bytes)

/-- The session has spent nothing of its own credit, and any grant on its way is
its window. -/
structure Quiet (terms : Terms) (s : State) (x : SessionId) : Prop where
  bytes : (s.credits x).bytes = 0
  sending : terms.kind x ≠ .irc → ∀ item, (x, item) ∉ s.sending
  toCore : terms.kind x ≠ .irc → ∀ item, .input x item ∉ s.toCore
  counted : s.inputInFlight x = 0
  items : (s.feeders x).items = []
  owed : (s.feeders x).owed = none
  grants : ∀ bytes, .sessionCredit x bytes ∈ s.toEdge → bytes = terms.window (terms.kind x)
  granting : ∀ bytes, s.granting = some (x, bytes) → bytes = terms.window (terms.kind x)

/-- Both ends go by the same kinds and windows, and a session is opened once. -/
structure Agreed (terms : Terms) (s : State) : Prop where
  windows : ∀ x, (s.credits x).window = 0 ∨ (s.credits x).window = terms.window (terms.kind x)
  quiet : ∀ x, (s.credits x).window = 0 → s.Quiet terms x
  held : ∀ x session, s.sessions x = some session → session.kind = terms.kind x ∧
    session.window = terms.window (terms.kind x) ∧
    (session.input = true → (s.feeders x).window = terms.window (terms.kind x))
  fed : ∀ x, (s.feeders x).items ≠ [] → (s.feeders x).window = terms.window (terms.kind x)
  unopened : ∀ x, x ∉ s.registered ∨ (∃ kind, .openSession x kind ∈ s.toCore) → s.Unopened x
  kinds : ∀ x kind, .openSession x kind ∈ s.toCore → kind = terms.kind x ∧ x ∈ s.registered
  once : (s.toCore.filterMap EdgeFrame.opens).Nodup

variable {terms : Terms} {s s' : State}

section

variable (agreed : s.Agreed terms)
include agreed

/-- The lines of IRC sessions, and what waits, are no part of the agreement. -/
theorem Agreed.same {up : Bool} {live : List SessionId} {credit linesInFlight returned : ℕ}
    {waiting : List (SessionId × Item)} {inputs : List Input} {current : Option Input}
    {faults : List Fault} : Agreed terms { s with
      up, live, credit, waiting, linesInFlight, inputs, current, returned, faults } :=
  { agreed with
    quiet := fun x window => { agreed.quiet x window with }
    unopened := fun x early => { agreed.unopened x early with } }

/-- A frame that opens nothing and carries no item of a quiet session goes out. -/
theorem Agreed.sendUp {frame : EdgeFrame} (opens : frame.opens = none)
    (loud : ∀ x item, frame = .input x item → terms.kind x ≠ .irc → (s.credits x).window ≠ 0) :
    Agreed terms { s with toCore := s.toCore ++ [frame] } := by
  have same : ∀ x kind, .openSession x kind ∈ s.toCore ++ [frame] →
      .openSession x kind ∈ s.toCore := by
    intro x kind among
    rcases mem_append.mp among with old | new
    · exact old
    · rw [← mem_singleton.mp new] at opens
      cases opens
  refine { agreed with
    quiet := fun x window => ?_
    unopened := fun x early => ?_
    kinds := fun x kind among => agreed.kinds x kind (same x kind among)
    once := ?_ }
  · refine { agreed.quiet x window with toCore := fun own item among => ?_ }
    rcases mem_append.mp among with old | new
    · exact (agreed.quiet x window).toCore own item old
    · exact loud x item (mem_singleton.mp new).symm own window
  · refine { agreed.unopened x ?_ with }
    exact early.imp_right fun ⟨kind, among⟩ => ⟨kind, same x kind among⟩
  · rw [filterMap_append]
    simpa [opens] using agreed.once

/-- A frame other than a session's credit goes down. -/
theorem Agreed.sendDown {frame : CoreFrame} (other : ∀ x bytes, frame ≠ .sessionCredit x bytes) :
    Agreed terms { s with toEdge := s.toEdge ++ [frame] } := by
  have same : ∀ x bytes, .sessionCredit x bytes ∈ s.toEdge ++ [frame] →
      .sessionCredit x bytes ∈ s.toEdge := by
    intro x bytes among
    rcases mem_append.mp among with old | new
    · exact old
    · exact absurd (mem_singleton.mp new).symm (other x bytes)
  refine { agreed with
    quiet := fun x window => { agreed.quiet x window with grants := fun bytes among => ?_ }
    unopened := fun x early => { agreed.unopened x early with grants := fun bytes among => ?_ } }
  · exact (agreed.quiet x window).grants bytes (same x bytes among)
  · exact (agreed.unopened x early).grants bytes (same x bytes among)

/-- Frames leave the front of the way up, or pushes the list of those sending. -/
theorem Agreed.fewer {sending : List (SessionId × Item)}
    {toCore : List EdgeFrame} {toEdge : List CoreFrame} (sub : sending ⊆ s.sending)
    (subUp : toCore.Sublist s.toCore) (subDown : toEdge ⊆ s.toEdge) :
    Agreed terms { s with sending, toCore, toEdge } := by
  refine { agreed with
    quiet := fun x window => ?_
    unopened := fun x early => ?_
    kinds := fun x kind among => agreed.kinds x kind (subUp.subset among)
    once := agreed.once.sublist (subUp.filterMap _) }
  · have quiet := agreed.quiet x window
    exact { quiet with
      sending := fun own item among => quiet.sending own item (sub among)
      toCore := fun own item among => quiet.toCore own item (subUp.subset among)
      grants := fun bytes among => quiet.grants bytes (subDown among) }
  · have unopened := agreed.unopened x
      (early.imp_right fun ⟨kind, among⟩ => ⟨kind, subUp.subset among⟩)
    exact { unopened with grants := fun bytes among => unopened.grants bytes (subDown among) }

end

/-- The session's `Open` has been read. -/
def Opened (s : State) (x : SessionId) : Prop :=
  x ∈ s.registered ∧ ∀ kind, .openSession x kind ∉ s.toCore

section

variable (agreed : s.Agreed terms)
include agreed

theorem Agreed.opened {x : SessionId} (touched : ¬ s.Unopened x) : s.Opened x := by
  constructor
  · by_contra outside
    exact touched (agreed.unopened x (.inl outside))
  · intro kind among
    exact touched (agreed.unopened x (.inr ⟨kind, among⟩))

/-- What is kept of one session that is open changes. -/
theorem Agreed.update {y : SessionId} (opened : s.Opened y)
    (credit : SessionCredit) (count : ℕ) (feeder : Feeder) (session : Option CoreSession)
    (window : credit.window = 0 ∨ credit.window = terms.window (terms.kind y))
    (quiet : credit.window = 0 → (s.credits y).window = 0 ∧
      credit.bytes = 0 ∧ count = 0 ∧ feeder.items = [] ∧ feeder.owed = none)
    (held : ∀ cs, session = some cs → cs.kind = terms.kind y ∧
      cs.window = terms.window (terms.kind y) ∧
      (cs.input = true → feeder.window = terms.window (terms.kind y)))
    (fed : feeder.items ≠ [] → feeder.window = terms.window (terms.kind y)) : Agreed terms { s with
      credits := update s.credits y credit
      inputInFlight := update s.inputInFlight y count
      feeders := update s.feeders y feeder
      sessions := update s.sessions y session } := by
  refine
    { windows := fun x => ?_
      quiet := fun x isZero => ?_
      held := fun x cs isHeld => ?_
      fed := fun x loaded => ?_
      unopened := fun x early => ?_
      kinds := agreed.kinds
      once := agreed.once }
  · rcases eq_or_ne x y with rfl | apart
    · simpa using window
    · simpa [apart] using agreed.windows x
  · rcases eq_or_ne x y with rfl | apart
    · simp only [update_self] at isZero
      obtain ⟨before, bytes, counted, items, owed⟩ := quiet isZero
      have old := agreed.quiet x before
      exact { old with
        bytes := by simpa using bytes
        counted := by simpa using counted
        items := by simpa using items
        owed := by simpa using owed }
    · simp only [update_of_ne apart] at isZero
      have old := agreed.quiet x isZero
      exact { old with
        bytes := by simpa [apart] using old.bytes
        counted := by simpa [apart] using old.counted
        items := by simpa [apart] using old.items
        owed := by simpa [apart] using old.owed }
  · rcases eq_or_ne x y with rfl | apart
    · simp only [update_self] at isHeld ⊢
      exact held cs isHeld
    · simp only [update_of_ne apart] at isHeld ⊢
      exact agreed.held x cs isHeld
  · rcases eq_or_ne x y with rfl | apart
    · simp only [update_self] at loaded ⊢
      exact fed loaded
    · simp only [update_of_ne apart] at loaded ⊢
      exact agreed.fed x loaded
  · have old := agreed.unopened x early
    have apart : x ≠ y := by
      rintro rfl
      rcases early with outside | ⟨kind, among⟩
      · exact outside opened.1
      · exact opened.2 kind among
    exact { old with
      credits := by simpa [apart] using old.credits
      counted := by simpa [apart] using old.counted
      feeder := by simpa [apart] using old.feeder
      session := by simpa [apart] using old.session }

theorem Agreed.register {y : SessionId} (new : y ∉ s.registered) : Agreed terms { s with
      registered := y :: s.registered, live := y :: s.live,
      toCore := s.toCore ++ [.openSession y (terms.kind y)] } := by
  refine { agreed with
    quiet := fun x window => ?_
    unopened := fun x early => { agreed.unopened x ?_ with }
    kinds := fun x kind among => ?_
    once := ?_ }
  · refine { agreed.quiet x window with toCore := fun own item among => ?_ }
    rcases mem_append.mp among with old | new
    · exact (agreed.quiet x window).toCore own item old
    · cases mem_singleton.mp new
  · rcases early with outside | ⟨kind, among⟩
    · exact .inl fun inside => outside (.tail _ inside)
    rcases mem_append.mp among with old | isNew
    · exact .inr ⟨kind, old⟩
    · cases mem_singleton.mp isNew
      exact .inl new
  · rcases mem_append.mp among with old | isNew
    · exact (agreed.kinds x kind old).imp_right (.tail _)
    · cases mem_singleton.mp isNew
      exact ⟨rfl, .head _⟩
  · rw [filterMap_append]
    refine List.Nodup.append agreed.once (nodup_singleton y) (disjoint_singleton.mpr ?_)
    intro among
    obtain ⟨frame, sent, opens⟩ := mem_filterMap.mp among
    cases frame with
    | openSession x kind =>
      cases opens
      exact new (agreed.kinds _ kind sent).2
    | _ => cases opens

/-- A push that spent its credit is of a session that has a window, or is a line. -/
theorem Agreed.startSending {x : SessionId} {item : Item} {waiting : List (SessionId × Item)}
    (loud : terms.kind x ≠ .irc → (s.credits x).window ≠ 0) :
    Agreed terms { s with waiting, sending := s.sending ++ [(x, item)] } := by
  refine { agreed with quiet := fun y window => ?_, unopened := fun y early => ?_ }
  · refine { agreed.quiet y window with sending := fun own other among => ?_ }
    rcases mem_append.mp among with old | new
    · exact (agreed.quiet y window).sending own other old
    · cases mem_singleton.mp new
      exact loud own window
  · exact { agreed.unopened y early with }

end

theorem spend_keeps {x : SessionId} {item : Item} (spent : s.spend terms x item = some s') :
    s'.sending = s.sending ∧ s'.faults = s.faults := by
  unfold State.spend at spent
  split at spent
  all_goals
    simp only [ite_none_right_eq_some] at spent
    obtain rfl := some.inj spent.2
    exact ⟨rfl, rfl⟩

theorem Agreed.spend (agreed : s.Agreed terms) {x : SessionId} {item : Item}
    {waiting : List (SessionId × Item)} (spent : s.spend terms x item = some s') :
    Agreed terms { s' with waiting, sending := s'.sending ++ [(x, item)] } := by
  unfold State.spend at spent
  split at spent
  · rename_i irc
    rw [ite_none_right_eq_some] at spent
    obtain rfl := some.inj spent.2
    exact agreed.same.startSending fun own => absurd irc own
  all_goals
    dsimp only at spent
    rw [ite_none_right_eq_some] at spent
    obtain ⟨⟨window, _⟩, spent⟩ := spent
    cases spent
    refine Agreed.startSending ?_ fun _ => by simpa using window
    have touched : ¬ s.Unopened x := fun early => window (by rw [early.credits])
    have changed := agreed.update (agreed.opened touched)
      { s.credits x with bytes := (s.credits x).bytes - charge32 item.weight (s.credits x).window }
      (s.inputInFlight x) (s.feeders x) (s.sessions x) (agreed.windows x)
      (fun isZero => absurd isZero window) (agreed.held x) (agreed.fed x)
    simpa only [update_eq_self] using changed

theorem grant_eq {held amount after : ℕ} (granted : grant terms held amount = some after) :
    after = held + amount := by
  unfold grant at granted
  split at granted
  · cases granted
  · exact (some.inj granted).symm

section

variable (agreed : s.Agreed terms)
include agreed

theorem Agreed.readEdge {frame : CoreFrame} {rest : List CoreFrame}
    (head : s.toEdge = frame :: rest) :
    Agreed terms ({ s with toEdge := rest }.readEdge terms frame) := by
  have popped : Agreed terms { s with toEdge := rest } :=
    agreed.fewer (List.Subset.refl _) (List.Sublist.refl _) (by simp [head])
  cases frame with
  | endSession x =>
    exact popped.same
  | streamCredit lines =>
    simp only [State.readEdge]
    split
    · exact popped.same
    · exact popped.same
  | sessionCredit x amount =>
    simp only [State.readEdge]
    split
    · split
      · exact popped.same
      rename_i bytes granted
      have sent : .sessionCredit x amount ∈ s.toEdge := by simp [head]
      have opened : s.Opened x := agreed.opened fun early => early.grants amount sent
      have first : (s.credits x).window = 0 → amount = terms.window (terms.kind x) :=
        fun isZero => (agreed.quiet x isZero).grants amount sent
      have total := grant_eq granted
      have changed := popped.update (y := x) opened
        ⟨bytes, if (s.credits x).window = 0 then amount else (s.credits x).window⟩
        (s.inputInFlight x) (s.feeders x) (s.sessions x) ?_ ?_ (agreed.held x) (agreed.fed x)
      · simpa only [update_eq_self] using changed
      · dsimp only
        split
        · rename_i isZero
          exact .inr (first isZero)
        · exact agreed.windows x
      · dsimp only
        split
        · rename_i isZero
          intro noWindow
          have quiet := agreed.quiet x isZero
          refine ⟨isZero, ?_, quiet.counted, quiet.items, quiet.owed⟩
          rw [total, quiet.bytes, noWindow]
        · rename_i window
          exact fun isZero => absurd isZero window
    · exact popped

variable {x : SessionId}

/-- A feeder takes in the end of a session, or an item of one that has a window. -/
theorem Agreed.feed (opened : s.Opened x)
    {input : SessionInput} (loud : ∀ item, input = .item item → (s.credits x).window ≠ 0 ∧
      (s.feeders x).window = terms.window (terms.kind x)) : Agreed terms (s.feed x input) := by
  unfold State.feed
  dsimp only
  split
  · exact agreed
  have changed := agreed.update opened (s.credits x) (s.inputInFlight x)
    { s.feeders x with queue := (s.feeders x).queue ++ [input] } (s.sessions x)
    (agreed.windows x) ?_ (agreed.held x) ?_
  · simpa only [update_eq_self] using changed
  · intro isZero
    have quiet := agreed.quiet x isZero
    refine ⟨isZero, quiet.bytes, quiet.counted, ?_, quiet.owed⟩
    cases input with
    | item item => exact absurd isZero (loud item rfl).1
    | closed reason => simpa [items] using quiet.items
  · intro loaded
    cases input with
    | item item => exact (loud item rfl).2
    | closed reason => exact agreed.fed x (by simpa [items] using loaded)

theorem Agreed.broken (fault : Fault) : Agreed terms (s.broken fault) := agreed.same

/-- A session that was not open is, with its window; its first grant is due. -/
theorem Agreed.openSession (refused : Bool) (early : s.Unopened x) (opened : s.Opened x) :
    Agreed terms (s.openSession terms x (terms.kind x) refused) := by
  unfold State.openSession
  split
  · exact agreed.broken _
  split
  · exact agreed.broken _
  split
  · exact agreed.sendDown (by simp)
  have window : (s.credits x).window = 0 := by rw [early.credits]
  have quiet := agreed.quiet x window
  split
  · rename_i irc
    have changed := agreed.update opened (s.credits x) (s.inputInFlight x) (s.feeders x)
      (some ⟨.irc, false, 0⟩) (agreed.windows x)
      (fun _ => ⟨window, quiet.bytes, quiet.counted, quiet.items, quiet.owed⟩)
      (by rintro _ ⟨⟩; simp [irc, Terms.window]) (agreed.fed x)
    simp only [update_eq_self] at changed
    exact changed.same
  all_goals
    have changed := agreed.update opened (s.credits x) 0 { window := terms.window (terms.kind x) }
      (some ⟨terms.kind x, true, terms.window (terms.kind x)⟩) (agreed.windows x)
      (fun _ => ⟨window, quiet.bytes, rfl, rfl, rfl⟩) (by rintro _ ⟨⟩; simp) (fun _ => rfl)
    simp only [update_eq_self] at changed
    refine { changed with quiet := fun y isZero => ?_, unopened := fun y before => ?_ }
    · refine { changed.quiet y isZero with granting := fun bytes due => ?_ }
      cases due
      rfl
    · refine { changed.unopened y before with granting := fun bytes due => ?_ }
      cases due
      rcases before with outside | ⟨kind, among⟩
      · exact outside opened.1
      · exact opened.2 kind among

variable {item : Item}

theorem Agreed.sessionInput {held : CoreSession}
    (isHeld : s.sessions x = some held) (loud : (s.credits x).window ≠ 0) :
    Agreed terms (s.sessionInput x held item) := by
  have opened : s.Opened x := agreed.opened fun early => by
    rw [early.session] at isHeld
    cases isHeld
  have changed := agreed.update opened (s.credits x)
    (s.inputInFlight x + charge64 item.weight held.window) (s.feeders x) (s.sessions x)
    (agreed.windows x) (fun isZero => absurd isZero loud) (agreed.held x) (agreed.fed x)
  simp only [update_eq_self] at changed
  unfold State.sessionInput
  dsimp only
  split
  · exact changed.broken _
  split
  · rename_i own
    refine changed.feed opened fun _ _ => ⟨loud, ?_⟩
    exact (agreed.held x held isHeld).2.2 own
  · exact changed

theorem Agreed.input (loud : terms.kind x ≠ .irc → (s.credits x).window ≠ 0) :
    Agreed terms (s.input terms x item) := by
  unfold State.input
  split
  · exact agreed
  rename_i held isHeld
  have kind := (agreed.held x held isHeld).1
  split
  · dsimp only
    split
    · exact agreed.same.broken _
    · exact agreed.same
  · rename_i isAttach
    exact agreed.sessionInput isHeld (loud (by simp [← kind, isAttach]))
  · exact agreed.broken _
  · rename_i isUi
    exact agreed.sessionInput isHeld (loud (by simp [← kind, isUi]))
  · exact agreed.broken _

/-- The session is removed, or loses its queue. -/
theorem Agreed.setSession (session : Option CoreSession)
    (held : ∀ cs, session = some cs → ∃ before, s.sessions x = some before ∧
      cs.kind = before.kind ∧ cs.window = before.window ∧ cs.input = false) :
    Agreed terms { s with sessions := Function.update s.sessions x session } := by
  refine { agreed with
    quiet := fun y window => { agreed.quiet y window with }
    held := fun y cs isHeld => ?_
    unopened := fun y early => { agreed.unopened y early with session := ?_ } }
  · rcases eq_or_ne y x with rfl | apart
    · obtain ⟨before, wasHeld, kind, window, closed⟩ := held cs (by simpa using isHeld)
      have old := agreed.held y before wasHeld
      exact ⟨kind.trans old.1, window.trans old.2.1, by simp [closed]⟩
    · exact agreed.held y cs (by simpa [apart] using isHeld)
  · rcases eq_or_ne y x with rfl | apart
    · simp only [update_self]
      cases same : session with
      | none => rfl
      | some cs =>
        obtain ⟨before, wasHeld, _⟩ := held cs same
        rw [(agreed.unopened y early).session] at wasHeld
        cases wasHeld
    · simpa [apart] using (agreed.unopened y early).session

theorem Agreed.closed (x : SessionId) (reason : ClosedReason) :
    Agreed terms (s.closed x reason) := by
  unfold State.closed
  split
  · exact agreed
  rename_i held isHeld
  have opened : s.Opened x := agreed.opened fun early => by
    rw [early.session] at isHeld
    cases isHeld
  have told : Agreed terms (s.feed x (.closed reason)) := agreed.feed opened (by simp)
  have sessions : (s.feed x (.closed reason)).sessions = s.sessions := by
    unfold State.feed
    dsimp only
    split <;> rfl
  have toShard : Agreed terms { s with inputs := s.inputs ++ [.closed x reason] } := agreed.same
  dsimp only
  split
  · refine Agreed.setSession ?_ none (by simp)
    split
    · exact toShard
    · split
      · exact told
      · exact agreed
  · split
    · refine told.setSession _ ?_
      rintro _ ⟨⟩
      exact ⟨held, by rw [sessions, isHeld], rfl, rfl, rfl⟩
    · exact toShard

theorem Agreed.readCore {frame : EdgeFrame} {rest : List EdgeFrame}
    (head : s.toCore = frame :: rest) (refused : Bool) :
    Agreed terms ({ s with toCore := rest }.readCore terms refused frame) := by
  have popped : Agreed terms { s with toCore := rest } :=
    agreed.fewer (List.Subset.refl _) (by simp [head]) (List.Subset.refl _)
  cases frame with
  | openSession x kind =>
    have sent : .openSession x kind ∈ s.toCore := by simp [head]
    obtain ⟨rfl, registered⟩ := agreed.kinds x kind sent
    have early := agreed.unopened x (.inr ⟨_, sent⟩)
    have opened : Opened { s with toCore := rest } x := by
      refine ⟨registered, fun kind among => ?_⟩
      have once := agreed.once
      rw [head, filterMap_cons_some (by rfl)] at once
      exact (nodup_cons.mp once).1 (mem_filterMap.mpr ⟨_, among, rfl⟩)
    exact popped.openSession refused { early with } opened
  | input x item =>
    refine popped.input fun own window => ?_
    exact (agreed.quiet x window).toCore own item (by simp [head])
  | closed x reason => exact popped.closed x reason

/-- A credit of an open session goes down: its first grant, or one it has earned. -/
theorem Agreed.sendCredit (amount : ℕ)
    (opened : s.Opened x) (first : (s.credits x).window = 0 → amount = terms.window (terms.kind x)) :
    Agreed terms { s with toEdge := s.toEdge ++ [.sessionCredit x amount] } := by
  refine { agreed with
    quiet := fun y window => { agreed.quiet y window with grants := fun bytes among => ?_ }
    unopened := fun y early => { agreed.unopened y early with grants := fun bytes among => ?_ } }
  · rcases mem_append.mp among with old | new
    · exact (agreed.quiet y window).grants bytes old
    · cases mem_singleton.mp new
      exact first window
  · rcases mem_append.mp among with old | new
    · exact (agreed.unopened y early).grants bytes old
    cases mem_singleton.mp new
    rcases early with outside | ⟨kind, among⟩
    · exact outside opened.1
    · exact opened.2 kind among

theorem Agreed.grant {due : SessionId × ℕ} (granting : s.granting = some due) :
    Agreed terms { s with
      granting := none
      toEdge := s.toEdge ++ [.sessionCredit due.1 due.2] } := by
  have opened : s.Opened due.1 := agreed.opened fun early => early.granting due.2 granting
  have sent := agreed.sendCredit due.2 opened fun window =>
    (agreed.quiet due.1 window).granting due.2 granting
  exact { sent with
    quiet := fun y window => { sent.quiet y window with granting := nofun }
    unopened := fun y early => { sent.unopened y early with granting := nofun } }

/-- A feeder with something to do changes, and takes in nothing. -/
theorem Agreed.setFeeder (feeder : Feeder) (count : ℕ)
    (opened : s.Opened x) (window : feeder.window = (s.feeders x).window)
    (items : feeder.items ⊆ (s.feeders x).items)
    (loud : (s.credits x).window = 0 → count = 0 ∧ feeder.owed = none) : Agreed terms { s with
      inputInFlight := Function.update s.inputInFlight x count
      feeders := Function.update s.feeders x feeder } := by
  have changed := agreed.update opened (s.credits x) count feeder (s.sessions x)
    (agreed.windows x) ?_ ?_ ?_
  · simpa only [update_eq_self] using changed
  · intro isZero
    have quiet := agreed.quiet x isZero
    refine ⟨isZero, quiet.bytes, (loud isZero).1, ?_, (loud isZero).2⟩
    rw [quiet.items] at items
    exact subset_nil.mp items
  · intro cs isHeld
    rw [window]
    exact agreed.held x cs isHeld
  · intro loaded
    rw [window]
    refine agreed.fed x fun none => loaded ?_
    rw [none] at items
    exact subset_nil.mp items

theorem Agreed.feedTake
    (unowed : (s.feeders x).owed = none) (step : s.feedTake x = some s') : s'.Agreed terms := by
  have opened : (s.feeders x).queue ≠ [] → s.Opened x := fun busy =>
    agreed.opened fun early => busy (by rw [early.feeder])
  unfold State.feedTake at step
  dsimp only at step
  split at step
  · cases step
  · rename_i item rest queue
    cases step
    have changed := agreed.setFeeder { s.feeders x with queue := rest, handing := some item }
      (s.inputInFlight x) (opened (by simp [queue])) rfl
      (by simp [items, queue])
      (fun isZero => ⟨(agreed.quiet x isZero).counted, unowed⟩)
    simpa only [update_eq_self] using changed
  · rename_i reason rest queue
    cases step
    have changed := agreed.setFeeder { s.feeders x with queue := rest, stopped := true }
      (s.inputInFlight x) (opened (by simp [queue])) rfl
      (by simp [items, queue])
      (fun isZero => ⟨(agreed.quiet x isZero).counted, unowed⟩)
    simpa only [update_eq_self] using changed

/-- A session whose feeder hands an item over has a window. -/
theorem Agreed.loud_of_handing
    (handing : (s.feeders x).handing = some item) : (s.credits x).window ≠ 0 := by
  intro isZero
  have none := (agreed.quiet x isZero).items
  simp [items, handing] at none

theorem Agreed.handed
    (handing : (s.feeders x).handing = some item) : Agreed terms (s.handed x item) := by
  refine agreed.setFeeder _ _ (agreed.opened fun early => ?_) rfl (by simp [items]) ?_
  · rw [early.feeder] at handing
    cases handing
  · exact fun isZero => absurd isZero (agreed.loud_of_handing handing)

theorem Agreed.feedCredit {owed : ℕ} (isOwed : (s.feeders x).owed = some owed) :
    Agreed terms { s with
      feeders := Function.update s.feeders x { s.feeders x with owed := none }
      toEdge := s.toEdge ++ [.sessionCredit x owed] } := by
  have opened : s.Opened x := agreed.opened fun early => by
    rw [early.feeder] at isOwed
    cases isOwed
  have loud : (s.credits x).window ≠ 0 := fun isZero => by
    rw [(agreed.quiet x isZero).owed] at isOwed
    cases isOwed
  have changed := agreed.setFeeder { s.feeders x with owed := none } (s.inputInFlight x) opened rfl
    (by simp [items]) (fun isZero => absurd isZero loud)
  simp only [update_eq_self] at changed
  exact changed.sendCredit owed opened fun isZero => absurd isZero loud

theorem Agreed.feedStop (handing : (s.feeders x).handing.isSome) : Agreed terms { s with
      feeders := Function.update s.feeders x
        { s.feeders x with stopped := true, handing := none } } := by
  obtain ⟨item, isHanding⟩ := isSome_iff_exists.mp handing
  have changed := agreed.setFeeder { s.feeders x with stopped := true, handing := none }
    (s.inputInFlight x) (agreed.opened fun early => by simp [early.feeder] at handing) rfl
    (by simp [items]) (fun isZero => absurd isZero (agreed.loud_of_handing isHanding))
  simpa only [update_eq_self] using changed

theorem Agreed.pushed (input : Input) : Agreed terms (s.pushed terms input) := by
  unfold State.pushed
  dsimp only
  split
  · split
    · have taken : Agreed terms { s with
          linesInFlight := s.linesInFlight - 1, current := none, returned := 0 } := agreed.same
      exact taken.sendDown (by simp)
    · exact agreed.same
  · exact agreed.same

theorem Agreed.step {e : Event} (step : s.step terms e = some s') : s'.Agreed terms := by
  obtain ⟨_, step⟩ := guard_bind_eq_some.mp step
  cases e with
  | register x =>
    obtain ⟨new, rfl⟩ := guard_some_eq_some.mp step
    exact agreed.register new
  | push x item | dropWaiting x item =>
    obtain ⟨_, rfl⟩ := guard_some_eq_some.mp step
    exact agreed.same
  | acquire x item =>
    obtain ⟨_, step⟩ := guard_bind_eq_some.mp step
    obtain ⟨spent, isSpent, step⟩ := bind_eq_some_iff.mp step
    cases step
    rw [← (spend_keeps isSpent).1]
    exact agreed.spend isSpent
  | send x item =>
    obtain ⟨among, rfl⟩ := guard_some_eq_some.mp step
    have left := agreed.fewer (erase_subset : s.sending.erase (x, item) ⊆ s.sending)
      (List.Sublist.refl _) (List.Subset.refl _)
    refine left.sendUp rfl ?_
    rintro _ _ ⟨⟩ own window
    exact (agreed.quiet x window).sending own item among
  | dropSending x item =>
    obtain ⟨_, rfl⟩ := guard_some_eq_some.mp step
    exact agreed.fewer erase_subset (List.Sublist.refl _) (List.Subset.refl _)
  | tellClosed x reason =>
    cases step
    exact agreed.sendUp rfl (by simp)
  | letGo x =>
    cases step
    exact agreed.same
  | readEdge =>
    dsimp only at step
    split at step
    · cases step
    · rename_i frame rest head
      cases step
      exact agreed.readEdge head
  | readCore refused =>
    obtain ⟨idle, step⟩ := guard_bind_eq_some.mp step
    split at step
    · cases step
    · rename_i frame rest head
      cases step
      exact agreed.readCore head refused
  | grant =>
    obtain ⟨due, granting, step⟩ := bind_eq_some_iff.mp step
    cases step
    exact agreed.grant granting
  | endSession x =>
    cases step
    exact agreed.sendDown (by simp)
  | removeSession x =>
    cases step
    exact agreed.setSession none (by simp)
  | take =>
    obtain ⟨_, step⟩ := guard_bind_eq_some.mp step
    split at step
    · cases step
    · cases step
      exact agreed.same
  | handedOver =>
    obtain ⟨input, _, step⟩ := bind_eq_some_iff.mp step
    cases step
    exact agreed.pushed input
  | feedTake x =>
    obtain ⟨⟨_, idle, unowed⟩, step⟩ := guard_bind_eq_some.mp step
    exact agreed.feedTake unowed step
  | feedHanded x =>
    obtain ⟨item, handing, step⟩ := bind_eq_some_iff.mp step
    cases step
    exact agreed.handed handing
  | feedCredit x =>
    obtain ⟨owed, isOwed, step⟩ := bind_eq_some_iff.mp step
    cases step
    exact agreed.feedCredit isOwed
  | feedStop x =>
    obtain ⟨handing, rfl⟩ := guard_some_eq_some.mp step
    exact agreed.feedStop handing

end

theorem agreed_init (terms : Terms) : (flow terms).init.Agreed terms where
  windows _ := .inl rfl
  quiet x _ := by constructor <;> simp [flow, items]
  held := by simp [flow]
  fed x loaded := absurd rfl loaded
  unopened x _ := by constructor <;> simp [flow]
  kinds := by simp [flow]
  once := nodup_nil

end State

end E6irc.CoreLink.Flow
