import E6irc.CoreLink.Agreement

/-!
# Credit is never overspent

A stream has one account for its lines and one for each session with a window of
its own.  `State.total` adds up what is out on an account: with the edge, spent
on an item that is on its way, counted by the core, or on its way back.  No step
adds to it but the first grant of a session, before which nothing is out; so
what the core counts never goes past the account's limit.
-/

namespace E6irc.CoreLink.Flow

open Base List Option Function State

inductive Account
  | stream
  | session (session : SessionId)
deriving DecidableEq, Repr

namespace Terms

variable (terms : Terms)

def limit : Account → ℕ
  | .stream => terms.lineCredit
  | .session session => terms.window (terms.kind session)

/-- What an item on its way holds of an account. -/
def cost (account : Account) (entry : SessionId × Item) : ℕ :=
  match account with
  | .stream => if terms.kind entry.1 = .irc then 1 else 0
  | .session session =>
    if entry.1 = session then min entry.2.weight (terms.window (terms.kind session)) else 0

theorem window_lt (kind : SessionKind) : terms.window kind < 2 ^ 32 := by
  cases kind with
  | irc => exact Nat.two_pow_pos 32
  | attach => exact terms.attach_lt
  | ui => exact terms.ui_lt

theorem charge32_eq (weight : ℕ) (kind : SessionKind) :
    charge32 weight (terms.window kind) = min weight (terms.window kind) := by
  have small := terms.window_lt kind
  unfold charge32
  omega

theorem charge64_eq (weight : ℕ) (kind : SessionKind) :
    charge64 weight (terms.window kind) = min weight (terms.window kind) := by
  have small := terms.window_lt kind
  unfold charge64
  omega

end Terms

def EdgeFrame.cost (terms : Terms) (account : Account) : EdgeFrame → ℕ
  | .input session item => terms.cost account (session, item)
  | .openSession _ _ | .closed _ _ => 0

def CoreFrame.amount (account : Account) : CoreFrame → ℕ
  | .streamCredit lines => if account = .stream then lines else 0
  | .sessionCredit session bytes => if account = .session session then bytes else 0
  | .endSession _ => 0

/-- The frame was more than the peer's credit covered. -/
def Fault.pastCredit : Fault → Bool
  | .linesPastCredit | .inputPastCredit => true
  | _ => false

namespace State

variable (terms : Terms) (s : State)

def atEdge : Account → ℕ
  | .stream => s.credit
  | .session session => (s.credits session).bytes

def inFlight : Account → ℕ
  | .stream => s.linesInFlight
  | .session session => s.inputInFlight session

/-- Credit taken off the count, or about to be granted, and not yet sent. -/
def owing : Account → ℕ
  | .stream => s.returned
  | .session session =>
    (s.feeders session).owed.getD 0 +
      (s.granting.toList.map fun granting => if granting.1 = session then granting.2 else 0).sum

/-- What will be taken off the count. -/
def queued : Account → ℕ
  | .stream => s.inputs.countP Input.isLine + s.current.toList.countP Input.isLine
  | .session session =>
    ((s.feeders session).items.map fun item => terms.cost (.session session) (session, item)).sum

def total (account : Account) : ℕ :=
  s.atEdge account + (s.sending.map (terms.cost account)).sum +
    (s.toCore.map (EdgeFrame.cost terms account)).sum + s.inFlight account + s.owing account +
    (s.toEdge.map (CoreFrame.amount account)).sum

end State

namespace State

attribute [local simp] total atEdge inFlight owing queued CoreFrame.amount Feeder.items Terms.cost

variable {terms : Terms} {s s' : State} {account : Account}

/-! ## The edge -/

theorem sum_map_erase_add {entry : SessionId × Item} {entries : List (SessionId × Item)}
    (among : entry ∈ entries) (account : Account) :
    ((entries.erase entry).map (terms.cost account)).sum + terms.cost account entry =
      (entries.map (terms.cost account)).sum := by
  rw [((perm_cons_erase among).map (terms.cost account)).sum_eq, map_cons, sum_cons, add_comm]

variable {x : SessionId} {item : Item}

/-- Credit that is spent pays for the item. -/
theorem total_spend (agreed : s.Agreed terms) (spent : s.spend terms x item = some s') :
    s'.total terms account + terms.cost account (x, item) = s.total terms account ∧
      s'.queued terms account = s.queued terms account ∧
      s'.inFlight account = s.inFlight account := by
  unfold spend at spent
  split at spent
  · rename_i irc
    rw [ite_none_right_eq_some] at spent
    obtain ⟨enough, spent⟩ := spent
    cases spent
    refine ⟨?_, rfl, rfl⟩
    cases account with
    | stream =>
      simp only [total, atEdge, Terms.cost, irc, if_true, inFlight, owing]
      omega
    | session y =>
      have free : terms.cost (.session y) (x, item) = 0 := by
        simp only [Terms.cost]
        split
        · rename_i same
          rw [← same, irc]
          simp [Terms.window]
        · rfl
      rw [free]
      rfl
  all_goals
    rename_i kind
    dsimp only at spent
    rw [ite_none_right_eq_some] at spent
    obtain ⟨⟨window, enough⟩, spent⟩ := spent
    cases spent
    have isWindow := (agreed.windows x).resolve_left window
    rw [isWindow, terms.charge32_eq] at enough
    refine ⟨?_, rfl, rfl⟩
    cases account with
    | stream =>
      simp [kind]
    | session y =>
      rcases eq_or_ne x y with rfl | apart
      · simp only [total, atEdge, update_self, Terms.cost, if_true, inFlight, owing,
          isWindow, terms.charge32_eq]
        omega
      · simp [apart, Ne.symm apart]

/-- A grant the edge reads moves into its credit, or is lost. -/
theorem total_readEdge {frame : CoreFrame} {rest : List CoreFrame}
    (head : s.toEdge = frame :: rest) :
    ({ s with toEdge := rest }.readEdge terms frame).total terms account ≤ s.total terms account ∧
      ({ s with toEdge := rest }.readEdge terms frame).queued terms account =
        s.queued terms account ∧
      ({ s with toEdge := rest }.readEdge terms frame).inFlight account = s.inFlight account := by
  have popped : total terms { s with toEdge := rest } account + frame.amount account =
      s.total terms account := by
    simp only [total, head, map_cons, sum_cons, atEdge, inFlight, owing]
    cases account <;> dsimp only <;> omega
  have lost : total terms { s with toEdge := rest } account ≤ s.total terms account := by
    omega
  cases frame with
  | endSession x => exact ⟨lost, rfl, rfl⟩
  | streamCredit lines =>
    simp only [readEdge]
    split
    · exact ⟨lost, rfl, rfl⟩
    rename_i credit granted
    refine ⟨?_, rfl, rfl⟩
    rw [grant_eq granted]
    cases account with
    | stream =>
      simp only [CoreFrame.amount, if_true] at popped
      rw [← popped]
      simp only [total, atEdge, inFlight, owing]
      omega
    | session y => exact lost
  | sessionCredit x amount =>
    simp only [readEdge]
    split
    · split
      · exact ⟨lost, rfl, rfl⟩
      rename_i bytes granted
      refine ⟨?_, rfl, rfl⟩
      rw [grant_eq granted]
      cases account with
      | stream => exact lost
      | session y =>
        rcases eq_or_ne x y with rfl | apart
        · simp only [CoreFrame.amount, if_true] at popped
          rw [← popped]
          simp only [total, atEdge, inFlight, owing, update_self]
          omega
        · refine le_trans (le_of_eq ?_) lost
          simp [Ne.symm apart]
    · exact ⟨lost, rfl, rfl⟩

/-! ## The core -/

/-- What a feeder takes in adds its items to what will be taken off the count. -/
theorem total_feed (terms : Terms) (s : State) (x : SessionId) (input : SessionInput)
    (account : Account) :
    (s.feed x input).total terms account = s.total terms account ∧
      (s.feed x input).inFlight account = s.inFlight account ∧
      (s.feed x input).queued terms account ≤ s.queued terms account +
        match input with
        | .item item => terms.cost account (x, item)
        | .closed _ => 0 := by
  unfold feed
  dsimp only
  split
  · exact ⟨rfl, rfl, Nat.le_add_right _ _⟩
  cases account with
  | stream => exact ⟨rfl, rfl, Nat.le_add_right _ _⟩
  | session y =>
    rcases eq_or_ne y x with rfl | apart
    · refine ⟨?_, rfl, ?_⟩
      · simp
      cases input with
      | item item =>
        simp
        omega
      | closed reason => simp
    · refine ⟨?_, rfl, ?_⟩
      · simp [apart]
      · simp [apart]

/-- An item read for a session with a window is counted at what it cost. -/
theorem total_sessionInput (agreed : s.Agreed terms) {held : CoreSession}
    (item : Item) (isHeld : s.sessions x = some held) (own : terms.kind x ≠ .irc)
    (account : Account) : (s.sessionInput x held item).total terms account =
        s.total terms account + terms.cost account (x, item) ∧
      (s.sessionInput x held item).inFlight account =
        s.inFlight account + terms.cost account (x, item) ∧
      (s.sessionInput x held item).queued terms account ≤
        s.queued terms account + terms.cost account (x, item) := by
  have window := (agreed.held x held isHeld).2.1
  have counted : ∀ account, total terms { s with
        inputInFlight := Function.update s.inputInFlight x
          (s.inputInFlight x + charge64 item.weight held.window) } account =
        s.total terms account + terms.cost account (x, item) ∧
      inFlight { s with
        inputInFlight := Function.update s.inputInFlight x
          (s.inputInFlight x + charge64 item.weight held.window) } account =
        s.inFlight account + terms.cost account (x, item) := by
    intro account
    rw [window, terms.charge64_eq]
    cases account with
    | stream => simp [own]
    | session y =>
      rcases eq_or_ne x y with rfl | apart
      · constructor
        · simp only [total, atEdge, inFlight, owing, Terms.cost, update_self, if_true]
          omega
        · simp
      · simp [apart, Ne.symm apart]
  unfold sessionInput
  dsimp only
  split
  · exact ⟨(counted account).1, (counted account).2, Nat.le_add_right _ _⟩
  split
  · obtain ⟨total, inFlight, queued⟩ := total_feed terms { s with
      inputInFlight := Function.update s.inputInFlight x
        (s.inputInFlight x + charge64 item.weight held.window) } x (.item item) account
    exact ⟨total.trans (counted account).1, inFlight.trans (counted account).2, queued⟩
  · exact ⟨(counted account).1, (counted account).2, Nat.le_add_right _ _⟩

/-- One step adds at most `gain` to what is out on an account, and takes nothing
off the count that is not on it. -/
structure Kept (terms : Terms) (account : Account) (gain : ℕ) (s s' : State) : Prop where
  total : s'.total terms account ≤ s.total terms account + gain
  counted : s.queued terms account ≤ s.inFlight account →
    s'.queued terms account ≤ s'.inFlight account

theorem kept_input (agreed : s.Agreed terms) (x : SessionId) (item : Item) (account : Account) :
    Kept terms account (terms.cost account (x, item)) s (s.input terms x item) := by
  unfold input
  split
  · exact ⟨Nat.le_add_right _ _, id⟩
  rename_i held isHeld
  have kind := (agreed.held x held isHeld).1
  have own : ∀ isKind, held.kind = isKind → isKind ≠ .irc →
      Kept terms account (terms.cost account (x, item)) s (s.sessionInput x held item) := by
    intro isKind same other
    obtain ⟨total, inFlight, queued⟩ :=
      total_sessionInput agreed item isHeld (by rw [← kind, same]; exact other) account
    exact ⟨total.le, fun before => by omega⟩
  split
  · rename_i event isIrc
    rw [isIrc] at kind
    dsimp only
    cases account with
    | stream =>
      have one : terms.cost .stream (x, .line event) = 1 := by simp [← kind]
      split
      · refine ⟨?_, fun before => ?_⟩
        · rw [one]
          simp only [total, broken, atEdge, inFlight, owing]
          omega
        · exact before.trans (Nat.le_succ _)
      · refine ⟨?_, fun before => ?_⟩
        · rw [one]
          simp only [total, atEdge, inFlight, owing]
          omega
        · simp only [queued, inFlight] at before ⊢
          simp only [countP_append, countP_singleton, Input.isLine_framed, if_true]
          omega
    | session y => split <;> exact ⟨Nat.le_add_right _ _, id⟩
  · rename_i isAttach
    exact own _ isAttach (by simp)
  · exact ⟨Nat.le_add_right _ _, id⟩
  · rename_i isUi
    exact own _ isUi (by simp)
  · exact ⟨Nat.le_add_right _ _, id⟩

variable {frame : EdgeFrame}

/-- A frame that costs nothing goes up. -/
theorem kept_sendUp {registered live : List SessionId} (free : frame.cost terms account = 0) :
    Kept terms account 0 s { s with registered, live, toCore := s.toCore ++ [frame] } := by
  refine ⟨?_, id⟩
  simp only [total, map_append, sum_append, map_singleton, sum_singleton, free]
  rfl

theorem faults_closed (x : SessionId) (reason : ClosedReason) :
    (s.closed x reason).faults = s.faults := by
  have told : (s.feed x (.closed reason)).faults = s.faults := by
    unfold feed
    dsimp only
    split <;> rfl
  unfold closed
  dsimp only
  repeat' split
  all_goals first | rfl | exact told

theorem kept_closed (x : SessionId) (reason : ClosedReason) (account : Account) :
    Kept terms account 0 s (s.closed x reason) := by
  have told : Kept terms account 0 s (s.feed x (.closed reason)) := by
    obtain ⟨total, inFlight, queued⟩ := total_feed terms s x (.closed reason) account
    exact ⟨total.le, fun before => by rw [inFlight]; exact queued.trans before⟩
  have toShard : Kept terms account 0 s { s with inputs := s.inputs ++ [.closed x reason] } := by
    refine ⟨le_rfl, fun before => ?_⟩
    cases account with
    | stream => simpa [Input.isLine] using before
    | session y => exact before
  unfold closed
  split
  · exact ⟨le_rfl, id⟩
  dsimp only
  split
  · split
    · exact ⟨toShard.total, toShard.counted⟩
    · split
      · exact ⟨told.total, told.counted⟩
      · exact ⟨le_rfl, id⟩
  · split
    · exact ⟨told.total, told.counted⟩
    · exact toShard

/-! ## Items handed over -/

/-- A line that the shard has is off the count, and owed or on its way. -/
theorem kept_pushed {input : Input} (current : s.current = some input)
    (counted : s.queued terms .stream ≤ s.inFlight .stream) (account : Account) :
    Kept terms account 0 s (s.pushed terms input) := by
  simp only [queued, inFlight, current, toList_some, countP_singleton] at counted
  unfold pushed
  dsimp only
  split
  · rename_i line
    rw [line, if_pos rfl] at counted
    cases account with
    | stream =>
      split
      · refine ⟨?_, fun _ => ?_⟩
        · simp only [total, atEdge, inFlight, owing, map_append, sum_append,
            map_singleton, sum_singleton, CoreFrame.amount, if_true]
          omega
        · simp only [queued, inFlight, toList_none, countP_nil]
          omega
      · refine ⟨?_, fun _ => ?_⟩
        · simp only [total, atEdge, inFlight, owing]
          omega
        · simp only [queued, inFlight, toList_none, countP_nil]
          omega
    | session y =>
      split
      · refine ⟨?_, id⟩
        simp
      · exact ⟨le_rfl, id⟩
  · refine ⟨le_rfl, fun before => ?_⟩
    cases account with
    | stream =>
      simp only [queued, inFlight, toList_none, countP_nil]
      omega
    | session y => exact before

/-- An item that was handed over is off the count, and its credit owed. -/
theorem kept_handed (agreed : s.Agreed terms) (handing : (s.feeders x).handing = some item)
    (counted : s.queued terms (.session x) ≤ s.inFlight (.session x)) (account : Account) :
    Kept terms account 0 s (s.handed x item) := by
  have window := agreed.fed x (by simp [handing])
  simp only [queued, inFlight, Feeder.items, handing, map_append, sum_append,
    toList_some, map_singleton, sum_singleton, Terms.cost, if_true] at counted
  unfold handed
  rw [window, terms.charge32_eq]
  cases account with
  | stream => exact ⟨le_rfl, id⟩
  | session y =>
    rcases eq_or_ne x y with rfl | apart
    · refine ⟨?_, fun _ => ?_⟩
      · simp only [total, atEdge, inFlight, owing, update_self, getD_some]
        omega
      · simp only [queued, inFlight, update_self, Feeder.items, toList_none,
          append_nil, Terms.cost, if_true]
        omega
    · refine ⟨le_of_eq ?_, fun before => ?_⟩
      · simp [Ne.symm apart]
      · simpa [Ne.symm apart] using before

/-- A feeder that keeps what it owes and takes in no item keeps both sides. -/
theorem kept_setFeeder (feeder : Feeder)
    (owed : feeder.owed = (s.feeders x).owed) (lost : List Item)
    (items : (s.feeders x).items.Perm (feeder.items ++ lost)) (account : Account) :
    Kept terms account 0 s { s with feeders := Function.update s.feeders x feeder } := by
  cases account with
  | stream => exact ⟨le_rfl, id⟩
  | session y =>
    rcases eq_or_ne y x with rfl | apart
    · refine ⟨?_, fun before => le_trans ?_ before⟩
      · simp [owed]
      · simp only [queued, update_self]
        rw [(items.map _).sum_eq, map_append, sum_append]
        exact Nat.le_add_right _ _
    · refine ⟨?_, fun before => ?_⟩
      · simp [apart]
      · simpa [apart] using before

/-- A credit that is owed goes out. -/
theorem kept_feedCredit {owed : ℕ} (isOwed : (s.feeders x).owed = some owed) (account : Account) :
    Kept terms account 0 s { s with
      feeders := Function.update s.feeders x { s.feeders x with owed := none }
      toEdge := s.toEdge ++ [.sessionCredit x owed] } := by
  cases account with
  | stream => exact ⟨by simp, id⟩
  | session y =>
    rcases eq_or_ne x y with rfl | apart
    · refine ⟨?_, fun before => ?_⟩
      · simp only [total, atEdge, inFlight, owing, update_self, isOwed,
          getD_some, getD_none, map_append, sum_append,
          map_singleton, sum_singleton, CoreFrame.amount, if_true]
        omega
      · simpa using before
    · refine ⟨?_, fun before => ?_⟩
      · simp [Ne.symm apart]
      · simpa [Ne.symm apart] using before

theorem kept_grant {due : SessionId × ℕ} (granting : s.granting = some due) (account : Account) :
    Kept terms account 0 s { s with
      granting := none
      toEdge := s.toEdge ++ [.sessionCredit due.1 due.2] } := by
  refine ⟨?_, id⟩
  cases account with
  | stream => simp
  | session y =>
    rcases eq_or_ne due.1 y with rfl | apart
    · simp only [total, atEdge, inFlight, owing, granting, toList_some,
        toList_none, map_append, sum_append, map_singleton, map_nil,
        sum_nil, sum_singleton, CoreFrame.amount, if_true]
      omega
    · simp [granting, apart, Ne.symm apart]

/-! ## Within the limits -/

/-- No frame was refused for want of credit. -/
def InCredit (s : State) : Prop :=
  ∀ fault ∈ s.faults, fault.pastCredit = false

theorem InCredit.broken (inCredit : s.InCredit) {fault : Fault}
    (other : fault.pastCredit = false) : (s.broken fault).InCredit := by
  intro found among
  rcases mem_append.mp among with before | last
  · exact inCredit found before
  · rw [mem_singleton.mp last]
    exact other

/-- What is out on every account is within its limit, and what will be taken off
a count is on it; no frame was refused for want of credit. -/
structure Within (terms : Terms) (s : State) : Prop where
  total : ∀ account, s.total terms account ≤ terms.limit account
  counted : ∀ account, s.queued terms account ≤ s.inFlight account
  inCredit : s.InCredit

theorem Within.kept (within : s.Within terms) (kept : ∀ account, Kept terms account 0 s s')
    (faults : s'.faults = s.faults) : s'.Within terms where
  total account := (kept account).total.trans (within.total account)
  counted account := (kept account).counted (within.counted account)
  inCredit := by
    unfold InCredit
    rw [faults]
    exact within.inCredit

theorem inFlight_le_total (s : State) (account : Account) :
    s.inFlight account ≤ s.total terms account := by
  unfold total
  omega

variable {rest : List EdgeFrame}

theorem Within.popped (within : s.Within terms) (head : s.toCore = frame :: rest) :
    Within terms { s with toCore := rest } := by
  refine ⟨fun account => le_trans ?_ (within.total account), within.counted, within.inCredit⟩
  simp only [State.total, head, map_cons, sum_cons]
  cases account <;> simp only [atEdge, inFlight, owing] <;> omega

/-- Before a session is opened nothing is out on its account. -/
theorem total_unopened (early : s.Unopened x) (quiet : s.Quiet terms x)
    (own : terms.kind x ≠ .irc) : s.total terms (.session x) = 0 := by
  have sending : (s.sending.map (terms.cost (.session x))).sum = 0 := by
    refine sum_eq_zero fun cost among => ?_
    obtain ⟨⟨y, item⟩, sent, rfl⟩ := mem_map.mp among
    have apart : y ≠ x := by
      rintro rfl
      exact quiet.sending own item sent
    simp [apart]
  have toCore : (s.toCore.map (EdgeFrame.cost terms (.session x))).sum = 0 := by
    refine sum_eq_zero fun cost among => ?_
    obtain ⟨frame, sent, rfl⟩ := mem_map.mp among
    cases frame with
    | input y item =>
      have apart : y ≠ x := by
        rintro rfl
        exact quiet.toCore own item sent
      simp [EdgeFrame.cost, apart]
    | _ => rfl
  have toEdge : (s.toEdge.map (CoreFrame.amount (.session x))).sum = 0 := by
    refine sum_eq_zero fun cost among => ?_
    obtain ⟨frame, sent, rfl⟩ := mem_map.mp among
    cases frame with
    | sessionCredit y bytes =>
      have apart : x ≠ y := by
        rintro rfl
        exact early.grants bytes sent
      simp [apart]
    | _ => rfl
  have granting : (s.granting.toList.map
      fun granting => if granting.1 = x then granting.2 else 0).sum = 0 := by
    cases due : s.granting with
    | none => rfl
    | some due' =>
      have apart : due'.1 ≠ x := by
        rintro rfl
        exact early.granting due'.2 due
      simp [apart]
  simp only [total, atEdge, inFlight, owing, early.credits, early.counted, early.feeder, sending,
    toCore, toEdge, granting]
  rfl

/-- Opening a session puts its window out on its account, and nothing else. -/
theorem Within.openSession (within : s.Within terms) (agreed : s.Agreed terms)
    (refused : Bool) (early : s.Unopened x) (idle : s.granting = none) :
    Within terms (s.openSession terms x (terms.kind x) refused) := by
  have quiet := agreed.quiet x (by rw [early.credits])
  unfold State.openSession
  split
  · exact ⟨within.total, within.counted, within.inCredit.broken rfl⟩
  split
  · exact ⟨within.total, within.counted, within.inCredit.broken rfl⟩
  split
  · refine ⟨fun account => ?_, within.counted, within.inCredit⟩
    refine le_trans (le_of_eq ?_) (within.total account)
    simp only [State.total, map_append, sum_append]
    rfl
  split
  · refine ⟨within.total, fun account => ?_, within.inCredit⟩
    have counted := within.counted account
    cases account with
    | stream => simpa [queued, Input.isLine] using counted
    | session y => exact counted
  all_goals
    rename_i kind
    have nothing := total_unopened early quiet (by simp [kind])
    refine ⟨?_, ?_, within.inCredit⟩
    · intro account
      have before := within.total account
      cases account with
      | stream => exact before
      | session y =>
        rcases eq_or_ne y x with rfl | apart
        · simp only [State.total, State.atEdge, State.inFlight, State.owing, early.credits,
            Nat.add_eq_zero_iff] at nothing
          simp [Terms.limit, nothing, early.credits, kind]
        · refine le_trans (le_of_eq ?_) before
          simp [apart, apart.symm, idle]
    · intro account
      have before := within.counted account
      cases account with
      | stream => exact before
      | session y =>
        rcases eq_or_ne y x with rfl | apart
        · simp [queued]
        · simpa [queued, apart] using before

theorem InCredit.sessionInput (inCredit : s.InCredit) (x : SessionId) (held : CoreSession)
    (item : Item) (most : (s.sessionInput x held item).inputInFlight x ≤ held.window) :
    (s.sessionInput x held item).InCredit := by
  unfold State.sessionInput at most ⊢
  dsimp only at most ⊢
  split at most
  · rename_i past
    simp only [State.broken, update_self] at most
    omega
  · rw [if_neg ‹_›]
    split
    · unfold feed
      dsimp only
      split <;> exact inCredit
    · exact inCredit

/-- An item is refused for want of credit only with its count past the limit. -/
theorem Agreed.inCredit_input (agreed : s.Agreed terms) (x : SessionId) (item : Item)
    (most : ∀ account, (s.input terms x item).inFlight account ≤ terms.limit account)
    (inCredit : s.InCredit) : (s.input terms x item).InCredit := by
  unfold State.input at most ⊢
  split at most
  · exact inCredit
  rename_i held isHeld
  obtain ⟨kind, window, _⟩ := agreed.held x held isHeld
  dsimp only
  split at most
  · have lines := most .stream
    dsimp only at lines ⊢
    split at lines
    · rename_i past
      simp only [State.broken, inFlight, Terms.limit] at lines
      omega
    · rw [if_neg ‹_›]
      exact inCredit
  · refine inCredit.sessionInput x held _ ?_
    rw [window]
    exact most (.session x)
  · exact inCredit.broken rfl
  · refine inCredit.sessionInput x held _ ?_
    rw [window]
    exact most (.session x)
  · exact inCredit.broken rfl

/-- A frame read off the stream is counted at no more than it cost there. -/
theorem Within.input (within : s.Within terms) (agreed : s.Agreed terms)
    (head : s.toCore = .input x item :: rest) :
    Within terms (input terms { s with toCore := rest } x item) := by
  have popped : Agreed terms { s with toCore := rest } :=
    agreed.fewer (List.Subset.refl _) (by simp [head]) (List.Subset.refl _)
  have cheaper : ∀ account, State.total terms { s with toCore := rest } account +
      terms.cost account (x, item) = s.total terms account := by
    intro account
    simp only [State.total, head, map_cons, sum_cons, EdgeFrame.cost]
    cases account <;> simp only [atEdge, inFlight, owing] <;> omega
  have total (account : Account) :
      (State.input terms { s with toCore := rest } x item).total terms account ≤
        terms.limit account := by
    have kept := (kept_input popped x item account).total
    rw [cheaper account] at kept
    exact kept.trans (within.total account)
  refine ⟨total, fun account => ?_, ?_⟩
  · exact (kept_input popped x item account).counted (within.counted account)
  · refine popped.inCredit_input x item (fun account => ?_) within.inCredit
    exact (inFlight_le_total _ account).trans (total account)

theorem Within.readCore (within : s.Within terms) (agreed : s.Agreed terms)
    (head : s.toCore = frame :: rest) (refused : Bool) (idle : s.granting = none) :
    Within terms ({ s with toCore := rest }.readCore terms refused frame) := by
  have popped : Agreed terms { s with toCore := rest } :=
    agreed.fewer (List.Subset.refl _) (by simp [head]) (List.Subset.refl _)
  cases frame with
  | openSession x kind =>
    have sent : .openSession x kind ∈ s.toCore := by simp [head]
    obtain ⟨rfl, _⟩ := agreed.kinds x kind sent
    have early := agreed.unopened x (.inr ⟨_, sent⟩)
    exact (within.popped head).openSession popped refused { early with } idle
  | input x item => exact within.input agreed head
  | closed x reason =>
    refine (within.popped head).kept (fun account => kept_closed x reason account) ?_
    exact faults_closed x reason

theorem Within.step (within : s.Within terms) (agreed : s.Agreed terms) {e : Event}
    (step : s.step terms e = some s') : s'.Within terms := by
  obtain ⟨_, step⟩ := guard_bind_eq_some.mp step
  cases e with
  | register x =>
    obtain ⟨_, rfl⟩ := guard_some_eq_some.mp step
    exact within.kept (fun account => kept_sendUp rfl) rfl
  | push x item | dropWaiting x item =>
    obtain ⟨_, rfl⟩ := guard_some_eq_some.mp step
    exact ⟨within.total, within.counted, within.inCredit⟩
  | acquire x item =>
    obtain ⟨_, step⟩ := guard_bind_eq_some.mp step
    obtain ⟨spent, isSpent, step⟩ := bind_eq_some_iff.mp step
    cases step
    obtain ⟨sending, faults⟩ := spend_keeps isSpent
    refine within.kept (fun account => ?_) faults
    obtain ⟨total, queued, inFlight⟩ := total_spend agreed isSpent
    refine ⟨le_of_eq (Eq.trans ?_ total), fun before => ?_⟩
    · rw [← sending]
      simp only [State.total, map_append, sum_append, map_singleton, sum_singleton]
      cases account <;> simp only [State.atEdge, State.inFlight, State.owing] <;> omega
    · exact (queued.le.trans before).trans inFlight.ge
  | send x item =>
    obtain ⟨among, rfl⟩ := guard_some_eq_some.mp step
    refine within.kept (fun account => ⟨?_, id⟩) rfl
    rw [State.total, State.total, ← sum_map_erase_add among account, map_append,
      sum_append, map_singleton, sum_singleton]
    cases account <;>
      simp only [atEdge, inFlight, owing, EdgeFrame.cost] <;> omega
  | dropSending x item =>
    obtain ⟨among, rfl⟩ := guard_some_eq_some.mp step
    refine within.kept (fun account => ⟨?_, id⟩) rfl
    rw [State.total, State.total, ← sum_map_erase_add among account]
    cases account <;> simp only [atEdge, inFlight, owing] <;> omega
  | tellClosed x reason =>
    cases step
    exact within.kept (fun account => kept_sendUp rfl) rfl
  | letGo x | removeSession x =>
    cases step
    exact ⟨within.total, within.counted, within.inCredit⟩
  | readEdge =>
    dsimp only at step
    split at step
    · cases step
    rename_i frame rest head
    cases step
    refine within.kept (fun account => ⟨(total_readEdge head).1, fun before => ?_⟩) ?_
    · rw [(total_readEdge head).2.1, (total_readEdge head).2.2]
      exact before
    cases frame with
    | endSession y => rfl
    | streamCredit lines =>
      simp only [readEdge]
      split <;> rfl
    | sessionCredit y amount =>
      simp only [readEdge]
      repeat' split
      all_goals rfl
  | readCore refused =>
    obtain ⟨idle, step⟩ := guard_bind_eq_some.mp step
    split at step
    · cases step
    · rename_i frame rest head
      cases step
      exact within.readCore agreed head refused idle
  | grant =>
    obtain ⟨due, granting, step⟩ := bind_eq_some_iff.mp step
    cases step
    exact within.kept (kept_grant granting) rfl
  | endSession x =>
    cases step
    refine within.kept (fun account => ⟨le_of_eq ?_, id⟩) rfl
    simp only [State.total, map_append, sum_append, map_singleton, sum_singleton, CoreFrame.amount]
    rfl
  | take =>
    obtain ⟨idle, step⟩ := guard_bind_eq_some.mp step
    split at step
    · cases step
    rename_i input rest inputs
    cases step
    refine within.kept (fun account => ⟨le_rfl, fun before => ?_⟩) rfl
    cases account with
    | stream =>
      simp only [queued, inFlight, inputs, idle, countP_cons,
        toList_some, toList_none, countP_nil] at before ⊢
      omega
    | session y => exact before
  | handedOver =>
    obtain ⟨input, current, step⟩ := bind_eq_some_iff.mp step
    cases step
    refine within.kept (kept_pushed current (within.counted .stream)) ?_
    unfold pushed
    dsimp only
    repeat' split
    all_goals rfl
  | feedTake x =>
    obtain ⟨⟨_, idle, _⟩, step⟩ := guard_bind_eq_some.mp step
    unfold feedTake at step
    dsimp only at step
    split at step
    · cases step
    · rename_i item rest queue
      cases step
      refine within.kept (kept_setFeeder _ rfl [] ?_) rfl
      simp only [Feeder.items, queue, idle, toList_none, toList_some, append_nil]
      exact (perm_append_singleton _ _).symm
    · rename_i reason rest queue
      cases step
      refine within.kept (kept_setFeeder _ rfl [] ?_) rfl
      simp [queue]
  | feedHanded x =>
    obtain ⟨item, handing, step⟩ := bind_eq_some_iff.mp step
    cases step
    exact within.kept (kept_handed agreed handing (within.counted (.session x))) rfl
  | feedCredit x =>
    obtain ⟨owed, isOwed, step⟩ := bind_eq_some_iff.mp step
    cases step
    exact within.kept (kept_feedCredit isOwed) rfl
  | feedStop x =>
    obtain ⟨_, rfl⟩ := guard_some_eq_some.mp step
    refine within.kept (kept_setFeeder _ rfl (s.feeders x).handing.toList ?_) rfl
    exact .of_eq (by simp)

theorem within_init (terms : Terms) : (flow terms).init.Within terms where
  total account := by
    cases account with
    | stream => exact le_rfl
    | session x => exact Nat.zero_le _
  counted account := by
    cases account with
    | stream => exact le_rfl
    | session x => exact le_rfl
  inCredit := by
    rintro _ ⟨⟩

end State

/-! ## Every run -/

/-- Whatever the edge sends, in whatever order the frames and credits travel, the
core has no more in flight than it granted, and never declares the edge broken
for going past its credit. -/
theorem the_edge_keeps_to_its_credit {terms : Terms} {es : List Event} {s : State}
    (run : (flow terms).Run System.anyStep es s) :
    s.linesInFlight ≤ terms.lineCredit ∧
      (∀ x, s.inputInFlight x ≤ terms.window (terms.kind x)) ∧
      (∀ x held, s.sessions x = some held → s.inputInFlight x ≤ held.window) ∧
      .linesPastCredit ∉ s.faults ∧ .inputPastCredit ∉ s.faults := by
  obtain ⟨agreed, within⟩ := run.invariant (P := fun _ s => s.Agreed terms ∧ s.Within terms)
    ⟨agreed_init terms, within_init terms⟩
    fun _ _ _ _ held _ step => ⟨held.1.step step, held.2.step held.1 step⟩
  have most (account : Account) : s.inFlight account ≤ terms.limit account :=
    (inFlight_le_total s account).trans (within.total account)
  refine ⟨most .stream, fun x => most (.session x), fun x held isHeld => ?_, ?_, ?_⟩
  · rw [(agreed.held x held isHeld).2.1]
    exact most (.session x)
  · exact fun among => Bool.noConfusion (within.inCredit _ among)
  · exact fun among => Bool.noConfusion (within.inCredit _ among)

/-- Terms for the run below: session `2` attaches, the others are IRC sessions. -/
def smallTerms : Terms where
  lineCredit := 2
  attachWindow := 4
  uiWindow := 3
  maxPermits := 8
  placed _ := true
  kind session := if session = 2 then .attach else .irc
  attach_pos := by decide
  ui_pos := by decide
  attach_lt := by decide
  ui_lt := by decide

/-- A line longer than its session's window and one on the stream's credit, both in flight. -/
def smallRun : List Event :=
  [.register 1, .register 2, .readCore false, .readCore false, .grant, .readEdge,
    .push 2 (.line (.line (List.replicate 9 120))), .push 1 (.line (.line [120])),
    .acquire 2 (.line (.line (List.replicate 9 120))), .acquire 1 (.line (.line [120])),
    .send 1 (.line (.line [120])), .send 2 (.line (.line (List.replicate 9 120))),
    .readCore false, .readCore false]

theorem the_edge_keeps_to_its_credit_of_two_sessions :
    ∃ s, (flow smallTerms).Run System.anyStep smallRun s ∧
      s.linesInFlight = 1 ∧ s.inputInFlight 2 = 4 ∧ s.faults = [] ∧
      s.linesInFlight ≤ 2 ∧ s.inputInFlight 2 ≤ 4 := by
  have reached : ((flow smallTerms).exec smallRun).map
      (fun s => (s.linesInFlight, s.inputInFlight 2, s.faults)) = some (1, 4, []) := by
    decide +kernel
  obtain ⟨s, run, seen⟩ := System.exists_run reached
  obtain ⟨lines, input, faults⟩ : s.linesInFlight = 1 ∧ s.inputInFlight 2 = 4 ∧ s.faults = [] := by
    simpa using seen
  obtain ⟨fewLines, fewBytes, _⟩ := the_edge_keeps_to_its_credit run
  exact ⟨s, run, lines, input, faults, fewLines, fewBytes 2⟩

end E6irc.CoreLink.Flow
