import E6irc.Bouncer.ChannelViews

/-!
# The members counted over all channels

Each operation on the views is `Steady`: from a state whose count is at or above
the members held and within the bound it never goes below zero, keeps both, and
keeps an exact count exact.  Only a NICK onto a member of the same channel does
not keep it exact.
-/

namespace E6irc.Bouncer

open Base ChannelViews Nat

/-- The count is at or above the members held, and within the bound. -/
structure ChannelViews.Sound (views : ChannelViews) : Prop where
  covers : views.total ≤ views.memberships
  bounded : views.memberships ≤ maxTrackedMemberships

/-- The count is the members held. -/
def ChannelViews.Exact (views : ChannelViews) : Prop :=
  views.total = views.memberships

/-- An operation that keeps the count. -/
structure Steady (views : ChannelViews) (result : Except Panic ChannelViews) : Prop where
  no_underflow : result ≠ .error .underflow
  sound : ∀ after, result = .ok after → after.Sound
  exact_count : ∀ after, result = .ok after → views.Exact → after.Exact

section

variable {views after : ChannelViews} {result : Except Panic ChannelViews} {channel : Bytes}
  {change : ChannelView → ChannelView} {view : ChannelView}

theorem steady_ok (sound : after.Sound) (exact_count : views.Exact → after.Exact) :
    Steady views (.ok after) :=
  ⟨nofun, fun _ same => Except.ok.inj same ▸ sound, fun _ same => Except.ok.inj same ▸ exact_count⟩

theorem ChannelViews.Sound.steady_self (sound : views.Sound) : Steady views (.ok views) :=
  steady_ok sound id

theorem Steady.trans (steady : Steady views (.ok after)) (later : Steady after result) :
    Steady views result :=
  ⟨later.no_underflow, later.sound, fun last same exact_count =>
    later.exact_count last same (steady.exact_count after rfl exact_count)⟩

/-- A panic that is not an underflow. -/
theorem steady_error {panic : Panic}
    (other : (.error panic : Except Panic ChannelViews) ≠ .error .underflow) :
    Steady views (.error panic) :=
  ⟨other, nofun, nofun⟩

/-- What follows a steady operation steadily is steady with it. -/
theorem Steady.bind {next : ChannelViews → Except Panic ChannelViews} (steady : Steady views result)
    (follows : ∀ mid, mid.Sound → Steady mid (next mid)) : Steady views (result >>= next) := by
  cases result with
  | error panic => exact steady_error steady.no_underflow
  | ok mid =>
    have later := follows mid (steady.sound mid rfl)
    exact ⟨later.no_underflow, later.sound, fun after same exact_count =>
      later.exact_count after same (steady.exact_count mid rfl exact_count)⟩

theorem steady_foldlM {α : Type} {step : ChannelViews → α → Except Panic ChannelViews}
    (each : ∀ mid a, mid.Sound → Steady mid (step mid a)) (sound : views.Sound) (items : List α) :
    Steady views (items.foldlM step views) := by
  induction items generalizing views with
  | nil => exact sound.steady_self
  | cons item items ih =>
    rw [List.foldlM_cons]
    exact (each views item sound).bind fun mid held => ih held

variable {taken : ℕ}

/-- A subtraction of no more than there is, with what it leaves. -/
theorem steady_sub {build : ℕ → ChannelViews} (sound : views.Sound)
    (enough : taken ≤ views.total) (count : ∀ left, (build left).memberships = left)
    (total : ∀ left, (build left).total + taken = views.total) :
    Steady views ((checkedSub views.memberships taken).map build) := by
  have covers := sound.covers
  have bounded := sound.bounded
  rw [checkedSub, if_pos (enough.trans covers)]
  have held := total (views.memberships - taken)
  refine steady_ok ⟨?_, ?_⟩ fun exact_count => ?_
  · rw [count]
    omega
  · rw [count]
    omega
  · unfold Exact at exact_count ⊢
    rw [count]
    omega

/-! ## One channel -/

theorem memberships_changeView :
    (views.changeView channel change).memberships = views.memberships := by
  unfold changeView
  split <;> rfl

/-- The total changes by as much as the one list. -/
theorem total_changeView (held : views.channels.lookup channel = some view)
    (change : ChannelView → ChannelView) :
    (views.changeView channel change).total + view.members.len =
      views.total + (change view).members.len := by
  simp only [changeView, held, total]
  exact weight_replace held _

theorem len_le_total (held : views.channels.lookup channel = some view) :
    view.members.len ≤ views.total := by
  rw [total, weight_erase held]
  omega

/-- A change that keeps the length of the list. -/
theorem steady_changeView (sound : views.Sound) (same : ∀ view,
    views.channels.lookup channel = some view → (change view).members.len = view.members.len) :
    Steady views (.ok (views.changeView channel change)) := by
  have total : (views.changeView channel change).total = views.total := by
    cases held : views.channels.lookup channel with
    | none => simp [changeView, held]
    | some view =>
      have := total_changeView held change
      rw [same view held] at this
      omega
  refine steady_ok ⟨?_, ?_⟩ fun exact_count => ?_
  · rw [total, memberships_changeView]
    exact sound.covers
  · rw [memberships_changeView]
    exact sound.bounded
  · unfold Exact
    rw [total, memberships_changeView]
    exact exact_count

/-- A list cut by `taken` members, and the count with it. -/
theorem steady_cutView (sound : views.Sound) (held : views.channels.lookup channel = some view)
    (cut : (change view).members.len + taken = view.members.len) :
    Steady views ((checkedSub views.memberships taken).map fun memberships =>
      { views.changeView channel change with memberships }) := by
  have within := len_le_total held
  refine steady_sub sound (by omega) (fun left => rfl) fun left => ?_
  have changed := total_changeView held change
  change (views.changeView channel change).total + taken = views.total
  omega

variable {list : MemberList} {members : Members} {f : Members → Members}

theorem len_change
    (held : list.members = some members) : (list.change f).len = (f members).entries.length := by
  cases list with
  | receiving members | complete members =>
    cases held
    rfl
  | unknown => cases held

theorem len_of_members (held : list.members = some members) :
    list.len = members.entries.length := by
  cases list with
  | receiving members | complete members =>
    cases held
    rfl
  | unknown => cases held

/-- A change of the members that keeps their number keeps that of the list. -/
theorem len_change_of_same (same : ∀ members, (f members).entries.length = members.entries.length) :
    (list.change f).len = list.len := by
  cases list with
  | receiving members | complete members => exact same members
  | unknown => rfl

theorem steady_left (sound : views.Sound) (folded : Bytes) : Steady views (views.left folded) := by
  unfold left
  cases held : views.channels.lookup folded with
  | none => exact sound.steady_self
  | some view =>
    refine steady_sub sound (len_le_total held) (fun left => rfl) fun left => ?_
    simp only [total]
    rw [weight_erase held, add_comm]

theorem lookup_left (left : views.left channel = .ok after) :
    after.channels.lookup channel = none := by
  unfold ChannelViews.left at left
  cases held : views.channels.lookup channel with
  | none =>
    rw [held] at left
    cases left
    exact held
  | some view =>
    rw [held] at left
    obtain ⟨count, -, rfl⟩ := map_eq_ok left
    exact AList.lookup_erase _ _

theorem steady_joined (sound : views.Sound) (folded : Bytes) :
    Steady views (views.joined folded) := by
  have left := steady_left sound folded
  unfold joined
  cases result : views.left folded with
  | error panic => exact steady_error (result ▸ left.no_underflow)
  | ok mid =>
    have held := left.sound mid result
    have total : total { mid with channels := mid.channels.insert folded .joined } =
        mid.total := by
      simp only [total]
      rw [weight_insert, erase_of_lookup_eq_none (lookup_left result)]
      exact zero_add _
    refine steady_ok ⟨?_, held.bounded⟩ fun exact_count => ?_
    · rw [total]
      exact held.covers
    · unfold Exact
      rw [total]
      exact left.exact_count mid result exact_count

variable {names : Client.NetworkNames}

theorem steady_addMember (sound : views.Sound) (nick : Bytes) (modes : List Char8)
    (channel : Bytes) : Steady views (views.addMember names nick modes channel) := by
  unfold addMember
  cases held : views.channels.lookup channel with
  | none => exact sound.steady_self
  | some view =>
    cases known : view.members.members with
    | none =>
      simp only [known]
      exact sound.steady_self
    | some members =>
      have length := len_of_members known
      simp only [known]
      cases listed : members.lookup (names.fold nick) with
      | some member =>
        refine steady_changeView sound fun other same => ?_
        cases held.symm.trans same
        rw [len_change known, length_insert_of_some listed, length]
      | none =>
        dsimp only
        split
        · exact steady_cutView sound held (zero_add _)
        rename_i room
        have grown := total_changeView held fun view => { view with
          members := view.members.change fun members =>
            members.insert (names.fold nick) ⟨nick, modes⟩ }
        dsimp only at grown
        rw [len_change known, length_insert_of_none listed, length] at grown
        have covers := sound.covers
        have count : ∀ n, total { views.changeView channel (fun view =>
            { view with members := view.members.change fun members =>
                members.insert (names.fold nick) ⟨nick, modes⟩ }) with
            memberships := n } = views.total + 1 := fun n => by
          change total (views.changeView channel _) = _
          omega
        refine steady_ok ⟨?_, ?_⟩ fun exact_count => ?_
        · rw [count]
          exact succ_le_succ covers
        · exact Nat.lt_of_not_le room
        · exact (count _).trans (congrArg (· + 1) exact_count)

theorem steady_removeMember (sound : views.Sound) (nick channel : Bytes) :
    Steady views (views.removeMember names nick channel) := by
  unfold removeMember
  cases known : (views.channels.lookup channel).bind (·.members.members) with
  | none => exact sound.steady_self
  | some members =>
    obtain ⟨view, held, known⟩ := Option.bind_eq_some_iff.mp known
    dsimp only
    split
    · rename_i listed
      obtain ⟨member, listed⟩ := Option.isSome_iff_exists.mp listed
      refine steady_cutView sound held ?_
      rw [len_change known, len_of_members known, length_erase_of_some listed]
    · exact sound.steady_self

/-! ## Lines -/

theorem steady_observeKick (sound : views.Sound) (own : Bytes) (channels targets : List Bytes) :
    Steady views (views.observeKick names own channels targets) := by
  refine steady_foldlM (fun mid target held => ?_) sound _
  dsimp only
  split
  · exact held.steady_self
  · exact steady_removeMember held _ _

theorem lists_of_members {folded : Bytes} (known : view.members.members = some members) :
    lists folded view = (members.lookup folded).isSome := by
  simp [lists, known]

/-- A change of a list that holds no members changes nothing. -/
theorem len_change_of_none (unknown : list.members = none) : (list.change f).len = list.len := by
  cases list with
  | receiving members | complete members => cases unknown
  | unknown => rfl

/-- A QUIT takes the nick from each list that has it. -/
theorem len_erase (folded : Bytes) (view : ChannelView) :
    (view.members.change (·.erase folded)).len +
      (if lists folded view then 1 else 0) = view.members.len := by
  cases known : view.members.members with
  | none => simp [len_change_of_none known, lists, known]
  | some members =>
    rw [len_change known, len_of_members known, lists_of_members known]
    cases listed : members.lookup folded with
    | none => simp [erase_of_lookup_eq_none listed]
    | some member => simpa using length_erase_of_some listed

theorem steady_observeQuit (sound : views.Sound) (folded : Bytes) :
    Steady views (views.observeQuit folded) := by
  have cut : weight (fun view : ChannelView => view.members.len) (mapValues (fun _ view =>
        { view with members := view.members.change (·.erase folded) }) views.channels) +
      weight (fun view => if lists folded view then 1 else 0) views.channels =
      views.total :=
    weight_mapValues fun _ view _ => len_erase folded view
  exact steady_sub sound (by omega) (fun left => rfl) fun left => cut

theorem Prefixes.modeOf_ne_underflow (p : Prefixes) (symbol : Char8) :
    p.modeOf symbol ≠ .error .underflow := by
  unfold Prefixes.modeOf
  split <;> nofun

theorem Prefixes.split_ne_underflow (p : Prefixes) (entry : Bytes) :
    p.split entry ≠ .error .underflow :=
  bind_ne_error (mapM_ne_error p.modeOf_ne_underflow _) fun _ => nofun

theorem steady_entries (sound : views.Sound) (features : List Bytes) (channel : Bytes)
    (entries : List Bytes) :
    Steady views (entries.foldlM (fun views entry => do
      let (nick, modes) ← (Prefixes.of features).split entry
      if nick = [] then .ok views else views.addMember names nick modes channel) views) := by
  refine steady_foldlM (fun mid entry midSound => ?_) sound entries
  have panics := Prefixes.split_ne_underflow (.of features) entry
  cases parts : (Prefixes.of features).split entry with
  | error panic =>
    rw [parts] at panics
    exact steady_error fun same => panics (congrArg _ (Except.error.inj same))
  | ok parts =>
    simp only [bind, Except.bind]
    split
    · exact midSound.steady_self
    · exact steady_addMember midSound _ _ _

theorem steady_observeNames (sound : views.Sound) (features : List Bytes) (channel : Bytes)
    (symbol : Option Char8) (entries : List Bytes) :
    Steady views (views.observeNames names features channel symbol entries) := by
  unfold observeNames
  cases held : views.channels.lookup channel with
  | none => exact sound.steady_self
  | some view =>
    dsimp only
    have shown : Steady views (.ok (views.changeView channel fun view =>
        { view with symbol := symbol.getD view.symbol })) :=
      steady_changeView sound fun view _ => rfl
    have here : (views.changeView channel fun view =>
        { view with symbol := symbol.getD view.symbol }).channels.lookup channel =
        some { view with symbol := symbol.getD view.symbol } := by
      simp only [changeView, held, AList.lookup_insert]
    generalize views.changeView channel (fun view =>
      { view with symbol := symbol.getD view.symbol }) = mid at shown here
    have midSound := shown.sound mid rfl
    refine shown.trans ?_
    cases kept : view.members with
    | complete members =>
      -- a complete list is given back before the new one
      refine Steady.bind (steady_cutView midSound here ?_) fun begun begunSound =>
        steady_entries begunSound features channel entries
      rw [kept]
      exact zero_add _
    | receiving members | unknown => exact steady_entries midSound features channel entries

theorem length_changeModes (membership : List Char8) (members : Members)
    (change : Bool × Char8 × Option Bytes) :
    (changeModes names membership members change).entries.length =
      members.entries.length := by
  unfold changeModes
  split
  · split
    · split
      · rfl
      · rename_i member listed
        exact length_insert_of_some listed _
    · rfl
  · rfl

theorem length_foldl_changeModes (membership : List Char8) (members : Members)
    (changes : List (Bool × Char8 × Option Bytes)) :
    (changes.foldl (changeModes names membership) members).entries.length =
      members.entries.length := by
  induction changes generalizing members with
  | nil => rfl
  | cons change changes ih => rw [List.foldl_cons, ih, length_changeModes]

/-! ## NICK -/

/-- The channel lists both nicks, which a change from one to the other makes one. -/
def ChannelView.merges (old folded : Bytes) (view : ChannelView) : Bool :=
  old ≠ folded && lists old view && lists folded view

theorem len_rename (old new folded : Bytes) (view : ChannelView) :
    (view.members.change (renameMember old new folded)).len +
      (if view.merges old folded then 1 else 0) = view.members.len := by
  unfold ChannelView.merges
  cases known : view.members.members with
  | none => simp [len_change_of_none known, lists, known]
  | some members =>
    rw [len_change known, len_of_members known, lists_of_members known, lists_of_members known,
      renameMember]
    cases listed : members.lookup old with
    | none => simp
    | some member =>
      have erased := length_erase_of_some listed
      rcases eq_or_ne old folded with rfl | apart
      · have inserted := length_insert_of_none (AList.lookup_erase old members)
          { member with nick := new }
        simp only [ne_eq, not_true_eq_false, decide_false, Bool.false_and, Bool.false_eq_true,
          if_false]
        omega
      · have other := AList.lookup_erase_ne (s := members) apart.symm
        cases taken : members.lookup folded with
        | none =>
          have inserted := length_insert_of_none (other.trans taken) { member with nick := new }
          simp only [Option.isSome_none, Bool.and_false, Bool.false_eq_true, if_false]
          omega
        | some lost =>
          have inserted := length_insert_of_some (other.trans taken) { member with nick := new }
          simp only [ne_eq, apart, not_false_eq_true, decide_true, Option.isSome_some,
            Bool.and_true, if_true]
          omega

/-- A NICK loses one member for each list that it merges two members of. -/
theorem total_observeNick (views : ChannelViews) (old new folded : Bytes) :
    (views.observeNick old new folded).total +
      weight (fun view => if view.merges old folded then 1 else 0) views.channels = views.total := by
  simp only [total, observeNick]
  exact weight_mapValues fun _ view _ => len_rename old new folded view

theorem sound_observeNick (sound : views.Sound) (old new folded : Bytes) :
    (views.observeNick old new folded).Sound := by
  have total := total_observeNick views old new folded
  have covers := sound.covers
  have count : (views.observeNick old new folded).memberships = views.memberships := rfl
  exact ⟨by omega, sound.bounded⟩

theorem exact_observeNick (exact_count : views.Exact) (old new folded : Bytes) :
    (views.observeNick old new folded).Exact ↔
      ∀ channel view, views.channels.lookup channel = some view → view.merges old folded = false := by
  have total := total_observeNick views old new folded
  have count : (views.observeNick old new folded).memberships = views.memberships := rfl
  unfold Exact at exact_count ⊢
  have kept : (views.observeNick old new folded).total =
      (views.observeNick old new folded).memberships ↔
      weight (fun view : ChannelView => if view.merges old folded then 1 else 0) views.channels = 0 := by
    omega
  rw [kept, weight_eq_zero]
  simp

/-! ## Rekeying -/

theorem length_rekeyMembers_le (members : Members) :
    (rekeyMembers names members).entries.length ≤ members.entries.length := by
  have grown : (rekeyMembers names members).entries.length ≤
      0 + (members.entries.map fun _ => 1).sum := by
    refine measure_foldl_le (fun members : Members => members.entries.length)
      (fun rekeyed entry => ?_) ∅ members.entries
    rw [length_eq_weight, length_eq_weight, add_comm]
    exact weight_insert_le _ _
  simpa using grown

theorem len_rekeyMembers_le (names : Client.NetworkNames) (list : MemberList) :
    (list.change (rekeyMembers names)).len ≤ list.len := by
  cases list with
  | receiving members | complete members => exact length_rekeyMembers_le members
  | unknown => exact le_refl 0

/-- Members and channels that come under one name are lost, and none is added. -/
theorem total_rekey_le (views : ChannelViews) (names : Client.NetworkNames)
    (channels : AList fun _ : Bytes => Bytes) :
    (views.rekey names channels).total ≤ views.total := by
  have grown : weight (fun view : ChannelView => view.members.len)
      (views.rekey names channels).channels ≤ 0 + views.total := by
    refine measure_foldl_le (weight fun view : ChannelView => view.members.len)
      (fun rekeyed entry => ?_) ∅ views.channels.entries
    dsimp only
    split
    · exact le_add_right _ _
    have fewer := len_rekeyMembers_le names entry.2.members
    refine (weight_insert_le _ _).trans ?_
    dsimp only
    omega
  rwa [zero_add] at grown

theorem steady_rekey (sound : views.Sound) (channels : AList fun _ : Bytes => Bytes) :
    Steady views (.ok (views.rekey names channels)) := by
  have counted : (views.rekey names channels).Exact := rfl
  have fewer := total_rekey_le views names channels
  refine steady_ok ⟨le_of_eq counted, ?_⟩ fun _ => counted
  exact (le_of_eq counted.symm).trans (fewer.trans (sound.covers.trans sound.bounded))

/-! ## Runs -/

variable {message : Message}

/-- Every line but a NICK. -/
theorem steady_observe (sound : views.Sound) (features : List Bytes)
    (own : Bytes) (other : toAsciiUppercase message.command ≠ ascii "NICK") :
    Steady views (views.observe message names features own) := by
  unfold observe
  dsimp only
  split
  · split
    · split
      · exact sound.steady_self
      · exact steady_foldlM (fun mid channel held => steady_addMember held _ _ _) sound _
    · exact sound.steady_self
  split
  · split
    · exact steady_foldlM (fun mid channel held => steady_removeMember held _ _) sound _
    · exact sound.steady_self
  split
  · exact steady_observeKick sound _ _ _
  split
  · split
    · exact steady_observeQuit sound _
    · exact sound.steady_self
  split
  · exact steady_observeNames sound _ _ _ _
  split
  · split
    · refine steady_changeView sound fun view _ => ?_
      cases kept : view.members <;> rfl
    · exact sound.steady_self
  split
  · split
    · exact steady_changeView sound fun view _ => rfl
    · exact sound.steady_self
  split
  · split
    · exact steady_changeView sound fun view _ => rfl
    · exact sound.steady_self
  split
  · split
    · exact steady_changeView sound fun view _ =>
        len_change_of_same fun members => length_foldl_changeModes _ _ _
    · exact sound.steady_self
  · exact sound.steady_self

theorem observe_nick (isNick : toAsciiUppercase message.command = ascii "NICK")
    (features : List Bytes) (own : Bytes) : views.observe message names features own =
      match message.source.map (·.name), message.params[0]? with
      | some old, some new => .ok (views.observeNick (names.fold old) new (names.fold new))
      | _, _ => .ok views := by
  have others : ascii "NICK" ≠ ascii "JOIN" ∧ ascii "NICK" ≠ ascii "PART" ∧
      ascii "NICK" ≠ ascii "KICK" ∧ ascii "NICK" ≠ ascii "QUIT" := by decide
  unfold observe
  dsimp only
  rw [isNick]
  simp only [others, false_and, if_false, if_true]
  all_goals rfl

/-- What the session does to its views. -/
inductive ViewEvent
  | joined (folded : Bytes)
  | left (folded : Bytes)
  | rekey (names : Client.NetworkNames) (channels : AList fun _ : Bytes => Bytes)
  | clear
  | observe (message : Message) (names : Client.NetworkNames) (features : List Bytes) (own : Bytes)

def ChannelViews.apply (views : ChannelViews) : ViewEvent → Except Panic ChannelViews
  | .joined folded => views.joined folded
  | .left folded => views.left folded
  | .rekey names channels => .ok (views.rekey names channels)
  | .clear => .ok views.clear
  | .observe message names features own => views.observe message names features own

def followed : System ChannelViews ViewEvent where
  init := .default
  step views event := (views.apply event).toOption

/-- The event is a line that changes a nick to the one of another member of a channel. -/
def ViewEvent.Merges (views : ChannelViews) : ViewEvent → Prop
  | .observe message names _ _ =>
    toAsciiUppercase message.command = ascii "NICK" ∧
      ∃ source new, message.source = some source ∧ message.params[0]? = some new ∧
        ∃ channel view, views.channels.lookup channel = some view ∧
          view.merges (names.fold source.name) (names.fold new) = true
  | _ => False

/-- What an event keeps of the count, and when it keeps it exact. -/
theorem apply_counts (sound : views.Sound) (event : ViewEvent) :
    views.apply event ≠ .error .underflow ∧ ∀ after, views.apply event = .ok after →
      after.Sound ∧ (views.Exact → (after.Exact ↔ ¬ event.Merges views)) := by
  have of_steady : ¬ event.Merges views → Steady views (views.apply event) →
      views.apply event ≠ .error .underflow ∧ ∀ after, views.apply event = .ok after →
        after.Sound ∧ (views.Exact → (after.Exact ↔ ¬ event.Merges views)) :=
    fun apart steady => ⟨steady.no_underflow, fun after result => ⟨steady.sound after result,
      fun exact_count => iff_of_true (steady.exact_count after result exact_count) apart⟩⟩
  cases event with
  | joined folded => exact of_steady id (steady_joined sound folded)
  | left folded => exact of_steady id (steady_left sound folded)
  | rekey names channels => exact of_steady id (steady_rekey sound channels)
  | clear => exact of_steady id (steady_ok ⟨le_refl 0, zero_le _⟩ fun _ => rfl)
  | observe message names features own =>
    by_cases isNick : toAsciiUppercase message.command = ascii "NICK"
    · simp only [apply, observe_nick isNick, ViewEvent.Merges, isNick, true_and]
      cases source : message.source with
      | none =>
        refine ⟨nofun, fun after result => ?_⟩
        cases result
        exact ⟨sound, fun exact_count => iff_of_true exact_count (by rintro ⟨_, _, ⟨⟩, _⟩)⟩
      | some source =>
        cases named : message.params[0]? with
        | none =>
          refine ⟨nofun, fun after result => ?_⟩
          cases result
          exact ⟨sound, fun exact_count =>
            iff_of_true exact_count (by rintro ⟨_, _, _, ⟨⟩, _⟩)⟩
        | some new =>
          refine ⟨nofun, fun after result => ?_⟩
          cases result
          refine ⟨sound_observeNick sound _ _ _, fun exact_count => ?_⟩
          rw [exact_observeNick exact_count]
          simp
    · exact of_steady (fun merges => isNick merges.1) (steady_observe sound features own isNick)

/-- Every run keeps the count above the members held and within the bound. -/
theorem ChannelViews.Sound.of_run {es : List ViewEvent} (run : followed.Run System.anyStep es views) :
    views.Sound :=
  run.invariant (P := fun _ views => views.Sound) ⟨le_refl 0, zero_le _⟩
    fun _ _ event after held _ step =>
      ((apply_counts held event).2 after (toOption_eq_some step)).1

/-- Along a run `memberships` is the number of members held, within the bound and
never taken below zero, exactly as long as no NICK moves a member onto another one
of its channel. -/
theorem memberships_counted_iff {es : List ViewEvent}
    (run : followed.Run System.anyStep es views) :
    followed.Always (fun _ views => views.memberships = views.total ∧
        views.memberships ≤ maxTrackedMemberships ∧
        ∀ event, views.apply event ≠ .error .underflow) es ↔
      followed.Run (fun _ views event => ¬ event.Merges views) es views := by
  have rest : ∀ {views : ChannelViews}, views.Sound →
      ((views.memberships = views.total ∧ views.memberships ≤ maxTrackedMemberships ∧
        ∀ event, views.apply event ≠ .error .underflow) ↔ views.Exact) := by
    intro views sound
    constructor
    · exact fun holds => holds.1.symm
    · exact fun exact_count => ⟨exact_count.symm, sound.bounded, fun event =>
        (apply_counts sound event).1⟩
  have start : default.Sound := ⟨le_refl 0, zero_le _⟩
  refine System.Run.always_iff (J := fun _ views => views.Sound) ((rest start).mpr rfl) start
    (fun _ _ event after held step => ?_) (fun _ _ event after held exact_count step => ?_) run
  · exact ((apply_counts held event).2 after (toOption_eq_some step)).1
  · obtain ⟨sound, counted⟩ := (apply_counts held event).2 after (toOption_eq_some step)
    rw [rest sound]
    exact counted ((rest held).mp exact_count)

/-- A line of a server or of a nick, under the default names. -/
def observed (source command : String) (params : List String) : ViewEvent :=
  .observe ⟨[], some ⟨ascii source, none, none⟩, ascii command, params.map ascii, false⟩ .default []
    (ascii "me")

/-- A channel with two members, one of whom changes its nick. -/
def renamed (new : String) : List ViewEvent :=
  [.joined (ascii "#a"), observed "srv" "353" ["me", "=", "#a", "ann bob"],
    observed "ann" "NICK" [new]]

theorem memberships_counted_carol : ∃ views, followed.Run System.anyStep (renamed "carol") views ∧
    (followed.Always (fun _ views => views.memberships = views.total ∧
        views.memberships ≤ maxTrackedMemberships ∧
        ∀ event, views.apply event ≠ .error .underflow) (renamed "carol") ↔
      followed.Run (fun _ views event => ¬ event.Merges views) (renamed "carol") views) := by
  obtain ⟨views, reached⟩ : ∃ views, followed.exec (renamed "carol") = some views :=
    Option.isSome_iff_exists.mp (by decide +kernel)
  have run := System.run_of_exec reached
  exact ⟨views, run, memberships_counted_iff run⟩

/-- A NICK onto another member leaves two counted where one is held. -/
theorem memberships_miscounted_bob : ∃ views, followed.Run System.anyStep (renamed "bob") views ∧
    views.memberships = 2 ∧ views.total = 1 := by
  have replay : (followed.exec (renamed "bob")).map (fun views => (views.memberships, views.total)) =
      some (2, 1) := by decide +kernel
  obtain ⟨views, reached, counts⟩ := System.exists_run replay
  exact ⟨views, reached, (Prod.ext_iff.mp counts).1, (Prod.ext_iff.mp counts).2⟩

end

end E6irc.Bouncer
