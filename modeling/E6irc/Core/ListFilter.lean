import E6irc.Base.Record
import E6irc.Base.Result
import E6irc.Base.Word
import E6irc.Proto.Mask

/-!
# The conditions of a LIST

`core/list.rs`: the parameter of LIST is a list of conditions, folded into a
`ListFilter` with one bound of each kind.  `Condition` is what the grammar makes
of one of them and `MeetsAll` what the list asks of a channel.  The filter holds
the last bound of a kind that was written, so it asks the same exactly as long as
the last is also the tightest.
-/

namespace E6irc.ListFilter

open Base List Option Bool Mask

/-! ## The code -/

/-- Most conditions one LIST parameter may carry. -/
def maxListConditions : ℕ := 7

inductive InvalidListParameters
  | invalid
deriving DecidableEq, Repr

/-- An inclusive range of whole seconds; an unset end is unbounded. -/
structure Window where
  since : Option ℕ
  till : Option ℕ
deriving DecidableEq, Repr

def Window.isBounded (window : Window) : Bool :=
  window.since.isSome || window.till.isSome

def Window.contains (window : Window) (secs : ℕ) : Bool :=
  (window.since.all fun since => since ≤ secs) && window.till.all fun till => secs ≤ till

structure Filter where
  /-- Folded, as are those of `excluded`. -/
  masks : List Bytes
  excluded : List Bytes
  minMembers : ℕ
  maxMembers : Option ℕ
  created : Window
  topicSet : Window
deriving DecidableEq, Repr

/-- The filter that admits every channel. -/
def Filter.default : Filter := ⟨[], [], 0, none, ⟨none, none⟩, ⟨none, none⟩⟩

/-- What is asked of one channel.  No table has as many entries as there are
64-bit numbers. -/
structure ListCandidate (casemap : CaseMapping) where
  key : Bytes
  folded : casemap.casefold key = key
  members : ℕ
  members_lt : members < u64Max
  createdSecs : ℕ
  topicSetSecs : Option ℕ

/-- A decimal count with no sign. -/
def count (text : Bytes) : Option ℕ :=
  if text ≠ [] ∧ text.all isAsciiDigit then
    some (text.foldl (fun total digit =>
      u64SaturatingAdd (u64SaturatingMul total 10) (digit.toNat - 48)) 0)
  else none

/-- A bound so many minutes back from `nowSecs`. -/
def minutesAgo (window : Window) (text : Bytes) (nowSecs : ℕ) :
    Except InvalidListParameters Window :=
  match text with
  | [] => .error .invalid
  | sign :: minutes =>
    if sign = byte '<' ∨ sign = byte '>' then
      match count minutes with
      | none => .error .invalid
      | some minutes =>
        let bound := nowSecs - u64SaturatingMul minutes 60
        .ok (if sign = byte '<' then { window with since := some bound }
          else { window with till := some bound })
    else .error .invalid

/-- One condition of the list. -/
def Filter.condition (nowSecs : ℕ) (casemap : CaseMapping) (filter : Filter) (text : Bytes) :
    Except InvalidListParameters Filter :=
  match text with
  | [] => .error .invalid
  | first :: rest =>
    if first = byte '<' then
      match count rest with
      | none => .error .invalid
      | some members =>
        .ok { filter with maxMembers := if members = 0 then none else some (members - 1) }
    else if first = byte '>' then
      let members :=
        match stripFirst (byte '-') rest with
        | some negative => (count negative).map fun _ => 0
        | none => (count rest).map fun members => u64SaturatingAdd members 1
      match members with
      | none => .error .invalid
      | some members => .ok { filter with minMembers := members }
    else if first = byte 'C' ∨ first = byte 'c' then
      (minutesAgo filter.created rest nowSecs).map fun created => { filter with created }
    else if first = byte 'T' ∨ first = byte 't' then
      (minutesAgo filter.topicSet rest nowSecs).map fun topicSet => { filter with topicSet }
    else if first = byte '!' then
      .ok { filter with excluded := filter.excluded ++ [casemap.casefold rest] }
    else if first = byte '#' ∨ first = byte '*' ∨ first = byte '?' then
      .ok { filter with masks := filter.masks ++ [casemap.casefold text] }
    else .error .invalid

/-- The conditions of a parameter: one trailing comma closes the list. -/
def conditionTexts (parameter : Bytes) : List Bytes :=
  let listed := if parameter.getLast? = some (byte ',') then parameter.dropLast else parameter
  listed.splitOn (byte ',')

def Filter.parse (parameter : Option Bytes) (nowSecs : ℕ) (casemap : CaseMapping) :
    Except InvalidListParameters Filter :=
  match parameter.filter (· ≠ []) with
  | none => .ok .default
  | some parameter =>
    if maxListConditions < (conditionTexts parameter).length then .error .invalid
    else (conditionTexts parameter).foldlM (Filter.condition nowSecs casemap) .default

def Filter.admits {casemap : CaseMapping} (filter : Filter) (channel : ListCandidate casemap) :
    Bool :=
  decide (filter.minMembers ≤ channel.members) &&
    (filter.maxMembers.all fun max => channel.members ≤ max) &&
    filter.created.contains channel.createdSecs &&
    (!filter.topicSet.isBounded || channel.topicSetSecs.any filter.topicSet.contains) &&
    (filter.masks.isEmpty || filter.masks.any fun mask => glob mask channel.key) &&
    !filter.excluded.any fun mask => glob mask channel.key

/-! ## What is written -/

inductive Kind
  | fewer | more | createdSince | createdTill | topicSince | topicTill
deriving DecidableEq, Repr

inductive Condition
  | limit (kind : Kind) (n : ℕ)
  /-- `>-n`: no channel has fewer. -/
  | moreThanNegative
  | matching (mask : Bytes)
  | excluding (mask : Bytes)
deriving DecidableEq, Repr

/-- `<n` or `>n`, and which of the two. -/
def readSigned (within beyond : Kind) (text : Bytes) : Option Condition :=
  match text with
  | [] => none
  | sign :: digits =>
    if sign = byte '<' then (count digits).map (.limit within)
    else if sign = byte '>' then (count digits).map (.limit beyond)
    else none

/-- The grammar of one condition. -/
def readCondition (text : Bytes) : Option Condition :=
  match text with
  | [] => none
  | first :: rest =>
    if first = byte '<' then (count rest).map (.limit .fewer)
    else if first = byte '>' then
      match stripFirst (byte '-') rest with
      | some negative => (count negative).map fun _ => .moreThanNegative
      | none => (count rest).map (.limit .more)
    else if first = byte 'C' ∨ first = byte 'c' then readSigned .createdSince .createdTill rest
    else if first = byte 'T' ∨ first = byte 't' then readSigned .topicSince .topicTill rest
    else if first = byte '!' then some (.excluding rest)
    else if first = byte '#' ∨ first = byte '*' ∨ first = byte '?' then some (.matching text)
    else none

/-- The conditions written in a parameter. -/
def conditions (parameter : Option Bytes) : List Condition :=
  ((parameter.filter (· ≠ [])).elim [] conditionTexts).filterMap readCondition

/-- What a bound of a kind is compared with: a number of members, or the instant so
many minutes back, the epoch at the earliest. -/
def Kind.bound (nowSecs : ℕ) : Kind → ℕ → ℕ
  | fewer, n | more, n => n
  | createdSince, n | createdTill, n | topicSince, n | topicTill, n => nowSecs - 60 * n

/-- The channel is within a bound. -/
def Kind.Holds {casemap : CaseMapping} (channel : ListCandidate casemap) : Kind → ℕ → Prop
  | fewer, n => channel.members < n
  | more, n => n < channel.members
  | createdSince, secs => secs ≤ channel.createdSecs
  | createdTill, secs => channel.createdSecs ≤ secs
  | topicSince, secs => ∃ set ∈ channel.topicSetSecs, secs ≤ set
  | topicTill, secs => ∃ set ∈ channel.topicSetSecs, set ≤ secs

/-- The channel meets every bound, matches no mask that is excluded, and one of
those asked for when there is any. -/
structure MeetsAll {casemap : CaseMapping} (nowSecs : ℕ) (written : List Condition)
    (channel : ListCandidate casemap) : Prop where
  limits : ∀ kind n, .limit kind n ∈ written → kind.Holds channel (kind.bound nowSecs n)
  excluded : ∀ mask, .excluding mask ∈ written → Mask.matches casemap mask channel.key = false
  matched : (∃ mask, .matching mask ∈ written) →
    ∃ mask, .matching mask ∈ written ∧ Mask.matches casemap mask channel.key = true

/-- The member bounds are spelled `<n` with `n` not zero, or `>n`. -/
def Plain (written : List Condition) : Prop :=
  .limit .fewer 0 ∉ written ∧ .moreThanNegative ∉ written

instance (written : List Condition) : Decidable (Plain written) :=
  inferInstanceAs (Decidable (_ ∧ _))

/-- A bound that is no wider than another of its kind. -/
def Kind.Within : Kind → ℕ → ℕ → Prop
  | fewer, a, b | createdTill, a, b | topicTill, a, b => a ≤ b
  | more, a, b | createdSince, a, b | topicSince, a, b => b ≤ a

instance : (kind : Kind) → (a b : ℕ) → Decidable (kind.Within a b)
  | .fewer, a, b | .createdTill, a, b | .topicTill, a, b => inferInstanceAs (Decidable (a ≤ b))
  | .more, a, b | .createdSince, a, b | .topicSince, a, b => inferInstanceAs (Decidable (b ≤ a))

/-- The bound of the given kind, if the condition is one. -/
def Condition.boundOf (nowSecs : ℕ) (kind : Kind) : Condition → Option ℕ
  | .limit other n => if other = kind then some (kind.bound nowSecs n) else none
  | .moreThanNegative => none
  | .matching _ => none
  | .excluding _ => none

/-- The bounds of one kind, in the order written. -/
def bounds (nowSecs : ℕ) (written : List Condition) (kind : Kind) : List ℕ :=
  written.filterMap (Condition.boundOf nowSecs kind)

/-- Of each kind the last bound written is the tightest. -/
def Narrows (nowSecs : ℕ) (written : List Condition) : Prop :=
  ∀ kind, ∀ last ∈ (bounds nowSecs written kind).getLast?,
    ∀ bound ∈ bounds nowSecs written kind, kind.Within last bound

/-! ## The filter of what is written -/

/-- Note a condition: one bound of each kind, and every mask. -/
def Filter.add (nowSecs : ℕ) (casemap : CaseMapping) (filter : Filter) : Condition → Filter
  | .limit .fewer n => { filter with maxMembers := if n = 0 then none else some (n - 1) }
  | .limit .more n => { filter with minMembers := u64SaturatingAdd n 1 }
  | .limit .createdSince n =>
    { filter with created.since := some (Kind.createdSince.bound nowSecs n) }
  | .limit .createdTill n => { filter with created.till := some (Kind.createdTill.bound nowSecs n) }
  | .limit .topicSince n =>
    { filter with topicSet.since := some (Kind.topicSince.bound nowSecs n) }
  | .limit .topicTill n => { filter with topicSet.till := some (Kind.topicTill.bound nowSecs n) }
  | .moreThanNegative => { filter with minMembers := 0 }
  | .matching mask => { filter with masks := filter.masks ++ [casemap.casefold mask] }
  | .excluding mask => { filter with excluded := filter.excluded ++ [casemap.casefold mask] }

section

variable {nowSecs : ℕ} {casemap : CaseMapping} {filter : Filter} {text : Bytes}

/-- A product that stops at the largest number takes a clock as far back. -/
theorem sub_u64SaturatingMul (clock : nowSecs ≤ u64Max) (minutes : ℕ) :
    nowSecs - u64SaturatingMul minutes 60 = nowSecs - 60 * minutes := by
  unfold u64SaturatingMul
  omega

theorem match_count_eq_ok {α : Type} {value : ℕ → α} {after : α}
    (read : (match count text with
      | none => .error .invalid
      | some n => .ok (value n)) = (.ok after : Except InvalidListParameters α)) :
    ∃ n, count text = some n ∧ value n = after := by
  cases counted : count text with
  | none => simp [counted] at read
  | some n =>
    rw [counted] at read
    exact ⟨n, rfl, Except.ok.inj read⟩

theorem minutesAgo_eq_ok {window after : Window} (clock : nowSecs ≤ u64Max) (within beyond : Kind)
    (isTime : ∀ n, within.bound nowSecs n = nowSecs - 60 * n ∧ beyond.bound nowSecs n = nowSecs - 60 * n)
    (read : minutesAgo window text nowSecs = .ok after) :
    ∃ n, (readSigned within beyond text = some (.limit within n) ∧
        after = { window with since := some (within.bound nowSecs n) }) ∨
      (readSigned within beyond text = some (.limit beyond n) ∧
        after = { window with till := some (beyond.bound nowSecs n) }) := by
  cases text with
  | nil => cases read
  | cons sign digits =>
    simp only [minutesAgo] at read
    split at read
    · rename_i signed
      obtain ⟨n, counted, rfl⟩ := match_count_eq_ok read
      simp only [sub_u64SaturatingMul clock]
      refine ⟨n, ?_⟩
      rw [(isTime n).1, (isTime n).2]
      by_cases less : sign = byte '<'
      · exact .inl ⟨by simp [readSigned, less, counted], if_pos less⟩
      have greater := signed.resolve_left less
      refine .inr ⟨?_, if_neg less⟩
      rw [readSigned, if_neg less, if_pos greater, counted]
      rfl
    · cases read

/-- A condition that is accepted is one of the grammar, and is noted. -/
theorem condition_eq_ok {after : Filter} (clock : nowSecs ≤ u64Max)
    (accepted : filter.condition nowSecs casemap text = .ok after) :
    ∃ c, readCondition text = some c ∧ after = filter.add nowSecs casemap c := by
  cases text with
  | nil => cases accepted
  | cons first rest =>
    simp only [Filter.condition] at accepted
    simp only [readCondition]
    split_ifs at accepted ⊢
    · obtain ⟨n, counted, rfl⟩ := match_count_eq_ok accepted
      exact ⟨.limit .fewer n, by rw [counted]; rfl, rfl⟩
    · cases negated : stripFirst (byte '-') rest with
      | some negative =>
        simp only [negated] at accepted
        cases counted : count negative with
        | none => simp [counted] at accepted
        | some n =>
          rw [counted] at accepted
          exact ⟨.moreThanNegative, by simp [counted], (Except.ok.inj accepted).symm⟩
      | none =>
        simp only [negated] at accepted
        cases counted : count rest with
        | none => simp [counted] at accepted
        | some n =>
          rw [counted] at accepted
          exact ⟨.limit .more n, by simp, (Except.ok.inj accepted).symm⟩
    · obtain ⟨window, read, rfl⟩ := map_eq_ok accepted
      obtain ⟨n, ⟨same, rfl⟩ | ⟨same, rfl⟩⟩ :=
        minutesAgo_eq_ok clock .createdSince .createdTill (fun _ => ⟨rfl, rfl⟩) read
      · exact ⟨_, same, rfl⟩
      · exact ⟨_, same, rfl⟩
    · obtain ⟨window, read, rfl⟩ := map_eq_ok accepted
      obtain ⟨n, ⟨same, rfl⟩ | ⟨same, rfl⟩⟩ :=
        minutesAgo_eq_ok clock .topicSince .topicTill (fun _ => ⟨rfl, rfl⟩) read
      · exact ⟨_, same, rfl⟩
      · exact ⟨_, same, rfl⟩
    · exact ⟨_, rfl, (Except.ok.inj accepted).symm⟩
    · exact ⟨_, rfl, (Except.ok.inj accepted).symm⟩

theorem parse_eq_ok {parameter : Option Bytes} (clock : nowSecs ≤ u64Max)
    (parsed : Filter.parse parameter nowSecs casemap = .ok filter) :
    filter = (conditions parameter).foldl (Filter.add nowSecs casemap) .default := by
  have folded : ∀ (texts : List Bytes) (start : Filter),
      texts.foldlM (Filter.condition nowSecs casemap) start = .ok filter →
      filter = (texts.filterMap readCondition).foldl (Filter.add nowSecs casemap) start := by
    intro texts
    induction texts with
    | nil =>
      intro start read
      exact (Except.ok.inj read).symm
    | cons text texts ih =>
      intro start read
      rw [foldlM_cons] at read
      obtain ⟨next, accepted, read⟩ := bind_eq_ok read
      obtain ⟨c, isCondition, rfl⟩ := condition_eq_ok clock accepted
      rw [filterMap_cons_some isCondition, foldl_cons]
      exact ih _ read
  unfold Filter.parse at parsed
  unfold conditions
  cases present : parameter.filter (· ≠ []) with
  | none =>
    rw [present] at parsed
    exact (Except.ok.inj parsed).symm
  | some text =>
    simp only [present] at parsed
    split at parsed
    · cases parsed
    · exact folded _ _ parsed

end

/-! ## The filter holds the last bound of each kind -/

section

variable {nowSecs : ℕ} {casemap : CaseMapping} {written : List Condition} {kind : Kind} {b : ℕ}

theorem mem_bounds : b ∈ bounds nowSecs written kind ↔
    ∃ n, .limit kind n ∈ written ∧ kind.bound nowSecs n = b := by
  unfold bounds
  rw [mem_filterMap]
  constructor
  · rintro ⟨c, among, isBound⟩
    cases c with
    | limit other n =>
      simp only [Condition.boundOf, ite_none_right_eq_some, some.injEq] at isBound
      obtain ⟨rfl, same⟩ := isBound
      exact ⟨n, among, same⟩
    | moreThanNegative | matching _ | excluding _ => cases isBound
  · rintro ⟨n, among, rfl⟩
    exact ⟨.limit kind n, among, by simp [Condition.boundOf]⟩

/-- The last bound of a kind, as a field of the filter holds it. -/
theorem field_eq {ν : Type} (field : Filter → ν) (value : ℕ → ν) (kind : Kind)
    (step : ∀ s, ∀ c ∈ written, field (Filter.add nowSecs casemap s c) =
      ((c.boundOf nowSecs kind).map value).getD (field s)) :
    field (written.foldl (Filter.add nowSecs casemap) .default) =
      ((bounds nowSecs written kind).getLast?.map value).getD (field .default) := by
  rw [foldl_sets step, bounds, ← List.getLast?_map, map_filterMap]

/-- What the filter of a list of conditions holds. -/
structure Holding (nowSecs : ℕ) (casemap : CaseMapping) (written : List Condition)
    (filter : Filter) : Prop where
  minMembers : filter.minMembers =
    ((bounds nowSecs written .more).getLast?.map (u64SaturatingAdd · 1)).getD 0
  maxMembers : filter.maxMembers =
    ((bounds nowSecs written .fewer).getLast?.map fun n => if n = 0 then none else some (n - 1)).getD
      none
  createdSince : filter.created.since = (bounds nowSecs written .createdSince).getLast?
  createdTill : filter.created.till = (bounds nowSecs written .createdTill).getLast?
  topicSince : filter.topicSet.since = (bounds nowSecs written .topicSince).getLast?
  topicTill : filter.topicSet.till = (bounds nowSecs written .topicTill).getLast?
  masks : filter.masks = written.filterMap fun
    | .matching mask => some (casemap.casefold mask)
    | _ => none
  excluded : filter.excluded = written.filterMap fun
    | .excluding mask => some (casemap.casefold mask)
    | _ => none

/-- A field that holds the last bound of a kind as it is. -/
theorem last_eq (field : Filter → Option ℕ) (kind : Kind) (unset : field .default = none)
    (step : ∀ s c, field (Filter.add nowSecs casemap s c) =
      ((c.boundOf nowSecs kind).map some).getD (field s)) :
    field (written.foldl (Filter.add nowSecs casemap) .default) =
      (bounds nowSecs written kind).getLast? := by
  rw [field_eq field some kind fun s c _ => step s c, unset]
  cases (bounds nowSecs written kind).getLast? <;> rfl

theorem holding_foldl (plain : Plain written) :
    Holding nowSecs casemap written (written.foldl (Filter.add nowSecs casemap) .default) := by
  refine ⟨field_eq (·.minMembers) (u64SaturatingAdd · 1) .more fun s c among => ?_,
    field_eq (·.maxMembers) _ .fewer fun s c _ => ?_,
    last_eq (·.created.since) .createdSince rfl fun s c => ?_,
    last_eq (·.created.till) .createdTill rfl fun s c => ?_,
    last_eq (·.topicSet.since) .topicSince rfl fun s c => ?_,
    last_eq (·.topicSet.till) .topicTill rfl fun s c => ?_,
    foldl_extends fun s c => ?_, foldl_extends fun s c => ?_⟩
  · cases c with
    | limit other n => cases other <;> rfl
    | moreThanNegative => exact absurd among plain.2
    | matching _ | excluding _ => rfl
  -- no two constructors set one of the other fields
  all_goals rcases c with ⟨⟨⟩, n⟩ | _ | _ | _ <;> simp [Filter.add, Condition.boundOf, Kind.bound]

/-- The channel has a name that is asked for and none that is excluded. -/
structure Named (written : List Condition) (channel : ListCandidate casemap) : Prop where
  excluded : ∀ mask, .excluding mask ∈ written → Mask.matches casemap mask channel.key = false
  matched : (∃ mask, .matching mask ∈ written) →
    ∃ mask, .matching mask ∈ written ∧ Mask.matches casemap mask channel.key = true

variable {filter : Filter} {channel : ListCandidate casemap}

theorem glob_casefold (mask : Bytes) :
    Mask.glob (casemap.casefold mask) channel.key = Mask.matches casemap mask channel.key := by
  rw [Mask.matches, channel.folded]

section

variable (holding : Holding nowSecs casemap written filter)
include holding

theorem Holding.masks_iff :
    (filter.masks.isEmpty || filter.masks.any fun mask => glob mask channel.key) = true ↔
      ((∃ mask, .matching mask ∈ written) →
        ∃ mask, .matching mask ∈ written ∧ Mask.matches casemap mask channel.key = true) := by
  have among : ∀ folded, folded ∈ filter.masks ↔
      ∃ mask, .matching mask ∈ written ∧ casemap.casefold mask = folded := by
    intro folded
    rw [holding.masks, List.mem_filterMap]
    constructor
    · rintro ⟨c, among, isMask⟩
      cases c with
      | matching mask => exact ⟨mask, among, some.inj isMask⟩
      | limit _ _ | moreThanNegative | excluding _ => cases isMask
    · rintro ⟨mask, among, rfl⟩
      exact ⟨.matching mask, among, rfl⟩
  rw [or_eq_true, List.isEmpty_iff, List.any_eq_true]
  constructor
  · rintro (none_asked | ⟨folded, asked, hit⟩) ⟨mask, isMask⟩
    · have present := (among _).mpr ⟨mask, isMask, rfl⟩
      rw [none_asked] at present
      cases present
    · obtain ⟨mask, isMask, rfl⟩ := (among folded).mp asked
      exact ⟨mask, isMask, glob_casefold mask ▸ hit⟩
  · intro matched
    rcases eq_nil_or_concat filter.masks with empty | ⟨front, last, whole⟩
    · exact .inl empty
    have asked : last ∈ filter.masks := by simp [whole]
    obtain ⟨mask, isMask, -⟩ := (among last).mp asked
    obtain ⟨mask, isMask, hit⟩ := matched ⟨mask, isMask⟩
    exact .inr ⟨_, (among _).mpr ⟨mask, isMask, rfl⟩, by rw [glob_casefold, hit]⟩

theorem Holding.excluded_iff :
    (!filter.excluded.any fun mask => glob mask channel.key) = true ↔
      ∀ mask, .excluding mask ∈ written → Mask.matches casemap mask channel.key = false := by
  rw [not_eq_true', List.any_eq_false, holding.excluded]
  constructor
  · intro clear mask isMask
    have hit := clear (casemap.casefold mask)
      (List.mem_filterMap.mpr ⟨.excluding mask, isMask, rfl⟩)
    rw [glob_casefold] at hit
    exact eq_false_of_not_eq_true hit
  · intro clear folded among
    obtain ⟨c, isMask, same⟩ := mem_filterMap.mp among
    cases c with
    | excluding mask =>
      cases same
      rw [glob_casefold, clear mask isMask]
      exact false_ne_true
    | limit _ _ | moreThanNegative | matching _ => cases same

theorem Holding.members_iff (plain : Plain written) :
    (decide (filter.minMembers ≤ channel.members) &&
        filter.maxMembers.all fun max => channel.members ≤ max) = true ↔
      (∀ b ∈ (bounds nowSecs written .more).getLast?, Kind.more.Holds channel b) ∧
        ∀ b ∈ (bounds nowSecs written .fewer).getLast?, Kind.fewer.Holds channel b := by
  have small := channel.members_lt
  rw [and_eq_true, decide_eq_true_iff, holding.minMembers, holding.maxMembers]
  refine and_congr ?_ ?_
  · cases (bounds nowSecs written .more).getLast? with
    | none => simp
    | some n =>
      simp only [map_some, getD_some, mem_some_iff, forall_eq', Kind.Holds]
      unfold u64SaturatingAdd
      omega
  · cases last : (bounds nowSecs written .fewer).getLast? with
    | none => simp
    | some n =>
      have some_members : n ≠ 0 := by
        rintro rfl
        obtain ⟨n, among, zero⟩ := mem_bounds.mp (mem_of_getLast? last)
        have zero : n = 0 := zero
        exact plain.1 (zero ▸ among)
      simp only [map_some, getD_some, if_neg some_members, all_some,
        decide_eq_true_iff, mem_some_iff, forall_eq', Kind.Holds]
      omega

theorem Holding.created_iff : filter.created.contains channel.createdSecs = true ↔
      (∀ b ∈ (bounds nowSecs written .createdSince).getLast?, Kind.createdSince.Holds channel b) ∧
        ∀ b ∈ (bounds nowSecs written .createdTill).getLast?, Kind.createdTill.Holds channel b := by
  rw [Window.contains, and_eq_true, holding.createdSince, holding.createdTill]
  simp [Option.all_eq_true, Kind.Holds]

theorem Holding.topic_iff :
    (!filter.topicSet.isBounded || channel.topicSetSecs.any filter.topicSet.contains) = true ↔
      (∀ b ∈ (bounds nowSecs written .topicSince).getLast?, Kind.topicSince.Holds channel b) ∧
        ∀ b ∈ (bounds nowSecs written .topicTill).getLast?, Kind.topicTill.Holds channel b := by
  rw [← holding.topicSince, ← holding.topicTill]
  obtain ⟨since, till⟩ := filter.topicSet
  simp only [Kind.Holds]
  generalize channel.topicSetSecs = set
  cases since <;> cases till <;> cases set <;> simp [Window.isBounded, Window.contains]

/-- The filter admits a channel that is within the last bound of each kind. -/
theorem Holding.admits_iff (plain : Plain written) : filter.admits channel = true ↔
      (∀ kind, ∀ b ∈ (bounds nowSecs written kind).getLast?, kind.Holds channel b) ∧
        Named written channel := by
  have split : filter.admits channel = true ↔
      (decide (filter.minMembers ≤ channel.members) &&
        filter.maxMembers.all fun max => channel.members ≤ max) = true ∧
      filter.created.contains channel.createdSecs = true ∧
      (!filter.topicSet.isBounded || channel.topicSetSecs.any filter.topicSet.contains) = true ∧
      (filter.masks.isEmpty || filter.masks.any fun mask => glob mask channel.key) = true ∧
      (!filter.excluded.any fun mask => glob mask channel.key) = true := by
    simp only [Filter.admits, and_eq_true]
    tauto
  rw [split, holding.members_iff plain, holding.created_iff, holding.topic_iff, holding.masks_iff,
    holding.excluded_iff]
  constructor
  · intro ⟨⟨more, fewer⟩, ⟨since, till⟩, ⟨topicSince, topicTill⟩, matched, excluded⟩
    refine ⟨fun kind => ?_, excluded, matched⟩
    cases kind <;> assumption
  · intro ⟨each, excluded, matched⟩
    exact ⟨⟨each .more, each .fewer⟩, ⟨each .createdSince, each .createdTill⟩,
      ⟨each .topicSince, each .topicTill⟩, matched, excluded⟩

end

/-! ## Tightest bounds -/

variable {a n : ℕ} {text : Bytes}

theorem Kind.Holds.within (holds : kind.Holds channel a) (tighter : kind.Within a b) :
    kind.Holds channel b := by
  cases kind with
  | fewer => exact lt_of_lt_of_le holds tighter
  | more => exact lt_of_le_of_lt tighter holds
  | createdSince => exact le_trans tighter holds
  | createdTill => exact le_trans holds tighter
  | topicSince =>
    obtain ⟨set, isSet, after⟩ := holds
    exact ⟨set, isSet, le_trans tighter after⟩
  | topicTill =>
    obtain ⟨set, isSet, before⟩ := holds
    exact ⟨set, isSet, le_trans before tighter⟩

theorem meetsAll_iff : MeetsAll nowSecs written channel ↔
    (∀ kind, ∀ b ∈ bounds nowSecs written kind, kind.Holds channel b) ∧ Named written channel := by
  constructor
  · intro meets
    refine ⟨fun kind b among => ?_, meets.excluded, meets.matched⟩
    obtain ⟨n, isLimit, rfl⟩ := mem_bounds.mp among
    exact meets.limits kind n isLimit
  · intro ⟨each, named⟩
    exact ⟨fun kind n isLimit => each kind _ (mem_bounds.mpr ⟨n, isLimit, rfl⟩), named.excluded,
      named.matched⟩

/-- The channel moved just out of a bound. -/
def ListCandidate.past (channel : ListCandidate casemap) (b : ℕ) : Kind → ListCandidate casemap
  | .fewer | .more =>
    if small : b < u64Max then { channel with members := b, members_lt := small } else channel
  | .createdSince => { channel with createdSecs := b - 1 }
  | .createdTill => { channel with createdSecs := b + 1 }
  | .topicSince => { channel with topicSetSecs := some (b - 1) }
  | .topicTill => { channel with topicSetSecs := some (b + 1) }

theorem named_past (named : Named written channel) : Named written (channel.past b kind) := by
  have same : (channel.past b kind).key = channel.key := by
    cases kind <;> simp only [ListCandidate.past] <;> split <;> rfl
  exact ⟨same ▸ named.excluded, same ▸ named.matched⟩

variable {other : Kind}

/-- It is within every bound the channel was in, but for those of its kind as tight. -/
theorem holds_past (small : kind = .fewer ∨ kind = .more → b < u64Max)
    (held : kind.Holds channel b) (holds : other.Holds channel a)
    (wider : other = kind → ¬ kind.Within a b) : other.Holds (channel.past b kind) a := by
  cases kind with
  | fewer | more =>
    have small := small (by simp)
    cases other <;>
      simp_all only [Kind.Holds, Kind.Within, ListCandidate.past, true_imp_iff, dif_pos] <;> omega
  | createdSince | createdTill =>
    cases other <;> simp_all only [Kind.Holds, Kind.Within, ListCandidate.past, true_imp_iff] <;>
      omega
  | topicSince | topicTill =>
    obtain ⟨set, isSet, bounded⟩ := held
    cases other with
    | topicSince | topicTill =>
      obtain ⟨set', isSet', bounded'⟩ := holds
      cases isSet.symm.trans isSet'
      simp_all only [Kind.Within, true_imp_iff, reduceCtorEq, false_imp_iff]
      exact ⟨_, rfl, by omega⟩
    | fewer | more | createdSince | createdTill => exact holds

theorem not_holds_past (small : kind = .fewer ∨ kind = .more → b < u64Max)
    (wider : ¬ kind.Within a b) : ¬ kind.Holds (channel.past b kind) b := by
  cases kind <;> simp_all [Kind.Holds, Kind.Within, ListCandidate.past] <;> omega

/-- A count that is read is a 64-bit number. -/
theorem count_le (counted : count text = some n) : n ≤ u64Max := by
  simp only [count, ite_none_right_eq_some, some.injEq] at counted
  obtain ⟨-, rfl⟩ := counted
  induction text using List.reverseRecOn with
  | nil => exact Nat.zero_le _
  | append_singleton text digit _ =>
    rw [foldl_append]
    exact Nat.min_le_right _ _

theorem le_of_count
    (read : (count text).map (Condition.limit other) = some (.limit kind n)) : n ≤ u64Max := by
  obtain ⟨m, counted, same⟩ := map_eq_some_iff.mp read
  cases same
  exact count_le counted

theorem limit_le {parameter : Option Bytes}
    (isLimit : .limit kind n ∈ conditions parameter) : n ≤ u64Max := by
  obtain ⟨text, -, read⟩ := mem_filterMap.mp isLimit
  have signed : ∀ within beyond rest, readSigned within beyond rest = some (.limit kind n) →
      n ≤ u64Max := by
    intro within beyond rest read
    cases rest with
    | nil => cases read
    | cons sign digits =>
      simp only [readSigned] at read
      split_ifs at read <;> exact le_of_count read
  cases text with
  | nil => cases read
  | cons first rest =>
    simp only [readCondition] at read
    split_ifs at read
    · exact le_of_count read
    · split at read
      · obtain ⟨m, -, same⟩ := map_eq_some_iff.mp read
        cases same
      · exact le_of_count read
    · exact signed _ _ rest read
    · exact signed _ _ rest read
    · cases read
    · cases read

end

/-- A channel of seven, created at the epoch. -/
def sevenMembers : ListCandidate .rfc1459 :=
  ⟨ascii "#seven", by decide +kernel, 7, by decide, 0, none⟩

/-- `LIST >2,<10,#*`. -/
def narrowing : Bytes := ascii ">2,<10,#*"

/-- `LIST <5,<10`. -/
def widening : Bytes := ascii "<5,<10"

end E6irc.ListFilter
