import E6irc.Base.Bytes
import E6irc.Base.Run
import E6irc.Base.Vec

/-!
# The clocks of protected nicks

`NickEnforcement` of `core/state.rs`: the deadlines a session got for the protected
nicks it has held without identifying, at most `tracked` of them.  A nick past that
takes the place of the one with the latest deadline, and gets no more than the
earliest.

A nick keeps a bound on its deadline either through its own entry or, once that is
gone, because the table is full and has an entry within the bound.  Settling an
entry makes room, so it gives up the bound of every nick whose entry is gone.
-/

namespace E6irc

open Base List Option Prod System

abbrev NickKey := Bytes

/-- Most nicks whose clocks one session keeps. -/
def NickEnforcement.tracked : ℕ := 8

structure NickEnforcement where
  held : Option NickKey
  deadlines : List (NickKey × ℕ)
  once : (deadlines.map fst).Nodup
  within : deadlines.length ≤ NickEnforcement.tracked

namespace NickEnforcement

def default : NickEnforcement := ⟨none, [], nodup_nil, Nat.zero_le _⟩

/-- The deadlines without the last of the latest. -/
def dropLatest (deadlines : List (NickKey × ℕ)) : List (NickKey × ℕ) :=
  match lastMax snd deadlines with
  | none => deadlines
  | some (latest, _) => swapRemove deadlines latest

theorem dropLatest_spec {deadlines : List (NickKey × ℕ)} (some : deadlines ≠ []) :
    ∃ latest, (latest :: dropLatest deadlines).Perm deadlines ∧
      ∀ entry ∈ deadlines, entry.2 ≤ latest.2 := by
  unfold dropLatest
  cases found : lastMax snd deadlines with
  | none => exact absurd (lastMax_eq_none.mp found) some
  | some best =>
    obtain ⟨i, latest⟩ := best
    obtain ⟨stands, greatest⟩ := lastMax_spec found
    exact ⟨latest, swapRemove_perm stands, greatest⟩

/-- The entries kept when a nick without one gets its clock. -/
def kept (deadlines : List (NickKey × ℕ)) : List (NickKey × ℕ) :=
  if tracked ≤ deadlines.length then dropLatest deadlines else deadlines

/-- The deadline of a nick without an entry. -/
def start (deadlines : List (NickKey × ℕ)) (fresh : ℕ) : ℕ :=
  if tracked ≤ deadlines.length then min fresh ((deadlines.map snd).min?.getD fresh) else fresh

section

variable {deadlines : List (NickKey × ℕ)}

theorem ne_nil_of_full (full : tracked ≤ deadlines.length) : deadlines ≠ [] := by
  rintro rfl
  exact absurd full (by decide)

theorem kept_subperm (deadlines : List (NickKey × ℕ)) : (kept deadlines).Subperm deadlines := by
  unfold kept
  split
  · rename_i full
    obtain ⟨latest, perm, _⟩ := dropLatest_spec (ne_nil_of_full full)
    exact (sublist_cons_self latest _).subperm.trans perm.subperm
  · exact List.Subperm.refl _

theorem length_kept (within : deadlines.length ≤ tracked) : (kept deadlines).length < tracked := by
  unfold kept
  split
  · rename_i full
    obtain ⟨latest, perm, _⟩ := dropLatest_spec (ne_nil_of_full full)
    have length := perm.length_eq
    rw [length_cons] at length
    omega
  · omega

/-- An entry for a nick that has none beside the entries kept. -/
theorem nodup_kept_append {nick : NickKey} {d : ℕ} (once : (deadlines.map fst).Nodup)
    (absent : deadlines.find? (·.1 = nick) = none) :
    ((kept deadlines ++ [(nick, d)]).map fst).Nodup := by
  obtain ⟨part, perm, fewer⟩ := kept_subperm deadlines
  have distinct : ((kept deadlines).map fst).Nodup :=
    (perm.map fst).nodup_iff.mp (once.sublist (fewer.map fst))
  have new : nick ∉ (kept deadlines).map fst := by
    intro among
    obtain ⟨entry, listed, same⟩ := mem_map.mp among
    have before := (kept_subperm deadlines).subset listed
    exact absurd same (by simpa using List.find?_eq_none.mp absent entry before)
  rw [map_append, nodup_append']
  exact ⟨distinct, nodup_singleton _, disjoint_singleton.mpr new⟩

end

/-- The deadline for holding `nick` unidentified: the one it already has, or else `fresh`. -/
def deadline (e : NickEnforcement) (nick : NickKey) (fresh : ℕ) : ℕ × NickEnforcement :=
  match absent : e.deadlines.find? (·.1 = nick) with
  | some entry => (entry.2, e)
  | none =>
    (start e.deadlines fresh, { e with
      deadlines := kept e.deadlines ++ [(nick, start e.deadlines fresh)]
      once := nodup_kept_append e.once absent
      within := by
        rw [length_append]
        exact length_kept e.within })

def hold (e : NickEnforcement) (nick : NickKey) : NickEnforcement := { e with held := some nick }

def release (e : NickEnforcement) : NickEnforcement := { e with held := none }

def settle (e : NickEnforcement) (nick : NickKey) : NickEnforcement where
  held := if e.held = some nick then none else e.held
  deadlines := e.deadlines.filter (·.1 ≠ nick)
  once := e.once.sublist (filter_sublist.map _)
  within := (length_filter_le _ _).trans e.within

variable {e : NickEnforcement} {nick other : NickKey} {d bound fresh : ℕ}

/-! ## Clocks -/

/-- The deadline kept for a nick. -/
def clock (e : NickEnforcement) (nick : NickKey) : Option ℕ :=
  (e.deadlines.find? (·.1 = nick)).map snd

theorem clock_eq_none : e.clock nick = none ↔ ∀ d, (nick, d) ∉ e.deadlines := by
  rw [clock, map_eq_none_iff, List.find?_eq_none]
  constructor
  · intro apart d listed
    simpa using apart _ listed
  intro apart entry listed same
  obtain ⟨key, d⟩ := entry
  obtain rfl : key = nick := by simpa using same
  exact apart d listed

theorem clock_eq_some : e.clock nick = some d ↔ (nick, d) ∈ e.deadlines := by
  constructor
  · intro kept
    obtain ⟨⟨key, d⟩, found, rfl⟩ := map_eq_some_iff.mp kept
    obtain rfl : key = nick := by simpa using List.find?_some found
    exact mem_of_find?_eq_some found
  · intro listed
    cases kept : e.clock nick with
    | none => exact absurd listed (clock_eq_none.mp kept d)
    | some d' =>
      obtain ⟨⟨key, d''⟩, found, rfl⟩ := map_eq_some_iff.mp kept
      obtain rfl : key = nick := by simpa using List.find?_some found
      have same := inj_on_of_nodup_map e.once (mem_of_find?_eq_some found) listed rfl
      exact congrArg some (Prod.ext_iff.mp same).2

/-- A nick with a clock gets the same deadline again. -/
theorem deadline_of_clock (kept : e.clock nick = some d) (fresh : ℕ) :
    e.deadline nick fresh = (d, e) := by
  obtain ⟨entry, found, rfl⟩ := map_eq_some_iff.mp kept
  unfold deadline
  split
  · rename_i entry' found'
    rw [found] at found'
    cases found'
    rfl
  · rename_i absent
    rw [found] at absent
    cases absent

theorem deadline_of_none (absent : e.clock nick = none) (fresh : ℕ) :
    (e.deadline nick fresh).1 = start e.deadlines fresh ∧
      (e.deadline nick fresh).2.deadlines =
        kept e.deadlines ++ [(nick, start e.deadlines fresh)] := by
  rw [clock, map_eq_none_iff] at absent
  unfold deadline
  split
  · rename_i entry found
    rw [absent] at found
    cases found
  · exact ⟨rfl, rfl⟩

theorem clock_settle_ne (apart : other ≠ nick) : (e.settle nick).clock other = e.clock other := by
  refine Option.ext fun d => ?_
  rw [clock_eq_some, clock_eq_some, settle, mem_filter]
  simp [apart]

/-! ## Bounds -/

/-- No deadline for the nick is past the bound: its own entry keeps it, or else every
new one of a full table. -/
def Covers (e : NickEnforcement) (nick : NickKey) (bound : ℕ) : Prop :=
  match e.clock nick with
  | some d => d ≤ bound
  | none => tracked ≤ e.deadlines.length ∧ ∃ entry ∈ e.deadlines, entry.2 ≤ bound

theorem covers_of_clock (kept : e.clock nick = some d) : e.Covers nick bound ↔ d ≤ bound := by
  rw [Covers, kept]

theorem covers_of_none (absent : e.clock nick = none) : e.Covers nick bound ↔
    tracked ≤ e.deadlines.length ∧ ∃ entry ∈ e.deadlines, entry.2 ≤ bound := by
  rw [Covers, absent]

/-- The earliest deadline of a full table bounds a new one. -/
theorem start_le (full : tracked ≤ e.deadlines.length) {entry : NickKey × ℕ}
    (listed : entry ∈ e.deadlines) : start e.deadlines fresh ≤ entry.2 := by
  rw [start, if_pos full]
  cases least : (e.deadlines.map snd).min? with
  | none =>
    rw [List.min?_eq_none_iff, map_eq_nil_iff] at least
    rw [least] at listed
    cases listed
  | some d =>
    have lowest := (List.min?_eq_some_iff.mp least).2 entry.2 (mem_map_of_mem listed)
    exact (Nat.min_le_right _ _).trans lowest

/-- With `fresh` far enough off, a full table gives its earliest deadline. -/
theorem exists_le_start (full : tracked ≤ e.deadlines.length)
    (least : ∀ fresh, start e.deadlines fresh ≤ bound) : ∃ entry ∈ e.deadlines, entry.2 ≤ bound := by
  have far := least (bound + 1)
  rw [start, if_pos full] at far
  cases earliest : (e.deadlines.map snd).min? with
  | none =>
    rw [List.min?_eq_none_iff, map_eq_nil_iff] at earliest
    exact absurd earliest (ne_nil_of_full full)
  | some d =>
    rw [earliest, getD_some] at far
    obtain ⟨entry, listed, rfl⟩ := mem_map.mp (List.min?_eq_some_iff.mp earliest).1
    exact ⟨entry, listed, by omega⟩

/-- A bound is kept exactly if no later call can give more. -/
theorem covers_iff : e.Covers nick bound ↔ ∀ fresh, (e.deadline nick fresh).1 ≤ bound := by
  cases kept : e.clock nick with
  | some d =>
    rw [covers_of_clock kept]
    constructor
    · intro le fresh
      rwa [deadline_of_clock kept]
    · intro le
      have := le 0
      rwa [deadline_of_clock kept] at this
  | none =>
    rw [covers_of_none kept]
    simp only [deadline_of_none kept]
    constructor
    · rintro ⟨full, entry, listed, le⟩ fresh
      exact (start_le full listed).trans le
    intro least
    have full : tracked ≤ e.deadlines.length := by
      by_contra room
      have := least (bound + 1)
      rw [start, if_neg room] at this
      omega
    exact ⟨full, exists_le_start full least⟩

/-! ## Steps -/

theorem clock_deadline (e : NickEnforcement) (nick : NickKey) (fresh : ℕ) :
    (e.deadline nick fresh).2.clock nick = some (e.deadline nick fresh).1 := by
  cases kept : e.clock nick with
  | some d => rw [deadline_of_clock kept, kept]
  | none =>
    obtain ⟨gives, entries⟩ := deadline_of_none kept fresh
    rw [clock_eq_some, entries, gives]
    exact mem_append_right _ mem_cons_self

/-- A full table stays full. -/
theorem full_deadline (absent : e.clock nick = none) (full : tracked ≤ e.deadlines.length) :
    tracked ≤ (e.deadline nick fresh).2.deadlines.length := by
  rw [(deadline_of_none absent fresh).2, kept, if_pos full, length_append, length_singleton]
  obtain ⟨latest, perm, -⟩ := dropLatest_spec (ne_nil_of_full full)
  have length := perm.length_eq
  rw [length_cons] at length
  omega

/-- Where there is room every entry stays. -/
theorem clock_deadline_of_room (absent : e.clock nick = none)
    (room : ¬ tracked ≤ e.deadlines.length) (held : e.clock other = some d) :
    (e.deadline nick fresh).2.clock other = some d := by
  rw [clock_eq_some] at held ⊢
  rw [(deadline_of_none absent fresh).2, kept, if_neg room]
  exact mem_append_left _ held

/-- An entry of another nick was there before. -/
theorem clock_of_deadline (absent : e.clock nick = none) (apart : other ≠ nick)
    (held : (e.deadline nick fresh).2.clock other = some d) : e.clock other = some d := by
  rw [clock_eq_some, (deadline_of_none absent fresh).2, mem_append] at held
  rw [clock_eq_some]
  rcases held with among | new
  · exact (kept_subperm e.deadlines).subset among
  · exact absurd (Prod.ext_iff.mp (mem_singleton.mp new)).1 apart

/-- Giving a deadline gives up no bound. -/
theorem Covers.deadline (covers : e.Covers other bound) (nick : NickKey) (fresh : ℕ) :
    (e.deadline nick fresh).2.Covers other bound := by
  cases absent : e.clock nick with
  | some d =>
    rw [deadline_of_clock absent]
    exact covers
  | none =>
    have new := clock_deadline e nick fresh
    have gives := (deadline_of_none absent fresh).1
    rcases eq_or_ne other nick with rfl | apart
    · obtain ⟨full, entry, listed, le⟩ := (covers_of_none absent).mp covers
      rw [covers_of_clock new, gives]
      exact (start_le full listed).trans le
    cases after : (e.deadline nick fresh).2.clock other with
    | some d =>
      rw [covers_of_clock (clock_of_deadline absent apart after)] at covers
      exact (covers_of_clock after).mpr covers
    | none =>
      -- without an entry of its own the nick is bounded by the new one
      obtain ⟨full, entry, listed, le⟩ :
          tracked ≤ e.deadlines.length ∧ ∃ entry ∈ e.deadlines, entry.2 ≤ bound := by
        cases before : e.clock other with
        | none => exact (covers_of_none before).mp covers
        | some d =>
          refine ⟨?_, _, clock_eq_some.mp before, (covers_of_clock before).mp covers⟩
          by_contra room
          rw [clock_deadline_of_room absent room before] at after
          cases after
      refine (covers_of_none after).mpr
        ⟨full_deadline absent full, _, clock_eq_some.mp new, ?_⟩
      exact gives ▸ (start_le full listed).trans le

/-- Settling a nick keeps the bound of another one exactly if that has an entry of its
own, or there was nothing to settle. -/
theorem covers_settle (covers : e.Covers other bound) (apart : other ≠ nick) :
    (e.settle nick).Covers other bound ↔ ((e.clock nick).isSome → (e.clock other).isSome) := by
  have same := clock_settle_ne (e := e) apart
  cases own : e.clock other with
  | some d =>
    rw [covers_of_clock own] at covers
    rw [covers_of_clock (same.trans own)]
    simp [covers]
  | none =>
    rw [covers_of_none (same.trans own)]
    rw [covers_of_none own] at covers
    cases settled : e.clock nick with
    | none =>
      have all : (e.settle nick).deadlines = e.deadlines := by
        refine filter_eq_self.mpr fun entry listed => ?_
        refine decide_eq_true fun key => ?_
        exact clock_eq_none.mp settled entry.2 (key ▸ listed)
      rw [all]
      simp [covers]
    | some d =>
      have listed := clock_eq_some.mp settled
      have fewer : (e.settle nick).deadlines.length < e.deadlines.length :=
        length_filter_lt_length_iff_exists.mpr ⟨_, listed, by simp⟩
      have within := e.within
      simp only [isSome_some, isSome_none, Bool.false_eq_true, imp_false,
        not_true_eq_false, iff_false, not_and]
      omega

/-! ## Calls -/

/-- A call on a session's clocks. -/
inductive Call
  | deadline (nick : NickKey) (fresh : ℕ)
  | hold (nick : NickKey)
  | release
  | settle (nick : NickKey)
deriving DecidableEq, Repr

def apply (e : NickEnforcement) : Call → NickEnforcement
  | .deadline nick fresh => (e.deadline nick fresh).2
  | .hold nick => e.hold nick
  | .release => e.release
  | .settle nick => e.settle nick

def calls : System NickEnforcement Call where
  init := .default
  step e call := some (e.apply call)

/-- The deadline `d` was returned for `nick`, which has not been settled since. -/
inductive Given (nick : NickKey) (d : ℕ) : List Call → Prop
  | returned {es : List Call} {e : NickEnforcement} {fresh : ℕ} :
    calls.Run anyStep es e → (e.deadline nick fresh).1 = d →
    Given nick d (es ++ [.deadline nick fresh])
  | later {es : List Call} {call : Call} : Given nick d es → call ≠ .settle nick →
    Given nick d (es ++ [call])

/-- What was given after one more call: what the call returned, or what was given
before. -/
theorem given_snoc {es : List Call} {call : Call} (run : calls.Run anyStep es e) :
    Given nick d (es ++ [call]) ↔
      (∃ fresh, call = .deadline nick fresh ∧ (e.deadline nick fresh).1 = d) ∨
        Given nick d es ∧ call ≠ .settle nick := by
  constructor
  · intro given
    generalize trace : es ++ [call] = full at given
    cases given with
    | returned before gives =>
      obtain ⟨rfl, last⟩ := append_inj' trace rfl
      cases last
      exact .inl ⟨_, rfl, run.unique before ▸ gives⟩
    | later before other =>
      obtain ⟨rfl, last⟩ := append_inj' trace rfl
      cases last
      exact .inr ⟨before, other⟩
  · rintro (⟨fresh, rfl, gives⟩ | ⟨before, other⟩)
    · exact .returned run gives
    · exact .later before other

/-- Settling a clock costs no other nick the bound it was given. -/
def Call.Spares (es : List Call) (e : NickEnforcement) : Call → Prop
  | .settle nick => (e.clock nick).isSome →
      ∀ other d, other ≠ nick → Given other d es → (e.clock other).isSome
  | _ => True

/-- Every deadline given bounds those that the nick can get, after a call that spares
them. -/
theorem bounded_step {es : List Call} {call : Call} (run : calls.Run anyStep es e)
    (bounded : ∀ nick d, Given nick d es → e.Covers nick d) :
    (∀ nick d, Given nick d (es ++ [call]) → (e.apply call).Covers nick d) ↔
      call.Spares es e := by
  simp only [given_snoc run]
  cases call with
  | deadline nick fresh =>
    refine iff_of_true ?_ trivial
    rintro other d (⟨fresh', same, rfl⟩ | ⟨before, -⟩)
    · cases same
      exact (covers_of_clock (clock_deadline e nick fresh)).mpr (Nat.le_refl _)
    · exact (bounded other d before).deadline nick fresh
  | hold nick | release =>
    refine iff_of_true ?_ trivial
    rintro other d (⟨fresh, same, -⟩ | ⟨before, -⟩)
    · cases same
    · exact bounded other d before
  | settle nick =>
    constructor
    · intro keeps settled other d apart before
      have after := keeps other d (.inr ⟨before, fun same => apart (Call.settle.inj same).symm⟩)
      exact (covers_settle (bounded other d before) apart).mp after settled
    · rintro spares other d (⟨fresh, same, -⟩ | ⟨before, unsettled⟩)
      · cases same
      · have apart : other ≠ nick := fun same => unsettled (congrArg Call.settle same.symm)
        exact (covers_settle (bounded other d before) apart).mpr fun settled =>
          spares settled other d apart before

/-- Along a run no call returns more for a nick than it was given since it was last
settled, exactly as long as a clock is settled only while every nick that was given a
deadline and not settled since still has its own. -/
theorem never_restarts_iff {es : List Call} (run : calls.Run anyStep es e) :
    calls.Always (fun es e => ∀ nick d, Given nick d es →
        ∀ fresh, (e.deadline nick fresh).1 ≤ d) es ↔
      calls.Run (fun es e call => call.Spares es e) es e := by
  simp only [← covers_iff]
  refine Run.always_iff (J := fun es e => calls.Run anyStep es e) ?_ .nil
    (fun es e call after run step => .snoc run trivial step)
    (fun es e call after run bounded step => ?_) run
  · intro nick d given
    generalize trace : ([] : List Call) = full at given
    cases given with
    | returned | later => simp at trace
  · cases step
    exact bounded_step run bounded

/-- Deadlines for as many nicks as are kept, one after the other. -/
def eightGiven : List Call :=
  [.deadline (ascii "n1") 10, .deadline (ascii "n2") 20, .deadline (ascii "n3") 30,
    .deadline (ascii "n4") 40, .deadline (ascii "n5") 50, .deadline (ascii "n6") 60,
    .deadline (ascii "n7") 70] ++ [.deadline (ascii "n8") 80]

theorem never_restarts_eight : ∃ e, calls.Run anyStep eightGiven e ∧
    (calls.Always (fun es e => ∀ nick d, Given nick d es →
        ∀ fresh, (e.deadline nick fresh).1 ≤ d) eightGiven ↔
      calls.Run (fun es e call => call.Spares es e) eightGiven e) := by
  obtain ⟨e, reached⟩ : ∃ e, calls.exec eightGiven = some e :=
    isSome_iff_exists.mp (by decide +kernel)
  have run := run_of_exec reached
  exact ⟨e, run, never_restarts_iff run⟩

/-- A ninth nick takes the entry of the eighth; once the first is settled there is room,
and the eighth starts again. -/
theorem eighth_restarts : ∃ e es, calls.Run anyStep es e ∧ Given (ascii "n8") 80 es ∧
    (e.deadline (ascii "n8") 200).1 = 200 := by
  have replay : (calls.exec (eightGiven ++ [.deadline (ascii "n9") 90] ++
      [.settle (ascii "n1")])).map (fun e => (e.deadline (ascii "n8") 200).1) = some 200 := by
    decide +kernel
  obtain ⟨e, reached, gives⟩ := exists_run replay
  have start : (calls.exec [.deadline (ascii "n1") 10, .deadline (ascii "n2") 20,
      .deadline (ascii "n3") 30, .deadline (ascii "n4") 40, .deadline (ascii "n5") 50,
      .deadline (ascii "n6") 60, .deadline (ascii "n7") 70]).map
        (fun e => (e.deadline (ascii "n8") 80).1) = some 80 := by
    decide +kernel
  obtain ⟨before, reachedBefore, given⟩ := exists_run start
  have eighth : Given (ascii "n8") 80 eightGiven := .returned reachedBefore given
  refine ⟨e, _, reached, .later (.later eighth ?_) ?_, gives⟩
  · decide
  · decide

end NickEnforcement

end E6irc
