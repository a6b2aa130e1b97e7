import E6irc.History.Ring

/-!
# CHATHISTORY windows over the ring and over the whole record

`resolveRingWindow` (`core/handler/history.rs`) cuts a page from the ring and
says whether the ring covers the request.  `Database.page` is the same request
cut from everything ever pushed, as the differential fuzz target
`chathistory_window` models the `messages` table.

A ring of `held` entries is the end of a record `lost ++ held`.  Every bound a
selector resolves to in the ring is a bound of the record, `lost.length` further
on, unless it falls at the ring's very front (`Shifted`).  The coverage
conditions are what rules that exception out.
-/

namespace E6irc

open Base List Option Bool HistoryRow

inductive ChathistorySub
  | latest | before | after | around | between
deriving DecidableEq, Repr

inductive Selector
  | star
  | msgid (id : Bytes)
  | timestamp (t : Millis)
deriving DecidableEq, Repr

def Selector.isStar : Selector → Bool
  | .star => true
  | _ => false

/-- `l[start..end]`. -/
def slice {α : Type*} (l : List α) (start stop : ℕ) : List α :=
  (l.take stop).drop start

/-! ## The ring's page -/

section Ring

variable (history : List HistoryRow)

/-- Start of a lower-exclusive bound: the first entry strictly newer. -/
def lowerStart : Selector → Option ℕ
  | .msgid id => (history.findIdx? (·.msgid == id)).map (· + 1)
  | .timestamp t => some ((history.findIdx? fun e => t < e.ts).getD history.length)
  | .star => none

/-- End of an upper-exclusive bound: how many entries are strictly older. -/
def upperEnd : Selector → Option ℕ
  | .msgid id => history.findIdx? (·.msgid == id)
  | .timestamp t => some ((history.findIdx? fun e => t ≤ e.ts).getD history.length)
  | .star => none

/-- Where a pivot of BETWEEN sits in the `(ts, msgid)` order. -/
def pivotPlace : Selector → Option HistoryPlace
  | .msgid id => (history.find? (·.msgid == id)).map place
  | .timestamp t => some ⟨t, none⟩
  | .star => none

/-- At most `limit` of `history[start..stop]`, the newest. -/
def keepNewest (limit start stop : ℕ) : List HistoryRow :=
  let stop := min stop history.length
  slice history (max (stop - limit) (min start stop)) stop

/-- At most `limit` of `history[start..stop]`, the oldest. -/
def keepOldest (limit start stop : ℕ) : List HistoryRow :=
  let stop := min stop history.length
  let start := min start stop
  slice history start (min (start + limit) stop)

end Ring

def needsDbForMissingRef (ringFull : Bool) (selector : Selector) : Bool :=
  ringFull && !selector.isStar

/-- BETWEEN once its pivots are ordered: the window walks from the first
selector toward the second, so the limit cuts from the first's end. -/
def betweenWindow (history : List HistoryRow) (complete newestFirst : Bool)
    (older newer : Selector) (limit : ℕ) : List HistoryRow × Bool :=
  match lowerStart history older, upperEnd history newer with
  | some start, some stop =>
    (if newestFirst then keepNewest history limit start stop
      else keepOldest history limit start stop, complete || 0 < start)
  | _, _ => ([], complete)

/-- The page and whether the ring covers the request. -/
def resolveRingWindow (history : List HistoryRow) (complete : Bool) (sub : ChathistorySub)
    (selector selector2 : Selector) (limit : ℕ) : List HistoryRow × Bool :=
  let n := history.length
  let miss := ([], !needsDbForMissingRef (!complete) selector)
  match sub with
  | .latest =>
    if selector.isStar then
      (keepNewest history limit 0 n, complete || limit ≤ n)
    else
      match lowerStart history selector with
      | some start => (keepNewest history limit start n, complete || 0 < start || limit ≤ n)
      | none => miss
  | .before =>
    match upperEnd history selector with
    | some stop => (keepNewest history limit 0 stop, complete || 0 < stop - limit)
    | none => miss
  | .after =>
    match lowerStart history selector with
    | some start => (keepOldest history limit start n, complete || 0 < start)
    | none => miss
  | .around =>
    match upperEnd history selector with
    | some pivot =>
      let before := limit / 2
      let start := pivot - before
      let stop := min (pivot + (limit - before)) n
      (slice history start (max stop start), complete || 0 < start)
    | none => miss
  | .between =>
    match pivotPlace history selector, pivotPlace history selector2 with
    | some first, some second =>
      let newestFirst : Bool := second < first
      let (older, newer) := if newestFirst then (selector2, selector) else (selector, selector2)
      betweenWindow history complete newestFirst older newer limit
    | _, _ => ([], complete)

/-! ## The record's page -/

/-- The rows of one target, in the order the table is paged by. -/
structure Database where
  rows : List HistoryRow
  placed : Placed place rows

namespace Database

/-- Everything that arrived, sorted by `(ts, msgid)`. -/
def ofArrivals (arrivals : List HistoryRow) : Database where
  rows := arrivals.insertionSort fun a b => a.place ≤ b.place
  placed :=
    have : Std.Total fun a b : HistoryRow => a.place ≤ b.place := ⟨fun _ _ => le_total _ _⟩
    have : IsTrans HistoryRow fun a b => a.place ≤ b.place := ⟨fun _ _ _ => le_trans⟩
    pairwise_insertionSort _ arrivals

variable (db : Database)

/-- Rows strictly before a selector's position. -/
def before : Selector → Option ℕ
  | .msgid id => db.rows.findIdx? (·.msgid == id)
  | .timestamp t => some (db.rows.filter fun row => row.ts < t).length
  | .star => none

/-- The first row strictly after a selector's position. -/
def after : Selector → Option ℕ
  | .msgid id => (db.rows.findIdx? (·.msgid == id)).map (· + 1)
  | .timestamp t => some (db.rows.filter fun row => row.ts ≤ t).length
  | .star => none

def place : Selector → Option HistoryPlace
  | .msgid id => (db.rows.find? (·.msgid == id)).map HistoryRow.place
  | .timestamp t => some ⟨t, none⟩
  | .star => none

def ids (start stop : ℕ) : List HistoryRow :=
  let stop := min stop db.rows.length
  slice db.rows (min start stop) stop

def newest (start stop limit : ℕ) : List HistoryRow :=
  db.ids (max (stop - limit) start) stop

def oldest (start stop limit : ℕ) : List HistoryRow :=
  db.ids start (min (start + limit) stop)

def between (newestFirst : Bool) (older newer : Selector) (limit : ℕ) :
    Option (List HistoryRow) := do
  let start ← db.after older
  let stop ← db.before newer
  return if newestFirst then db.newest start stop limit else db.oldest start stop limit

/-- The page a request cuts from the whole record. -/
def page (sub : ChathistorySub) (first second : Selector) (limit : ℕ) :
    Option (List HistoryRow) :=
  let n := db.rows.length
  match sub with
  | .latest =>
    if first.isStar then some (db.newest 0 n limit)
    else do return db.newest (← db.after first) n limit
  | .before => do return db.newest 0 (← db.before first) limit
  | .after => do return db.oldest (← db.after first) n limit
  | .around => do
    let pivot ← db.before first
    let older := limit / 2
    return db.ids (pivot - older) (pivot + (limit - older))
  | .between => do
    let newestFirst : Bool := (← db.place second) < (← db.place first)
    let (older, newer) := if newestFirst then (second, first) else (first, second)
    db.between newestFirst older newer limit

end Database

/-! ## Slices of the end of a list -/

variable {α : Type*} {a b a' b' : ℕ}

theorem slice_shift {lost held : List α} (start : a' = lost.length + a)
    (stop : b' = lost.length + b) : slice (lost ++ held) a' b' = slice held a b := by
  subst start stop
  simp [slice, take_append, drop_append]

theorem slice_empty {l : List α} (le : b ≤ a) : slice l a b = [] := by
  rw [slice, drop_eq_nil_iff, length_take]
  omega

/-! ## Bounds of the ring are bounds of the record -/

/-- A bound `k` of the ring and the bound `b` of the record it stands for: past
the ring's front, or with nothing lost, they name the same row. -/
structure Shifted (lost : List HistoryRow) (k b : ℕ) : Prop where
  le : b ≤ lost.length + k
  eq : 0 < k ∨ lost = [] → b = lost.length + k

section Bounds

variable {db : Database} {lost held : List HistoryRow} {selector : Selector} {k : ℕ}

theorem not_lost_of_held (distinct : ((lost ++ held).map (·.msgid)).Nodup) {row : HistoryRow}
    (mem : row ∈ held) : ∀ other ∈ lost, other.msgid ≠ row.msgid := by
  rw [map_append] at distinct
  intro other mem'
  exact (nodup_append.mp distinct).2.2 _ (mem_map_of_mem mem') _ (mem_map_of_mem mem)

/-- A msgid the ring holds is found in the record behind everything lost. -/
theorem findIdx?_held (record : db.rows = lost ++ held)
    (distinct : (db.rows.map (·.msgid)).Nodup) {id : Bytes}
    (found : held.findIdx? (·.msgid == id) = some k) :
    db.rows.findIdx? (·.msgid == id) = some (lost.length + k) := by
  obtain ⟨within, named, -⟩ := findIdx?_eq_some_iff_getElem.mp found
  have absent : lost.findIdx? (·.msgid == id) = none := by
    rw [findIdx?_eq_none_iff]
    intro other mem
    have apart := not_lost_of_held (record ▸ distinct) (getElem_mem within) other mem
    rw [beq_iff_eq] at named
    simpa [named] using apart
  rw [record, findIdx?_append, absent, found]
  simp [Nat.add_comm]

/-- The rows on the old side of a time are counted by where the new side starts
in the ring, and by all of them in the record. -/
theorem shifted_filter (record : db.rows = lost ++ held) (old : HistoryRow → Bool)
    (down : ∀ a b : HistoryRow, a.ts ≤ b.ts → old b = true → old a = true) :
    Shifted lost ((held.findIdx? fun row => !old row).getD held.length)
      (db.rows.filter old).length := by
  have placed : Placed place (lost ++ held) := record ▸ db.placed
  obtain ⟨-, placedHeld, cross⟩ := pairwise_append.mp placed
  have byPlace (a b : HistoryRow) (le : a.place ≤ b.place) : old b = true → old a = true :=
    down a b (HistoryPlace.ts_le le)
  have most : lost.countP old ≤ lost.length := countP_le_length
  rw [Placed.findIdx_eq_countP placedHeld byPlace, ← countP_eq_length_filter, record, countP_append]
  refine ⟨by omega, ?_⟩
  rintro (pos | rfl)
  · obtain ⟨row, mem, holds⟩ := countP_pos_iff.mp pos
    have all : lost.countP old = lost.length := countP_eq_length.mpr fun a mem' =>
      byPlace a row (cross a mem' row mem) holds
    omega
  · simp

theorem upperEnd_shifted (record : db.rows = lost ++ held)
    (distinct : (db.rows.map (·.msgid)).Nodup) (stop : upperEnd held selector = some k) :
    ∃ b, db.before selector = some b ∧ Shifted lost k b := by
  cases selector with
  | star => cases stop
  | msgid id => exact ⟨_, findIdx?_held record distinct stop, le_rfl, fun _ => rfl⟩
  | timestamp t =>
    have shifted := shifted_filter record (fun row => row.ts < t) fun a b le old =>
      decide_eq_true (le.trans_lt (of_decide_eq_true old))
    simp only [← decide_not, not_lt] at shifted
    exact ⟨_, rfl, some.inj stop ▸ shifted⟩

theorem upperEnd_le (stop : upperEnd held selector = some k) : k ≤ held.length := by
  cases selector with
  | star => cases stop
  | msgid id => exact (findIdx?_eq_some_iff_getElem.mp stop).1.le
  | timestamp t =>
    cases stop
    cases found : held.findIdx? fun e => decide (t ≤ e.ts) with
    | none => exact le_rfl
    | some i => exact (findIdx?_eq_some_iff_getElem.mp found).1.le

theorem lowerStart_shifted (record : db.rows = lost ++ held)
    (distinct : (db.rows.map (·.msgid)).Nodup) (start : lowerStart held selector = some k) :
    ∃ b, db.after selector = some b ∧ Shifted lost k b := by
  cases selector with
  | star => cases start
  | msgid id =>
    obtain ⟨p, found, rfl⟩ := map_eq_some_iff.mp start
    refine ⟨lost.length + p + 1, ?_, le_rfl, fun _ => rfl⟩
    rw [Database.after, findIdx?_held record distinct found, map_some]
  | timestamp t =>
    have shifted := shifted_filter record (fun row => row.ts ≤ t) fun a b le old =>
      decide_eq_true (le.trans (of_decide_eq_true old))
    simp only [← decide_not, not_le] at shifted
    exact ⟨_, rfl, some.inj start ▸ shifted⟩

/-- A pivot the ring resolves has the same place in the record. -/
theorem pivotPlace_eq (record : db.rows = lost ++ held)
    (distinct : (db.rows.map (·.msgid)).Nodup) {place : HistoryPlace}
    (found : pivotPlace held selector = some place) : db.place selector = some place := by
  cases selector with
  | star => cases found
  | timestamp t => exact found
  | msgid id =>
    obtain ⟨row, hit, rfl⟩ := map_eq_some_iff.mp found
    have named := find?_some hit
    have apart := not_lost_of_held (record ▸ distinct) (mem_of_find?_eq_some hit)
    have absent : lost.find? (·.msgid == id) = none := by
      rw [find?_eq_none]
      intro other mem
      rw [beq_iff_eq] at named
      simpa [named] using apart other mem
    rw [Database.place, record, find?_append, absent, none_or, hit, map_some]

end Bounds

/-! ## Well-formed requests -/

/-- A `msgid=` selector names a message that arrived. -/
def Selector.Names (arrivals : List HistoryRow) : Selector → Prop
  | .msgid id => id ∈ arrivals.map (·.msgid)
  | _ => True

instance (arrivals : List HistoryRow) : DecidablePred (Selector.Names arrivals)
  | .msgid id => inferInstanceAs (Decidable (id ∈ arrivals.map (·.msgid)))
  | .star => .isTrue trivial
  | .timestamp _ => .isTrue trivial

/-- The open bound `*` is a selector of LATEST alone, BETWEEN has a second
selector, and every msgid is known. -/
structure WellFormed (arrivals : List HistoryRow) (sub : ChathistorySub)
    (selector selector2 : Selector) : Prop where
  bounded : selector.isStar = true → sub = .latest
  bounded2 : sub = .between → selector2.isStar = false
  named : selector.Names arrivals
  named2 : sub = .between → selector2.Names arrivals

section Resolves

variable {rows : List HistoryRow} {selector : Selector}

theorem findIdx?_of_names {id : Bytes} (named : id ∈ rows.map (·.msgid)) :
    (rows.findIdx? (·.msgid == id)).isSome = true := by
  obtain ⟨row, mem, rfl⟩ := mem_map.mp named
  rw [List.findIdx?_isSome, List.any_eq_true]
  exact ⟨row, mem, by simp⟩

theorem upperEnd_isSome (bounded : selector.isStar = false) (named : selector.Names rows) :
    ∃ stop, upperEnd rows selector = some stop := by
  cases selector with
  | star => cases bounded
  | msgid id => exact isSome_iff_exists.mp (findIdx?_of_names named)
  | timestamp t => exact ⟨_, rfl⟩

theorem lowerStart_isSome (bounded : selector.isStar = false) (named : selector.Names rows) :
    ∃ start, lowerStart rows selector = some start := by
  cases selector with
  | star => cases bounded
  | msgid id =>
    obtain ⟨p, found⟩ := isSome_iff_exists.mp (findIdx?_of_names named)
    exact ⟨p + 1, by rw [lowerStart, found, map_some]⟩
  | timestamp t => exact ⟨_, rfl⟩

theorem pivotPlace_isSome (bounded : selector.isStar = false) (named : selector.Names rows) :
    ∃ place, pivotPlace rows selector = some place := by
  cases selector with
  | star => cases bounded
  | msgid id =>
    obtain ⟨row, mem, rfl⟩ := mem_map.mp named
    have found : (rows.find? (·.msgid == row.msgid)).isSome = true := by
      rw [find?_isSome]
      exact ⟨row, mem, by simp⟩
    obtain ⟨hit, found⟩ := isSome_iff_exists.mp found
    exact ⟨hit.place, by rw [pivotPlace, found, map_some]⟩
  | timestamp t => exact ⟨_, rfl⟩

end Resolves

/-! ## Covered pages -/

theorem Database.ids_eq_slice {db : Database} {lost held : List HistoryRow}
    (record : db.rows = lost ++ held) (stop : min b' (lost.length + held.length) = lost.length + b)
    (start : min a' (lost.length + b) = lost.length + a) : db.ids a' b' = slice held a b := by
  have length : db.rows.length = lost.length + held.length := by simp [record]
  rw [Database.ids, length, stop, start, record]
  exact slice_shift rfl rfl

/-- The ring holds the end of the record, all of it when it is complete. -/
structure EndOf (db : Database) (lost held : List HistoryRow) (complete : Bool) : Prop where
  record : db.rows = lost ++ held
  distinct : (db.rows.map (·.msgid)).Nodup
  whole : complete = true → lost = []

namespace EndOf

variable {db : Database} {lost held : List HistoryRow} {complete : Bool}
  {selector selector2 : Selector} {limit k b : ℕ}

/-- A page that the ring claims to cover is the page of the record. -/
def Serves (db : Database) (held : List HistoryRow) (complete : Bool) (sub : ChathistorySub)
    (selector selector2 : Selector) (limit : ℕ) : Prop :=
  (resolveRingWindow held complete sub selector selector2 limit).2 = true →
    db.page sub selector selector2 limit =
      some (resolveRingWindow held complete sub selector selector2 limit).1

variable (ring : EndOf db lost held complete)

include ring

theorem bound_eq (shifted : Shifted lost k b) (reach : complete = true ∨ 0 < k) :
    b = lost.length + k := by
  rcases reach with complete | pos
  · exact shifted.eq (.inr (ring.whole complete))
  · exact shifted.eq (.inl pos)

theorem length_rows : db.rows.length = lost.length + held.length := by
  simp [ring.record]

/-- What the record resolves, the ring does too, unless it counts as a miss; a miss is
covered only when the ring is complete, and then the ring is the record. -/
theorem resolved {α : Type} {f : List HistoryRow → Selector → Option α}
    (resolves : ∃ x, f db.rows selector = some x)
    (missed : f held selector = none → complete = true) : ∃ x, f held selector = some x := by
  cases found : f held selector with
  | some x => exact ⟨x, rfl⟩
  | none =>
    have rows : db.rows = held := by simpa [ring.whole (missed found)] using ring.record
    obtain ⟨x, resolves⟩ := resolves
    rw [rows, found] at resolves
    cases resolves

theorem serves_latest_star (star : selector.isStar = true) :
    Serves db held complete .latest selector selector2 limit := by
  intro covered
  have length := ring.length_rows
  simp only [resolveRingWindow, star, if_true, or_eq_true, decide_eq_true_eq] at covered
  simp only [resolveRingWindow, star, if_true, Database.page, Database.newest, keepNewest,
    some.injEq]
  have reach : lost.length = 0 ∨ limit ≤ held.length :=
    covered.imp_left fun complete => by simp [ring.whole complete]
  refine Database.ids_eq_slice ring.record ?_ ?_ <;> omega

section

variable (bounded : selector.isStar = false) (named : selector.Names db.rows)

include bounded named

theorem serves_latest : Serves db held complete .latest selector selector2 limit := by
  intro covered
  have length := ring.length_rows
  obtain ⟨start, found⟩ := ring.resolved (lowerStart_isSome bounded named) fun missed => by
    simpa [resolveRingWindow, missed, needsDbForMissingRef, bounded] using covered
  obtain ⟨b, after, shifted⟩ := lowerStart_shifted ring.record ring.distinct found
  simp only [resolveRingWindow, bounded, found, or_eq_true, decide_eq_true_eq,
    false_eq_true, if_false] at covered
  simp only [resolveRingWindow, bounded, found, Database.page, after, Database.newest,
    keepNewest, false_eq_true, if_false, Option.pure_def, Option.bind_eq_bind,
    Option.bind_some, some.injEq]
  -- A bound at the ring's front only matters for a page the ring cannot fill.
  have below := shifted.le
  have reach : b = lost.length + start ∨ start = 0 ∧ limit ≤ held.length := by
    rcases Nat.eq_zero_or_pos start with front | past
    · exact covered.imp (ring.bound_eq shifted) fun enough => ⟨front, enough⟩
    · exact .inl (ring.bound_eq shifted (.inr past))
  refine Database.ids_eq_slice ring.record ?_ ?_ <;> omega

theorem serves_below {sub : ChathistorySub} (below : sub = .before ∨ sub = .around) :
    Serves db held complete sub selector selector2 limit := by
  intro covered
  obtain ⟨stop, found⟩ := ring.resolved (upperEnd_isSome bounded named) fun missed => by
    rcases below with rfl | rfl <;>
      simpa [resolveRingWindow, missed, needsDbForMissingRef, bounded] using covered
  obtain ⟨b, before, shifted⟩ := upperEnd_shifted ring.record ring.distinct found
  have inside := upperEnd_le found
  have front (whole : complete = true) : lost.length = 0 := by simp [ring.whole whole]
  rcases below with rfl | rfl
  all_goals
    simp only [resolveRingWindow, found, or_eq_true, decide_eq_true_eq] at covered
    simp only [resolveRingWindow, found, Database.page, before, Database.newest, keepNewest,
      Option.pure_def, Option.bind_eq_bind, Option.bind_some, some.injEq]
    have bound : b = lost.length + stop :=
      ring.bound_eq shifted (covered.imp_right fun more => by omega)
    have reach := covered.imp_left front
    refine Database.ids_eq_slice ring.record ?_ ?_ <;> omega

theorem serves_after : Serves db held complete .after selector selector2 limit := by
  intro covered
  have length := ring.length_rows
  obtain ⟨start, found⟩ := ring.resolved (lowerStart_isSome bounded named) fun missed => by
    simpa [resolveRingWindow, missed, needsDbForMissingRef, bounded] using covered
  obtain ⟨b, after, shifted⟩ := lowerStart_shifted ring.record ring.distinct found
  simp only [resolveRingWindow, found, or_eq_true, decide_eq_true_eq] at covered
  simp only [resolveRingWindow, found, Database.page, after, Database.oldest, keepOldest,
    Option.pure_def, Option.bind_eq_bind, Option.bind_some, some.injEq]
  have bound : b = lost.length + start := ring.bound_eq shifted covered
  refine Database.ids_eq_slice ring.record ?_ ?_ <;> omega

end

/-- Between two resolved bounds, whichever end the limit cuts from. -/
theorem bounded_eq (limit : ℕ) {start stop start' stop' : ℕ}
    (lower : Shifted lost start start') (upper : Shifted lost stop stop')
    (inside : stop ≤ held.length) (reach : complete = true ∨ 0 < start) :
    db.newest start' stop' limit = keepNewest held limit start stop ∧
      db.oldest start' stop' limit = keepOldest held limit start stop := by
  have length := ring.length_rows
  have boundStart := ring.bound_eq lower reach
  by_cases front : lost = [] ∨ 0 < stop
  · have boundStop : stop' = lost.length + stop := upper.eq front.symm
    constructor
    · exact Database.ids_eq_slice ring.record (by omega) (by omega)
    · exact Database.ids_eq_slice ring.record (by omega) (by omega)
  · -- The newer pivot precedes the ring and the older one does not: nothing is between.
    obtain ⟨some_lost, none_held⟩ := not_or.mp front
    have past : 0 < start := reach.resolve_left fun complete => some_lost (ring.whole complete)
    have upTo := upper.le
    constructor
    · rw [Database.newest, Database.ids, keepNewest, slice_empty (by omega), slice_empty (by omega)]
    · rw [Database.oldest, Database.ids, keepOldest, slice_empty (by omega), slice_empty (by omega)]

theorem between_eq {newestFirst : Bool} {older newer : Selector}
    (boundedOlder : older.isStar = false) (boundedNewer : newer.isStar = false)
    (namedOlder : older.Names db.rows) (namedNewer : newer.Names db.rows)
    (covered : (betweenWindow held complete newestFirst older newer limit).2 = true) :
    db.between newestFirst older newer limit =
      some (betweenWindow held complete newestFirst older newer limit).1 := by
  obtain ⟨k, start⟩ := ring.resolved (lowerStart_isSome boundedOlder namedOlder) fun missed => by
    simpa [betweenWindow, missed] using covered
  obtain ⟨j, stop⟩ := ring.resolved (upperEnd_isSome boundedNewer namedNewer) fun missed => by
    simpa [betweenWindow, start, missed] using covered
  obtain ⟨b, after, lower⟩ := lowerStart_shifted ring.record ring.distinct start
  obtain ⟨c, before, upper⟩ := upperEnd_shifted ring.record ring.distinct stop
  simp only [betweenWindow, start, stop, or_eq_true, decide_eq_true_eq] at covered
  obtain ⟨newest, oldest⟩ := ring.bounded_eq limit lower upper (upperEnd_le stop) covered
  simp only [Database.between, betweenWindow, start, stop, after, before, Option.pure_def,
    Option.bind_eq_bind, Option.bind_some, newest, oldest]

theorem serves_between (bounded : selector.isStar = false) (bounded2 : selector2.isStar = false)
    (named : selector.Names db.rows) (named2 : selector2.Names db.rows) :
    Serves db held complete .between selector selector2 limit := by
  intro covered
  obtain ⟨p, first⟩ := ring.resolved (pivotPlace_isSome bounded named) fun missed => by
    simpa [resolveRingWindow, missed] using covered
  obtain ⟨q, second⟩ := ring.resolved (pivotPlace_isSome bounded2 named2) fun missed => by
    simpa [resolveRingWindow, first, missed] using covered
  have first' := pivotPlace_eq ring.record ring.distinct first
  have second' := pivotPlace_eq ring.record ring.distinct second
  by_cases newestFirst : q < p
  · simp only [resolveRingWindow, first, second, newestFirst, decide_true, if_true] at covered
    simpa [Database.page, resolveRingWindow, first, second, first', second', newestFirst]
      using ring.between_eq bounded2 bounded named2 named covered
  · simp only [resolveRingWindow, first, second, newestFirst, decide_false,
      false_eq_true, if_false] at covered
    simpa [Database.page, resolveRingWindow, first, second, first', second', newestFirst]
      using ring.between_eq bounded bounded2 named named2 covered

/-- Every page the ring claims to cover is the page of the record. -/
theorem serves {sub : ChathistorySub} (request : WellFormed db.rows sub selector selector2) :
    Serves db held complete sub selector selector2 limit := by
  have bounded (other : sub ≠ .latest) : selector.isStar = false :=
    eq_false_iff.mpr fun star => other (request.bounded star)
  cases sub with
  | latest =>
    by_cases star : selector.isStar = true
    · exact ring.serves_latest_star star
    · exact ring.serves_latest (eq_false_iff.mpr star) request.named
  | before => exact ring.serves_below (bounded (by simp)) request.named (.inl rfl)
  | after => exact ring.serves_after (bounded (by simp)) request.named
  | around => exact ring.serves_below (bounded (by simp)) request.named (.inr rfl)
  | between =>
    exact ring.serves_between (bounded (by simp)) (request.bounded2 rfl) request.named
      (request.named2 rfl)

end EndOf

/-! ## A ring fed by pushes -/

variable {arrivals : List HistoryRow}

/-- Distinct msgids leave one way to sort the arrivals, so the table is the
record the ring's insertions build. -/
theorem Database.rows_eq_placeAll (distinct : (arrivals.map (·.msgid)).Nodup) :
    (ofArrivals arrivals).rows = placeAll HistoryRow.place arrivals := by
  have sorted : (ofArrivals arrivals).rows.Perm arrivals := perm_insertionSort _ arrivals
  refine (ofArrivals arrivals).placed.eq_of_perm (placed_placeAll arrivals)
    (sorted.trans (perm_placeAll arrivals).symm)
    ((sorted.map msgid).nodup_iff.mpr distinct) fun a b same => ?_
  exact some.inj (congrArg HistoryPlace.msgid same)

theorem ringAfter_endOf {pushes : List (HistoryRow × ℕ)}
    (distinct : ((pushes.map Prod.fst).map (·.msgid)).Nodup) :
    ∃ lost, EndOf (.ofArrivals (pushes.map Prod.fst)) lost (ringAfter (.new true) pushes).entries
      (ringAfter (.new true) pushes).complete := by
  obtain ⟨lost, holds, record⟩ := ringAfter_holds pushes
  have rows := Database.rows_eq_placeAll distinct
  refine ⟨lost, rows.trans record.symm, ?_, holds.whole⟩
  rw [rows]
  exact ((perm_placeAll _).map HistoryRow.msgid).nodup_iff.mpr distinct

theorem Selector.Names.perm {rows : List HistoryRow} {selector : Selector}
    (named : selector.Names arrivals) (perm : rows.Perm arrivals) : selector.Names rows := by
  cases selector with
  | msgid id => exact (perm.map HistoryRow.msgid).mem_iff.mpr named
  | star => trivial
  | timestamp t => trivial

/-- Whatever is pushed into a ring created complete, under whatever budgets and
in whatever order of time, every page the ring claims to cover is the page the
same request cuts from everything ever pushed. -/
theorem resolveRingWindow_eq_page (pushes : List (HistoryRow × ℕ))
    (distinct : ((pushes.map Prod.fst).map (·.msgid)).Nodup) (sub : ChathistorySub)
    (selector selector2 : Selector) (limit : ℕ)
    (request : WellFormed (pushes.map Prod.fst) sub selector selector2)
    (covered : (resolveRingWindow (ringAfter (.new true) pushes).entries
      (ringAfter (.new true) pushes).complete sub selector selector2 limit).2 = true) :
    (Database.ofArrivals (pushes.map Prod.fst)).page sub selector selector2 limit =
      some (resolveRingWindow (ringAfter (.new true) pushes).entries
        (ringAfter (.new true) pushes).complete sub selector selector2 limit).1 := by
  obtain ⟨lost, ring⟩ := ringAfter_endOf distinct
  have sorted : (Database.ofArrivals (pushes.map Prod.fst)).rows.Perm (pushes.map Prod.fst) :=
    perm_insertionSort _ _
  exact ring.serves ⟨request.bounded, request.bounded2, request.named.perm sorted,
    fun between => (request.named2 between).perm sorted⟩ covered

/-- Three messages, the last arriving out of order and the oldest shed: what
follows the second is served from the ring. -/
theorem resolveRingWindow_eq_page_after_shedding :
    let pushes := [(plain (ascii "a") 1, 400), (.plain (ascii "c") 3, 400),
      (.plain (ascii "b") 2, 400)]
    (ringAfter (.new true) pushes).complete = false ∧
      (Database.ofArrivals (pushes.map Prod.fst)).page .after (.msgid (ascii "b")) .star 5 =
        some [.plain (ascii "c") 3] :=
  ⟨by decide, resolveRingWindow_eq_page
    [(plain (ascii "a") 1, 400), (.plain (ascii "c") 3, 400),
      (.plain (ascii "b") 2, 400)] (by decide) .after (.msgid (ascii "b")) .star 5
    ⟨by decide, by decide, by decide, by decide⟩ (by decide)⟩

/-! ## Paging back -/

section Paging

variable {history : List HistoryRow}

theorem slice_append {l : List α} {c : ℕ} (le : a ≤ b) (le' : b ≤ c) :
    slice l a b ++ slice l b c = slice l a c := by
  have split : c - a = (b - a) + (c - b) := by omega
  simp only [slice, drop_take]
  rw [split, take_add, drop_drop, Nat.add_sub_cancel' le]

/-- The rows before a selector. -/
def rowsBefore (history : List HistoryRow) (selector : Selector) (limit : ℕ) : List HistoryRow :=
  (resolveRingWindow history true .before selector .star limit).1

theorem rowsBefore_eq {selector : Selector} {stop : ℕ}
    (found : upperEnd history selector = some stop) (limit : ℕ) :
    rowsBefore history selector limit = slice history (stop - limit) stop := by
  simp [rowsBefore, resolveRingWindow, found, keepNewest, upperEnd_le found]

theorem upperEnd_of_getElem (distinct : (history.map msgid).Nodup) {k : ℕ}
    (within : k < history.length) : upperEnd history (.msgid history[k].msgid) = some k := by
  refine findIdx?_eq_some_iff_getElem.mpr ⟨within, by simp, fun j before same => ?_⟩
  exact pairwise_iff_getElem.mp (pairwise_map.mp distinct) j k _ within before (by simpa using same)

/-- Reading on before the oldest row of a page skips nothing and repeats nothing: the two
pages are the longer page. -/
theorem pages_meet (distinct : (history.map msgid).Nodup) (selector : Selector) (limit more : ℕ) :
    ((rowsBefore history selector (limit + 1)).head?.elim [] fun oldest =>
        rowsBefore history (.msgid oldest.msgid) more) ++ rowsBefore history selector (limit + 1) =
      rowsBefore history selector (limit + 1 + more) := by
  cases found : upperEnd history selector with
  | none => simp [rowsBefore, resolveRingWindow, found]
  | some stop =>
    have inside := upperEnd_le found
    rw [rowsBefore_eq found, rowsBefore_eq found, ← Nat.sub_sub stop (limit + 1)]
    rcases Nat.eq_zero_or_pos stop with rfl | pos
    · simp [slice]
    generalize isFirst : stop - (limit + 1) = k
    have first : k < history.length := by omega
    have oldest : (slice history k stop).head? = some history[k] := by
      rw [slice, head?_drop, getElem?_take_of_lt (by omega), getElem?_eq_getElem first]
    rw [oldest, elim_some, rowsBefore_eq (upperEnd_of_getElem distinct first)]
    exact slice_append (by omega) (by omega)

theorem pages_meet_within_a_millisecond :
    let history := [plain (ascii "a") 1, .plain (ascii "b") 1]
    rowsBefore history (.msgid (ascii "b")) 1 ++ rowsBefore history (.timestamp 2) 1 =
      rowsBefore history (.timestamp 2) 2 :=
  @pages_meet [plain (ascii "a") 1, .plain (ascii "b") 1] (by decide) (.timestamp 2) 0 1

end Paging

end E6irc
