import E6irc.Base.Bytes

/-!
# History rows and their places

A message as the hot ring keeps it and the database returns it
(`core/mod.rs`), and the one total order of a buffer: the millisecond, then the
msgid compared byte by byte.
-/

namespace E6irc

open Base

/-- Unix milliseconds. -/
abbrev Millis := ℕ

inductive HistoryKind
  | privmsg | notice | tagmsg
deriving DecidableEq, Repr

/-- Which stored entries a reader can be sent. -/
inductive HistoryScope
  | text | textAndTags
deriving DecidableEq, Repr

def HistoryScope.admits (scope : HistoryScope) (kind : HistoryKind) : Bool :=
  scope == .textAndTags || kind != .tagmsg

structure HistoryRow where
  msgid : Bytes
  ts : Millis
  senderPrefix : Bytes
  senderAccount : Option Bytes
  kind : HistoryKind
  body : Bytes
  senderIsBot : Bool
  multiline : Option Bytes
  clientTags : Bytes
deriving DecidableEq, Repr

/-- A message of no text: its msgid and its time alone. -/
def HistoryRow.plain (msgid : Bytes) (ts : Millis) : HistoryRow :=
  ⟨msgid, ts, [], none, .privmsg, [], false, none, []⟩

/-- A position in a buffer's order.  A `timestamp=` bound has no msgid and sits
before every message of its millisecond. -/
structure HistoryPlace where
  ts : Millis
  msgid : Option Bytes
deriving DecidableEq, Repr

/-- The derived order of the fields: `none` before any msgid. -/
def HistoryPlace.fields (place : HistoryPlace) : ℕ ×ₗ WithBot Bytes :=
  toLex (place.ts, place.msgid)

theorem HistoryPlace.fields_injective : Function.Injective HistoryPlace.fields := by
  rintro ⟨ts, msgid⟩ ⟨ts', msgid'⟩ same
  obtain ⟨rfl, rfl⟩ := Prod.mk.inj (toLex.injective same)
  rfl

instance : LinearOrder HistoryPlace :=
  LinearOrder.lift' HistoryPlace.fields HistoryPlace.fields_injective

theorem HistoryPlace.ts_le {a b : HistoryPlace} (le : a ≤ b) : a.ts ≤ b.ts := by
  rcases Prod.Lex.toLex_le_toLex.mp (show a.fields ≤ b.fields from le) with lt | ⟨eq, -⟩
  · exact lt.le
  · exact eq.le

/-- Where a row sits in its buffer's history. -/
def HistoryRow.place (row : HistoryRow) : HistoryPlace :=
  ⟨row.ts, some row.msgid⟩

/-- `size_of::<HistoryEntry>()` on a 64-bit target: six strings of three words,
the timestamp, and the kind and the bot flag padded to a word. -/
def sizeOfHistoryEntry : ℕ := 160

/-- The bytes an entry holds in a ring. -/
def footprint (entry : HistoryRow) : ℕ :=
  sizeOfHistoryEntry + entry.msgid.length + entry.senderPrefix.length +
    entry.senderAccount.elim 0 List.length + entry.body.length +
    entry.multiline.elim 0 List.length + entry.clientTags.length

end E6irc
