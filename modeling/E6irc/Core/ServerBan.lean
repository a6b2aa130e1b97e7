import E6irc.Base.Keyed
import E6irc.Proto.Casemap

/-!
# Server bans

The bans of `core/state.rs`, the mutations of them that are queued for the
database (`core/mod.rs`), what the database does with one
(`mutate_server_ban_audited`), and what a shard does with a committed one.  A
ban is identified by its kind and its folded mask, in the hot list and in the
table alike.
-/

namespace E6irc

open Base

inductive BanKind
  | kline | dline | xline
deriving DecidableEq, Repr

/-- Human label used in notices. -/
def BanKind.label : BanKind → Bytes
  | .kline => ascii "K-Line"
  | .dline => ascii "D-Line"
  | .xline => ascii "X-Line"

/-- A mask in the casing it was given.  `MaskKey::new` derives the folded form
from it, and two keys are equal when those are. -/
structure MaskKey where
  display : Bytes
deriving DecidableEq, Repr

def MaskKey.folded (casemap : CaseMapping) (mask : MaskKey) : Bytes :=
  casemap.casefold mask.display

/-- What identifies a ban: its kind and its folded mask. -/
abbrev BanKey := BanKind × Bytes

structure ServerBan where
  mask : MaskKey
  reason : Bytes
  setBy : Bytes
  kind : BanKind
  expiresAtSecs : Option ℕ
deriving DecidableEq, Repr

/-- Whether the ban is enforced at `nowSecs`. -/
def ServerBan.inForce (ban : ServerBan) (nowSecs : ℕ) : Bool :=
  match ban.expiresAtSecs with
  | none => true
  | some lapse => nowSecs < lapse

def ServerBan.key (casemap : CaseMapping) (ban : ServerBan) : BanKey :=
  (ban.kind, ban.mask.folded casemap)

/-- What a ban enforces: its kind, its folded mask and until when. -/
def ServerBan.terms (casemap : CaseMapping) (ban : ServerBan) : BanKey × Option ℕ :=
  (ban.key casemap, ban.expiresAtSecs)

/-- How long a temporary ban lasts. -/
structure ServerBanExpiry where
  minutes : ℕ
  expiresAtSecs : ℕ
deriving DecidableEq, Repr

namespace ServerBanExpiry

/-- 52 weeks. -/
def maxMinutes : ℕ := 52 * 7 * 24 * 60

/-- A ban of `minutes` set at `nowSecs`; the sum saturates at the largest `u64`. -/
def starting (nowSecs minutes : ℕ) : ServerBanExpiry :=
  let minutes := min minutes maxMinutes
  { minutes, expiresAtSecs := min (nowSecs + minutes * 60) (2 ^ 64 - 1) }

end ServerBanExpiry

/-- A change of one ban.  A removal may be pinned to the id of a stored row. -/
inductive ServerBanMutation
  | add (mask : MaskKey) (kind : BanKind) (reason setBy : Bytes) (expiry : Option ServerBanExpiry)
  | remove (expectedId : Option ℤ) (mask : MaskKey) (kind : BanKind) (actor : Bytes)
deriving DecidableEq, Repr

namespace ServerBanMutation

def mask : ServerBanMutation → MaskKey
  | .add mask .. | .remove _ mask .. => mask

def kind : ServerBanMutation → BanKind
  | .add _ kind .. | .remove _ _ kind .. => kind

def key (casemap : CaseMapping) (mutation : ServerBanMutation) : BanKey :=
  (mutation.kind, mutation.mask.folded casemap)

/-- The ban an addition leaves in force. -/
def ban : ServerBanMutation → Option ServerBan
  | .add mask kind reason setBy expiry =>
    some { mask, reason, setBy, kind, expiresAtSecs := expiry.map (·.expiresAtSecs) }
  | .remove .. => none

/-- What a committed mutation does to the ban at one key. -/
abbrev writtenAt (casemap : CaseMapping) (k : BanKey) :
    Option ServerBan → ServerBanMutation → Option ServerBan :=
  writeAt (key casemap) (fun mutation _ => mutation.ban) k

end ServerBanMutation

/-! ## The hot list of one shard -/

section

variable (casemap : CaseMapping)

def applyServerBanHot (bans : List ServerBan) (ban : ServerBan) : List ServerBan :=
  replaceKey (ServerBan.key casemap) ban bans

def removeServerBanHot (bans : List ServerBan) (mask : MaskKey) (kind : BanKind) :
    List ServerBan :=
  removeKey (ServerBan.key casemap) (kind, mask.folded casemap) bans

def applyCommittedServerBan (bans : List ServerBan) : ServerBanMutation → List ServerBan
  | .add mask kind reason setBy expiry =>
    applyServerBanHot casemap bans
      { mask, reason, setBy, kind, expiresAtSecs := expiry.map (·.expiresAtSecs) }
  | .remove _ mask kind _ => removeServerBanHot casemap bans mask kind

variable {casemap} {bans : List ServerBan} {mutation : ServerBanMutation} {k : BanKey}

/-- At each key the hot list takes the mutation as a write. -/
theorem entryAt_applyCommittedServerBan :
    entryAt (ServerBan.key casemap) k (applyCommittedServerBan casemap bans mutation) =
      ServerBanMutation.writtenAt casemap k (entryAt (ServerBan.key casemap) k bans) mutation := by
  cases mutation with
  | add mask kind reason setBy expiry => exact entryAt_replaceKey
  | remove expectedId mask kind actor => exact entryAt_removeKey

theorem keyed_applyCommittedServerBan (keyed : Keyed (ServerBan.key casemap) bans) :
    Keyed (ServerBan.key casemap) (applyCommittedServerBan casemap bans mutation) := by
  cases mutation with
  | add mask kind reason setBy expiry => exact keyed.replaceKey _
  | remove expectedId mask kind actor => exact keyed.removeKey _

end

/-! ## The table -/

/-- A row of `server_bans`. -/
structure BanRow where
  id : ℤ
  ban : ServerBan
deriving DecidableEq, Repr

def BanRow.key (casemap : CaseMapping) (row : BanRow) : BanKey :=
  row.ban.key casemap

/-- The stored bans and the id the next new row gets. -/
structure BanTable where
  rows : List BanRow
  nextId : ℤ

inductive ServerBanResult
  | stored | missing | unavailable
deriving DecidableEq, Repr

/-- The largest expiry a `BIGINT` holds. -/
def maxStoredExpiry : ℕ := 2 ^ 63 - 1

namespace BanTable

variable (casemap : CaseMapping) (table : BanTable)

/-- `INSERT … ON CONFLICT (mask, kind) DO UPDATE`: a row that is updated keeps its id. -/
def upsert (ban : ServerBan) : BanTable :=
  let id := match entryAt (BanRow.key casemap) (ban.key casemap) table.rows with
    | some row => row.id
    | none => table.nextId
  ⟨replaceKey (BanRow.key casemap) ⟨id, ban⟩ table.rows, table.nextId + 1⟩

/-- `DELETE … WHERE mask AND kind [AND id]`; `none` when that affects no row. -/
def delete (expectedId : Option ℤ) (k : BanKey) : Option BanTable :=
  match entryAt (BanRow.key casemap) k table.rows with
  | none => none
  | some row =>
    if ∀ id ∈ expectedId, id = row.id then
      some { table with rows := removeKey (BanRow.key casemap) k table.rows }
    else none

end BanTable

/-- One transaction.  An expiry the column cannot hold fails before anything is
written. -/
def mutateServerBanAudited (casemap : CaseMapping) (table : BanTable) :
    ServerBanMutation → BanTable × ServerBanResult
  | .add mask kind reason setBy expiry =>
    if ∃ e ∈ expiry, maxStoredExpiry < e.expiresAtSecs then (table, .unavailable)
    else
      (table.upsert casemap
        { mask, reason, setBy, kind, expiresAtSecs := expiry.map (·.expiresAtSecs) }, .stored)
  | .remove expectedId mask kind _ =>
    match table.delete casemap expectedId (kind, mask.folded casemap) with
    | some deleted => (deleted, .stored)
    | none => (table, .missing)

/-- What a database verdict leaves to be done. -/
inductive ServerBanVerdict
  | nothing
  | committed (mutation : ServerBanMutation)
  | unstored (mutation : ServerBanMutation)
deriving DecidableEq, Repr

/-- `server_ban_result`: only a removal that named no row proves by its failure
that nothing is stored. -/
def serverBanVerdict (mutation : ServerBanMutation) : ServerBanResult → ServerBanVerdict
  | .unavailable => .nothing
  | .missing =>
    match mutation with
    | .remove none .. => .unstored mutation
    | _ => .nothing
  | .stored => .committed mutation

/-- The mutation a verdict has every shard apply. -/
def ServerBanVerdict.applied : ServerBanVerdict → Option ServerBanMutation
  | .nothing => none
  | .committed mutation | .unstored mutation => some mutation

/-- A verdict applies the mutation it is about, if any. -/
theorem ServerBanVerdict.eq_of_applied {mutation applied : ServerBanMutation}
    {result : ServerBanResult} (verdict : (serverBanVerdict mutation result).applied = some applied) :
    applied = mutation := by
  cases result with
  | stored => exact (Option.some.inj verdict).symm
  | unavailable => cases verdict
  | missing =>
    cases mutation with
    | add mask kind reason setBy expiry => cases verdict
    | remove expectedId mask kind actor =>
      cases expectedId with
      | none => exact (Option.some.inj verdict).symm
      | some id => cases verdict

/-- What the shards are left with at a mutation's key, once its verdict is out. -/
def settledBan (mutation : ServerBanMutation) (result : ServerBanResult)
    (held : Option ServerBan) : Option ServerBan :=
  match (serverBanVerdict mutation result).applied with
  | none => held
  | some applied => applied.ban

namespace BanTable

variable (casemap : CaseMapping)

def stored (k : BanKey) (table : BanTable) : Option ServerBan :=
  (entryAt (BanRow.key casemap) k table.rows).map BanRow.ban

variable {casemap} {table : BanTable} {mutation : ServerBanMutation} {k : BanKey}

theorem stored_upsert {ban : ServerBan} : (table.upsert casemap ban).stored casemap k =
    if ban.key casemap = k then some ban else table.stored casemap k := by
  unfold stored upsert
  rw [entryAt_replaceKey, apply_ite (Option.map BanRow.ban)]
  rfl

theorem stored_of_delete {expectedId : Option ℤ} {key : BanKey} {deleted : BanTable}
    (affected : table.delete casemap expectedId key = some deleted) :
    deleted.stored casemap k = if key = k then none else table.stored casemap k := by
  unfold delete at affected
  split at affected
  · cases affected
  rw [Option.ite_none_right_eq_some] at affected
  cases affected.2
  unfold stored
  rw [entryAt_removeKey, apply_ite (Option.map BanRow.ban)]
  rfl

/-- A removal that is not pinned to an id and deletes nothing found nothing stored. -/
theorem stored_of_delete_none {key : BanKey} (unaffected : table.delete casemap none key = none) :
    table.stored casemap key = none := by
  unfold delete at unaffected
  split at unaffected
  · rename_i absent
    rw [stored, absent]
    rfl
  · simp at unaffected

/-- The table changes at the mutation's key alone, and there it holds what the
verdict on the mutation has the shards enforce. -/
theorem stored_mutate :
    (mutateServerBanAudited casemap table mutation).1.stored casemap k =
      if mutation.key casemap = k then
        settledBan mutation (mutateServerBanAudited casemap table mutation).2 (table.stored casemap k)
      else table.stored casemap k := by
  cases mutation with
  | add mask kind reason setBy expiry =>
    simp only [mutateServerBanAudited]
    split
    · exact (ite_self _).symm
    · exact stored_upsert
  | remove expectedId mask kind actor =>
    simp only [mutateServerBanAudited]
    split
    · rename_i deleted affected
      exact stored_of_delete affected
    rename_i unaffected
    split
    · rename_i here
      cases expectedId with
      | none => exact here ▸ stored_of_delete_none unaffected
      | some id => rfl
    · rfl

theorem keyed_mutate (keyed : Keyed (BanRow.key casemap) table.rows) :
    Keyed (BanRow.key casemap) (mutateServerBanAudited casemap table mutation).1.rows := by
  cases mutation with
  | add mask kind reason setBy expiry =>
    simp only [mutateServerBanAudited]
    split
    · exact keyed
    · exact keyed.replaceKey _
  | remove expectedId mask kind actor =>
    simp only [mutateServerBanAudited]
    split
    · rename_i deleted affected
      unfold delete at affected
      split at affected
      · cases affected
      · rw [Option.ite_none_right_eq_some] at affected
        cases affected.2
        exact keyed.removeKey _
    · exact keyed

end BanTable

end E6irc
