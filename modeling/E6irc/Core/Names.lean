import E6irc.History.Store
import E6irc.Proto.Casemap

/-!
# Nicks, accounts and the identities they stand for

`valid_nick` and `account_name` of `sanitize.rs`, and the keys of
`core/state.rs`.  A logged-in session is known by its account, one that is not
by its nick behind a `~`, which no account's name can start with.
-/

namespace E6irc

open Base

/-! ## What names are made of -/

/-- The `special` bytes of a nick. -/
def isNickSpecial (b : UInt8) : Bool :=
  (ascii "[]\\\x60_^\x7b|\x7d").contains b

def validNick (nick : Bytes) (nickLen : ℕ) : Bool :=
  match nick with
  | [] => false
  | first :: rest =>
    (isAsciiAlphabetic first || isNickSpecial first) && (decide (nick.length ≤ nickLen) &&
      rest.all fun b => isAsciiAlphanumeric b || isNickSpecial b || b == byte '-')

/-- A provider's name reduced to an account's: the name bytes that survive, at
most 32 of them, if any do. -/
def accountName (raw : Bytes) : Option Bytes :=
  let cleaned := (raw.filter fun b =>
    isAsciiAlphanumeric b || isNickSpecial b || b == byte '-' || b == byte '.').take 32
  if cleaned = [] then none else some cleaned

/-- Longest account name an administrator or a client may register. -/
def maxAccountLen : ℕ := 64

/-- An account has a valid nick for a name, or was provisioned. -/
def validAccount (account : Bytes) : Bool :=
  validNick account maxAccountLen || accountName account == some account

/-- A byte a nick or an account name can have. -/
def isNameByte (b : UInt8) : Bool :=
  isAsciiAlphanumeric b || isNickSpecial b || b == byte '-' || b == byte '.'

variable {nick account : Bytes}

theorem nameBytes_of_validNick {nickLen : ℕ} (valid : validNick nick nickLen = true) :
    ∀ b ∈ nick, isNameByte b = true := by
  cases nick with
  | nil => simp
  | cons first rest =>
    simp only [validNick, Bool.and_eq_true, List.all_eq_true] at valid
    obtain ⟨start, -, others⟩ := valid
    intro b mem
    rcases List.mem_cons.mp mem with rfl | later
    · simp only [Bool.or_eq_true] at start
      rcases start with letter | special
      · simp [isNameByte, isAsciiAlphanumeric, letter]
      · simp [isNameByte, special]
    · simp [isNameByte, others b later]

theorem nameBytes_of_validAccount (valid : validAccount account = true) :
    ∀ b ∈ account, isNameByte b = true := by
  simp only [validAccount, Bool.or_eq_true, beq_iff_eq] at valid
  rcases valid with nick | provisioned
  · exact nameBytes_of_validNick nick
  unfold accountName at provisioned
  dsimp only at provisioned
  split at provisioned
  · cases provisioned
  · intro b mem
    rw [← Option.some.inj provisioned] at mem
    exact (List.mem_filter.mp (List.mem_of_mem_take mem)).2

/-- No name byte folds to one of the separators of keys and identities. -/
theorem lower_nameByte : ∀ (casemap : CaseMapping) (b : UInt8), isNameByte b = true →
    casemap.lower b ≠ byte '!' ∧ casemap.lower b ≠ byte '#' ∧ casemap.lower b ≠ byte '~' := by
  intro casemap
  cases casemap <;> decide +kernel

theorem casefold_nameBytes (casemap : CaseMapping) {name : Bytes}
    (valid : ∀ b ∈ name, isNameByte b = true) :
    ∀ b ∈ casemap.casefold name, b ≠ byte '!' ∧ b ≠ byte '#' ∧ b ≠ byte '~' := by
  intro b mem
  obtain ⟨raw, held, rfl⟩ := List.mem_map.mp mem
  exact lower_nameByte casemap raw (valid raw held)

/-! ## Identities and conversation keys -/

/-- The identity of a session that holds `nick` without being logged in. -/
def unauthenticatedIdentity (casemap : CaseMapping) (nick : Bytes) : Bytes :=
  byte '~' :: casemap.casefold nick

/-- A text that can be one side of a conversation key. -/
structure IsIdentity (text : Bytes) : Prop where
  unsplit : byte '!' ∉ text
  notChannel : text.head? ≠ some (byte '#')

variable {casemap : CaseMapping}

theorem isIdentity_unauthenticated (valid : ∀ b ∈ nick, isNameByte b = true) :
    IsIdentity (unauthenticatedIdentity casemap nick) where
  unsplit mem := by
    rcases List.mem_cons.mp mem with tilde | folded
    · exact absurd tilde (by decide)
    · exact (casefold_nameBytes casemap valid _ folded).1 rfl
  notChannel start := absurd (Option.some.inj start) (by decide)

theorem isIdentity_account
    (valid : ∀ b ∈ account, isNameByte b = true) : IsIdentity (casemap.casefold account) where
  unsplit mem := (casefold_nameBytes casemap valid _ mem).1 rfl
  notChannel start := (casefold_nameBytes casemap valid _ (List.mem_of_mem_head? start)).2.1 rfl

/-- The key of the conversation of two identities, the same whichever is first. -/
def dmConversationKey (a b : Bytes) : HistoryKey :=
  if a ≤ b then ⟨a ++ byte '!' :: b⟩ else ⟨b ++ byte '!' :: a⟩

theorem identities_joined {lo hi : Bytes} (low : IsIdentity lo) :
    HistoryKey.identities ⟨lo ++ byte '!' :: hi⟩ = [lo, hi] := by
  have conversation : (lo ++ byte '!' :: hi).head? ≠ some (byte '#') := by
    cases lo with
    | nil => exact fun start => absurd (Option.some.inj start) (by decide)
    | cons first rest => exact low.notChannel
  unfold HistoryKey.identities HistoryKey.participants
  rw [if_neg conversation, splitOnce_append low.unsplit]
  rfl

/-- A conversation's key names its two sides. -/
theorem mem_identities_dmConversationKey {a b : Bytes} (left : IsIdentity a) (right : IsIdentity b) :
    a ∈ (dmConversationKey a b).identities ∧ b ∈ (dmConversationKey a b).identities := by
  unfold dmConversationKey
  split
  · simp [identities_joined left]
  · simp [identities_joined right]

end E6irc
