import E6irc.Core.BanMask
import E6irc.Proto.Message

/-!
# The masks of a channel's lists

`normalize_ban_mask` and `channel_list_mask` of `handler/channel.rs`: how the
argument of a `+b`, `+q`, `+e` or `+I` becomes the mask that is stored, and
`Middle` of `core/middle.rs`, which shows it.  A mask is completed to
`nick!user@host` by the separators found in it, and only then cut to the longest
that is shown whole.  `KeepsShape` says of a cut mask that completing it once
more leads back to it.
-/

namespace E6irc

open Base List

/-- `Middle::OWN_MAX`. -/
def ownMax : ℕ := 100

/-- `Middle::own`, as it is written on the wire. -/
def ownWire (value : Bytes) : Bytes :=
  if standsAlone value then truncateOnCharBoundary value ownMax else ascii "*"

def star (text : Bytes) : Bytes :=
  if text = [] then ascii "*" else text

def normalizeBanMask (mask : Bytes) : Bytes :=
  if mask.head? = some (byte '$') then mask
  else
    match splitOnce (byte '!') mask with
    | some (nick, rest) =>
      match splitOnce (byte '@') rest with
      | some (user, host) => star nick ++ byte '!' :: (star user ++ byte '@' :: star host)
      | none => star nick ++ byte '!' :: (star rest ++ ascii "@*")
    | none =>
      match splitOnce (byte '@') mask with
      | some (user, host) => ascii "*!" ++ (star user ++ byte '@' :: star host)
      | none =>
        if byte '.' ∈ mask ∨ byte ':' ∈ mask then ascii "*!*@" ++ mask
        else star mask ++ ascii "!*@*"

/-- The stored mask of an argument, or why it is not added. -/
def channelListMask (ipnet : Ipnet) (raw : Bytes) (adding : Bool) : Except Bytes MaskKey :=
  let mask := truncateOnCharBoundary (normalizeBanMask raw) banMaskLen
  if adding then
    if mask.any fun b => b ≤ byte ' ' || b == 0x7F then
      .error (ascii "Mask contains a space or control character")
    else if raw.head? = some (byte ':') ∨ mask.head? = some (byte ':') then
      .error (ascii "Mask may not start with ':'")
    else
      match MaskShape.parse ipnet mask with
      | .error error => .error error.describe
      | .ok _ => .ok ⟨mask⟩
  else .ok ⟨mask⟩

/-! ## What completing a mask finds -/

theorem star_ne_nil (text : Bytes) : star text ≠ [] := by
  unfold star
  split
  · decide
  · assumption

variable {text mask raw : Bytes} {b : UInt8}

theorem star_of_ne_nil (some_text : text ≠ []) : star text = text := if_neg some_text

theorem notMem_star (apart : b ≠ byte '*') (absent : b ∉ text) : b ∉ star text := by
  unfold star
  split
  · simpa [ascii] using apart
  · exact absent

/-- A completed mask: its three parts, none of them empty. -/
structure Completed (nick user host : Bytes) : Prop where
  nick_ne : nick ≠ []
  user_ne : user ≠ []
  host_ne : host ≠ []
  nick_alone : byte '!' ∉ nick
  user_alone : byte '@' ∉ user
  plain : nick.head? ≠ some (byte '$')

theorem head_star (apart : b ≠ byte '*') (absent : text.head? ≠ some b) :
    (star text).head? ≠ some b := by
  unfold star
  split
  · intro same
    exact apart (Option.some.inj same).symm
  · exact absent

/-- Any mask but an extended ban is completed. -/
theorem normalizeBanMask_completed (plain : mask.head? ≠ some (byte '$')) :
    ∃ nick user host, Completed nick user host ∧
      normalizeBanMask mask = nick ++ byte '!' :: (user ++ byte '@' :: host) := by
  have apart : byte '!' ≠ byte '*' ∧ byte '@' ≠ byte '*' ∧ byte '$' ≠ byte '*' := by decide
  unfold normalizeBanMask
  rw [if_neg plain]
  rcases splitOnce_cases (byte '!') mask with ⟨noBang, split⟩ | ⟨nick, rest, rfl, noBang, split⟩
  · rw [split]
    rcases splitOnce_cases (byte '@') mask with ⟨noAt, split⟩ | ⟨user, host, rfl, noAt, split⟩
    · simp only [split]
      split
      · rename_i isHost
        have some_host : mask ≠ [] := by
          rintro rfl
          simp at isHost
        exact ⟨ascii "*", ascii "*", mask,
          ⟨by decide, by decide, some_host, by decide, by decide, by decide⟩, rfl⟩
      · exact ⟨star mask, ascii "*", ascii "*", ⟨star_ne_nil _, by decide, by decide,
          notMem_star apart.1 noBang, by decide, head_star apart.2.2 plain⟩, rfl⟩
    · simp only [split]
      exact ⟨ascii "*", star user, star host, ⟨by decide, star_ne_nil _, star_ne_nil _, by decide,
        notMem_star apart.2.1 noAt, by decide⟩, rfl⟩
  · rw [split]
    have plainNick : nick.head? ≠ some (byte '$') := by
      intro dollar
      apply plain
      cases nick with
      | nil => cases dollar
      | cons first others => exact dollar
    rcases splitOnce_cases (byte '@') rest with ⟨noAt, split⟩ | ⟨user, host, rfl, noAt, split⟩
    · simp only [split]
      exact ⟨star nick, star rest, ascii "*", ⟨star_ne_nil _, star_ne_nil _, by decide,
        notMem_star apart.1 noBang, notMem_star apart.2.1 noAt, head_star apart.2.2 plainNick⟩, rfl⟩
    · simp only [split]
      exact ⟨star nick, star user, star host, ⟨star_ne_nil _, star_ne_nil _, star_ne_nil _,
        notMem_star apart.1 noBang, notMem_star apart.2.1 noAt, head_star apart.2.2 plainNick⟩, rfl⟩

/-! ## Completing a cut mask -/

/-- A cut of two texts falls in the first or keeps it whole. -/
theorem cut_append {front back : Bytes} (cut : mask <+: front ++ back) :
    mask <+: front ∨ ∃ rest, mask = front ++ rest ∧ rest <+: back := by
  rcases prefix_or_prefix_of_prefix cut (prefix_append front back) with inside | ⟨rest, rfl⟩
  · exact .inl inside
  · exact .inr ⟨rest, rfl, (prefix_append_right_inj front).mp cut⟩

/-- The parts of a completed mask that a cut can leave. -/
theorem cut_cases {nick user host : Bytes}
    (cut : mask <+: nick ++ byte '!' :: (user ++ byte '@' :: host)) :
    mask <+: nick ∨ (∃ rest, mask = nick ++ byte '!' :: rest ∧ rest <+: user) ∨
      ∃ rest, mask = nick ++ byte '!' :: (user ++ byte '@' :: rest) := by
  rcases cut_append cut with inNick | ⟨rest, rfl, pastNick⟩
  · exact .inl inNick
  rcases prefix_cons_iff.mp pastNick with rfl | ⟨rest, rfl, pastBang⟩
  · exact .inl (by simp)
  rcases cut_append pastBang with inUser | ⟨rest, rfl, pastUser⟩
  · exact .inr (.inl ⟨rest, rfl, inUser⟩)
  rcases prefix_cons_iff.mp pastUser with rfl | ⟨rest, rfl, -⟩
  · exact .inr (.inl ⟨user, by simp, prefix_refl user⟩)
  · exact .inr (.inr ⟨rest, rfl⟩)

/-- What a mask is stored as when it is given again. -/
def storedAs (mask : Bytes) : Bytes :=
  truncateOnCharBoundary (normalizeBanMask mask) banMaskLen

section

variable {casemap : CaseMapping} {mask more : Bytes}

/-- A mask that is completed at its end is stored as itself when there is no room
for what completes it. -/
theorem folded_storedAs_append (completed : normalizeBanMask mask = mask ++ more)
    (starts : more.any isContinuation = false) (some_more : more ≠ [])
    (fits : mask.length ≤ banMaskLen) :
    casemap.casefold (storedAs mask) = casemap.casefold mask ↔ mask.length = banMaskLen := by
  have starts : ∀ b ∈ more, isContinuation b = false := by
    simpa using any_eq_false.mp starts
  rw [storedAs, completed, truncateOnCharBoundary_append starts fits]
  constructor
  · intro same
    have lengths := congrArg List.length same
    have some_left := length_pos_iff.mpr some_more
    simp only [CaseMapping.length_casefold, length_append, length_take] at lengths
    omega
  · intro full
    rw [full, Nat.sub_self, take_zero, append_nil]

theorem bang_mem_casefold (casemap : CaseMapping) (mask : Bytes) :
    byte '!' ∈ casemap.casefold mask ↔ byte '!' ∈ mask := by
  have fixed : ∀ b, casemap.lower b = byte '!' ↔ b = byte '!' := by
    cases casemap <;> decide +kernel
  simp [CaseMapping.casefold, fixed]

/-- A mask without a `!` that is completed at its front is stored as another. -/
theorem folded_storedAs_front (noBang : byte '!' ∉ mask)
    (completed : normalizeBanMask mask = byte '*' :: byte '!' :: more)
    (short : more.length ≤ mask.length + 2) :
    casemap.casefold (storedAs mask) ≠ casemap.casefold mask := by
  intro same
  have absent : byte '!' ∉ storedAs mask := by
    rw [← bang_mem_casefold casemap, same, bang_mem_casefold]
    exact noBang
  have lengths : (storedAs mask).length = mask.length := by
    simpa using congrArg List.length same
  rw [storedAs, completed, truncateOnCharBoundary] at absent lengths
  generalize kept : floorCharBoundary (byte '*' :: byte '!' :: more) banMaskLen = k at absent lengths
  rcases k with _ | _ | k
  rotate_left 2
  · simp at absent
  all_goals
    -- so short a mask is not cut at all
    have uncut : (byte '*' :: byte '!' :: more).length ≤ banMaskLen := by
      simp only [length_take, length_cons] at lengths ⊢
      unfold banMaskLen
      omega
    have whole := truncateOnCharBoundary_eq_self uncut
    rw [truncateOnCharBoundary, kept] at whole
    have := congrArg List.length whole
    simp at this

end

/-- The mask has a `!`, an `@` after it and something after that. -/
def reachesHost (mask : Bytes) : Bool :=
  (splitOnce (byte '!') mask).any fun (_, rest) =>
    (splitOnce (byte '@') rest).any fun (_, host) => !host.isEmpty

/-- What a mask has to be so that the stored one leads back to itself: an extended
ban, or one that is cut in its host or not at all, or one cut before it at exactly
the longest, with a `!` in what is left or nothing that reads as a host. -/
def KeepsShape (raw : Bytes) : Prop :=
  raw.head? = some (byte '$') ∨ reachesHost (storedAs raw) = true ∨
    (storedAs raw).length = banMaskLen ∧ (byte '!' ∈ storedAs raw ∨
      byte '@' ∉ storedAs raw ∧ byte '.' ∉ storedAs raw ∧ byte ':' ∉ storedAs raw)

instance (raw : Bytes) : Decidable (KeepsShape raw) :=
  inferInstanceAs (Decidable (_ ∨ _ ∨ _ ∧ (_ ∨ _ ∧ _ ∧ _)))

/-! ## Giving a stored mask again -/

section

variable {casemap : CaseMapping} {mask nick user host rest : Bytes}

/-- The `nick!user@` of a mask and what is left of its host. -/
theorem storedAs_in_host (completed : Completed nick user host)
    (isMask : mask = nick ++ byte '!' :: (user ++ byte '@' :: rest))
    (plain : mask.head? ≠ some (byte '$')) (fits : mask.length ≤ banMaskLen) :
    casemap.casefold (storedAs mask) = casemap.casefold mask ↔
      rest ≠ [] ∨ mask.length = banMaskLen := by
  have again : normalizeBanMask mask = nick ++ byte '!' :: (user ++ byte '@' :: star rest) := by
    rw [normalizeBanMask, if_neg plain, isMask, splitOnce_append completed.nick_alone]
    simp only [splitOnce_append completed.user_alone, star_of_ne_nil completed.nick_ne,
      star_of_ne_nil completed.user_ne]
  rcases eq_or_ne rest [] with rfl | some_rest
  · have appended : normalizeBanMask mask = mask ++ ascii "*" := by
      rw [again, isMask]
      simp [star]
    simpa using folded_storedAs_append appended (by decide) (by decide) fits
  · rw [star_of_ne_nil some_rest, ← isMask] at again
    rw [storedAs, again, truncateOnCharBoundary_eq_self fits]
    exact iff_of_true rfl (.inl some_rest)

/-- The `nick!` of a mask and what is left of its user. -/
theorem storedAs_in_user (completed : Completed nick user host)
    (isMask : mask = nick ++ byte '!' :: rest) (plain : mask.head? ≠ some (byte '$'))
    (part : rest <+: user) (fits : mask.length ≤ banMaskLen) :
    casemap.casefold (storedAs mask) = casemap.casefold mask ↔ mask.length = banMaskLen := by
  have noAt : byte '@' ∉ rest := fun among => completed.user_alone (part.subset among)
  have again : normalizeBanMask mask = nick ++ byte '!' :: (star rest ++ ascii "@*") := by
    rw [normalizeBanMask, if_neg plain, isMask, splitOnce_append completed.nick_alone]
    simp only [splitOnce_of_notMem noAt, star_of_ne_nil completed.nick_ne]
  rcases eq_or_ne rest [] with rfl | some_rest
  · have appended : normalizeBanMask mask = mask ++ ascii "*@*" := by
      rw [again, isMask]
      simp [star, ascii]
    exact folded_storedAs_append appended (by decide) (by decide) fits
  · have appended : normalizeBanMask mask = mask ++ ascii "@*" := by
      rw [again, isMask, star_of_ne_nil some_rest]
      simp
    exact folded_storedAs_append appended (by decide) (by decide) fits

/-- What is left of a mask's nick. -/
theorem storedAs_in_nick (some_mask : mask ≠ []) (plain : mask.head? ≠ some (byte '$'))
    (noBang : byte '!' ∉ mask) (fits : mask.length ≤ banMaskLen) :
    casemap.casefold (storedAs mask) = casemap.casefold mask ↔
      mask.length = banMaskLen ∧ byte '@' ∉ mask ∧ byte '.' ∉ mask ∧ byte ':' ∉ mask := by
  have none_split := splitOnce_of_notMem noBang
  rcases splitOnce_cases (byte '@') mask with ⟨noAt, split⟩ | ⟨user, host, whole, noAt, split⟩
  · by_cases isHost : byte '.' ∈ mask ∨ byte ':' ∈ mask
    · have again : normalizeBanMask mask = byte '*' :: byte '!' :: (ascii "*@" ++ mask) := by
        rw [normalizeBanMask, if_neg plain, none_split]
        simp only [split, if_pos isHost]
        rfl
      have short : (ascii "*@" ++ mask).length ≤ mask.length + 2 := by
        simp [ascii]
      refine iff_of_false (folded_storedAs_front noBang again short) fun full => ?_
      rcases isHost with dot | colon
      · exact full.2.2.1 dot
      · exact full.2.2.2 colon
    · have again : normalizeBanMask mask = mask ++ ascii "!*@*" := by
        rw [normalizeBanMask, if_neg plain, none_split]
        simp only [split, if_neg isHost, star_of_ne_nil some_mask]
      rw [folded_storedAs_append again (by decide) (by decide) fits]
      have noHost := not_or.mp isHost
      exact ⟨fun full => ⟨full, noAt, noHost.1, noHost.2⟩, fun full => full.1⟩
  · have again : normalizeBanMask mask =
        byte '*' :: byte '!' :: (star user ++ byte '@' :: star host) := by
      rw [normalizeBanMask, if_neg plain, none_split]
      simp only [split]
      rfl
    have star_length : ∀ text : Bytes, (star text).length ≤ text.length + 1 := by
      intro text
      unfold star
      split
      · simp [ascii]
      · omega
    have short : (star user ++ byte '@' :: star host).length ≤ mask.length + 2 := by
      have := star_length user
      have := star_length host
      rw [whole]
      simp only [length_append, length_cons]
      omega
    refine iff_of_false (folded_storedAs_front noBang again short) fun full => full.2.1 ?_
    rw [whole]
    simp

/-- A cut of a completed mask is stored as itself exactly if it keeps its shape. -/
theorem storedAs_of_cut (completed : Completed nick user host) (some_mask : mask ≠ [])
    (cut : mask <+: nick ++ byte '!' :: (user ++ byte '@' :: host))
    (fits : mask.length ≤ banMaskLen) :
    casemap.casefold (storedAs mask) = casemap.casefold mask ↔ reachesHost mask = true ∨
      mask.length = banMaskLen ∧
        (byte '!' ∈ mask ∨ byte '@' ∉ mask ∧ byte '.' ∉ mask ∧ byte ':' ∉ mask) := by
  have plain : mask.head? ≠ some (byte '$') := by
    obtain ⟨first, others, rfl⟩ := exists_cons_of_ne_nil some_mask
    obtain ⟨start, more, rfl⟩ := exists_cons_of_ne_nil completed.nick_ne
    have same : first = start := (cons_prefix_cons.mp cut).1
    exact same ▸ completed.plain
  rcases cut_cases cut with inNick | ⟨rest, rfl, inUser⟩ | ⟨rest, rfl⟩
  · have noBang : byte '!' ∉ mask := fun among => completed.nick_alone (inNick.subset among)
    have short : reachesHost mask = false := by
      rw [reachesHost, splitOnce_of_notMem noBang]
      rfl
    rw [storedAs_in_nick some_mask plain noBang fits, short]
    simp [noBang]
  · have noAt : byte '@' ∉ rest := fun among => completed.user_alone (inUser.subset among)
    have short : reachesHost (nick ++ byte '!' :: rest) = false := by
      rw [reachesHost, splitOnce_append completed.nick_alone]
      simp only [Option.any_some, splitOnce_of_notMem noAt, Option.any_none]
    rw [storedAs_in_user completed rfl plain inUser fits, short]
    simp
  · have reaches : reachesHost (nick ++ byte '!' :: (user ++ byte '@' :: rest)) = true ↔
        rest ≠ [] := by
      rw [reachesHost, splitOnce_append completed.nick_alone]
      simp only [Option.any_some, splitOnce_append completed.user_alone]
      simp
    rw [storedAs_in_host completed rfl plain fits, reaches]
    simp

end

/-! ## What is stored is shown -/

/-- A completed mask starts with what the argument starts with, or with a `*`. -/
theorem normalizeBanMask_starts (plain : mask.head? ≠ some (byte '$')) :
    ∃ text more, text <+: mask ∧ normalizeBanMask mask = star text ++ byte '!' :: more := by
  unfold normalizeBanMask
  rw [if_neg plain]
  rcases splitOnce_cases (byte '!') mask with ⟨-, split⟩ | ⟨nick, rest, rfl, -, split⟩
  · rw [split]
    rcases splitOnce_cases (byte '@') mask with ⟨-, split⟩ | ⟨user, host, -, -, split⟩
    · simp only [split]
      split
      · exact ⟨[], ascii "*@" ++ mask, nil_prefix, rfl⟩
      · exact ⟨mask, ascii "*@*", prefix_refl mask, rfl⟩
    · simp only [split]
      exact ⟨[], star user ++ byte '@' :: star host, nil_prefix, rfl⟩
  · rw [split]
    rcases splitOnce_cases (byte '@') rest with ⟨-, split⟩ | ⟨user, host, -, -, split⟩
    · simp only [split]
      exact ⟨nick, star rest ++ ascii "@*", prefix_append _ _, rfl⟩
    · simp only [split]
      exact ⟨nick, star user ++ byte '@' :: star host, prefix_append _ _, rfl⟩

/-- The first character of a completed mask is a short one too. -/
theorem exists_charBoundary_star (valid : isUtf8 raw = true) (part : text <+: raw)
    (more : Bytes) : ∃ i, 1 ≤ i ∧ i ≤ 4 ∧ i ≤ (star text ++ byte '!' :: more).length ∧
      isCharBoundary (star text ++ byte '!' :: more) i = true := by
  have bang : isContinuation (byte '!') = false := by decide
  obtain ⟨rest, rfl⟩ := part
  rcases eq_or_ne text [] with rfl | some_text
  · exact ⟨1, by decide, by decide, by simp [star, ascii], by simp [star, ascii, isCharBoundary, bang]⟩
  obtain ⟨i, low, high, inside, boundary⟩ := exists_charBoundary valid (by simp [some_text])
  have some_length := length_pos_iff.mpr some_text
  rw [star_of_ne_nil some_text]
  rcases Nat.lt_or_ge i text.length with within | past
  · refine ⟨i, low, high, by simp; omega, ?_⟩
    simpa [isCharBoundary, List.getElem?_append_left within] using boundary
  · refine ⟨text.length, some_length, by omega, by simp, ?_⟩
    simp [isCharBoundary, bang]

theorem storedAs_ne_nil (raw : Text) : storedAs raw.bytes ≠ [] := by
  have short : ∀ {text : Bytes}, (∃ i, 1 ≤ i ∧ i ≤ 4 ∧ i ≤ text.length ∧
      isCharBoundary text i = true) → truncateOnCharBoundary text banMaskLen ≠ [] := by
    intro text ⟨i, low, high, inside, boundary⟩ empty
    have reached := le_floorCharBoundary (show i ≤ banMaskLen by unfold banMaskLen; omega) inside
      boundary
    have := congrArg List.length empty
    simp only [truncateOnCharBoundary, length_take, length_nil] at this
    omega
  refine short ?_
  by_cases dollar : raw.bytes.head? = some (byte '$')
  · rw [normalizeBanMask, if_pos dollar]
    refine exists_charBoundary raw.isUtf8 fun empty => ?_
    rw [empty] at dollar
    cases dollar
  · obtain ⟨text, more, part, whole⟩ := normalizeBanMask_starts dollar
    rw [whole]
    exact exists_charBoundary_star raw.isUtf8 part more

/-- What adding a mask stores. -/
theorem channelListMask_eq_ok {ipnet : Ipnet} {key : MaskKey}
    (added : channelListMask ipnet raw true = .ok key) :
    key.display = storedAs raw ∧ (∀ b ∈ key.display, byte ' ' < b) ∧
      key.display.head? ≠ some (byte ':') := by
  simp only [channelListMask, if_true] at added
  split at added
  · cases added
  rename_i clean
  split at added
  · cases added
  rename_i noColon
  split at added
  · cases added
  cases added
  refine ⟨rfl, fun b among => ?_, (not_or.mp noColon).2⟩
  have clear : ¬ (b ≤ byte ' ' ∨ b = 0x7F) := by
    simpa using any_eq_false.mp (Bool.eq_false_of_not_eq_true clean) b among
  exact UInt8.not_le.mp (not_or.mp clear).1

theorem standsAlone_of_printed (some_text : text ≠ []) (printed : ∀ b ∈ text, byte ' ' < b)
    (noColon : text.head? ≠ some (byte ':')) : standsAlone text = true := by
  have low : byte ' ' ≤ byte ' ' ∧ (13 : UInt8) ≤ byte ' ' ∧ (10 : UInt8) ≤ byte ' ' ∧
    (0 : UInt8) ≤ byte ' ' := by decide
  simp only [standsAlone, Bool.and_eq_true, Bool.not_eq_true', isEmpty_eq_false_iff,
    beq_eq_false_iff_ne, any_eq_false, Bool.or_eq_true, beq_iff_eq, not_or]
  refine ⟨⟨some_text, noColon⟩, fun b among => ?_⟩
  have above := printed b among
  have apart : ∀ c ≤ byte ' ', b ≠ c := fun c below same =>
    absurd (same ▸ below) (UInt8.not_le.mpr above)
  exact ⟨⟨⟨apart _ low.1, apart _ low.2.1⟩, apart _ low.2.2.1⟩, apart _ low.2.2.2⟩

/-- A mask without spaces and control characters is shown as it is. -/
theorem ownWire_eq_self (some_mask : mask ≠ []) (printed : ∀ b ∈ mask, byte ' ' < b)
    (noColon : mask.head? ≠ some (byte ':')) (fits : mask.length ≤ banMaskLen) :
    ownWire mask = mask := by
  rw [ownWire, if_pos (standsAlone_of_printed some_mask printed noColon)]
  exact truncateOnCharBoundary_eq_self fits

/-- The stored mask of an extended ban is one too. -/
theorem storedAs_extban {raw : Text} (dollar : raw.bytes.head? = some (byte '$')) :
    storedAs (storedAs raw.bytes) = storedAs raw.bytes := by
  have whole : normalizeBanMask raw.bytes = raw.bytes := by
    rw [normalizeBanMask, if_pos dollar]
  have cut : storedAs raw.bytes <+: raw.bytes := by
    rw [storedAs, whole]
    exact truncateOnCharBoundary_cuts _ _
  have still : (storedAs raw.bytes).head? = some (byte '$') := by
    obtain ⟨first, others, same⟩ := exists_cons_of_ne_nil (storedAs_ne_nil raw)
    rw [same] at cut ⊢
    obtain ⟨more, extended⟩ := cut
    rw [← extended] at dollar
    exact dollar
  have fits : (storedAs raw.bytes).length ≤ banMaskLen := length_truncateOnCharBoundary _ _
  generalize storedAs raw.bytes = mask at still fits
  rw [storedAs, normalizeBanMask, if_pos still, truncateOnCharBoundary_eq_self fits]

/-- A mask that is added is short and shown as it is stored; what is shown removes
it exactly if the mask keeps its shape. -/
theorem shown_mask_removes_iff (ipnet : Ipnet) (casemap : CaseMapping) (raw : Text) (key : MaskKey)
    (added : channelListMask ipnet raw.bytes true = .ok key) :
    (key.display.length ≤ banMaskLen ∧ ownWire key.display = key.display ∧
      ∃ removed, channelListMask ipnet (ownWire key.display) false = .ok removed ∧
        removed.folded casemap = key.folded casemap) ↔ KeepsShape raw.bytes := by
  obtain ⟨stored, printed, noColon⟩ := channelListMask_eq_ok added
  have fits : key.display.length ≤ banMaskLen := by
    rw [stored]
    exact length_truncateOnCharBoundary _ _
  have some_mask : key.display ≠ [] := stored ▸ storedAs_ne_nil raw
  have shown := ownWire_eq_self some_mask printed noColon fits
  have removal : channelListMask ipnet (ownWire key.display) false =
      .ok ⟨storedAs key.display⟩ := by
    rw [shown]
    rfl
  have again : (∃ removed, channelListMask ipnet (ownWire key.display) false = .ok removed ∧
      removed.folded casemap = key.folded casemap) ↔
      casemap.casefold (storedAs key.display) = casemap.casefold key.display := by
    rw [removal]
    exact ⟨fun ⟨removed, same, folded⟩ => by cases same; exact folded, fun same => ⟨_, rfl, same⟩⟩
  rw [and_iff_right fits, and_iff_right shown, again, KeepsShape, ← stored]
  by_cases dollar : raw.bytes.head? = some (byte '$')
  · refine iff_of_true ?_ (.inl dollar)
    rw [stored, storedAs_extban dollar]
  obtain ⟨nick, user, host, completed, whole⟩ := normalizeBanMask_completed dollar
  have cut : key.display <+: nick ++ byte '!' :: (user ++ byte '@' :: host) := by
    rw [stored, storedAs, whole]
    exact truncateOnCharBoundary_cuts _ _
  rw [storedAs_of_cut completed some_mask cut fits, or_iff_right dollar]

/-- A `*!*@203.0.113.*` ban. -/
def rangeMask : Text := ⟨ascii "203.0.113.*", by decide +kernel⟩

theorem shown_mask_removes_rangeMask :
    ∃ removed, channelListMask .cidr (ownWire (ascii "*!*@203.0.113.*")) false = .ok removed ∧
      removed.folded .rfc1459 = (⟨ascii "*!*@203.0.113.*"⟩ : MaskKey).folded .rfc1459 :=
  ((shown_mask_removes_iff .cidr .rfc1459 rangeMask ⟨ascii "*!*@203.0.113.*"⟩
    (by decide +kernel)).mpr (by decide +kernel)).2.2

/-- A nick with a dot, too long to keep the `!` behind it. -/
def dottedNick : Text := ⟨ascii "a." ++ List.replicate 99 (byte 'b') ++ ascii "!*@*", by decide +kernel⟩

/-- Cut before its `!` the mask reads as a host, and what is shown removes another. -/
theorem shown_mask_removes_another :
    channelListMask .cidr dottedNick.bytes true = .ok ⟨ascii "a." ++ List.replicate 98 (byte 'b')⟩ ∧
      channelListMask .cidr (ownWire (ascii "a." ++ List.replicate 98 (byte 'b'))) false =
        .ok ⟨ascii "*!*@a." ++ List.replicate 94 (byte 'b')⟩ ∧
      (⟨ascii "*!*@a." ++ List.replicate 94 (byte 'b')⟩ : MaskKey).folded .rfc1459 ≠
        (⟨ascii "a." ++ List.replicate 98 (byte 'b')⟩ : MaskKey).folded .rfc1459 := by
  decide +kernel

end E6irc
