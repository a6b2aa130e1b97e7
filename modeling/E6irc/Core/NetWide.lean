import E6irc.Core.BanMask

/-!
# Bans that match everyone

A ban command is refused when its mask is made of `*` alone.  Some masks that
say no more are accepted: a `?` beside a `*` asks for one more byte, and every
username, host, realname and address has that many; and an account ban is tested
without an account, so a negated one matches whoever connects.  `Slips` is the
class of them, and every other accepted mask leaves someone out.
-/

namespace E6irc.NetWide

open Base List IpAddr MaskShape

/-- A user who could connect. -/
structure PossibleUser where
  user : Bytes
  host : Bytes
  address : IpAddr
  realname : Bytes
  user_ne : user ≠ []
  host_ne : host ≠ []
  plain : ∀ b ∈ user ++ host, b ≠ byte '*' ∧ b ≠ byte '?'
  realname_ne : realname ≠ []

def PossibleUser.subject (user : PossibleUser) : ServerBanSubject where
  user := user.user
  host := user.host
  realIp := some user.address
  realname := user.realname

/-- A glob of wildcards that takes every text of at least `least` bytes. -/
def Boundless (least : ℕ) (glob : Bytes) : Prop :=
  (∀ b ∈ glob, b = byte '*' ∨ b = byte '?') ∧ byte '*' ∈ glob ∧ glob.count (byte '?') ≤ least

instance (least : ℕ) (glob : Bytes) : Decidable (Boundless least glob) :=
  inferInstanceAs (Decidable (_ ∧ _))

/-- The masks that match everyone.  The shortest address is `::`. -/
def Slips (kind : BanKind) (display : Bytes) : Prop :=
  match kind with
  | .kline =>
    ascii "$~" <+: display ∨
      ∃ sides ∈ splitOnce (byte '@') display, Boundless 1 sides.1 ∧ Boundless 2 sides.2
  | .dline => Boundless 2 display
  | .xline => Boundless 1 display

instance (kind : BanKind) (display : Bytes) : Decidable (Slips kind display) := by
  unfold Slips
  cases kind <;> infer_instance

/-! ## Texts a glob leaves out -/

section

variable {casemap : CaseMapping} {glob front back subject : Bytes} {least : ℕ}

theorem Boundless.matches (boundless : Boundless least glob) (enough : least ≤ subject.length) :
    Mask.matches casemap glob subject = true :=
  (Mask.matches_of_wild boundless.1).mpr
    ⟨Nat.le_trans boundless.2.2 enough, fun noStar => absurd boundless.2.1 noStar⟩

/-- Of two texts that share no byte and of which one has the least length, another
glob leaves out one. -/
theorem not_matches_or (bounded : ¬ Boundless least glob) {short long : Bytes}
    (least_short : short.length = least) (other : long.length ≠ least)
    (apart : ∀ b ∈ casemap.casefold short, b ∉ casemap.casefold long) :
    Mask.matches casemap glob short = false ∨ Mask.matches casemap glob long = false := by
  rcases Classical.em (∀ b ∈ glob, b = byte '*' ∨ b = byte '?') with wild | literal
  · -- only lengths count: too many `?` for the short one, or no `*` to stretch to both
    simp only [Bool.eq_false_iff, Ne, Mask.matches_of_wild wild]
    rcases Classical.em (byte '*' ∈ glob) with star | noStar
    · refine .inl fun fits => bounded ⟨wild, star, ?_⟩
      omega
    rw [← not_and_or]
    rintro ⟨fitsShort, fitsLong⟩
    have shortIs := fitsShort.2 noStar
    have longIs := fitsLong.2 noStar
    omega
  · push Not at literal
    obtain ⟨b, mem, noStar, noQuestion⟩ := literal
    rcases Classical.em (casemap.lower b ∈ casemap.casefold short) with inShort | notInShort
    · exact .inr (Mask.not_matches_of_literal mem noStar noQuestion (apart _ inShort))
    · exact .inl (Mask.not_matches_of_literal mem noStar noQuestion notInShort)

/-- A name of the two letters the names below are made of. -/
def Lettered (name : Bytes) : Prop :=
  name ≠ [] ∧ ∀ b ∈ name, b = byte 'x' ∨ b = byte 'y'

theorem exists_name_unmatched (casemap : CaseMapping) (bounded : ¬ Boundless least glob)
    (positive : 0 < least) : ∃ name, Lettered name ∧ Mask.matches casemap glob name = false := by
  have lettered (n : ℕ) (some_ : 0 < n) {c : UInt8} (letter : c = byte 'x' ∨ c = byte 'y') :
      Lettered (List.replicate n c) := by
    refine ⟨by simpa using Nat.ne_of_gt some_, fun b mem => ?_⟩
    rwa [eq_of_mem_replicate mem]
  have apart : ∀ b ∈ casemap.casefold (List.replicate least (byte 'x')),
      b ∉ casemap.casefold (List.replicate (least + 1) (byte 'y')) := by
    have letters : casemap.lower (byte 'x') ≠ casemap.lower (byte 'y') := by
      cases casemap <;> decide
    simp only [CaseMapping.casefold, map_replicate]
    intro b inShort inLong
    rw [eq_of_mem_replicate inShort] at inLong
    exact letters (eq_of_mem_replicate inLong)
  rcases not_matches_or bounded length_replicate (by simp) apart with unmatched | unmatched
  · exact ⟨_, lettered least positive (.inl rfl), unmatched⟩
  · exact ⟨_, lettered (least + 1) (Nat.succ_pos _) (.inr rfl), unmatched⟩

theorem exists_address_unmatched (casemap : CaseMapping) (bounded : ¬ Boundless 2 glob) :
    ∃ address : IpAddr, byte '@' ∉ address.toString ∧
      Mask.matches casemap glob address.toString = false := by
  have apart : ∀ b ∈ casemap.casefold (v6 0).toString,
      b ∉ casemap.casefold (v4 0).toString := by
    cases casemap <;> decide +kernel
  rcases not_matches_or bounded (by decide +kernel) (by decide +kernel) apart with
    unmatched | unmatched
  · exact ⟨.v6 0, by decide +kernel, unmatched⟩
  · exact ⟨.v4 0, by decide +kernel, unmatched⟩

end

/-- A user with such names. -/
def lettered (user host realname : Bytes) (address : IpAddr) (userLettered : Lettered user)
    (hostLettered : Lettered host) (realnameLettered : Lettered realname) : PossibleUser where
  user := user
  host := host
  address := address
  realname := realname
  user_ne := userLettered.1
  host_ne := hostLettered.1
  plain := by
    intro b mem
    have letter : b = byte 'x' ∨ b = byte 'y' :=
      (mem_append.mp mem).elim (userLettered.2 b) (hostLettered.2 b)
    rcases letter with rfl | rfl <;> decide
  realname_ne := realnameLettered.1

theorem lettered_x : Lettered (ascii "x") := ⟨by decide, by decide +kernel⟩

/-! ## Whom a mask matches -/

section

variable {ipnet : Ipnet} {casemap : CaseMapping} {display head host : Bytes} {shape : MaskShape}
  {subject : MaskSubject} {address : IpAddr}

attribute [local simp] MaskSubject.new MaskShape.matches

/-- What is shown is tried against the mask whatever its host is. -/
theorem matches_of_shown (shown : Mask.matches casemap display subject.shown = true)
    (plain : ∀ negated pattern, shape ≠ .account negated pattern) :
    shape.matches ipnet casemap display subject = true := by
  cases shape with
  | glob | cidr head net => simp [shown]
  | account negated pattern => exact absurd rfl (plain negated pattern)

theorem glob_unmatched (last : byte '@' ∉ host)
    (shown : Mask.matches casemap display (head ++ byte '@' :: host) = false)
    (byAddress : Mask.matches casemap display (head ++ byte '@' :: address.toString) = false) :
    glob.matches ipnet casemap display
      (.new (head ++ byte '@' :: host) (some address) none) = false := by
  simp only [MaskShape.matches, MaskSubject.byAddress_new last]
  split
  · simp [shown, byAddress]
  · simp [shown]

/-- No network has every address, so some are outside it: two of the other family. -/
theorem exists_outside (ipnet : Ipnet) (net : IpNet) (casemap : CaseMapping) :
    ∃ one other : IpAddr, ipnet.contains net one = false ∧ ipnet.contains net other = false ∧
      casemap.casefold one.toString ≠ casemap.casefold other.toString ∧
      casemap.lower (byte '/') ∉ casemap.casefold one.toString := by
  simp only [Bool.eq_false_iff, Ne, ipnet.contains_iff]
  cases net with
  | v4 net =>
    refine ⟨.v6 0, .v6 1, id, id, ?_⟩
    cases casemap <;> decide +kernel
  | v6 net =>
    refine ⟨.v4 0, .v4 1, id, id, ?_⟩
    cases casemap <;> decide +kernel

/-! ### K-lines -/

theorem kline_glob_unmatched (separated : byte '@' ∈ display) (specific : ¬ Slips .kline display) :
    ∃ user : PossibleUser, glob.matches ipnet casemap display
      (.new (user.user ++ byte '@' :: user.host) (some user.address) none) = false := by
  rcases splitOnce_cases (byte '@') display with ⟨absent, -⟩ | ⟨userGlob, hostGlob, rfl, -, split⟩
  · exact absurd separated absent
  -- a text with one `@` is divided where the mask is
  have divided {user host : Bytes} (userPlain : byte '@' ∉ user) (hostPlain : byte '@' ∉ host)
      (unmatched : Mask.matches casemap userGlob user = false ∨
        Mask.matches casemap hostGlob host = false) :
      Mask.matches casemap (userGlob ++ byte '@' :: hostGlob) (user ++ byte '@' :: host) = false := by
    rw [Bool.eq_false_iff, Ne, Mask.matches_at userPlain hostPlain]
    rintro ⟨userMatches, hostMatches⟩
    simp [userMatches, hostMatches] at unmatched
  have noAt {name : Bytes} (letters : Lettered name) : byte '@' ∉ name :=
    fun among => (letters.2 _ among).elim (by decide) (by decide)
  rcases Classical.em (Boundless 1 userGlob) with boundless | bounded
  · have bounded : ¬ Boundless 2 hostGlob := fun hostBoundless =>
      specific (.inr ⟨_, split, boundless, hostBoundless⟩)
    obtain ⟨host, letters, shown⟩ := exists_name_unmatched casemap bounded (by decide)
    obtain ⟨address, plain, byAddress⟩ := exists_address_unmatched casemap bounded
    refine ⟨lettered (ascii "x") host (ascii "x") address lettered_x letters lettered_x, ?_⟩
    exact glob_unmatched (noAt letters) (divided (noAt lettered_x) (noAt letters) (.inr shown))
      (divided (noAt lettered_x) plain (.inr byAddress))
  · obtain ⟨user, letters, shown⟩ := exists_name_unmatched casemap bounded (by decide)
    refine ⟨lettered user (ascii "x") (ascii "x") (.v6 0) letters lettered_x lettered_x, ?_⟩
    have colons : byte '@' ∉ (v6 0).toString := by decide +kernel
    exact glob_unmatched (noAt lettered_x) (divided (noAt letters) (noAt lettered_x) (.inl shown))
      (divided (noAt letters) colons (.inl shown))

theorem exists_literal_of_hostNet {net : IpNet}
    (found : hostNet ipnet host = .ok (some net)) :
    ∃ b ∈ host, b = byte '/' ∨ addressByte b := by
  rcases hostNet_eq_some found with slash | ⟨address, parsed, -⟩
  · exact ⟨_, slash, .inl rfl⟩
  cases host with
  | nil => cases parsed
  | cons b host =>
    have mem : b ∈ b :: host := mem_cons_self
    exact ⟨b, mem, .inr (addressByte_of_parse parsed b mem)⟩

theorem kline_cidr_unmatched {net : IpNet} {before : Option Bytes}
    (whole : display = before.elim host fun front => front ++ byte '@' :: host)
    (found : hostNet ipnet host = .ok (some net)) :
    ∃ user : PossibleUser, (cidr before net).matches ipnet casemap display
      (.new (user.user ++ byte '@' :: user.host) (some user.address) none) = false := by
  obtain ⟨address, _, outside, -⟩ := exists_outside ipnet net casemap
  obtain ⟨b, mem, literal⟩ := exists_literal_of_hostNet found
  have unshown : ∀ b, b = byte '/' ∨ addressByte b → b ≠ byte '*' ∧ b ≠ byte '?' ∧
      casemap.lower b ∉ casemap.casefold (ascii "x" ++ byte '@' :: ascii "x") := by
    cases casemap <;> decide +kernel
  obtain ⟨noStar, noQuestion, absent⟩ := unshown b literal
  have within : b ∈ display := by
    cases before with
    | none => exact whole ▸ mem
    | some front => exact whole ▸ mem_append_right _ (mem_cons_of_mem _ mem)
  have shown := Mask.not_matches_of_literal within noStar noQuestion absent
  refine ⟨lettered (ascii "x") (ascii "x") (ascii "x") address lettered_x lettered_x lettered_x, ?_⟩
  simp [lettered, outside, shown]

theorem kline_unmatched (parsed : parse ipnet display = .ok shape)
    (separated : byte '@' ∈ display) (specific : ¬ Slips .kline display) :
    ∃ user : PossibleUser, shape.matches ipnet casemap display
      (.new (user.user ++ byte '@' :: user.host) (some user.address) none) = false := by
  rcases parse_eq_ok parsed with ⟨extban, negated, pattern, rfl, rfl, flag⟩ | ⟨-, rest⟩
  · have positive : negated = false := by
      rw [Bool.eq_false_iff, Ne, flag]
      intro tilde
      cases extban with
      | nil => cases tilde
      | cons b extban =>
        cases tilde
        exact specific (.inl ⟨extban, rfl⟩)
    refine ⟨lettered _ _ _ (.v6 0) lettered_x lettered_x lettered_x, ?_⟩
    simp [positive]
  · rcases rest with rfl | ⟨head, host, net, rfl, whole, found⟩
    · exact kline_glob_unmatched separated specific
    · exact kline_cidr_unmatched whole found

/-- A mask of wildcards around an `@` is a glob. -/
theorem parse_boundless {userGlob hostGlob : Bytes} {least least' : ℕ}
    (user : Boundless least userGlob) (host : Boundless least' hostGlob) :
    MaskShape.parse ipnet (userGlob ++ byte '@' :: hostGlob) = .ok .glob := by
  have wild {glob : Bytes} {n : ℕ} (boundless : Boundless n glob) {b : UInt8}
      (noStar : b ≠ byte '*') (noQuestion : b ≠ byte '?') : b ∉ glob := fun mem =>
    (boundless.1 b mem).elim noStar noQuestion
  have noDollar : stripFirst (byte '$') (userGlob ++ byte '@' :: hostGlob) = none := by
    rw [stripFirst_eq_none]
    cases userGlob with
    | nil => exact absurd user.2.1 not_mem_nil
    | cons b rest =>
      intro dollar
      cases dollar
      exact wild user (by decide) (by decide) mem_cons_self
  have noAddress : parse hostGlob = none := by
    cases parsed : parse hostGlob with
    | none => rfl
    | some address =>
      exact absurd (addressByte_of_parse parsed _ host.2.1) (by decide)
  have noAt : byte '@' ∉ hostGlob := wild host (by decide) (by decide)
  have noSlash : byte '/' ∉ hostGlob := wild host (by decide) (by decide)
  rw [MaskShape.parse, noDollar]
  simp only [rsplitOnce_append noAt, hostNet, splitOnce_of_notMem noSlash, noAddress]
  rfl

/-- What is shown before its last `@` is not empty. -/
theorem exists_shown (user : PossibleUser) :
    ∃ head host, user.user ++ byte '@' :: user.host = head ++ byte '@' :: host ∧
      byte '@' ∉ host ∧ 1 ≤ head.length := by
  have positive := length_pos_iff.mpr user.user_ne
  rcases rsplitOnce_cases (byte '@') user.host with ⟨absent, -⟩ | ⟨front, back, whole, last, -⟩
  · exact ⟨user.user, user.host, rfl, absent, positive⟩
  refine ⟨user.user ++ byte '@' :: front, back, ?_, last, ?_⟩
  · rw [whole, append_assoc, cons_append]
  · rw [length_append]
    omega

theorem kline_matches_everyone (parsed : parse ipnet display = .ok shape)
    (slips : Slips .kline display) (user : PossibleUser) :
    shape.matches ipnet casemap display
      (.new (user.user ++ byte '@' :: user.host) (some user.address) none) = true := by
  rcases slips with ⟨extban, rfl⟩ | ⟨⟨userGlob, hostGlob⟩, split, userBoundless, hostBoundless⟩
  · rcases parse_eq_ok parsed with ⟨_, negated, pattern, whole, rfl, flag⟩ | ⟨plain, -⟩
    · cases whole
      simp [flag.mpr rfl]
    · exact absurd rfl plain
  · rcases splitOnce_cases (byte '@') display with ⟨-, none⟩ | ⟨_, _, rfl, -, found⟩
    · cases none.symm.trans split
    cases found.symm.trans split
    cases parsed.symm.trans (parse_boundless userBoundless hostBoundless)
    obtain ⟨head, host, shown, last, positive⟩ := exists_shown user
    rw [shown]
    exact glob_matched last (Mask.matches_at_of (userBoundless.matches positive)
      (hostBoundless.matches (two_le_length_toString _)))

/-! ### D-lines -/

theorem dline_cidr_unmatched {net : IpNet}
    (found : hostNet ipnet display = .ok (some net)) :
    ∃ address : IpAddr, (cidr none net).matches ipnet casemap display
      (.new address.toString (some address) none) = false := by
  obtain ⟨one, other, noOne, noOther, differ, noSlash⟩ := exists_outside ipnet net casemap
  have outside {address : IpAddr} (absent : ipnet.contains net address = false)
      (unmatched : Mask.matches casemap display address.toString = false) :
      (cidr none net).matches ipnet casemap display
        (.new address.toString (some address) none) = false := by
    simp [absent, unmatched]
  rcases hostNet_eq_some found with slash | ⟨address, parsed, -⟩
  · exact ⟨one, outside noOne
      (Mask.not_matches_of_literal slash (by decide) (by decide) noSlash)⟩
  -- an address is no glob, and it is at most one of the two
  have literals : ∀ b, addressByte b → b ≠ byte '*' ∧ b ≠ byte '?' := by decide +kernel
  have itself {text : Bytes} (matched : Mask.matches casemap display text = true) :
      casemap.casefold text = casemap.casefold display :=
    (Mask.matches_of_literals fun b mem =>
      literals b (addressByte_of_parse parsed b mem)).mp matched
  rcases Bool.eq_false_or_eq_true (Mask.matches casemap display one.toString) with
    matched | unmatched
  · refine ⟨other, outside noOther (Bool.eq_false_iff.mpr fun also => differ ?_)⟩
    rw [itself matched, itself also]
  · exact ⟨one, outside noOne unmatched⟩

section

variable (valid : validDline ipnet display = true)
include valid

theorem exists_shape_of_validDline : ∃ shape, parse ipnet display = .ok shape := by
  cases parsed : parse ipnet display with
  | ok shape => exact ⟨shape, rfl⟩
  | error error => simp [validDline, parsed] at valid

theorem dline_unmatched
    (parsed : parse ipnet display = .ok shape) (specific : ¬ Slips .dline display) :
    ∃ address : IpAddr, shape.matches ipnet casemap display
      (.new address.toString (some address) none) = false := by
  -- an address has no `@`, so it is tried once
  have shown {address : IpAddr} (plain : byte '@' ∉ address.toString) :
      (MaskSubject.new address.toString (some address) none).byAddress = none := by
    rcases rsplitOnce_cases (byte '@') address.toString with ⟨-, split⟩ | ⟨_, _, whole, -, -⟩
    · simp [split]
    · exact absurd (by simp [whole]) plain
  unfold validDline at valid
  rw [parsed] at valid
  cases shape with
  | account negated pattern => cases valid
  | glob =>
    obtain ⟨address, plain, unmatched⟩ := exists_address_unmatched casemap specific
    refine ⟨address, ?_⟩
    simp only [MaskShape.matches, shown plain]
    simpa using unmatched
  | cidr head net =>
    cases head with
    | some front => cases valid
    | none =>
      have found : hostNet ipnet display = .ok (some net) := by
        rcases parse_eq_ok parsed with ⟨_, _, _, -, same, -⟩ | ⟨-, same | cidr⟩
        · cases same
        · cases same
        · obtain ⟨_, _, _, same, rfl, found⟩ := cidr
          cases same
          exact found
      exact dline_cidr_unmatched found

theorem dline_matches_everyone
    (parsed : parse ipnet display = .ok shape) (slips : Slips .dline display)
    (address : IpAddr) :
    shape.matches ipnet casemap display (.new address.toString (some address) none) = true := by
  refine matches_of_shown (Boundless.matches slips (two_le_length_toString address)) ?_
  rintro negated pattern rfl
  simp [validDline, parsed] at valid

end

end

/-! ## The accepted masks that match everyone -/

theorem at_mem_banMask (arg : Bytes) : byte '@' ∈ banMask .kline arg := by
  simp only [banMask]
  split
  · assumption
  · exact mem_append_left _ (by decide)

/-- An accepted ban leaves someone out exactly when its mask does not slip. -/
theorem spares_someone_iff (ipnet : Ipnet) (casemap : CaseMapping) (kind : BanKind) (first : Bytes)
    (rest : List Bytes) (hasTrailing : Bool) (mask : BanMask) (reason setBy : Bytes)
    (expiresAtSecs : Option ℕ)
    (accepted : BanMask.parse ipnet kind first rest hasTrailing = .ok (mask, reason)) :
    (∃ user : PossibleUser, ServerBan.matches ipnet casemap
        { mask := ⟨mask.display⟩, reason, setBy, kind, expiresAtSecs } user.subject = false) ↔
      ¬ Slips kind (banMask kind (BanMask.rawMask kind first rest hasTrailing)) := by
  obtain ⟨display, shaped, valid⟩ := BanMask.parse_eq_ok accepted
  rw [← display]
  cases kind with
  | kline =>
    obtain ⟨shape, parsed⟩ := shaped rfl
    simp only [ServerBan.matches, PossibleUser.subject, MaskKey.matches_of_parse parsed]
    constructor
    · rintro ⟨user, unmatched⟩ slips
      cases (kline_matches_everyone parsed slips user).symm.trans unmatched
    · exact kline_unmatched parsed (display ▸ at_mem_banMask _)
  | dline =>
    obtain ⟨shape, parsed⟩ := exists_shape_of_validDline (valid rfl)
    simp only [ServerBan.matches, PossibleUser.subject, MaskKey.matches_of_parse parsed, Option.any_some]
    constructor
    · rintro ⟨user, unmatched⟩ slips
      cases (dline_matches_everyone (valid rfl) parsed slips user.address).symm.trans unmatched
    · intro specific
      obtain ⟨address, unmatched⟩ := dline_unmatched (valid rfl) parsed specific
      exact ⟨lettered _ _ _ address lettered_x lettered_x lettered_x, unmatched⟩
  | xline =>
    simp only [ServerBan.matches, PossibleUser.subject]
    constructor
    · rintro ⟨user, unmatched⟩ slips
      have matched : Mask.matches casemap mask.display user.realname = true :=
        Boundless.matches slips (length_pos_iff.mpr user.realname_ne)
      cases matched.symm.trans unmatched
    · intro specific
      obtain ⟨realname, letters, unmatched⟩ := exists_name_unmatched casemap specific (by decide)
      exact ⟨lettered _ _ realname (.v6 0) lettered_x lettered_x letters, unmatched⟩

theorem spares_someone_of_host :
    BanMask.parse .cidr .kline (ascii "bad.example") [] false =
        .ok (⟨ascii "*@bad.example"⟩, ascii "No reason") ∧
      ∃ user : PossibleUser, ServerBan.matches .cidr .rfc1459
        { mask := ⟨ascii "*@bad.example"⟩
          reason := ascii "No reason"
          setBy := ascii "oper"
          kind := .kline
          expiresAtSecs := none } user.subject = false := by
  have accepted : BanMask.parse .cidr .kline (ascii "bad.example") [] false =
      .ok (⟨ascii "*@bad.example"⟩, ascii "No reason") := by decide +kernel
  exact ⟨accepted, (spares_someone_iff _ _ _ _ _ _ _ _ _ _ accepted).mpr (by decide +kernel)⟩

/-- A K-line of `*@?*` is accepted, and matches everyone. -/
theorem question_spares_no_one :
    BanMask.parse .cidr .kline (ascii "*@?*") [] false = .ok (⟨ascii "*@?*"⟩, ascii "No reason") ∧
      ¬ ∃ user : PossibleUser, ServerBan.matches .cidr .rfc1459
        { mask := ⟨ascii "*@?*"⟩
          reason := ascii "No reason"
          setBy := ascii "oper"
          kind := .kline
          expiresAtSecs := none } user.subject = false := by
  have parsed : parse .cidr (ascii "*@?*") = .ok .glob := by decide +kernel
  refine ⟨by decide +kernel, fun ⟨user, unmatched⟩ => ?_⟩
  simp only [ServerBan.matches, PossibleUser.subject, MaskKey.matches_of_parse parsed] at unmatched
  cases (kline_matches_everyone parsed (by decide +kernel) user).symm.trans unmatched

end E6irc.NetWide
