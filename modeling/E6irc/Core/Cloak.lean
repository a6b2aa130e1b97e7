import E6irc.Core.BanMask

/-!
# A cloak is no way out of a ban

A user who shows another host than the address keeps every ban that matches with
the address shown: a glob is tried against both, a network against the address,
and a mask whose host is an address text stands for that address in every
spelling.  The hosts a session can show are the one it opens with, spelled so that
it can stand in the middle of a line, and those `SETHOST` accepts.
-/

namespace E6irc

open Base IpAddr MaskShape

/-! ## Hosts that are shown -/

/-- `sanitize::mask_middle`: a text that can stand as a middle parameter. -/
def maskMiddle (mask : Bytes) : Bytes :=
  if mask.head? ≠ some (byte ':') ∧ byte ' ' ∉ mask then mask
  else
    (if mask.head? = some (byte ':') then ascii "0" else []) ++
      mask.flatMap fun b => if b = byte ' ' then ascii "\\s" else [b]

/-- Whether `host` may be set as a user's visible host. -/
def validVisibleHost (host : Bytes) : Bool :=
  host ≠ [] && host.length ≤ 63 && host.head? ≠ some (byte ':') &&
    host.all (fun b => isAsciiAlphanumeric b || b == byte '.' || b == byte '-' || b == byte ':' ||
      b == byte '/') &&
    (rsplitOnce (byte '/') host).all fun sides => !sides.2.head?.any isAsciiDigit

/-- The host that a session from `peer` opens with, and the address read from it. -/
def openHost (peer : Bytes) : Bytes × Option IpAddr :=
  let host := maskMiddle peer
  (host, (parse host).map toCanonical)

/-- The hosts that a session from `peer` can show. -/
inductive ShownHost (peer : Bytes) : Bytes → Prop
  | opened : ShownHost peer (openHost peer).1
  | set {host : Bytes} : validVisibleHost host = true → ShownHost peer host

theorem IpAddr.toCanonical_toCanonical (address : IpAddr) :
    address.toCanonical.toCanonical = address.toCanonical := by
  cases address with
  | v4 bits => rfl
  | v6 bits =>
    cases mapped : toIpv4Mapped bits with
    | none | some plain => simp only [toCanonical, mapped]

variable {address : IpAddr} {peer host : Bytes}

theorem openHost_eq_some (opened : (openHost peer).2 = some address) :
    (∃ read, parse (openHost peer).1 = some read) ∧ address.toCanonical = address := by
  obtain ⟨read, parsed, rfl⟩ := Option.map_eq_some_iff.mp opened
  exact ⟨⟨read, parsed⟩, read.toCanonical_toCanonical⟩

theorem IpAddr.notMem_of_parse {text : Bytes} {b : UInt8}
    (parsed : parse text = some address) (other : ¬ addressByte b) : b ∉ text :=
  fun among => other (addressByte_of_parse parsed b among)

theorem ShownHost.notMem_at (shown : ShownHost peer host)
    (opened : (openHost peer).2 = some address) : byte '@' ∉ host := by
  cases shown with
  | opened =>
    obtain ⟨⟨read, parsed⟩, -⟩ := openHost_eq_some opened
    exact notMem_of_parse parsed (by decide)
  | set valid =>
    intro among
    simp only [validVisibleHost, Bool.and_eq_true, List.all_eq_true] at valid
    have allowed := valid.1.2 _ among
    revert allowed
    decide

/-! ## Masks over an address -/

namespace IpAddr

theorem toDigit_eq_filter (radix : ℕ) (b : UInt8) :
    toDigit radix b = (toDigit 36 b).filter (· < radix) := by
  have kept {value : ℕ} (small : value < 36) :
      (some value).filter (· < radix) =
        ((some value).filter (· < 36)).filter (fun v => decide (v < radix)) := by
    rw [Option.filter_some_pos (p := fun v => decide (v < 36)) (decide_eq_true small)]
  have nine : (byte '9').toNat = 57 := rfl
  have z : (byte 'z').toNat = 122 := rfl
  have Z : (byte 'Z').toNat = 90 := rfl
  unfold toDigit
  simp only [UInt8.le_iff_toNat_le]
  split_ifs with digit lower upper
  · exact kept (by omega)
  · exact kept (by omega)
  · exact kept (by omega)
  · rfl

/-- Lower case is read as the same address. -/
theorem unread_lower (casemap : CaseMapping) : Unread casemap.lower := by
  have fixed : ∀ b, toDigit 36 (casemap.lower b) = toDigit 36 b ∧
      (casemap.lower b = byte '0' ↔ b = byte '0') ∧ (casemap.lower b = byte '.' ↔ b = byte '.') ∧
      (casemap.lower b = byte ':' ↔ b = byte ':') := by
    cases casemap <;> decide +kernel
  exact {
    digit := fun radix b => by rw [toDigit_eq_filter, (fixed b).1, ← toDigit_eq_filter]
    zero := fun b => (fixed b).2.1
    dot := fun b => (fixed b).2.2.1
    colon := fun b => (fixed b).2.2.2 }

theorem parse_casefold (casemap : CaseMapping) (text : Bytes) :
    parse (casemap.casefold text) = parse text :=
  (unread_lower casemap).parse_map text

end IpAddr

theorem IpNet.covers_ofAddress (address : IpAddr) : (IpNet.ofAddress address).Covers address := by
  cases address <;> rfl

namespace MaskShape

variable {ipnet : Ipnet} {casemap : CaseMapping} {mask head host : Bytes} {shape : MaskShape}
  {net : IpNet} {address : IpAddr} {account : Option Bytes}

/-- The text of a network has no wildcard and no `@`. -/
theorem hostNet_byte (reads : ipnet.ReadsCidr) (found : hostNet ipnet host = .ok (some net)) :
    ∀ b ∈ host, addressByte b ∨ b = byte '/' := by
  unfold hostNet at found
  rcases splitOnce_cases (byte '/') host with ⟨-, split⟩ | ⟨front, after, -, -, split⟩
  · rw [split] at found
    obtain ⟨address, parsed, -⟩ := Option.map_eq_some_iff.mp (Except.ok.inj found)
    exact fun b among => .inl (addressByte_of_parse parsed b among)
  · simp only [split] at found
    split at found
    · split at found
      · rename_i canonical
        obtain ⟨wide, parsed, -⟩ := Option.bind_eq_some_iff.mp canonical
        obtain ⟨text, bits, rfl, isAddress, digits⟩ := reads _ _ parsed
        obtain ⟨address, parsed⟩ := Option.isSome_iff_exists.mp isAddress
        intro b among
        rcases List.mem_append.mp among with inText | behind
        · exact .inl (addressByte_of_parse parsed b inText)
        · rcases List.mem_cons.mp behind with slash | inBits
          · exact .inr slash
          · exact .inl (addressByte_of_digit (by decide) (digits b inBits))
      · cases found
    · cases found

/-- A network whose text matches that of an address has the address. -/
theorem covers_of_matches (found : hostNet ipnet host = .ok (some net))
    (canonical : address.toCanonical = address)
    (readsBack : IpAddr.parse address.toString = some address)
    (matched : Mask.matches casemap host address.toString = true) : net.Covers address := by
  rcases hostNet_eq_some found with slash | ⟨stored, parsed, rfl⟩
  · have other : ∀ b, addressByte b → casemap.lower b ≠ casemap.lower (byte '/') := by
      cases casemap <;> decide +kernel
    have absent : casemap.lower (byte '/') ∉ casemap.casefold address.toString := by
      intro among
      obtain ⟨b, inText, same⟩ := List.mem_map.mp among
      exact other b (addressByte_of_parse readsBack b inText) same
    rw [Mask.not_matches_of_literal slash (by decide) (by decide) absent] at matched
    cases matched
  · have plain : ∀ b, addressByte b → b ≠ byte '*' ∧ b ≠ byte '?' := by decide +kernel
    have spelled := (Mask.matches_of_literals fun b among =>
      plain b (addressByte_of_parse parsed b among)).mp matched
    have same : IpAddr.parse address.toString = IpAddr.parse host := by
      rw [← parse_casefold casemap, spelled, parse_casefold]
    rw [readsBack, parsed] at same
    rw [← Option.some.inj same, canonical]
    exact IpNet.covers_ofAddress address

/-- A mask that takes the address takes whoever shows another host. -/
theorem matches_of_address (reads : ipnet.ReadsCidr) (parsed : parse ipnet mask = .ok shape)
    (canonical : address.toCanonical = address)
    (readsBack : IpAddr.parse address.toString = some address)
    (first : byte '@' ∉ head) (last : byte '@' ∉ host)
    (matched : shape.matches ipnet casemap mask
      (.new (head ++ byte '@' :: address.toString) (some address) account) = true) :
    shape.matches ipnet casemap mask
      (.new (head ++ byte '@' :: host) (some address) account) = true := by
  have lastText : byte '@' ∉ address.toString := notMem_of_parse readsBack (by decide)
  rcases parse_eq_ok parsed with
    ⟨-, negated, pattern, -, rfl, -⟩ | ⟨-, rfl | ⟨head', host', net, rfl, rfl, found⟩⟩
  · exact matched
  · refine glob_matched last ?_
    simp only [MaskShape.matches, MaskSubject.byAddress_new lastText, ne_eq, not_true_eq_false,
      if_false, Option.any_none, Bool.or_false] at matched
    exact matched
  · simp only [MaskShape.matches, MaskSubject.head_new lastText, Bool.or_eq_true] at matched
    simp only [MaskShape.matches, MaskSubject.head_new last, Bool.or_eq_true]
    refine .inl ?_
    rcases matched with inNet | shown
    · exact inNet
    cases head' with
    | none =>
      -- A network alone has no `@` to take that of the subject.
      have plain : ∀ b, addressByte b ∨ b = byte '/' →
          (b ≠ byte '*' ∧ b ≠ byte '?') ∧ casemap.lower b ≠ byte '@' := by
        cases casemap <;> decide +kernel
      have spelled := (Mask.matches_of_literals fun b among =>
        (plain b (hostNet_byte reads found b among)).1).mp shown
      have sign : byte '@' ∈ casemap.casefold host' := by
        rw [← show _ = casemap.casefold host' from spelled, MaskSubject.new, Mask.casefold_at]
        simp
      obtain ⟨b, among, isSign⟩ := List.mem_map.mp sign
      exact absurd isSign (plain b (hostNet_byte reads found b among)).2
    | some head' =>
      obtain ⟨before, behind⟩ := (Mask.matches_at first lastText).mp shown
      have inNet := covers_of_matches found canonical readsBack behind
      rw [← ipnet.contains_iff] at inNet
      simp only [Option.all_some, Bool.and_eq_true]
      exact ⟨inNet, before⟩

end MaskShape

/-! ## Bans under a cloak -/

/-- `nick!user@host`. -/
def sourcePrefix (nick user host : Bytes) : Bytes :=
  nick ++ byte '!' :: user ++ byte '@' :: host

theorem ServerBan.matches_of_address {ipnet : Ipnet} {casemap : CaseMapping} {ban : ServerBan}
    {shape : MaskShape} {user realname : Bytes} (reads : ipnet.ReadsCidr)
    (parsed : parse ipnet ban.mask.display = .ok shape)
    (canonical : address.toCanonical = address)
    (readsBack : IpAddr.parse address.toString = some address)
    (first : byte '@' ∉ user) (last : byte '@' ∉ host)
    (matched : ban.matches ipnet casemap ⟨user, address.toString, some address, realname⟩ = true) :
    ban.matches ipnet casemap ⟨user, host, some address, realname⟩ = true := by
  unfold ServerBan.matches at matched ⊢
  cases kind : ban.kind with
  | kline =>
    simp only [kind, MaskKey.matches_of_parse parsed] at matched ⊢
    exact MaskShape.matches_of_address reads parsed canonical readsBack first last matched
  | dline | xline =>
    simp only [kind] at matched ⊢
    exact matched

end E6irc
