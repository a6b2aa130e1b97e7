import E6irc.Base.Result
import E6irc.Core.ServerBan
import E6irc.Net.Address
import E6irc.Proto.Mask
import E6irc.Proto.Text

/-!
# What a ban mask means

The shapes of a stored mask and who matches them (`core/banmask.rs`), a server
ban's match (`core/state.rs`), and the parser of KLINE, DLINE and XLINE that
refuses a mask which matches everyone (`core/handler/oper.rs`).
-/

namespace E6irc

open Base

/-- A mask's meaning, decided when it is stored. -/
inductive MaskShape
  | glob
  | cidr (head : Option Bytes) (net : IpNet)
  | account (negated : Bool) (pattern : Option Bytes)
deriving DecidableEq, Repr

inductive MaskError
  | unknownExtban | malformedExtban | malformedCidr
deriving DecidableEq, Repr

def MaskError.describe : MaskError → Bytes
  | unknownExtban => ascii "Unsupported extended ban type (EXTBAN lists those supported)"
  | malformedExtban => ascii "Malformed extended ban (want $a or $a:<account mask>)"
  | malformedCidr => ascii "Malformed CIDR mask (prefix length out of range)"

/-- Who a mask is tested against. -/
structure MaskSubject where
  shown : Bytes
  address : Option IpAddr
  byAddress : Option Bytes
  account : Option Bytes
deriving DecidableEq, Repr

namespace MaskSubject

/-- `byAddress` is `shown` with the address for its host, where that is not
already the host. -/
def new (shown : Bytes) (address : Option IpAddr) (account : Option Bytes) : MaskSubject :=
  let byAddress := do
    let address ← address
    let (head, host) ← rsplitOnce (byte '@') shown
    if host ≠ address.toString then some (head ++ byte '@' :: address.toString) else none
  { shown, address, byAddress, account }

/-- `shown` before its last `@`. -/
def head (subject : MaskSubject) : Bytes :=
  (rsplitOnce (byte '@') subject.shown).elim subject.shown Prod.fst

end MaskSubject

namespace MaskShape

/-- The extended ban types. -/
def extbanTypes : Bytes := ascii "a"

/-- What follows an extended ban's type letter. -/
def extbanPattern (data : Bytes) : Except MaskError (Option Bytes) :=
  if data = [] then .ok none
  else
    match stripFirst (byte ':') data with
    | none => .error .malformedExtban
    | some pattern =>
      if pattern = [] ∨ byte '$' ∈ pattern then .error .malformedExtban else .ok (some pattern)

/-- An extended ban behind its `$` and `~`. -/
def extbanShape (negated : Bool) (rest : Bytes) : Except MaskError MaskShape :=
  match rest with
  | [] => .error .malformedExtban
  | kind :: data =>
    if toAsciiLowercase kind ∉ extbanTypes then .error .unknownExtban
    else (extbanPattern data).map (account negated)

def parseExtban (extban : Bytes) : Except MaskError MaskShape :=
  match stripFirst (byte '~') extban with
  | some rest => extbanShape true rest
  | none => extbanShape false extban

/-- What a host stands for: a network, or `none` for an ordinary glob. -/
def hostNet (ipnet : Ipnet) (host : Bytes) : Except MaskError (Option IpNet) :=
  match splitOnce (byte '/') host with
  | some (address, _) =>
    if (IpAddr.parse address).isSome then
      match (ipnet.parse host).bind IpNet.canonicalNetwork with
      | some net => .ok (some net)
      | none => .error .malformedCidr
    else .ok none
  | none => .ok ((IpAddr.parse host).map fun address => .ofAddress address.toCanonical)

/-- Decide what `mask` means. -/
def parse (ipnet : Ipnet) (mask : Bytes) : Except MaskError MaskShape :=
  match stripFirst (byte '$') mask with
  | some extban => parseExtban extban
  | none =>
    let (head, host) :=
      match rsplitOnce (byte '@') mask with
      | some (head, host) => (some head, host)
      | none => (none, mask)
    (hostNet ipnet host).map fun net => net.elim glob (cidr head)

/-! ### The shapes that are accepted -/

variable {ipnet : Ipnet} {mask host : Bytes} {shape : MaskShape} {net : IpNet}

theorem extbanPattern_eq_ok {data : Bytes} {pattern : Option Bytes}
    (parsed : extbanPattern data = .ok pattern) : data = pattern.elim [] (byte ':' :: ·) := by
  unfold extbanPattern at parsed
  split at parsed
  · rename_i bare
    cases parsed
    exact bare
  · split at parsed
    · cases parsed
    rename_i colon
    split at parsed
    · cases parsed
    · cases parsed
      exact stripFirst_eq_some.mp colon

theorem extbanShape_eq_ok {negated : Bool} {rest : Bytes}
    (parsed : extbanShape negated rest = .ok shape) :
    ∃ pattern, shape = account negated pattern ∧ ∃ kind, toAsciiLowercase kind ∈ extbanTypes ∧
      rest = kind :: pattern.elim [] (byte ':' :: ·) := by
  unfold extbanShape at parsed
  split at parsed
  · cases parsed
  rename_i kind data
  split at parsed
  · cases parsed
  · rename_i known
    obtain ⟨pattern, read, rfl⟩ := map_eq_ok parsed
    exact ⟨pattern, rfl, kind, not_not.mp known, by rw [← extbanPattern_eq_ok read]⟩

theorem parseExtban_eq_ok {extban : Bytes} (parsed : parseExtban extban = .ok shape) :
    ∃ negated pattern, shape = account negated pattern ∧
      (negated = true ↔ byte '~' ∈ extban.head?) ∧
      ∃ kind, toAsciiLowercase kind ∈ extbanTypes ∧
        extban = (if negated then [byte '~'] else []) ++ kind :: pattern.elim [] (byte ':' :: ·) := by
  unfold parseExtban at parsed
  cases taken : stripFirst (byte '~') extban with
  | some rest =>
    rw [taken] at parsed
    obtain ⟨pattern, rfl, kind, known, rfl⟩ := extbanShape_eq_ok parsed
    obtain rfl := stripFirst_eq_some.mp taken
    exact ⟨true, pattern, rfl, iff_of_true rfl rfl, kind, known, rfl⟩
  | none =>
    rw [taken] at parsed
    obtain ⟨pattern, rfl, kind, known, rfl⟩ := extbanShape_eq_ok parsed
    exact ⟨false, pattern, rfl, iff_of_false nofun (stripFirst_eq_none.mp taken), kind, known, rfl⟩

/-- A host that is a network has a `/` or is an address. -/
theorem hostNet_eq_some (found : hostNet ipnet host = .ok (some net)) :
    byte '/' ∈ host ∨
      ∃ address, IpAddr.parse host = some address ∧ net = .ofAddress address.toCanonical := by
  unfold hostNet at found
  rcases splitOnce_cases (byte '/') host with ⟨-, split⟩ | ⟨front, after, rfl, -, -⟩
  · rw [split] at found
    cases parsed : IpAddr.parse host with
    | none =>
      rw [parsed] at found
      cases found
    | some address =>
      rw [parsed] at found
      cases found
      exact .inr ⟨address, rfl, rfl⟩
  · exact .inl (by simp)

/-- An accepted mask is an extended ban behind a `$`; another one is a glob, or has
a network for its host. -/
theorem parse_eq_ok (parsed : parse ipnet mask = .ok shape) :
    (∃ extban negated pattern, mask = byte '$' :: extban ∧ shape = account negated pattern ∧
      (negated = true ↔ byte '~' ∈ extban.head?)) ∨
      byte '$' ∉ mask.head? ∧ (shape = glob ∨
        ∃ head host net, shape = cidr head net ∧
          mask = head.elim host (fun front => front ++ byte '@' :: host) ∧
          hostNet ipnet host = .ok (some net)) := by
  unfold parse at parsed
  cases dollar : stripFirst (byte '$') mask with
  | some extban =>
    rw [dollar] at parsed
    obtain ⟨negated, pattern, shaped, flag, -⟩ := parseExtban_eq_ok parsed
    exact .inl ⟨extban, negated, pattern, stripFirst_eq_some.mp dollar, shaped, flag⟩
  | none =>
    rw [dollar] at parsed
    refine .inr ⟨stripFirst_eq_none.mp dollar, ?_⟩
    rcases rsplitOnce_cases (byte '@') mask with ⟨-, split⟩ | ⟨front, host, rfl, -, split⟩
    · rw [split] at parsed
      obtain ⟨net, found, rfl⟩ := map_eq_ok parsed
      cases net with
      | none => exact .inl rfl
      | some net => exact .inr ⟨none, mask, net, rfl, rfl, found⟩
    · rw [split] at parsed
      obtain ⟨net, found, rfl⟩ := map_eq_ok parsed
      cases net with
      | none => exact .inl rfl
      | some net => exact .inr ⟨some front, host, net, rfl, rfl, found⟩

end MaskShape

/-- Whether `subject` matches this shape of the mask `display`. -/
def MaskShape.matches (ipnet : Ipnet) (casemap : CaseMapping) (display : Bytes)
    (subject : MaskSubject) : MaskShape → Bool
  | .glob =>
    Mask.matches casemap display subject.shown ||
      subject.byAddress.any (Mask.matches casemap display)
  | .cidr head net =>
    let inNet := subject.address.any (ipnet.contains net)
    let headMatches := head.all fun head => Mask.matches casemap head subject.head
    (inNet && headMatches) || Mask.matches casemap display subject.shown
  | .account negated pattern =>
    let hit :=
      match subject.account, pattern with
      | some _, none => true
      | some name, some pattern => Mask.matches casemap pattern name
      | none, _ => false
    hit != negated

/-- Whether `subject` matches this mask, by its shape.  A mask that was stored
without being parsed and has none is a glob. -/
def MaskKey.matches (ipnet : Ipnet) (casemap : CaseMapping) (mask : MaskKey)
    (subject : MaskSubject) : Bool :=
  let shape := (MaskShape.parse ipnet mask.display).toOption.getD .glob
  shape.matches ipnet casemap mask.display subject

section Shown

variable {ipnet : Ipnet} {casemap : CaseMapping} {display head host : Bytes} {shape : MaskShape}
  {subject : MaskSubject} {address : IpAddr} {account : Option Bytes}

theorem MaskKey.matches_of_parse (parsed : MaskShape.parse ipnet display = .ok shape) :
    MaskKey.matches ipnet casemap ⟨display⟩ subject =
      shape.matches ipnet casemap display subject := by
  simp only [MaskKey.matches, parsed]
  rfl

theorem MaskSubject.byAddress_new (last : byte '@' ∉ host) :
    (MaskSubject.new (head ++ byte '@' :: host) (some address) account).byAddress =
      if host ≠ address.toString then some (head ++ byte '@' :: address.toString) else none := by
  simp [MaskSubject.new, rsplitOnce_append last]

theorem MaskSubject.head_new (last : byte '@' ∉ host) :
    (MaskSubject.new (head ++ byte '@' :: host) (some address) account).head = head := by
  simp [MaskSubject.new, MaskSubject.head, rsplitOnce_append last]

/-- A glob that takes the address takes whoever shows another host. -/
theorem MaskShape.glob_matched (last : byte '@' ∉ host)
    (byAddress : Mask.matches casemap display (head ++ byte '@' :: address.toString) = true) :
    MaskShape.glob.matches ipnet casemap display
      (.new (head ++ byte '@' :: host) (some address) account) = true := by
  simp only [MaskShape.matches, MaskSubject.byAddress_new last]
  split
  · simp [byAddress]
  · rename_i same
    rw [not_not] at same
    simp [MaskSubject.new, same, byAddress]

end Shown

/-- What a server ban is tested against. -/
structure ServerBanSubject where
  user : Bytes
  host : Bytes
  realIp : Option IpAddr
  realname : Bytes
deriving DecidableEq, Repr

/-- Whether this ban matches `subject`. -/
def ServerBan.matches (ipnet : Ipnet) (casemap : CaseMapping) (ban : ServerBan)
    (subject : ServerBanSubject) : Bool :=
  match ban.kind with
  | .kline =>
    let shown := subject.user ++ byte '@' :: subject.host
    ban.mask.matches ipnet casemap (.new shown subject.realIp none)
  | .dline =>
    subject.realIp.any fun address =>
      ban.mask.matches ipnet casemap (.new address.toString (some address) none)
  | .xline => Mask.matches casemap ban.mask.display subject.realname

/-! ## The ban commands -/

def banMaskLen : ℕ := 100

/-- A mask for `kind`: the host of a K-line may stand alone. -/
def banMask (kind : BanKind) (arg : Bytes) : Bytes :=
  match kind with
  | .kline => if byte '@' ∈ arg then arg else ascii "*@" ++ arg
  | .dline | .xline => arg

/-- Whether a glob places no constraint: it is made only of `*`. -/
def globMatchesAll (token : Bytes) : Bool :=
  !token.isEmpty && token.all (· == byte '*')

/-- A parsed, normalized target of a server ban. -/
structure BanMask where
  display : Bytes
deriving DecidableEq, Repr

inductive BanReject
  | matchesEveryone (mask : Bytes)
  | invalid (mask why : Bytes)
deriving DecidableEq, Repr

/-- The refusal as the operator is told it. -/
def BanReject.describe (label : Bytes) : BanReject → Bytes
  | matchesEveryone mask =>
    ascii "Refusing " ++ label ++ ascii " for " ++ truncateOnCharBoundary mask realLen ++
      ascii ": it matches every user (use a more specific mask)"
  | invalid mask why =>
    ascii "Refusing " ++ label ++ ascii " for " ++ truncateOnCharBoundary mask realLen ++
      ascii ": " ++ why

/-- Whether `mask` can be a D-line: an address, a range, or a glob of address
characters. -/
def validDline (ipnet : Ipnet) (mask : Bytes) : Bool :=
  match MaskShape.parse ipnet mask with
  | .ok (.cidr none _) => true
  | .ok .glob =>
    mask.any (fun b => b == byte '*' || b == byte '?') &&
      mask.all fun b => decide (IpAddr.addressByte b) || b == byte '*' || b == byte '?'
  | _ => false

namespace BanMask

/-- The mask and the reason among the parameters `first :: rest`: a realname may
hold spaces, so an X-line's mask takes every parameter but a trailing one. -/
def rawMask (kind : BanKind) (first : Bytes) (rest : List Bytes) (hasTrailing : Bool) : Bytes :=
  match kind with
  | .xline =>
    if hasTrailing ∧ rest ≠ [] then [byte ' '].intercalate (first :: rest).dropLast
    else [byte ' '].intercalate (first :: rest)
  | .kline | .dline => first

def rawReason (kind : BanKind) (rest : List Bytes) (hasTrailing : Bool) : Bytes :=
  match kind with
  | .xline => if hasTrailing then rest.getLast?.getD (ascii "No reason") else ascii "No reason"
  | .kline | .dline => rest.head?.getD (ascii "No reason")

def bound : BanKind → ℕ
  | .xline => realLen
  | .kline | .dline => banMaskLen

def tooLong : BanKind → Bytes
  | .xline => ascii "a realname mask is at most 150 bytes (REALLEN)"
  | .kline | .dline => ascii "a mask is at most 100 bytes (BANMASKLEN)"

/-- Both sides of a K-line's mask, or the whole of another, are pure wildcards. -/
def matchesEveryone (kind : BanKind) (display : Bytes) : Bool :=
  match kind with
  | .kline =>
    match splitOnce (byte '@') display with
    | some (user, host) => globMatchesAll user && globMatchesAll host
    | none => globMatchesAll display
  | .dline | .xline => globMatchesAll display

/-- Parse the parameters of a ban command into a mask and a reason. -/
def parse (ipnet : Ipnet) (kind : BanKind) (first : Bytes) (rest : List Bytes)
    (hasTrailing : Bool) : Except BanReject (BanMask × Bytes) :=
  let reason := truncateOnCharBoundary (rawReason kind rest hasTrailing) 300
  let display := banMask kind (rawMask kind first rest hasTrailing)
  if bound kind < display.length then .error (.invalid display (tooLong kind))
  else if matchesEveryone kind display then .error (.matchesEveryone display)
  else
    match kind with
    | .dline =>
      if validDline ipnet display then .ok (⟨display⟩, reason)
      else .error (.invalid display
        (ascii "a D-line is an IP address, a CIDR range, or an IP glob"))
    | .kline =>
      match MaskShape.parse ipnet display with
      | .error error => .error (.invalid display error.describe)
      | .ok _ => .ok (⟨display⟩, reason)
    | .xline => .ok (⟨display⟩, reason)

/-- What is accepted has the mask of the parameters, and a shape where it needs one. -/
theorem parse_eq_ok {ipnet : Ipnet} {kind : BanKind} {first : Bytes} {rest : List Bytes}
    {hasTrailing : Bool} {mask : BanMask} {reason : Bytes}
    (accepted : parse ipnet kind first rest hasTrailing = .ok (mask, reason)) :
    mask.display = banMask kind (rawMask kind first rest hasTrailing) ∧
      (kind = .kline → ∃ shape, MaskShape.parse ipnet mask.display = .ok shape) ∧
      (kind = .dline → validDline ipnet mask.display = true) := by
  unfold parse at accepted
  simp only at accepted
  split at accepted
  · cases accepted
  split at accepted
  · cases accepted
  cases kind with
  | kline =>
    simp only at accepted
    split at accepted
    · cases accepted
    · rename_i shape parsed
      cases accepted
      exact ⟨rfl, fun _ => ⟨shape, parsed⟩, nofun⟩
  | dline =>
    simp only at accepted
    split at accepted
    · rename_i valid
      cases accepted
      exact ⟨rfl, nofun, fun _ => valid⟩
    · cases accepted
  | xline =>
    cases accepted
    exact ⟨rfl, nofun, nofun⟩

end BanMask

end E6irc
