import E6irc.Base.Bytes
import E6irc.Base.Reader

/-!
# Addresses and networks

`std::net::IpAddr` as the server uses it: how an address is printed, which texts
are read as one, and the canonical form of an IPv4-mapped one.  An address is its
bits, most significant first.

Networks are those of the `ipnet` crate, which is a parameter (`Ipnet`): how it
reads a network is left open, and which addresses a network contains is what the
crate documents.  `canonicalNetwork` is that of `e6irc-edge/src/address.rs`.
-/

namespace E6irc

open Base Reader

inductive IpAddr
  | v4 (bits : BitVec 32)
  | v6 (bits : BitVec 128)
deriving DecidableEq, Repr

/-- A number's `count` digits in base `2 ^ width`, most significant first. -/
def digitsOf (width count n : ℕ) : List ℕ :=
  (List.range count).map fun i => n / 2 ^ (width * (count - 1 - i)) % 2 ^ width

def ofDigits (width : ℕ) (digits : List ℕ) : ℕ :=
  digits.foldl (fun n digit => n * 2 ^ width + digit) 0

namespace IpAddr

def octets (bits : BitVec 32) : List ℕ :=
  digitsOf 8 4 bits.toNat

def segments (bits : BitVec 128) : List ℕ :=
  digitsOf 16 8 bits.toNat

/-- The IPv4 address of an address in `::ffff:0:0/96`. -/
def toIpv4Mapped (bits : BitVec 128) : Option (BitVec 32) :=
  if bits.extractLsb' 32 96 = 0xffff then some (bits.extractLsb' 0 32) else none

def toCanonical : IpAddr → IpAddr
  | v4 bits => v4 bits
  | v6 bits =>
    match toIpv4Mapped bits with
    | some mapped => v4 mapped
    | none => v6 bits

/-! ## Printing -/

def hexadecimal (n : ℕ) : Bytes :=
  (Nat.toDigits 16 n).map byte

def ipv4ToString (bits : BitVec 32) : Bytes :=
  [byte '.'].intercalate ((octets bits).map decimal)

/-- The first of the longest runs of zeros: where it starts and how long it is.
`current` is the run that the segment before `i` ended with. -/
def longestZeros : ℕ → List ℕ → ℕ × ℕ → ℕ × ℕ → ℕ × ℕ
  | _, [], _, longest => longest
  | i, segment :: rest, current, longest =>
    if segment = 0 then
      let current := (if current.2 = 0 then i else current.1, current.2 + 1)
      longestZeros (i + 1) rest current (if longest.2 < current.2 then current else longest)
    else longestZeros (i + 1) rest (0, 0) longest

def fmtSubslice (chunk : List ℕ) : Bytes :=
  [byte ':'].intercalate (chunk.map hexadecimal)

def ipv6ToString (bits : BitVec 128) : Bytes :=
  match toIpv4Mapped bits with
  | some mapped => ascii "::ffff:" ++ ipv4ToString mapped
  | none =>
    let zeroes := longestZeros 0 (segments bits) (0, 0) (0, 0)
    if 1 < zeroes.2 then
      fmtSubslice ((segments bits).take zeroes.1) ++ ascii "::" ++
        fmtSubslice ((segments bits).drop (zeroes.1 + zeroes.2))
    else fmtSubslice (segments bits)

def toString : IpAddr → Bytes
  | v4 bits => ipv4ToString bits
  | v6 bits => ipv6ToString bits

/-! ## Reading -/

/-- The value of a digit, in either case. -/
def toDigit (radix : ℕ) (b : UInt8) : Option ℕ :=
  let value :=
    if byte '0' ≤ b ∧ b ≤ byte '9' then some (b.toNat - 48)
    else if byte 'a' ≤ b ∧ b ≤ byte 'z' then some (b.toNat - 87)
    else if byte 'A' ≤ b ∧ b ≤ byte 'Z' then some (b.toNat - 55)
    else none
  value.filter (· < radix)

/-- A number of at most `maxDigits` digits, below `bound`. -/
def readNumber (radix maxDigits bound : ℕ) (allowZeroPrefix : Bool) : Reader UInt8 ℕ := do
  let digits ← run fun b => (toDigit radix b).isSome
  guard (digits ≠ [] ∧ digits.length ≤ maxDigits)
  guard (allowZeroPrefix ∨ digits.head? ≠ some (byte '0') ∨ digits.length ≤ 1)
  let value := digits.foldl (fun n b => n * radix + (toDigit radix b).getD 0) 0
  guard (value < bound)
  pure value

/-- A part of a list: all but the first follow a separator. -/
def readSeparator (sep : UInt8) (index : ℕ) {α : Type} (inner : Reader UInt8 α) :
    Reader UInt8 α :=
  if 0 < index then do
    given sep
    inner
  else inner

def readOctets : ℕ → ℕ → Reader UInt8 (List ℕ)
  | _, 0 => pure []
  | i, left + 1 => do
    let octet ← readSeparator (byte '.') i (readNumber 10 3 256 false)
    let rest ← readOctets (i + 1) left
    pure (octet :: rest)

def readIpv4 : Reader UInt8 (BitVec 32) := do
  let octets ← readOctets 0 4
  pure (.ofNat 32 (ofDigits 8 octets))

/-- Up to `left` groups, the first of them the `i`th, until one is not there.  An
IPv4 address may stand for the last two; the flag says that one did. -/
def readGroups : ℕ → ℕ → Reader UInt8 (List ℕ × Bool)
  | _, 0 => pure ([], false)
  | i, left + 1 => do
    let ipv4 ← (if 0 < left then attempt (readSeparator (byte ':') i readIpv4) else pure none)
    match ipv4 with
    | some bits => pure (digitsOf 16 2 bits.toNat, true)
    | none =>
      match ← attempt (readSeparator (byte ':') i (readNumber 16 4 (2 ^ 16) true)) with
      | none => pure ([], false)
      | some group => do
        let (rest, ipv4) ← readGroups (i + 1) left
        pure (group :: rest, ipv4)

def readIpv6 : Reader UInt8 (BitVec 128) := do
  let (head, headIpv4) ← readGroups 0 8
  if head.length = 8 then pure (.ofNat 128 (ofDigits 16 head))
  else do
    guard (headIpv4 = false)
    given (byte ':')
    given (byte ':')
    let (tail, _) ← readGroups 0 (7 - head.length)
    let zeroes := List.replicate (8 - head.length - tail.length) 0
    pure (.ofNat 128 (ofDigits 16 (head ++ zeroes ++ tail)))

def readIpAddr : Reader UInt8 IpAddr := do
  match ← attempt readIpv4 with
  | some bits => pure (v4 bits)
  | none => v6 <$> readIpv6

def parse (text : Bytes) : Option IpAddr :=
  readIpAddr.parseWith text

/-! ## What is read as an address -/

/-- A byte of an address: a hexadecimal digit, `.` or `:`. -/
def addressByte (b : UInt8) : Prop :=
  (toDigit 16 b).isSome ∨ b = byte '.' ∨ b = byte ':'

instance : DecidablePred addressByte := fun b => by
  unfold addressByte
  infer_instance

variable {radix maxDigits bound : ℕ} {allowZeroPrefix : Bool}

theorem readNumber_reads_digits
    {P : UInt8 → Prop} (digit : ∀ b, (toDigit radix b).isSome = true → P b) :
    Reads P (readNumber radix maxDigits bound allowZeroPrefix) := by
  refine .bind (.run digit) fun digits => ?_
  refine .bind guard_reads fun _ => .bind guard_reads fun _ => .bind guard_reads fun _ => .pure _

theorem addressByte_of_digit {b : UInt8} (small : radix ≤ 16)
    (isDigit : (toDigit radix b).isSome = true) : addressByte b := by
  refine .inl ?_
  simp only [toDigit, Option.isSome_filter, Option.any_eq_true, decide_eq_true_eq] at isDigit ⊢
  obtain ⟨value, found, below⟩ := isDigit
  exact ⟨value, found, Nat.lt_of_lt_of_le below small⟩

theorem readNumber_reads (small : radix ≤ 16) :
    Reads addressByte (readNumber radix maxDigits bound allowZeroPrefix) :=
  readNumber_reads_digits fun _ => addressByte_of_digit small

theorem Reads.readSeparator {sep : UInt8} {index : ℕ} {α : Type} {inner : Reader UInt8 α}
    (class_ : addressByte sep) (reads : Reads addressByte inner) :
    Reads addressByte (readSeparator sep index inner) := by
  unfold IpAddr.readSeparator
  split
  · exact .bind (.given class_) fun _ => reads
  · exact reads

theorem readOctets_reads (i left : ℕ) : Reads addressByte (readOctets i left) := by
  induction left generalizing i with
  | zero => exact .pure _
  | succ left ih =>
    refine .bind (Reads.readSeparator (by decide) (readNumber_reads (by decide))) fun _ => ?_
    exact .bind (ih _) fun _ => .pure _

theorem readIpv4_reads : Reads addressByte readIpv4 := .bind (readOctets_reads 0 4) fun _ => .pure _

theorem readGroups_reads (i left : ℕ) : Reads addressByte (readGroups i left) := by
  induction left generalizing i with
  | zero => exact .pure _
  | succ left ih =>
    refine .bind ?_ fun ipv4 => ?_
    · split
      · exact (Reads.readSeparator (by decide) readIpv4_reads).attempt
      · exact .pure _
    · cases ipv4 with
      | some bits => exact .pure _
      | none =>
        refine .bind (Reads.readSeparator (by decide) (readNumber_reads (by decide))).attempt ?_
        intro group
        cases group with
        | none => exact .pure _
        | some group => exact .bind (ih _) fun _ => .pure _

theorem readIpv6_reads : Reads addressByte readIpv6 := by
  refine .bind (readGroups_reads 0 8) fun ⟨head, headIpv4⟩ => ?_
  dsimp only
  split
  · exact .pure _
  · refine .bind guard_reads fun _ => .bind (.given (by decide)) fun _ => ?_
    exact .bind (.given (by decide)) fun _ => .bind (readGroups_reads _ _) fun _ => .pure _

/-- Only address bytes are read as an address. -/
theorem addressByte_of_parse {text : Bytes} {address : IpAddr} (parsed : parse text = some address) :
    ∀ b ∈ text, addressByte b := by
  refine forall_of_parseWith (.bind readIpv4_reads.attempt fun ipv4 => ?_) parsed
  cases ipv4 with
  | some bits => exact .pure _
  | none => exact .bind readIpv6_reads fun _ => .pure _

/-! ## Texts that are read as the same address -/

/-- A change of bytes that no reader of addresses can tell: digits keep their value
and separators stay what they are. -/
structure Unread (f : UInt8 → UInt8) : Prop where
  digit : ∀ radix b, toDigit radix (f b) = toDigit radix b
  zero : ∀ b, f b = byte '0' ↔ b = byte '0'
  dot : ∀ b, f b = byte '.' ↔ b = byte '.'
  colon : ∀ b, f b = byte ':' ↔ b = byte ':'

section Unread

variable {f : UInt8 → UInt8}

theorem Unread.readNumber (unread : Unread f) {radix maxDigits bound : ℕ} {allowZeroPrefix : Bool} :
    Carries f id (readNumber radix maxDigits bound allowZeroPrefix)
      (readNumber radix maxDigits bound allowZeroPrefix) := by
  refine .bind (.run fun b => by rw [unread.digit]) fun digits => ?_
  refine .bind (guard_carries (by simp)) fun _ => .bind (guard_carries ?_) fun _ => ?_
  · cases digits <;> simp [unread.zero]
  have value : (digits.map f).foldl (fun n b => n * radix + (toDigit radix b).getD 0) 0 =
      digits.foldl (fun n b => n * radix + (toDigit radix b).getD 0) 0 := by
    simp only [List.foldl_map, unread.digit]
  rw [value]
  exact .bind (guard_carries Iff.rfl) fun _ => .pure _

theorem Carries.readSeparator {sep : UInt8} {index : ℕ} {α : Type} {g : α → α}
    {inner : Reader UInt8 α} (same : ∀ b, f b = sep ↔ b = sep) (carries : Carries f g inner inner) :
    Carries f g (readSeparator sep index inner) (readSeparator sep index inner) := by
  unfold IpAddr.readSeparator
  split
  · exact .bind (.given same) fun _ => carries
  · exact carries

section

variable (unread : Unread f)
include unread

theorem Unread.readOctets (i left : ℕ) : Carries f id (readOctets i left) (readOctets i left) := by
  induction left generalizing i with
  | zero => exact .pure _
  | succ left ih =>
    refine .bind (Carries.readSeparator unread.dot unread.readNumber) fun _ => ?_
    exact .bind (ih _) fun _ => .pure _

theorem Unread.readIpv4 : Carries f id readIpv4 readIpv4 :=
  .bind (unread.readOctets 0 4) fun _ => .pure _

theorem Unread.readGroups (i left : ℕ) : Carries f id (readGroups i left) (readGroups i left) := by
  induction left generalizing i with
  | zero => exact .pure _
  | succ left ih =>
    have ipv4 : Carries f id
        (if 0 < left then attempt (IpAddr.readSeparator (byte ':') i IpAddr.readIpv4)
          else pure none)
        (if 0 < left then attempt (IpAddr.readSeparator (byte ':') i IpAddr.readIpv4)
          else pure none) := by
      split
      · exact (Carries.readSeparator unread.colon unread.readIpv4).attempt
      · exact .pure _
    refine .bind ipv4 fun ipv4 => ?_
    cases ipv4 with
    | some bits => exact .pure _
    | none =>
      refine .bind (Carries.readSeparator unread.colon unread.readNumber).attempt fun group => ?_
      cases group with
      | none => exact .pure _
      | some group => exact .bind (ih _) fun _ => .pure _

theorem Unread.readIpv6 : Carries f id readIpv6 readIpv6 := by
  refine .bind (unread.readGroups 0 8) fun ⟨head, headIpv4⟩ => ?_
  dsimp only [id]
  split
  · exact .pure _
  · refine .bind (guard_carries Iff.rfl) fun _ => .bind (.given unread.colon) fun _ => ?_
    exact .bind (.given unread.colon) fun _ => .bind (unread.readGroups _ _) fun _ => .pure _

theorem Unread.parse_map (text : Bytes) : parse (text.map f) = parse text := by
  refine parseWith_map ?_ text
  refine .bind unread.readIpv4.attempt fun ipv4 => ?_
  cases ipv4 with
  | some bits => exact .pure _
  | none => exact .map unread.readIpv6 fun _ => rfl

end

end Unread

/-! ## How short an address can be -/

theorem length_le_intercalate (sep : UInt8) (parts : List Bytes) :
    parts.length ≤ ([sep].intercalate parts).length + 1 := by
  induction parts with
  | nil => simp
  | cons part parts ih =>
    cases parts with
    | nil => simp
    | cons next parts =>
      rw [List.intercalate_cons_cons, List.length_append, List.length_append]
      simp only [List.length_cons, List.length_nil] at ih ⊢
      omega

/-- No address is printed shorter than `::`. -/
theorem two_le_length_toString (address : IpAddr) : 2 ≤ address.toString.length := by
  have printed (sep : UInt8) (parts : List Bytes) (enough : 3 ≤ parts.length) :
      2 ≤ ([sep].intercalate parts).length := by
    have bound := length_le_intercalate sep parts
    omega
  have dotted (bits : BitVec 32) : 2 ≤ (ipv4ToString bits).length :=
    printed _ _ (by simp [octets, digitsOf])
  cases address with
  | v4 bits => exact dotted bits
  | v6 bits =>
    simp only [IpAddr.toString, ipv6ToString]
    split
    · rename_i mapped _
      rw [List.length_append]
      exact Nat.le_add_left_of_le (dotted mapped)
    · split
      · rw [List.length_append, List.length_append]
        have colons : (ascii "::").length = 2 := rfl
        omega
      · exact printed _ _ (by simp [segments, digitsOf])

end IpAddr

/-! ## Networks -/

/-- A network: an address, and how many of its leading bits count. -/
structure Net (width : ℕ) where
  addr : BitVec width
  prefixLen : ℕ
  fits : prefixLen ≤ width
deriving DecidableEq, Repr

namespace Net

variable {width : ℕ}

/-- `IpvNNet::new`, which refuses more bits than the address has. -/
def new (addr : BitVec width) (prefixLen : ℕ) : Option (Net width) :=
  if fits : prefixLen ≤ width then some ⟨addr, prefixLen, fits⟩ else none

/-- The address agrees with the network on the bits that count. -/
def Covers (net : Net width) (address : BitVec width) : Prop :=
  net.addr >>> (width - net.prefixLen) = address >>> (width - net.prefixLen)

instance (net : Net width) (address : BitVec width) : Decidable (net.Covers address) :=
  inferInstanceAs (Decidable (_ = _))

end Net

inductive IpNet
  | v4 (net : Net 32)
  | v6 (net : Net 128)
deriving DecidableEq, Repr

namespace IpNet

/-- The network of one address. -/
def ofAddress : IpAddr → IpNet
  | .v4 bits => v4 ⟨bits, 32, Nat.le_refl _⟩
  | .v6 bits => v6 ⟨bits, 128, Nat.le_refl _⟩

def Covers : IpNet → IpAddr → Prop
  | v4 net, .v4 bits => net.Covers bits
  | v6 net, .v6 bits => net.Covers bits
  | _, _ => False

instance : (net : IpNet) → (address : IpAddr) → Decidable (net.Covers address)
  | v4 net, .v4 bits => inferInstanceAs (Decidable (net.Covers bits))
  | v6 net, .v6 bits => inferInstanceAs (Decidable (net.Covers bits))
  | v4 _, .v6 _ | v6 _, .v4 _ => inferInstanceAs (Decidable False)

/-- An address range in the spelling a client's address is matched in: a mapped
network is its IPv4 equivalent, unless it is shorter than `/96`. -/
def canonicalNetwork (net : IpNet) : Option IpNet :=
  match net with
  | v4 _ => some net
  | v6 inner =>
    match IpAddr.toIpv4Mapped inner.addr with
    | none => some net
    | some mapped =>
      if inner.prefixLen < 96 then none else (Net.new mapped (inner.prefixLen - 96)).map v4

end IpNet

/-- What is used of the `ipnet` crate. -/
structure Ipnet where
  parse : Bytes → Option IpNet
  contains : IpNet → IpAddr → Bool
  contains_iff (net : IpNet) (address : IpAddr) : contains net address = true ↔ net.Covers address

namespace Ipnet

/-- `<address>/<bits>`, with as many digits as the longest prefix has. -/
def parseCidr (text : Bytes) : Option IpNet := do
  let (address, bits) ← splitOnce (byte '/') text
  match ← IpAddr.parse address with
  | .v4 addr => do
    let net ← Net.new addr (← (IpAddr.readNumber 10 2 33 true).parseWith bits)
    pure (.v4 net)
  | .v6 addr => do
    let net ← Net.new addr (← (IpAddr.readNumber 10 3 129 true).parseWith bits)
    pure (.v6 net)

/-- An instance for concrete inputs. -/
def cidr : Ipnet where
  parse := parseCidr
  contains net address := decide (net.Covers address)
  contains_iff _ _ := decide_eq_true_iff

/-- A network is written as an address with a number of bits behind a `/`. -/
def ReadsCidr (ipnet : Ipnet) : Prop :=
  ∀ text net, ipnet.parse text = some net → ∃ address bits,
    text = address ++ byte '/' :: bits ∧ (IpAddr.parse address).isSome ∧
      ∀ b ∈ bits, (IpAddr.toDigit 10 b).isSome

theorem cidr_readsCidr : ReadsCidr cidr := by
  intro text net parsed
  obtain ⟨⟨address, bits⟩, divided, rest⟩ := Option.bind_eq_some_iff.mp parsed
  obtain ⟨read, found, rest⟩ := Option.bind_eq_some_iff.mp rest
  have digits {maxDigits bound n : ℕ}
      (number : (IpAddr.readNumber 10 maxDigits bound true).parseWith bits = some n) :
      ∀ b ∈ bits, (IpAddr.toDigit 10 b).isSome = true :=
    forall_of_parseWith (IpAddr.readNumber_reads_digits fun _ isDigit => isDigit) number
  refine ⟨address, bits, (splitOnce_eq_some_iff.mp divided).1, by rw [found]; rfl, ?_⟩
  cases read with
  | v4 addr | v6 addr =>
    obtain ⟨n, number, -⟩ := Option.bind_eq_some_iff.mp rest
    exact digits number

end Ipnet

end E6irc
