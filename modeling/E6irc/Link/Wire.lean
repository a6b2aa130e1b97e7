import E6irc.Base.Codec
import E6irc.Net.Address

/-!
# The fields of a frame

The payload primitives of the core link (`e6irc-link/src/wire.rs`): how each is
written, how it is read, and that it is read exactly as it is written.  The one
field that loses something is a socket address, whose flow label and scope are not
written.
-/

namespace E6irc

open Base

/-- `std::net::SocketAddr`. -/
inductive SocketAddr
  | v4 (ip : BitVec 32) (port : BitVec 16)
  | v6 (ip : BitVec 128) (port : BitVec 16) (flowinfo scopeId : BitVec 32)
deriving DecidableEq, Repr

namespace SocketAddr

def new : IpAddr → BitVec 16 → SocketAddr
  | .v4 bits, port => v4 bits port
  | .v6 bits, port => v6 bits port 0 0

def ip : SocketAddr → IpAddr
  | v4 ip _ => .v4 ip
  | v6 ip _ _ _ => .v6 ip

def port : SocketAddr → BitVec 16
  | v4 _ port => port
  | v6 _ port _ _ => port

/-- An address and a port, and nothing else. -/
def Plain (address : SocketAddr) : Prop :=
  address = new address.ip address.port

instance (address : SocketAddr) : Decidable address.Plain :=
  inferInstanceAs (Decidable (_ = _))

@[simp] theorem ip_new (ip : IpAddr) (port : BitVec 16) : (new ip port).ip = ip := by
  cases ip <;> rfl

@[simp] theorem port_new (ip : IpAddr) (port : BitVec 16) : (new ip port).port = port := by
  cases ip <;> rfl

end SocketAddr

namespace Link

inductive EncodeError
  | overBound (field : String) (length bound : ℕ)
deriving DecidableEq, Repr

inductive DecodeError
  | shortFrame (length : ℕ)
  | longFrame (length : ℕ)
  | unknownKind (kind : UInt8)
  | missingSession
  | unexpectedSession (kind : UInt8)
  | truncated (field : String)
  | overBound (field : String) (length bound : ℕ)
  | unknownTag (field : String) (tag : UInt8)
  | notUtf8 (field : String)
  | invalid (field : String)
  | trailingBytes (count : ℕ)
deriving DecidableEq, Repr

/-- What is written of a field, or why it is not. -/
abbrev Writer := Except EncodeError Bytes

abbrev Reader := Decoder UInt8 DecodeError

namespace Writer

def u8 (value : UInt8) : Writer := .ok [value]

def u16 (value : BitVec 16) : Writer := .ok (bigEndian 2 value.toNat)

def u32 (value : BitVec 32) : Writer := .ok (bigEndian 4 value.toNat)

def u64 (value : BitVec 64) : Writer := .ok (bigEndian 8 value.toNat)

def bool (value : Bool) : Writer := u8 (if value then 1 else 0)

def bytes (field : String) (value : Bytes) (bound : ℕ) : Writer :=
  if value.length ≤ bound then .ok (bigEndian 4 value.length ++ value)
  else .error (.overBound field value.length bound)

def text (field : String) (value : Text) (bound : ℕ) : Writer :=
  bytes field value.bytes bound

def option {α : Type} (value : Option α) (write : α → Writer) : Writer :=
  match value with
  | none => u8 0
  | some value => writeAll [u8 1, write value]

def ip : IpAddr → Writer
  | .v4 bits => writeAll [u8 4, .ok (bigEndian 4 bits.toNat)]
  | .v6 bits => writeAll [u8 6, .ok (bigEndian 16 bits.toNat)]

def socket (address : SocketAddr) : Writer :=
  writeAll [ip address.ip, u16 address.port]

def list {α : Type} (field : String) (entries : List α) (bound : ℕ) (write : α → Writer) : Writer :=
  if entries.length ≤ bound then
    writeAll (.ok (bigEndian 2 entries.length) :: entries.map write)
  else .error (.overBound field entries.length bound)

end Writer

namespace Reader

def u8 (field : String) : Reader UInt8 := takeOne (.truncated field)

def u16 (field : String) : Reader (BitVec 16) := takeNumber (.truncated field) 2

def u32 (field : String) : Reader (BitVec 32) := takeNumber (.truncated field) 4

def u64 (field : String) : Reader (BitVec 64) := takeNumber (.truncated field) 8

/-- A tag, and what stands behind it. -/
def tagged {α : Type} (field : String) (table : List (UInt8 × Reader α)) : Reader α :=
  Base.tagged (.truncated field) (.unknownTag field) table

/-- A tag alone. -/
def tag {α : Type} (field : String) (table : List (UInt8 × α)) : Reader α :=
  tagged field (table.map fun entry => (entry.1, pure entry.2))

def bool (field : String) : Reader Bool := tag field [(0, false), (1, true)]

def bytes (field : String) (bound : ℕ) : Reader Bytes := do
  let length ← u32 field
  if length.toNat ≤ bound then takeMany (.truncated field) length.toNat
  else throw (.overBound field length.toNat bound)

def text (field : String) (bound : ℕ) : Reader Text := do
  let bytes ← bytes field bound
  orFail (.notUtf8 field) (Text.fromUtf8 bytes)

def option {α : Type} (field : String) (read : Reader α) : Reader (Option α) :=
  tagged field [(0, pure none), (1, some <$> read)]

def ip (field : String) : Reader IpAddr :=
  tagged field
    [(4, IpAddr.v4 <$> takeNumber (.truncated field) 4),
      (6, IpAddr.v6 <$> takeNumber (.truncated field) 16)]

def socket (field : String) : Reader SocketAddr := do
  let ip ← ip field
  let port ← u16 field
  pure (SocketAddr.new ip port)

def list {α : Type} (field : String) (bound : ℕ) (read : Reader α) : Reader (List α) := do
  let count ← u16 field
  if count.toNat ≤ bound then readMany read count.toNat
  else throw (.overBound field count.toNat bound)

end Reader

/-! ## Read as written -/

section

variable {α : Type} {field : String} {bound : ℕ}

theorem spells_u8 : Spells (Reader.u8 field) fun value part => Writer.u8 value = .ok part :=
  (spells_takeOne _).congr fun value part => by rw [Writer.u8, Except.ok.injEq, eq_comm]

theorem spells_u16 : Spells (Reader.u16 field) fun value part => Writer.u16 value = .ok part :=
  (spells_takeNumber _ 2).congr fun value part => by rw [Writer.u16, Except.ok.injEq, eq_comm]

theorem spells_u32 : Spells (Reader.u32 field) fun value part => Writer.u32 value = .ok part :=
  (spells_takeNumber _ 4).congr fun value part => by rw [Writer.u32, Except.ok.injEq, eq_comm]

theorem spells_u64 : Spells (Reader.u64 field) fun value part => Writer.u64 value = .ok part :=
  (spells_takeNumber _ 8).congr fun value part => by rw [Writer.u64, Except.ok.injEq, eq_comm]

theorem spells_tag {table : List (UInt8 × α)} {tag : α → UInt8} (known : ∀ a, (tag a, a) ∈ table)
    (tags : ∀ entry ∈ table, tag entry.2 = entry.1) (distinct : (table.map Prod.fst).Nodup) :
    Spells (Reader.tag field table) fun a part => Writer.u8 (tag a) = .ok part :=
  (spells_tagged_pure known tags distinct).congr fun a part => by
    rw [Writer.u8, Except.ok.injEq, eq_comm]

theorem spells_bool : Spells (Reader.bool field) fun value part => Writer.bool value = .ok part :=
  spells_tag (by decide) (by simp) (by decide)

/-- Values that are written as a tag and a body. -/
theorem spells_tagged {table : List (UInt8 × Reader α)} (tag : α → UInt8) (body : α → Writer)
    (P : α → Prop) (known : ∀ a, tag a ∈ table.map Prod.fst)
    (each : ∀ entry ∈ table, Spells entry.2 fun a part =>
      tag a = entry.1 ∧ body a = .ok part ∧ P a) :
    Spells (Reader.tagged field table) fun a part =>
      writeAll [Writer.u8 (tag a), body a] = .ok part ∧ P a := by
  refine (Base.spells_tagged known each).congr fun a part => ?_
  constructor
  · rintro ⟨back, ⟨written, holds⟩, rfl⟩
    exact ⟨by simp [Writer.u8, written], holds⟩
  rintro ⟨written, holds⟩
  obtain ⟨front, back, ⟨⟩, rest, rfl⟩ := writeAll_cons_eq_ok.mp written
  obtain ⟨middle, last, body, none, rfl⟩ := writeAll_cons_eq_ok.mp rest
  obtain rfl := writeAll_nil_eq_ok.mp none
  exact ⟨middle, ⟨body, holds⟩, by simp⟩

variable {part : Bytes} {P : α → Prop}

theorem bytes_eq_ok {value : Bytes} : Writer.bytes field value bound = .ok part ↔
      value.length ≤ bound ∧ part = bigEndian 4 value.length ++ value := by
  unfold Writer.bytes
  split
  · rename_i within
    rw [Except.ok.injEq, eq_comm, and_iff_right within]
  · rename_i past
    exact iff_of_false (fun done => nomatch done) fun both => past both.1

theorem toNat_ofNat_of_le {width n : ℕ} (within : n ≤ bound) (fits : bound < 2 ^ width) :
    (BitVec.ofNat width n).toNat = n := by
  rw [BitVec.toNat_ofNat]
  exact Nat.mod_eq_of_lt (Nat.lt_of_le_of_lt within fits)

theorem spells_bytes (fits : bound < 2 ^ 32) :
    Spells (Reader.bytes field bound) fun value part =>
      Writer.bytes field value bound = .ok part := by
  refine (spells_u32.bind fun length => Spells.ite _ fun _ => spells_takeMany _ _).congr
    fun value part => ?_
  rw [bytes_eq_ok]
  constructor
  · rintro ⟨length, front, back, ⟨⟩, ⟨within, rfl, same⟩, rfl⟩
    exact ⟨same ▸ within, by rw [same]⟩
  rintro ⟨within, rfl⟩
  have same := toNat_ofNat_of_le within fits
  refine ⟨.ofNat 32 value.length, _, value, rfl, ⟨?_, rfl, same.symm⟩, by rw [same]⟩
  rw [same]
  exact within

theorem spells_text (fits : bound < 2 ^ 32) :
    Spells (Reader.text field bound) fun value part =>
      Writer.text field value bound = .ok part := by
  refine ((spells_bytes fits).bind fun bytes => spells_orFail _ _).congr fun value part => ?_
  constructor
  · rintro ⟨bytes, front, back, written, ⟨means, rfl⟩, rfl⟩
    obtain rfl := Text.fromUtf8_eq_some.mp means
    rw [List.append_nil]
    exact written
  · intro written
    exact ⟨value.bytes, part, [], written, ⟨Text.fromUtf8_eq_some.mpr rfl, rfl⟩,
      (List.append_nil part).symm⟩

variable {write : α → Writer} {read : Reader α}

theorem spells_option (each : Spells read fun a part => write a = .ok part ∧ P a) :
    Spells (Reader.option field read) fun value part =>
      Writer.option value write = .ok part ∧ ∀ a ∈ value, P a := by
  refine (spells_tagged (fun value => if value.isSome then 1 else 0) (·.elim (.ok []) write)
    (fun value => ∀ a ∈ value, P a) (fun value => by cases value <;> simp) ?_).congr
    fun value part => ?_
  · refine List.forall_mem_cons.mpr ⟨?_, List.forall_mem_singleton.mpr ?_⟩
    · refine (Spells.pure none).congr fun value part => ?_
      cases value <;> simp [eq_comm]
    · refine (each.map some).congr fun value part => ?_
      cases value <;> simp
  · cases value with
    | none => rfl
    | some a => rfl

theorem spells_ip : Spells (Reader.ip field) fun address part => Writer.ip address = .ok part := by
  let tag : IpAddr → UInt8
    | .v4 _ => 4
    | .v6 _ => 6
  let body : IpAddr → Writer
    | .v4 bits => .ok (bigEndian 4 bits.toNat)
    | .v6 bits => .ok (bigEndian 16 bits.toNat)
  refine (spells_tagged tag body (fun _ => True) (fun address => by cases address <;> simp [tag])
    ?_).congr fun address part => ?_
  · refine List.forall_mem_cons.mpr ⟨?_, List.forall_mem_singleton.mpr ?_⟩
    · refine ((spells_takeNumber _ 4).map IpAddr.v4).congr fun address part => ?_
      cases address <;> simp [tag, body, eq_comm]
    · refine ((spells_takeNumber _ 16).map IpAddr.v6).congr fun address part => ?_
      cases address <;> simp [tag, body, eq_comm]
  · cases address with
    | v4 bits | v6 bits => exact and_iff_left trivial

theorem spells_socket :
    Spells (Reader.socket field) fun address part =>
      Writer.socket address = .ok part ∧ address.Plain := by
  refine (spells_ip.bind fun ip => spells_u16.bind fun port => Spells.pure _).congr
    fun address part => ?_
  constructor
  · rintro ⟨ip, front, back, first, ⟨port, middle, last, second, ⟨rfl, rfl⟩, rfl⟩, rfl⟩
    refine ⟨?_, by simp [SocketAddr.Plain]⟩
    simp [Writer.socket, first, second]
  · rintro ⟨written, plain⟩
    obtain ⟨front, back, first, rest, rfl⟩ := writeAll_cons_eq_ok.mp written
    obtain ⟨middle, last, second, none, rfl⟩ := writeAll_cons_eq_ok.mp rest
    exact ⟨_, front, _, first, ⟨_, middle, last, second, ⟨plain, by simpa using none⟩, rfl⟩, rfl⟩

theorem list_eq_ok {entries : List α} :
    Writer.list field entries bound write = .ok part ↔ entries.length ≤ bound ∧
      ∃ back, writeAll (entries.map write) = .ok back ∧
        part = bigEndian 2 entries.length ++ back := by
  unfold Writer.list
  split
  · rename_i within
    simp [within]
  · rename_i past
    exact iff_of_false (fun done => nomatch done) fun both => past both.1

theorem spells_list (fits : bound < 2 ^ 16)
    (each : Spells read fun a part => write a = .ok part ∧ P a) :
    Spells (Reader.list field bound read) fun entries part =>
      Writer.list field entries bound write = .ok part ∧ ∀ a ∈ entries, P a := by
  refine (spells_u16.bind fun count => Spells.ite _ fun _ => spells_readMany each _).congr
    fun entries part => ?_
  rw [list_eq_ok]
  constructor
  · rintro ⟨count, front, back, ⟨⟩, ⟨within, length, written, all⟩, rfl⟩
    exact ⟨⟨length ▸ within, back, written, by rw [length]⟩, all⟩
  rintro ⟨⟨within, back, written, rfl⟩, all⟩
  have same := toNat_ofNat_of_le within fits
  refine ⟨.ofNat 16 entries.length, _, back, rfl, ⟨?_, same.symm, written, all⟩, by rw [same]⟩
  rw [same]
  exact within

end

end Link

end E6irc
