import E6irc.Link.Frame

/-!
# Frames from the core to an edge

`e6irc-link/src/core_frames.rs`.  The reader refuses a `Welcome` of no streams or of
too many, and a trusted proxy whose prefix is longer than its address; the writer
looks at neither (`CoreFrame.Sound`).
-/

namespace E6irc.Link

open Base Writer

def maxTrustedProxies : ℕ := 1024

def maxRefusalLen : ℕ := 2048

def maxCloseReasonLen : ℕ := 123

inductive Credit
  | stream (amount : BitVec 32)
  | session (session : SessionId) (amount : BitVec 32)
deriving DecidableEq, Repr

structure CloseFrame where
  code : BitVec 16
  reason : Text
deriving DecidableEq, Repr

structure CommandFloodTerms where
  burst : BitVec 32
  rate : BitVec 32
deriving DecidableEq, Repr

structure EdgeTerms where
  trustedProxies : List (IpAddr × UInt8)
  maxConnectionsPerIp : Option (BitVec 32)
  sendqBytes : BitVec 32
  commandFlood : Option CommandFloodTerms
  lineCredit : BitVec 32
deriving DecidableEq, Repr

structure Welcome where
  version : BitVec 16
  epoch : BitVec 64
  slot : Slot
  streams : BitVec 16
  terms : EdgeTerms
deriving DecidableEq, Repr

inductive CoreFrame
  | welcome (welcome : Welcome)
  | refused (text : Text)
  | output (session : SessionId) (line : Bytes)
  | kill (session : SessionId) (line : Bytes)
  | ending (session : SessionId) (close : Option CloseFrame)
  | floodExempt (session : SessionId) (exempt : Bool)
  | credit (credit : Credit)
deriving DecidableEq, Repr

/-! ## Writing -/

namespace Writer

def trustedProxy (proxy : IpAddr × UInt8) : Writer :=
  writeAll [ip proxy.1, u8 proxy.2]

def commandFlood (flood : CommandFloodTerms) : Writer :=
  writeAll [u32 flood.burst, u32 flood.rate]

def edgeTerms (terms : EdgeTerms) : Writer :=
  writeAll
    [list "trusted proxies" terms.trustedProxies maxTrustedProxies trustedProxy,
      option terms.maxConnectionsPerIp u32, u32 terms.sendqBytes,
      option terms.commandFlood commandFlood, u32 terms.lineCredit]

def welcome (welcome : Welcome) : Writer :=
  writeAll
    [u16 welcome.version, u64 welcome.epoch, u16 welcome.slot.slot, u16 welcome.streams,
      edgeTerms welcome.terms]

def closeFrame (close : CloseFrame) : Writer :=
  writeAll [u16 close.code, text "close reason" close.reason maxCloseReasonLen]

end Writer

namespace CoreFrame

def header : CoreFrame → UInt8 × BitVec 64
  | welcome _ => (0x41, 0)
  | refused _ => (0x42, 0)
  | output session _ => (0x43, session.id)
  | kill session _ => (0x44, session.id)
  | ending session _ => (0x45, session.id)
  | floodExempt session _ => (0x46, session.id)
  | credit (.stream _) => (0x47, 0)
  | credit (.session session _) => (0x48, session.id)

def writePayload : CoreFrame → Writer
  | welcome terms => Writer.welcome terms
  | refused text => Writer.text "refusal" text maxRefusalLen
  | output _ line => bytes "output" line maxOutputLen
  | kill _ line => bytes "final line" line maxOutputLen
  | ending _ close => option close closeFrame
  | floodExempt _ exempt => bool exempt
  | credit (.stream amount) => u32 amount
  | credit (.session _ amount) => u32 amount

end CoreFrame

/-! ## Reading -/

/-- The longest prefix of a network with this address. -/
def widest : IpAddr → UInt8
  | .v4 _ => 32
  | .v6 _ => 128

namespace Reader

def trustedProxy : Reader (IpAddr × UInt8) := do
  let network ← ip "trusted proxy"
  let length ← u8 "trusted proxy prefix"
  if length ≤ widest network then pure (network, length)
  else throw (.invalid "trusted proxy prefix")

def commandFlood : Reader CommandFloodTerms := do
  let burst ← u32 "flood burst"
  let rate ← u32 "flood rate"
  pure ⟨burst, rate⟩

def edgeTerms : Reader EdgeTerms := do
  let trustedProxies ← list "trusted proxies" maxTrustedProxies trustedProxy
  let maxConnectionsPerIp ← option "connection limit" (u32 "connection limit")
  let sendqBytes ← u32 "send-queue bytes"
  let commandFlood ← option "command flood" commandFlood
  let lineCredit ← u32 "line credit"
  pure ⟨trustedProxies, maxConnectionsPerIp, sendqBytes, commandFlood, lineCredit⟩

def welcomeSlot : Reader Slot := do
  let slot ← u16 "slot"
  orFail (.invalid "slot") (Slot.new slot)

def streams : Reader (BitVec 16) := do
  let streams ← u16 "streams"
  if streams ≠ 0 ∧ streams.toNat ≤ maxStreams then pure streams else throw (.invalid "streams")

def welcome : Reader Welcome := do
  let version ← u16 "version"
  let epoch ← u64 "epoch"
  let slot ← welcomeSlot
  let streams ← streams
  let terms ← edgeTerms
  pure ⟨version, epoch, slot, streams, terms⟩

def closeFrame : Reader CloseFrame := do
  let code ← u16 "close code"
  let reason ← text "close reason" maxCloseReasonLen
  pure ⟨code, reason⟩

end Reader

namespace CoreFrame

def readPayload (kind : UInt8) (session : BitVec 64) : Reader CoreFrame :=
  select (.unknownKind kind)
    [(0x41, ofLink kind session welcome Reader.welcome),
      (0x42, ofLink kind session refused (Reader.text "refusal" maxRefusalLen)),
      (0x43, ofSession session output (Reader.bytes "output" maxOutputLen)),
      (0x44, ofSession session kill (Reader.bytes "final line" maxOutputLen)),
      (0x45, ofSession session ending (Reader.option "close frame" Reader.closeFrame)),
      (0x46, ofSession session floodExempt (Reader.bool "flood exemption")),
      (0x47, ofLink kind session (credit <| .stream ·) (Reader.u32 "credit")),
      (0x48, ofSession session (credit <| .session · ·) (Reader.u32 "credit"))] kind

end CoreFrame

instance : Frame CoreFrame where
  header := CoreFrame.header
  writePayload := CoreFrame.writePayload
  readPayload := CoreFrame.readPayload

/-! ## Read as written -/

/-- There are streams, no more than the most, and no proxy's prefix is longer than its
address. -/
def Welcome.Sound (welcome : Welcome) : Prop :=
  (welcome.streams ≠ 0 ∧ welcome.streams.toNat ≤ maxStreams) ∧
    ∀ proxy ∈ welcome.terms.trustedProxies, proxy.2 ≤ widest proxy.1

def CoreFrame.Sound : CoreFrame → Prop
  | .welcome terms => terms.Sound
  | _ => True

theorem spells_trustedProxy : Spells Reader.trustedProxy fun proxy part =>
    trustedProxy proxy = .ok part ∧ proxy.2 ≤ widest proxy.1 := by
  refine (spells_ip.bind fun network => spells_u8.bind fun length =>
    Spells.ite _ fun _ => Spells.pure (network, length)).congr fun proxy part => ?_
  constructor
  · rintro ⟨network, front, back, first, ⟨length, middle, last, second, ⟨within, rfl, rfl⟩, rfl⟩, rfl⟩
    exact ⟨by simp [trustedProxy, first, second], within⟩
  rintro ⟨written, within⟩
  obtain ⟨front, back, first, rest, rfl⟩ := writeAll_cons_eq_ok.mp written
  obtain ⟨middle, last, second, none, rfl⟩ := writeAll_cons_eq_ok.mp rest
  exact ⟨_, front, _, first, ⟨_, middle, last, second, ⟨within, rfl, by simpa using none⟩, rfl⟩,
    rfl⟩

theorem spells_commandFlood :
    Spells Reader.commandFlood fun flood part => commandFlood flood = .ok part := by
  refine Spells.congr (S := fun flood part => commandFlood flood = .ok part ∧
    (True ∧ True ∧ True) ∧ True) ?_ (by simp)
  refine .field CommandFloodTerms.burst spells_u32.plain fun burst =>
    .field CommandFloodTerms.rate spells_u32.plain fun rate => .done _ ?_
  rintro ⟨⟩
  simp

theorem spells_edgeTerms : Spells Reader.edgeTerms fun terms part =>
    edgeTerms terms = .ok part ∧
      ∀ proxy ∈ terms.trustedProxies, proxy.2 ≤ widest proxy.1 := by
  refine Spells.congr (S := fun terms part => edgeTerms terms = .ok part ∧
    ((∀ proxy ∈ terms.trustedProxies, proxy.2 ≤ widest proxy.1) ∧
      (∀ limit ∈ terms.maxConnectionsPerIp, True) ∧ True ∧
      (∀ flood ∈ terms.commandFlood, True) ∧ True ∧ True) ∧ True) ?_ (by simp)
  refine .field EdgeTerms.trustedProxies (spells_list (by decide) spells_trustedProxy)
      fun trustedProxies =>
    .field EdgeTerms.maxConnectionsPerIp (spells_option spells_u32.plain) fun limit =>
    .field EdgeTerms.sendqBytes spells_u32.plain fun sendqBytes =>
    .field EdgeTerms.commandFlood (spells_option spells_commandFlood.plain) fun flood =>
    .field EdgeTerms.lineCredit spells_u32.plain fun lineCredit => .done _ ?_
  rintro ⟨⟩
  simp [and_assoc]

theorem spells_welcomeSlot :
    Spells Reader.welcomeSlot fun slot part => u16 slot.slot = .ok part := by
  refine (spells_u16.bind fun id => spells_orFail _ _).congr fun slot part => ?_
  constructor
  · rintro ⟨id, front, back, written, ⟨valid, rfl⟩, rfl⟩
    obtain rfl := Slot.new_eq_some.mp valid
    simpa using written
  · intro written
    exact ⟨slot.slot, part, [], written, ⟨Slot.new_eq_some.mpr rfl, rfl⟩,
      (List.append_nil part).symm⟩

theorem spells_streams : Spells Reader.streams fun streams part =>
    u16 streams = .ok part ∧ streams ≠ 0 ∧ streams.toNat ≤ maxStreams := by
  refine (spells_u16.bind fun streams => Spells.ite _ fun _ => Spells.pure streams).congr
    fun streams part => ?_
  constructor
  · rintro ⟨_, front, back, written, ⟨within, rfl, rfl⟩, rfl⟩
    exact ⟨by simpa using written, within⟩
  · rintro ⟨written, within⟩
    exact ⟨streams, part, [], written, ⟨within, rfl, rfl⟩, (List.append_nil part).symm⟩

theorem spells_welcome :
    Spells Reader.welcome fun welcome part => Writer.welcome welcome = .ok part ∧ welcome.Sound := by
  refine Spells.congr (S := fun welcome part => Writer.welcome welcome = .ok part ∧
    (True ∧ True ∧ True ∧ (welcome.streams ≠ 0 ∧ welcome.streams.toNat ≤ maxStreams) ∧
      (∀ proxy ∈ welcome.terms.trustedProxies, proxy.2 ≤ widest proxy.1) ∧ True) ∧ True) ?_
    (by simp [Welcome.Sound])
  refine .field Welcome.version spells_u16.plain fun version =>
    .field Welcome.epoch spells_u64.plain fun epoch =>
    .field Welcome.slot spells_welcomeSlot.plain fun slot =>
    .field Welcome.streams spells_streams fun streams =>
    .field Welcome.terms spells_edgeTerms fun terms => .done _ ?_
  rintro ⟨⟩
  simp [and_assoc]

theorem spells_closeFrame :
    Spells Reader.closeFrame fun close part => closeFrame close = .ok part := by
  refine Spells.congr (S := fun close part => closeFrame close = .ok part ∧
    (True ∧ True ∧ True) ∧ True) ?_ (by simp)
  refine .field CloseFrame.code spells_u16.plain fun code =>
    .field CloseFrame.reason (spells_text (by decide)).plain fun reason => .done _ ?_
  rintro ⟨⟩
  simp

theorem CoreFrame.exact : ExactPayload CoreFrame CoreFrame.Sound := by
  intro kind session
  let S (frame : CoreFrame) (part : Bytes) : Prop :=
    frame.header.2 = session ∧ frame.writePayload = .ok part ∧ frame.Sound
  refine (spells_select (S := S) (fun frame => frame.header.1) ?_ ?_ kind).congr
    fun frame part => ?_
  · intro frame
    rcases frame with _ | _ | _ | _ | _ | _ | (_ | _) <;> simp [CoreFrame.header]
  · simp only [List.forall_mem_cons, List.not_mem_nil, false_implies, implies_true, and_true]
    refine ⟨(spells_ofLink kind session _ spells_welcome).congr ?_,
      (spells_ofLink kind session _ (spells_text (by decide)).plain).congr ?_,
      (spells_ofSession session _ (spells_bytes (by decide)).plain).congr ?_,
      (spells_ofSession session _ (spells_bytes (by decide)).plain).congr ?_,
      (spells_ofSession session _ (spells_option spells_closeFrame.plain)).congr ?_,
      (spells_ofSession session _ spells_bool.plain).congr ?_,
      (spells_ofLink kind session _ spells_u32.plain).congr ?_,
      (spells_ofSession session _ spells_u32.plain).congr ?_⟩
    all_goals
      intro frame part
      rcases frame with _ | _ | _ | _ | _ | _ | (_ | _) <;>
        simp [S, CoreFrame.header, CoreFrame.writePayload, CoreFrame.Sound]
  · simp only [S, Frame.header, Frame.writePayload, Prod.ext_iff, and_assoc]

end E6irc.Link
