import E6irc.Link.Frame

/-!
# Frames from an edge to the core

`e6irc-link/src/edge_frames.rs`.  The reader refuses a stream index past the last
stream, and reads every listener's address without a flow label or a scope; the
writer looks at neither (`EdgeFrame.Sound`).
-/

namespace E6irc.Link

open Base Writer Spells

def maxListeners : ℕ := 64

def maxCertificatePathLen : ℕ := 4096

def maxClosedTextLen : ℕ := 512

inductive Role
  | serving | observer
deriving DecidableEq, Repr

inductive Stream
  | sessions (index : BitVec 16)
  | http
deriving DecidableEq, Repr

inductive ListenerKind
  | irc | webSocketIrc | http | attach
deriving DecidableEq, Repr

structure ListenerReport where
  kind : ListenerKind
  addr : SocketAddr
  certificate : Option Text
  proxyProtocol : Bool
deriving DecidableEq, Repr

structure Hello where
  versions : VersionRange
  role : Role
  edge : EdgeName
  stream : Stream
  slot : Option Slot
  highestEpoch : BitVec 64
  listeners : List ListenerReport
deriving DecidableEq, Repr

inductive SessionKind
  | irc | attach | ui
deriving DecidableEq, Repr

inductive Transport
  | tcp | tls | webSocket | secureWebSocket
deriving DecidableEq, Repr

structure Open where
  kind : SessionKind
  address : IpAddr
  transport : Transport
deriving DecidableEq, Repr

inductive UiMessage
  | text (text : Text)
  | binary
deriving DecidableEq, Repr

inductive WriteFailure
  | transport | stalled
deriving DecidableEq, Repr

inductive ClosedReason
  | byClient
  | readFailed (text : Text)
  | messageTooBig
  | writeFailed (failure : WriteFailure)
  | writerPanicked
  | stopped (text : Text)
deriving DecidableEq, Repr

inductive EdgeFrame
  | hello (hello : Hello)
  | opening (session : SessionId) (opening : Open)
  | line (session : SessionId) (line : Bytes)
  | overlongLine (session : SessionId) (label : Option Text)
  | message (session : SessionId) (message : UiMessage)
  | closed (session : SessionId) (reason : ClosedReason)
  | drained (session : SessionId) (bytes : BitVec 64)
deriving DecidableEq, Repr

/-! ## Writing -/

def Role.tag : Role → UInt8
  | .serving => 0
  | .observer => 1

def ListenerKind.tag : ListenerKind → UInt8
  | .irc => 0
  | .webSocketIrc => 1
  | .http => 2
  | .attach => 3

def SessionKind.tag : SessionKind → UInt8
  | .irc => 0
  | .attach => 1
  | .ui => 2

def Transport.tag : Transport → UInt8
  | .tcp => 0
  | .tls => 1
  | .webSocket => 2
  | .secureWebSocket => 3

def WriteFailure.tag : WriteFailure → UInt8
  | .transport => 0
  | .stalled => 1

namespace Writer

def versions (range : VersionRange) : Writer :=
  writeAll [u16 range.oldest, u16 range.newest]

def stream : Stream → Writer
  | .sessions index => writeAll [u8 0, u16 index]
  | .http => u8 1

def listener (listener : ListenerReport) : Writer :=
  writeAll
    [u8 listener.kind.tag, socket listener.addr,
      option listener.certificate fun path =>
        text "listener certificate" path maxCertificatePathLen,
      bool listener.proxyProtocol]

def hello (hello : Hello) : Writer :=
  writeAll
    [versions hello.versions, u8 hello.role.tag,
      text "edge name" hello.edge.name maxEdgeNameLen, stream hello.stream,
      u16 (hello.slot.elim 0 Slot.slot), u64 hello.highestEpoch,
      list "listeners" hello.listeners maxListeners listener]

def opening (opening : Open) : Writer :=
  writeAll [u8 opening.kind.tag, ip opening.address, u8 opening.transport.tag]

def uiMessage : UiMessage → Writer
  | .text message => writeAll [u8 0, text "message" message maxUiMessageLen]
  | .binary => u8 1

def closedReason : ClosedReason → Writer
  | .byClient => u8 0
  | .readFailed reason => writeAll [u8 1, text "read failure" reason maxClosedTextLen]
  | .messageTooBig => u8 2
  | .writeFailed failure => writeAll [u8 3, u8 failure.tag]
  | .writerPanicked => u8 4
  | .stopped reason => writeAll [u8 5, text "stop reason" reason maxClosedTextLen]

end Writer

namespace EdgeFrame

def header : EdgeFrame → UInt8 × BitVec 64
  | hello _ => (0x01, 0)
  | opening session _ => (0x02, session.id)
  | line session _ => (0x03, session.id)
  | overlongLine session _ => (0x04, session.id)
  | message session _ => (0x05, session.id)
  | closed session _ => (0x06, session.id)
  | drained session _ => (0x07, session.id)

def writePayload : EdgeFrame → Writer
  | hello greeting => Writer.hello greeting
  | opening _ opened => Writer.opening opened
  | line _ bytes => Writer.bytes "line" bytes maxClientFrameLen
  | overlongLine _ label => option label fun label => text "label" label maxLabelLen
  | message _ said => uiMessage said
  | closed _ reason => closedReason reason
  | drained _ bytes => u64 bytes

end EdgeFrame

/-! ## Reading -/

namespace Reader

def role : Reader Role := tag "role" [(0, .serving), (1, .observer)]

def streamIndex : Reader (BitVec 16) := do
  let index ← u16 "stream index"
  if index.toNat < maxStreams then pure index else throw (.invalid "stream index")

def stream : Reader Stream :=
  tagged "stream" [(0, .sessions <$> streamIndex), (1, pure .http)]

def slot : Reader (Option Slot) := do
  let slot ← u16 "slot"
  if slot = 0 then pure none else some <$> orFail (.invalid "slot") (Slot.new slot)

def listenerKind : Reader ListenerKind :=
  tag "listener kind" [(0, .irc), (1, .webSocketIrc), (2, .http), (3, .attach)]

def listener : Reader ListenerReport := do
  let kind ← listenerKind
  let addr ← socket "listener address"
  let certificate ← option "listener certificate"
    (text "listener certificate" maxCertificatePathLen)
  let proxyProtocol ← bool "listener PROXY protocol"
  pure ⟨kind, addr, certificate, proxyProtocol⟩

def versions : Reader VersionRange := do
  let oldest ← u16 "oldest version"
  let newest ← u16 "newest version"
  orFail (.invalid "version range") (VersionRange.new oldest newest)

def edgeName : Reader EdgeName := do
  let name ← text "edge name" maxEdgeNameLen
  orFail (.invalid "edge name") (EdgeName.new name)

def hello : Reader Hello := do
  let versions ← versions
  let role ← role
  let edge ← edgeName
  let stream ← stream
  let slot ← slot
  let highestEpoch ← u64 "highest epoch"
  let listeners ← list "listeners" maxListeners listener
  pure ⟨versions, role, edge, stream, slot, highestEpoch, listeners⟩

def sessionKind : Reader SessionKind :=
  tag "session kind" [(0, .irc), (1, .attach), (2, .ui)]

def transport : Reader Transport :=
  tag "transport" [(0, .tcp), (1, .tls), (2, .webSocket), (3, .secureWebSocket)]

def opening : Reader Open := do
  let kind ← sessionKind
  let address ← ip "client address"
  let transport ← transport
  pure ⟨kind, address, transport⟩

def uiMessage : Reader UiMessage :=
  tagged "message kind" [(0, .text <$> text "message" maxUiMessageLen), (1, pure .binary)]

def writeFailure : Reader WriteFailure :=
  tag "write failure" [(0, .transport), (1, .stalled)]

def closedReason : Reader ClosedReason :=
  tagged "closed reason"
    [(0, pure .byClient), (1, .readFailed <$> text "read failure" maxClosedTextLen),
      (2, pure .messageTooBig), (3, .writeFailed <$> writeFailure), (4, pure .writerPanicked),
      (5, .stopped <$> text "stop reason" maxClosedTextLen)]

end Reader

namespace EdgeFrame

def readPayload (kind : UInt8) (session : BitVec 64) : Reader EdgeFrame :=
  select (.unknownKind kind)
    [(0x01, ofLink kind session hello Reader.hello),
      (0x02, ofSession session opening Reader.opening),
      (0x03, ofSession session line (Reader.bytes "line" maxClientFrameLen)),
      (0x04, ofSession session overlongLine
        (Reader.option "label" (Reader.text "label" maxLabelLen))),
      (0x05, ofSession session message Reader.uiMessage),
      (0x06, ofSession session closed Reader.closedReason),
      (0x07, ofSession session drained (Reader.u64 "drained bytes"))] kind

end EdgeFrame

instance : Frame EdgeFrame where
  header := EdgeFrame.header
  writePayload := EdgeFrame.writePayload
  readPayload := EdgeFrame.readPayload

/-! ## Read as written -/

/-- A stream index names a stream. -/
def Stream.Sound : Stream → Prop
  | .sessions index => index.toNat < maxStreams
  | .http => True

/-- The stream is one, and no listener's address has more than a port. -/
def Hello.Sound (hello : Hello) : Prop :=
  hello.stream.Sound ∧ ∀ listener ∈ hello.listeners, listener.addr.Plain

def EdgeFrame.Sound : EdgeFrame → Prop
  | .hello greeting => greeting.Sound
  | _ => True

theorem spells_streamIndex : Spells Reader.streamIndex fun index part =>
    u16 index = .ok part ∧ index.toNat < maxStreams := by
  refine (spells_u16.bind fun index => Spells.ite _ fun _ => Spells.pure index).congr
    fun index part => ?_
  constructor
  · rintro ⟨_, front, back, written, ⟨within, rfl, rfl⟩, rfl⟩
    exact ⟨by simpa using written, within⟩
  · rintro ⟨written, within⟩
    exact ⟨index, part, [], written, ⟨within, rfl, rfl⟩, (List.append_nil part).symm⟩

theorem spells_stream :
    Spells Reader.stream fun stream part => Writer.stream stream = .ok part ∧ stream.Sound := by
  let tag : Stream → UInt8
    | .sessions _ => 0
    | .http => 1
  let body : Stream → Writer
    | .sessions index => u16 index
    | .http => .ok []
  refine (spells_tagged tag body Stream.Sound (fun stream => by cases stream <;> simp [tag])
    ?_).congr fun stream part => ?_
  · refine List.forall_mem_cons.mpr ⟨?_, List.forall_mem_singleton.mpr ?_⟩
    · refine (spells_streamIndex.map Stream.sessions).congr fun stream part => ?_
      cases stream <;> simp [tag, body, Stream.Sound]
    · refine (Spells.pure Stream.http).congr fun stream part => ?_
      cases stream <;> simp [tag, body, Stream.Sound, eq_comm]
  · cases stream with
    | sessions index => rfl
    | http => rfl

theorem spells_versions :
    Spells Reader.versions fun range part => versions range = .ok part := by
  refine congr (S := fun range part => versions range = .ok part ∧
    (True ∧ True ∧ True) ∧ True) ?_ (by simp)
  refine .field VersionRange.oldest spells_u16.plain fun oldest =>
    .field VersionRange.newest spells_u16.plain fun newest => ?_
  refine (spells_orFail _ _).congr fun range part => ?_
  rw [VersionRange.new_eq_some, writeAll_nil_eq_ok]
  simp [and_comm]

theorem spells_role : Spells Reader.role fun role part => u8 role.tag = .ok part :=
  spells_tag (fun role => by cases role <;> decide) (by decide) (by decide)

theorem spells_edgeName : Spells Reader.edgeName fun edge part =>
    text "edge name" edge.name maxEdgeNameLen = .ok part := by
  refine ((spells_text (by decide)).bind fun name => spells_orFail _ _).congr fun edge part => ?_
  constructor
  · rintro ⟨name, front, back, written, ⟨valid, rfl⟩, rfl⟩
    obtain rfl := EdgeName.new_eq_some.mp valid
    simpa using written
  · intro written
    exact ⟨edge.name, part, [], written, ⟨EdgeName.new_eq_some.mpr rfl, rfl⟩,
      (List.append_nil part).symm⟩

theorem spells_slot : Spells Reader.slot fun slot part =>
    u16 (slot.elim 0 Slot.slot) = .ok part := by
  have meaning (id : BitVec 16) : Spells
      (if id = 0 then pure none else some <$> orFail (.invalid "slot") (Slot.new id) :
        Reader (Option Slot)) fun slot part => slot.elim 0 Slot.slot = id ∧ part = [] := by
    split
    · rename_i zero
      refine (Spells.pure none).congr fun slot part => and_congr_left' ?_
      cases slot with
      | none => simp [zero]
      | some slot => simpa [zero] using slot.within.1
    · rename_i nonzero
      refine ((spells_orFail _ _).map some).congr fun slot part => ?_
      cases slot with
      | none => exact iff_of_false (fun ⟨_, _, no⟩ => nomatch no) fun both => nonzero both.1.symm
      | some slot => simp [Slot.new_eq_some]
  refine (spells_u16.bind meaning).congr fun slot part => ?_
  constructor
  · rintro ⟨_, front, back, written, ⟨rfl, rfl⟩, rfl⟩
    simpa using written
  · intro written
    exact ⟨_, part, [], written, ⟨rfl, rfl⟩, (List.append_nil part).symm⟩

theorem spells_listenerKind :
    Spells Reader.listenerKind fun kind part => u8 kind.tag = .ok part :=
  spells_tag (fun kind => by cases kind <;> decide) (by decide) (by decide)

theorem spells_optionText {field field' : String} {bound : ℕ} (fits : bound < 2 ^ 32) :
    Spells (Reader.option field (Reader.text field' bound)) fun value part =>
      Writer.option value (fun text => Writer.text field' text bound) = .ok part :=
  (spells_option (spells_text fits).plain).congr fun value part => by simp

theorem spells_listener : Spells Reader.listener fun listener part =>
    Writer.listener listener = .ok part ∧ listener.addr.Plain := by
  refine congr (S := fun listener part => Writer.listener listener = .ok part ∧
    (True ∧ listener.addr.Plain ∧ True ∧ True ∧ True) ∧ True) ?_ (by simp)
  refine .field ListenerReport.kind spells_listenerKind.plain fun kind =>
    .field ListenerReport.addr spells_socket fun addr =>
    .field ListenerReport.certificate (spells_optionText (by decide)).plain fun certificate =>
    .field ListenerReport.proxyProtocol spells_bool.plain fun proxyProtocol => .done _ ?_
  rintro ⟨⟩
  simp [and_assoc]

theorem spells_hello :
    Spells Reader.hello fun hello part => Writer.hello hello = .ok part ∧ hello.Sound := by
  refine congr (S := fun hello part => Writer.hello hello = .ok part ∧
    (True ∧ True ∧ True ∧ hello.stream.Sound ∧ True ∧ True ∧
      (∀ listener ∈ hello.listeners, listener.addr.Plain) ∧ True) ∧ True) ?_
    (by simp [Hello.Sound])
  refine .field Hello.versions spells_versions.plain fun versions =>
    .field Hello.role spells_role.plain fun role =>
    .field Hello.edge spells_edgeName.plain fun edge =>
    .field Hello.stream spells_stream fun stream =>
    .field Hello.slot spells_slot.plain fun slot =>
    .field Hello.highestEpoch spells_u64.plain fun highestEpoch =>
    .field Hello.listeners (spells_list (by decide) spells_listener) fun listeners => .done _ ?_
  rintro ⟨⟩
  simp [and_assoc]

theorem spells_sessionKind :
    Spells Reader.sessionKind fun kind part => u8 kind.tag = .ok part :=
  spells_tag (fun kind => by cases kind <;> decide) (by decide) (by decide)

theorem spells_transport :
    Spells Reader.transport fun transport part => u8 transport.tag = .ok part :=
  spells_tag (fun transport => by cases transport <;> decide) (by decide) (by decide)

theorem spells_opening :
    Spells Reader.opening fun opening part => Writer.opening opening = .ok part := by
  refine congr (S := fun opening part => Writer.opening opening = .ok part ∧
    (True ∧ True ∧ True ∧ True) ∧ True) ?_ (by simp)
  refine .field Open.kind spells_sessionKind.plain fun kind =>
    .field Open.address spells_ip.plain fun address =>
    .field Open.transport spells_transport.plain fun transport => .done _ ?_
  rintro ⟨⟩
  simp [and_assoc]

theorem spells_uiMessage :
    Spells Reader.uiMessage fun message part => uiMessage message = .ok part := by
  let tag : UiMessage → UInt8
    | .text _ => 0
    | .binary => 1
  let body : UiMessage → Writer
    | .text text => Writer.text "message" text maxUiMessageLen
    | .binary => .ok []
  refine (spells_tagged tag body (fun _ => True) (fun message => by cases message <;> simp [tag])
    ?_).congr fun message part => ?_
  · refine List.forall_mem_cons.mpr ⟨?_, List.forall_mem_singleton.mpr ?_⟩
    · refine ((spells_text (by decide)).map UiMessage.text).congr fun message part => ?_
      cases message <;> simp [tag, body]
    · refine (Spells.pure UiMessage.binary).congr fun message part => ?_
      cases message <;> simp [tag, body, eq_comm]
  · cases message with
    | text text | binary => exact and_iff_left trivial

theorem spells_writeFailure :
    Spells Reader.writeFailure fun failure part => u8 failure.tag = .ok part :=
  spells_tag (fun failure => by cases failure <;> decide) (by decide) (by decide)

theorem spells_closedReason :
    Spells Reader.closedReason fun reason part => closedReason reason = .ok part := by
  let tag : ClosedReason → UInt8
    | .byClient => 0
    | .readFailed _ => 1
    | .messageTooBig => 2
    | .writeFailed _ => 3
    | .writerPanicked => 4
    | .stopped _ => 5
  let body : ClosedReason → Writer
    | .readFailed text => Writer.text "read failure" text maxClosedTextLen
    | .writeFailed failure => u8 failure.tag
    | .stopped text => Writer.text "stop reason" text maxClosedTextLen
    | _ => .ok []
  refine (spells_tagged tag body (fun _ => True) (fun reason => by cases reason <;> simp [tag])
    ?_).congr fun reason part => ?_
  · simp only [List.forall_mem_cons, List.not_mem_nil, false_implies, implies_true, and_true]
    refine ⟨(Spells.pure _).congr ?_, ((spells_text (by decide)).map _).congr ?_,
      (Spells.pure _).congr ?_, (spells_writeFailure.map _).congr ?_, (Spells.pure _).congr ?_,
      ((spells_text (by decide)).map _).congr ?_⟩
    all_goals
      intro reason part
      cases reason <;> simp [tag, body, eq_comm]
  · cases reason <;> exact and_iff_left trivial

theorem EdgeFrame.exact : ExactPayload EdgeFrame EdgeFrame.Sound := by
  intro kind session
  let S (frame : EdgeFrame) (part : Bytes) : Prop :=
    frame.header.2 = session ∧ frame.writePayload = .ok part ∧ frame.Sound
  refine (spells_select (S := S) (fun frame => frame.header.1) ?_ ?_ kind).congr
    fun frame part => ?_
  · intro frame
    cases frame <;> simp [EdgeFrame.header]
  · simp only [List.forall_mem_cons, List.not_mem_nil, false_implies, implies_true, and_true]
    refine ⟨(spells_ofLink kind session _ spells_hello).congr ?_,
      (spells_ofSession session _ spells_opening.plain).congr ?_,
      (spells_ofSession session _ (spells_bytes (by decide)).plain).congr ?_,
      (spells_ofSession session _ (spells_optionText (by decide)).plain).congr ?_,
      (spells_ofSession session _ spells_uiMessage.plain).congr ?_,
      (spells_ofSession session _ spells_closedReason.plain).congr ?_,
      (spells_ofSession session _ spells_u64.plain).congr ?_⟩
    all_goals
      intro frame part
      cases frame <;> simp [S, EdgeFrame.header, EdgeFrame.writePayload, EdgeFrame.Sound]
  · simp only [S, Frame.header, Frame.writePayload, Prod.ext_iff, and_assoc]

end E6irc.Link
