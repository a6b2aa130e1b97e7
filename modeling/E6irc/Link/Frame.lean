import E6irc.Link.Wire
import E6irc.Proto.Message

/-!
# Frames

The frame of the core link (`e6irc-link/src/lib.rs`): `u32 length | u8 kind |
u64 session | payload`, and the types whose values keep their own bounds.

`decode_eq_some` reduces a direction's exactness to that of its payloads: what
`decode` takes off a buffer is what `encode` writes of a sound frame.
-/

namespace E6irc.Link

open Base List

def maxFrameLen : ℕ := 2 ^ 20

/-- The kind and the session, counted in the length word. -/
def kindAndSessionLen : ℕ := 1 + 8

/-- The longest client line, without its end. -/
def maxClientFrameLen : ℕ := maxClientTagsLen + maxLineLen - 2

def maxLabelLen : ℕ := maxClientTagsLen

def maxUiMessageLen : ℕ := maxClientFrameLen * 6 + 512

def maxOutputLen : ℕ := maxFrameLen - kindAndSessionLen - 4

def maxSlot : ℕ := 2 ^ 14 - 1

def maxStreams : ℕ := 256

/-! ## Values that keep their bounds -/

@[ext] structure VersionRange where
  oldest : BitVec 16
  newest : BitVec 16
  ordered : oldest ≤ newest
deriving DecidableEq, Repr

def VersionRange.new (oldest newest : BitVec 16) : Option VersionRange :=
  if ordered : oldest ≤ newest then some ⟨oldest, newest, ordered⟩ else none

/-- The connection a frame concerns. -/
@[ext] structure SessionId where
  id : BitVec 64
  nonzero : id ≠ 0
deriving DecidableEq, Repr

def SessionId.new (id : BitVec 64) : Option SessionId :=
  if nonzero : id ≠ 0 then some ⟨id, nonzero⟩ else none

def maxEdgeNameLen : ℕ := 63

/-- One DNS label. -/
def validEdgeName (name : Bytes) : Bool :=
  name ≠ [] ∧ name.length ≤ maxEdgeNameLen ∧ name.head? ≠ some (byte '-') ∧
    name.getLast? ≠ some (byte '-') ∧
    name.all fun b => (byte 'a' ≤ b && b ≤ byte 'z') || isAsciiDigit b || b == byte '-'

@[ext] structure EdgeName where
  name : Text
  valid : validEdgeName name.bytes = true
deriving DecidableEq, Repr

def EdgeName.new (name : Text) : Option EdgeName :=
  if valid : validEdgeName name.bytes = true then some ⟨name, valid⟩ else none

@[ext] structure Slot where
  slot : BitVec 16
  within : slot ≠ 0 ∧ slot.toNat ≤ maxSlot
deriving DecidableEq, Repr

def Slot.new (slot : BitVec 16) : Option Slot :=
  if within : slot ≠ 0 ∧ slot.toNat ≤ maxSlot then some ⟨slot, within⟩ else none

theorem VersionRange.new_eq_some {oldest newest : BitVec 16} {range : VersionRange} :
    VersionRange.new oldest newest = some range ↔
      range.oldest = oldest ∧ range.newest = newest := by
  refine dite_some_iff ?_ fun ordered => by rw [eq_comm, VersionRange.ext_iff]
  rintro ⟨rfl, rfl⟩
  exact range.ordered

theorem SessionId.new_eq_some {id : BitVec 64} {session : SessionId} :
    SessionId.new id = some session ↔ session.id = id :=
  dite_some_iff (fun same => same ▸ session.nonzero) fun _ => by rw [eq_comm, SessionId.ext_iff]

theorem EdgeName.new_eq_some {name : Text} {edge : EdgeName} :
    EdgeName.new name = some edge ↔ edge.name = name :=
  dite_some_iff (fun same => same ▸ edge.valid) fun _ => by rw [eq_comm, EdgeName.ext_iff]

theorem Slot.new_eq_some {id : BitVec 16} {slot : Slot} :
    Slot.new id = some slot ↔ slot.slot = id :=
  dite_some_iff (fun same => same ▸ slot.within) fun _ => by rw [eq_comm, Slot.ext_iff]

/-! ## Sessions -/

/-- The session a frame is about. -/
def sessionId (session : BitVec 64) : Reader SessionId :=
  orFail .missingSession (SessionId.new session)

/-- A frame about the link names no session. -/
def linkFrame (kind : UInt8) (session : BitVec 64) : Reader Unit :=
  if session = 0 then pure () else throw (.unexpectedSession kind)

section

variable {α β : Type}

/-- A frame about a session, with its payload. -/
def ofSession (session : BitVec 64) (make : SessionId → α → β) (read : Reader α) : Reader β := do
  let session ← sessionId session
  let payload ← read
  pure (make session payload)

/-- A frame about the link, with its payload. -/
def ofLink (kind : UInt8) (session : BitVec 64) (make : α → β) (read : Reader α) : Reader β := do
  linkFrame kind session
  let payload ← read
  pure (make payload)

theorem spells_sessionId (session : BitVec 64) :
    Spells (sessionId session) fun id part => id.id = session ∧ part = [] :=
  (spells_orFail _ _).congr fun id part => by rw [SessionId.new_eq_some]

theorem spells_linkFrame (kind : UInt8) (session : BitVec 64) :
    Spells (linkFrame kind session) fun _ part => 0 = session ∧ part = [] :=
  (Spells.ite _ fun _ => Spells.pure ()).congr fun _ part => by simp [eq_comm (a := session)]

variable {read : Reader α} {write : α → Writer} {P : α → Prop}

/-- What is settled without reading anything, before a payload. -/
theorem spells_checked {γ : Type} {check : Reader γ} {C : γ → Prop} (make : γ → α → β)
    (first : Spells check fun c part => C c ∧ part = [])
    (each : Spells read fun a part => write a = .ok part ∧ P a) :
    Spells (do let c ← check; let a ← read; pure (make c a)) fun frame part =>
      ∃ c a, C c ∧ frame = make c a ∧ write a = .ok part ∧ P a := by
  refine (first.bind fun c => each.bind fun a => Spells.pure (make c a)).congr fun frame part => ?_
  constructor
  · rintro ⟨c, front, back, ⟨holds, rfl⟩, ⟨a, middle, last, written, ⟨rfl, rfl⟩, rfl⟩, rfl⟩
    exact ⟨c, a, holds, rfl, by simpa using written⟩
  · rintro ⟨c, a, holds, rfl, written⟩
    exact ⟨c, [], part, ⟨holds, rfl⟩, ⟨a, part, [], written, ⟨rfl, rfl⟩, by simp⟩, rfl⟩

theorem spells_ofSession (session : BitVec 64) (make : SessionId → α → β)
    (each : Spells read fun a part => write a = .ok part ∧ P a) :
    Spells (ofSession session make read) fun frame part =>
      ∃ id a, id.id = session ∧ frame = make id a ∧ write a = .ok part ∧ P a :=
  spells_checked make (spells_sessionId session) each

theorem spells_ofLink (kind : UInt8) (session : BitVec 64) (make : α → β)
    (each : Spells read fun a part => write a = .ok part ∧ P a) :
    Spells (ofLink kind session make read) fun frame part =>
      0 = session ∧ ∃ a, frame = make a ∧ write a = .ok part ∧ P a :=
  (spells_checked (fun _ => make) (spells_linkFrame kind session) each).congr fun _ _ => by simp

end

/-! ## One direction's frames -/

class Frame (F : Type) where
  /-- The kind and the session, 0 for a frame about the link. -/
  header : F → UInt8 × BitVec 64
  writePayload : F → Writer
  readPayload : UInt8 → BitVec 64 → Reader F

open E6irc.Link.Frame

variable {F : Type} [Frame F]

/-- Append `frame` to `out`. -/
def encode (frame : F) (out : Bytes) : Except EncodeError Bytes := do
  let (kind, session) := header frame
  let payload ← writePayload frame
  let length := kindAndSessionLen + payload.length
  if maxFrameLen < length then .error (.overBound "frame" length maxFrameLen)
  else .ok (out ++ (bigEndian 4 length ++ kind :: (bigEndian 8 session.toNat ++ payload)))

/-- Take the first whole frame off `buffer`, if it holds one. -/
def decode (F : Type) [Frame F] (buffer : Bytes) : Except DecodeError (Option (F × Bytes)) :=
  if buffer.length < 4 then .ok none
  else
    let length := ofBigEndian (buffer.take 4)
    if length < kindAndSessionLen then .error (.shortFrame length)
    else if maxFrameLen < length then .error (.longFrame length)
    else if buffer.length < 4 + length then .ok none
    else
      let frame := (buffer.drop 4).take length
      let kind := frame.head?.getD 0
      let session := BitVec.ofNat 64 (ofBigEndian ((frame.drop 1).take 8))
      match readPayload kind session (frame.drop kindAndSessionLen) with
      | .error error => .error error
      | .ok (decoded, left) =>
        if left ≠ [] then .error (.trailingBytes left.length)
        else .ok (some (decoded, buffer.drop (4 + length)))

/-! ## Exactness -/

/-- The payloads are read as those of sound frames are written. -/
def ExactPayload (F : Type) [Frame F] (Sound : F → Prop) : Prop :=
  ∀ kind session, Spells (readPayload kind session) fun (frame : F) part =>
    header frame = (kind, session) ∧ writePayload frame = .ok part ∧ Sound frame

theorem encode_eq_ok {frame : F} {out text : Bytes} :
    encode frame out = .ok text ↔
      ∃ payload, writePayload frame = .ok payload ∧
        kindAndSessionLen + payload.length ≤ maxFrameLen ∧
        text = out ++ (bigEndian 4 (kindAndSessionLen + payload.length) ++
          (header frame).1 :: (bigEndian 8 (header frame).2.toNat ++ payload)) := by
  constructor
  · intro written
    obtain ⟨payload, isPayload, written⟩ := bind_eq_ok written
    dsimp only at written
    split at written
    · contradiction
    · rename_i within
      exact ⟨payload, isPayload, Nat.not_lt.mp within, (Except.ok.inj written).symm⟩
  · rintro ⟨payload, isPayload, within, rfl⟩
    simp only [encode, isPayload]
    exact if_neg (Nat.not_lt.mpr within)

variable {Sound : F → Prop}

/-- A frame as it stands on the wire. -/
def framed (kind : UInt8) (session : BitVec 64) (payload : Bytes) : Bytes :=
  bigEndian 4 (kindAndSessionLen + payload.length) ++ kind :: (bigEndian 8 session.toNat ++ payload)

theorem decode_framed {kind : UInt8} {session : BitVec 64} {payload rest : Bytes}
    (within : kindAndSessionLen + payload.length ≤ maxFrameLen) :
    decode F (framed kind session payload ++ rest) =
      match readPayload kind session payload with
      | .error error => .error error
      | .ok (decoded, left) =>
        if left ≠ [] then .error (.trailingBytes left.length) else .ok (some (decoded, rest)) := by
  have small : kindAndSessionLen + payload.length < 256 ^ 4 := Nat.lt_of_le_of_lt within (by decide)
  have whole : framed kind session payload ++ rest =
      bigEndian 4 (kindAndSessionLen + payload.length) ++
        ((kind :: (bigEndian 8 session.toNat ++ payload)) ++ rest) := by
    simp [framed]
  have body : (kind :: (bigEndian 8 session.toNat ++ payload)).length =
      kindAndSessionLen + payload.length := by
    simp [kindAndSessionLen]
    omega
  have length : ofBigEndian ((framed kind session payload ++ rest).take 4) =
      kindAndSessionLen + payload.length := by
    rw [whole, take_left' (length_bigEndian _ _), ofBigEndian_bigEndian small]
  have frame : ((framed kind session payload ++ rest).drop 4).take
      (kindAndSessionLen + payload.length) = kind :: (bigEndian 8 session.toNat ++ payload) := by
    rw [whole, drop_left' (length_bigEndian _ _), take_left' body]
  have behind : (framed kind session payload ++ rest).drop
      (4 + (kindAndSessionLen + payload.length)) = rest := by
    rw [← drop_drop, whole, drop_left' (length_bigEndian _ _), drop_left' body]
  have total : (framed kind session payload ++ rest).length =
      4 + (kindAndSessionLen + payload.length) + rest.length := by
    rw [whole, length_append, length_append, length_bigEndian, body]
    omega
  have name : BitVec.ofNat 64 (ofBigEndian (((kind ::
      (bigEndian 8 session.toNat ++ payload)).drop 1).take 8)) = session := by
    have fits : session.toNat < 256 ^ 8 := Nat.lt_of_lt_of_eq session.isLt (by decide)
    rw [drop_one, tail_cons, take_left' (length_bigEndian _ _),
      ofBigEndian_bigEndian fits, BitVec.ofNat_toNat, BitVec.setWidth_eq]
  have inside : (kind :: (bigEndian 8 session.toNat ++ payload)).drop kindAndSessionLen =
      payload := by
    simp [kindAndSessionLen, drop_left' (length_bigEndian _ _)]
  have atLeast : ¬ kindAndSessionLen + payload.length < kindAndSessionLen := by omega
  simp only [decode, length, frame, behind, name, inside, List.head?_cons, Option.getD_some]
  rw [if_neg (by omega), if_neg atLeast, if_neg (by omega), if_neg (by omega)]

/-- What holds a frame begins as one. -/
theorem framed_of_decode {buffer : Bytes} {result : F × Bytes}
    (decoded : decode F buffer = .ok (some result)) :
    ∃ kind session payload rest, kindAndSessionLen + payload.length ≤ maxFrameLen ∧
      buffer = framed kind session payload ++ rest := by
  unfold decode at decoded
  split at decoded
  · cases decoded
  rename_i four
  dsimp only at decoded
  generalize isLength : ofBigEndian (buffer.take 4) = length at decoded
  split at decoded
  · cases decoded
  split at decoded
  · cases decoded
  split at decoded
  · cases decoded
  rename_i atLeast atMost whole
  clear decoded
  have word : bigEndian 4 length = buffer.take 4 := by
    have exact := bigEndian_ofBigEndian (buffer.take 4)
    rwa [length_take_of_le (Nat.not_lt.mp four), isLength] at exact
  have held : ((buffer.drop 4).take length).length = length := by
    rw [length_take, length_drop]
    omega
  rw [kindAndSessionLen] at atLeast
  obtain ⟨kind, body, cut⟩ := exists_cons_of_ne_nil
    (ne_nil_of_length_pos (l := (buffer.drop 4).take length) (by omega))
  rw [cut, length_cons] at held
  have name : bigEndian 8 (BitVec.ofNat 64 (ofBigEndian (body.take 8))).toNat = body.take 8 := by
    have exact := bigEndian_ofBigEndian (body.take 8)
    have fits := ofBigEndian_lt (body.take 8)
    have eight : (body.take 8).length = 8 := length_take_of_le (by omega)
    rw [eight, show 256 ^ 8 = 2 ^ 64 by decide] at fits
    rw [eight] at exact
    rwa [BitVec.toNat_ofNat, Nat.mod_eq_of_lt fits]
  have payload : kindAndSessionLen + (body.drop 8).length = length := by
    rw [kindAndSessionLen, length_drop]
    omega
  refine ⟨kind, .ofNat 64 (ofBigEndian (body.take 8)), body.drop 8, (buffer.drop 4).drop length,
    by omega, ?_⟩
  rw [framed, name, payload, word, take_append_drop, ← cut, append_assoc,
    take_append_drop, take_append_drop]

/-- What is taken off a buffer is what is written of a sound frame. -/
theorem decode_eq_some (exact : ExactPayload F Sound) {buffer rest : Bytes} {frame : F} :
    decode F buffer = .ok (some (frame, rest)) ↔
      Sound frame ∧ ∃ bytes, encode frame [] = .ok bytes ∧ buffer = bytes ++ rest := by
  constructor
  · intro decoded
    obtain ⟨kind, session, payload, behind, within, rfl⟩ := framed_of_decode decoded
    rw [decode_framed within] at decoded
    split at decoded
    · cases decoded
    rename_i read
    split at decoded
    · cases decoded
    rename_i left finished
    obtain ⟨rfl, rfl⟩ : _ = frame ∧ behind = rest := by simpa using decoded
    obtain rfl := not_not.mp finished
    obtain ⟨part, ⟨headed, written, sound⟩, rfl⟩ := (exact kind session _ _ _).mp read
    refine ⟨sound, _, encode_eq_ok.mpr ⟨part, written, by simpa using within, rfl⟩, ?_⟩
    simp [framed, headed]
  · rintro ⟨sound, bytes, written, rfl⟩
    obtain ⟨payload, isPayload, within, rfl⟩ := encode_eq_ok.mp written
    have read : readPayload (header frame).1 (header frame).2 payload = .ok (frame, []) :=
      (exact _ _ _ _ _).mpr ⟨payload, ⟨rfl, isPayload, sound⟩, (append_nil _).symm⟩
    rw [nil_append]
    refine (decode_framed within).trans ?_
    rw [read]
    rfl

end E6irc.Link
