import E6irc.Base.Taker
import E6irc.Link.CoreFrames
import E6irc.Link.EdgeFrames

/-!
# Both directions of the link

What a peer decodes is exactly what an encoder wrote, and a frame of one direction
is none of the other.  An encoder may write more than that: a frame that is not
sound is written and then refused, or read as another.
-/

namespace E6irc.Link

open Base CoreFrame

variable {F : Type} [Frame F] {frame : F} {out bytes text : Bytes}

theorem encode_append (written : encode frame [] = .ok bytes) (out : Bytes) :
    encode frame out = .ok (out ++ bytes) := by
  obtain ⟨payload, isPayload, within, rfl⟩ := encode_eq_ok.mp written
  exact encode_eq_ok.mpr ⟨payload, isPayload, within, rfl⟩

theorem exists_of_encode (written : encode frame out = .ok text) :
    ∃ bytes, encode frame [] = .ok bytes ∧ text = out ++ bytes := by
  obtain ⟨payload, isPayload, within, rfl⟩ := encode_eq_ok.mp written
  exact ⟨_, encode_eq_ok.mpr ⟨payload, isPayload, within, rfl⟩, rfl⟩

variable {Sound : F → Prop}

theorem decodes_iff_sound (exact : ExactPayload F Sound) (written : encode frame out = .ok text) :
    ∃ bytes, text = out ++ bytes ∧
      ((∀ rest, decode F (bytes ++ rest) = .ok (some (frame, rest))) ↔ Sound frame) := by
  obtain ⟨bytes, alone, rfl⟩ := exists_of_encode written
  refine ⟨bytes, rfl, fun decodes => ?_, fun sound rest => ?_⟩
  · exact ((decode_eq_some exact).mp (decodes [])).1
  · exact (decode_eq_some exact).mpr ⟨sound, bytes, alone, rfl⟩

theorem encodes_of_decode (exact : ExactPayload F Sound) {buffer rest : Bytes}
    (decoded : decode F buffer = .ok (some (frame, rest))) :
    ∃ bytes, buffer = bytes ++ rest ∧ ∀ out, encode frame out = .ok (out ++ bytes) := by
  obtain ⟨-, bytes, written, rfl⟩ := (decode_eq_some exact).mp decoded
  exact ⟨bytes, rfl, encode_append written⟩

/-- The fifth byte is the kind. -/
theorem kind_of_decode (exact : ExactPayload F Sound) {buffer rest : Bytes}
    (decoded : decode F buffer = .ok (some (frame, rest))) :
    buffer[4]? = some (Frame.header frame).1 := by
  obtain ⟨-, bytes, written, rfl⟩ := (decode_eq_some exact).mp decoded
  obtain ⟨payload, -, -, rfl⟩ := encode_eq_ok.mp written
  rw [List.nil_append, List.append_assoc, List.getElem?_append_right (by simp)]
  simp

theorem EdgeFrame.kind_lt (frame : EdgeFrame) : frame.header.1 < 0x40 := by
  cases frame <;> simp [EdgeFrame.header]

theorem CoreFrame.le_kind (frame : CoreFrame) : 0x40 ≤ frame.header.1 := by
  rcases frame with _ | _ | _ | _ | _ | _ | (_ | _) <;> simp [header]

/-- A frame that is written decodes to itself, and takes exactly the bytes written,
if and only if it is sound. -/
theorem decodes_to_itself_iff_sound (out text : Bytes) :
    (∀ frame : EdgeFrame, encode frame out = .ok text →
      ∃ bytes, text = out ++ bytes ∧
        ((∀ rest, decode EdgeFrame (bytes ++ rest) = .ok (some (frame, rest))) ↔ frame.Sound)) ∧
    ∀ frame : CoreFrame, encode frame out = .ok text →
      ∃ bytes, text = out ++ bytes ∧
        ((∀ rest, decode CoreFrame (bytes ++ rest) = .ok (some (frame, rest))) ↔ frame.Sound) :=
  ⟨fun _ written => decodes_iff_sound EdgeFrame.exact written,
    fun _ written => decodes_iff_sound exact written⟩

def edgeHello (stream : Stream) (listeners : List ListenerReport) : EdgeFrame :=
  .hello
    { versions := ⟨1, 1, by decide⟩
      role := .serving
      edge := ⟨⟨ascii "edge", by decide⟩, by decide⟩
      stream
      slot := none
      highestEpoch := 0
      listeners }

def coreWelcome (streams : BitVec 16) (proxies : List (IpAddr × UInt8)) : CoreFrame :=
  .welcome
    { version := 1
      epoch := 7
      slot := ⟨3, by decide⟩
      streams
      terms := ⟨proxies, none, 65536, none, 1024⟩ }

/-- A listener on `[fe80::1%2]:6667`. -/
def scopedListener : ListenerReport :=
  ⟨.irc, .v6 0xfe800000000000000000000000000001 6667 0 2, none, false⟩

theorem decodes_to_itself_of_hello_and_welcome :
    (∃ bytes, encode (edgeHello (.sessions 255) []) [] = .ok bytes ∧
      ∀ rest, decode EdgeFrame (bytes ++ rest) = .ok (some (edgeHello (.sessions 255) [], rest))) ∧
    ∃ bytes, encode (coreWelcome 256 [(.v4 0, 32)]) [] = .ok bytes ∧
      ∀ rest, decode CoreFrame (bytes ++ rest) =
        .ok (some (coreWelcome 256 [(.v4 0, 32)], rest)) := by
  constructor
  · have written : encode (edgeHello (.sessions 255) []) [] = .ok _ := rfl
    obtain ⟨bytes, rfl, exactly⟩ := (decodes_to_itself_iff_sound _ _).1 _ written
    have named : (255 : BitVec 16).toNat < maxStreams := by decide
    exact ⟨_, written, exactly.mpr ⟨named, by decide⟩⟩
  · have written : encode (coreWelcome 256 [(.v4 0, 32)]) [] = .ok _ := rfl
    obtain ⟨bytes, rfl, exactly⟩ := (decodes_to_itself_iff_sound _ _).2 _ written
    exact ⟨_, written, exactly.mpr ⟨by decide, by decide⟩⟩

/-- Frames that are written and refused by the peer, and one that it reads as another:
a stream past the last, no streams, a prefix of 33 bits, an address with a scope. -/
theorem written_and_not_read_back :
    (∃ bytes, encode (edgeHello (.sessions 256) []) [] = .ok bytes ∧
      decode EdgeFrame bytes = .error (.invalid "stream index")) ∧
    (∃ bytes, encode (coreWelcome 0 []) [] = .ok bytes ∧
      decode CoreFrame bytes = .error (.invalid "streams")) ∧
    (∃ bytes, encode (coreWelcome 1 [(.v4 0, 33)]) [] = .ok bytes ∧
      decode CoreFrame bytes = .error (.invalid "trusted proxy prefix")) ∧
    ∃ bytes other, encode (edgeHello .http [scopedListener]) [] = .ok bytes ∧
      decode EdgeFrame bytes = .ok (some (other, [])) ∧ other ≠ edgeHello .http [scopedListener] := by
  refine ⟨⟨_, rfl, rfl⟩, ⟨_, rfl, rfl⟩, ⟨_, rfl, rfl⟩, ?_⟩
  refine ⟨_, edgeHello .http [{ scopedListener with
    addr := .v6 0xfe800000000000000000000000000001 6667 0 0 }], rfl, rfl, by decide⟩

/-- Whatever decodes is written back as the very bytes it was read from, and decodes
in one direction only. -/
theorem decoded_is_what_is_encoded :
    (∀ (buffer rest : Bytes) (frame : EdgeFrame),
      decode EdgeFrame buffer = .ok (some (frame, rest)) →
        ∃ bytes, buffer = bytes ++ rest ∧ ∀ out, encode frame out = .ok (out ++ bytes)) ∧
    (∀ (buffer rest : Bytes) (frame : CoreFrame),
      decode CoreFrame buffer = .ok (some (frame, rest)) →
        ∃ bytes, buffer = bytes ++ rest ∧ ∀ out, encode frame out = .ok (out ++ bytes)) ∧
    ∀ (buffer : Bytes) (edge : EdgeFrame × Bytes) (core : CoreFrame × Bytes),
      decode EdgeFrame buffer = .ok (some edge) → decode CoreFrame buffer ≠ .ok (some core) := by
  refine ⟨fun _ _ _ => encodes_of_decode EdgeFrame.exact,
    fun _ _ _ => encodes_of_decode exact, fun buffer edge core asEdge asCore => ?_⟩
  have same := (kind_of_decode EdgeFrame.exact asEdge).symm.trans
    (kind_of_decode exact asCore)
  have small := EdgeFrame.kind_lt edge.1
  rw [show edge.1.header.1 = core.1.header.1 from Option.some.inj same] at small
  exact absurd (le_kind core.1) (not_le.mpr small)

theorem decoded_is_what_is_encoded_of_credit :
    decode CoreFrame (ascii "\x00\x00\x00\x0d\x47\x00\x00\x00\x00\x00\x00\x00\x00\x00\x00\x00\x05") =
      .ok (some (.credit (.stream 5), [])) ∧
    ∃ bytes, ∀ out, encode (credit (.stream 5)) out = .ok (out ++ bytes) := by
  have decoded : decode CoreFrame
      (ascii "\x00\x00\x00\x0d\x47\x00\x00\x00\x00\x00\x00\x00\x00\x00\x00\x00\x05") =
      .ok (some (.credit (.stream 5), [])) := rfl
  obtain ⟨bytes, -, written⟩ := decoded_is_what_is_encoded.2.1 _ _ _ decoded
  exact ⟨decoded, bytes, written⟩

/-! ## The frames of a stream -/

/-- What is decided of a buffer is decided by its first frame. -/
theorem decode_append {buffer : Bytes} (more : Bytes) (decided : decode F buffer ≠ .ok none) :
    decode F (buffer ++ more) = (decode F buffer).map (Option.map (Prod.map id (· ++ more))) := by
  unfold decode at decided ⊢
  by_cases short : buffer.length < 4
  · rw [if_pos short] at decided
    contradiction
  rw [if_neg short] at decided ⊢
  rw [if_neg (by rw [List.length_append]; omega), List.take_append_of_le_length (by omega)]
  dsimp only at decided ⊢
  split_ifs at decided ⊢ with tooShort tooLong within whole whole
  · rfl
  · rfl
  · contradiction
  · rw [List.length_append] at within
    omega
  · contradiction
  rw [List.drop_append_of_le_length (by omega), List.drop_append_of_le_length (by omega),
    List.take_append_of_le_length (by rw [List.length_drop]; omega)]
  split
  · rfl
  · split_ifs <;> rfl

theorem length_lt_of_decode {buffer rest : Bytes}
    (decoded : decode F buffer = .ok (some (frame, rest))) : rest.length < buffer.length := by
  obtain ⟨kind, session, payload, behind, within, rfl⟩ := framed_of_decode decoded
  rw [decode_framed within] at decoded
  split at decoded
  · cases decoded
  split at decoded
  · cases decoded
  cases decoded
  simp [framed]
  omega

/-- The reader of one direction. -/
def decoder (F : Type) [Frame F] : Taker UInt8 DecodeError F where
  take := decode F
  shorter := length_lt_of_decode
  item more decoded := by rw [decode_append more (by simp [decoded]), decoded]; rfl
  error more decoded := by rw [decode_append more (by simp [decoded]), decoded]; rfl

/-- However a stream is cut into chunks, the frames read of them, the error that ends
them and what is left undecoded are those of the whole stream. -/
theorem chunks_are_read_as_the_stream (chunks : List Bytes) :
    (decoder EdgeFrame).feed [] chunks = (decoder EdgeFrame).drain chunks.flatten ∧
    (decoder CoreFrame).feed [] chunks = (decoder CoreFrame).drain chunks.flatten :=
  ⟨Taker.feed_eq rfl chunks, Taker.feed_eq rfl chunks⟩

/-! ## A stream of frames, written and read -/

/-- The bytes `write_frames` writes, behind those written before. -/
def writeFrames (frames : List F) (out : Bytes) : Except EncodeError Bytes :=
  frames.foldlM (fun out frame => encode frame out) out

theorem writeFrames_cons {frames : List F} :
    writeFrames (frame :: frames) out = .ok text ↔
      ∃ bytes, encode frame [] = .ok bytes ∧ writeFrames frames (out ++ bytes) = .ok text := by
  rw [writeFrames, List.foldlM_cons]
  constructor
  · intro written
    obtain ⟨_, first, written⟩ := bind_eq_ok written
    obtain ⟨bytes, alone, rfl⟩ := exists_of_encode first
    exact ⟨bytes, alone, written⟩
  · rintro ⟨bytes, alone, written⟩
    rw [encode_append alone]
    exact written

theorem out_prefix_writeFrames {frames : List F} (written : writeFrames frames out = .ok text) :
    out <+: text := by
  induction frames generalizing out with
  | nil =>
    cases written
    exact List.prefix_rfl
  | cons frame frames ih =>
    obtain ⟨bytes, -, written⟩ := writeFrames_cons.mp written
    exact (List.prefix_append out bytes).trans (ih written)

theorem drain_eq_iff (exact : ExactPayload F Sound) {frames : List F} {stream : Bytes} :
    (decoder F).drain stream = (frames, .ok []) ↔
      (∀ frame ∈ frames, Sound frame) ∧ writeFrames frames out = .ok (out ++ stream) := by
  induction frames generalizing out stream with
  | nil =>
    rw [Taker.drain_eq_nil]
    constructor
    · rintro ⟨-, rfl⟩
      simp [writeFrames, pure, Except.pure]
    · rintro ⟨-, written⟩
      cases List.self_eq_append_right.mp (Except.ok.inj written)
      exact ⟨rfl, rfl⟩
  | cons frame frames ih =>
    rw [Taker.drain_eq_cons, List.forall_mem_cons, writeFrames_cons]
    constructor
    · rintro ⟨rest, taken, drained⟩
      obtain ⟨sound, bytes, alone, rfl⟩ := (decode_eq_some exact).mp taken
      obtain ⟨sounds, later⟩ := (@ih (out ++ bytes) rest).mp drained
      exact ⟨⟨sound, sounds⟩, bytes, alone, by rw [later, List.append_assoc]⟩
    · rintro ⟨⟨sound, sounds⟩, bytes, alone, later⟩
      obtain ⟨rest, rfl⟩ := (List.prefix_append_right_inj out).mp (out_prefix_writeFrames later)
      rw [← List.append_assoc] at later
      exact ⟨rest, (decode_eq_some exact).mpr ⟨sound, bytes, alone, rfl⟩, ih.mpr ⟨sounds, later⟩⟩

/-- A stream, however it is cut, is read as exactly these frames with nothing left if
and only if they are sound and it is what `write_frames` writes of them. -/
theorem read_as_written_iff (chunks : List Bytes) :
    (∀ frames : List EdgeFrame, (decoder EdgeFrame).feed [] chunks = (frames, .ok []) ↔
      (∀ frame ∈ frames, frame.Sound) ∧ writeFrames frames [] = .ok chunks.flatten) ∧
    ∀ frames : List CoreFrame, (decoder CoreFrame).feed [] chunks = (frames, .ok []) ↔
      (∀ frame ∈ frames, frame.Sound) ∧ writeFrames frames [] = .ok chunks.flatten := by
  constructor <;> intro frames <;> rw [Taker.feed_eq rfl]
  · exact drain_eq_iff EdgeFrame.exact
  · exact drain_eq_iff exact

end E6irc.Link
