import E6irc.Base.Bytes
import E6irc.Base.Run

/-!
# Base64

`e6irc-proto/src/base64.rs`: standard base64 with padding.  Decoding is strict; what
`encode` writes it reads back.
-/

namespace E6irc.Base64

open Base List Option

def alphabet : Bytes :=
  ascii "ABCDEFGHIJKLMNOPQRSTUVWXYZabcdefghijklmnopqrstuvwxyz0123456789+/"

def symbol (v : ℕ) : UInt8 :=
  alphabet[v % 64]?.getD 0

/-- One chunk of at most three bytes. -/
def encodeChunk (chunk : Bytes) : Bytes :=
  let b (i : ℕ) := (chunk[i]?.getD 0).toNat
  let n := b 0 * 65536 + b 1 * 256 + b 2
  [symbol (n / 262144), symbol (n / 4096), symbol (n / 64), symbol n].take (chunk.length + 1) ++
    List.replicate (3 - chunk.length) (byte '=')

def encode : Bytes → Bytes
  | [] => []
  | [a] => encodeChunk [a]
  | [a, b] => encodeChunk [a, b]
  | a :: b :: c :: rest => encodeChunk [a, b, c] ++ encode rest

/-- The six bits of a symbol. -/
def value (c : UInt8) : Option ℕ :=
  if byte 'A' ≤ c ∧ c ≤ byte 'Z' then some (c.toNat - 65)
  else if byte 'a' ≤ c ∧ c ≤ byte 'z' then some (c.toNat - 97 + 26)
  else if byte '0' ≤ c ∧ c ≤ byte '9' then some (c.toNat - 48 + 52)
  else if c = byte '+' then some 62
  else if c = byte '/' then some 63
  else none

/-- The bits of the symbol at `j`, where the last `pad` are padding. -/
def sextet (pad j : ℕ) (c : UInt8) : Option ℕ :=
  match value c with
  | some v => some v
  | none => if c = byte '=' ∧ 4 - pad ≤ j then some 0 else none

/-- One group of four symbols; only the last may be padded, and the bits it discards
must be zero. -/
def decodeChunk (last : Bool) (chunk : Bytes) : Option Bytes := do
  let pad := chunk.count (byte '=')
  guard ¬ (2 < pad ∨ (0 < pad ∧ last = false))
  let n ← chunk.zipIdx.foldlM (fun n (c, j) => (sextet pad j c).map (n * 64 + ·)) 0
  guard ¬ ((pad = 1 ∧ n % 256 ≠ 0) ∨ (pad = 2 ∧ n % 65536 ≠ 0))
  some ([.ofNat (n / 65536), .ofNat (n / 256), .ofNat n].take (3 - pad))

def decodeGroups : Bytes → Option Bytes
  | [] => some []
  | a :: b :: c :: d :: rest => do
    let first ← decodeChunk rest.isEmpty [a, b, c, d]
    let more ← decodeGroups rest
    some (first ++ more)
  | _ => none

def decode (text : Bytes) : Option Bytes :=
  if text.length % 4 = 0 then decodeGroups text else none

/-! ## Round trip -/

theorem value_symbol (v : ℕ) : value (symbol v) = some (v % 64) := by
  have each : ∀ i : Fin 64, value (alphabet[i.val]?.getD 0) = some i.val := by
    decide +kernel
  exact each ⟨v % 64, Nat.mod_lt _ (by decide)⟩

theorem symbol_ne_pad (v : ℕ) : symbol v ≠ byte '=' := by
  intro same
  have known := value_symbol v
  rw [same] at known
  cases known

theorem sextet_symbol (pad j v : ℕ) : sextet pad j (symbol v) = some (v % 64) := by
  rw [sextet, value_symbol]

variable {c b a d : UInt8} {pad n v j : ℕ} {data text : Bytes}

theorem sextet_pad (padded : 4 - pad ≤ j) : sextet pad j (byte '=') = some 0 := by
  have none : value (byte '=') = none := by decide
  rw [sextet, none, if_pos ⟨rfl, padded⟩]

theorem ofNat_eq_of_mod (same : n % 256 = b.toNat) : UInt8.ofNat n = b := by
  rw [← UInt8.toNat_inj, UInt8.toNat_ofNat']
  exact same

/-- The symbols of a number of 24 bits without its last `pad` bytes. -/
def symbols (pad n : ℕ) : Bytes :=
  [symbol (n / 262144), symbol (n / 4096), symbol (n / 64), symbol n].take (4 - pad) ++
    List.replicate pad (byte '=')

/-- Its bytes but the last `pad`. -/
def octets (pad n : ℕ) : Bytes :=
  [.ofNat (n / 65536), .ofNat (n / 256), .ofNat n].take (3 - pad)

attribute [local simp] symbols octets

theorem decodeChunk_symbols {last : Bool} (few : pad ≤ 2) (small : n < 16777216)
    (zeros : n % 256 ^ pad = 0) (ends : pad = 0 ∨ last = true) :
    decodeChunk last (symbols pad n) = some (octets pad n) := by
  have whole : ((n / 262144 % 64 * 64 + n / 4096 % 64) * 64 + n / 64 % 64) * 64 + n % 64 = n := by
    omega
  have padded : (symbols pad n).count (byte '=') = pad := by
    obtain rfl | rfl | rfl : pad = 0 ∨ pad = 1 ∨ pad = 2 := by omega
    all_goals simp [symbol_ne_pad]
  rw [decodeChunk, padded]
  obtain rfl | rfl | rfl : pad = 0 ∨ pad = 1 ∨ pad = 2 := by omega
  · simp [zipIdx_cons, sextet_symbol, whole]
  · have fourth : n % 64 = 0 := by omega
    rw [fourth, Nat.add_zero] at whole
    simp_all [zipIdx_cons, sextet_symbol, sextet_pad]
  · have third : n / 64 % 64 = 0 := by omega
    have fourth : n % 64 = 0 := by omega
    rw [third, fourth, Nat.add_zero, Nat.add_zero] at whole
    simp_all [zipIdx_cons, sextet_symbol, sextet_pad]

theorem encodeChunk_octets (few : pad ≤ 2) (small : n < 16777216) (zeros : n % 256 ^ pad = 0) :
    encodeChunk (octets pad n) = symbols pad n := by
  have whole : n / 65536 % 256 * 65536 + n / 256 % 256 * 256 + n % 256 = n := by omega
  obtain rfl | rfl | rfl : pad = 0 ∨ pad = 1 ∨ pad = 2 := by omega
  · simp [encodeChunk, whole]
  · have third : n % 256 = 0 := by omega
    rw [third] at whole
    simp_all [encodeChunk]
  · have second : n / 256 % 256 = 0 := by omega
    have third : n % 256 = 0 := by omega
    rw [second, third] at whole
    simp_all [encodeChunk]

/-- Every chunk is such. -/
theorem exists_octets {chunk : Bytes} (some_byte : chunk ≠ []) (fits : chunk.length ≤ 3) :
    ∃ pad n, pad + chunk.length = 3 ∧ n < 16777216 ∧ n % 256 ^ pad = 0 ∧ chunk = octets pad n := by
  match chunk with
  | [a] =>
    have bound := a.toNat_lt
    refine ⟨2, a.toNat * 65536, rfl, by omega, by omega, ?_⟩
    simp
  | [a, b] =>
    have boundA := a.toNat_lt
    have boundB := b.toNat_lt
    refine ⟨1, a.toNat * 65536 + b.toNat * 256, rfl, by omega, by omega, ?_⟩
    simp only [octets, Nat.reduceSub, take_succ_cons, take_zero]
    rw [ofNat_eq_of_mod (b := a) (by omega), ofNat_eq_of_mod (b := b) (by omega)]
  | [a, b, c] =>
    have boundA := a.toNat_lt
    have boundB := b.toNat_lt
    have boundC := c.toNat_lt
    refine ⟨0, a.toNat * 65536 + b.toNat * 256 + c.toNat, rfl, by omega, by omega, ?_⟩
    simp only [octets, Nat.sub_zero, take_succ_cons, take_zero]
    rw [ofNat_eq_of_mod (b := a) (by omega), ofNat_eq_of_mod (b := b) (by omega),
      ofNat_eq_of_mod (b := c) (by omega)]

theorem decodeChunk_encodeChunk {chunk : Bytes} {last : Bool} (some_byte : chunk ≠ [])
    (fits : chunk.length ≤ 3) (ends : chunk.length = 3 ∨ last = true) :
    decodeChunk last (encodeChunk chunk) = some chunk := by
  obtain ⟨pad, n, length, small, zeros, rfl⟩ := exists_octets some_byte fits
  have some_byte := length_pos_iff.mpr some_byte
  rw [encodeChunk_octets (by omega) small zeros]
  exact decodeChunk_symbols (by omega) small zeros (ends.imp_left (by omega))

theorem length_encodeChunk {chunk : Bytes} (fits : chunk.length ≤ 3) :
    (encodeChunk chunk).length = 4 := by
  simp only [encodeChunk, length_append, length_take, length_replicate, length_cons, length_nil]
  omega

theorem length_encode (data : Bytes) : (encode data).length % 4 = 0 := by
  induction data using encode.induct with
  | case1 => rfl
  | case2 a | case3 a b => rw [encode, length_encodeChunk (Nat.le_of_ble_eq_true rfl)]
  | case4 a b c rest ih =>
    rw [encode, length_append, length_encodeChunk (Nat.le_of_ble_eq_true rfl)]
    omega

theorem decodeGroups_append {group : Bytes} (four : group.length = 4) (rest : Bytes) :
    decodeGroups (group ++ rest) = (do
      let first ← decodeChunk rest.isEmpty group
      let more ← decodeGroups rest
      some (first ++ more)) := by
  obtain ⟨a, b, c, d, rfl⟩ := length_eq_four.mp four
  rfl

theorem decodeGroups_encode (data : Bytes) : decodeGroups (encode data) = some data := by
  induction data using encode.induct with
  | case1 => rfl
  | case2 a =>
    rw [encode, ← append_nil (encodeChunk [a]), decodeGroups_append (length_encodeChunk (by simp)),
      isEmpty_nil, decodeChunk_encodeChunk (by simp) (by simp) (.inr rfl)]
    rfl
  | case3 a b =>
    rw [encode, ← append_nil (encodeChunk [a, b]),
      decodeGroups_append (length_encodeChunk (by simp)),
      isEmpty_nil, decodeChunk_encodeChunk (by simp) (by simp) (.inr rfl)]
    rfl
  | case4 a b c rest ih =>
    rw [encode, decodeGroups_append (length_encodeChunk (by simp)),
      decodeChunk_encodeChunk (by simp) (by simp) (.inl rfl), ih]
    rfl

/-- What is encoded is read back. -/
theorem decode_encode (data : Bytes) : decode (encode data) = some data := by
  rw [decode, if_pos (length_encode data), decodeGroups_encode]

/-! ## Canonical texts -/

theorem symbol_of_value (known : value c = some v) : v < 64 ∧ ∀ m, m % 64 = v → symbol m = c := by
  have each : ∀ c, ((value c).all fun v => v < 64 && alphabet[v]?.getD 0 == c) = true := by
    decide +kernel
  have here := each c
  rw [known, all_some, Bool.and_eq_true, decide_eq_true_eq, beq_iff_eq] at here
  refine ⟨here.1, fun m same => ?_⟩
  rw [symbol, same]
  exact here.2

/-- A symbol is one of the alphabet, or padding at the end of its group. -/
theorem sextet_eq_some (read : sextet pad j c = some v) :
    (value c = some v ∧ c ≠ byte '=') ∨ (c = byte '=' ∧ v = 0 ∧ 4 - pad ≤ j) := by
  rw [sextet] at read
  cases known : value c with
  | some u =>
    rw [known] at read
    refine .inl ⟨read, ?_⟩
    rintro rfl
    cases known
  | none =>
    rw [known] at read
    obtain ⟨⟨isPad, atEnd⟩, zero⟩ := ite_none_right_eq_some.mp read
    exact .inr ⟨isPad, (Option.some.inj zero).symm, atEnd⟩

/-- The number that four symbols spell. -/
theorem foldlM_sextet
    (read : [a, b, c, d].zipIdx.foldlM (fun n (c, j) => (sextet pad j c).map (n * 64 + ·)) 0 = some n) :
    ∃ u v w x, sextet pad 0 a = some u ∧ sextet pad 1 b = some v ∧ sextet pad 2 c = some w ∧
      sextet pad 3 d = some x ∧ n = ((u * 64 + v) * 64 + w) * 64 + x := by
  simp only [zipIdx_cons, zipIdx_nil, foldlM_cons, foldlM_nil, bind_eq_bind,
    bind_eq_some_iff, map_eq_some_iff] at read
  obtain ⟨_, ⟨u, first, rfl⟩, _, ⟨v, second, rfl⟩, _, ⟨w, third, rfl⟩, _, ⟨x, fourth, rfl⟩, whole⟩ := read
  refine ⟨u, v, w, x, first, second, third, fourth, ?_⟩
  rw [← Option.some.inj whole]
  omega

/-- Padding stands only at the end of its group: the first two symbols are of the
alphabet, and a padded third is followed by a padded fourth. -/
theorem padding_at_end {u w x : ℕ} (few : pad ≤ 2)
    (counted : [a, b, c, d].count (byte '=') = pad) (first : sextet pad 0 a = some u)
    (second : sextet pad 1 b = some v) (third : sextet pad 2 c = some w)
    (fourth : sextet pad 3 d = some x) : value a = some u ∧ value b = some v ∧
      ((pad = 0 ∧ value c = some w ∧ value d = some x) ∨
        (pad = 1 ∧ value c = some w ∧ d = byte '=' ∧ x = 0) ∨
        (pad = 2 ∧ c = byte '=' ∧ w = 0 ∧ d = byte '=' ∧ x = 0)) := by
  rcases sextet_eq_some first with ⟨knownA, apartA⟩ | ⟨-, -, atEnd⟩
  swap
  · omega
  rcases sextet_eq_some second with ⟨knownB, apartB⟩ | ⟨-, -, atEnd⟩
  swap
  · omega
  rw [count_cons_of_ne apartA, count_cons_of_ne apartB] at counted
  refine ⟨knownA, knownB, ?_⟩
  rcases sextet_eq_some third with ⟨knownC, apartC⟩ | ⟨rfl, rfl, atEnd⟩
  · rw [count_cons_of_ne apartC] at counted
    rcases sextet_eq_some fourth with ⟨knownD, apartD⟩ | ⟨rfl, rfl, -⟩
    · rw [count_cons_of_ne apartD] at counted
      exact .inl ⟨counted.symm, knownC, knownD⟩
    · exact .inr (.inl ⟨counted.symm, knownC, rfl, rfl⟩)
  · rcases sextet_eq_some fourth with ⟨-, apartD⟩ | ⟨rfl, rfl, -⟩
    · rw [count_cons_self, count_cons_of_ne apartD, count_nil] at counted
      omega
    · exact .inr (.inr ⟨counted.symm, rfl, rfl, rfl, rfl⟩)

/-- A group that decodes is how its bytes are encoded; before the last there are three. -/
theorem encodeChunk_decodeChunk {last : Bool}
    (decoded : decodeChunk last [a, b, c, d] = some data) :
    encodeChunk data = [a, b, c, d] ∧ ((∃ x y z, data = [x, y, z]) ∨
      (last = true ∧ ((∃ x y, data = [x, y]) ∨ ∃ x, data = [x]))) := by
  unfold decodeChunk at decoded
  obtain ⟨padding, decoded⟩ := guard_bind_eq_some.mp decoded
  obtain ⟨n, spelled, decoded⟩ := bind_eq_some_iff.mp decoded
  obtain ⟨discarded, decoded⟩ := guard_bind_eq_some.mp decoded
  obtain ⟨u, v, w, x, first, second, third, fourth, total⟩ := foldlM_sextet spelled
  cases decoded
  generalize counted : [a, b, c, d].count (byte '=') = pad at *
  have few : pad ≤ 2 := by omega
  obtain ⟨knownA, knownB, shape⟩ := padding_at_end few counted first second third fourth
  obtain ⟨smallA, symbolA⟩ := symbol_of_value knownA
  obtain ⟨smallB, symbolB⟩ := symbol_of_value knownB
  rcases shape with ⟨rfl, knownC, knownD⟩ | ⟨rfl, knownC, rfl, rfl⟩ | ⟨rfl, rfl, rfl, rfl, rfl⟩
  · obtain ⟨smallC, symbolC⟩ := symbol_of_value knownC
    obtain ⟨smallD, symbolD⟩ := symbol_of_value knownD
    refine ⟨(encodeChunk_octets few (by omega) (by omega)).trans ?_, .inl ⟨_, _, _, rfl⟩⟩
    rw [symbols, symbolA _ (by omega), symbolB _ (by omega), symbolC _ (by omega),
      symbolD _ (by omega)]
    rfl
  · obtain ⟨smallC, symbolC⟩ := symbol_of_value knownC
    refine ⟨(encodeChunk_octets few (by omega) (by omega)).trans ?_,
      .inr ⟨by simpa using padding, .inl ⟨_, _, rfl⟩⟩⟩
    rw [symbols, symbolA _ (by omega), symbolB _ (by omega), symbolC _ (by omega)]
    rfl
  · refine ⟨(encodeChunk_octets few (by omega) (by omega)).trans ?_,
      .inr ⟨by simpa using padding, .inr ⟨_, rfl⟩⟩⟩
    rw [symbols, symbolA _ (by omega), symbolB _ (by omega)]
    rfl

/-- A text that decodes is how its bytes are encoded. -/
theorem encode_of_decodeGroups (decoded : decodeGroups text = some data) : encode data = text := by
  induction text using decodeGroups.induct generalizing data with
  | case1 =>
    cases decoded
    rfl
  | case2 a b c d rest ih =>
    obtain ⟨first, read, decoded⟩ := bind_eq_some_iff.mp decoded
    obtain ⟨more, following, whole⟩ := bind_eq_some_iff.mp decoded
    cases whole
    obtain ⟨spelled, shape⟩ := encodeChunk_decodeChunk read
    rcases shape with ⟨x, y, z, rfl⟩ | ⟨isLast, shape⟩
    · rw [cons_append, cons_append, cons_append, nil_append, encode, spelled, ih following]
      rfl
    -- a padded group is the last, so nothing follows it
    obtain rfl := isEmpty_iff.mp isLast
    cases following
    rcases shape with ⟨x, y, rfl⟩ | ⟨x, rfl⟩
    · exact spelled
    · exact spelled
  | case3 text empty longer => cases text <;> simp_all [decodeGroups]

theorem encode_of_decode (decoded : decode text = some data) : encode data = text := by
  rw [decode] at decoded
  exact encode_of_decodeGroups (ite_none_right_eq_some.mp decoded).2

/-- Encoding and decoding are inverse bijections between the byte strings and the texts
that are accepted: no two texts decode to the same bytes. -/
theorem decode_inverts_encode :
    (∀ data, decode (encode data) = some data) ∧
      (∀ text data, decode text = some data → encode data = text) ∧
      ∀ text text' data, decode text = some data → decode text' = some data → text = text' := by
  refine ⟨decode_encode, fun text data decoded => encode_of_decode decoded, ?_⟩
  intro text text' data decoded decoded'
  rw [← encode_of_decode decoded, encode_of_decode decoded']

/-- "QQ==" is the one text of the letter A; "QR==" has a bit its padding discards. -/
theorem decode_inverts_encode_letter :
    decode (ascii "QQ==") = some (ascii "A") ∧ decode (ascii "QR==") = none ∧
      encode (ascii "A") = ascii "QQ==" := by
  have read : decode (ascii "QQ==") = some (ascii "A") := by decide +kernel
  exact ⟨read, by decide +kernel, decode_inverts_encode.2.1 _ _ read⟩

end E6irc.Base64
