import E6irc.Base.Bytes
import E6irc.Base.Result

/-!
# Wire formats

A decoder takes symbols off the front of a text; an encoder gives the symbols it
writes.  Either may fail.

`Spells read S` says exactly what a decoder takes: it reads `a` where, and only
where, the text begins with a spelling of `a` by `S`.  One such fact is both halves
of a wire format: what is spelt is read back whatever follows it, and nothing is
read that is not so spelt.  It goes through sequencing, tags, options and counted
lists, so that a format is exact when its fields are.
-/

namespace E6irc.Base

open List

abbrev Decoder (σ δ : Type) := StateT (List σ) (Except δ)

variable {σ δ ε α β : Type}

/-- Parts written one after the other, until one fails. -/
def writeAll : List (Except ε (List σ)) → Except ε (List σ)
  | [] => .ok []
  | part :: parts => do
    let first ← part
    let rest ← writeAll parts
    .ok (first ++ rest)

variable {text : List σ}

@[simp] theorem writeAll_nil_eq_ok :
    writeAll ([] : List (Except ε (List σ))) = .ok text ↔ text = [] :=
  ⟨fun done => (Except.ok.inj done).symm, fun done => by rw [done]; rfl⟩

@[simp] theorem writeAll_cons_eq_ok {part : Except ε (List σ)} {parts : List (Except ε (List σ))} :
    writeAll (part :: parts) = .ok text ↔
      ∃ first rest, part = .ok first ∧ writeAll parts = .ok rest ∧ text = first ++ rest := by
  constructor
  · intro written
    obtain ⟨first, isFirst, written⟩ := bind_eq_ok written
    obtain ⟨rest, isRest, written⟩ := bind_eq_ok written
    exact ⟨first, rest, isFirst, isRest, (Except.ok.inj written).symm⟩
  · rintro ⟨first, rest, isFirst, isRest, rfl⟩
    simp only [writeAll, isFirst, isRest]
    rfl

/-! ## What a decoder takes -/

def Spells (read : Decoder σ δ α) (S : α → List σ → Prop) : Prop :=
  ∀ text a rest, read text = .ok (a, rest) ↔ ∃ part, S a part ∧ text = part ++ rest

namespace Spells

variable {read : Decoder σ δ α} {S T : α → List σ → Prop}

theorem congr (spells : Spells read S) (same : ∀ a part, S a part ↔ T a part) :
    Spells read T := by
  intro text a rest
  rw [spells text a rest]
  exact exists_congr fun part => and_congr_left' (same a part)

protected theorem pure (a : α) : Spells (pure a : Decoder σ δ α) fun b part => b = a ∧ part = [] := by
  intro text b rest
  constructor
  · intro done
    cases done
    exact ⟨[], ⟨rfl, rfl⟩, rfl⟩
  · rintro ⟨part, ⟨rfl, rfl⟩, rfl⟩
    rfl

protected theorem throw (error : δ) : Spells (throw error : Decoder σ δ α) fun _ _ => False := by
  intro text a rest
  constructor
  · intro done
    cases done
  · rintro ⟨part, ⟨⟩, -⟩

variable {next : α → Decoder σ δ β} {K : β → Prop}

protected theorem bind {T : α → β → List σ → Prop}
    (first : Spells read S) (then_ : ∀ a, Spells (next a) (T a)) :
    Spells (read >>= next) fun b part =>
      ∃ a front back, S a front ∧ T a b back ∧ part = front ++ back := by
  intro text b rest
  constructor
  · intro done
    obtain ⟨⟨a, between⟩, one, two⟩ := bind_eq_ok done
    obtain ⟨front, spelt, rfl⟩ := (first _ _ _).mp one
    obtain ⟨back, spelt', rfl⟩ := (then_ a _ _ _).mp two
    exact ⟨front ++ back, ⟨a, front, back, spelt, spelt', rfl⟩, by simp⟩
  · rintro ⟨part, ⟨a, front, back, spelt, spelt', rfl⟩, rfl⟩
    have one : read (front ++ (back ++ rest)) = .ok (a, back ++ rest) :=
      (first _ _ _).mpr ⟨front, spelt, rfl⟩
    have two : next a (back ++ rest) = .ok (b, rest) := (then_ a _ _ _).mpr ⟨back, spelt', rfl⟩
    rw [append_assoc]
    show (read _ >>= fun read => next read.1 read.2) = _
    rw [one]
    exact two

protected theorem map (f : α → β) (spells : Spells read S) :
    Spells (f <$> read) fun b part => ∃ a, S a part ∧ b = f a := by
  refine (spells.bind fun a => Spells.pure (f a)).congr fun b part => ?_
  constructor
  · rintro ⟨a, front, back, spelt, ⟨rfl, rfl⟩, rfl⟩
    exact ⟨a, by simpa using spelt, rfl⟩
  · rintro ⟨a, spelt, rfl⟩
    exact ⟨a, part, [], spelt, ⟨rfl, rfl⟩, (append_nil part).symm⟩

/-- A condition that is checked before reading on. -/
theorem ite {c : Prop} [Decidable c] (error : δ) (spells : c → Spells read S) :
    Spells (if c then read else throw error) fun a part => c ∧ S a part := by
  by_cases holds : c
  · rw [if_pos holds]
    exact (spells holds).congr fun a part => (and_iff_right holds).symm
  · rw [if_neg holds]
    exact (Spells.throw error).congr fun a part => (iff_of_false id fun both => holds both.1)

variable {write : α → Except ε (List σ)}

/-- One field of a record, whose other fields are written after it.  `K` is what the
fields before it have settled. -/
theorem field {others : β → List (Except ε (List σ))} {P : α → Prop} {Q : β → Prop} (get : β → α)
    (first : Spells read fun a part => write a = .ok part ∧ P a)
    (rest : ∀ a, Spells (next a) fun b part =>
      writeAll (others b) = .ok part ∧ Q b ∧ K b ∧ get b = a) :
    Spells (read >>= next) fun b part =>
      writeAll (write (get b) :: others b) = .ok part ∧ (P (get b) ∧ Q b) ∧ K b := by
  refine (first.bind rest).congr fun b part => ?_
  rw [writeAll_cons_eq_ok]
  constructor
  · rintro ⟨_, front, back, ⟨written, holds⟩, ⟨later, holds', settled, rfl⟩, rfl⟩
    exact ⟨⟨front, back, written, later, rfl⟩, ⟨holds, holds'⟩, settled⟩
  · rintro ⟨⟨front, back, written, later, rfl⟩, ⟨holds, holds'⟩, settled⟩
    exact ⟨get b, front, back, ⟨written, holds⟩, ⟨later, holds', settled, rfl⟩, rfl⟩

/-- Every field of the record is settled. -/
theorem done (record : β) (settled : ∀ b, K b ↔ b = record) :
    Spells (pure record : Decoder σ δ β) fun b part =>
      writeAll ([] : List (Except ε (List σ))) = .ok part ∧ True ∧ K b := by
  refine (Spells.pure record).congr fun b part => ?_
  rw [writeAll_nil_eq_ok, settled, true_and, and_comm]

/-- A field without a condition of its own. -/
theorem plain (spells : Spells read fun a part => write a = .ok part) :
    Spells read fun a part => write a = .ok part ∧ True :=
  spells.congr fun _ _ => (and_iff_left trivial).symm

end Spells

/-- What was read means something, or is refused. -/
def orFail (error : δ) : Option α → Decoder σ δ α
  | some a => pure a
  | none => throw error

theorem spells_orFail (error : δ) (meaning : Option α) :
    Spells (orFail error meaning : Decoder σ δ α) fun a part => meaning = some a ∧ part = [] := by
  cases meaning with
  | none => exact (Spells.throw error).congr fun a part => by simp
  | some b => exact (Spells.pure b).congr fun a part => by rw [Option.some.injEq, eq_comm]

/-! ## Symbols and tags -/

def takeMany (short : δ) (n : ℕ) : Decoder σ δ (List σ) := fun text =>
  if text.length < n then .error short else .ok (text.take n, text.drop n)

theorem spells_takeMany (short : δ) (n : ℕ) :
    Spells (takeMany short n : Decoder σ δ (List σ)) fun a part => part = a ∧ a.length = n := by
  intro text a rest
  unfold takeMany
  split
  · rename_i tooShort
    refine iff_of_false (fun done => nomatch done) ?_
    rintro ⟨part, ⟨rfl, rfl⟩, rfl⟩
    rw [length_append] at tooShort
    omega
  · rename_i enough
    constructor
    · intro done
      cases done
      exact ⟨_, ⟨rfl, length_take_of_le (Nat.not_lt.mp enough)⟩, (take_append_drop n text).symm⟩
    · rintro ⟨part, ⟨rfl, rfl⟩, rfl⟩
      simp

def takeOne (short : δ) : Decoder σ δ σ := fun text =>
  match text with
  | [] => .error short
  | a :: rest => .ok (a, rest)

theorem spells_takeOne (short : δ) :
    Spells (takeOne short : Decoder σ δ σ) fun a part => part = [a] := by
  intro text a rest
  cases text with
  | nil => simp [takeOne]
  | cons first text => simp [takeOne]

/-- Read as the table says of `tag`. -/
def select {κ : Type} [BEq κ] (unknown : δ) (table : List (κ × Decoder σ δ α)) (tag : κ) :
    Decoder σ δ α :=
  (table.lookup tag).getD (throw unknown)

variable {S : α → List σ → Prop}

/-- A table is exact when each of its decoders takes the values that have its tag,
and every value has a tag of the table. -/
theorem spells_select {κ : Type} [BEq κ] [LawfulBEq κ] {unknown : δ}
    {table : List (κ × Decoder σ δ α)} (tag : α → κ) (known : ∀ a, tag a ∈ table.map Prod.fst)
    (each : ∀ entry ∈ table, Spells entry.2 fun a part => tag a = entry.1 ∧ S a part) (t : κ) :
    Spells (select unknown table t) fun a part => tag a = t ∧ S a part := by
  unfold select
  cases found : table.lookup t with
  | none =>
    refine (Spells.throw _).congr fun a part => iff_of_false id ?_
    rintro ⟨rfl, -⟩
    obtain ⟨entry, mem, same⟩ := mem_map.mp (known a)
    have absent := lookup_eq_none_iff.mp found entry mem
    simp [same] at absent
  | some read =>
    obtain ⟨front, back, rfl, -⟩ := lookup_eq_some_iff.mp found
    exact each (t, read) (by simp)

/-- What follows a tag is read as the table says. -/
def tagged [BEq σ] (short : δ) (unknown : σ → δ) (table : List (σ × Decoder σ δ α)) :
    Decoder σ δ α := do
  let tag ← takeOne short
  select (unknown tag) table tag

variable {short : δ} {unknown : σ → δ} {tag : α → σ}

theorem spells_tagged [BEq σ] [LawfulBEq σ] {table : List (σ × Decoder σ δ α)}
    (known : ∀ a, tag a ∈ table.map Prod.fst)
    (each : ∀ entry ∈ table, Spells entry.2 fun a part => tag a = entry.1 ∧ S a part) :
    Spells (tagged short unknown table) fun a part => ∃ back, S a back ∧ part = tag a :: back := by
  refine ((spells_takeOne short).bind fun t => spells_select tag known each t).congr fun a part => ?_
  constructor
  · rintro ⟨t, front, back, rfl, ⟨rfl, spelt⟩, rfl⟩
    exact ⟨back, spelt, rfl⟩
  · rintro ⟨back, spelt, rfl⟩
    exact ⟨tag a, [tag a], back, rfl, ⟨rfl, spelt⟩, rfl⟩

/-- Values that their tag alone spells. -/
theorem spells_tagged_pure [BEq σ] [LawfulBEq σ]
    {table : List (σ × α)} (known : ∀ a, (tag a, a) ∈ table)
    (tags : ∀ entry ∈ table, tag entry.2 = entry.1) (distinct : (table.map Prod.fst).Nodup) :
    Spells (tagged short unknown (table.map fun entry => (entry.1, pure entry.2)) :
      Decoder σ δ α) fun a part => part = [tag a] := by
  have inTable (a : α) : tag a ∈ (table.map fun entry =>
      (entry.1, (pure entry.2 : Decoder σ δ α))).map Prod.fst := by
    simp only [map_map, mem_map, Function.comp_apply]
    exact ⟨(tag a, a), known a, rfl⟩
  refine (spells_tagged (S := fun _ part => part = []) inTable ?_).congr fun a part => by simp
  intro entry mem
  obtain ⟨⟨t, b⟩, inside, rfl⟩ := mem_map.mp mem
  refine (Spells.pure b).congr fun a part => and_congr_left' ?_
  constructor
  · rintro rfl
    exact tags _ inside
  · rintro rfl
    exact congrArg Prod.snd (inj_on_of_nodup_map distinct (known a) inside rfl)

/-! ## Lists -/

def readMany (read : Decoder σ δ α) : ℕ → Decoder σ δ (List α)
  | 0 => pure []
  | n + 1 => do
    let a ← read
    let rest ← readMany read n
    pure (a :: rest)

theorem spells_readMany {read : Decoder σ δ α} {write : α → Except ε (List σ)} {P : α → Prop}
    (each : Spells read fun a part => write a = .ok part ∧ P a) (n : ℕ) :
    Spells (readMany read n) fun entries part =>
      entries.length = n ∧ writeAll (entries.map write) = .ok part ∧ ∀ a ∈ entries, P a := by
  induction n with
  | zero =>
    refine (Spells.pure []).congr fun entries part => ?_
    constructor
    · rintro ⟨rfl, rfl⟩
      simp
    · rintro ⟨none, written, -⟩
      obtain rfl := length_eq_zero_iff.mp none
      exact ⟨rfl, by simpa using written⟩
  | succ n ih =>
    refine (each.bind fun a => ih.bind fun rest => Spells.pure (a :: rest)).congr
      fun entries part => ?_
    constructor
    · rintro ⟨a, front, back, ⟨written, holds⟩,
        ⟨rest, middle, last, ⟨length, others, all⟩, ⟨rfl, rfl⟩, rfl⟩, rfl⟩
      exact ⟨by simp [length], by simp [written, others], by simpa using ⟨holds, all⟩⟩
    · rintro ⟨length, written, all⟩
      obtain ⟨a, rest, rfl⟩ := exists_cons_of_length_eq_add_one length
      obtain ⟨front, back, first, others, rfl⟩ := writeAll_cons_eq_ok.mp written
      obtain ⟨holds, all⟩ := forall_mem_cons.mp all
      exact ⟨a, front, back, ⟨first, holds⟩,
        ⟨rest, back, [], ⟨by simpa using length, others, all⟩, ⟨rfl, rfl⟩, by simp⟩, rfl⟩

/-! ## Numbers -/

/-- The lowest `k` bytes of a number, the highest first. -/
def bigEndian : ℕ → ℕ → Bytes
  | 0, _ => []
  | k + 1, n => bigEndian k (n / 256) ++ [UInt8.ofNat n]

def ofBigEndian (bytes : Bytes) : ℕ :=
  bytes.foldl (fun n b => 256 * n + b.toNat) 0

@[simp] theorem length_bigEndian (k n : ℕ) : (bigEndian k n).length = k := by
  induction k generalizing n with
  | zero => rfl
  | succ k ih => simp [bigEndian, ih]

theorem ofBigEndian_concat (bytes : Bytes) (b : UInt8) :
    ofBigEndian (bytes ++ [b]) = 256 * ofBigEndian bytes + b.toNat := by
  simp [ofBigEndian]

theorem ofBigEndian_bigEndian {k n : ℕ} (fits : n < 256 ^ k) : ofBigEndian (bigEndian k n) = n := by
  induction k generalizing n with
  | zero => exact (Nat.lt_one_iff.mp fits).symm
  | succ k ih =>
    have higher : n / 256 < 256 ^ k := Nat.div_lt_of_lt_mul (by rwa [Nat.pow_succ'] at fits)
    rw [bigEndian, ofBigEndian_concat, ih higher, UInt8.toNat_ofNat']
    exact Nat.div_add_mod n 256

theorem ofBigEndian_lt (bytes : Bytes) : ofBigEndian bytes < 256 ^ bytes.length := by
  induction bytes using List.reverseRecOn with
  | nil => exact Nat.one_pos
  | append_singleton bytes b ih =>
    rw [ofBigEndian_concat, length_append, length_singleton, Nat.pow_succ']
    have := b.toNat_lt
    omega

theorem bigEndian_ofBigEndian (bytes : Bytes) :
    bigEndian bytes.length (ofBigEndian bytes) = bytes := by
  induction bytes using List.reverseRecOn with
  | nil => rfl
  | append_singleton bytes b ih =>
    have small := b.toNat_lt
    have higher : (256 * ofBigEndian bytes + b.toNat) / 256 = ofBigEndian bytes := by omega
    have lowest : UInt8.ofNat (256 * ofBigEndian bytes + b.toNat) = b := by
      apply UInt8.toNat_inj.mp
      rw [UInt8.toNat_ofNat']
      omega
    rw [ofBigEndian_concat, length_append, length_singleton, bigEndian, higher, lowest, ih]

/-- A number of `k` bytes. -/
def takeNumber (short : δ) (k : ℕ) : Decoder UInt8 δ (BitVec (8 * k)) := do
  let bytes ← takeMany short k
  pure (BitVec.ofNat _ (ofBigEndian bytes))

theorem spells_takeNumber (short : δ) (k : ℕ) :
    Spells (takeNumber short k) fun value part => part = bigEndian k value.toNat := by
  have width : 2 ^ (8 * k) = 256 ^ k := Nat.pow_mul 2 8 k
  refine ((spells_takeMany short k).bind fun bytes => Spells.pure _).congr fun value part => ?_
  constructor
  · rintro ⟨bytes, front, back, ⟨rfl, rfl⟩, ⟨rfl, rfl⟩, rfl⟩
    have fits := ofBigEndian_lt front
    rw [BitVec.toNat_ofNat, width, Nat.mod_eq_of_lt fits, bigEndian_ofBigEndian, append_nil]
  · rintro rfl
    have fits : value.toNat < 256 ^ k := width ▸ value.isLt
    refine ⟨_, _, [], ⟨rfl, length_bigEndian _ _⟩, ⟨?_, rfl⟩, (append_nil _).symm⟩
    rw [ofBigEndian_bigEndian fits, BitVec.ofNat_toNat, BitVec.setWidth_eq]

end E6irc.Base
