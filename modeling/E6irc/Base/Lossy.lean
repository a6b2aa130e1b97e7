import E6irc.Base.Bytes

/-!
# Decoding with replacement

`String::from_utf8_lossy`: what is not UTF-8 becomes U+FFFD, one for each longest
start of a character that is not completed.

A byte of ASCII is always a character of its own, so decoding can be done between
any two of them (`fromUtf8Lossy_append`, `splitOn_fromUtf8Lossy`), and where no
U+FFFD comes out nothing was changed (`fromUtf8Lossy_eq_self`).
-/

namespace E6irc.Base

open List

/-- U+FFFD. -/
def replacementCharacter : Bytes := [0xEF, 0xBF, 0xBD]

/-- The bytes read of a character, and the ranges of those it still needs. -/
structure Unfinished where
  bytes : Bytes
  needed : List (UInt8 × UInt8)
deriving DecidableEq, Repr

namespace Unfinished

def none : Unfinished := ⟨[], []⟩

/-- Read the first byte of a character: what it puts out, and what it leaves open. -/
def start (b : UInt8) : Bytes × Unfinished :=
  match utf8Follow b with
  | .none => (replacementCharacter, none)
  | some [] => ([b], none)
  | some needed => ([], ⟨[b], needed⟩)

/-- Read the next byte. -/
def read (char : Unfinished) (b : UInt8) : Bytes × Unfinished :=
  match char.needed with
  | [] => start b
  | (low, high) :: needed =>
    if low ≤ b ∧ b ≤ high then
      if needed = [] then (char.bytes ++ [b], none) else ([], ⟨char.bytes ++ [b], needed⟩)
    else (replacementCharacter ++ (start b).1, (start b).2)

def decode (char : Unfinished) : Bytes → Bytes
  | [] => if char.bytes = [] then [] else replacementCharacter
  | b :: rest => (char.read b).1 ++ (char.read b).2.decode rest

end Unfinished

def fromUtf8Lossy (text : Bytes) : Bytes :=
  Unfinished.none.decode text

/-! ## What is read -/

theorem utf8Follow_eq_some {b : UInt8} {needed : List (UInt8 × UInt8)}
    (follows : utf8Follow b = some needed) :
    (needed = [] ↔ b < 0x80) ∧ ∀ range ∈ needed, 0x80 ≤ range.1 := by
  have all : ∀ b : UInt8, (utf8Follow b).all (fun needed =>
      (needed.isEmpty == decide (b < 0x80)) && needed.all fun range => 0x80 ≤ range.1) = true := by
    decide +kernel
  have here := all b
  rw [follows, Option.all_some, Bool.and_eq_true, beq_iff_eq, all_eq_true] at here
  refine ⟨?_, fun range among => of_decide_eq_true (here.2 range among)⟩
  rw [← List.isEmpty_iff, here.1, decide_eq_true_eq]

namespace Unfinished

/-- An unfinished character has read a first byte and needs bytes outside of ASCII. -/
structure Sound (char : Unfinished) : Prop where
  empty : char.needed = [] ↔ char.bytes = []
  needed : ∀ range ∈ char.needed, 0x80 ≤ range.1
  bytes : ∀ b ∈ char.bytes, 0x80 ≤ b

theorem sound_none : none.Sound := ⟨iff_of_true rfl rfl, nofun, nofun⟩

variable {char : Unfinished} {b c : UInt8} {text : Bytes}

theorem decode_cons (char : Unfinished) (b : UInt8) (text : Bytes) :
    char.decode (b :: text) = (char.read b).1 ++ (char.read b).2.decode text :=
  rfl

theorem start_of_ascii (ascii : c < 0x80) : start c = ([c], none) := by
  simp [start, utf8Follow, ascii]

theorem sound_start (b : UInt8) : (start b).2.Sound := by
  unfold start
  split
  · exact sound_none
  · exact sound_none
  rename_i needed more follows
  obtain ⟨single, outside⟩ := utf8Follow_eq_some follows
  refine ⟨iff_of_false (by simpa using more) (by simp), outside, ?_⟩
  intro byte among
  rw [mem_singleton.mp among]
  exact not_lt.mp fun ascii => more (single.mpr ascii)

section

variable (sound : char.Sound)
include sound

theorem Sound.read (b : UInt8) : (char.read b).2.Sound := by
  unfold Unfinished.read
  split
  · exact sound_start b
  rename_i low high needed open_
  split
  · rename_i within
    split
    · exact sound_none
    rename_i more
    have outside := sound.needed
    rw [open_, forall_mem_cons] at outside
    refine ⟨iff_of_false more (by simp), outside.2, ?_⟩
    intro byte among
    rcases mem_append.mp among with before | last
    · exact sound.bytes byte before
    · rw [mem_singleton.mp last]
      exact outside.1.trans within.1
  · exact sound_start b

theorem Sound.bytes_eq_nil (done : char.needed = []) : char.bytes = [] := sound.empty.mp done

/-- A byte of ASCII ends what is open and stands for itself. -/
theorem Sound.read_of_ascii (ascii : c < 0x80) : char.read c = (char.decode [] ++ [c], none) := by
  unfold Unfinished.read
  split
  · rename_i done
    rw [start_of_ascii ascii, decode, if_pos (sound.bytes_eq_nil done), nil_append]
  rename_i low high needed open_
  have outside := sound.needed (low, high) (by simp [open_])
  have apart : ¬ (low ≤ c ∧ c ≤ high) := fun within =>
    absurd (lt_of_lt_of_le ascii (outside.trans within.1)) (lt_irrefl c)
  have begun : char.bytes ≠ [] := fun nothing => by
    rw [sound.empty.mpr nothing] at open_
    cases open_
  rw [if_neg apart, start_of_ascii ascii, decode, if_neg begun]

theorem Sound.decode_append (ascii : c < 0x80) (front back : Bytes) :
    char.decode (front ++ c :: back) = char.decode front ++ c :: fromUtf8Lossy back := by
  induction front generalizing char with
  | nil =>
    rw [nil_append, decode_cons, sound.read_of_ascii ascii, append_assoc]
    rfl
  | cons b front ih =>
    rw [cons_append, decode_cons, ih (sound.read b), ← append_assoc, ← decode_cons]

/-- Where no U+FFFD is put out, the bytes are kept as they are. -/
theorem Sound.read_eq (plain : ¬ replacementCharacter <:+: (char.read b).1) :
    (char.read b).1 ++ (char.read b).2.bytes = char.bytes ++ [b] := by
  have started (plain : ¬ replacementCharacter <:+: (start b).1) :
      (start b).1 ++ (start b).2.bytes = [b] := by
    unfold start at plain ⊢
    split
    · rename_i invalid
      simp only [invalid] at plain
      exact absurd (infix_refl _) plain
    · rfl
    · rfl
  unfold Unfinished.read at plain ⊢
  split
  · rename_i done
    simp only [done] at plain
    rw [started plain, sound.bytes_eq_nil done, nil_append]
  · rename_i low high needed open_
    simp only [open_] at plain
    split
    · split
      · exact append_nil _
      · rfl
    · rename_i outside
      rw [if_neg outside] at plain
      exact absurd (prefix_append _ _).isInfix plain

theorem Sound.decode_eq (plain : ¬ replacementCharacter <:+: char.decode text) :
    char.decode text = char.bytes ++ text := by
  induction text generalizing char with
  | nil =>
    unfold decode at plain ⊢
    split
    · rename_i nothing
      rw [nothing, append_nil]
    · rename_i begun
      rw [if_neg begun] at plain
      exact absurd (infix_refl _) plain
  | cons b text ih =>
    rw [decode_cons] at plain ⊢
    rw [ih (sound.read b) fun within => plain (within.trans (suffix_append _ _).isInfix),
      ← append_assoc,
      sound.read_eq fun within => plain (within.trans (prefix_append _ _).isInfix),
      append_assoc, singleton_append]

end

theorem notMem_replacementCharacter (ascii : c < 0x80) : c ∉ replacementCharacter := by
  have outside : ∀ b ∈ replacementCharacter, ¬ b < 0x80 := by decide +kernel
  exact fun among => outside c among ascii

theorem mem_start (ascii : c < 0x80) (among : c ∈ (start b).1) : c = b := by
  unfold start at among
  split at among
  · exact absurd among (notMem_replacementCharacter ascii)
  · exact mem_singleton.mp among
  · cases among

theorem Sound.mem_read (sound : char.Sound) (ascii : c < 0x80) (among : c ∈ (char.read b).1) :
    c = b := by
  unfold Unfinished.read at among
  split at among
  · exact mem_start ascii among
  split at among
  · split at among
    · rcases mem_append.mp among with before | last
      · exact absurd ascii (not_lt.mpr (sound.bytes c before))
      · exact mem_singleton.mp last
    · cases among
  · rcases mem_append.mp among with replaced | started
    · exact absurd replaced (notMem_replacementCharacter ascii)
    · exact mem_start ascii started

/-- A byte of ASCII that is put out was read. -/
theorem Sound.mem_of_mem_decode (sound : char.Sound) (ascii : c < 0x80)
    (among : c ∈ char.decode text) : c ∈ text := by
  induction text generalizing char with
  | nil =>
    unfold decode at among
    split at among
    · cases among
    · exact absurd among (notMem_replacementCharacter ascii)
  | cons b text ih =>
    rw [decode_cons] at among
    rcases mem_append.mp among with now | later
    · rw [sound.mem_read ascii now]
      exact mem_cons_self
    · exact mem_cons_of_mem _ (ih (sound.read b) later)

end Unfinished

/-! ## Whole texts -/

section

variable {text front : Bytes} {sep : UInt8}

theorem fromUtf8Lossy_append (ascii : sep < 0x80) (front back : Bytes) :
    fromUtf8Lossy (front ++ sep :: back) = fromUtf8Lossy front ++ sep :: fromUtf8Lossy back :=
  Unfinished.sound_none.decode_append ascii front back

theorem fromUtf8Lossy_cons (ascii : sep < 0x80) (text : Bytes) :
    fromUtf8Lossy (sep :: text) = sep :: fromUtf8Lossy text :=
  fromUtf8Lossy_append ascii [] text

theorem fromUtf8Lossy_eq_self (plain : ¬ replacementCharacter <:+: fromUtf8Lossy text) :
    fromUtf8Lossy text = text :=
  Unfinished.sound_none.decode_eq plain

theorem notMem_fromUtf8Lossy (ascii : sep < 0x80) (absent : sep ∉ text) :
    sep ∉ fromUtf8Lossy text :=
  fun among => absent (Unfinished.sound_none.mem_of_mem_decode ascii among)

theorem fromUtf8Lossy_eq_nil (nothing : fromUtf8Lossy text = []) : text = [] := by
  have same : fromUtf8Lossy text = text := fromUtf8Lossy_eq_self (by rw [nothing]; decide)
  rw [← same, nothing]

/-- A first byte of ASCII is that of the text. -/
theorem fromUtf8Lossy_eq_cons {rest : Bytes} (ascii : sep < 0x80)
    (decoded : fromUtf8Lossy text = sep :: rest) :
    ∃ after, text = sep :: after ∧ rest = fromUtf8Lossy after := by
  have among : sep ∈ text := by
    by_contra absent
    exact notMem_fromUtf8Lossy ascii absent (by rw [decoded]; exact mem_cons_self)
  obtain ⟨front, after, rfl, first⟩ := eq_append_cons_of_mem among
  have apart := notMem_fromUtf8Lossy ascii first
  rw [fromUtf8Lossy_append ascii] at decoded
  cases before : fromUtf8Lossy front with
  | nil =>
    rw [before, nil_append] at decoded
    rw [fromUtf8Lossy_eq_nil before, nil_append]
    exact ⟨after, rfl, (List.cons.inj decoded).2.symm⟩
  | cons b rest =>
    rw [before, cons_append] at decoded
    rw [before, (List.cons.inj decoded).1] at apart
    exact absurd mem_cons_self apart

theorem splitOnce_fromUtf8Lossy (ascii : sep < 0x80) (text : Bytes) :
    splitOnce sep (fromUtf8Lossy text) =
      (splitOnce sep text).map (Prod.map fromUtf8Lossy fromUtf8Lossy) :=
  splitOnce_hom (fromUtf8Lossy_append ascii) (notMem_fromUtf8Lossy ascii) text

theorem splitOn_fromUtf8Lossy (ascii : sep < 0x80) (text : Bytes) :
    (fromUtf8Lossy text).splitOn sep = (text.splitOn sep).map fromUtf8Lossy := by
  refine splitOn_induction
    (P := fun text parts => (fromUtf8Lossy text).splitOn sep = parts.map fromUtf8Lossy) ?_ ?_ text
  · intro text absent
    rw [splitOn_eq_singleton (notMem_fromUtf8Lossy ascii absent), map_singleton]
  · intro front after parts first ih
    rw [fromUtf8Lossy_append ascii, splitOn_append_cons_self_of_not_mem
      (notMem_fromUtf8Lossy ascii first), ih, map_cons]

end

end E6irc.Base
