import E6irc.Base.Result

/-!
# Byte strings

A string of the modelled programs is its UTF-8 bytes.  Its length is the number
of bytes and two strings compare byte by byte, which is the lexicographic order
of lists over the order of `UInt8`.
-/

namespace E6irc.Base

open List

instance byteOrder : LinearOrder UInt8 where
  le_refl := UInt8.le_refl
  le_trans _ _ _ := UInt8.le_trans
  le_antisymm _ _ := UInt8.le_antisymm
  le_total := UInt8.le_total
  lt_iff_le_not_ge a b := by
    simp only [UInt8.lt_iff_toNat_lt, UInt8.le_iff_toNat_le]
    omega
  toDecidableLE := inferInstance
  toDecidableLT := inferInstance
  toDecidableEq := inferInstance

abbrev Bytes := List UInt8

instance lawfulByte : LawfulBEq UInt8 := inferInstance

instance lawfulBytes : LawfulBEq Bytes := inferInstance

/-- The byte of an ASCII character. -/
def byte (c : Char) : UInt8 :=
  UInt8.ofNat c.toNat

/-- The bytes of an ASCII literal. -/
def ascii (text : String) : Bytes :=
  text.toList.map byte

def isAsciiAlphabetic (b : UInt8) : Bool :=
  (byte 'a' ≤ b && b ≤ byte 'z') || (byte 'A' ≤ b && b ≤ byte 'Z')

def isAsciiDigit (b : UInt8) : Bool :=
  byte '0' ≤ b && b ≤ byte '9'

def isAsciiAlphanumeric (b : UInt8) : Bool :=
  isAsciiAlphabetic b || isAsciiDigit b

/-- A number as it is printed. -/
def decimal (n : ℕ) : Bytes :=
  (Nat.toDigits 10 n).map byte

/-- A number of `width` bits as it is read: digits, with a `+` in front or not. -/
def parseUnsigned (width : ℕ) (text : Bytes) : Option ℕ :=
  let digits := if text.head? = some (byte '+') then text.tail else text
  let value := digits.foldl (fun n b => 10 * n + (b.toNat - 48)) 0
  if digits ≠ [] ∧ digits.all isAsciiDigit ∧ value < 2 ^ width then some value else none

variable {sep b c : UInt8} {text front rest after part : Bytes} {parts : List Bytes} {n width : ℕ}

def toAsciiLowercase (b : UInt8) : UInt8 :=
  if byte 'A' ≤ b ∧ b ≤ byte 'Z' then b + 32 else b

def toAsciiUppercase (text : Bytes) : Bytes :=
  text.map fun b => if byte 'a' ≤ b ∧ b ≤ byte 'z' then b - 32 else b

/-- A property of every byte is checked byte by byte. -/
instance decidableForallByte (p : UInt8 → Prop) [DecidablePred p] : Decidable (∀ b, p b) :=
  decidable_of_iff (∀ i : Fin 256, p (.ofFin i))
    ⟨fun all b => by simpa using all b.toFin, fun all _ => all _⟩

/-- What stands before and after the first `sep`, if there is one. -/
def splitOnce (sep : UInt8) (text : Bytes) : Option (Bytes × Bytes) :=
  match text.dropWhile (· != sep) with
  | [] => none
  | _ :: after => some (text.takeWhile (· != sep), after)

theorem splitOnce_append (absent : sep ∉ front) (after : Bytes) :
    splitOnce sep (front ++ sep :: after) = some (front, after) := by
  have apart : ∀ b ∈ front, (b != sep) = true := fun b mem =>
    bne_iff_ne.mpr fun same => absent (same ▸ mem)
  simp [splitOnce, dropWhile_append_of_pos apart, takeWhile_append_of_pos apart]

theorem splitOnce_of_notMem (absent : sep ∉ text) : splitOnce sep text = none := by
  have apart : ∀ b ∈ text, (b != sep) = true := fun b mem =>
    bne_iff_ne.mpr fun same => absent (same ▸ mem)
  have nothing : text.dropWhile (· != sep) = [] := dropWhile_eq_nil_iff.mpr apart
  simp [splitOnce, nothing]

/-- A text is split at the first `sep`, or has none. -/
theorem splitOnce_cases (sep : UInt8) (text : Bytes) :
    (sep ∉ text ∧ splitOnce sep text = none) ∨
      ∃ front after, text = front ++ sep :: after ∧ sep ∉ front ∧
        splitOnce sep text = some (front, after) := by
  rcases Classical.em (sep ∈ text) with present | absent
  · obtain ⟨front, after, rfl, first⟩ := eq_append_cons_of_mem present
    exact .inr ⟨front, after, rfl, first, splitOnce_append first after⟩
  · exact .inl ⟨absent, splitOnce_of_notMem absent⟩

/-- A text with what follows the first `sep`, if there is one, taken off it. -/
def splitTail (sep : UInt8) (text : Bytes) : Bytes × Option Bytes :=
  match splitOnce sep text with
  | some (front, after) => (front, some after)
  | none => (text, none)

/-- Taking off the tail undoes putting an optional one behind a `sep`. -/
theorem splitTail_eq_iff {after : Option Bytes} : splitTail sep text = (front, after) ↔
      text = front ++ (after.elim [] fun after => sep :: after) ∧ sep ∉ front := by
  constructor
  · intro split
    rcases splitOnce_cases sep text with ⟨absent, whole⟩ | ⟨before, rest, rfl, first, divided⟩
    · rw [splitTail, whole] at split
      cases split
      exact ⟨(append_nil text).symm, absent⟩
    · rw [splitTail, divided] at split
      cases split
      exact ⟨rfl, first⟩
  · rintro ⟨rfl, absent⟩
    cases after with
    | none =>
      rw [Option.elim_none, append_nil, splitTail, splitOnce_of_notMem absent]
    | some after =>
      rw [Option.elim_some, splitTail, splitOnce_append absent]

/-- What stands before and after the last `sep`, if there is one. -/
def rsplitOnce (sep : UInt8) (text : Bytes) : Option (Bytes × Bytes) :=
  (splitOnce sep text.reverse).map fun (after, before) => (before.reverse, after.reverse)

theorem splitOnce_eq_some_iff :
    splitOnce sep text = some (front, after) ↔ text = front ++ sep :: after ∧ sep ∉ front := by
  constructor
  · intro divided
    rcases splitOnce_cases sep text with ⟨-, split⟩ | ⟨front', after', whole, first, split⟩
    · rw [split] at divided
      cases divided
    · rw [split] at divided
      cases divided
      exact ⟨whole, first⟩
  · rintro ⟨rfl, first⟩
    exact splitOnce_append first after

theorem splitOnce_hom {g : Bytes → Bytes}
    (keeps : ∀ front after, g (front ++ sep :: after) = g front ++ sep :: g after)
    (apart : ∀ {text}, sep ∉ text → sep ∉ g text) (text : Bytes) :
    splitOnce sep (g text) = (splitOnce sep text).map (Prod.map g g) := by
  rcases splitOnce_cases sep text with ⟨absent, divided⟩ | ⟨front, after, rfl, first, divided⟩
  · rw [divided, splitOnce_of_notMem (apart absent)]
    rfl
  · rw [divided, keeps, splitOnce_append (apart first)]
    rfl

theorem rsplitOnce_append {back : Bytes} (absent : sep ∉ back) (front : Bytes) :
    rsplitOnce sep (front ++ sep :: back) = some (front, back) := by
  have reversed : (front ++ sep :: back).reverse = back.reverse ++ sep :: front.reverse := by simp
  rw [rsplitOnce, reversed, splitOnce_append (by simpa using absent)]
  simp

/-- A text is split at the last `sep`, or has none. -/
theorem rsplitOnce_cases (sep : UInt8) (text : Bytes) :
    (sep ∉ text ∧ rsplitOnce sep text = none) ∨
      ∃ front after, text = front ++ sep :: after ∧ sep ∉ after ∧
        rsplitOnce sep text = some (front, after) := by
  rcases splitOnce_cases sep text.reverse with ⟨absent, split⟩ | ⟨after, front, whole, last, split⟩
  · exact .inl ⟨by simpa using absent, by rw [rsplitOnce, split]; rfl⟩
  refine .inr ⟨front.reverse, after.reverse, ?_, by simpa using last, ?_⟩
  · simpa using congrArg List.reverse whole
  · rw [rsplitOnce, split]
    rfl

/-! ## Parts that are joined -/

/-- Splitting a text takes the part up to the next `sep`, as long as there is one. -/
theorem splitOn_induction {P : Bytes → List Bytes → Prop}
    (last : ∀ text, sep ∉ text → P text [text])
    (next : ∀ front after parts, sep ∉ front → P after parts →
      P (front ++ sep :: after) (front :: parts)) (text : Bytes) : P text (text.splitOn sep) := by
  induction size : text.length using Nat.strong_induction_on generalizing text with
  | _ n ih =>
    rcases splitOnce_cases sep text with ⟨absent, -⟩ | ⟨front, after, rfl, first, -⟩
    · rw [splitOn_eq_singleton absent]
      exact last text absent
    have shorter : after.length < n := by
      rw [← size, length_append, length_cons]
      omega
    rw [splitOn_append_cons_self_of_not_mem first]
    exact next front after _ first (ih _ shorter after rfl)

theorem notMem_of_mem_splitOn (isPart : part ∈ text.splitOn sep) : sep ∉ part := by
  revert isPart
  refine splitOn_induction (P := fun _ parts => part ∈ parts → sep ∉ part) ?_ ?_ text
  · intro text absent isPart
    rwa [mem_singleton.mp isPart]
  intro front after parts first ih isPart
  rcases mem_cons.mp isPart with rfl | later
  · exact first
  · exact ih later

/-- The parts of texts that are joined are the parts of the texts. -/
theorem splitOn_intercalate_eq_flatMap (sep : UInt8) {texts : List Bytes} (some_text : texts ≠ []) :
    ([sep].intercalate texts).splitOn sep = texts.flatMap (·.splitOn sep) := by
  induction texts with
  | nil => exact absurd rfl some_text
  | cons text texts ih =>
    cases texts with
    | nil => simp
    | cons next texts =>
      rw [intercalate_cons_cons, append_assoc, singleton_append,
        splitOn_append_cons_self, ih (cons_ne_nil _ _), ← flatMap_cons]

theorem length_intercalate (sep : UInt8) (some_part : parts ≠ []) :
    ([sep].intercalate parts).length + 1 = (parts.map fun part => part.length + 1).sum := by
  induction parts with
  | nil => exact absurd rfl some_part
  | cons part parts ih =>
    cases parts with
    | nil => simp
    | cons next parts =>
      have rest := ih (cons_ne_nil _ _)
      rw [intercalate_cons_cons, length_append, length_append,
        length_singleton, map_cons, sum_cons, ← rest]
      omega

theorem intercalate_snoc (sep : UInt8) (some_part : parts ≠ []) (last : Bytes) :
    [sep].intercalate (parts ++ [last]) = [sep].intercalate parts ++ [sep] ++ last := by
  induction parts with
  | nil => exact absurd rfl some_part
  | cons part parts ih =>
    cases parts with
    | nil => simp
    | cons next parts =>
      have rest := ih (cons_ne_nil _ _)
      rw [cons_append] at rest
      rw [cons_append, cons_append, intercalate_cons_cons, rest, intercalate_cons_cons]
      simp only [append_assoc]

theorem intercalate_eq_nil_iff (each : ∀ part ∈ parts, part ≠ []) :
    [sep].intercalate parts = [] ↔ parts = [] := by
  constructor
  · intro empty
    by_contra some_part
    obtain ⟨part, rest, rfl⟩ := exists_cons_of_ne_nil some_part
    have length := length_intercalate sep some_part
    have long := length_pos_of_ne_nil (each part mem_cons_self)
    rw [empty, map_cons, sum_cons, length_nil] at length
    omega
  · rintro rfl
    rfl

theorem mem_intercalate (among : b ∈ [sep].intercalate parts) :
    b = sep ∨ ∃ part ∈ parts, b ∈ part := by
  induction parts with
  | nil => cases among
  | cons part parts ih =>
    cases parts with
    | nil => exact .inr ⟨part, mem_cons_self, by simpa using among⟩
    | cons next parts =>
      rw [intercalate_cons_cons, append_assoc, mem_append, mem_append] at among
      rcases among with here | joint | later
      · exact .inr ⟨part, mem_cons_self, here⟩
      · exact .inl (mem_singleton.mp joint)
      · refine (ih later).imp_right ?_
        rintro ⟨other, isPart, here⟩
        exact ⟨other, mem_cons_of_mem _ isPart, here⟩

theorem mem_intercalate_of_mem
    (isPart : part ∈ parts) (among : b ∈ part) : b ∈ [sep].intercalate parts := by
  induction parts with
  | nil => cases isPart
  | cons first parts ih =>
    cases parts with
    | nil => simpa [mem_singleton.mp isPart] using among
    | cons next parts =>
      rw [intercalate_cons_cons, append_assoc, mem_append, mem_append]
      rcases mem_cons.mp isPart with rfl | later
      · exact .inl among
      · exact .inr (.inr (ih later))

theorem length_intercalate_le {parts' : List Bytes} (part : parts.Sublist parts') :
    ([sep].intercalate parts).length ≤ ([sep].intercalate parts').length := by
  rcases eq_or_ne parts [] with rfl | some_part
  · exact Nat.zero_le _
  have some_part' : parts' ≠ [] := fun nothing => some_part (sublist_nil.mp (nothing ▸ part))
  have fewer : (parts.map fun part => part.length + 1).sum ≤
      (parts'.map fun part => part.length + 1).sum :=
    (part.map _).sum_le_sum fun _ _ => Nat.zero_le _
  rw [← length_intercalate sep some_part, ← length_intercalate sep some_part'] at fewer
  exact Nat.le_of_succ_le_succ fewer

/-- The text behind a first byte `c`. -/
def stripFirst (c : UInt8) : Bytes → Option Bytes
  | [] => none
  | b :: rest => if b = c then some rest else none

theorem stripFirst_eq_some : stripFirst c text = some rest ↔ text = c :: rest := by
  cases text with
  | nil => simp [stripFirst]
  | cons b text => simp [stripFirst]

theorem stripFirst_eq_none : stripFirst c text = none ↔ c ∉ text.head? := by
  cases text with
  | nil => simp [stripFirst]
  | cons b text => simp [stripFirst]

/-- The text behind `front`. -/
def stripFront (front text : Bytes) : Option Bytes :=
  if front <+: text then some (text.drop front.length) else none

theorem stripFront_eq_some : stripFront front text = some rest ↔ text = front ++ rest := by
  rw [stripFront, Option.ite_none_right_eq_some, Option.some.injEq]
  constructor
  · rintro ⟨⟨after, rfl⟩, same⟩
    rw [← same, drop_left]
  · rintro rfl
    exact ⟨prefix_append _ _, drop_left⟩

/-- The text before a last byte `c`. -/
def stripLast (c : UInt8) (text : Bytes) : Option Bytes :=
  (stripFirst c text.reverse).map List.reverse

theorem stripLast_eq_some : stripLast c text = some rest ↔ text = rest ++ [c] := by
  simp only [stripLast, Option.map_eq_some_iff, stripFirst_eq_some, reverse_eq_iff]
  constructor
  · rintro ⟨back, rfl, rfl⟩
    simp
  · rintro rfl
    exact ⟨rest.reverse, by simp, by simp⟩

/-! ## UTF-8 -/

/-- The ranges of the bytes that must follow a first byte. -/
def utf8Follow (b : UInt8) : Option (List (UInt8 × UInt8)) :=
  if b < 0x80 then some []
  else if b < 0xC2 then none
  else if b < 0xE0 then some [(0x80, 0xBF)]
  else if b = 0xE0 then some [(0xA0, 0xBF), (0x80, 0xBF)]
  else if b = 0xED then some [(0x80, 0x9F), (0x80, 0xBF)]
  else if b < 0xF0 then some [(0x80, 0xBF), (0x80, 0xBF)]
  else if b = 0xF0 then some [(0x90, 0xBF), (0x80, 0xBF), (0x80, 0xBF)]
  else if b < 0xF4 then some [(0x80, 0xBF), (0x80, 0xBF), (0x80, 0xBF)]
  else if b = 0xF4 then some [(0x80, 0x8F), (0x80, 0xBF), (0x80, 0xBF)]
  else none

/-- Read one byte, given the ranges of those the current character still needs. -/
def utf8Step (needed : List (UInt8 × UInt8)) (b : UInt8) : Option (List (UInt8 × UInt8)) :=
  match needed with
  | [] => utf8Follow b
  | (low, high) :: needed => if low ≤ b ∧ b ≤ high then some needed else none

def isUtf8 (text : Bytes) : Bool :=
  text.foldlM utf8Step [] = some []

/-- ASCII in front of a text leaves it as valid as it is. -/
theorem isUtf8_ascii_append (isAscii : ∀ b ∈ front, b < 0x80) (rest : Bytes) :
    isUtf8 (front ++ rest) = isUtf8 rest := by
  have read : (front ++ rest).foldlM utf8Step [] = rest.foldlM utf8Step [] := by
    induction front with
    | nil => rfl
    | cons b front ih =>
      obtain ⟨first, isAscii⟩ := forall_mem_cons.mp isAscii
      rw [cons_append, foldlM_cons, ← ih isAscii]
      simp [utf8Step, utf8Follow, first]
  rw [isUtf8, isUtf8, read]

/-- A string: bytes that are UTF-8. -/
@[ext] structure Text where
  bytes : Bytes
  isUtf8 : isUtf8 bytes = true
deriving DecidableEq, Repr

def Text.fromUtf8 (bytes : Bytes) : Option Text :=
  if valid : Base.isUtf8 bytes = true then some ⟨bytes, valid⟩ else none

theorem Text.fromUtf8_eq_some {bytes : Bytes} {text : Text} :
    Text.fromUtf8 bytes = some text ↔ text.bytes = bytes := by
  refine dite_some_iff (fun same => same ▸ text.isUtf8) fun valid => ?_
  rw [eq_comm, Text.ext_iff]

end E6irc.Base
