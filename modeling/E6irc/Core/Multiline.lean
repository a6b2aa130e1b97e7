import E6irc.Proto.Render
import E6irc.Proto.Text
import E6irc.Proto.Time

/-!
# Multiline messages

`render_multiline`, `encode_multiline` and `multiline_carries_blocked_ctcp` of
`core/handler/message.rs`.  A multiline message is a list of lines, each of
which may continue the one before.  A recipient that can reassemble it gets its
lines in a batch, over-long ones in pieces that continue each other; anyone else
gets a message for each line, trimmed.  What a recipient reads is its `joined`
text and the `logicalLines` of that, or the lines one by one.
-/

namespace E6irc

open Base List

/-! ## CTCP -/

/-- The text of a CTCP `ACTION`, if `text` is one. -/
def ctcpAction (text : Bytes) : Option Bytes := do
  let rest ← stripFront (1 :: ascii "ACTION") text
  let rest ← (stripFirst (byte ' ') rest).or
    (if rest = [] ∨ rest.head? = some 1 then some rest else none)
  return (stripLast 1 rest).getD rest

def isCtcpAction (text : Bytes) : Bool :=
  (ctcpAction text).isSome

def isBlockedCtcp (text : Bytes) : Bool :=
  text.head? = some 1 && !isCtcpAction text

/-! ## What a recipient reads -/

/-- A line and whether it continues the one before. -/
abbrev MultilineLine := Bytes × Bool

/-- Lines as one text: a line break before each that does not continue. -/
def joined : List MultilineLine → Bytes
  | [] => []
  | (text, _) :: rest =>
    text ++ rest.flatMap fun (text, concat) => (if concat then [] else [byte '\n']) ++ text

def multilineCarriesBlockedCtcp (lines : List MultilineLine) : Bool :=
  ((joined lines).splitOn (byte '\n')).any isBlockedCtcp || lines.any fun line => isBlockedCtcp line.1

/-- The lines that `current` and the lines after it are put together into. -/
def logicalFrom (current : Bytes) : List MultilineLine → List Bytes
  | [] => [current]
  | (text, true) :: rest => logicalFrom (current ++ text) rest
  | (text, false) :: rest => current :: logicalFrom text rest

def logicalLines : List MultilineLine → List Bytes
  | [] => []
  | (text, _) :: rest => logicalFrom text rest

/-! ## Rendering -/

inductive MessageKind
  | privmsg | notice
deriving DecidableEq, Repr

def MessageKind.wire : MessageKind → Bytes
  | privmsg => ascii "PRIVMSG"
  | notice => ascii "NOTICE"

structure HistoryResponseCaps where
  batch : Bool
  messageTags : Bool
  serverTime : Bool
  accountTag : Bool
  multiline : Bool
deriving DecidableEq, Repr

def HistoryResponseCaps.eventTags (caps : HistoryResponseCaps) (ts : ℕ) (msgid account : Option Bytes)
    (bot : Bool) : List Bytes :=
  (if caps.messageTags then msgid.toList.map fun msgid => ascii "msgid=" ++ msgid else []) ++
  (if caps.serverTime then [ascii "time=" ++ Time.serverTime ts] else []) ++
  (if caps.accountTag then account.toList.map fun account =>
    ascii "account=" ++ escapeTagValue account else []) ++
  if caps.messageTags && bot then [ascii "bot"] else []

/-- `tag_prefix`: the tags in front of a line. -/
def tagFront (tags : List Bytes) : Bytes :=
  if tags = [] then [] else ascii "@" ++ [byte ';'].intercalate tags ++ ascii " "

def multilineConcatTag : Bytes := ascii "draft/multiline-concat"

/-- As much of `text` as a line that starts with `head` has room for. -/
def fitTrailing (head text : Bytes) : Bytes :=
  truncateOnCharBoundary text (510 - head.length)

/-- The loop of `split_to_fit`; every round but the last takes a byte at least. -/
def splitLoop (head : Bytes) (continuable : Bool) : ℕ → Bytes → List Bytes
  | 0, _ => []
  | fuel + 1, rest =>
    let fitted := fitTrailing head rest
    -- A budget narrower than one character still moves forward.
    let piece := if fitted = [] ∧ rest ≠ [] then firstChar rest else fitted
    let after := rest.drop piece.length
    if after = [] ∨ continuable = false then [piece]
    else piece :: splitLoop head continuable fuel after

def splitToFit (head text : Bytes) (continuable : Bool) : List Bytes :=
  splitLoop head continuable (text.length + 1) text

structure MultilineMessage where
  sender : Bytes
  kind : MessageKind
  target : Bytes
  lines : List MultilineLine
  clientTags : Bytes
  msgid : Bytes
  ts : ℕ
  account : Option Bytes
  bot : Bool

structure MultilineFraming where
  caps : HistoryResponseCaps
  batchRef : Bytes
  outerBatch : Option Bytes
  label : Option Bytes
  server : Bytes

namespace MultilineMessage

variable (message : MultilineMessage) (framing : MultilineFraming)

def head : Bytes :=
  ascii ":" ++ message.sender ++ ascii " " ++ message.kind.wire ++ ascii " " ++ message.target ++
    ascii " :"

def outer : List Bytes :=
  framing.outerBatch.toList.map fun outer => ascii "batch=" ++ outer

def relayedTags : List Bytes :=
  if framing.caps.messageTags && !message.clientTags.isEmpty then [message.clientTags] else []

/-- The lines of the batch: the tags and the text of each. -/
def batched : List (List Bytes × Bytes) :=
  let caps := framing.caps
  let common := caps.eventTags message.ts none message.account message.bot
  message.lines.flatMap fun (text, concat) =>
    (splitToFit message.head text caps.messageTags).zipIdx.map fun (piece, index) =>
      ((ascii "batch=" ++ framing.batchRef) :: common ++
        (if caps.messageTags && (concat || 0 < index) then [multilineConcatTag] else []), piece)

/-- The messages for a recipient without batches: the tags and the text of each. -/
def flattened : List (List Bytes × Bytes) :=
  let caps := framing.caps
  let outer := if caps.batch then outer framing else []
  (message.lines.filter fun line => !line.1.isEmpty).zipIdx.map fun ((text, _), index) =>
    (outer ++ caps.eventTags message.ts (if index = 0 then some message.msgid else none)
      message.account message.bot ++ relayedTags message framing, fitTrailing message.head text)

/-- One line of the message. -/
def relayedLine (line : List Bytes × Bytes) : Bytes :=
  tagFront line.1 ++ (message.head ++ line.2)

def openingTags : List Bytes :=
  outer framing ++ (framing.label.toList.map fun label => ascii "label=" ++ label) ++
    framing.caps.eventTags message.ts (some message.msgid) message.account message.bot ++
    relayedTags message framing

/-- The lines sent to one recipient, without CRLF. -/
def render : List Bytes :=
  let caps := framing.caps
  if caps.multiline && caps.batch then
    [tagFront (openingTags message framing) ++ (ascii ":" ++ message.sender ++ ascii " BATCH +" ++
      framing.batchRef ++ ascii " draft/multiline " ++ message.target)] ++
    (batched message framing).map message.relayedLine ++
    [tagFront (outer framing) ++ (ascii ":" ++ framing.server ++ ascii " BATCH -" ++ framing.batchRef)]
  else (flattened message framing).map message.relayedLine

end MultilineMessage

/-! ## Storage -/

def encodeMultiline (lines : List MultilineLine) : Bytes :=
  [byte '\n'].intercalate (lines.map fun (text, concat) =>
    (if concat then byte '1' else byte '0') :: text)

def decodeMultiline (encoded : Bytes) : List MultilineLine :=
  (encoded.splitOn (byte '\n')).map fun line =>
    (if 1 ≤ line.length ∧ isCharBoundary line 1 then line.drop 1 else [],
      line.head? = some (byte '1'))

/-! ## Cutting a line -/

section

variable {head text : Bytes}

theorem length_fitTrailing (fits : head.length ≤ 510) :
    (head ++ fitTrailing head text).length ≤ 510 := by
  have short := length_truncateOnCharBoundary text (510 - head.length)
  rw [length_append, fitTrailing]
  omega

/-- With room for a character every piece has one. -/
theorem fitTrailing_ne_nil (room : head.length ≤ 506) (valid : isUtf8 text = true)
    (some_text : text ≠ []) : fitTrailing head text ≠ [] :=
  truncateOnCharBoundary_ne_nil valid some_text (by omega)

theorem isUtf8_after_fitTrailing (valid : isUtf8 text = true) :
    isUtf8 (text.drop (fitTrailing head text).length) = true := by
  rw [fitTrailing, truncateOnCharBoundary, length_take_of_le (floorCharBoundary_le_length _ _)]
  rcases boundary_floorCharBoundary text (510 - head.length) with zero | boundary
  · rw [zero]
    exact valid
  · exact (isUtf8_cut valid (floorCharBoundary_le_length _ _) boundary).2

theorem splitLoop_succ (room : head.length ≤ 506) (valid : isUtf8 text = true) (continuable : Bool)
    (fuel : ℕ) :
    splitLoop head continuable (fuel + 1) text =
      fitTrailing head text ::
        if text.drop (fitTrailing head text).length = [] ∨ continuable = false then []
        else splitLoop head continuable fuel (text.drop (fitTrailing head text).length) := by
  have fitted : ¬(fitTrailing head text = [] ∧ text ≠ []) :=
    fun ⟨empty, some_text⟩ => fitTrailing_ne_nil room valid some_text empty
  rw [splitLoop, if_neg fitted]
  split
  · rfl
  · rfl

/-- The pieces of a line are the line, and each fits. -/
theorem splitLoop_flatten (room : head.length ≤ 506) (valid : isUtf8 text = true) {fuel : ℕ}
    (enough : text.length < fuel) :
    (splitLoop head true fuel text).flatten = text ∧
      ∀ piece ∈ splitLoop head true fuel text, (head ++ piece).length ≤ 510 := by
  induction fuel generalizing text with
  | zero => cases enough
  | succ fuel ih =>
    obtain ⟨after, whole⟩ : fitTrailing head text <+: text := truncateOnCharBoundary_cuts _ _
    have rest : text.drop (fitTrailing head text).length = after :=
      calc text.drop (fitTrailing head text).length
          = (fitTrailing head text ++ after).drop (fitTrailing head text).length := by rw [whole]
        _ = after := drop_left
    have fits : (head ++ fitTrailing head text).length ≤ 510 := length_fitTrailing (by omega)
    rw [splitLoop_succ room valid, rest]
    split
    · rename_i ends
      have ends : after = [] := by simpa using ends
      rw [ends, append_nil] at whole
      exact ⟨by simpa using whole, by simpa using fits⟩
    · rename_i goesOn
      have some_rest : after ≠ [] := by simpa using goesOn
      have validRest : isUtf8 after = true := rest ▸ isUtf8_after_fitTrailing valid
      have some_text : text ≠ [] := by
        rintro rfl
        simp at whole
        exact some_rest whole.2
      have taken := length_pos_of_ne_nil (fitTrailing_ne_nil room valid some_text)
      have size := congrArg List.length whole
      rw [length_append] at size
      obtain ⟨joins, each⟩ := ih validRest (by omega)
      refine ⟨by rw [flatten_cons, joins, whole], ?_⟩
      exact forall_mem_cons.mpr ⟨fits, each⟩

end

/-! ## Putting lines together -/

/-- A line and its pieces: the first as the line, the others continuing it. -/
def continued (concat : Bool) : List Bytes → List MultilineLine
  | [] => []
  | piece :: pieces => (piece, concat) :: pieces.map fun piece => (piece, true)

theorem logicalFrom_continue (current : Bytes) (pieces : List Bytes) (rest : List MultilineLine) :
    logicalFrom current ((pieces.map fun piece => (piece, true)) ++ rest) =
      logicalFrom (current ++ pieces.flatten) rest := by
  induction pieces generalizing current with
  | nil => simp
  | cons piece pieces ih =>
    rw [map_cons, cons_append, logicalFrom, ih, flatten_cons, append_assoc]

variable {lines : List MultilineLine} {split : MultilineLine → List Bytes} {b : UInt8}

/-- Splitting lines into pieces does not change what they are put together into. -/
theorem logicalFrom_continued
    (whole : ∀ line ∈ lines, split line ≠ [] ∧ (split line).flatten = line.1) (current : Bytes) :
    logicalFrom current (lines.flatMap fun line => continued line.2 (split line)) =
      logicalFrom current lines := by
  induction lines generalizing current with
  | nil => rfl
  | cons line lines ih =>
    obtain ⟨text, concat⟩ := line
    obtain ⟨⟨some_piece, pieces⟩, later⟩ := forall_mem_cons.mp whole
    obtain ⟨first, others, isSplit⟩ := exists_cons_of_ne_nil some_piece
    rw [isSplit, flatten_cons] at pieces
    rw [flatMap_cons, isSplit, continued, cons_append]
    cases concat with
    | true =>
      rw [logicalFrom, logicalFrom, logicalFrom_continue, append_assoc, pieces, ih later]
    | false => rw [logicalFrom, logicalFrom, logicalFrom_continue, pieces, ih later]

theorem logicalLines_continued
    (whole : ∀ line ∈ lines, split line ≠ [] ∧ (split line).flatten = line.1) :
    logicalLines (lines.flatMap fun line => continued line.2 (split line)) = logicalLines lines := by
  cases lines with
  | nil => rfl
  | cons line lines =>
    obtain ⟨⟨some_piece, pieces⟩, later⟩ := forall_mem_cons.mp whole
    obtain ⟨first, others, isSplit⟩ := exists_cons_of_ne_nil some_piece
    rw [isSplit, flatten_cons] at pieces
    rw [flatMap_cons, isSplit, continued, cons_append, logicalLines, logicalLines,
      logicalFrom_continue, pieces, logicalFrom_continued later]

theorem logicalFrom_ne_nil (current : Bytes) (rest : List MultilineLine) :
    logicalFrom current rest ≠ [] := by
  induction rest generalizing current with
  | nil => exact cons_ne_nil _ _
  | cons line rest ih =>
    obtain ⟨text, concat⟩ := line
    cases concat with
    | true => exact ih _
    | false => exact cons_ne_nil _ _

theorem joined_from (current : Bytes) (rest : List MultilineLine) :
    (current ++ rest.flatMap fun (text, concat) => (if concat then [] else [byte '\n']) ++ text) =
      [byte '\n'].intercalate (logicalFrom current rest) := by
  induction rest generalizing current with
  | nil => simp [logicalFrom]
  | cons line rest ih =>
    obtain ⟨text, concat⟩ := line
    cases concat with
    | true => simp [logicalFrom, ← ih]
    | false =>
      obtain ⟨first, others, more⟩ := exists_cons_of_ne_nil (logicalFrom_ne_nil text rest)
      rw [logicalFrom, more, intercalate_cons_cons, ← more, ← ih]
      simp

/-- The text is its logical lines, with a line break between them. -/
theorem joined_eq (lines : List MultilineLine) :
    joined lines = [byte '\n'].intercalate (logicalLines lines) := by
  cases lines with
  | nil => rfl
  | cons line rest => exact joined_from line.1 rest

theorem mem_logicalFrom {current line : Bytes} {rest : List MultilineLine}
    (isLine : line ∈ logicalFrom current rest) (among : b ∈ line) :
    b ∈ current ∨ ∃ other ∈ rest, b ∈ other.1 := by
  induction rest generalizing current with
  | nil =>
    rw [logicalFrom, mem_singleton] at isLine
    exact .inl (isLine ▸ among)
  | cons first rest ih =>
    obtain ⟨text, concat⟩ := first
    cases concat with
    | true =>
      rcases ih isLine with here | ⟨other, later, inOther⟩
      · rcases mem_append.mp here with before | inText
        · exact .inl before
        · exact .inr ⟨_, mem_cons_self, inText⟩
      · exact .inr ⟨other, mem_cons_of_mem _ later, inOther⟩
    | false =>
      rcases mem_cons.mp isLine with rfl | isLater
      · exact .inl among
      · rcases ih isLater with inText | ⟨other, later, inOther⟩
        · exact .inr ⟨_, mem_cons_self, inText⟩
        · exact .inr ⟨other, mem_cons_of_mem _ later, inOther⟩

/-- Without line breaks in them, the lines put together are those between the line
breaks of the text. -/
theorem splitOn_joined (some_line : lines ≠ []) (unbroken : ∀ line ∈ lines, byte '\n' ∉ line.1) :
    (joined lines).splitOn (byte '\n') = logicalLines lines := by
  rw [joined_eq]
  obtain ⟨⟨text, concat⟩, rest, rfl⟩ := exists_cons_of_ne_nil some_line
  refine splitOn_intercalate _ (fun line isLine among => ?_) (logicalFrom_ne_nil text rest)
  rcases mem_logicalFrom isLine among with inText | ⟨other, later, inOther⟩
  · exact unbroken _ mem_cons_self inText
  · exact unbroken other (mem_cons_of_mem _ later) inOther

/-! ## The batch -/

theorem map_zipIdx_succ {β : Type} (f : Bytes → Bool → β) (pieces : List Bytes) (k : ℕ) :
    ((pieces.zipIdx (k + 1)).map fun (piece, index) => f piece (0 < index)) =
      pieces.map fun piece => f piece true := by
  induction pieces generalizing k with
  | nil => rfl
  | cons piece pieces ih =>
    rw [zipIdx_cons, map_cons, map_cons, ih]
    simp

/-- Each piece but the first continues its line. -/
theorem map_zipIdx_eq (concat : Bool) (pieces : List Bytes) :
    (pieces.zipIdx.map fun x => (x.1, concat || decide (0 < x.2))) = continued concat pieces := by
  cases pieces with
  | nil => rfl
  | cons piece pieces =>
    have later := map_zipIdx_succ (fun piece continues => (piece, concat || continues)) pieces 0
    rw [zipIdx_cons, map_cons, continued]
    simpa using later

theorem concatTag_ne {key value : Bytes} (other : b ≠ byte 'd') :
    multilineConcatTag ≠ (b :: key) ++ value :=
  fun same => other (List.cons.inj same).1.symm

/-- No tag of an event marks a continuation. -/
theorem concatTag_notMem_eventTags (caps : HistoryResponseCaps) (ts : ℕ)
    (msgid account : Option Bytes) (bot : Bool) :
    multilineConcatTag ∉ caps.eventTags ts msgid account bot := by
  intro among
  simp only [HistoryResponseCaps.eventTags, mem_append] at among
  rcases among with ((isMsgid | isTime) | isAccount) | isBot
  · split at isMsgid
    · obtain ⟨_, _, same⟩ := mem_map.mp isMsgid
      exact concatTag_ne (by decide) same.symm
    · cases isMsgid
  · split at isTime
    · exact concatTag_ne (by decide) (mem_singleton.mp isTime)
    · cases isTime
  · split at isAccount
    · obtain ⟨_, _, same⟩ := mem_map.mp isAccount
      exact concatTag_ne (by decide) same.symm
    · cases isAccount
  · split at isBot
    · revert isBot
      decide
    · cases isBot

namespace MultilineMessage

variable {message : MultilineMessage} {framing : MultilineFraming}

/-- What a recipient that can reassemble the batch reads of its lines. -/
def readBatch (relayed : List (List Bytes × Bytes)) : List MultilineLine :=
  relayed.map fun (tags, text) => (text, multilineConcatTag ∈ tags)

theorem readBatch_batched (tagged : framing.caps.messageTags = true) :
    readBatch (message.batched framing) =
      message.lines.flatMap fun line => continued line.2 (splitToFit message.head line.1 true) := by
  rw [readBatch, batched, map_flatMap]
  refine flatMap_congr fun line _ => ?_
  obtain ⟨text, concat⟩ := line
  have others := concatTag_notMem_eventTags framing.caps message.ts none message.account message.bot
  have notRef : multilineConcatTag ≠ ascii "batch=" ++ framing.batchRef := concatTag_ne (by decide)
  have flag : ∀ continues : Bool, decide (multilineConcatTag ∈
      (ascii "batch=" ++ framing.batchRef) ::
          framing.caps.eventTags message.ts none message.account message.bot ++
        (if true && continues then [multilineConcatTag] else [])) = continues := by
    intro continues
    cases continues <;> simp [others, notRef]
  rw [map_map, tagged]
  simp only [Function.comp_def, flag]
  exact map_zipIdx_eq concat _

variable {text : Bytes} {relayed : List Bytes × Bytes}

/-- Every line of a batch for a recipient with `message-tags` is whole in its pieces. -/
theorem splitToFit_whole {head : Bytes} (room : head.length ≤ 506) (valid : isUtf8 text = true) :
    splitToFit head text true ≠ [] ∧ (splitToFit head text true).flatten = text ∧
      ∀ piece ∈ splitToFit head text true, (head ++ piece).length ≤ 510 := by
  obtain ⟨whole, fits⟩ := splitLoop_flatten room valid (Nat.lt_succ_self text.length)
  refine ⟨?_, whole, fits⟩
  rw [splitToFit, splitLoop_succ room valid]
  exact cons_ne_nil _ _

/-- The batch is put together into the sender's lines. -/
theorem logicalLines_batched (tagged : framing.caps.messageTags = true)
    (valid : ∀ line ∈ message.lines, isUtf8 line.1 = true) (room : message.head.length ≤ 506) :
    logicalLines (readBatch (message.batched framing)) = logicalLines message.lines := by
  rw [readBatch_batched tagged]
  refine logicalLines_continued fun line among => ?_
  obtain ⟨some_piece, whole, _⟩ := splitToFit_whole room (valid line among)
  exact ⟨some_piece, whole⟩

theorem decode_encode {lines : List MultilineLine} (some_line : lines ≠ [])
    (valid : ∀ line ∈ lines, isUtf8 line.1 = true) (unbroken : ∀ line ∈ lines, byte '\n' ∉ line.1) :
    decodeMultiline (encodeMultiline lines) = lines := by
  have written : ∀ line ∈ lines.map fun (text, concat) =>
      (if concat then byte '1' else byte '0') :: text, byte '\n' ∉ line := by
    intro line isLine
    obtain ⟨⟨text, concat⟩, among, rfl⟩ := mem_map.mp isLine
    rw [mem_cons, not_or]
    refine ⟨?_, unbroken _ among⟩
    cases concat <;> decide
  rw [decodeMultiline, encodeMultiline, splitOn_intercalate _ written (by simpa using some_line),
    map_map]
  refine (map_congr_left fun line among => ?_).trans (map_id lines)
  obtain ⟨text, concat⟩ := line
  have boundary : isCharBoundary text 0 = true :=
    (boundary_of_needed (of_decide_eq_true (valid _ among))).2
  have start : ∀ flag : UInt8, isCharBoundary (flag :: text) 1 = true := fun flag => boundary
  cases concat with
  | true => simp [start]
  | false => simp [start]; decide

/-- Two lines, the second blank, and a third that continues it. -/
def greeting : MultilineMessage where
  sender := ascii "a!b@c"
  kind := .privmsg
  target := ascii "#m"
  lines := [(ascii "hi", false), ([], false), (ascii "you", true)]
  clientTags := []
  msgid := ascii "id"
  ts := 0
  account := none
  bot := false

def able : MultilineFraming where
  caps := ⟨true, true, false, false, true⟩
  batchRef := ascii "r"
  outerBatch := none
  label := none
  server := ascii "s"

/-- An `ACTION` ends after its name, at a space or at the closing byte. -/
theorem isCtcpAction_iff : isCtcpAction text = true ↔ ∃ rest, text = 1 :: ascii "ACTION" ++ rest ∧
      (rest = [] ∨ rest.head? = some (byte ' ') ∨ rest.head? = some 1) := by
  have body : ∀ rest : Bytes, (((stripFirst (byte ' ') rest).or
      (if rest = [] ∨ rest.head? = some 1 then some rest else none)).isSome = true ↔
        (rest = [] ∨ rest.head? = some (byte ' ') ∨ rest.head? = some 1)) := by
    intro rest
    cases stripped : stripFirst (byte ' ') rest with
    | some body =>
      rw [stripFirst_eq_some.mp stripped]
      simp
    | none =>
      have other : rest.head? ≠ some (byte ' ') := stripFirst_eq_none.mp stripped
      simp [other]
  constructor
  · intro action
    obtain ⟨said, action⟩ := Option.isSome_iff_exists.mp action
    obtain ⟨rest, front, action⟩ := Option.bind_eq_some_iff.mp action
    obtain ⟨text, isBody, _⟩ := Option.bind_eq_some_iff.mp action
    refine ⟨rest, stripFront_eq_some.mp front, (body rest).mp ?_⟩
    exact Option.isSome_iff_exists.mpr ⟨text, isBody⟩
  · rintro ⟨rest, whole, ends⟩
    obtain ⟨said, isBody⟩ := Option.isSome_iff_exists.mp ((body rest).mpr ends)
    refine Option.isSome_iff_exists.mpr ⟨(stripLast 1 said).getD said, ?_⟩
    refine Option.bind_eq_some_iff.mpr ⟨rest, stripFront_eq_some.mpr whole, ?_⟩
    exact Option.bind_eq_some_iff.mpr ⟨said, isBody, rfl⟩

theorem isBlockedCtcp_eq_false_iff :
    isBlockedCtcp text = false ↔ text.head? ≠ some 1 ∨ isCtcpAction text = true := by
  simp only [isBlockedCtcp, Bool.and_eq_false_iff, decide_eq_false_iff_not, Bool.not_eq_false']

/-- A cut that keeps the tag of a CTCP keeps it an `ACTION`. -/
theorem isBlockedCtcp_cut (valid : isUtf8 text = true) {maxBytes : ℕ}
    (room : 8 ≤ maxBytes) (passed : isBlockedCtcp text = false) :
    isBlockedCtcp (truncateOnCharBoundary text maxBytes) = false := by
  rw [isBlockedCtcp_eq_false_iff] at passed ⊢
  rcases passed with other | action
  · left
    intro first
    obtain ⟨rest, whole⟩ := truncateOnCharBoundary_cuts text maxBytes
    rw [← whole, List.head?_append, first] at other
    exact other rfl
  · obtain ⟨rest, rfl, ends⟩ := isCtcpAction_iff.mp action
    cases rest with
    | nil =>
      rw [truncateOnCharBoundary_eq_self (by simp; exact room.trans' (by decide))]
      exact .inr action
    | cons b more =>
      -- The first eight bytes are ASCII, so the text can be cut behind them.
      have tag : ∀ other ∈ 1 :: ascii "ACTION" ++ [b], other < 0x80 := by
        have closes : b < 0x80 := by
          rcases ends with none | space | closing
          · cases none
          · cases space
            decide
          · cases closing
            decide
        have named : ((1 :: ascii "ACTION").all fun other => decide (other < 0x80)) = true := by
          decide
        refine forall_mem_append.mpr ⟨fun other among => ?_, forall_mem_singleton.mpr closes⟩
        exact of_decide_eq_true (all_eq_true.mp named other among)
      have parts : 1 :: ascii "ACTION" ++ b :: more = (1 :: ascii "ACTION" ++ [b]) ++ more := by simp
      have eight : (1 :: ascii "ACTION" ++ [b]).length = 8 := rfl
      rw [parts] at valid ⊢
      have validMore : isUtf8 more = true := by rwa [isUtf8_ascii_append tag] at valid
      have start := (boundary_of_needed (of_decide_eq_true validMore)).2
      have boundary : isCharBoundary ((1 :: ascii "ACTION" ++ [b]) ++ more) 8 = true := by
        rw [isCharBoundary, List.getElem?_append_right (le_of_eq eight)]
        exact start
      have kept : 8 ≤ floorCharBoundary ((1 :: ascii "ACTION" ++ [b]) ++ more) maxBytes :=
        le_floorCharBoundary room (by rw [length_append, eight]; omega) boundary
      right
      refine isCtcpAction_iff.mpr ⟨b :: more.take (floorCharBoundary
        ((1 :: ascii "ACTION" ++ [b]) ++ more) maxBytes - 8), ?_, by simpa using ends⟩
      rw [truncateOnCharBoundary, take_append, eight, take_of_length_le (by rw [eight]; exact kept)]
      simp

theorem batched_texts (valid : ∀ line ∈ message.lines, isUtf8 line.1 = true)
    (room : message.head.length ≤ 506) (untagged : framing.caps.messageTags = false)
    (among : relayed ∈ message.batched framing) :
    ∃ line ∈ message.lines, relayed.2 = fitTrailing message.head line.1 := by
  obtain ⟨⟨text, concat⟩, isLine, among⟩ := mem_flatMap.mp among
  obtain ⟨⟨piece, index⟩, isPiece, rfl⟩ := mem_map.mp among
  rw [untagged] at isPiece
  have isPiece := fst_mem_of_mem_zipIdx isPiece
  rw [splitToFit, splitLoop_succ room (valid _ isLine), if_pos (.inr rfl), mem_singleton] at isPiece
  exact ⟨_, isLine, isPiece⟩

theorem flattened_texts (among : relayed ∈ message.flattened framing) :
    ∃ line ∈ message.lines, relayed.2 = fitTrailing message.head line.1 := by
  obtain ⟨⟨⟨text, concat⟩, index⟩, isLine, rfl⟩ := mem_map.mp among
  have isLine := (mem_filter.mp (fst_mem_of_mem_zipIdx isLine)).1
  exact ⟨_, isLine, rfl⟩

end MultilineMessage

end E6irc
