import E6irc.Base.Run
import E6irc.Proto.Render
import E6irc.Proto.Text

/-!
# Lines of a byte stream

`LineBuffer` of `e6irc-proto/src/framing.rs`: received bytes are gathered into
lines that end in LF or CRLF, and a line over the limit is reported once, as
soon as it is over, and discarded to its end.  `framed` states the events from
the stream as a whole; `feed` produces them however the stream is cut.
-/

namespace E6irc

open Base List

/-- The value of the last tag `key`, read from the tag section alone. -/
def tagSectionValue (line key : Bytes) : Option Bytes := do
  let rest ← stripFirst (byte '@') line
  let (rawTags, _) ← splitOnce (byte ' ') rest
  guard (isUtf8 rawTags = true)
  guard (containsIllegalByte rawTags = false)
  let tags ← (parseTagSection rawTags).toOption
  let tag ← tags.reverse.find? (·.key = key)
  tag.value

inductive LineEvent
  | line (bytes : Bytes)
  | tooLong (label : Option Bytes)
deriving DecidableEq, Repr

/-- The event for an over-long line of which `received` was received. -/
def LineEvent.tooLongOf (received : Bytes) : LineEvent :=
  .tooLong (tagSectionValue (received.take maxClientTagsLen) (ascii "label"))

structure LineBuffer where
  buf : Bytes := []
  limit : ℕ
  discarding : Bool := false
  /-- `new` asserts it. -/
  limit_pos : 0 < limit

namespace LineBuffer

def new (limit : ℕ) (limit_pos : 0 < limit) : LineBuffer :=
  { limit, limit_pos }

/-- One byte of `feed`, and the events it adds. -/
def feedByte (buffer : LineBuffer) (b : UInt8) : LineBuffer × List LineEvent :=
  if buffer.discarding then
    ({ buffer with discarding := b ≠ byte '\n' }, [])
  else if b = byte '\n' then
    let line := (stripLast (byte '\r') buffer.buf).getD buffer.buf
    ({ buffer with buf := [] }, if line ≠ [] then [.line line] else [])
  else
    let buf := buffer.buf ++ [b]
    -- A CR at the end is probably half a terminator, and not counted.
    let effective := buf.length - if buf.getLast? = some (byte '\r') then 1 else 0
    if buffer.limit < effective then
      ({ buffer with buf := [], discarding := true }, [.tooLongOf buf])
    else
      ({ buffer with buf }, [])

def feed (buffer : LineBuffer) (data : Bytes) (out : List LineEvent) :
    LineBuffer × List LineEvent :=
  data.foldl (fun (buffer, out) b =>
    let (buffer, events) := buffer.feedByte b
    (buffer, out ++ events)) (buffer, out)

/-- The events of chunks fed one after the other to a new buffer. -/
def feedAll (limit : ℕ) (limit_pos : 0 < limit) (chunks : List Bytes) : List LineEvent :=
  (chunks.foldl (fun (buffer, out) chunk => feed buffer chunk out) (new limit limit_pos, [])).2

end LineBuffer

/-! ## The events of a stream -/

/-- A piece of a stream without the one CR it may end in. -/
def dropCr (piece : Bytes) : Bytes :=
  (stripLast (byte '\r') piece).getD piece

/-- What of a piece was received when it was first over the limit: one byte more
than that, and another if the first was a CR. -/
def received (limit : ℕ) (piece : Bytes) : Bytes :=
  piece.take (if piece[limit]? = some (byte '\r') then limit + 2 else limit + 1)

/-- The event of a piece that has not ended: one as soon as it is over the limit,
its label read by `label`. -/
def tailEvents (label : Bytes → Option Bytes) (limit : ℕ) (piece : Bytes) : List LineEvent :=
  if (dropCr piece).length ≤ limit then [] else [.tooLong (label (received limit piece))]

/-- The event of a piece that ended in LF. -/
def pieceEvents (label : Bytes → Option Bytes) (limit : ℕ) (piece : Bytes) : List LineEvent :=
  if dropCr piece = [] then []
  else if (dropCr piece).length ≤ limit then [.line (dropCr piece)]
  else [.tooLong (label (received limit piece))]

/-- The events of a stream: its pieces are what stands between its LFs. -/
def framed (label : Bytes → Option Bytes) (limit : ℕ) (stream : Bytes) : List LineEvent :=
  let pieces := stream.splitOn (byte '\n')
  pieces.dropLast.flatMap (pieceEvents label limit) ++
    tailEvents label limit (pieces.getLast?.getD [])

/-- The label of the tag section, if that ends within the budget for a client's tags. -/
def labelWithinBudget (received : Bytes) : Option Bytes :=
  tagSectionValue (received.take maxClientTagsLen) (ascii "label")

/-! ## One byte -/

/-- How much of a piece counts against the limit. -/
theorem length_dropCr (piece : Bytes) :
    (dropCr piece).length = piece.length - if piece.getLast? = some (byte '\r') then 1 else 0 := by
  cases stripped : stripLast (byte '\r') piece with
  | some line =>
    rw [dropCr, stripped, stripLast_eq_some.mp stripped]
    simp
  | none =>
    have other : piece.getLast? ≠ some (byte '\r') := by
      intro last
      obtain ⟨line, whole⟩ := List.getLast?_eq_some_iff.mp last
      rw [stripLast_eq_some.mpr whole] at stripped
      cases stripped
    simp [dropCr, stripped, other]

/-- More bytes do not bring a piece back under the limit. -/
theorem length_dropCr_le (piece : Bytes) (b : UInt8) :
    (dropCr piece).length ≤ (dropCr (piece ++ [b])).length := by
  rw [length_dropCr, length_dropCr, length_append, length_singleton]
  split
  · split <;> omega
  · split <;> omega

/-- A piece that the byte `b` takes over the limit was received as far as `b`. -/
theorem received_eq_self {limit : ℕ} {piece : Bytes} {b : UInt8}
    (before : (dropCr piece).length ≤ limit) : received limit (piece ++ [b]) = piece ++ [b] := by
  refine take_of_length_le ?_
  rw [length_dropCr] at before
  rw [length_append, length_singleton]
  by_cases last : piece.getLast? = some (byte '\r')
  · rw [if_pos last] at before
    rcases Nat.lt_or_ge limit piece.length with beyond | short
    · -- The byte past the limit was the CR that was not counted.
      rw [List.getLast?_eq_getElem?, show piece.length - 1 = limit by omega] at last
      rw [List.getElem?_append_left beyond, if_pos last]
      omega
    · split <;> omega
  · rw [if_neg last] at before
    split <;> omega

/-- What was received of a piece over the limit does not change as the piece goes on. -/
theorem received_append {limit : ℕ} {piece : Bytes} (beyond : limit < (dropCr piece).length)
    (more : Bytes) : received limit (piece ++ more) = received limit piece := by
  rw [length_dropCr] at beyond
  have longer : limit < piece.length := by omega
  rw [received, received, List.getElem?_append_left longer]
  split
  · rename_i isCr
    -- A CR that is the last byte would not have been counted.
    have another : piece.length ≠ limit + 1 := by
      intro ends
      rw [List.getLast?_eq_getElem?, show piece.length - 1 = limit by omega, if_pos isCr] at beyond
      omega
    exact take_append_of_le_length (by omega)
  · exact take_append_of_le_length (by omega)

namespace LineBuffer

variable {limit : ℕ} (limit_pos : 0 < limit)

/-- The buffer when `piece` was received since the last LF. -/
def within (piece : Bytes) : LineBuffer :=
  if (dropCr piece).length ≤ limit then { limit, limit_pos, buf := piece }
  else { limit, limit_pos, discarding := true }

/-- A byte of a piece adds what the piece is reported for beyond what it was. -/
theorem feedByte_within (piece : Bytes) {b : UInt8} (goesOn : b ≠ byte '\n') :
    ∃ events, (within limit_pos piece).feedByte b = (within limit_pos (piece ++ [b]), events) ∧
      tailEvents labelWithinBudget limit (piece ++ [b]) =
        tailEvents labelWithinBudget limit piece ++ events := by
  have grows := length_dropCr_le piece b
  by_cases before : (dropCr piece).length ≤ limit
  · have counted := length_dropCr (piece ++ [b])
    by_cases after : (dropCr (piece ++ [b])).length ≤ limit
    · refine ⟨[], ?_, ?_⟩
      · rw [within, within, if_pos before, if_pos after, feedByte, if_neg Bool.false_ne_true,
          if_neg goesOn]
        dsimp only
        rw [← counted, if_neg (Nat.not_lt.mpr after)]
      · rw [tailEvents, tailEvents, if_pos before, if_pos after]
        rfl
    · refine ⟨[.tooLongOf (piece ++ [b])], ?_, ?_⟩
      · rw [within, within, if_pos before, if_neg after, feedByte, if_neg Bool.false_ne_true,
          if_neg goesOn]
        dsimp only
        rw [← counted, if_pos (Nat.lt_of_not_le after)]
      · rw [tailEvents, tailEvents, if_pos before, if_neg after, received_eq_self before]
        rfl
  · have after : ¬(dropCr (piece ++ [b])).length ≤ limit := by omega
    refine ⟨[], ?_, ?_⟩
    · rw [within, within, if_neg before, if_neg after, feedByte, if_pos rfl]
      simp [goesOn]
    · rw [tailEvents, tailEvents, if_neg before, if_neg after,
        received_append (Nat.lt_of_not_le before), append_nil]

/-- An LF adds the line it ends, unless that was reported, and starts over. -/
theorem feedByte_lf (piece : Bytes) :
    ∃ events, (within limit_pos piece).feedByte (byte '\n') = (new limit limit_pos, events) ∧
      pieceEvents labelWithinBudget limit piece =
        tailEvents labelWithinBudget limit piece ++ events := by
  by_cases before : (dropCr piece).length ≤ limit
  · refine ⟨if dropCr piece ≠ [] then [.line (dropCr piece)] else [], ?_, ?_⟩
    · rw [within, if_pos before, feedByte, if_neg Bool.false_ne_true, if_pos rfl]
      rfl
    · rw [pieceEvents, tailEvents, if_pos before, if_pos before, nil_append, ite_not]
  · have some_line : dropCr piece ≠ [] := by
      intro empty
      simp [empty] at before
    refine ⟨[], ?_, ?_⟩
    · rw [within, if_neg before, feedByte, if_pos rfl]
      simp [new]
    · rw [pieceEvents, tailEvents, if_neg before, if_neg before, if_neg some_line, append_nil]

/-! ## The whole stream -/

theorem feed_append (buffer : LineBuffer) (front data : Bytes) (out : List LineEvent) :
    buffer.feed (front ++ data) out =
      (buffer.feed front out).1.feed data (buffer.feed front out).2 := by
  rw [feed, foldl_append]
  rfl

theorem feed_singleton (buffer : LineBuffer) (b : UInt8) (out : List LineEvent) :
    buffer.feed [b] out = ((buffer.feedByte b).1, out ++ (buffer.feedByte b).2) :=
  rfl

theorem within_nil : within limit_pos [] = new limit limit_pos := by
  rw [within, if_pos (by simp [dropCr, stripLast, stripFirst])]
  rfl

/-- Without an LF the buffer gathers, and reports at most that the piece is too long. -/
theorem feed_piece {piece : Bytes} (whole : byte '\n' ∉ piece) (out : List LineEvent) :
    (new limit limit_pos).feed piece out =
      (within limit_pos piece, out ++ tailEvents labelWithinBudget limit piece) := by
  induction piece using List.reverseRecOn with
  | nil =>
    rw [within_nil, tailEvents, if_pos (by simp [dropCr, stripLast, stripFirst]), append_nil]
    rfl
  | append_singleton piece b ih =>
    simp only [mem_append, mem_singleton, not_or] at whole
    obtain ⟨events, fed, adds⟩ := feedByte_within limit_pos piece (Ne.symm whole.2)
    rw [feed_append, ih whole.1, feed_singleton, fed, adds, append_assoc]

/-- Fed at once, a stream gives its events. -/
theorem feed_eq (stream : Bytes) (out : List LineEvent) :
    ((new limit limit_pos).feed stream out).2 = out ++ framed labelWithinBudget limit stream := by
  -- Piece by piece, each of which leaves the buffer as new.
  have pieces : stream.splitOn (byte '\n') ≠ [] ∧ ∀ out,
      ((new limit limit_pos).feed stream out).2 = out ++ framed labelWithinBudget limit stream := by
    unfold framed
    refine splitOn_induction (P := fun stream pieces => pieces ≠ [] ∧ ∀ out,
      ((new limit limit_pos).feed stream out).2 = out ++
        (pieces.dropLast.flatMap (pieceEvents labelWithinBudget limit) ++
          tailEvents labelWithinBudget limit (pieces.getLast?.getD []))) ?_ ?_ stream
    · intro piece whole
      refine ⟨cons_ne_nil _ _, fun out => ?_⟩
      rw [feed_piece limit_pos whole]
      rfl
    · intro piece after pieces whole ih
      obtain ⟨some_piece, ih⟩ := ih
      obtain ⟨events, fed, adds⟩ := feedByte_lf limit_pos piece
      refine ⟨cons_ne_nil _ _, fun out => ?_⟩
      rw [append_cons, feed_append, feed_append, feed_piece limit_pos whole, feed_singleton,
        fed, ih, append_assoc out, ← adds, dropLast_cons_of_ne_nil some_piece,
        flatMap_cons, List.getLast?_cons_of_ne_nil some_piece, append_assoc, append_assoc]
  exact pieces.2 out

/-- The events do not depend on where the stream is cut. -/
theorem feedAll_eq (chunks : List Bytes) :
    feedAll limit limit_pos chunks = framed labelWithinBudget limit chunks.flatten := by
  have once := feed_eq limit_pos chunks.flatten []
  rw [nil_append] at once
  rw [← once, feed, foldl_flatten]
  rfl

/-- However a stream is cut into chunks, the events are those of its pieces: a
line of 1 to `limit` bytes, nothing for an empty piece, and one `tooLong` for a
longer piece, ended or not, with the label of the tag section that ends within
the first 4096 bytes received of it. -/
theorem framing_of_chunks (limit_pos : 0 < limit) (chunks : List Bytes) :
    feedAll limit limit_pos chunks =
      framed (fun received => tagSectionValue (received.take 4096) (ascii "label")) limit
        chunks.flatten :=
  feedAll_eq limit_pos chunks

/-- A limit of 4 and the chunks `ab`, `cd\r`, `\n\r\nabcd\r` and `e\nx`. -/
theorem framing_of_chunks_four :
    feedAll 4 (by decide) [ascii "ab", ascii "cd\r", ascii "\n\r\nabcd\r", ascii "e\nx"] =
      [.line (ascii "abcd"), .tooLong none] := by
  rw [framing_of_chunks]
  decide +kernel

/-- A line of 4105 bytes with a label and a tag section of 4100 bytes. -/
def longSection : Bytes :=
  ascii "@label=a;" ++ List.replicate 4090 (byte 'b') ++ ascii " PING"

/-- Under a limit of 4100 bytes the tag section is received whole before the
line is over it, and its label is not reported. -/
theorem label_past_budget :
    feedAll 4100 (by decide) [longSection] ≠
      framed (fun received => tagSectionValue received (ascii "label")) 4100 longSection := by
  have fed : feedAll 4100 (by decide) [longSection] = [.tooLong none] := by
    rw [feedAll_eq]
    decide +kernel
  have whole : framed (fun received => tagSectionValue received (ascii "label")) 4100
      longSection = [.tooLong (some (ascii "a"))] := by
    decide +kernel
  rw [fed, whole]
  decide

end LineBuffer

/-! ## The label of a refused line -/

/-- A line up to its first space and with it. -/
def throughSpace (line : Bytes) : Bytes :=
  match splitOnce (byte ' ') line with
  | some (front, _) => front ++ [byte ' ']
  | none => line

theorem tagSectionValue_throughSpace (line key : Bytes) :
    tagSectionValue (throughSpace line) key = tagSectionValue line key := by
  rw [throughSpace]
  rcases splitOnce_cases (byte ' ') line with ⟨-, split⟩ | ⟨front, after, rfl, first, split⟩
  · rw [split]
  rw [split]
  cases front with
  | nil => rfl
  | cons c front =>
    have inside : byte ' ' ∉ front := fun among => first (mem_cons_of_mem c among)
    simp only [tagSectionValue, cons_append, stripFirst, Option.bind_eq_bind]
    split
    · simp only [Option.bind_some, splitOnce_append inside]
    · rfl

/-- The text before an ASCII byte of valid text is valid. -/
theorem isUtf8_before {front after : Bytes} {sep : UInt8} (isAscii : isContinuation sep = false)
    (valid : isUtf8 (front ++ sep :: after) = true) : isUtf8 front = true := by
  have cut := isUtf8_cut (i := front.length) valid (by simp) (by simp [isCharBoundary, isAscii])
  rw [take_left] at cut
  exact cut.1

theorem tagSectionValue_of_splitTags {line key untagged : Bytes} {tags : List Tag}
    (valid : isUtf8 line = true) (legal : containsIllegalByte line = false)
    (tagged : splitTags line = .ok (tags, untagged)) :
    tagSectionValue line key = (tags.reverse.find? (·.key = key)).bind (·.value) := by
  unfold splitTags at tagged
  split at tagged
  · cases tagged
    rfl
  rename_i first afterAt
  split at tagged
  · rename_i at_sign
    subst at_sign
    rcases splitOnce_cases (byte ' ') afterAt with ⟨_, split⟩ | ⟨rawTags, after, rfl, whole, split⟩
    · rw [split] at tagged
      cases tagged
    rw [split] at tagged
    obtain ⟨items, isItems, tagged⟩ := bind_eq_ok tagged
    cases tagged
    have utf8 : isUtf8 rawTags = true := isUtf8_before (by decide) <|
      (@isUtf8_ascii_append [byte '@'] (forall_mem_singleton.mpr (by decide)) _).symm.trans valid
    have clean : containsIllegalByte rawTags = false := by
      simp [containsIllegalByte] at legal ⊢
      exact legal.2.1
    simp [tagSectionValue, stripFirst, split, utf8, clean, isItems, Except.toOption]
  · rename_i other
    cases tagged
    simp [tagSectionValue, stripFirst, other]

/-- The label of a refused line: what `tag` finds in a line that parses; read off the
tag section alone, and only off one that is well formed. -/
theorem tagSectionValue_agrees (line key : Bytes) :
    (∀ message, isUtf8 line = true → Message.parse line = .ok message →
      tagSectionValue line key = (message.tag key).bind (·.value)) ∧
    tagSectionValue line key = tagSectionValue (throughSpace line) key ∧
    ∀ value, tagSectionValue line key = some value →
      ∃ rawTags after, line = byte '@' :: (rawTags ++ byte ' ' :: after) ∧ byte ' ' ∉ rawTags ∧
        isUtf8 rawTags = true ∧ containsIllegalByte rawTags = false ∧
        ∀ item ∈ rawTags.splitOn (byte ';'), (splitTail (byte '=') item).1 ≠ [] := by
  refine ⟨fun message valid parsed => ?_, (tagSectionValue_throughSpace line key).symm,
    fun value found => ?_⟩
  · obtain ⟨legal, untagged, _, _, tagged, -⟩ := Message.parse_eq_ok_iff.mp parsed
    exact tagSectionValue_of_splitTags valid legal tagged
  unfold tagSectionValue at found
  obtain ⟨rest, isRest, found⟩ := Option.bind_eq_some_iff.mp found
  obtain ⟨⟨rawTags, after⟩, split, found⟩ := Option.bind_eq_some_iff.mp found
  obtain ⟨utf8, found⟩ := guard_bind_eq_some.mp found
  obtain ⟨legal, found⟩ := guard_bind_eq_some.mp found
  obtain ⟨tags, isTags, -⟩ := Option.bind_eq_some_iff.mp found
  obtain rfl := stripFirst_eq_some.mp isRest
  obtain ⟨rfl, whole⟩ := splitOnce_eq_some_iff.mp split
  refine ⟨rawTags, after, rfl, whole, utf8, legal, fun item isItem unnamed => ?_⟩
  obtain ⟨tag, parsed⟩ := mapM_ok_iff.mp ⟨tags, toOption_eq_some isTags⟩ item isItem
  rw [splitTail] at unnamed
  rw [parseTag] at parsed
  cases split : splitOnce (byte '=') item <;> simp_all

theorem tagSectionValue_agrees_ping :
    tagSectionValue (ascii "@label=a\\sb PING") (ascii "label") = some (ascii "a b") ∧
    ∃ rawTags after, ascii "@label=a\\sb \xff" = byte '@' :: (rawTags ++ byte ' ' :: after) ∧
      byte ' ' ∉ rawTags := by
  have parsed : Message.parse (ascii "@label=a\\sb PING") =
      .ok ⟨[⟨ascii "label", some (ascii "a b")⟩], none, ascii "PING", [], false⟩ := by
    decide +kernel
  have label := (tagSectionValue_agrees _ (ascii "label")).1 _ (by decide +kernel) parsed
  obtain ⟨rawTags, after, whole, first, -⟩ :=
    (tagSectionValue_agrees (ascii "@label=a\\sb \xff") (ascii "label")).2.2 (ascii "a b")
      (by decide +kernel)
  exact ⟨label.trans (by decide +kernel), rawTags, after, whole, first⟩

end E6irc
