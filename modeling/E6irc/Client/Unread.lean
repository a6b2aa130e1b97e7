import E6irc.Base.Result
import E6irc.Base.Run
import E6irc.Client.Join

/-!
# What a join calls all that is unread

A server keeps the lines of a channel in the order of their times, and answers a
request for the lines after an anchor with the oldest of them in one batch.  Other
traffic may stand anywhere, and a line that the reader cannot take arrives as a
rejection in its place (`Playback`).

A page is measured by the lines read as messages.  A page with a rejected line
therefore looks short, whether or not the server cut it.
-/

namespace E6irc.Client

open Base Time List Connection

/-! ## The server -/

structure StoredLine where
  msgid : Bytes
  time : ℕ
  /-- Neither over-long nor malformed. -/
  readable : Bool
deriving DecidableEq, Repr

structure History where
  lines : List StoredLine
  sorted : lines.Pairwise (·.time ≤ ·.time)
  distinct : (lines.map StoredLine.msgid).Nodup

def History.after (h : History) : Anchor → List StoredLine
  | .marker millis => h.lines.filter (millis < ·.time)
  | .msgid id => (h.lines.dropWhile (·.msgid ≠ id)).tail
  | .time text => (parseServerTimeMillis text).elim [] fun millis =>
    h.lines.filter (millis < ·.time)

def ClientEvent.message? : ClientEvent → Option OwnedMessage
  | .message read => some read
  | .rejected _ => none

/-- No batch of history begins here. -/
def ClientEvent.Quiet (event : ClientEvent) : Prop :=
  ∀ message ∈ event.message?, message.opensHistory = none

/-- Traffic that is no part of the batch. -/
def ClientEvent.Outside (batch : Bytes) (event : ClientEvent) : Prop :=
  ∀ message ∈ event.message?, message.opensHistory = none ∧ message.closesBatch ≠ some batch ∧
    message.tag (ascii "batch") ≠ some batch

/-- The message carries the line in the batch. -/
structure StoredLine.SentAs (line : StoredLine) (batch : Bytes) (message : OwnedMessage) : Prop where
  tagged : message.tag (ascii "batch") = some batch
  named : message.tag (ascii "msgid") = some line.msgid
  timed : message.tag (ascii "time") = some (serverTime line.time)
  noPing : message.command ≠ ascii "PING"
  opensNone : message.opensHistory = none
  leavesOpen : message.closesBatch ≠ some batch

/-- The lines, then the end of the batch. -/
inductive Playing (batch : Bytes) : List StoredLine → List ClientEvent → Prop
  | closes {message : OwnedMessage} {after : List ClientEvent} :
    message.closesBatch = some batch → (∀ event ∈ after, event.Quiet) →
      Playing batch [] (.message message :: after)
  | outside {event : ClientEvent} {lines : List StoredLine} {events : List ClientEvent} :
    event.Outside batch → Playing batch lines events → Playing batch lines (event :: events)
  | sent {line : StoredLine} {message : OwnedMessage} {lines : List StoredLine}
      {events : List ClientEvent} :
    line.readable = true → line.SentAs batch message → Playing batch lines events →
      Playing batch (line :: lines) (.message message :: events)
  | rejected {line : StoredLine} {reason : RejectedLine} {lines : List StoredLine}
      {events : List ClientEvent} :
    line.readable = false → Playing batch lines events →
      Playing batch (line :: lines) (.rejected reason :: events)

/-- The lines in one batch of history. -/
inductive Playback (lines : List StoredLine) : List ClientEvent → Prop
  | quiet {event : ClientEvent} {events : List ClientEvent} :
    event.Quiet → Playback lines events → Playback lines (event :: events)
  | opens {batch : Bytes} {message : OwnedMessage} {events : List ClientEvent} :
    message.opensHistory = some batch → Playing batch lines events →
      Playback lines (.message message :: events)

/-- A server that plays history back when it is asked to, and only then. -/
structure Server (h : History) where
  answers : Answers
  join_quiet : ∀ log target, ∀ event ∈ answers (log ++ [.join target]), event.Quiet
  pong_quiet : ∀ log token, ∀ event ∈ answers (log ++ [.pong token]), event.Quiet
  plays : ∀ log target anchor count,
    Playback ((h.after anchor).take count) (answers (log ++ [.after target anchor count]))

/-- The line was in a batch that one of the requests asked for. -/
def History.Delivered (h : History) (requests : List Request) (line : StoredLine) : Prop :=
  ∃ target anchor count, .after target anchor count ∈ requests ∧ line ∈ (h.after anchor).take count

/-- No page that leaves lines behind it has one that the reader rejects. -/
def History.CutsReadably (h : History) (requests : List Request) : Prop :=
  ∀ target anchor count, .after target anchor count ∈ requests →
    count < (h.after anchor).length → ∀ line ∈ (h.after anchor).take count, line.readable = true

/-! ## Lines after an anchor -/

section

variable {h : History} {line : StoredLine} {front back rest : List StoredLine}

theorem filter_later_suffix {lines : List StoredLine} (sorted : lines.Pairwise (·.time ≤ ·.time))
    (millis : ℕ) : lines.filter (millis < ·.time) <:+ lines := by
  induction lines with
  | nil => exact nil_suffix
  | cons first later ih =>
    obtain ⟨earliest, sorted⟩ := pairwise_cons.mp sorted
    by_cases isAfter : millis < first.time
    · have all : (first :: later).filter (millis < ·.time) = first :: later := by
        refine filter_eq_self.mpr (forall_mem_cons.mpr ⟨by simpa using isAfter, ?_⟩)
        intro line mem
        simpa using Nat.lt_of_lt_of_le isAfter (earliest line mem)
      rw [all]
    · rw [filter_cons_of_neg (by simpa using isAfter)]
      exact (ih sorted).trans (suffix_cons _ _)

theorem after_suffix (h : History) (anchor : Anchor) : h.after anchor <:+ h.lines := by
  cases anchor with
  | marker millis => exact filter_later_suffix h.sorted millis
  | msgid id => exact (tail_suffix _).trans (dropWhile_suffix _)
  | time text =>
    cases parsed : parseServerTimeMillis text with
    | none => simp [History.after, parsed]
    | some millis =>
      simpa [History.after, parsed] using filter_later_suffix h.sorted millis

theorem after_nodup (h : History) (anchor : Anchor) : (h.after anchor).Nodup :=
  (List.Nodup.of_map _ h.distinct).sublist (after_suffix h anchor).sublist

theorem after_msgid (suffix : front ++ line :: back <:+ h.lines) :
    h.after (.msgid line.msgid) = back := by
  obtain ⟨before, whole⟩ := suffix
  have distinct := h.distinct
  rw [← whole, ← append_assoc, map_append, map_cons] at distinct
  have absent : line.msgid ∉ (before ++ front).map StoredLine.msgid := fun mem =>
    (nodup_append.mp distinct).2.2 _ mem _ mem_cons_self rfl
  have apart : ∀ other ∈ before ++ front, decide (other.msgid ≠ line.msgid) = true := by
    intro other mem
    exact decide_eq_true fun same => absent (mem_map.mpr ⟨other, mem, same⟩)
  rw [History.after, ← whole, ← append_assoc, dropWhile_append_of_pos apart]
  simp

end

/-! ## Reading -/

section

variable {h : History} {server : Server h} {c c' : Connection} {events events' : List ClientEvent}
  {lines : List StoredLine} {batch : Bytes} {limit patience : ℕ}

/-- What was sent in between only answers a `PING`. -/
def OnlyPongs (requests : List Request) : Prop :=
  ∀ request ∈ requests, ∃ token, request = .pong token

theorem sendLine_eq_ok {answers : Answers} {request : Request}
    (sent : c.sendLine answers request = .ok c') :
    c'.sent = c.sent ++ [request] ∧ c'.incoming = c.incoming ++ answers (c.sent ++ [request]) := by
  unfold sendLine at sent
  split at sent
  · contradiction
  split at sent
  · contradiction
  · cases sent
    exact ⟨rfl, rfl⟩

/-- The event is no message to act on. -/
def ClientEvent.Skipped (event : ClientEvent) : Prop :=
  ∀ message ∈ event.message?, message.command = ascii "PING"

/-- One event is read; a `PING` may bring more traffic. -/
theorem nextJoinEvent_eq_ok {context : Bytes} {message : Option OwnedMessage}
    (read : c.nextJoinEvent server.answers events limit context = .ok (message, events', c')) :
    ∃ event rest more pongs, c.incoming = event :: rest ∧ c'.incoming = rest ++ more ∧
      (∀ event ∈ more, event.Quiet) ∧ c'.sent = c.sent ++ pongs ∧ OnlyPongs pongs ∧
      message.elim event.Skipped (event = .message ·) := by
  unfold nextJoinEvent at read
  split at read
  · contradiction
  unfold nextEventLossy at read
  rcases incoming : c.incoming with _ | ⟨event, rest⟩
  · simp [incoming] at read
  rw [incoming] at read
  cases event with
  | rejected reason =>
    obtain ⟨rfl, rfl, rfl⟩ : none = message ∧ _ = events' ∧ _ = c' := by simpa using read
    exact ⟨_, rest, [], [], rfl, by simp, by simp, by simp, by simp [OnlyPongs],
      fun _ none => nomatch none⟩
  | message m =>
    obtain ⟨⟨answered, after⟩, replied, result⟩ := map_eq_ok read
    obtain ⟨rfl, rfl, rfl⟩ : message = _ ∧ events' = events ∧ c' = after := by
      simpa using result
    unfold answerPing at replied
    split at replied
    · rename_i ping
      obtain ⟨written, sent, same⟩ := map_eq_ok replied
      cases same
      obtain ⟨log, incoming⟩ := sendLine_eq_ok sent
      refine ⟨_, rest, _, _, rfl, incoming, server.pong_quiet _ _, log, ?_, ?_⟩
      · exact forall_mem_singleton.mpr ⟨_, rfl⟩
      · rintro _ ⟨⟩
        exact ping
    · cases replied
      exact ⟨_, rest, [], [], rfl, by simp [adoptIsupport], by simp,
        by simp [adoptIsupport], by simp [OnlyPongs], rfl⟩

theorem Playing.more {more : List ClientEvent} (playing : Playing batch lines events)
    (quiet : ∀ event ∈ more, event.Quiet) : Playing batch lines (events ++ more) := by
  induction playing with
  | closes closing after => exact .closes closing (forall_mem_append.mpr ⟨after, quiet⟩)
  | outside outside _ ih => exact .outside outside ih
  | sent readable carries _ ih => exact .sent readable carries ih
  | rejected unreadable _ ih => exact .rejected unreadable ih

theorem Playback.more {more : List ClientEvent} (playback : Playback lines events)
    (quiet : ∀ event ∈ more, event.Quiet) : Playback lines (events ++ more) := by
  induction playback with
  | quiet first _ ih => exact .quiet first ih
  | opens opening playing => exact .opens opening (playing.more quiet)

theorem Playback.behind {before : List ClientEvent} (playback : Playback lines events)
    (quiet : ∀ event ∈ before, event.Quiet) : Playback lines (before ++ events) := by
  induction before with
  | nil => exact playback
  | cons event before ih =>
    obtain ⟨first, quiet⟩ := forall_mem_cons.mp quiet
    exact .quiet first (ih quiet)

theorem opensHistory_of_closes {message : OwnedMessage} (closes : message.closesBatch = some batch) :
    message.command = ascii "BATCH" ∧ message.opensHistory = none := by
  obtain ⟨isBatch, closing⟩ := guard_bind_eq_some.mp closes
  refine ⟨isBatch, ?_⟩
  obtain ⟨reference, first, stripped⟩ := Option.bind_eq_some_iff.mp closing
  obtain rfl := stripFirst_eq_some.mp stripped
  have noPlus : stripFirst (byte '+') (byte '-' :: batch) = none :=
    stripFirst_eq_none.mpr (by simp [show byte '-' ≠ byte '+' by decide])
  simp [OwnedMessage.opensHistory, first, noPlus]

theorem command_of_opens {message : OwnedMessage} (opens : message.opensHistory = some batch) :
    message.command = ascii "BATCH" :=
  (guard_bind_eq_some.mp opens).1

/-! ### What each line does to the page -/

/-- The page with one more line, if that is read. -/
def HistoryPage.count (page : HistoryPage) (line : StoredLine) : HistoryPage :=
  if line.readable then ⟨page.lines + 1, some (.msgid line.msgid)⟩ else page

theorem lines_foldl_count (lines : List StoredLine) (page : HistoryPage) :
    (lines.foldl HistoryPage.count page).lines = page.lines + lines.countP StoredLine.readable := by
  induction lines generalizing page with
  | nil => rfl
  | cons line lines ih =>
    rw [foldl_cons, ih, HistoryPage.count, countP_cons]
    split
    · simp
      omega
    · simp

variable {page page' : HistoryPage} {message : OwnedMessage}

theorem line_of_opens (opens : message.opensHistory = some batch) (before : Option Bytes) :
    page.line before message = .opens batch := by
  have noFail : message.command ≠ ascii "FAIL" := by
    rw [command_of_opens opens]
    decide
  simp [HistoryPage.line, noFail, opens]

theorem line_of_closes (closes : message.closesBatch = some batch) :
    page.line (some batch) message = .closes := by
  obtain ⟨isBatch, opensNone⟩ := opensHistory_of_closes closes
  have noFail : message.command ≠ ascii "FAIL" := by
    rw [isBatch]
    decide
  simp [HistoryPage.line, noFail, opensNone, closes]

/-- A message that neither opens nor closes the batch is a refusal, or one more line
exactly if it is tagged. -/
theorem line_of_neither (page : HistoryPage) (before : Option Bytes) (opensNone : message.opensHistory = none)
    (leavesOpen : ∀ batch ∈ before, message.closesBatch ≠ some batch) :
    (∃ refusal, page.line before message = .refuses refusal) ∨
      page.line before message =
        .adds (if before.isSome ∧ message.tag (ascii "batch") = before then
          ⟨page.lines + 1, message.anchor <|> page.lastAnchor⟩ else page) := by
  unfold HistoryPage.line
  split
  · exact .inl ⟨_, rfl⟩
  have notClosing : ¬ (before.isSome ∧ message.closesBatch = before) := by
    rintro ⟨isOpen, closes⟩
    obtain ⟨batch, rfl⟩ := Option.isSome_iff_exists.mp isOpen
    exact leavesOpen batch rfl closes
  right
  rw [opensNone]
  simp only [notClosing, if_false]
  split <;> rfl

theorem line_of_sentAs {line : StoredLine} (readable : line.readable = true)
    (carries : line.SentAs batch message) :
    (∃ refusal, page.line (some batch) message = .refuses refusal) ∨
      page.line (some batch) message = .adds (page.count line) := by
  have anchor : message.anchor = some (.msgid line.msgid) := by
    simp [OwnedMessage.anchor, carries.named]
  have apart : ∀ other ∈ some batch, message.closesBatch ≠ some other := by
    simpa using carries.leavesOpen
  refine (line_of_neither page _ carries.opensNone apart).imp_right fun adds => ?_
  rw [adds, HistoryPage.count]
  simp [carries.tagged, anchor, readable]

theorem line_of_outside (outside : (ClientEvent.message message).Outside batch) :
    (∃ refusal, page.line (some batch) message = .refuses refusal) ∨
      page.line (some batch) message = .adds page := by
  obtain ⟨opensNone, leavesOpen, untagged⟩ := outside message rfl
  have apart : ∀ other ∈ some batch, message.closesBatch ≠ some other := by simpa using leavesOpen
  refine (line_of_neither page _ opensNone apart).imp_right fun adds => ?_
  rw [adds]
  simp [untagged]

/-! ### A whole page -/

/-- Only a `PONG` was sent since, and no batch of history is left to read. -/
structure Connection.Settles (c c' : Connection) : Prop where
  quiet : ∀ event ∈ c'.incoming, event.Quiet
  sent : ∃ pongs, c'.sent = c.sent ++ pongs ∧ OnlyPongs pongs

theorem Connection.Settles.after {between : Connection} {pongs : List Request}
    (settles : between.Settles c') (sent : between.sent = c.sent ++ pongs)
    (only : OnlyPongs pongs) : c.Settles c' := by
  obtain ⟨more, last, onlyMore⟩ := settles.sent
  exact ⟨settles.quiet, pongs ++ more, by rw [last, sent, append_assoc],
    forall_mem_append.mpr ⟨only, onlyMore⟩⟩

theorem Playing.skip {event : ClientEvent} {rest : List ClientEvent}
    (playing : Playing batch lines (event :: rest)) (skipped : event.Skipped)
    (page : HistoryPage) :
    ∃ left, Playing batch left rest ∧
      left.foldl HistoryPage.count page = lines.foldl HistoryPage.count page := by
  cases playing with
  | closes closing _ =>
    have ping := skipped _ rfl
    rw [(opensHistory_of_closes closing).1] at ping
    exact absurd ping (by decide)
  | outside _ playing => exact ⟨_, playing, rfl⟩
  | sent _ carries _ => exact absurd (skipped _ rfl) carries.noPing
  | @rejected line _ _ _ unreadable playing =>
    refine ⟨_, playing, ?_⟩
    rw [foldl_cons, HistoryPage.count, if_neg (by simp [unreadable])]

/-- A message of the batch ends it, is a refusal or leaves the rest to be counted. -/
theorem Playing.take {rest : List ClientEvent}
    (playing : Playing batch lines (.message message :: rest)) (page : HistoryPage) :
    (page.line (some batch) message = .closes ∧ lines = [] ∧ ∀ event ∈ rest, event.Quiet) ∨
      (∃ refusal, page.line (some batch) message = .refuses refusal) ∨
      ∃ left page', page.line (some batch) message = .adds page' ∧ Playing batch left rest ∧
        left.foldl HistoryPage.count page' = lines.foldl HistoryPage.count page := by
  cases playing with
  | closes closing after => exact .inl ⟨line_of_closes closing, rfl, after⟩
  | outside outside playing =>
    refine .inr ((line_of_outside outside).imp_right fun adds => ?_)
    exact ⟨_, page, adds, playing, rfl⟩
  | sent readable carries playing =>
    refine .inr ((line_of_sentAs readable carries).imp_right fun adds => ?_)
    exact ⟨_, _, adds, playing, rfl⟩

theorem readPage_playing (playing : Playing batch lines c.incoming)
    (read : readPage server.answers limit patience (some batch) page events c =
      .ok (.ok page', events', c')) :
    page' = lines.foldl HistoryPage.count page ∧ c.Settles c' := by
  induction patience generalizing lines page events c with
  | zero => cases read
  | succ patience ih =>
    obtain ⟨⟨message?, next, between⟩, event, read⟩ := bind_eq_ok read
    obtain ⟨first, rest, more, pongs, incoming, left, quiet, sent, only, isMessage⟩ :=
      nextJoinEvent_eq_ok event
    rw [incoming] at playing
    cases message? with
    | none =>
      obtain ⟨lines', playing, same⟩ := playing.skip isMessage page
      obtain ⟨counted, settles⟩ := ih (left ▸ playing.more quiet) read
      exact ⟨counted.trans same, settles.after sent only⟩
    | some message =>
      obtain rfl : first = .message message := isMessage
      rcases playing.take page with ⟨closes, rfl, after⟩ | ⟨refusal, refuses⟩ |
        ⟨lines', page₁, adds, playing, same⟩
      · simp only [closes] at read
        obtain ⟨⟨⟩, rfl, rfl⟩ : _ ∧ _ ∧ _ := by simpa using read
        refine ⟨rfl, ?_, pongs, sent, only⟩
        rw [left]
        exact forall_mem_append.mpr ⟨after, quiet⟩
      · simp [refuses] at read
      · simp only [adds] at read
        obtain ⟨counted, settles⟩ := ih (left ▸ playing.more quiet) read
        exact ⟨counted.trans same, settles.after sent only⟩

theorem readPage_playback (playback : Playback lines c.incoming)
    (read : readPage server.answers limit patience none page events c =
      .ok (.ok page', events', c')) :
    page' = lines.foldl HistoryPage.count page ∧ c.Settles c' := by
  induction patience generalizing events c with
  | zero => cases read
  | succ patience ih =>
    obtain ⟨⟨message?, next, between⟩, event, read⟩ := bind_eq_ok read
    obtain ⟨first, rest, more, pongs, incoming, left, quiet, sent, only, isMessage⟩ :=
      nextJoinEvent_eq_ok event
    rw [incoming] at playback
    cases playback with
    | @opens batch message _ opening playing =>
      cases message? with
      | none =>
        have ping := isMessage _ rfl
        rw [command_of_opens opening] at ping
        exact absurd ping (by decide)
      | some read' =>
        obtain rfl : message = read' := ClientEvent.message.inj isMessage
        simp only [line_of_opens opening] at read
        obtain ⟨counted, settles⟩ := readPage_playing (left ▸ playing.more quiet) read
        exact ⟨counted, settles.after sent only⟩
    | quiet first playback =>
      have playback := left ▸ playback.more quiet
      cases message? with
      | none =>
        obtain ⟨counted, settles⟩ := ih playback read
        exact ⟨counted, settles.after sent only⟩
      | some message =>
        obtain rfl := isMessage
        rcases line_of_neither page none (first message rfl)
          (fun _ none => nomatch none) with ⟨refusal, refuses⟩ | adds
        · simp [refuses] at read
        · simp only [adds] at read
          obtain ⟨counted, settles⟩ := ih playback read
          exact ⟨counted, settles.after sent only⟩

/-- A page that is read holds what the server took from the lines after the anchor. -/
theorem historyPage_after {target : Bytes} {anchor : Anchor} {count : ℕ}
    (quiet : ∀ event ∈ c.incoming, event.Quiet)
    (read : historyPage server.answers patience (.after target anchor count) count events c =
      .ok (.ok page, events', c')) :
    page = ((h.after anchor).take count).foldl HistoryPage.count ⟨0, none⟩ ∧
      (∀ event ∈ c'.incoming, event.Quiet) ∧
      ∃ pongs, c'.sent = c.sent ++ .after target anchor count :: pongs ∧ OnlyPongs pongs := by
  obtain ⟨asked, sent, read⟩ := bind_eq_ok read
  obtain ⟨log, incoming⟩ := sendLine_eq_ok sent
  have playback : Playback ((h.after anchor).take count) asked.incoming := by
    rw [incoming]
    exact (server.plays _ _ _ _).behind quiet
  obtain ⟨counted, settles⟩ := readPage_playback playback read
  obtain ⟨pongs, later, only⟩ := settles.sent
  exact ⟨counted, settles.quiet, pongs, by rw [later, log]; simp, only⟩

/-! ## Pages in a row -/

variable {target : Bytes} {anchor : Anchor} {count : ℕ} {pongs requests : List Request}

theorem after_mem_cons {target' : Bytes} {anchor' : Anchor} {count' : ℕ} (only : OnlyPongs pongs) :
    .after target' anchor' count' ∈ .after target anchor count :: (pongs ++ requests) ↔
      (target' = target ∧ anchor' = anchor ∧ count' = count) ∨
        .after target' anchor' count' ∈ requests := by
  have absent : .after target' anchor' count' ∉ pongs := by
    intro pong
    obtain ⟨token, isPong⟩ := only _ pong
    cases isPong
  simp [absent]

theorem delivered_cons {line : StoredLine} (only : OnlyPongs pongs) :
    h.Delivered (.after target anchor count :: (pongs ++ requests)) line ↔
      line ∈ (h.after anchor).take count ∨ h.Delivered requests line := by
  simp [History.Delivered, after_mem_cons only, or_and_right, exists_or, and_assoc]

theorem cutsReadably_cons (only : OnlyPongs pongs) :
    h.CutsReadably (.after target anchor count :: (pongs ++ requests)) ↔
      (count < (h.after anchor).length →
        ∀ line ∈ (h.after anchor).take count, line.readable = true) ∧ h.CutsReadably requests := by
  simp only [History.CutsReadably, after_mem_cons only, or_imp, forall_and, and_imp]
  refine and_congr_left' ⟨fun first => first target anchor count rfl rfl rfl, ?_⟩
  rintro first _ _ _ rfl rfl rfl
  exact first

/-- A page that counts short has everything exactly if the server did not cut it
at a line that is not read. -/
theorem short_page {rest : List StoredLine} (nodup : rest.Nodup)
    (short : (rest.take count).countP StoredLine.readable < count) :
    (∀ line ∈ rest, line ∈ rest.take count) ↔
      (count < rest.length → ∀ line ∈ rest.take count, line.readable = true) := by
  rcases Nat.lt_or_ge count rest.length with cut | whole
  · -- the page is full, so a line of it is not read; the next line is in no page
    constructor
    · intro all
      have behind : rest.drop count ≠ [] := by simpa using cut
      obtain ⟨line, mem⟩ := exists_mem_of_ne_nil _ behind
      have read := all line (mem_of_mem_drop mem)
      exact absurd mem (disjoint_take_drop nodup (Nat.le_refl count) read)
    · intro readable
      have counted := countP_eq_length.mpr (readable cut)
      rw [counted, length_take] at short
      omega
  · rw [take_of_length_le whole]
    exact ⟨fun _ cut => absurd cut (by omega), fun _ line mem => mem⟩

theorem full_page (some : 0 < count)
    (full : count ≤ ((h.after anchor).take count).countP StoredLine.readable) :
    (∀ line ∈ (h.after anchor).take count, line.readable = true) ∧
      ∃ front last, (h.after anchor).take count = front ++ [last] ∧
        h.after (.msgid last.msgid) = (h.after anchor).drop count := by
  have atMost : ((h.after anchor).take count).length ≤ count := length_take_le _ _
  have counted : ((h.after anchor).take count).countP StoredLine.readable ≤ _ := countP_le_length
  refine ⟨countP_eq_length.mp (by omega), ?_⟩
  have nonempty : (h.after anchor).take count ≠ [] := by
    intro empty
    rw [empty] at full
    exact absurd full (Nat.not_le.mpr some)
  obtain ⟨front, last, ends⟩ :=
    (eq_nil_or_concat' ((h.after anchor).take count)).resolve_left nonempty
  have split : front ++ last :: (h.after anchor).drop count = h.after anchor := by
    conv_rhs => rw [← take_append_drop count (h.after anchor), ends]
    simp
  have suffix : front ++ last :: (h.after anchor).drop count <:+ h.lines := by
    rw [split]
    exact after_suffix h anchor
  exact ⟨front, last, ends, after_msgid suffix⟩

theorem full_page_delivers (only : OnlyPongs pongs)
    (readable : ∀ line ∈ (h.after anchor).take count, line.readable = true)
    (later : (∀ line ∈ (h.after anchor).drop count, h.Delivered requests line) ↔
      h.CutsReadably requests) :
    (∀ line ∈ h.after anchor,
        h.Delivered (.after target anchor count :: (pongs ++ requests)) line) ↔
      h.CutsReadably (.after target anchor count :: (pongs ++ requests)) := by
  have nodup := after_nodup h anchor
  rw [cutsReadably_cons only, and_iff_right fun _ => readable, ← later]
  constructor
  · intro all line mem
    have delivered := (delivered_cons only).mp (all line (mem_of_mem_drop mem))
    refine delivered.resolve_left fun early => ?_
    exact disjoint_take_drop nodup (Nat.le_refl count) early mem
  · intro all line mem
    rw [← take_append_drop count (h.after anchor)] at mem
    exact (delivered_cons only).mpr ((mem_append.mp mem).imp_right (all line))

section

variable (quiet : ∀ event ∈ c.incoming, event.Quiet)
include quiet

/-- What is called all unread was delivered exactly if no page was cut at a line
that is not read. -/
theorem loadUnread_delivers {pageLines maxLines pages loaded : ℕ} {result : JoinedHistory}
    (load : loadUnread server.answers patience target pageLines maxLines pages anchor loaded events
      c = .ok (result, c')) (all : result.coverage = .allUnread) :
    ∃ requests, c'.sent = c.sent ++ requests ∧
      ((∀ line ∈ h.after anchor, h.Delivered requests line) ↔ h.CutsReadably requests) := by
  induction pages generalizing anchor loaded events c with
  | zero =>
    cases load
    cases all
  | succ pages ih =>
    unfold loadUnread at load
    generalize c.historyRequestSize (min pageLines (maxLines - loaded)) = count at load
    dsimp only at load
    split at load
    · cases load
      cases all
    rename_i wanted
    obtain ⟨⟨page?, read, between⟩, page, load⟩ := bind_eq_ok load
    cases page? with
    | error refusal =>
      cases load
      cases all
    | ok page' =>
      obtain ⟨counted, settled, pongs, sent, only⟩ := historyPage_after quiet page
      have lines : page'.lines = ((h.after anchor).take count).countP StoredLine.readable := by
        rw [counted, lines_foldl_count]
        exact Nat.zero_add _
      dsimp only at load
      split at load
      · rename_i short
        cases load
        refine ⟨_, sent, ?_⟩
        rw [lines] at short
        have exactly := short_page (after_nodup h anchor) short
        have none : h.CutsReadably [] := fun _ _ _ asked => nomatch asked
        rw [← append_nil pongs, cutsReadably_cons only, and_iff_left none, ← exactly]
        refine forall₂_congr fun line _ => (delivered_cons only).trans ?_
        exact or_iff_left fun ⟨_, _, _, asked, _⟩ => nomatch asked
      · rename_i full
        rw [lines] at full
        obtain ⟨readable, front, last, ends, behind⟩ :=
          full_page (Nat.pos_of_ne_zero wanted) (Nat.not_lt.mp full)
        have next : page'.lastAnchor = some (.msgid last.msgid) := by
          rw [counted, ends, foldl_append]
          simp [HistoryPage.count, readable last (by simp [ends])]
        rw [next] at load
        obtain ⟨requests, log, later⟩ := ih settled load
        refine ⟨.after target anchor count :: (pongs ++ requests), ?_, ?_⟩
        · rw [log, sent]
          simp
        · rw [behind] at later
          exact full_page_delivers only readable later

theorem readBurst_settles {marker marker' : Option ℕ}
    (read : readBurst server.answers target patience marker events c =
      .ok (marker', events', c')) : c.Settles c' := by
  induction patience generalizing marker events c with
  | zero => cases read
  | succ patience ih =>
    obtain ⟨⟨message?, next, between⟩, event, read⟩ := bind_eq_ok read
    obtain ⟨first, rest, more, pongs, incoming, left, moreQuiet, sent, only, -⟩ :=
      nextJoinEvent_eq_ok event
    have settled : ∀ event ∈ between.incoming, event.Quiet := by
      rw [incoming] at quiet
      rw [left]
      exact forall_mem_append.mpr ⟨(forall_mem_cons.mp quiet).2, moreQuiet⟩
    cases message? with
    | none => exact (ih settled read).after sent only
    | some message =>
      dsimp only at read
      split at read
      · contradiction
      split at read
      · obtain ⟨rfl, rfl, rfl⟩ : _ ∧ _ ∧ _ := by simpa using read
        exact ⟨settled, pongs, sent, only⟩
      · exact (ih settled read).after sent only

theorem confirmJoin_settles {marker : Option ℕ}
    (confirmed : confirmJoin server.answers patience target c = .ok (marker, events, c')) :
    ∀ event ∈ c'.incoming, event.Quiet := by
  obtain ⟨asked, sent, read⟩ := bind_eq_ok confirmed
  obtain ⟨-, incoming⟩ := sendLine_eq_ok sent
  refine (readBurst_settles ?_ read).quiet
  rw [incoming]
  exact forall_mem_append.mpr ⟨quiet, server.join_quiet _ _⟩

end

theorem coverage_latestPage {count : ℕ} {result : JoinedHistory}
    (latest : latestPage server.answers patience target count events c = .ok (result, c')) :
    result.coverage ≠ .allUnread := by
  obtain ⟨⟨page?, read, between⟩, -, latest⟩ := bind_eq_ok latest
  cases page? with
  | error refusal | ok page =>
    cases latest
    simp

/-- A join that calls its history all that is unread read a marker, and the pages it
asked for hold every line after that marker exactly if none of them was cut with a
line in it that the reader rejects. -/
theorem all_unread_iff (server : Server h) (patience : ℕ) (target : Bytes) (pageLines maxLines : ℕ)
    (c c' : Connection) (result : JoinedHistory) (quiet : ∀ event ∈ c.incoming, event.Quiet)
    (joined : joinWithHistory server.answers patience target pageLines maxLines c =
      .ok (result, c')) (all : result.coverage = .allUnread) :
    ∃ marker burst between requests,
      confirmJoin server.answers patience target c = .ok (some marker, burst, between) ∧
      c'.sent = between.sent ++ requests ∧
      ((∀ line ∈ h.after (.marker marker), h.Delivered requests line) ↔
        h.CutsReadably requests) := by
  obtain ⟨⟨marker?, burst, between⟩, confirmed, joined⟩ := bind_eq_ok joined
  dsimp only at joined
  split at joined
  · cases joined
    cases all
  cases marker? with
  | none => exact absurd all (coverage_latestPage joined)
  | some marker =>
    have settled := confirmJoin_settles quiet confirmed
    obtain ⟨requests, sent, exactly⟩ := loadUnread_delivers settled joined all
    exact ⟨marker, burst, between, requests, confirmed, sent, exactly⟩

end

/-! ## A plain server -/

def serverLine (command : String) (params : List Bytes) : OwnedMessage :=
  ⟨[], some (ascii "srv"), ascii command, params⟩

def StoredLine.event (target : Bytes) (line : StoredLine) : ClientEvent :=
  if line.readable then
    .message
      { tags := [(ascii "batch", some (ascii "h")), (ascii "msgid", some line.msgid),
          (ascii "time", some (serverTime line.time))]
        source := some (ascii "a!a@a")
        command := ascii "PRIVMSG"
        params := [target, ascii "text"] }
  else .rejected .tooLong

def playLines (target : Bytes) (lines : List StoredLine) : List ClientEvent :=
  .message (serverLine "BATCH" [ascii "+h", ascii "chathistory", target]) ::
    (lines.map (StoredLine.event target) ++ [.message (serverLine "BATCH" [ascii "-h"])])

theorem playing_lines (target : Bytes) (lines : List StoredLine) :
    Playing (ascii "h") lines
      (lines.map (StoredLine.event target) ++ [.message (serverLine "BATCH" [ascii "-h"])]) := by
  induction lines with
  | nil => exact .closes (by decide) (fun _ none => nomatch none)
  | cons line lines ih =>
    by_cases readable : line.readable = true
    · rw [map_cons, StoredLine.event, if_pos readable]
      have noPing : ascii "PRIVMSG" ≠ ascii "PING" := by decide
      exact .sent readable ⟨rfl, rfl, rfl, noPing, rfl, fun closes => nomatch closes⟩ ih
    · rw [map_cons, StoredLine.event, if_neg readable]
      exact .rejected (Bool.eq_false_iff.mpr readable) ih

/-- Nothing but what it is asked for, and its read marker with each join. -/
def plainAnswers (h : History) (marker : ℕ) : Answers := fun log =>
  match log.getLast? with
  | some (.join target) =>
    [.message (serverLine "MARKREAD" [target, ascii "timestamp=" ++ serverTime marker]),
      .message (serverLine "366" [ascii "me", target, ascii "End of NAMES"])]
  | some (.after target anchor count) => playLines target ((h.after anchor).take count)
  | _ => []

def Server.plain (h : History) (marker : ℕ) : Server h where
  answers := plainAnswers h marker
  join_quiet log target event mem := by
    simp only [plainAnswers, List.getLast?_concat, mem_cons, not_mem_nil, or_false] at mem
    rcases mem with rfl | rfl
    · rintro _ ⟨⟩
      rfl
    · rintro _ ⟨⟩
      rfl
  pong_quiet log token event mem := by simp [plainAnswers] at mem
  plays log target anchor count := by
    simp only [plainAnswers, List.getLast?_concat]
    exact .opens rfl (playing_lines _ _)

def freshConnection : Connection :=
  ⟨.default, none, [], []⟩

def threeLines : History where
  lines := [⟨ascii "a", 1, true⟩, ⟨ascii "b", 2, true⟩, ⟨ascii "c", 3, true⟩]
  sorted := by decide
  distinct := by decide

theorem all_unread_iff_of_three_lines :
    ∃ result c', result.coverage = .allUnread ∧
      joinWithHistory (Server.plain threeLines 0).answers 10 (ascii "#c") 2 100 freshConnection =
        .ok (result, c') ∧
      ∃ marker burst between requests,
        confirmJoin (Server.plain threeLines 0).answers 10 (ascii "#c") freshConnection =
          .ok (some marker, burst, between) ∧
        c'.sent = between.sent ++ requests ∧
        ((∀ line ∈ threeLines.after (.marker marker), threeLines.Delivered requests line) ↔
          threeLines.CutsReadably requests) := by
  obtain ⟨result, c', joined, all⟩ : ∃ result c',
      joinWithHistory (Server.plain threeLines 0).answers 10 (ascii "#c") 2 100 freshConnection =
        .ok (result, c') ∧ result.coverage = .allUnread := by
    have observed : (joinWithHistory (Server.plain threeLines 0).answers 10 (ascii "#c") 2 100
        freshConnection).toOption.map (·.1.coverage) = some .allUnread := by decide +kernel
    obtain ⟨⟨result, c'⟩, joined, all⟩ := Option.map_eq_some_iff.mp observed
    exact ⟨result, c', toOption_eq_some joined, all⟩
  exact ⟨result, c', all, joined, all_unread_iff _ _ _ _ _ _ _ _
    (fun _ none => nomatch none) joined all⟩

def oneOverlong : History where
  lines := [⟨ascii "a", 1, false⟩, ⟨ascii "b", 2, true⟩]
  sorted := by decide
  distinct := by decide

/-- A page of one line, which is over-long: the join says that nothing unread is
missing, and never asks for the line after it. -/
theorem overlong_line_hides_the_next :
    ∃ result c', joinWithHistory (Server.plain oneOverlong 0).answers 10 (ascii "#c") 1 100
        freshConnection = .ok (result, c') ∧ result.coverage = .allUnread ∧
      c'.sent = [.join (ascii "#c"), .after (ascii "#c") (.marker 0) 1] ∧
      ∃ line ∈ oneOverlong.after (.marker 0), line.readable = true ∧
        ¬ oneOverlong.Delivered c'.sent line := by
  have observed : (joinWithHistory (Server.plain oneOverlong 0).answers 10 (ascii "#c") 1 100
      freshConnection).toOption.map (fun joined => (joined.1.coverage, joined.2.sent)) =
      some (.allUnread, [.join (ascii "#c"), .after (ascii "#c") (.marker 0) 1]) := by
    decide +kernel
  obtain ⟨⟨result, c'⟩, joined, seen⟩ := Option.map_eq_some_iff.mp observed
  obtain ⟨all, sent⟩ := Prod.mk.inj seen
  refine ⟨result, c', toOption_eq_some joined, all, sent, ⟨ascii "b", 2, true⟩, by decide, rfl, ?_⟩
  rintro ⟨target, anchor, count, asked, mem⟩
  dsimp only at sent
  obtain ⟨-, rfl, rfl⟩ : target = ascii "#c" ∧ anchor = .marker 0 ∧ count = 1 := by
    simpa [sent] using asked
  exact absurd mem (by decide)

end E6irc.Client
