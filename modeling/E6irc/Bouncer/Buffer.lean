import E6irc.Proto.Message
import E6irc.Proto.Time

/-!
# A network's backlog

The ring of recent upstream lines of `bouncer/mod.rs`: at most `cap` positions
and `byteCap` bytes, the oldest going first.  A line takes the next position, and
a client resumes behind the position it names.  Storage restores older lines in
front, which take the positions below the oldest entry held.

The session state at the ring's head, which only an attach reads, is left out.
-/

namespace E6irc.Bouncer

open Base

/-! ## Lines from upstream and from storage -/

def registrationBurst : List Bytes :=
  ["001", "002", "003", "004", "005", "042", "250", "251", "252", "253", "254", "255", "265",
    "266", "372", "375", "376", "396", "422"].map ascii

def isRegistrationBurstLine (line : Bytes) : Bool :=
  match Message.parse line with
  | .ok message => registrationBurst.contains message.command
  | .error _ => false

/-- The value of the `time` tag, where it is a time. -/
def messageTime (message : Message) : Option ℕ := do
  let tag ← message.tag (ascii "time")
  Time.parseServerTimeMillis (← tag.value)

def lineTime (line : Bytes) : Option ℕ :=
  (Message.parse line).toOption.bind messageTime

/-- `line` without any `key` tag. -/
def withoutTag (line key : Bytes) : Bytes :=
  match stripFirst (byte '@') line with
  | none => line
  | some rest =>
    match splitOnce (byte ' ') rest with
    | none => []
    | some (tags, body) =>
      let kept := (tags.splitOn (byte ';')).filter fun tag =>
        (tag.splitOn (byte '=')).head? ≠ some key
      if kept = [] then body
      else byte '@' :: ([byte ';'].intercalate kept ++ byte ' ' :: body)

/-- `line` with `time` as its `time` tag, unless it carries a valid one or has no
room for it. -/
def stampTime (line time : Bytes) : Bytes :=
  match Message.parse line with
  | .error _ => line
  | .ok message =>
    if (messageTime message).isSome then line
    else
      let untimed := withoutTag line (ascii "time")
      let stamped :=
        match stripFirst (byte '@') untimed with
        | some rest => ascii "@time=" ++ time ++ byte ';' :: rest
        | none => ascii "@time=" ++ time ++ byte ' ' :: untimed
      if serverFrameFits stamped then stamped else line

/-- A line made safe to buffer. -/
def upstreamLine (line : Bytes) : Bytes :=
  let line := line.map fun b => if b = 13 ∨ b = 10 ∨ b = 0 then byte ' ' else b
  if serverFrameFits line then line
  else ascii ":*bnc* NOTICE * :upstream input rejected: server line exceeds an IRC wire budget"

structure StoredBacklogLine where
  line : Bytes
  storedAt : Bytes
deriving DecidableEq, Repr

/-- A stored line as the ring takes it. -/
def StoredBacklogLine.restored (stored : StoredBacklogLine) : Bytes :=
  stampTime (upstreamLine stored.line) stored.storedAt

/-! ## The ring -/

structure BufferedLine where
  seq : ℕ
  line : Bytes
deriving DecidableEq, Repr

/-- A position of the ring: a line, or where an upstream session began. -/
inductive RingEntry (Snapshot : Type)
  | line (line : BufferedLine)
  | session (seq : ℕ) (snapshot : Snapshot)
deriving DecidableEq, Repr

structure ReplayCursor where
  epoch : ℕ
  seq : ℕ
deriving DecidableEq, Repr

structure Replay (Snapshot : Type) where
  lines : List BufferedLine
  boundaries : List (ℕ × Snapshot)
  epoch : ℕ
  position : ℕ
  resumed : Bool
deriving DecidableEq, Repr

structure Buffer (Snapshot : Type) where
  entries : List (RingEntry Snapshot)
  cap : ℕ
  bytes : ℕ
  epoch : ℕ
  nextSeq : ℕ
deriving DecidableEq, Repr

variable {Snapshot : Type}

namespace RingEntry

def seq : RingEntry Snapshot → ℕ
  | line entry => entry.seq
  | session seq _ => seq

def text : RingEntry Snapshot → Option Bytes
  | line entry => some entry.line
  | session .. => none

end RingEntry

namespace Buffer

/-- `cap` lines of 512 bytes. -/
def byteCap (b : Buffer Snapshot) : ℕ :=
  min (max b.cap 1 * maxLineLen) (2 ^ 64 - 1)

def new (cap epoch : ℕ) : Buffer Snapshot where
  entries := []
  cap := cap
  bytes := 0
  epoch := epoch
  nextSeq := cap + 1

/-- Whether retention keeps a line. -/
def keeps (cutoff : Option ℕ) (line : BufferedLine) : Bool :=
  cutoff.all fun cutoff => (lineTime line.line).all (cutoff ≤ ·)

def evictOldest (b : Buffer Snapshot) : Buffer Snapshot :=
  match b.entries with
  | [] => b
  | .line oldest :: rest => { b with entries := rest, bytes := b.bytes - oldest.line.length }
  | .session .. :: rest => { b with entries := rest }

/-- Evict while `go`; every round takes an entry. -/
def evictWhile (go : Buffer Snapshot → Bool) : ℕ → Buffer Snapshot → Buffer Snapshot
  | 0, b => b
  | fuel + 1, b => if go b then evictWhile go fuel b.evictOldest else b

/-- Drop the lines at the front that retention no longer keeps. -/
def evictExpired (cutoff : Option ℕ) (b : Buffer Snapshot) : Buffer Snapshot :=
  b.evictWhile (fun b => match b.entries with
    | .line oldest :: _ => !keeps cutoff oldest
    | _ => false) b.entries.length

/-- Make room for one entry. -/
def makeRoom (b : Buffer Snapshot) : Buffer Snapshot :=
  b.evictWhile (fun b => max b.cap 1 ≤ b.entries.length) b.entries.length

/-- Keep to the bytes allowed, the newest entry apart. -/
def shedBytes (b : Buffer Snapshot) : Buffer Snapshot :=
  b.evictWhile (fun b => b.byteCap < b.bytes && 1 < b.entries.length) b.entries.length

/-- Retain `line` as the newest. -/
def push (cutoff : Option ℕ) (line : Bytes) (b : Buffer Snapshot) : Buffer Snapshot :=
  let b := (b.evictExpired cutoff).makeRoom
  shedBytes
    { b with
      entries := b.entries ++ [.line ⟨b.nextSeq, line⟩]
      bytes := b.bytes + line.length
      nextSeq := b.nextSeq + 1 }

/-- Retain where an upstream session began. -/
def pushSession (snapshot : Snapshot) (b : Buffer Snapshot) : Buffer Snapshot :=
  let b := b.makeRoom
  { b with
    entries := b.entries ++ [.session b.nextSeq snapshot]
    nextSeq := b.nextSeq + 1 }

/-- The position of the newest entry. -/
def position (b : Buffer Snapshot) : ℕ :=
  b.nextSeq - 1

/-- The position below the oldest entry. -/
def frontPosition (b : Buffer Snapshot) : ℕ :=
  (b.entries.head?.elim b.nextSeq RingEntry.seq) - 1

/-- Put lines in front, the newest first, until one does not fit. -/
def restore : List StoredBacklogLine → Buffer Snapshot → Buffer Snapshot
  | [], b => b
  | stored :: older, b =>
    if b.byteCap < b.bytes + stored.restored.length then b
    else restore older
      { b with
        entries := .line ⟨b.frontPosition, stored.restored⟩ :: b.entries
        bytes := b.bytes + stored.restored.length }

/-- The stored lines that may come back. -/
def restorable (older : List StoredBacklogLine) : List StoredBacklogLine :=
  older.filter fun stored => !isRegistrationBurstLine stored.line

/-- Fill the room left with the most recent of `older`, which is oldest first. -/
def preloadFront (older : List StoredBacklogLine) (b : Buffer Snapshot) : Buffer Snapshot :=
  b.restore ((restorable older).reverse.take (b.cap - b.entries.length))

/-- Whether every entry after the cursor is held. -/
def honours (b : Buffer Snapshot) (cursor : ReplayCursor) : Bool :=
  cursor.epoch == b.epoch && cursor.seq < b.nextSeq &&
    b.entries.head?.all fun oldest => oldest.seq ≤ cursor.seq + 1

/-- A line that retention keeps is read; a session begins before the next one. -/
def collectEntry (cutoff : Option ℕ) (read : List BufferedLine × List (ℕ × Snapshot)) :
    RingEntry Snapshot → List BufferedLine × List (ℕ × Snapshot)
  | .line line => if keeps cutoff line then (read.1 ++ [line], read.2) else read
  | .session _ snapshot => (read.1, read.2 ++ [(read.1.length, snapshot)])

def collect (cutoff : Option ℕ) (entries : List (RingEntry Snapshot)) :
    List BufferedLine × List (ℕ × Snapshot) :=
  entries.foldl (collectEntry cutoff) ([], [])

/-- The lines after `after`, where that cursor is honoured, or else the whole ring. -/
def replayAfter (cutoff : Option ℕ) (after : Option ReplayCursor) (b : Buffer Snapshot) :
    Replay Snapshot :=
  let honoured := after.filter b.honours
  let start := honoured.elim 0 (·.seq + 1)
  let (lines, boundaries) := collect cutoff (b.entries.filter (start ≤ ·.seq))
  { lines, boundaries, epoch := b.epoch, position := b.position, resumed := honoured.isSome }

end Buffer

end E6irc.Bouncer
