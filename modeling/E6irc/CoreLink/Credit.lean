import E6irc.CoreLink.Stream

/-!
# Conservation of the stream's credit

Every credit the `Welcome` granted is in one place of the stream, and `total`
adds them up.  Three things lose a credit: a line read for a session the core
does not hold, a push dropped after it spent its credit, and, for as long as no
other line comes, a count that `push_lines` keeps when the last input it hands
over is not a line.  In every run in which none of them happens the credit comes
back: with nothing outstanding the semaphore holds what was granted.
-/

namespace E6irc.CoreLink

open Base List EdgeFrame Option

def EdgeFrame.isLine : EdgeFrame → Bool
  | .line _ _ | .overlongLine _ _ => true
  | _ => false

/-- The session a line frame is of. -/
def EdgeFrame.lineSession : EdgeFrame → Option SessionId
  | .line session _ | .overlongLine session _ => some session
  | _ => none

def CoreFrame.credits : CoreFrame → ℕ
  | .credit lines => lines
  | _ => 0

namespace Stream

/-- Every credit of the stream, wherever it is. -/
def total (s : Stream) : ℕ :=
  s.credit + s.sending.length + s.toCore.countP isLine + s.inputs.countP Input.isLine +
    s.current.toList.countP Input.isLine + s.returned + (s.toEdge.map CoreFrame.credits).sum

/-- Nothing is outstanding: no line frame, no input of `push_lines`, no credit
on its way back. -/
structure Quiet (s : Stream) : Prop where
  sending : s.sending = []
  toCore : ∀ frame ∈ s.toCore, frame.isLine = false
  inputs : s.inputs = []
  current : s.current = none
  toEdge : ∀ frame ∈ s.toEdge, ∀ lines, frame ≠ .credit lines

/-- Whenever the link is up and nothing is outstanding, the edge's semaphore
holds what the `Welcome` granted. -/
def Conserved (terms : Terms) (s : Stream) : Prop :=
  s.up = true → s.Quiet → s.credit = terms.lineCredit

/-! ## What loses a credit -/

/-- The event loses a credit for good: a push dropped after it spent one, or a
line of a session the core does not hold. -/
def loses (s : Stream) : Event → Bool
  | .dropSending _ _ => true
  | .readCore _ => s.toCore.head?.any fun frame =>
    frame.lineSession.any fun session => decide (session ∉ s.sessions)
  | _ => false

/-- The event leaves credits counted and not sent with nothing left to send them:
the last input waiting is handed over and is not a line. -/
def withholds (s : Stream) : Event → Bool
  | .handedOver => s.current.any (fun input => !input.isLine) && s.inputs.isEmpty &&
      decide (0 < s.returned)
  | _ => false

@[simp] theorem isLine_frame (session : SessionId) (event : LineEvent) :
    (event.frame session).isLine = true := by
  cases event <;> rfl

variable {terms : Terms} {s s' : Stream}

attribute [local simp] CoreFrame.credits total loses broken

theorem total_readEdge {rest : List CoreFrame} {overrun : Bool} {frame : CoreFrame}
    (head : s.toEdge = frame :: rest)
    (up : ({ s with toEdge := rest }.readEdge terms overrun frame).up = true) :
    ({ s with toEdge := rest }.readEdge terms overrun frame).total = s.total := by
  cases frame with
  | output session bytes =>
    simp only [readEdge]
    split <;> simp [head, isLine]
  | kill session line
  | endSession session
  | floodExempt session exempt => simp [readEdge, head]
  | credit lines =>
    simp only [readEdge] at up ⊢
    split at up
    · simp at up
    · next room =>
        simp only [room, if_false, total, head, CoreFrame.credits, map_cons, sum_cons]
        omega

variable {session : SessionId} {refusal : Option Bytes}

theorem total_input {event : LineEvent} (up : (s.input terms session event).up = true) :
    (s.input terms session event).total = s.total + if session ∈ s.sessions then 1 else 0 := by
  unfold input at up ⊢
  split
  · next held =>
      simp only [held, if_true] at up
      split at up
      · simp at up
      next room =>
        simp only [room, if_false, total, countP_append, countP_singleton,
          Input.isLine_framed, if_true]
        omega
  · rfl

variable {rest : List EdgeFrame} {frame : EdgeFrame}

theorem total_readLine {event : LineEvent} (head : s.toCore = frame :: rest)
    (line : frame.isLine = true) (ofSession : frame.lineSession = some session)
    (up : ({ s with toCore := rest }.input terms session event).up = true) :
    ({ s with toCore := rest }.input terms session event).total +
      (if s.loses (.readCore refusal) then 1 else 0) = s.total := by
  rw [total_input up]
  by_cases held : session ∈ s.sessions
  · simp only [total, loses, head, List.head?_cons, any_some, ofSession, held, line,
      countP_cons, if_true, not_true_eq_false, decide_false, Bool.false_eq_true, if_false]
    omega
  · simp only [total, loses, head, List.head?_cons, any_some, ofSession, held, line,
      countP_cons, if_true, not_false_eq_true, decide_true, if_false]
    omega

theorem total_readCore (head : s.toCore = frame :: rest)
    (up : ({ s with toCore := rest }.readCore terms refusal frame).up = true) :
    ({ s with toCore := rest }.readCore terms refusal frame).total +
      (if s.loses (.readCore refusal) then 1 else 0) = s.total := by
  cases frame with
  | openSession session =>
    simp only [readCore, openSession] at up ⊢
    split
    · next misplaced => simp [misplaced] at up
    split
    · next placed held => simp [placed, held] at up
    cases refusal <;>
      simp [head, lineSession, isLine, Input.isLine]
  | line session text | overlongLine session label => exact total_readLine head rfl rfl up
  | closed session reason =>
    simp only [readCore, closed]
    split <;> simp [head, lineSession, isLine, Input.isLine]
  | drained session bytes =>
    simp [readCore, head, lineSession, isLine]

variable {input : Input}

theorem total_pushed (current : s.current = some input) :
    (s.pushed terms input).total = s.total := by
  unfold pushed
  by_cases line : input.isLine = true
  · simp only [line, if_true]
    split <;> simp [current, line] <;> omega
  · simp [current, line]

variable {event : Event}

/-- A step loses a credit exactly where `loses` says, while the link stays up. -/
theorem total_step (step : s.step terms event = some s') (up : s'.up = true) :
    s'.total + (if s.loses event then 1 else 0) = s.total := by
  obtain ⟨-, step⟩ := guard_bind_eq_some.mp step
  cases event with
  | register session =>
    obtain ⟨-, rfl⟩ := guard_some_eq_some.mp step
    simp [isLine]
  | push session event | dropWaiting session event | pumpRemove session | pumpGone session =>
    obtain ⟨-, rfl⟩ := guard_some_eq_some.mp step
    rfl
  | acquire session event =>
    obtain ⟨⟨-, some_credit⟩, rfl⟩ := guard_some_eq_some.mp step
    simp
    omega
  | send session event | dropSending session event =>
    obtain ⟨sending, rfl⟩ := guard_some_eq_some.mp step
    have length := length_erase_add_one sending
    simp
    omega
  | tellClosed session reason | tellDrained session bytes =>
    cases step
    simp [isLine]
  | writerDone session =>
    cases step
    rfl
  | readEdge overrun =>
    cases head : s.toEdge with
    | nil => simp [head] at step
    | cons frame rest =>
      simp only [head, some.injEq] at step
      subst step
      exact total_readEdge head up
  | readCore refusal =>
    cases head : s.toCore with
    | nil => simp [head] at step
    | cons frame rest =>
      simp only [head, some.injEq] at step
      subst step
      exact total_readCore head up
  | pumpOutput session bytes final =>
    obtain ⟨-, rfl⟩ := guard_some_eq_some.mp step
    cases final <;> simp
  | pumpFloodExempt session exempt | pumpEnd session =>
    obtain ⟨-, rfl⟩ := guard_some_eq_some.mp step
    simp
  | take =>
    obtain ⟨idle, step⟩ := guard_bind_eq_some.mp step
    cases head : s.inputs with
    | nil => simp [head] at step
    | cons input rest =>
      simp only [head, some.injEq] at step
      subst step
      simp [head, idle, countP_cons]
      omega
  | handedOver =>
    cases current : s.current with
    | none => simp [current] at step
    | some input =>
      simp only [current, some.injEq] at step
      subst step
      exact total_pushed current
  | linkLost =>
    cases step
    simp at up

/-! ## Runs that lose nothing -/

/-- `push_lines` at rest has sent every credit it counted. -/
def Flushed (s : Stream) : Prop :=
  s.inputs = [] → s.current = none → s.returned = 0

/-- Only `push_lines` itself takes from its queue or counts a credit. -/
theorem pushLines_frame (step : s.step terms event = some s')
    (notTake : event ≠ .take) (notHanded : event ≠ .handedOver) :
    s.inputs <+: s'.inputs ∧ s'.current = s.current ∧ s'.returned = s.returned := by
  obtain ⟨-, step⟩ := guard_bind_eq_some.mp step
  cases event with
  | take => exact absurd rfl notTake
  | handedOver => exact absurd rfl notHanded
  | readEdge overrun =>
    cases head : s.toEdge with
    | nil => simp [head] at step
    | cons frame rest =>
      simp only [head, some.injEq] at step
      subst step
      cases frame <;> simp only [readEdge] <;> (try split) <;> simp
  | readCore refusal =>
    cases head : s.toCore with
    | nil => simp [head] at step
    | cons frame rest =>
      simp only [head, some.injEq] at step
      subst step
      cases frame with
      | openSession session =>
        simp only [readCore, openSession]
        cases refusal <;> (repeat' split) <;> simp
      | line session text | overlongLine session label =>
        simp only [readCore, input]
        (repeat' split) <;> simp
      | closed session reason =>
        simp only [readCore, closed]
        split <;> simp
      | drained session bytes => simp [readCore]
  | tellClosed session reason | tellDrained session bytes | writerDone session | linkLost =>
    cases step
    simp
  | register session | push session event | acquire session event | send session event
    | dropWaiting session event | dropSending session event | pumpOutput session bytes final
    | pumpFloodExempt session exempt | pumpEnd session | pumpRemove session | pumpGone session =>
      obtain ⟨-, rfl⟩ := guard_some_eq_some.mp step
      simp

theorem pushed_inputs : (s.pushed terms input).inputs = s.inputs := by
  simp only [pushed]
  (repeat' split) <;> rfl

theorem pushed_returned_of_line (line : input.isLine = true)
    (empty : s.inputs = []) : (s.pushed terms input).returned = 0 := by
  simp [pushed, line, empty]

theorem pushed_returned_of_not_line (line : ¬ input.isLine = true) :
    (s.pushed terms input).returned = s.returned := by
  simp [pushed, line]

theorem Flushed.step (flushed : s.Flushed)
    (step : s.step terms event = some s') (sends : s.withholds event = false) : s'.Flushed := by
  by_cases take : event = .take
  · subst take
    obtain ⟨-, step⟩ := guard_bind_eq_some.mp step
    obtain ⟨-, step⟩ := guard_bind_eq_some.mp step
    cases head : s.inputs with
    | nil => simp [head] at step
    | cons input rest =>
      simp only [head, some.injEq] at step
      subst step
      exact fun _ idle => nomatch idle
  by_cases handed : event = .handedOver
  · subst handed
    obtain ⟨-, step⟩ := guard_bind_eq_some.mp step
    cases current : s.current with
    | none => simp [current] at step
    | some input =>
      simp only [current, some.injEq] at step
      subst step
      intro empty _
      rw [pushed_inputs] at empty
      by_cases line : input.isLine = true
      · exact pushed_returned_of_line line empty
      · rw [pushed_returned_of_not_line line]
        simpa [withholds, current, line, empty] using sends
  obtain ⟨grows, current, returned⟩ := pushLines_frame step take handed
  intro empty idle
  rw [empty, prefix_nil] at grows
  rw [returned]
  exact flushed grows (current ▸ idle)

/-- No event loses or withholds a credit. -/
def keepsCredit (s : Stream) (event : Event) : Bool :=
  !s.loses event && !s.withholds event

theorem conserved_of_total (up : s.up = true → s.total = terms.lineCredit)
    (flushed : s.Flushed) : s.Conserved terms := by
  intro linked quiet
  have all := up linked
  have lines : s.toCore.countP isLine = 0 :=
    countP_eq_zero.mpr fun frame mem => by simp [quiet.toCore frame mem]
  have credits : (s.toEdge.map CoreFrame.credits).sum = 0 := by
    refine sum_eq_zero fun n mem => ?_
    obtain ⟨frame, sent, rfl⟩ := mem_map.mp mem
    cases frame with
    | credit lines => exact absurd rfl (quiet.toEdge _ sent lines)
    | output session bytes | kill session line | endSession session
      | floodExempt session exempt => rfl
  have returned := flushed quiet.inputs quiet.current
  simpa [quiet.sending, quiet.inputs, quiet.current, lines, credits, returned] using all

end Stream

/-- In every run that neither reads a line of a session the core does not hold,
nor drops a push that spent its credit, nor ends a burst of input on something
that is not a line with credits still counted, the stream's credit is conserved
in every state. -/
theorem stream_conserves_credit (terms : Terms) (events : List Event) (s : Stream)
    (run : (stream terms).Run (fun _ s event => s.keepsCredit event = true) events s) :
    s.Conserved terms := by
  have invariant : (s.up = true → s.total = terms.lineCredit) ∧ s.Flushed := by
    refine run.invariant (P := fun _ s => (s.up = true → s.total = terms.lineCredit) ∧ s.Flushed)
      ⟨fun _ => by simp [stream, Stream.init, Stream.total], fun _ _ => rfl⟩ ?_
    rintro _ s event s' ⟨all, flushed⟩ keeps step
    simp only [Stream.keepsCredit, Bool.and_eq_true, Bool.not_eq_true'] at keeps
    refine ⟨fun up => ?_, flushed.step step keeps.2⟩
    have kept := Stream.total_step step up
    obtain ⟨linked, -⟩ := guard_bind_eq_some.mp step
    simpa [keeps.1, all linked] using kept
  exact Stream.conserved_of_total invariant.1 invariant.2

/-! ## A line of a session the core has ended -/

/-- A stream of one credit. -/
def oneCredit : Terms := ⟨1, fun _ => true, 1000⟩

/-- A session opens and its client sends a line. -/
def openAndSend : List Event :=
  [.register 1, .readCore none, .take, .handedOver, .push 1 (.line (ascii "PING x")),
    .acquire 1 (.line (ascii "PING x")), .send 1 (.line (ascii "PING x"))]

/-- The core ends the session while the line is on its way: the line is ignored,
and nothing outstanding brings its credit back. -/
theorem stream_loses_credit_of_ended_session :
    ∃ s, (stream oneCredit).Run System.anyStep
        (openAndSend ++ [.pumpEnd 1, .pumpRemove 1, .readCore none, .readEdge false]) s ∧
      s.up = true ∧ s.Quiet ∧ s.credit = 0 ∧ ¬ s.Conserved oneCredit := by
  let final : Stream := { Stream.init oneCredit with credit := 0 }
  have quiet : final.Quiet := ⟨rfl, by simp [final, Stream.init], rfl, rfl, by simp [final, Stream.init]⟩
  refine ⟨final, System.run_of_exec (by decide), rfl, quiet, rfl, fun conserved => ?_⟩
  exact absurd (conserved rfl quiet) (by decide)

/-- A session still held gets its line through and its credit back. -/
theorem stream_conserves_credit_of_held_session :
    ∃ s, (stream oneCredit).Run (fun _ s event => s.keepsCredit event = true)
        (openAndSend ++ [.readCore none, .take, .handedOver, .readEdge false]) s ∧
      s.Conserved oneCredit := by
  have run : ∃ s, ((stream oneCredit).restrict Stream.keepsCredit).exec
      (openAndSend ++ [.readCore none, .take, .handedOver, .readEdge false]) = some s :=
    isSome_iff_exists.mp (by decide)
  obtain ⟨s, replay⟩ := run
  have kept := (System.run_of_exec replay).of_restrict
  exact ⟨s, kept, stream_conserves_credit oneCredit _ s kept⟩

end E6irc.CoreLink
