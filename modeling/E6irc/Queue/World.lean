import E6irc.Base.Run
import E6irc.Base.Slots
import E6irc.Queue.Ledger

/-!
# A queue and its users

Producers, one receiver and the `push` futures in progress, each of whose
operations runs under the queue's lock, in any order.  Beside the queue and the
futures a `World` keeps what its users saw: which producers were woken out of
the line and not polled since, the answer every offered event got, and what was
popped and taken back.
-/

namespace E6irc.Queue

open Base

variable {α : Type}

structure World (α : Type) where
  queue : State α := {}
  /-- The futures ever created; a dropped one is `none`. -/
  producers : List (Option (Push α)) := []
  /-- Registrations taken out of the line and woken, whose producer has been
  neither polled nor dropped since. -/
  chosen : List PushWaiter := []
  /-- Each event offered and answered, with the number it was accepted under
  or the event that came back. -/
  offers : List (α × Except α ℕ) := []
  popped : List (Envelope α) := []
  /-- The envelopes in the buffer when `take_queued` emptied it. -/
  takenBack : List (Envelope α) := []
  /-- The events `take_queued` returned. -/
  returned : List α := []
deriving DecidableEq

inductive Event (α : Type)
  | tryPush (payload : α)
  | push (payload : α)
  | pollPush (producer : ℕ) (waker : Waker)
  | dropPush (producer : ℕ)
  | tryPop
  | pollPop (waker : Waker)
  | takeQueued
  | cloneSender
  | dropSender
  | dropReceiver
deriving DecidableEq, Repr

namespace World

variable (shared : Shared α)

def step (w : World α) : Event α → Option (World α)
  | .tryPush payload =>
    let attempt := shared.tryPush w.queue payload
    some { w with
      queue := attempt.2.2
      offers := w.offers ++ [(payload, attempt.1.mapError PushError.payload)] }
  | .push payload => some { w with producers := w.producers ++ [some (shared.push payload)] }
  | .pollPush producer waker => do
      let push ← w.producers[producer]?.join
      -- A future that has resolved is not polled again: it would panic.
      let payload ← push.payload
      let poll := shared.pollPush push payload w.queue waker
      some { w with
        queue := poll.2.2.2
        producers := w.producers.set producer (some poll.2.2.1)
        chosen := PushWaiter.without push.parked.waiter w.chosen
        offers := w.offers ++ poll.1.toList.map fun answer => (payload, answer) }
  | .dropPush producer => do
      let push ← w.producers[producer]?.join
      let dropped := shared.dropParked push.parked w.queue
      some { w with
        queue := dropped.2
        producers := w.producers.set producer none
        chosen := PushWaiter.without push.parked.waiter w.chosen ++ dropped.1 }
  | .tryPop => do
      guard (w.queue.receiverAlive = true)
      let pop := shared.tryPop w.queue
      some { w with
        queue := pop.2.2
        chosen := w.chosen ++ pop.2.1
        popped := w.popped ++ pop.1.toList }
  | .pollPop waker => do
      guard (w.queue.receiverAlive = true)
      let pop := shared.pollPop w.queue waker
      some { w with
        queue := pop.2.2
        chosen := w.chosen ++ pop.2.1
        popped := w.popped ++ pop.1.join.toList }
  | .takeQueued =>
    let taken := shared.takeQueued w.queue
    some { w with
      queue := taken.2.2
      chosen := w.chosen ++ taken.2.1
      takenBack := w.takenBack ++ w.queue.buf.map Prod.fst
      returned := w.returned ++ taken.1 }
  | .cloneSender => some { w with queue := w.queue.cloneSender }
  | .dropSender => do
      guard (0 < w.queue.senderCount)
      some { w with queue := w.queue.dropSender.2 }
  | .dropReceiver => do
      guard (w.queue.receiverAlive = true)
      let dropped := w.queue.dropReceiver
      some { w with queue := dropped.2, chosen := w.chosen ++ dropped.1 }

/-- An offered event under the number it was accepted with. -/
def envelope : α × Except α ℕ → Option (Envelope α)
  | (payload, .ok seq) => some ⟨seq, payload⟩
  | (_, .error _) => none

/-- The events accepted, in the order of acceptance. -/
def accepted (w : World α) : List (Envelope α) :=
  w.offers.filterMap envelope

end World

/-! ## What a step can do -/

/-- The future at `producer` has not resolved, and holds `payload`. -/
structure World.Pending (w : World α) (producer : ℕ) (push : Push α) (payload : α) : Prop where
  held : w.producers[producer]? = some (some push)
  waits : push.payload = some payload

inductive Stepped (shared : Shared α) (w : World α) : Event α → World α → Prop
  | refused (payload : α) :
      Stepped shared w (.tryPush payload) { w with offers := w.offers ++ [(payload, .error payload)] }
  | offered (payload : α) :
      w.queue.admits (shared.weightOf payload) shared.capacity →
      Stepped shared w (.tryPush payload) { w with
        queue := (shared.accept w.queue payload (shared.weightOf payload)).2.2
        offers := w.offers ++ [(payload, .ok w.queue.nextSeq)] }
  | created (payload : α) :
      Stepped shared w (.push payload) { w with producers := w.producers ++ [some (shared.push payload)] }
  | turnedAway {producer : ℕ} {push : Push α} {payload : α} {waker : Waker} :
      w.Pending producer push payload →
      w.queue.receiverAlive = false →
      Stepped shared w (.pollPush producer waker) { w with
        queue := (w.queue.removePushWaiter push.parked.waiter).2
        producers := w.producers.set producer (some ⟨{ push.parked with waiter := none }, none⟩)
        chosen := PushWaiter.without push.parked.waiter w.chosen
        offers := w.offers ++ [(payload, .error payload)] }
  | pushed {producer : ℕ} {push : Push α} {payload : α} {waker : Waker} :
      w.Pending producer push payload →
      w.queue.admits push.parked.weight shared.capacity →
      Stepped shared w (.pollPush producer waker) { w with
        queue := (shared.accept (w.queue.removePushWaiter push.parked.waiter).2 payload
          push.parked.weight).2.2
        producers := w.producers.set producer (some ⟨{ push.parked with waiter := none }, none⟩)
        chosen := PushWaiter.without push.parked.waiter w.chosen
        offers := w.offers ++ [(payload, .ok w.queue.nextSeq)] }
  | parked {producer : ℕ} {push : Push α} {payload : α} {waker : Waker} :
      w.Pending producer push payload →
      w.queue.receiverAlive = true →
      w.queue.admits push.parked.weight shared.capacity = false →
      Stepped shared w (.pollPush producer waker) { w with
        queue := (push.parked.park w.queue waker).2
        producers := w.producers.set producer
          (some { push with parked := (push.parked.park w.queue waker).1 })
        chosen := PushWaiter.without push.parked.waiter w.chosen }
  | dropped {producer : ℕ} {push : Push α} : w.producers[producer]? = some (some push) →
      Stepped shared w (.dropPush producer) { w with
        queue := (shared.dropParked push.parked w.queue).2
        producers := w.producers.set producer none
        chosen := PushWaiter.without push.parked.waiter w.chosen ++
          (shared.dropParked push.parked w.queue).1 }
  | served {e : Event α} {envelope : Envelope α} {rest : State α} : w.queue.dequeue = some (envelope, rest) →
      Stepped shared w e { w with
        queue := (shared.release rest).2
        chosen := w.chosen ++ (shared.release rest).1
        popped := w.popped ++ [envelope] }
  | emptied :
      Stepped shared w .takeQueued { w with
        queue := (shared.takeQueued w.queue).2.2
        chosen := w.chosen ++ (shared.takeQueued w.queue).2.1
        takenBack := w.takenBack ++ w.queue.buf.map Prod.fst
        returned := w.returned ++ w.queue.buf.map fun entry => entry.1.payload }
  | idle {e : Event α} (waker : Option Waker) (senderCount : ℕ) :
      Stepped shared w e { w with queue := { w.queue with waker, senderCount } }
  | closed :
      Stepped shared w .dropReceiver { w with
        queue := { w.queue with receiverAlive := false, pushWakers := [] }
        chosen := w.chosen ++ w.queue.pushWakers }

theorem Stepped.same {shared : Shared α} {w : World α} {e : Event α} : Stepped shared w e w :=
  .idle w.queue.waker w.queue.senderCount

/-- A new queue, nothing offered yet. -/
def system (shared : Shared α) : System (World α) (Event α) where
  init := {}
  step := World.step shared

namespace World

variable {shared : Shared α} {w w' : World α}

theorem stepped_of_tryPush {payload : α} (step : w.step shared (.tryPush payload) = some w') :
    Stepped shared w (.tryPush payload) w' := by
  cases step
  rcases shared.tryPush_cases w.queue payload with ⟨_, answer⟩ | ⟨_, _, answer⟩ | ⟨_, admitted, _, answer⟩
  · rw [answer]
    exact .refused payload
  · rw [answer]
    exact .refused payload
  · rw [answer]
    exact .offered payload admitted

theorem stepped_of_pollPush {producer : ℕ} {waker : Waker}
    (step : w.step shared (.pollPush producer waker) = some w') : Stepped shared w (.pollPush producer waker) w' := by
  obtain ⟨push, held, step⟩ := Option.bind_eq_some_iff.mp step
  obtain ⟨payload, waits, step⟩ := Option.bind_eq_some_iff.mp step
  cases step
  have pending : w.Pending producer push payload := ⟨Option.join_eq_some_iff.mp held, waits⟩
  rcases shared.pollPush_cases w.queue push payload waker with
    ⟨gone, answer⟩ | ⟨admitted, _, answer⟩ | ⟨alive, refused, answer⟩
  · rw [answer]
    exact .turnedAway pending gone
  · rw [answer]
    exact .pushed pending admitted
  · rw [answer]
    simpa using Stepped.parked pending alive refused

theorem stepped_of_tryPop (step : w.step shared .tryPop = some w') : Stepped shared w .tryPop w' := by
  obtain ⟨_, rfl⟩ := guard_some_eq_some.mp step
  cases served : w.queue.dequeue with
  | none => simpa [Shared.tryPop, served] using Stepped.same
  | some serving => simpa [Shared.tryPop, served] using Stepped.served served

theorem stepped_of_pollPop {waker : Waker} (step : w.step shared (.pollPop waker) = some w') :
    Stepped shared w (.pollPop waker) w' := by
  obtain ⟨_, rfl⟩ := guard_some_eq_some.mp step
  cases served : w.queue.dequeue with
  | some serving => simpa [Shared.pollPop, served] using Stepped.served served
  | none =>
    by_cases above : w.queue.senderCount = 0
    · simpa [Shared.pollPop, served, above] using Stepped.same
    · simpa [Shared.pollPop, served, above] using Stepped.idle (some waker) w.queue.senderCount

theorem stepped_of_dropSender (step : w.step shared .dropSender = some w') :
    Stepped shared w .dropSender w' := by
  obtain ⟨_, rfl⟩ := guard_some_eq_some.mp step
  by_cases more : 0 < w.queue.senderCount - 1
  · simpa [State.dropSender, more] using Stepped.idle w.queue.waker (w.queue.senderCount - 1)
  · simpa [State.dropSender, more] using Stepped.idle none (w.queue.senderCount - 1)

/-- Everything a step can do. -/
theorem stepped {e : Event α} (step : w.step shared e = some w') : Stepped shared w e w' := by
  cases e with
  | tryPush payload => exact stepped_of_tryPush step
  | push payload =>
    cases step
    exact .created payload
  | pollPush producer waker => exact stepped_of_pollPush step
  | dropPush producer =>
    obtain ⟨push, held, step⟩ := Option.bind_eq_some_iff.mp step
    cases step
    exact .dropped (Option.join_eq_some_iff.mp held)
  | tryPop => exact stepped_of_tryPop step
  | pollPop waker => exact stepped_of_pollPop step
  | takeQueued =>
    cases step
    exact .emptied
  | cloneSender =>
    cases step
    exact .idle w.queue.waker (w.queue.senderCount + 1)
  | dropSender => exact stepped_of_dropSender step
  | dropReceiver =>
    obtain ⟨_, rfl⟩ := guard_some_eq_some.mp step
    exact .closed

end World

/-! ## What a step does to the buffer and to the logs -/

/-- A push in progress waits for room for the event it holds. -/
def World.Sized (shared : Shared α) (w : World α) : Prop :=
  ∀ producer push payload, w.Pending producer push payload →
    push.parked.weight = shared.weightOf payload

/-- The weight of the event an operation offers, if it offers one. -/
def World.offering (shared : Shared α) (w : World α) : Event α → Option ℕ
  | .tryPush payload => some (shared.weightOf payload)
  | .pollPush producer _ => w.producers[producer]?.join.map fun push => push.parked.weight
  | _ => none

/-- The answers and logs of `w` become those of `w'` as the buffer changes. -/
inductive Logs (shared : Shared α) (w : World α) (e : Event α) (w' : World α) : Change α → Prop
  | still (refused : List α) :
      w'.offers = w.offers ++ refused.map (fun payload => (payload, .error payload)) →
      w'.popped = w.popped → w'.takenBack = w.takenBack → w'.returned = w.returned →
      Logs shared w e w' .still
  | accepted {payload : α} : w.offering shared e = some (shared.weightOf payload) →
      w'.offers = w.offers ++ [(payload, .ok w.queue.nextSeq)] →
      w'.popped = w.popped → w'.takenBack = w.takenBack → w'.returned = w.returned →
      Logs shared w e w' (.accepted payload (shared.weightOf payload))
  | popped {envelope : Envelope α} {weight : ℕ} : w'.offers = w.offers →
      w'.popped = w.popped ++ [envelope] → w'.takenBack = w.takenBack →
      w'.returned = w.returned → Logs shared w e w' (.popped envelope weight)
  | emptied : w'.offers = w.offers → w'.popped = w.popped →
      w'.takenBack = w.takenBack ++ w.queue.buf.map Prod.fst →
      w'.returned = w.returned ++ w.queue.buf.map (fun entry => entry.1.payload) →
      Logs shared w e w' .emptied

namespace Stepped

variable {shared : Shared α} {w w' : World α} {e : Event α}

theorem moves (stepped : Stepped shared w e w') (sized : w.Sized shared) :
    ∃ change, Moves shared w.queue w'.queue change ∧ Logs shared w e w' change := by
  cases stepped with
  | refused payload => exact ⟨_, .still rfl rfl rfl rfl, .still [payload] rfl rfl rfl rfl⟩
  | offered payload admitted =>
    exact ⟨_, Shared.accept_moves payload admitted, .accepted rfl rfl rfl rfl rfl⟩
  | created payload
  | idle
  | closed => exact ⟨_, .still rfl rfl rfl rfl, .still [] (by simp) rfl rfl rfl⟩
  | @turnedAway _ _ payload =>
    exact ⟨_, shared.removePushWaiter_moves _ _, .still [payload] rfl rfl rfl rfl⟩
  | @pushed producer push payload _ pending admitted =>
    have before := shared.removePushWaiter_moves w.queue push.parked.waiter
    have here : (w.queue.removePushWaiter push.parked.waiter).2.admits push.parked.weight
        shared.capacity := by
      obtain ⟨_, load, _, _⟩ := before
      rw [State.admits, load]
      exact admitted
    have weight := sized producer push payload pending
    refine ⟨_, before.still_trans (Shared.accept_moves payload here), ?_⟩
    rw [weight]
    refine .accepted ?_ rfl rfl rfl rfl
    simp [World.offering, pending.held, weight]
  | parked => exact ⟨_, shared.park_moves _ _ _, .still [] (by simp) rfl rfl rfl⟩
  | dropped => exact ⟨_, shared.dropParked_moves _ _, .still [] (by simp) rfl rfl rfl⟩
  | served serving =>
    obtain ⟨weight, moves, _⟩ := shared.dequeue_moves w.queue serving
    exact ⟨_, moves, .popped rfl rfl rfl rfl⟩
  | emptied => exact ⟨_, shared.takeQueued_moves w.queue, .emptied rfl rfl rfl rfl⟩

/-- A future in a list of which one place changed is the new one there, or was there before. -/
theorem pending_set {producers : List (Option (Push α))} {producer other : ℕ}
    {new : Option (Push α)} {push : Push α}
    (held : (producers.set producer new)[other]? = some (some push)) :
    new = some push ∨ producers[other]? = some (some push) := by
  rcases getElem?_set_cases held with ⟨_, same⟩ | ⟨_, before⟩
  · exact .inl same.symm
  · exact .inr before

theorem sized (stepped : Stepped shared w e w') (sized : w.Sized shared) : w'.Sized shared := by
  rintro other push payload ⟨held, waits⟩
  cases stepped with
  | created offered =>
    rw [List.getElem?_append] at held
    split at held
    · exact sized other push payload ⟨held, waits⟩
    obtain rfl : push = shared.push offered := by
      simpa using List.mem_of_getElem? held
    cases waits
    rfl
  | turnedAway pending | pushed pending =>
    rcases pending_set held with same | before
    · cases same
      cases waits
    · exact sized other push payload ⟨before, waits⟩
  | @parked producer own _ waker pending =>
    rcases pending_set held with same | before
    · cases same
      have weight : (own.parked.park w.queue waker).1.weight = own.parked.weight := by
        unfold ParkedProducer.park
        cases own.parked.waiter <;> rfl
      rw [weight]
      exact sized producer own payload ⟨pending.held, waits⟩
    · exact sized other push payload ⟨before, waits⟩
  | dropped =>
    rcases pending_set held with same | before
    · cases same
    · exact sized other push payload ⟨before, waits⟩
  | _ => exact sized other push payload ⟨held, waits⟩

end Stepped

end E6irc.Queue
