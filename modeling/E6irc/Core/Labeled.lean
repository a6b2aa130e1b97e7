import E6irc.Base.Slots
import E6irc.Core.SessionOutput

/-!
# One response per labeled command

Every line given to the session's output is written or held, once, and nothing
is held once no deferred reply is outstanding.  What a label group stands for
is one command as long as commands that need a group do not share their label
with another unanswered one (`Apart`); then each command's lines come out as its
one response.  A second group under a label replaces the first, whose lines are
lost and whose answers complete the wrong response.
-/

namespace E6irc.Output

open Base List Session Command

namespace Session

variable {cfg : Config} {s : Session} {emitting : Bool} {line label : Bytes} {lines : List Bytes}

/-! ## Where a line goes -/

/-- All that was given to the output, written or held. -/
def given (s : Session) : List Bytes :=
  s.written ++ s.held.map sanitized

/-- Nothing is held when nothing is waited for. -/
def Flushed (s : Session) : Prop :=
  s.deferredReplies = 0 → s.held = []

/-- Going from `s` to `s'` gives the output exactly these lines, unless it dooms
the connection. -/
structure Gave (s s' : Session) (lines : List Bytes) : Prop where
  given : s'.doomed = false → s'.given.Perm (s.given ++ lines.map sanitized)
  alive : s'.doomed = false → s.doomed = false
  flushed : s.Flushed → s'.Flushed

theorem Gave.trans {s' s'' : Session} {more : List Bytes} (first : s.Gave s' lines)
    (second : s'.Gave s'' more) : s.Gave s'' (lines ++ more) where
  given alive := by
    rw [map_append, ← append_assoc]
    exact (second.given alive).trans ((first.given (second.alive alive)).append_right _)
  alive alive := first.alive (second.alive alive)
  flushed flushed := second.flushed (first.flushed flushed)

/-- Nothing but the label groups or the count of batches changed. -/
theorem Gave.of_eq {s' : Session} (written : s'.written = s.written) (held : s'.held = s.held)
    (doomed : s'.doomed = s.doomed) (deferred : s'.deferredReplies = s.deferredReplies) :
    s.Gave s' [] where
  given _ := by simp [Session.given, written, held]
  alive := doomed ▸ id
  flushed := by simp [Flushed, held, deferred]

/-- Besides, no answer is taken back and no group is touched. -/
structure Sent (s s' : Session) (lines : List Bytes) : Prop extends s.Gave s' lines where
  deferredReplies : s'.deferredReplies = s.deferredReplies
  labelGroups : s'.labelGroups = s.labelGroups

theorem Sent.trans {s' s'' : Session} {more : List Bytes} (first : s.Sent s' lines)
    (second : s'.Sent s'' more) : s.Sent s'' (lines ++ more) where
  toGave := first.toGave.trans second.toGave
  deferredReplies := second.deferredReplies.trans first.deferredReplies
  labelGroups := second.labelGroups.trans first.labelGroups

/-! ## Sending -/

theorem sent_send : s.Sent (s.sendBytesUncaptured cfg emitting line) [line] := by
  unfold sendBytesUncaptured
  split
  · rename_i holds
    have waiting : s.deferredReplies ≠ 0 := by
      simp only [Bool.and_eq_true, decide_eq_true_eq] at holds
      omega
    split
    · exact ⟨⟨nofun, nofun, fun _ zero => absurd zero waiting⟩, rfl, rfl⟩
    · refine ⟨⟨fun _ => ?_, id, fun _ zero => absurd zero waiting⟩, rfl, rfl⟩
      simp [given]
  · refine ⟨⟨fun _ => ?_, id, id⟩, rfl, rfl⟩
    simp only [given, append_assoc, map_singleton]
    exact perm_append_comm.append_left s.written

theorem sent_sendAll : s.Sent (s.sendAll cfg emitting lines) lines := by
  induction lines generalizing s with
  | nil => exact ⟨.of_eq rfl rfl rfl rfl, rfl, rfl⟩
  | cons line lines ih => exact sent_send.trans ih

/-- A response is sent as it is framed, under some batch reference. -/
theorem sent_sendLabeled : ∃ batchRef, s.Sent (s.sendLabeled cfg emitting label lines)
    (frameLabeled cfg.serverName label batchRef lines) := by
  have counted : s.Sent { s with msgids := s.msgids + 1 } [] := ⟨.of_eq rfl rfl rfl rfl, rfl, rfl⟩
  exact ⟨cfg.msgid s.msgids, counted.trans sent_sendAll⟩

/-- What was held is written once the last deferred reply is out. -/
theorem gave_releaseDeferred : s.Gave (s.releaseDeferred cfg) [] ∧
    (s.releaseDeferred cfg).deferredReplies = s.deferredReplies - 1 ∧
    (s.releaseDeferred cfg).labelGroups = s.labelGroups := by
  unfold releaseDeferred
  simp only
  split
  · rename_i waiting
    exact ⟨⟨fun _ => by simp [given], id, fun _ zero => absurd zero waiting.ne'⟩, rfl, rfl⟩
  generalize written : sendAll _ _ _ _ = s'
  have sent : Sent { s with deferredReplies := s.deferredReplies - 1, held := [] } s' s.held :=
    written ▸ sent_sendAll
  refine ⟨⟨fun alive => ?_, sent.alive, fun _ => sent.flushed fun _ => rfl⟩,
    sent.deferredReplies, sent.labelGroups⟩
  simpa [given] using sent.given alive

/-! ## Answers -/

theorem gave_gatherLabeledAnswer : s.Gave (s.gatherLabeledAnswer label lines).1 [] ∧
    (s.gatherLabeledAnswer label lines).1.deferredReplies = s.deferredReplies := by
  unfold gatherLabeledAnswer
  split
  · exact ⟨.of_eq rfl rfl rfl rfl, rfl⟩
  · simp only
    split <;> exact ⟨.of_eq rfl rfl rfl rfl, rfl⟩

theorem labelGroups_gather_of_ne {other : Bytes} (apart : other ≠ label) :
    (s.gatherLabeledAnswer label lines).1.labelGroups other = s.labelGroups other := by
  unfold gatherLabeledAnswer
  split
  · rfl
  · simp only
    split <;> exact Function.update_of_ne apart ..

/-- What an answer gives the output: its response, if it completes one. -/
def completion (cfg : Config) (s : Session) (label batchRef : Bytes) (lines : List Bytes) :
    List Bytes :=
  match (s.gatherLabeledAnswer label lines).2 with
  | none => []
  | some gathered => frameLabeled cfg.serverName label batchRef gathered

theorem gave_emitLabeledUnheld : ∃ batchRef, s.Gave (s.emitLabeledUnheld cfg (some label) lines)
      (s.completion cfg label batchRef lines) ∧
    (s.emitLabeledUnheld cfg (some label) lines).deferredReplies = s.deferredReplies ∧
    (s.emitLabeledUnheld cfg (some label) lines).labelGroups =
      (s.gatherLabeledAnswer label lines).1.labelGroups := by
  have gathered : s.Gave (s.gatherLabeledAnswer label lines).1 [] ∧ _ := gave_gatherLabeledAnswer
  unfold emitLabeledUnheld completion
  simp only
  split
  · rename_i s' pieces
    rw [pieces] at gathered
    exact ⟨[], by simpa [pieces] using gathered⟩
  · rename_i s' complete pieces
    rw [pieces] at gathered
    have framed : ∃ batchRef, s'.Sent (s'.sendLabeled cfg true label complete) _ := sent_sendLabeled
    obtain ⟨batchRef, framed⟩ := framed
    refine ⟨batchRef, by simpa [pieces] using gathered.1.trans framed.toGave,
      framed.deferredReplies.trans gathered.2, ?_⟩
    rw [pieces, framed.labelGroups]

theorem deferredReplies_emitLabeledUnheld {label : Option Bytes} :
    (s.emitLabeledUnheld cfg label lines).deferredReplies = s.deferredReplies := by
  cases label with
  | none => exact sent_sendAll.deferredReplies
  | some label =>
    obtain ⟨-, -, deferred, -⟩ := gave_emitLabeledUnheld
    exact deferred

/-- An answer that held output back differs from one that did not by the release. -/
theorem emitDeferredLabeled_eq {label : Option Bytes} :
    s.emitDeferredLabeled cfg label lines =
      (s.emitLabeledUnheld cfg label lines).releaseDeferred cfg := by
  unfold emitDeferredLabeled emitLabeledUnheld
  cases label with
  | none => rfl
  | some label =>
    simp only
    split <;> rfl

end Session

/-! ## Which command a group stands for -/

namespace Command

/-- One answer and nothing replied on the spot: the answer is the response. -/
def SelfFraming (c : Command) : Prop :=
  c.deferrals = 1 ∧ c.captured = []

instance (c : Command) : Decidable c.SelfFraming :=
  inferInstanceAs (Decidable (_ ∧ _))

/-- Answers to come are among those left, and bring nothing before they come. -/
structure Sound (c : Command) : Prop where
  bound : c.outstanding ≤ c.deferrals
  untouched : c.outstanding = c.deferrals → c.gathered = []

/-- One answer to the command has come with these lines. -/
structure Answered (c c' : Command) (lines : List Bytes) : Prop where
  label : c'.label = c.label
  captured : c'.captured = c.captured
  deferrals : c'.deferrals = c.deferrals
  gathered : c'.gathered = c.gathered ++ lines
  outstanding : c.outstanding = c'.outstanding + 1

variable {c c' : Command} {lines : List Bytes}

theorem answered_held (waits : 0 < c.heldLeft) : c.Answered (c.heldAnswer lines) lines := by
  refine ⟨rfl, rfl, rfl, rfl, ?_⟩
  simp only [outstanding, heldAnswer]
  omega

theorem answered_unheld (waits : 0 < c.unheldLeft) : c.Answered (c.unheldAnswer lines) lines := by
  refine ⟨rfl, rfl, rfl, rfl, ?_⟩
  simp only [outstanding, unheldAnswer]
  omega

theorem Answered.lines_eq (answered : c.Answered c' lines) : c'.lines = c.lines ++ lines := by
  rw [Command.lines, answered.captured, answered.gathered, ← append_assoc]
  rfl

theorem Answered.sound (answered : c.Answered c' lines) (sound : c.Sound) : c'.Sound := by
  have bound := sound.bound
  have fewer := answered.outstanding
  have same := answered.deferrals
  exact ⟨by omega, fun all => by omega⟩

theorem SelfFraming.lines_eq (single : c.SelfFraming) (sound : c.Sound) (waits : 0 < c.outstanding) :
    c.outstanding = 1 ∧ c.lines = [] := by
  have bound := sound.bound
  have one : c.outstanding = 1 := by
    have := single.1
    omega
  have untouched := sound.untouched (one.trans single.1.symm)
  exact ⟨one, by rw [lines, single.2, untouched]; rfl⟩

end Command

/-- The group under a label, if any, is that of the label's only unanswered
command; without a group each unanswered one frames its own answer. -/
inductive Gathering (commands : List Command) (label : Bytes) : Option LabelGroup → Prop
  | apart : (∀ c ∈ commands, c.label = some label → 0 < c.outstanding → c.SelfFraming) →
      Gathering commands label none
  | group (n : ℕ) (c : Command) : commands[n]? = some c → c.label = some label →
      0 < c.outstanding → ¬ c.SelfFraming →
      (∀ m d, commands[m]? = some d → d.label = some label → 0 < d.outstanding → m = n) →
      Gathering commands label (some ⟨c.outstanding, c.lines⟩)

namespace Gathering

variable {commands : List Command} {label : Bytes} {group : Option LabelGroup} {n : ℕ}
  {c c' : Command} {lines : List Bytes}

/-- A command changed in place leaves the groups of the other labels. -/
theorem set_other (gathering : Gathering commands label group) (here : commands[n]? = some c)
    (other : c.label ≠ some label) (same : c'.label = c.label) :
    Gathering (commands.set n c') label group := by
  cases gathering with
  | apart frames =>
    refine .apart fun d mem labeled waits => ?_
    obtain ⟨m, found⟩ := mem_iff_getElem?.mp mem
    rcases getElem?_set_cases found with ⟨-, rfl⟩ | ⟨-, before⟩
    · exact absurd (same ▸ labeled) other
    · exact frames d (mem_of_getElem? before) labeled waits
  | group m d found labeled waits gathers only =>
    have apart : n ≠ m := by
      intro clash
      rw [clash, found] at here
      cases here
      exact other labeled
    refine .group m d ?_ labeled waits gathers fun m' d' found' labeled' waits' => ?_
    · rw [getElem?_set_ne apart]
      exact found
    · rcases getElem?_set_cases found' with ⟨-, rfl⟩ | ⟨-, before⟩
      · exact absurd (same ▸ labeled') other
      · exact only m' d' before labeled' waits'

/-- An answer is gathered for the command it belongs to, which it completes when
no other is to come. -/
theorem answer {s : Session} (gathering : Gathering commands label (s.labelGroups label))
    (here : commands[n]? = some c) (labeled : c.label = some label) (sound : c.Sound)
    (answered : c.Answered c' lines) :
    (s.gatherLabeledAnswer label lines).2 = (if 0 < c'.outstanding then none else some c'.lines) ∧
      Gathering (commands.set n c') label
        ((s.gatherLabeledAnswer label lines).1.labelGroups label) := by
  have waits : 0 < c.outstanding := by
    have := answered.outstanding
    omega
  unfold gatherLabeledAnswer
  generalize held : s.labelGroups label = group at gathering
  cases gathering with
  | apart frames =>
    have single := frames c (mem_of_getElem? here) labeled waits
    obtain ⟨one, silent⟩ := single.lines_eq sound waits
    have done : c'.outstanding = 0 := by
      have := answered.outstanding
      omega
    refine ⟨?_, ?_⟩
    · rw [if_neg (by omega), answered.lines_eq, silent]
      rfl
    simp only [held]
    refine .apart fun d mem labeled' waits' => ?_
    obtain ⟨m, found⟩ := mem_iff_getElem?.mp mem
    rcases getElem?_set_cases found with ⟨-, rfl⟩ | ⟨-, before⟩
    · omega
    · exact frames d (mem_of_getElem? before) labeled' waits'
  | group m d found labeled' waits' gathers only =>
    obtain rfl := only n c here labeled waits
    obtain rfl : d = c := Option.some.inj (found.symm.trans here)
    have left : d.outstanding - 1 = c'.outstanding := by
      have := answered.outstanding
      omega
    have others : ∀ m d, (commands.set n c')[m]? = some d → d.label = some label →
        0 < d.outstanding → m = n := by
      intro m d found labeled waits
      rcases getElem?_set_cases found with ⟨same, -⟩ | ⟨-, before⟩
      · exact same
      · exact only m d before labeled waits
    simp only [left, ← answered.lines_eq]
    split
    · rename_i more
      refine ⟨rfl, ?_⟩
      simp only [Function.update_self]
      refine .group n c' ?_ (answered.label.trans labeled) more ?_ others
      · rw [List.getElem?_set_self (List.getElem?_eq_some_iff.mp here).1]
      · rw [SelfFraming, answered.deferrals, answered.captured]
        exact gathers
    · rename_i done
      refine ⟨rfl, ?_⟩
      simp only [Function.update_self]
      refine .apart fun d mem labeled waits => ?_
      obtain ⟨m, found⟩ := mem_iff_getElem?.mp mem
      rcases getElem?_set_cases found with ⟨-, rfl⟩ | ⟨apart, before⟩
      · exact absurd waits done
      · exact absurd (only m d before labeled waits) apart

/-- A command joins: under another label, or with every answer in. -/
theorem append_silent (gathering : Gathering commands label group)
    (silent : c.label = some label → c.outstanding = 0) :
    Gathering (commands ++ [c]) label group := by
  cases gathering with
  | apart frames =>
    refine .apart fun d mem labeled waits => ?_
    rcases mem_append.mp mem with before | new
    · exact frames d before labeled waits
    · rw [mem_singleton.mp new] at labeled waits
      exact absurd (silent labeled) waits.ne'
  | group m d found labeled waits gathers only =>
    have inside := (List.getElem?_eq_some_iff.mp found).1
    refine .group m d ?_ labeled waits gathers fun m' d' found' labeled' waits' => ?_
    · rw [getElem?_append_left inside]
      exact found
    rw [getElem?_append] at found'
    split at found'
    · exact only m' d' found' labeled' waits'
    · obtain rfl := mem_singleton.mp (mem_of_getElem? found')
      exact absurd (silent labeled') waits'.ne'

/-- A command with answers to come joins under its label: one that frames its
own answer beside others that do, one that needs a group beside none. -/
theorem await {s : Session} {actions : List Action}
    (gathering : Gathering commands label (s.labelGroups label))
    (waits : 0 < (Capture.of label actions).deferrals)
    (beside : ∀ d ∈ commands, d.label = some label → 0 < d.outstanding →
      d.SelfFraming ∧ (sent (some label) actions).SelfFraming) :
    Gathering (commands ++ [.sent (some label) actions]) label
      ((s.awaitLabeledAnswers (Capture.of label actions)).labelGroups label) := by
  unfold awaitLabeledAnswers
  split
  · rename_i ungrouped
    have single : (sent (some label) actions).SelfFraming :=
      ungrouped.resolve_left waits.ne'
    generalize s.labelGroups label = group at gathering
    cases gathering with
    | apart frames =>
      refine .apart fun d mem labeled waits => ?_
      rcases mem_append.mp mem with before | new
      · exact frames d before labeled waits
      · rw [mem_singleton.mp new]
        exact single
    | group m d found labeled waits gathers only =>
      exact absurd (beside d (mem_of_getElem? found) labeled waits).1 gathers
  · rename_i grouped
    have several : ¬ (sent (some label) actions).SelfFraming := fun single =>
      grouped (.inr single)
    have captured : (sent (some label) actions).lines = (Capture.of label actions).lines :=
      append_nil _
    show Gathering _ label (Function.update s.labelGroups label _ label)
    rw [Function.update_self, ← captured]
    refine .group commands.length (.sent (some label) actions) ?_ rfl waits several ?_
    · exact getElem?_concat_length
    intro m d found labeled waits
    rw [getElem?_append] at found
    split at found
    · exact absurd (beside d (mem_of_getElem? found) labeled waits).2 several
    · have inside := (List.getElem?_eq_some_iff.mp found).1
      rw [length_singleton] at inside
      omega

end Gathering

/-! ## What a command has been given -/

/-- The response a command is owed: its lines, framed once if it is labeled. -/
def Command.Response (cfg : Config) (c : Command) (wire : List Bytes) : Prop :=
  match c.label with
  | none => wire = c.lines.map sanitized
  | some label =>
    ∃ batchRef, wire = (frameLabeled cfg.serverName label batchRef c.lines).map sanitized

/-- What it has been given so far: under a label, nothing before the last answer. -/
def Command.Given (cfg : Config) (c : Command) (wire : List Bytes) : Prop :=
  (c.label ≠ none ∧ 0 < c.outstanding ∧ wire = []) ∨
    ((c.label = none ∨ c.outstanding = 0) ∧ c.Response cfg wire)

namespace Session

variable {cfg : Config} {s : Session} {label : Bytes} {actions : List Action}

theorem gave_deferred (n : ℕ) : s.Gave { s with deferredReplies := s.deferredReplies + n } [] where
  given _ := by simp [given]
  alive := id
  flushed flushed zero := flushed (Nat.eq_zero_of_add_eq_zero zero).1

/-- A command without a label: its replies go out as they come. -/
theorem gave_dispatch_none :
    s.Gave (s.dispatch cfg none actions) (actions.filterMap Action.line?) ∧
      (s.dispatch cfg none actions).deferredReplies =
        s.deferredReplies + actions.countP Action.isHold ∧
      (s.dispatch cfg none actions).labelGroups = s.labelGroups := by
  unfold dispatch
  simp only
  induction actions generalizing s with
  | nil => exact ⟨.of_eq rfl rfl rfl rfl, rfl, rfl⟩
  | cons action actions ih =>
    obtain ⟨gave, deferred, groups⟩ := ih (s := s.act cfg action)
    cases action with
    | reply line =>
      have sent : s.Sent (s.act cfg (.reply line)) [line] := sent_send
      rw [sent.deferredReplies] at deferred
      exact ⟨sent.toGave.trans gave, by simpa [Action.isHold] using deferred,
        groups.trans sent.labelGroups⟩
    | deferReply =>
      refine ⟨(gave_deferred 1).trans gave, deferred.trans ?_, groups⟩
      simp only [act, deferReply, countP_cons, Action.isHold]
      simp
      omega
    | deferLabel => exact ⟨gave, by simpa [act, Action.isHold] using deferred, groups⟩

theorem gave_awaitLabeledAnswers {capture : Capture} :
    s.Gave (s.awaitLabeledAnswers capture) [] := by
  unfold awaitLabeledAnswers
  split <;> exact .of_eq rfl rfl rfl rfl

theorem deferredReplies_awaitLabeledAnswers {capture : Capture} :
    (s.awaitLabeledAnswers capture).deferredReplies = s.deferredReplies := by
  unfold awaitLabeledAnswers
  split <;> rfl

theorem labelGroups_awaitLabeledAnswers_of_ne {capture : Capture} (apart : label ≠ capture.label) :
    (s.awaitLabeledAnswers capture).labelGroups label = s.labelGroups label := by
  unfold awaitLabeledAnswers
  split
  · rfl
  · exact Function.update_of_ne apart ..

/-- Handling a command gives the output what the command is due by then. -/
theorem gave_dispatch {label : Option Bytes} :
    ∃ wire, (sent label actions).Given cfg (wire.map sanitized) ∧
      s.Gave (s.dispatch cfg label actions) wire := by
  cases label with
  | none =>
    refine ⟨_, .inr ⟨.inl rfl, ?_⟩, gave_dispatch_none.1⟩
    exact congrArg (map sanitized) (append_nil _).symm
  | some label =>
    have deferred : s.Gave _ [] := gave_deferred (actions.countP Action.isHold)
    unfold dispatch
    simp only
    split
    · rename_i waits
      exact ⟨[], .inl ⟨nofun, waits, rfl⟩, deferred.trans gave_awaitLabeledAnswers⟩
    rename_i none_left
    obtain ⟨batchRef, framed⟩ := sent_sendLabeled
    refine ⟨_, .inr ⟨.inr (Nat.eq_zero_of_not_pos none_left), batchRef, ?_⟩,
      deferred.trans framed.toGave⟩
    exact congrArg (fun lines => (frameLabeled _ _ _ lines).map sanitized)
      (append_nil _).symm

theorem deferredReplies_dispatch {label : Option Bytes} :
    (s.dispatch cfg label actions).deferredReplies =
      s.deferredReplies + actions.countP Action.isHold := by
  cases label with
  | none => exact gave_dispatch_none.2.1
  | some label =>
    unfold dispatch
    simp only
    split
    · exact deferredReplies_awaitLabeledAnswers
    · exact sent_sendLabeled.choose_spec.deferredReplies

theorem labelGroups_dispatch_some :
    (s.dispatch cfg (some label) actions).labelGroups =
      if 0 < (Capture.of label actions).deferrals then
        (s.awaitLabeledAnswers (Capture.of label actions)).labelGroups
      else s.labelGroups := by
  unfold dispatch
  simp only
  split
  · unfold awaitLabeledAnswers
    split <;> rfl
  · exact sent_sendLabeled.choose_spec.labelGroups

/-- An answer gives the output what it makes due. -/
theorem gave_answer {c c' : Command} {commands : List Command} {n : ℕ} {lines : List Bytes}
    (groups : ∀ label, Gathering commands label (s.labelGroups label))
    (here : commands[n]? = some c) (sound : c.Sound) (answered : c.Answered c' lines) :
    ∃ more, s.Gave (s.emitLabeledUnheld cfg c.label lines) more ∧
      ∀ wire, c.Given cfg wire → c'.Given cfg (wire ++ more.map sanitized) := by
  cases labeled : c.label with
  | none =>
    refine ⟨lines, sent_sendAll.toGave, fun wire given => ?_⟩
    have unlabeled : c'.label = none := answered.label.trans labeled
    rcases given with ⟨some, -, -⟩ | ⟨-, response⟩
    · exact absurd labeled some
    refine .inr ⟨.inl unlabeled, ?_⟩
    rw [Response, labeled] at response
    rw [Response, unlabeled, answered.lines_eq, map_append]
    exact congrArg (· ++ lines.map sanitized) response
  | some label =>
    obtain ⟨batchRef, gave, -, -⟩ := gave_emitLabeledUnheld
    refine ⟨_, gave, fun wire given => ?_⟩
    have complete := ((groups label).answer here labeled sound answered).1
    have fewer := answered.outstanding
    have still : c'.label = some label := answered.label.trans labeled
    have silent : wire = [] := by
      rcases given with ⟨-, -, none⟩ | ⟨done, -⟩
      · exact none
      rcases done with unlabeled | zero
      · rw [labeled] at unlabeled
        cases unlabeled
      · omega
    rw [completion, complete, silent, nil_append]
    rcases Nat.eq_zero_or_pos c'.outstanding with zero | more
    · rw [if_neg (Nat.not_lt.mpr zero.le)]
      refine .inr ⟨.inr zero, ?_⟩
      rw [Response, still]
      exact ⟨batchRef, rfl⟩
    · rw [if_pos more]
      exact .inl ⟨by simp [still], more, rfl⟩

end Session

/-! ## Whole runs -/

namespace State

/-- What holds throughout while commands that need a group have their label to
themselves. -/
structure Answering (cfg : Config) (s : State) : Prop where
  flushed : s.session.Flushed
  waiting : s.session.deferredReplies = (s.commands.map heldLeft).sum
  sound : ∀ c ∈ s.commands, c.Sound
  groups : ∀ label, Gathering s.commands label (s.session.labelGroups label)
  given : s.session.doomed = false →
    ∃ wires, Forall₂ (Given cfg) s.commands wires ∧ s.session.given.Perm wires.flatten

/-- A command with answers to come is handled while an earlier one under its
label is unanswered only if each of the two frames its own answer. -/
def Apart (s : State) : Event → Prop
  | .command (some label) actions =>
    0 < (sent (some label) actions).outstanding →
      ∀ c ∈ s.commands, c.label = some label → 0 < c.outstanding →
        c.SelfFraming ∧ (sent (some label) actions).SelfFraming
  | _ => True

variable {cfg : Config} {s : State}

section

variable (kept : s.Answering cfg)
include kept

theorem Answering.groups_dispatch {label : Option Bytes} {actions : List Action}
    (apart : s.Apart (.command label actions)) (other : Bytes) :
    Gathering (s.commands ++ [.sent label actions]) other
      ((s.session.dispatch cfg label actions).labelGroups other) := by
  have before := kept.groups other
  cases label with
  | none =>
    rw [gave_dispatch_none.2.2]
    exact before.append_silent nofun
  | some label =>
    rw [labelGroups_dispatch_some]
    split
    · rename_i waits
      rcases eq_or_ne other label with rfl | foreign
      · exact before.await waits (apart waits)
      · rw [labelGroups_awaitLabeledAnswers_of_ne foreign]
        exact before.append_silent fun same => absurd (Option.some.inj same).symm foreign
    · rename_i done
      exact before.append_silent fun _ => Nat.eq_zero_of_not_pos done

theorem Answering.command {label : Option Bytes} {actions : List Action}
    (apart : s.Apart (.command label actions)) : Answering cfg
      { session := s.session.dispatch cfg label actions
        commands := s.commands ++ [.sent label actions] } := by
  obtain ⟨wire, due, gave⟩ : ∃ wire, (sent label actions).Given cfg (wire.map sanitized) ∧
    s.session.Gave (s.session.dispatch cfg label actions) wire := gave_dispatch
  refine ⟨gave.flushed kept.flushed, ?_, ?_, ?_, fun alive => ?_⟩
  · rw [deferredReplies_dispatch, kept.waiting]
    simp [sent]
  · intro c mem
    rcases mem_append.mp mem with before | new
    · exact kept.sound c before
    · rw [mem_singleton.mp new]
      exact ⟨le_rfl, fun _ => rfl⟩
  · exact kept.groups_dispatch apart
  · obtain ⟨wires, given, whole⟩ := kept.given (gave.alive alive)
    refine ⟨wires ++ [wire.map sanitized], rel_append given (.cons due .nil), ?_⟩
    rw [flatten_append, flatten_singleton]
    exact (gave.given alive).trans (whole.append_right _)

/-- One answer, of either kind, to the n-th command. -/
theorem Answering.answer {n : ℕ} {c c' : Command} {lines : List Bytes}
    (here : s.commands[n]? = some c) (answered : c.Answered c' lines) {session : Session}
    (released : (s.session.emitLabeledUnheld cfg c.label lines).Gave session [])
    (groups : session.labelGroups = (s.session.emitLabeledUnheld cfg c.label lines).labelGroups)
    (waiting : session.deferredReplies = ((s.commands.set n c').map heldLeft).sum) :
    Answering cfg { session, commands := s.commands.set n c' } := by
  have mem := mem_of_getElem? here
  have sound := kept.sound c mem
  obtain ⟨more, gave, due⟩ : ∃ more, _ ∧ ∀ wire, c.Given cfg wire → _ :=
    gave_answer kept.groups here sound answered
  have gave := gave.trans released
  rw [append_nil] at gave
  refine ⟨gave.flushed kept.flushed, waiting, ?_, ?_, fun alive => ?_⟩
  · intro d mem
    rcases mem_or_eq_of_mem_set mem with before | rfl
    · exact kept.sound d before
    · exact answered.sound sound
  · intro label
    rw [groups]
    have before := kept.groups label
    cases labeled : c.label with
    | none =>
      have same : (s.session.emitLabeledUnheld cfg none lines).labelGroups = s.session.labelGroups :=
        sent_sendAll.labelGroups
      rw [same]
      exact before.set_other here (by simp [labeled]) answered.label
    | some own =>
      obtain ⟨-, -, -, gathered⟩ := gave_emitLabeledUnheld (s := s.session)
      rw [gathered]
      rcases eq_or_ne label own with rfl | foreign
      · exact (before.answer here labeled sound answered).2
      · rw [labelGroups_gather_of_ne foreign]
        exact before.set_other here (by simp [labeled, Ne.symm foreign]) answered.label
  · obtain ⟨wires, given, whole⟩ := kept.given (gave.alive alive)
    obtain ⟨wire, found, givenHere⟩ := forall₂_getElem? given here
    refine ⟨wires.set n (wire ++ more.map sanitized), forall₂_set given (due wire givenHere) n, ?_⟩
    exact ((gave.given alive).trans (whole.append_right _)).trans (flatten_set_append found).symm

theorem Answering.step {s' : State} {e : Event} (apart : s.Apart e)
    (step : step cfg s e = some s') : s'.Answering cfg := by
  cases e with
  | command label actions =>
    obtain ⟨-, rfl⟩ := guard_some_eq_some.mp step
    exact kept.command apart
  | answer n lines =>
    obtain ⟨-, step⟩ := guard_bind_eq_some.mp step
    obtain ⟨c, here, step⟩ := Option.bind_eq_some_iff.mp step
    obtain ⟨waits, rfl⟩ := guard_some_eq_some.mp step
    have fewer : (s.commands.map heldLeft).sum =
        ((s.commands.set n (c.heldAnswer lines)).map heldLeft).sum + 1 :=
      sum_map_set here (Nat.sub_one_add_one waits.ne').symm
    rw [emitDeferredLabeled_eq]
    obtain ⟨released, deferred, groups⟩ := gave_releaseDeferred
    refine kept.answer here (answered_held waits) released groups ?_
    rw [deferred, deferredReplies_emitLabeledUnheld, kept.waiting, fewer, Nat.add_sub_cancel]
  | unheldAnswer n lines =>
    obtain ⟨-, step⟩ := guard_bind_eq_some.mp step
    obtain ⟨c, here, step⟩ := Option.bind_eq_some_iff.mp step
    obtain ⟨waits, rfl⟩ := guard_some_eq_some.mp step
    refine kept.answer here (answered_unheld waits) (.of_eq rfl rfl rfl rfl) rfl ?_
    rw [deferredReplies_emitLabeledUnheld, kept.waiting]
    exact sum_map_set (n := 0) here rfl

end

theorem Answering.init (cfg : Config) : (connection cfg).init.Answering cfg where
  flushed _ := rfl
  waiting := rfl
  sound := by simp [connection]
  groups _ := .apart (by simp [connection])
  given _ := ⟨[], .nil, .nil⟩

/-- Every command got exactly one response, made of exactly its lines, and
nothing else was sent. -/
def Responded (cfg : Config) (s : State) : Prop :=
  ∃ wires, Forall₂ (Response cfg) s.commands wires ∧
    s.session.written.Perm wires.flatten

theorem Answering.responded (kept : s.Answering cfg) (alive : s.session.doomed = false)
    (answered : ∀ c ∈ s.commands, c.outstanding = 0) : s.Responded cfg := by
  obtain ⟨wires, given, whole⟩ := kept.given alive
  refine ⟨wires, ?_, ?_⟩
  · refine ((forall₂_and_left _ _).mpr ⟨answered, given⟩).imp fun c wire ⟨done, given⟩ => ?_
    rcases given with ⟨-, waits, -⟩ | ⟨-, response⟩
    · omega
    · exact response
  · have quiet : s.session.deferredReplies = 0 := by
      rw [kept.waiting]
      refine sum_eq_zero fun left mem => ?_
      obtain ⟨c, found, rfl⟩ := mem_map.mp mem
      have done := answered c found
      unfold outstanding at done
      omega
    have nothing_held := kept.flushed quiet
    rwa [Session.given, nothing_held, map_nil, append_nil] at whole

end State

instance (s : State) (e : Event) : Decidable (s.Apart e) :=
  match e with
  | .command (some label) _ =>
    inferInstanceAs (Decidable (0 < _ → ∀ c ∈ s.commands, c.label = some label → 0 < _ → _ ∧ _))
  | .command none _ | .answer .. | .unheldAnswer .. => isTrue trivial

def irc : Config where
  serverName := ascii "irc.example"
  sendqBytes := 1000
  msgid n := ascii "b" ++ decimal n

def noChannel : Bytes := ascii ":irc.example 403 ann bad :No such channel\r\n"

def inviteOnly (channel : String) : Bytes :=
  ascii ":irc.example 473 ann " ++ ascii channel ++
    ascii " :Cannot join channel (+i) - you must be invited\r\n"

/-- `JOIN bad,<channel>` with the channel on another shard: one reply on the
spot, one answer to come. -/
def joinTwo : List Action := [.reply noChannel, .deferReply]

/-- Two such commands under one label, each answered. -/
def labelReused : List Event :=
  [.command (some (ascii "1")) joinTwo, .command (some (ascii "1")) joinTwo,
    .answer 0 [inviteOnly "#a"], .answer 1 [inviteOnly "#b"]]

/-- A response of two lines that are no batch by themselves takes four. -/
theorem length_of_response {c : Command} {wire : List Bytes} {label first second : Bytes}
    (labeled : c.label = some label) (lines : c.lines = [first, second])
    (loose : isSelfContainedBatch [first, second] = false) (response : c.Response irc wire) :
    wire.length = 4 := by
  rw [Response, labeled] at response
  obtain ⟨batchRef, rfl⟩ := response
  simp [lines, frameLabeled, loose]

end E6irc.Output
