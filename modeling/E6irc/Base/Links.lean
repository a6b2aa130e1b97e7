import Mathlib

/-!
# Ordered links between nodes

One queue per ordered pair of nodes: what a node sends to another arrives in
the order sent, and different pairs interleave freely.  A relation that holds
between every message of a link and everything queued behind it (`Ordered`) is
what the order of delivery gives a receiver: it holds between the message
received and all that is still on that link.
-/

namespace E6irc.Base

open List

variable {N M : Type}

/-- The messages on their way from one node to another, oldest first. -/
abbrev Links (N M : Type) := N → N → List M

namespace Links

def empty : Links N M := fun _ _ => []

/-- `R` holds between each message and everything queued behind it. -/
def Ordered (R : M → M → Prop) (links : Links N M) : Prop :=
  ∀ a b, (links a b).Pairwise R

@[simp] theorem mem_empty {a b : N} {x : M} : ¬ x ∈ (empty : Links N M) a b := by
  simp [empty]

variable [DecidableEq N]

/-- Queue a message on one link. -/
def send (links : Links N M) (src dst : N) (m : M) : Links N M :=
  fun a b => if a = src ∧ b = dst then links a b ++ [m] else links a b

/-- Queue a message on every link that leaves `src` for another node. -/
def broadcast (links : Links N M) (src : N) (m : M) : Links N M :=
  fun a b => if a = src ∧ b ≠ src then links a b ++ [m] else links a b

/-- Take the oldest message off a link. -/
def receive (links : Links N M) (src dst : N) : Option (M × Links N M) :=
  match links src dst with
  | [] => none
  | m :: rest => some (m, fun a b => if a = src ∧ b = dst then rest else links a b)

variable {links rest : Links N M} {src dst a b : N} {m x : M} {R : M → M → Prop}

theorem mem_send : x ∈ links.send src dst m a b ↔ x ∈ links a b ∨ (a = src ∧ b = dst) ∧ x = m := by
  unfold send
  split <;> rename_i link <;> simp [link]

theorem mem_broadcast :
    x ∈ links.broadcast src m a b ↔ x ∈ links a b ∨ (a = src ∧ b ≠ src) ∧ x = m := by
  unfold broadcast
  split <;> rename_i link <;> simp [link]

section

variable (received : links.receive src dst = some (m, rest))
include received

theorem receive_eq_some : links src dst = m :: rest src dst ∧
      ∀ a b, ¬ (a = src ∧ b = dst) → rest a b = links a b := by
  unfold receive at received
  cases queue : links src dst with
  | nil => simp [queue] at received
  | cons head tail =>
    simp only [queue, Option.some.injEq] at received
    obtain ⟨rfl, rfl⟩ := received
    exact ⟨by simp, fun a b apart => by simp [apart]⟩

/-- What is still on a link after a delivery was on it before. -/
theorem mem_of_receive (left : x ∈ rest a b) : x ∈ links a b := by
  obtain ⟨head, others⟩ := receive_eq_some received
  rcases Decidable.em (a = src ∧ b = dst) with ⟨rfl, rfl⟩ | apart
  · exact head ▸ mem_cons_of_mem m left
  · rwa [others a b apart] at left

theorem head_mem : m ∈ links src dst := by
  rw [(receive_eq_some received).1]
  exact mem_cons_self

/-- What was on a link is still on it after a delivery, or is what was delivered. -/
theorem mem_or_eq_of_receive
    (queued : x ∈ links a b) : x ∈ rest a b ∨ (a = src ∧ b = dst) ∧ x = m := by
  obtain ⟨head, others⟩ := receive_eq_some received
  rcases Decidable.em (a = src ∧ b = dst) with ⟨rfl, rfl⟩ | apart
  · rw [head] at queued
    rcases mem_cons.mp queued with same | left
    · exact .inr ⟨⟨rfl, rfl⟩, same⟩
    · exact .inl left
  · exact .inl (others a b apart ▸ queued)

end

/-! ## What a receiver makes of a link -/

section FilterMap

variable {Y : Type} {f : M → Option Y}

theorem filterMap_cons_eq_append (x : M) (xs : List M) :
    (x :: xs).filterMap f = (f x).toList ++ xs.filterMap f := by
  cases read : f x with
  | none => rw [filterMap_cons_none read, Option.toList_none, nil_append]
  | some y => rw [filterMap_cons_some read, Option.toList_some, singleton_append]

/-- A message that says something on one link only is the last that is said there. -/
theorem filterMap_send (link : ∀ y, f m = some y → a = src ∧ b = dst) :
    (links.send src dst m a b).filterMap f = (links a b).filterMap f ++ (f m).toList := by
  unfold send
  split
  · rw [filterMap_append, filterMap_cons_eq_append, filterMap_nil, append_nil]
  rename_i otherLink
  cases read : f m with
  | none => simp
  | some y => exact absurd (link y read) otherLink

/-- What a delivery says is the first that is said on its link. -/
theorem filterMap_receive (received : links.receive src dst = some (m, rest))
    (link : ∀ y, f m = some y → a = src ∧ b = dst) :
    (links a b).filterMap f = (f m).toList ++ (rest a b).filterMap f := by
  obtain ⟨head, others⟩ := receive_eq_some received
  by_cases same : a = src ∧ b = dst
  · obtain ⟨rfl, rfl⟩ := same
    rw [head, filterMap_cons_eq_append]
  rw [others a b same]
  cases read : f m with
  | none => simp
  | some y => exact absurd (link y read) same

end FilterMap

theorem Ordered.send (ordered : links.Ordered R) (behind : ∀ x ∈ links src dst, R x m) :
    (links.send src dst m).Ordered R := by
  intro a b
  unfold Links.send
  split
  · rename_i link
    obtain ⟨rfl, rfl⟩ := link
    exact pairwise_append.mpr ⟨ordered a b, pairwise_singleton R m, by simpa using behind⟩
  · exact ordered a b

theorem Ordered.broadcast (ordered : links.Ordered R)
    (behind : ∀ dst, dst ≠ src → ∀ x ∈ links src dst, R x m) :
    (links.broadcast src m).Ordered R := by
  intro a b
  unfold Links.broadcast
  split
  · rename_i link
    obtain ⟨rfl, other⟩ := link
    exact pairwise_append.mpr
      ⟨ordered a b, pairwise_singleton R m, by simpa using behind b other⟩
  · exact ordered a b

/-- A delivery leaves the links ordered, and `R` holds between the message
delivered and all that is left behind it. -/
theorem Ordered.receive (ordered : links.Ordered R)
    (received : links.receive src dst = some (m, rest)) :
    rest.Ordered R ∧ ∀ x ∈ rest src dst, R m x := by
  obtain ⟨head, others⟩ := receive_eq_some received
  have link := ordered src dst
  rw [head, pairwise_cons] at link
  refine ⟨fun a b => ?_, link.1⟩
  rcases Decidable.em (a = src ∧ b = dst) with ⟨rfl, rfl⟩ | apart
  · exact link.2
  · exact others a b apart ▸ ordered a b

end Links

end E6irc.Base
