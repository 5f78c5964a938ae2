import Mathlib.Data.List.Basic

/-!
# Bounded channels

A channel of a fixed capacity keeps its items in the order they came. A sender
that may wait is stopped while the channel is full; one that may not wait loses
the item instead. `Lossy` says what a receiver can rely on behind such a sender:
it sees the offered items in order, each at most once, and none is lost without
being counted.
-/

namespace KoAgent.BoundedChannels

set_option autoImplicit false

/-- At most `capacity` items, oldest first. -/
structure Channel (Item : Type) (capacity : Nat) where
  items : List Item
  bounded : items.length ≤ capacity

section Operations

variable {Item : Type} {capacity : Nat}

def Channel.empty : Channel Item capacity := ⟨[], Nat.zero_le capacity⟩

/-- A send that waits: `none` while the channel is full. -/
def Channel.send (channel : Channel Item capacity) (item : Item) : Option (Channel Item capacity) :=
  if room : channel.items.length < capacity then
    some ⟨channel.items ++ [item], by
      rw [List.length_append, List.length_singleton]
      exact room⟩
  else none

def Channel.receive (channel : Channel Item capacity) : Option (Item × Channel Item capacity) :=
  match channel with
  | ⟨[], _⟩ => none
  | ⟨item :: rest, bounded⟩ => some (item, ⟨rest, Nat.le_of_succ_le bounded⟩)

theorem send_some_iff (channel next : Channel Item capacity) (item : Item) :
    channel.send item = some next ↔
      channel.items.length < capacity ∧ next.items = channel.items ++ [item] := by
  rw [Channel.send]
  by_cases room : channel.items.length < capacity
  · rw [dif_pos room, Option.some.injEq]
    cases next with
    | mk items bounded =>
        rw [Channel.mk.injEq]
        constructor
        · intro same
          exact ⟨room, same.symm⟩
        · intro same
          exact same.2.symm
  · rw [dif_neg room]
    constructor
    · intro made
      cases made
    · intro made
      exact absurd made.1 room

theorem receive_some_items (channel rest : Channel Item capacity) (item : Item)
    (received : channel.receive = some (item, rest)) : channel.items = item :: rest.items := by
  cases channel with
  | mk items bounded =>
      cases items with
      | nil => cases received
      | cons first others =>
          cases received
          rfl

theorem receive_none_items (channel : Channel Item capacity) (received : channel.receive = none) :
    channel.items = [] := by
  cases channel with
  | mk items bounded =>
      cases items with
      | nil => rfl
      | cons first others => cases received

end Operations

section Loss

variable {Item : Type}

/-- What was received and what still waits, against what was offered. -/
structure Lossy (offered received waiting : List Item) (lost : Nat) : Prop where
  ordered : (received ++ waiting).Sublist offered
  counted : offered.length = received.length + waiting.length + lost

theorem lossy_start : Lossy ([] : List Item) [] [] 0 := ⟨List.Sublist.refl [], rfl⟩

theorem lossy_accepted (offered received waiting : List Item) (lost : Nat)
    (lossy : Lossy offered received waiting lost) (item : Item) :
    Lossy (offered ++ [item]) received (waiting ++ [item]) lost := by
  have counted := lossy.counted
  constructor
  · rw [← List.append_assoc]
    exact lossy.ordered.append (List.Sublist.refl [item])
  · rw [List.length_append, List.length_append, List.length_singleton]
    omega

theorem lossy_refused (offered received waiting : List Item) (lost : Nat)
    (lossy : Lossy offered received waiting lost) (item : Item) :
    Lossy (offered ++ [item]) received waiting (lost + 1) := by
  have counted := lossy.counted
  constructor
  · exact lossy.ordered.trans (List.sublist_append_left offered [item])
  · rw [List.length_append, List.length_singleton]
    omega

theorem lossy_received (offered received waiting : List Item) (lost : Nat) (item : Item)
    (lossy : Lossy offered received (item :: waiting) lost) :
    Lossy offered (received ++ [item]) waiting lost := by
  have counted := lossy.counted
  have ordered := lossy.ordered
  constructor
  · rw [List.append_assoc]
    exact ordered
  · rw [List.length_cons] at counted
    rw [List.length_append, List.length_singleton]
    omega

/-- Where nothing was lost, everything arrives. -/
theorem lossless (offered received waiting : List Item)
    (lossy : Lossy offered received waiting 0) : received ++ waiting = offered := by
  apply lossy.ordered.eq_of_length
  rw [List.length_append, lossy.counted, Nat.add_zero]

end Loss

end KoAgent.BoundedChannels
