/-
SettingProfiles.Channel — announcements that are kept for a while.

A channel keeps the last few messages sent. A receiver is a position in the
sequence of all messages: it is given what was sent since, and, when some of
that is no longer kept, how much it missed.
-/
namespace SettingProfiles

/-- How many messages a channel keeps. -/
def channelCapacity : Nat := 32

/-- How many messages were sent in all, and the last of them in order. -/
structure Channel (α : Type) where
  sent : Nat
  kept : List α
  deriving DecidableEq

namespace Channel

variable {α : Type}

def empty : Channel α := ⟨0, []⟩

instance : Inhabited (Channel α) := ⟨empty⟩

/-- The last messages of a list, as many as a channel keeps. -/
def lastKept (messages : List α) : List α := messages.drop (messages.length - channelCapacity)

/-- Sends a message; the oldest one kept makes room for it. -/
def send (c : Channel α) (message : α) : Channel α := ⟨c.sent + 1, lastKept (c.kept ++ [message])⟩

/-- The position of a receiver that begins now. -/
def subscribe (c : Channel α) : Nat := c.sent

/-- What a receiver is given: how many messages it missed, and the others. -/
structure Received (α : Type) where
  missed : Nat
  messages : List α
  deriving DecidableEq

/-- What was sent since the position. -/
def receive (c : Channel α) (position : Nat) : Received α :=
  let due := c.sent - position
  ⟨due - c.kept.length, c.kept.drop (c.kept.length - due)⟩

/-- The messages of a channel to which these messages were sent. -/
theorem kept_foldl_send (messages : List α) :
    (messages.foldl send empty).kept = lastKept messages ∧
      (messages.foldl send empty).sent = messages.length := by
  suffices h : ∀ (before : List α) (c : Channel α),
      c.kept = lastKept before → c.sent = before.length →
      (messages.foldl send c).kept = lastKept (before ++ messages) ∧
        (messages.foldl send c).sent = (before ++ messages).length by
    simpa using h [] empty rfl rfl
  induction messages with
  | nil => intro before c hk hs; simp [hk, hs]
  | cons x rest ih =>
    intro before c hk hs
    have := ih (before ++ [x]) (c.send x) (by
      simp only [send, hk, lastKept, List.length_append, List.length_drop, List.length_cons,
        List.length_nil, List.drop_append, List.drop_drop]
      congr 1 <;> congr 1 <;> omega) (by simp [send, hs])
    simpa using this

end Channel

end SettingProfiles
