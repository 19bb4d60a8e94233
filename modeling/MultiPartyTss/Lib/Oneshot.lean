import Mathlib.Tactic.Common

/-!
# Polling a one-shot channel

The results of a poll, a channel for one value as its receiver finds it, and a fused receiver: once it has
resolved it is pending for ever.
-/

inductive Poll (α : Type*) where
  | ready (a : α)
  | pending
  deriving DecidableEq, Repr

namespace Oneshot

/-- The sender is alive, has sent a value, or was dropped without one. -/
inductive Channel (α : Type*) where
  | waiting
  | sent (a : α)
  | dropped
  deriving DecidableEq, Repr

namespace Channel

variable {α : Type*}

def poll : Channel α → Poll (Except Unit α)
  | waiting => .pending
  | sent a => .ready (.ok a)
  | dropped => .ready (.error ())

def send (a : α) : Channel α → Channel α
  | waiting => sent a
  | channel => channel

def dropSender : Channel α → Channel α
  | waiting => dropped
  | channel => channel

theorem send_ne_waiting (a : α) (channel : Channel α) : channel.send a ≠ waiting := by
  cases channel <;> simp [send]

theorem dropSender_ne_waiting (channel : Channel α) : channel.dropSender ≠ waiting := by
  cases channel <;> simp [dropSender]

end Channel

/-- A fused receiver, by the name of its channel; `none` once it has resolved. -/
def fusedPoll {ι α : Type*} (channels : ι → Channel α) : Option ι → Poll (Except Unit α) × Option ι
  | none => (.pending, none)
  | some receiver =>
    match (channels receiver).poll with
    | .ready result => (.ready result, none)
    | .pending => (.pending, some receiver)

variable {ι α : Type*} {channels : ι → Channel α} {receiver : ι}

theorem fusedPoll_none (channels : ι → Channel α) : fusedPoll channels none = (.pending, none) := rfl

theorem fusedPoll_waiting (h : channels receiver = .waiting) :
    fusedPoll channels (some receiver) = (.pending, some receiver) := by
  simp [fusedPoll, h, Channel.poll]

/-- A receiver whose channel has resolved is ready, and consumed. -/
theorem fusedPoll_resolved (h : channels receiver ≠ .waiting) :
    ∃ result, fusedPoll channels (some receiver) = (.ready result, none) := by
  cases hchannel : channels receiver with
  | waiting => exact absurd hchannel h
  | sent a => exact ⟨.ok a, by simp [fusedPoll, hchannel, Channel.poll]⟩
  | dropped => exact ⟨.error (), by simp [fusedPoll, hchannel, Channel.poll]⟩

/-- What a poll leaves of a receiver is the receiver itself or nothing. -/
theorem fusedPoll_snd {left : ι} :
    ∀ {receiver : Option ι}, (fusedPoll channels receiver).2 = some left → receiver = some left
  | none, h => by simp [fusedPoll] at h
  | some receiver, h => by
    by_cases hwaiting : channels receiver = .waiting
    · rwa [fusedPoll_waiting hwaiting] at h
    · obtain ⟨result, hresult⟩ := fusedPoll_resolved hwaiting
      simp [hresult] at h

end Oneshot
