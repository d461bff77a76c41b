import Mathlib.Data.List.Basic

/-!
Buffered channels that remember everything ever sent on them.
Sending on a closed channel and closing one twice end the program, so both are
partial: `none` is the panic. A full buffer blocks an ordinary send, and a receive
from a closed channel yields nothing once the buffer is drained.
-/
namespace IronGolem.GoChannels

structure Chan (α : Type*) where
  sent : List α
  received : ℕ
  closed : Bool
  deriving DecidableEq, Repr

variable {α : Type*}

namespace Chan

/-- A channel as `make` returns it. -/
def empty : Chan α := ⟨[], 0, false⟩

variable (ch : Chan α)

def buffered : List α := ch.sent.drop ch.received

def hasRoom (capacity : ℕ) (ch : Chan α) : Bool := decide (ch.buffered.length < capacity)

def send (v : α) : Option (Chan α) :=
  if ch.closed then none else some { ch with sent := ch.sent ++ [v] }

def close : Option (Chan α) :=
  if ch.closed then none else some { ch with closed := true }

def receive : Chan α := { ch with received := ch.received + 1 }

def Unused : Prop := ch.sent = [] ∧ ch.closed = false

theorem unused_empty : (empty : Chan α).Unused := ⟨rfl, rfl⟩

variable (ch : Chan α)

theorem send_of_open (v : α) (h : ch.closed = false) :
    ch.send v = some { ch with sent := ch.sent ++ [v] } := by
  unfold send
  rw [h]
  rfl

theorem close_of_open (h : ch.closed = false) : ch.close = some { ch with closed := true } := by
  unfold close
  rw [h]
  rfl

theorem send_eq_none_iff (v : α) : ch.send v = none ↔ ch.closed = true := by
  unfold send
  by_cases h : ch.closed = true <;> simp [h]

theorem close_eq_none_iff : ch.close = none ↔ ch.closed = true := by
  unfold close
  by_cases h : ch.closed = true <;> simp [h]

theorem hasRoom_of_unused (capacity : ℕ) (ch : Chan α) (hcap : 0 < capacity) (h : ch.Unused) :
    ch.hasRoom capacity = true := by
  unfold hasRoom buffered
  rw [h.1]
  simpa using hcap

end Chan

end IronGolem.GoChannels
