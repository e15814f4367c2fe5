/-!
Channels that keep the last messages for listeners. A listener is the number of messages that
were sent before the next one it hears. One that falls behind by more than the channel keeps is
told once how many messages it missed, and goes on with the oldest one that is kept.
-/

namespace FieldPost

structure Channel (Message : Type) where
  capacity : Nat
  sent : Nat := 0
  kept : List Message := []
  closed : Bool := false
  kept_le_sent : kept.length ≤ sent := by simp
  kept_le_capacity : kept.length ≤ capacity := by simp

/-- The number of messages sent before the next one to hear. -/
abbrev Listener := Nat

inductive Reception (Message : Type)
  | message (message : Message)
  | missed (count : Nat)
  | empty
  | closed
deriving DecidableEq, Repr

namespace Channel

variable {Message : Type}

/-- A channel that keeps at least so many messages, and a power of two of them. -/
def ofCapacity (wanted : Nat) : Channel Message := { capacity := wanted.nextPowerOfTwo }

def subscribe (channel : Channel Message) : Listener := channel.sent

/-- The last messages of a list, at most so many. -/
def lastOf (count : Nat) (messages : List Message) : List Message :=
  messages.drop (messages.length - count)

theorem length_lastOf (count : Nat) (messages : List Message) :
    (lastOf count messages).length = min count messages.length := by
  simp only [lastOf, List.length_drop]
  omega

def send (channel : Channel Message) (message : Message) : Channel Message where
  capacity := channel.capacity
  sent := channel.sent + 1
  kept := lastOf channel.capacity (channel.kept ++ [message])
  closed := channel.closed
  kept_le_sent := by
    have before := channel.kept_le_sent
    simp only [length_lastOf, List.length_append, List.length_cons, List.length_nil]
    omega
  kept_le_capacity := by
    rw [length_lastOf]
    omega

def close (channel : Channel Message) : Channel Message := { channel with closed := true }

/-- The number of messages sent before the oldest one that is kept. -/
def oldest (channel : Channel Message) : Nat := channel.sent - channel.kept.length

/-- What a listener gets next, and the listener after it. -/
def receive (channel : Channel Message) (listener : Listener) :
    Reception Message × Listener :=
  if listener < channel.oldest then (.missed (channel.oldest - listener), channel.oldest)
  else match channel.kept[listener - channel.oldest]? with
    | some message => (.message message, listener + 1)
    | none => (if channel.closed then .closed else .empty, listener)

end Channel

end FieldPost
