import Karr.Models

/-!
# StreamSlots

Open log streams, counted by leases. A lease is given back by its release or
disappears by age. The key of an agent is its id.
-/

set_option autoImplicit false

namespace Karr.Sse

/-- `MAX_STREAM_SECONDS`, in microseconds like every other time. -/
def maxStreamSeconds : Int := 4 * 3600 * 1000000
def maxStreamsPerKey : Nat := 8
def maxStreamsPerClient : Nat := 3
def leaseGraceSeconds : Int := 300 * 1000000

structure Lease where
  key : AgentId
  client : String
  started : Int
  deriving DecidableEq, Repr

structure StreamSlots where
  perKey : Nat := maxStreamsPerKey
  perClient : Nat := maxStreamsPerClient
  maxAge : Int := maxStreamSeconds + leaseGraceSeconds
  leases : List (Nat × Lease) := []
  next : Nat := 1
  deriving DecidableEq, Repr

namespace StreamSlots

def evictExpired (slots : StreamSlots) (now : Int) : StreamSlots :=
  { slots with
    leases := slots.leases.filter fun l => !decide (now - l.2.started > slots.maxAge) }

/-- `open`: the leases of a key, or only those of one client. -/
def openStreams (slots : StreamSlots) (key : AgentId) (client : Option String) : Nat :=
  slots.leases.countP fun l =>
    decide (l.2.key = key) && client.all fun c => decide (l.2.client = c)

def tooManyForAgent (limit : Nat) : String :=
  "too many open log streams for this agent (limit " ++ toString limit ++ ")"

def tooManyForClient (limit : Nat) : String :=
  "too many open log streams from this client for the agent (limit " ++ toString limit ++ ")"

/-- The id of the lease, or the message of `TooManyStreams`. -/
def acquire (slots : StreamSlots) (key : AgentId) (client : String) (now : Int) :
    Except String Nat × StreamSlots :=
  let slots := slots.evictExpired now
  if slots.perKey ≤ slots.openStreams key none then
    (.error (tooManyForAgent slots.perKey), slots)
  else if slots.perClient ≤ slots.openStreams key (some client) then
    (.error (tooManyForClient slots.perClient), slots)
  else (.ok slots.next,
    { slots with
      leases := slots.leases ++ [(slots.next, ⟨key, client, now⟩)]
      next := slots.next + 1 })

def release (slots : StreamSlots) (id : Nat) : StreamSlots :=
  { slots with leases := slots.leases.filter fun l => decide (l.1 ≠ id) }

/-- What `acquire` can do: refuse, or add one lease below both caps. -/
theorem acquire_cases {slots slots' : StreamSlots} {key : AgentId} {client : String} {now : Int}
    {r : Except String Nat} (h : slots.acquire key client now = (r, slots')) :
    (∃ message, r = .error message ∧ slots' = slots.evictExpired now) ∨
      (r = .ok slots.next ∧
        (slots.evictExpired now).openStreams key none < slots.perKey ∧
        (slots.evictExpired now).openStreams key (some client) < slots.perClient ∧
        slots' = { slots.evictExpired now with
          leases := (slots.evictExpired now).leases ++ [(slots.next, ⟨key, client, now⟩)]
          next := slots.next + 1 }) := by
  simp only [acquire] at h
  split at h
  · cases h
    exact Or.inl ⟨_, rfl, rfl⟩
  · rename_i agent
    split at h
    · cases h
      exact Or.inl ⟨_, rfl, rfl⟩
    · rename_i client
      cases h
      exact Or.inr ⟨rfl, Nat.not_le.mp agent, Nat.not_le.mp client, rfl⟩

end StreamSlots

end Karr.Sse
