import Karr.Api.StreamSlots
import Mathlib.Data.List.Nodup

/-!
# Leases

Ids are given out once, so a release removes the lease of its own stream only.
The caps bound the leases of every key and of every client of a key.
-/

set_option autoImplicit false

namespace Karr.Sse

section Concat
variable {α : Type} {f : α → Nat} {l : List α} {a : α}

theorem nodup_concat (ids : (l.map f).Nodup) (issued : ∀ x ∈ l, f x < f a) :
    ((l ++ [a]).map f).Nodup := by
  rw [List.map_append, List.nodup_append]
  refine ⟨ids, List.nodup_singleton _, ?_⟩
  intro i hi j hj
  obtain ⟨x, hx, rfl⟩ := List.mem_map.mp hi
  obtain rfl : j = f a := List.mem_singleton.mp hj
  exact Nat.ne_of_lt (issued x hx)

theorem issued_concat (issued : ∀ x ∈ l, f x < f a) : ∀ x ∈ l ++ [a], f x < f a + 1 := by
  intro x hx
  rcases List.mem_append.mp hx with hx | hx
  · exact Nat.lt_succ_of_lt (issued x hx)
  · rw [List.mem_singleton.mp hx]
    exact Nat.lt_succ_self _

theorem countP_concat_le {p : α → Bool} {n : Nat} (before : l.countP p ≤ n)
    (below : p a = true → l.countP p < n) : (l ++ [a]).countP p ≤ n := by
  rw [List.countP_append, List.countP_singleton]
  split
  · rename_i counted
    have := below counted
    omega
  · exact before

end Concat

structure LeasesOk (slots : StreamSlots) : Prop where
  ids : (slots.leases.map Prod.fst).Nodup
  issued : ∀ l ∈ slots.leases, l.1 < slots.next
  perKey : ∀ key, slots.openStreams key none ≤ slots.perKey
  perClient : ∀ key client, slots.openStreams key (some client) ≤ slots.perClient

namespace StreamSlots

theorem mem_evictExpired {slots : StreamSlots} {now : Int} {l : Nat × Lease} :
    l ∈ (slots.evictExpired now).leases ↔
      l ∈ slots.leases ∧ now - l.2.started ≤ slots.maxAge := by
  simp [evictExpired]

theorem mem_release {slots : StreamSlots} {id : Nat} {l : Nat × Lease} :
    l ∈ (slots.release id).leases ↔ l ∈ slots.leases ∧ l.1 ≠ id := by
  simp [release]

end StreamSlots

namespace LeasesOk
variable {slots slots' : StreamSlots} {key : AgentId} {client : String} {now : Int}

theorem empty (perKey perClient : Nat) (maxAge : Int) :
    LeasesOk { perKey := perKey, perClient := perClient, maxAge := maxAge } where
  ids := List.nodup_nil
  issued _ hl := absurd hl List.not_mem_nil
  perKey _ := Nat.zero_le _
  perClient _ _ := Nat.zero_le _

theorem sublist (h : LeasesOk slots) {leases : List (Nat × Lease)}
    (fewer : leases.Sublist slots.leases) : LeasesOk { slots with leases := leases } where
  ids := h.ids.sublist (fewer.map _)
  issued l hl := h.issued l (fewer.subset hl)
  perKey key := Nat.le_trans fewer.countP_le (h.perKey key)
  perClient key client := Nat.le_trans fewer.countP_le (h.perClient key client)

theorem evictExpired (h : LeasesOk slots) (now : Int) : LeasesOk (slots.evictExpired now) :=
  h.sublist List.filter_sublist

theorem release (h : LeasesOk slots) (id : Nat) : LeasesOk (slots.release id) :=
  h.sublist List.filter_sublist

theorem add (h : LeasesOk slots) (agent : slots.openStreams key none < slots.perKey)
    (viewer : slots.openStreams key (some client) < slots.perClient) :
    LeasesOk { slots with
      leases := slots.leases ++ [(slots.next, ⟨key, client, now⟩)], next := slots.next + 1 } where
  ids := nodup_concat h.ids h.issued
  issued := issued_concat (f := Prod.fst) h.issued
  perKey k := by
    refine countP_concat_le (h.perKey k) fun counted => ?_
    obtain rfl : key = k := by simpa using counted
    exact agent
  perClient k c := by
    refine countP_concat_le (h.perClient k c) fun counted => ?_
    obtain ⟨rfl, rfl⟩ : key = k ∧ client = c := by simpa using counted
    exact viewer

theorem acquire {r : Except String Nat} (h : LeasesOk slots)
    (hr : slots.acquire key client now = (r, slots')) : LeasesOk slots' := by
  rcases StreamSlots.acquire_cases hr with ⟨_, -, rfl⟩ | ⟨-, agent, viewer, rfl⟩
  · exact h.evictExpired now
  · exact (h.evictExpired now).add agent viewer

end LeasesOk

end Karr.Sse
