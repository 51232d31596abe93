import Karr.Invariants.Leases
import Karr.Lib.Interleaving

/-!
# Stream caps

Every run of acquires, releases and clock readings of one `StreamSlots`. A
release callback is kept as the lease it was returned for; it may be called at
any time and again.
-/

set_option autoImplicit false

namespace Karr.Sse

open Interleaving

namespace StreamSlots
variable {slots slots' : StreamSlots} {now : Int} {key : AgentId} {client : String}

/-- The leases not older than `maxAge`. -/
def youngLeases (slots : StreamSlots) (maxAge now : Int) : List (Nat × Lease) :=
  slots.leases.filter fun l => decide (now - l.2.started ≤ maxAge)

/-- Those of a key, or only those of one client. -/
def youngStreams (slots : StreamSlots) (maxAge now : Int) (key : AgentId)
    (client : Option String) : Nat :=
  (slots.youngLeases maxAge now).countP fun l =>
    decide (l.2.key = key) && client.all fun c => decide (l.2.client = c)

theorem evictExpired_leases (slots : StreamSlots) (now : Int) :
    (slots.evictExpired now).leases = slots.youngLeases slots.maxAge now := by
  refine List.filter_congr fun l _ => ?_
  simp only [← decide_not, gt_iff_lt, Int.not_lt]

theorem openStreams_evictExpired (slots : StreamSlots) (now : Int) (key : AgentId)
    (client : Option String) :
    (slots.evictExpired now).openStreams key client =
      slots.youngStreams slots.maxAge now key client := by
  rw [openStreams, evictExpired_leases]
  rfl

theorem acquire_ok_iff : (∃ lease, (slots.acquire key client now).1 = .ok lease) ↔
    slots.youngStreams slots.maxAge now key none < slots.perKey ∧
      slots.youngStreams slots.maxAge now key (some client) < slots.perClient := by
  simp only [← openStreams_evictExpired]
  constructor
  · rintro ⟨lease, hok⟩
    rcases hr : slots.acquire key client now with ⟨r, slots'⟩
    rcases acquire_cases hr with ⟨message, rfl, -⟩ | ⟨-, agent, viewer, -⟩
    · rw [hr] at hok
      cases hok
    · exact ⟨agent, viewer⟩
  · intro room
    have agent : ¬ slots.perKey ≤ (slots.evictExpired now).openStreams key none :=
      Nat.not_le.mpr room.1
    have viewer : ¬ slots.perClient ≤ (slots.evictExpired now).openStreams key (some client) :=
      Nat.not_le.mpr room.2
    exact ⟨slots.next, congrArg Prod.fst ((if_neg agent).trans (if_neg viewer))⟩

theorem acquire_refused {message : String}
    (h : (slots.acquire key client now).1 = .error message) :
    (slots.acquire key client now).2.leases = slots.youngLeases slots.maxAge now := by
  rcases hr : slots.acquire key client now with ⟨r, slots'⟩
  rw [hr] at h
  rcases acquire_cases hr with ⟨_, -, rfl⟩ | ⟨rfl, -⟩
  · exact slots.evictExpired_leases now
  · cases h

end StreamSlots

/-- One `StreamSlots` with the callbacks it has returned, in order. -/
structure Booking where
  now : Int
  slots : StreamSlots
  issued : List (Nat × Lease) := []

inductive BookAction where
  | tick (d : Nat)
  | acquire (key : AgentId) (client : String)
  /-- Call the k-th callback. -/
  | release (k : Nat)

def bookStep (c : Booking) : BookAction → Option Booking
  | .tick d => some { c with now := c.now + d }
  | .acquire key client =>
    match c.slots.acquire key client c.now with
    | (.error _, slots) => some { c with slots := slots }
    | (.ok lease, slots) => some { c with
        slots := slots
        issued := c.issued ++ [(lease, ⟨key, client, c.now⟩)] }
  | .release k => do
    let l ← c.issued[k]?
    return { c with slots := c.slots.release l.1 }

/-- The caps stay as they were given; every lease has the callback it was returned with. -/
structure BookingOk (perKey perClient : Nat) (maxAge : Int) (c : Booking) : Prop where
  perKey : c.slots.perKey = perKey
  perClient : c.slots.perClient = perClient
  maxAge : c.slots.maxAge = maxAge
  leases : LeasesOk c.slots
  ids : (c.issued.map Prod.fst).Nodup
  below : ∀ l ∈ c.issued, l.1 < c.slots.next
  issued : ∀ l ∈ c.slots.leases, l ∈ c.issued

namespace BookingOk
variable {perKey perClient : Nat} {maxAge : Int} {c c' : Booking}

theorem init (perKey perClient : Nat) (maxAge now : Int) : BookingOk perKey perClient maxAge
    ⟨now, { perKey := perKey, perClient := perClient, maxAge := maxAge }, []⟩ where
  perKey := rfl
  perClient := rfl
  maxAge := rfl
  leases := LeasesOk.empty perKey perClient maxAge
  ids := List.nodup_nil
  below _ hl := absurd hl List.not_mem_nil
  issued _ hl := absurd hl List.not_mem_nil

theorem sublist (h : BookingOk perKey perClient maxAge c) {leases : List (Nat × Lease)}
    (fewer : leases.Sublist c.slots.leases) :
    BookingOk perKey perClient maxAge { c with slots := { c.slots with leases := leases } } where
  perKey := h.perKey
  perClient := h.perClient
  maxAge := h.maxAge
  leases := h.leases.sublist fewer
  ids := h.ids
  below := h.below
  issued l hl := h.issued l (fewer.subset hl)

theorem acquire {key : AgentId} {client : String} {r : Except String Nat} {slots : StreamSlots}
    (h : BookingOk perKey perClient maxAge c)
    (hr : c.slots.acquire key client c.now = (r, slots)) :
    (∀ message, r = .error message → BookingOk perKey perClient maxAge { c with slots := slots }) ∧
      ∀ lease, r = .ok lease → BookingOk perKey perClient maxAge { c with
        slots := slots
        issued := c.issued ++ [(lease, ⟨key, client, c.now⟩)] } := by
  have leases := h.leases.acquire hr
  rcases StreamSlots.acquire_cases hr with ⟨_, rfl, rfl⟩ | ⟨rfl, -, -, rfl⟩
  · refine ⟨fun _ _ => h.sublist List.filter_sublist, fun lease hok => by cases hok⟩
  · refine ⟨fun message he => (by cases he), fun lease hok => ?_⟩
    cases hok
    exact {
      perKey := h.perKey
      perClient := h.perClient
      maxAge := h.maxAge
      leases := leases
      ids := nodup_concat h.ids h.below
      below := issued_concat (f := Prod.fst) h.below
      issued := fun l hl => by
        rcases List.mem_append.mp hl with hl | hl
        · exact List.mem_append_left _ (h.issued l (List.mem_filter.mp hl).1)
        · exact List.mem_append_right _ hl }

theorem step {a : BookAction} (h : BookingOk perKey perClient maxAge c)
    (hs : bookStep c a = some c') : BookingOk perKey perClient maxAge c' := by
  cases a with
  | tick d =>
    cases hs
    exact { h with }
  | acquire key client =>
    simp only [bookStep] at hs
    split at hs
    · rename_i refused
      cases hs
      exact (h.acquire refused).1 _ rfl
    · rename_i admitted
      cases hs
      exact (h.acquire admitted).2 _ rfl
  | release k =>
    obtain ⟨l, -, hs⟩ := Option.bind_eq_some_iff.mp hs
    cases hs
    exact h.sublist List.filter_sublist

/-- The id of a callback is the id of its own lease and of no other. -/
theorem release_own (h : BookingOk perKey perClient maxAge c) {k : Nat} {l : Nat × Lease}
    (hk : c.issued[k]? = some l) :
    (c.slots.release l.1).leases = c.slots.leases.filter fun m => decide (m ≠ l) := by
  refine List.filter_congr fun m hm => ?_
  have same : m.1 = l.1 ↔ m = l :=
    ⟨fun e => List.inj_on_of_nodup_map h.ids (h.issued m hm) (List.mem_of_getElem? hk) e,
      congrArg Prod.fst⟩
  simp only [ne_eq, same]

theorem callbacks_ne (h : BookingOk perKey perClient maxAge c) {j k : Nat} {l m : Nat × Lease}
    (hj : c.issued[j]? = some m) (hk : c.issued[k]? = some l) (ne : j ≠ k) : m ≠ l := by
  rintro rfl
  have hlt : j < c.issued.length := (List.getElem?_eq_some_iff.mp hj).1
  exact ne ((List.getElem?_inj hlt (List.Nodup.of_map _ h.ids)).mp (hj.trans hk.symm))

end BookingOk

/-- The leases, the callbacks and the answers of `acquire` at every moment of every run. -/
theorem streamSlots_laws (perKey perClient : Nat) (maxAge start : Int) {c : Booking}
    (h : Run bookStep (fun _ _ => True)
      ⟨start, { perKey := perKey, perClient := perClient, maxAge := maxAge }, []⟩ c) :
    (∀ key, c.slots.openStreams key none ≤ perKey) ∧
    (∀ key client, c.slots.openStreams key (some client) ≤ perClient) ∧
    (∀ (k : Nat) (l : Nat × Lease), c.issued[k]? = some l →
      (c.slots.release l.1).leases = c.slots.leases.filter (fun m => decide (m ≠ l)) ∧
      ∀ (j : Nat) (m : Nat × Lease), j ≠ k → c.issued[j]? = some m →
        (m ∈ (c.slots.release l.1).leases ↔ m ∈ c.slots.leases)) ∧
    ∀ key client,
      ((∃ lease, (c.slots.acquire key client c.now).1 = .ok lease) ↔
        c.slots.youngStreams maxAge c.now key none < perKey ∧
          c.slots.youngStreams maxAge c.now key (some client) < perClient) ∧
      ∀ message, (c.slots.acquire key client c.now).1 = .error message →
        (c.slots.acquire key client c.now).2.leases = c.slots.youngLeases maxAge c.now := by
  have ok : BookingOk perKey perClient maxAge c :=
    h.invariant (BookingOk.init perKey perClient maxAge start) fun hc _ hs => hc.step hs
  obtain rfl := ok.perKey
  obtain rfl := ok.perClient
  obtain rfl := ok.maxAge
  refine ⟨ok.leases.perKey, ok.leases.perClient, fun k l hk => ?_, fun key client => ?_⟩
  · refine ⟨ok.release_own hk, fun j m ne hj => ?_⟩
    rw [ok.release_own hk, List.mem_filter]
    exact and_iff_left (decide_eq_true (ok.callbacks_ne hj hk ne))
  · exact ⟨StreamSlots.acquire_ok_iff, fun _ => StreamSlots.acquire_refused⟩

/-- The only slot is handed on when its lease is too old; then the first callback comes, twice. -/
def lateReleases : List BookAction :=
  [.acquire 1 "10.0.0.1", .tick 14700000001, .acquire 1 "10.0.0.2", .release 0, .release 0]

/-- The second lease stays, and the agent is full. -/
theorem streamSlots_laws_late : ∃ c : Booking,
    c.slots.leases = [(2, ⟨1, "10.0.0.2", 14700000001⟩)] ∧
    c.slots.openStreams 1 none ≤ 1 ∧
    ¬ ∃ lease, (c.slots.acquire 1 "10.0.0.3" c.now).1 = .ok lease := by
  obtain ⟨c, hr, hp⟩ := exists_run_of_execute bookStep (fun _ _ => true)
    ⟨0, { perKey := 1, perClient := 1, maxAge := maxStreamSeconds + leaseGraceSeconds }, []⟩
    lateReleases (fun c => decide (c.slots.leases = [(2, ⟨1, "10.0.0.2", 14700000001⟩)] ∧
      c.slots.youngStreams (maxStreamSeconds + leaseGraceSeconds) c.now 1 none = 1))
    (fun _ _ _ => trivial) (by decide)
  obtain ⟨leases, young⟩ := of_decide_eq_true hp
  obtain ⟨perKey, -, -, admission⟩ := streamSlots_laws 1 1 _ 0 hr
  refine ⟨c, leases, perKey 1, fun granted => ?_⟩
  have room := ((admission 1 "10.0.0.3").1.mp granted).1
  omega

end Karr.Sse
