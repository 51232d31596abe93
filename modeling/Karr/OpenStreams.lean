import Karr.Invariants.Leases
import Karr.Api.Relay
import Karr.Services.Environments
import Karr.Lib.Interleaving
import Mathlib.Data.List.Perm.Subperm

/-!
# Open log streams

Admission counts leases, the resource is the open relay. A relay looks at its
deadline only when its client asks for the next frame, so a paused one may stay
open after its lease has been evicted.
-/

set_option autoImplicit false

namespace Karr.Sse

open Interleaving

/-- A log request that was admitted, and its relay. -/
structure LogStream where
  lease : Nat
  key : AgentId
  client : String
  admitted : Int
  settings : RelaySettings
  relay : Relay := {}

def LogStream.isOpen (st : LogStream) : Bool := decide (st.relay.consumer ≠ .closed)

/-- The entry of the stream among the leases. -/
def LogStream.entry (st : LogStream) : Nat × Lease := (st.lease, ⟨st.key, st.client, st.admitted⟩)

/-- The slots and all streams admitted so far. `time.monotonic` and the loop have one clock. -/
structure Serving where
  now : Int
  slots : StreamSlots
  streams : List LogStream := []

inductive ServeAction where
  | tick (d : Nat)
  | request (key : AgentId) (client : String) (settings : RelaySettings)
  | relay (k : Nat) (a : RelayAction)
  /-- The response releases once more, after its relay. -/
  | release (k : Nat)

def ServeAction.isRequest : ServeAction → Bool
  | .request _ _ _ => true
  | _ => false

def serveStep (c : Serving) : ServeAction → Option Serving
  | .tick d => some { c with now := c.now + d }
  | .request key client settings =>
    match c.slots.acquire key client c.now with
    | (.error _, slots) => some { c with slots := slots }
    | (.ok lease, slots) => some { c with
        slots := slots
        streams := c.streams ++ [⟨lease, key, client, c.now, settings, {}⟩] }
  | .relay k a => do
    let st ← c.streams[k]?
    let r ← relayStep st.settings c.now st.relay a
    return { c with
      slots := if r.consumer = .closed then c.slots.release st.lease else c.slots
      streams := c.streams.set k { st with relay := r } }
  | .release k => do
    let st ← c.streams[k]?
    if st.isOpen then none else some { c with slots := c.slots.release st.lease }

namespace Serving

/-- Relays of an agent, or of one of its clients, that have not reached their cleanup. -/
def openRelays (c : Serving) (key : AgentId) (client : Option String) : Nat :=
  c.streams.countP fun st =>
    st.isOpen && (decide (st.key = key) && client.all fun x => decide (st.client = x))

/-- No more open relays than the caps allow. -/
def Capped (c : Serving) (key : AgentId) : Prop :=
  c.openRelays key none ≤ c.slots.perKey ∧
    ∀ client, c.openRelays key (some client) ≤ c.slots.perClient

/-- No relay of the agent is open longer than its lease lasts. -/
def Punctual (c : Serving) (key : AgentId) : Prop :=
  ∀ st ∈ c.streams, st.isOpen = true → st.key = key → c.now - st.admitted ≤ c.slots.maxAge

instance (c : Serving) (key : AgentId) : Decidable (c.Punctual key) :=
  inferInstanceAs (Decidable (∀ st ∈ c.streams, st.isOpen = true → st.key = key →
    c.now - st.admitted ≤ c.slots.maxAge))

end Serving

/-- What a log request finds: every open relay of the agent is younger than its lease. -/
def Timely (key : AgentId) (c : Serving) (a : ServeAction) : Prop :=
  a.isRequest = true → c.Punctual key

instance (key : AgentId) (c : Serving) (a : ServeAction) : Decidable (Timely key c a) :=
  inferInstanceAs (Decidable (a.isRequest = true → c.Punctual key))

/-- A request that `log_lines` answers is one of these, whatever its relay will read. -/
theorem serveStep_of_logLines {w : World} {c : Serving} {slots : StreamSlots} {id : Nat}
    {clientId : String} {lease : LogLease} (settings : RelaySettings)
    (h : logLines w c.slots c.now id clientId = (.ok lease, slots)) :
    serveStep c (.request lease.agentId clientId settings) = some { c with
      slots := slots
      streams := c.streams ++ [⟨lease.lease, lease.agentId, clientId, c.now, settings, {}⟩] } := by
  simp only [serveStep, logLines_ok h]

/-! ## The invariant -/

/-- Every open relay of the agent has its lease. -/
structure ServingOk (key : AgentId) (c : Serving) : Prop where
  leases : LeasesOk c.slots
  ids : (c.streams.map LogStream.lease).Nodup
  issued : ∀ st ∈ c.streams, st.lease < c.slots.next
  covered : ∀ st ∈ c.streams, st.isOpen = true → st.key = key → st.entry ∈ c.slots.leases

namespace ServingOk
variable {key : AgentId} {c c' : Serving}

theorem openRelays_le (h : ServingOk key c) (client : Option String) :
    c.openRelays key client ≤ c.slots.openStreams key client := by
  simp only [Serving.openRelays, StreamSlots.openStreams, List.countP_eq_length_filter]
  set mine := c.streams.filter fun st =>
    st.isOpen && (decide (st.key = key) && client.all fun x => decide (st.client = x)) with hmine
  rw [← List.length_map LogStream.entry]
  refine (List.subperm_of_subset ?_ ?_).length_le
  · have ids : (mine.map LogStream.lease).Nodup := h.ids.sublist (List.filter_sublist.map _)
    refine List.Nodup.of_map Prod.fst ?_
    rw [List.map_map]
    exact ids
  · intro l hl
    obtain ⟨st, hst, rfl⟩ := List.mem_map.mp hl
    obtain ⟨hmem, hp⟩ := List.mem_filter.mp hst
    obtain ⟨isOpen, counted⟩ := Bool.and_eq_true_iff.mp hp
    have hkey : st.key = key := of_decide_eq_true (Bool.and_eq_true_iff.mp counted).1
    exact List.mem_filter.mpr ⟨h.covered st hmem isOpen hkey, counted⟩

theorem capped (h : ServingOk key c) : c.Capped key :=
  ⟨Nat.le_trans (h.openRelays_le none) (h.leases.perKey key),
    fun client => Nat.le_trans (h.openRelays_le (some client)) (h.leases.perClient key client)⟩

theorem eq_of_lease (h : ServingOk key c) {st st' : LogStream} (hst : st ∈ c.streams)
    (hst' : st' ∈ c.streams) (same : st.lease = st'.lease) : st = st' :=
  List.inj_on_of_nodup_map h.ids hst hst' same

theorem init (key : AgentId) (perKey perClient : Nat) (maxAge now : Int) :
    ServingOk key ⟨now, { perKey := perKey, perClient := perClient, maxAge := maxAge }, []⟩ where
  leases := LeasesOk.empty perKey perClient maxAge
  ids := List.nodup_nil
  issued _ hst := absurd hst List.not_mem_nil
  covered _ hst := absurd hst List.not_mem_nil

theorem tick (h : ServingOk key c) (d : Nat) : ServingOk key { c with now := c.now + d } :=
  ⟨h.leases, h.ids, h.issued, h.covered⟩

/-- A lease that is evicted for its age belongs to no open relay of the agent. -/
theorem evictExpired (h : ServingOk key c) (punctual : c.Punctual key) :
    ServingOk key { c with slots := c.slots.evictExpired c.now } where
  leases := h.leases.evictExpired c.now
  ids := h.ids
  issued := h.issued
  covered st hst isOpen hkey := StreamSlots.mem_evictExpired.mpr
    ⟨h.covered st hst isOpen hkey, punctual st hst isOpen hkey⟩

theorem addStream (h : ServingOk key c) {agent : AgentId} {client : String} (settings : RelaySettings)
    (free : c.slots.openStreams agent none < c.slots.perKey)
    (viewer : c.slots.openStreams agent (some client) < c.slots.perClient) :
    ServingOk key { c with
      slots := { c.slots with
        leases := c.slots.leases ++ [(c.slots.next, ⟨agent, client, c.now⟩)]
        next := c.slots.next + 1 }
      streams := c.streams ++ [⟨c.slots.next, agent, client, c.now, settings, {}⟩] } where
  leases := h.leases.add free viewer
  ids := nodup_concat h.ids h.issued
  issued := issued_concat (f := LogStream.lease) h.issued
  covered st hst isOpen hkey := by
    rcases List.mem_append.mp hst with hst | hst
    · exact List.mem_append_left _ (h.covered st hst isOpen hkey)
    · rw [List.mem_singleton.mp hst]
      exact List.mem_append_right _ (List.mem_singleton.mpr rfl)

/-- A relay moves and stays open or was closed before, so no lease has to go. -/
theorem setRelay (h : ServingOk key c) {k : Nat} {st : LogStream} (hk : c.streams[k]? = some st)
    {r : Relay} (lease : r.consumer ≠ .closed → st.isOpen = true) :
    ServingOk key { c with streams := c.streams.set k { st with relay := r } } where
  leases := h.leases
  ids := by
    have same : (c.streams.set k { st with relay := r }).map LogStream.lease =
        c.streams.map LogStream.lease := by
      refine List.ext_getElem? fun i => ?_
      rw [List.getElem?_map, List.getElem?_map, List.getElem?_set]
      split
      · rename_i hi
        subst hi
        split
        · rw [hk]
          rfl
        · rename_i beyond
          exact absurd (List.getElem?_eq_some_iff.mp hk).1 beyond
      · rfl
    rw [same]
    exact h.ids
  issued st' hst' := by
    rcases List.mem_or_eq_of_mem_set hst' with hst' | rfl
    · exact h.issued st' hst'
    · exact h.issued st (List.mem_of_getElem? hk)
  covered st' hst' isOpen hkey := by
    rcases List.mem_or_eq_of_mem_set hst' with hst' | rfl
    · exact h.covered st' hst' isOpen hkey
    · exact h.covered st (List.mem_of_getElem? hk) (lease (of_decide_eq_true isOpen)) hkey

/-- A release takes the lease of a closed relay away, and no other. -/
theorem release (h : ServingOk key c) {st : LogStream} (hst : st ∈ c.streams)
    (closed : st.isOpen = false) :
    ServingOk key { c with slots := c.slots.release st.lease } where
  leases := h.leases.release st.lease
  ids := h.ids
  issued := h.issued
  covered st' hst' isOpen hkey := by
    refine StreamSlots.mem_release.mpr ⟨h.covered st' hst' isOpen hkey, fun same => ?_⟩
    obtain rfl := h.eq_of_lease hst' hst same
    exact Bool.false_ne_true (closed.symm.trans isOpen)

end ServingOk

theorem open_of_relayStep {s : RelaySettings} {now : Int} {r r' : Relay} {a : RelayAction}
    (h : relayStep s now r a = some r') (isOpen : r'.consumer ≠ .closed) : r.consumer ≠ .closed := by
  intro closed
  cases a with
  | pull => simp [relayStep, closed] at h
  | disconnect => simp [relayStep, closed] at h
  | read =>
    simp only [relayStep] at h
    split at h
    · obtain ⟨p, -, rfl⟩ := Option.map_eq_some_iff.mp h
      exact isOpen closed
    · cases h
  | put =>
    simp only [relayStep] at h
    split at h
    · split at h
      · cases h
        exact isOpen closed
      · cases h
    · cases h
  | get => simp [relayStep, closed] at h
  | timeout => simp [relayStep, closed] at h

/-- Every step keeps the leases of the open relays, a log request if it comes in time. -/
theorem serveStep_ok {key : AgentId} {c c' : Serving} {a : ServeAction} (h : ServingOk key c)
    (timely : Timely key c a) (hs : serveStep c a = some c') : ServingOk key c' := by
  cases a with
  | tick d =>
    cases hs
    exact h.tick d
  | request agent client settings =>
    have evicted := h.evictExpired (timely rfl)
    simp only [serveStep] at hs
    split at hs
    · rename_i refused
      rcases StreamSlots.acquire_cases refused with ⟨_, -, rfl⟩ | ⟨hok, -⟩
      · cases hs
        exact evicted
      · cases hok
    · rename_i admitted
      rcases StreamSlots.acquire_cases admitted with ⟨_, he, -⟩ | ⟨hok, free, viewer, rfl⟩
      · cases he
      · cases hok
        cases hs
        exact evicted.addStream settings free viewer
  | relay k a =>
    obtain ⟨st, hk, hs⟩ := Option.bind_eq_some_iff.mp hs
    obtain ⟨r, hr, hs⟩ := Option.bind_eq_some_iff.mp hs
    cases hs
    have moved := h.setRelay hk (r := r) fun isOpen => decide_eq_true (open_of_relayStep hr isOpen)
    split
    · rename_i closed
      have hlt : k < c.streams.length := (List.getElem?_eq_some_iff.mp hk).1
      have mine : ({ st with relay := r } : LogStream) ∈ c.streams.set k { st with relay := r } :=
        List.mem_set hlt _
      have released := moved.release mine (decide_eq_false (not_not_intro closed))
      exact released
    · exact moved
  | release k =>
    obtain ⟨st, hk, hs⟩ := Option.bind_eq_some_iff.mp hs
    split at hs
    · cases hs
    · rename_i closed
      cases hs
      exact h.release (List.mem_of_getElem? hk) (Bool.eq_false_iff.mpr closed)

/-- As long as no log request finds a relay of the agent open beyond the age at which its
lease is evicted, the open relays stay within both caps. -/
theorem open_relays_capped (perKey perClient : Nat) (maxAge now : Int) (key : AgentId) {c : Serving}
    (h : Run serveStep (Timely key)
      ⟨now, { perKey := perKey, perClient := perClient, maxAge := maxAge }, []⟩ c) :
    c.Capped key := by
  have ok : ServingOk key c :=
    h.invariant (ServingOk.init key perKey perClient maxAge now) fun hc hok hs =>
      serveStep_ok hc hok hs
  exact ok.capped

/-- The first log request that comes later leaves an open relay of the agent that no lease
counts. -/
theorem uncounted_of_late {key : AgentId} {c c' : Serving} {a : ServeAction}
    (h : ServingOk key c) (late : ¬ Timely key c a) (hs : serveStep c a = some c') :
    ∃ st ∈ c'.streams, st.isOpen = true ∧ st.key = key ∧ st.entry ∉ c'.slots.leases := by
  obtain ⟨isRequest, tardy⟩ := Classical.not_imp.mp late
  simp only [Serving.Punctual, not_forall] at tardy
  obtain ⟨st, hst, isOpen, hkey, old⟩ := tardy
  have evicted : st.entry ∉ (c.slots.evictExpired c.now).leases := fun mem =>
    old (StreamSlots.mem_evictExpired.mp mem).2
  cases a with
  | request agent client settings =>
    simp only [serveStep] at hs
    split at hs
    · rename_i refused
      rcases StreamSlots.acquire_cases refused with ⟨_, -, rfl⟩ | ⟨hok, -⟩
      · cases hs
        exact ⟨st, hst, isOpen, hkey, evicted⟩
      · cases hok
    · rename_i admitted
      rcases StreamSlots.acquire_cases admitted with ⟨_, he, -⟩ | ⟨-, -, -, rfl⟩
      · cases he
      · cases hs
        refine ⟨st, List.mem_append_left _ hst, isOpen, hkey, fun mem => ?_⟩
        rcases List.mem_append.mp mem with mem | mem
        · exact evicted mem
        · have same : st.lease = c.slots.next := congrArg Prod.fst (List.mem_singleton.mp mem)
          exact absurd (h.issued st hst) (by omega)
  | tick d => cases isRequest
  | relay k a => cases isRequest
  | release k => cases isRequest

/-- A container that has logged one line. -/
def quiet : RelaySettings where
  lines n := if n = 0 then some (.line "started") else none

/-- Open stream `k` and take its first frame; then the client pauses. -/
def viewActions (k : Nat) (client : String) : List ServeAction :=
  [.request 1 client quiet, .relay k .pull, .relay k .read, .relay k .put, .relay k .get]

/-- Two clients, the first of which leaves before the lease of its stream ends. -/
def turnActions : List ServeAction :=
  viewActions 0 "10.0.0.1" ++ [.relay 0 .disconnect, .release 0, .tick 14700000001] ++
    viewActions 1 "10.0.0.2"

theorem open_relays_capped_turns : ∃ c : Serving, c.openRelays 1 none = 1 ∧ c.Capped 1 := by
  obtain ⟨c, hr, hp⟩ := exists_run_of_execute serveStep (fun c a => decide (Timely 1 c a))
    ⟨0, { perKey := 1, perClient := 1, maxAge := maxStreamSeconds + leaseGraceSeconds }, []⟩
    turnActions (fun c => decide (c.openRelays 1 none = 1)) (fun _ _ => of_decide_eq_true)
    (by decide)
  exact ⟨c, of_decide_eq_true hp, open_relays_capped 1 1 _ 0 1 hr⟩

def CappedAlways : Prop :=
  ∀ (perKey perClient : Nat) (maxAge now : Int) (key : AgentId) (c : Serving),
    Run serveStep (fun _ _ => True)
      ⟨now, { perKey := perKey, perClient := perClient, maxAge := maxAge }, []⟩ c → c.Capped key

/-- Eight viewers pause until their leases are too old; then a ninth is admitted, the fourth
of its client. -/
def pausedActions : List ServeAction :=
  viewActions 0 "10.0.0.1" ++ viewActions 1 "10.0.0.1" ++ viewActions 2 "10.0.0.1" ++
  viewActions 3 "10.0.0.2" ++ viewActions 4 "10.0.0.2" ++ viewActions 5 "10.0.0.2" ++
  viewActions 6 "10.0.0.3" ++ viewActions 7 "10.0.0.3" ++
  [.tick 14700000001] ++ viewActions 8 "10.0.0.1"

/-- With the caps and ages of the source, nine relays are open and four of one client. -/
theorem not_cappedAlways : ¬ CappedAlways ∧ ∃ c : Serving,
    Run serveStep (fun _ _ => True) ⟨0, {}, []⟩ c ∧
      c.openRelays 1 none = 9 ∧ c.openRelays 1 (some "10.0.0.1") = 4 := by
  obtain ⟨c, hr, hp⟩ := exists_run_of_execute serveStep (fun _ _ => true) ⟨0, {}, []⟩
    pausedActions (fun c => decide (c.openRelays 1 none = 9 ∧
      c.openRelays 1 (some "10.0.0.1") = 4 ∧ c.slots.perKey = 8))
    (fun _ _ _ => trivial) (by decide)
  obtain ⟨agent, client, cap⟩ := of_decide_eq_true hp
  refine ⟨fun always => ?_, c, hr, agent, client⟩
  have := (always 8 3 _ 0 1 c hr).1
  omega

end Karr.Sse
