import Karr.Invariants.Rows

/-!
# How the delete of an agent ends

The foreign key is checked by the `DELETE` of the agent, before the `try` that
expects the violation at the commit; and a forced delete drops whatever rows it
finds by then. Where each `DELETE` finds only rows that were there when the
delete read them, it ends as it should.
-/

set_option autoImplicit false

namespace Karr

open Interleaving

/-- No environment is removed, no process stops and no call into the registry raises. -/
def uninterrupted : Action → Bool
  | .spawn (.remove _) => false
  | .proc _ .crash => false
  | .proc _ .raise => false
  | _ => true

/-- The rows of the agent that a `DELETE` statement finds and that were not there when the
delete read them, by name, which is unique on an agent. -/
def gainedRows (c : Config) : Action → List Environment
  | .proc k (.run _) =>
    match c.procs[k]? with
    | some (.delete (.deleting agentId envs)) =>
      if envs = [] then []
      else (envRows c.store agentId).filter fun r => decide (r.name ∉ envs.map Prod.fst)
    | some (.delete (.rowsDeleted agentId _ ids)) =>
      (envRows c.store agentId).filter fun r => decide (r.id ∉ ids)
    | _ => []
  | _ => []

/-- A run with an eye on one delete: has it changed a table, has its agent gained rows. -/
structure Watch where
  config : Config
  changed : Bool
  gained : Bool

def watch (k : Nat) (s : Watch) (a : Action) : Option Watch :=
  (karr.exec s.config a).map fun c =>
    { config := c
      changed := s.changed || decide (actor a = some k ∧
        (c.store.envs ≠ s.config.store.envs ∨ c.store.agents ≠ s.config.store.agents))
      gained := s.gained || decide (actor a = some k ∧ gainedRows s.config a ≠ []) }

def gainedMessage : String := "agent gained environments while being deleted; retry"

def AgentGone (w : World) (agentId : AgentId) : Prop :=
  agentId ∉ w.agents ∧ ∀ r ∈ w.envs, r.agentId ≠ agentId

/-- How a delete of this agent may end. -/
structure Outcome (agentId : AgentId) (s : Watch) (r : Result) : Prop where
  ended : (r = .ok ∧ AgentGone s.config.store agentId) ∨
    ((∃ message, r = .apiError 404 message ∨ r = .apiError 409 message) ∧ s.changed = false)
  gained : s.gained = true → r = .apiError 409 gainedMessage

def Uninterrupted (_ : Config) (a : Action) : Prop := uninterrupted a = true

/-- Each `DELETE` finds only rows that the delete has read. -/
def NoneGained (c : Config) (a : Action) : Prop := uninterrupted a = true ∧ gainedRows c a = []

instance (c : Config) (a : Action) : Decidable (NoneGained c a) :=
  inferInstanceAs (Decidable (_ ∧ _))

/-! ## What a step takes -/

theorem createStep_insert {w : World} {p p' : Create} {i : Input} {row : Environment}
    (h : createStep w p i = some (.insert row, p')) :
    row.agentId ∈ w.agents ∧ row.agentId ∉ w.agentLocks := by
  obtain ⟨e, he⟩ : ∃ e, e = Effect.insert row := ⟨_, rfl⟩
  rw [← he] at h
  revert h
  fun_cases createStep w p i <;> intro h <;> cases h
  case case11 unlocked ready =>
    rw [← Effect.insert.inj he]
    exact ⟨not_not.mp (not_or.mp ready).1, unlocked⟩
  all_goals cases he

theorem step_insert {w : World} {p p' : Call} {i : Input} {row : Environment}
    (h : karr.step w p i = some (.insert row, p')) :
    row.agentId ∈ w.agents ∧ row.agentId ∉ w.agentLocks := by
  have hrule := call_rule h
  obtain ⟨q, rfl⟩ : ∃ q, p = .create q := by
    rcases hrule with hr | hr | hr | hr | hr
    · exact ⟨_, rfl⟩
    all_goals cases hr
  obtain ⟨q', hs, -⟩ := step_of_sum h
  exact createStep_insert hs

/-- A delete that goes on has its agent; from `committed` on it has written. -/
def Delete.agent : Delete → Option AgentId
  | .start agentId _ => some agentId
  | .found agentId _ => some agentId
  | .read agentId _ => some agentId
  | .removing agentId _ _ _ => some agentId
  | .deleting agentId _ => some agentId
  | .rowsDeleted agentId _ _ => some agentId
  | .agentDeleted agentId _ _ => some agentId
  | .committed agentId => some agentId
  | .done _ => none

/-- The steps of a delete that nothing interrupts and whose agent has gained no row. -/
inductive Advance (agentId : AgentId) (w : World) : Delete → Effect → Delete → Prop
  | go {p p' : Delete} {e : Effect} (agent : p'.agent = some agentId)
      (before : ∀ b, p ≠ .committed b) (envs : (w.apply e).envs = w.envs)
      (agents : (w.apply e).agents = w.agents) : Advance agentId w p e p'
  | refuse {p : Delete} {e : Effect} {code : Nat} {message : String}
      (listed : code = 404 ∨ code = 409) (before : ∀ b, p ≠ .committed b)
      (envs : (w.apply e).envs = w.envs) (agents : (w.apply e).agents = w.agents) :
      Advance agentId w p e (.done (.apiError code message))
  | commit {envs : List (String × ContainerId)} {ids : List Nat} :
      Advance agentId w (.agentDeleted agentId envs ids) (.dropAgent ids agentId)
        (.committed agentId)
  | finish : Advance agentId w (.committed agentId) (.unregister agentId) (.done .ok)

/-- The loop over the containers goes on, or ends with a refusal. -/
theorem Advance.next {agentId : AgentId} {w : World} {envs todo : List (String × ContainerId)}
    {failed : List String} {p : Delete} {e : Effect} (before : ∀ b, p ≠ .committed b)
    (same : (w.apply e).envs = w.envs) (agents : (w.apply e).agents = w.agents) :
    Advance agentId w p e (Delete.next agentId envs todo failed) := by
  refine Delete.next_elim (fun _ => ?_) (fun _ _ => ?_) fun _ _ => ?_
  · exact .go rfl before same agents
  · exact .refuse (Or.inr rfl) before same agents
  · exact .go rfl before same agents

theorem deleteStep_advance {w : World} {p p' : Delete} {i : Input} {e : Effect}
    {agentId : AgentId} (h : deleteStep w p i = some (e, p')) (agent : p.agent = some agentId)
    (going : i ≠ .crash) (answers : i ≠ .raise)
    (only : ∀ envs ids, p = .rowsDeleted agentId envs ids →
      ∀ r ∈ w.envs, r.agentId = agentId → r.id ∈ ids) :
    Advance agentId w p e p' := by
  revert h
  revert agent
  fun_cases deleteStep w p i <;> intro agent h <;> cases h
  case case1 => exact .go agent (fun _ => Delete.noConfusion) rfl rfl
  case case2 => exact .refuse (Or.inl rfl) (fun _ => Delete.noConfusion) rfl rfl
  case case3 => exact .refuse (Or.inr rfl) (fun _ => Delete.noConfusion) rfl rfl
  case case4 => exact .go agent (fun _ => Delete.noConfusion) rfl rfl
  case case5 => exact .go agent (fun _ => Delete.noConfusion) rfl rfl
  case case6 => exact .go agent (fun _ => Delete.noConfusion) rfl rfl
  case case7 => exact .refuse (Or.inr rfl) (fun _ => Delete.noConfusion) rfl rfl
  case case8 =>
    cases agent
    exact .next (fun _ => Delete.noConfusion) rfl rfl
  case case9 =>
    cases agent
    exact .next (fun _ => Delete.noConfusion) rfl rfl
  case case10 =>
    cases agent
    exact .next (fun _ => Delete.noConfusion) rfl rfl
  case case11 =>
    cases agent
    exact .next (fun _ => Delete.noConfusion) rfl rfl
  case case12 => exact .go agent (fun _ => Delete.noConfusion) rfl rfl
  case case14 => exact .go agent (fun _ => Delete.noConfusion) rfl rfl
  case case16 gained =>
    cases agent
    obtain ⟨r, hr, -⟩ := List.any_eq_true.mp gained
    obtain ⟨hm, hnew⟩ := List.mem_filter.mp hr
    obtain ⟨hrow, ha⟩ := List.mem_filter.mp hm
    exact absurd (only _ _ rfl r hrow (of_decide_eq_true ha)) (of_decide_eq_true hnew)
  case case18 => exact .go agent (fun _ => Delete.noConfusion) rfl rfl
  case case19 =>
    cases agent
    exact .commit
  case case20 =>
    cases agent
    exact .finish
  case case21 => exact absurd rfl answers
  all_goals exact absurd rfl going

theorem deleteStep_rollback {w : World} {p p' : Delete} {i : Input} {ids : List Nat}
    {agentIds : List AgentId} (h : deleteStep w p i = some (.rollback ids agentIds, p'))
    (going : i ≠ .crash) : agentIds = [] := by
  revert h
  fun_cases deleteStep w p i <;> intro h <;> cases h
  case case16 => rfl
  all_goals exact absurd rfl going

theorem deleteStep_lockAgent {w : World} {p p' : Delete} {i : Input} {agentId : AgentId}
    (h : deleteStep w p i = some (.lockAgent agentId, p')) : agentId ∉ w.agentLocks := by
  revert h
  fun_cases deleteStep w p i <;> intro h <;> cases h
  case case18 free _ _ => exact free

/-! ## While the agent is locked and after it is gone -/

/-- Between the two statements and the commit: no row of the agent escapes the commit. -/
def AgentHeld (w : World) (agentId : AgentId) (ids : List Nat) : Prop :=
  agentId ∈ w.agentLocks ∧ ∀ r ∈ w.envs, r.agentId = agentId → r.id ∈ ids

def DeleteHolds (w : World) : Call → Prop
  | .delete (.agentDeleted agentId _ ids) => AgentHeld w agentId ids
  | .delete (.committed agentId) => AgentGone w agentId
  | _ => True

/-- The agent whose row a delete has locked. -/
def Call.lockedAgent : Call → Option AgentId
  | .delete (.agentDeleted agentId _ _) => some agentId
  | _ => none

def LocksDiffer (p q : Call) : Prop := ∀ a ∈ p.lockedAgent, ∀ b ∈ q.lockedAgent, a ≠ b

theorem mem_agents_apply {w : World} {e : Effect} {a : AgentId} (h : a ∈ (w.apply e).agents) :
    a ∈ w.agents := by
  cases e with
  | dropAgent ids b => exact (List.mem_filter.mp h).1
  | _ => exact h

theorem agentGone_apply {w : World} {e : Effect} {a : AgentId} (h : AgentGone w a)
    (known : ∀ row, e = .insert row → row.agentId ∈ w.agents) : AgentGone (w.apply e) a := by
  refine ⟨fun ha => h.1 (mem_agents_apply ha), fun r' hr' => ?_⟩
  rcases World.mem_envs_apply.mp hr' with rfl | ⟨r, hr, _, rfl⟩
  · rintro rfl
    exact h.1 (known r' rfl)
  · rw [(updateRow_sameKey e r).agentId]
    exact h.2 r hr

theorem agentHeld_apply {w : World} {e : Effect} {a : AgentId} {ids : List Nat}
    (h : AgentHeld w a ids) (unlocked : ∀ row, e = .insert row → row.agentId ∉ w.agentLocks)
    (rollback : ∀ ids as, e = .rollback ids as → a ∉ as)
    (drop : ∀ ids b, e = .dropAgent ids b → b ≠ a) : AgentHeld (w.apply e) a ids := by
  constructor
  · cases e with
    | rollback ids as =>
      exact List.mem_filter.mpr ⟨h.1, decide_eq_true (rollback ids as rfl)⟩
    | dropAgent ids b =>
      exact List.mem_filter.mpr ⟨h.1, decide_eq_true (drop ids b rfl).symm⟩
    | lockAgent b => exact List.mem_append_left _ h.1
    | _ => exact h.1
  · intro r' hr' ha
    rcases World.mem_envs_apply.mp hr' with rfl | ⟨r, hr, _, rfl⟩
    · exact absurd (ha ▸ h.1) (unlocked r' rfl)
    · rw [updateRow_id]
      exact h.2 r hr ((updateRow_sameKey e r).agentId ▸ ha)

theorem deleteHolds_apply {w : World} {e : Effect} {p : Call} (h : DeleteHolds w p)
    (known : ∀ row, e = .insert row → row.agentId ∈ w.agents ∧ row.agentId ∉ w.agentLocks)
    (rollback : ∀ ids as, e = .rollback ids as → as = [])
    (drop : ∀ ids b, e = .dropAgent ids b → ∀ a ∈ p.lockedAgent, b ≠ a) :
    DeleteHolds (w.apply e) p := by
  unfold DeleteHolds at h ⊢
  split at h
  · refine agentHeld_apply h (fun row he => (known row he).2) (fun ids as he => ?_)
      fun ids b he => drop ids b he _ rfl
    simp [rollback ids as he]
  · exact agentGone_apply h fun row he => (known row he).1
  · trivial

theorem deleteHolds_next (w : World) (agentId : AgentId) (envs todo : List (String × ContainerId))
    (failed : List String) : DeleteHolds w (.delete (Delete.next agentId envs todo failed)) :=
  Delete.next_elim (motive := fun d => DeleteHolds w (.delete d)) (fun _ => trivial)
    (fun _ _ => trivial) fun _ _ => trivial

theorem CallRule.deleteHolds {w : World} {p p' : Call} {i : Input} {e : Effect}
    (h : CallRule w p i e p') (holds : DeleteHolds w p) : DeleteHolds (w.apply e) p' := by
  cases h with
  | delete h =>
    cases h with
    | removed => exact deleteHolds_next _ _ _ _ _
    | lost => exact deleteHolds_next _ _ _ _ _
    | fail => exact deleteHolds_next _ _ _ _ _
    | deleteAgent only => exact ⟨List.mem_append_right _ (List.mem_singleton_self _), only⟩
    | @commit agentId _ ids _ =>
      refine ⟨by simp [World.apply, World.drop], fun r hr ha => ?_⟩
      obtain ⟨hm, hkeep⟩ := List.mem_filter.mp hr
      simp [Effect.drops, holds.2 r hm ha] at hkeep
    | _ => trivial
  | _ => trivial

theorem CallRule.lockedAgent {w : World} {p p' : Call} {i : Input} {e : Effect}
    (h : CallRule w p i e p') {a : AgentId} (ha : a ∈ p'.lockedAgent) : e = .lockAgent a := by
  have next (agentId : AgentId) (envs todo : List (String × ContainerId))
      (failed : List String) :
      (Call.delete (Delete.next agentId envs todo failed)).lockedAgent = none :=
    Delete.next_elim (motive := fun d => (Call.delete d).lockedAgent = none) (fun _ => rfl)
      (fun _ _ => rfl) fun _ _ => rfl
  cases h with
  | delete h =>
    cases h with
    | removed => rw [next] at ha; cases ha
    | lost => rw [next] at ha; cases ha
    | fail => rw [next] at ha; cases ha
    | deleteAgent only =>
      cases ha
      rfl
    | _ => cases ha
  | _ => cases ha

/-- The statements of the transaction that deletes an agent. -/
def Effect.ofDelete : Effect → Bool
  | .lockAgent _ => true
  | .rollback _ _ => true
  | .dropAgent _ _ => true
  | _ => false

theorem delete_of_effect {w : World} {p p' : Call} {i : Input} {e : Effect}
    (h : karr.step w p i = some (e, p')) (he : e.ofDelete = true) :
    ∃ d d', p = .delete d ∧ deleteStep w d i = some (e, d') := by
  obtain ⟨d, rfl⟩ : ∃ d, p = .delete d := by
    rcases call_rule h with hr | hr | hr | hr | hr
    · cases hr <;> cases he
    · cases hr <;> cases he
    · cases hr <;> cases he
    · cases hr <;> cases he
    · exact ⟨_, rfl⟩
  obtain ⟨d', hs, -⟩ := step_of_sum h
  exact ⟨d, d', rfl, hs⟩

theorem held_of_lockedAgent {w : World} {p : Call} (h : DeleteHolds w p) {a : AgentId}
    (ha : a ∈ p.lockedAgent) : a ∈ w.agentLocks := by
  unfold Call.lockedAgent at ha
  split at ha
  · cases ha
    exact h.1
  · cases ha

theorem fresh_lockedAgent {p : Call} (h : karr.fresh p = true) : p.lockedAgent = none := by
  rcases p with p | p | p | p | p <;> cases p <;> first
    | rfl
    | simp [karr, Call.fresh] at h

theorem fresh_deleteHolds {p : Call} (h : karr.fresh p = true) (w : World) :
    DeleteHolds w p := by
  rcases p with p | p | p | p | p <;> cases p <;> trivial

theorem deletes_inductive :
    Inductive karr Uninterrupted (fun _ => True) DeleteHolds LocksDiffer where
  spawn := fun _ _ hp => fresh_deleteHolds hp _
  spawn_pair := by
    intro c p q _ _ hp _
    refine ⟨fun a ha => ?_, fun a _ b hb => ?_⟩
    · rw [fresh_lockedAgent hp] at ha
      cases ha
    · rw [fresh_lockedAgent hp] at hb
      cases hb
  outside := by
    intro c e hc _ he
    refine ⟨trivial, fun p hp => deleteHolds_apply (hc.proc p hp) ?_ ?_ ?_⟩
    · rintro row rfl
      simp [karr, Effect.outside] at he
    · rintro ids as rfl
      simp [karr, Effect.outside] at he
    · rintro ids b rfl
      simp [karr, Effect.outside] at he
  own := by
    intro c k i p e p' hc _ hp hs
    exact ⟨trivial, (call_rule hs).deleteHolds (hc.proc p (List.mem_of_getElem? hp))⟩
  other := by
    intro c k i p e p' j q hc hok hp hs hjk hq
    have going : i ≠ .crash := by
      rintro rfl
      cases hok
    -- a delete that locks its agent finds it unlocked, so no other delete has it
    have differ : ∀ a ∈ p'.lockedAgent, ∀ b ∈ q.lockedAgent, a ≠ b := by
      rintro a ha b hb rfl
      obtain rfl := (call_rule hs).lockedAgent ha
      obtain ⟨d, d', rfl, hd⟩ := delete_of_effect hs rfl
      exact deleteStep_lockAgent hd
        (held_of_lockedAgent (hc.proc q (List.mem_of_getElem? hq)) hb)
    refine ⟨deleteHolds_apply (hc.proc q (List.mem_of_getElem? hq)) ?_ ?_ ?_, differ,
      fun a ha b hb => (differ b hb a ha).symm⟩
    · rintro row rfl
      exact step_insert hs
    · rintro ids as rfl
      obtain ⟨d, d', rfl, hd⟩ := delete_of_effect hs rfl
      exact deleteStep_rollback hd going
    · rintro ids b rfl a ha
      obtain ⟨d, d', rfl, hd⟩ := delete_of_effect hs rfl
      have hrule := deleteStep_rule hd
      cases hrule
      exact hc.pair hjk.symm hp hq b rfl a ha

theorem deletes_of_run {w : World} {c : Config} (h : karr.Runs Uninterrupted ⟨w, []⟩ c) :
    Holds (fun _ => True) DeleteHolds LocksDiffer c :=
  deletes_inductive.holds_of_run ⟨trivial, by simp, by simp⟩ h

/-! ## The watched delete -/

/-- What is known of the delete as long as it has found only rows it had read. -/
structure Watched (k : Nat) (agentId : AgentId) (s : Watch) : Prop where
  holds : Holds (fun _ => True) DeleteHolds LocksDiffer s.config
  gained : s.gained = false
  here : ∃ d, s.config.procs[k]? = some (.delete d) ∧
    ((d.agent = some agentId ∧ (s.changed = true → d = .committed agentId)) ∨
      ∃ r, d = .done r ∧ Outcome agentId s r)

theorem Outcome.keep {agentId : AgentId} {s s' : Watch} {r : Result} (h : Outcome agentId s r)
    (gone : AgentGone s.config.store agentId → AgentGone s'.config.store agentId)
    (changed : s'.changed = s.changed) (gained : s'.gained = s.gained) :
    Outcome agentId s' r :=
  ⟨h.ended.imp (And.imp_right gone) (And.imp_right fun h => changed.trans h),
    fun hg => h.gained (gained.symm.trans hg)⟩

/-- Where no row is gained, the `DELETE` of the agent finds none left. -/
theorem only_of_noneGained {c : Config} {k : Nat} {i : Input} {agentId : AgentId}
    {envs : List (String × ContainerId)} {ids : List Nat} {e : Effect} {d' : Delete}
    (hok : NoneGained c (.proc k i))
    (hd : c.procs[k]? = some (.delete (.rowsDeleted agentId envs ids)))
    (hs : deleteStep c.store (.rowsDeleted agentId envs ids) i = some (e, d')) :
    ∀ r ∈ c.store.envs, r.agentId = agentId → r.id ∈ ids := by
  obtain ⟨hu, hgained⟩ := hok
  cases i with
  | run clock =>
    simp only [gainedRows, hd] at hgained
    intro r hr ha
    have := List.filter_eq_nil_iff.mp hgained r (List.mem_filter.mpr ⟨hr, decide_eq_true ha⟩)
    simpa using this
  | crash => cases hu
  | _ => cases hs

theorem watched_own {k : Nat} {agentId : AgentId} {s : Watch} {d d' : Delete} {i : Input}
    {e : Effect} {c : Config} {changed : Bool} (hs : deleteStep s.config.store d i = some (e, d'))
    (hd : s.config.procs[k]? = some (.delete d)) (hok : NoneGained s.config (.proc k i))
    (agent : d.agent = some agentId) (quiet : s.changed = true → d = .committed agentId)
    (holds : DeleteHolds s.config.store (.delete d)) (store : c.store = s.config.store.apply e)
    (hc : changed = (s.changed || decide (c.store.envs ≠ s.config.store.envs ∨
      c.store.agents ≠ s.config.store.agents))) :
    (d'.agent = some agentId ∧ (changed = true → d' = .committed agentId)) ∨
      ∃ r, d' = .done r ∧ Outcome agentId ⟨c, changed, false⟩ r := by
  have going : i ≠ .crash := by
    rintro rfl
    cases hok.1
  have answers : i ≠ .raise := by
    rintro rfl
    cases hok.1
  have still {d : Delete} (quiet : s.changed = true → d = .committed agentId)
      (before : ∀ b, d ≠ .committed b) (envs : (s.config.store.apply e).envs = s.config.store.envs)
      (agents : (s.config.store.apply e).agents = s.config.store.agents) : changed = false := by
    rw [hc, store, envs, agents]
    cases h : s.changed with
    | false => simp
    | true => exact absurd (quiet h) (before agentId)
  have adv := deleteStep_advance hs agent going answers fun envs ids hp => by
    subst hp
    exact only_of_noneGained hok hd hs
  cases adv with
  | go agent' before envs agents =>
    refine Or.inl ⟨agent', fun h => ?_⟩
    rw [still quiet before envs agents] at h
    cases h
  | @refuse _ _ code message listed before envs agents =>
    refine Or.inr ⟨_, rfl, Or.inr ⟨⟨message, ?_⟩, still quiet before envs agents⟩, nofun⟩
    exact listed.imp (fun h => by rw [h]) (fun h => by rw [h])
  | commit => exact Or.inl ⟨rfl, fun _ => rfl⟩
  | finish =>
    refine Or.inr ⟨_, rfl, Or.inl ⟨rfl, ?_⟩, nofun⟩
    rw [store]
    exact holds

/-- Where no row is gained, every step of a run keeps what is known of the delete. -/
theorem Watched.step {k : Nat} {agentId : AgentId} {s s' : Watch} {a : Action}
    (h : Watched k agentId s) (hok : NoneGained s.config a) (hs : watch k s a = some s') :
    Watched k agentId s' := by
  obtain ⟨c, he, rfl⟩ := Option.map_eq_some_iff.mp hs
  have gained : (s.gained || decide (actor a = some k ∧ gainedRows s.config a ≠ [])) = false := by
    simp [h.gained, hok.2]
  refine ⟨deletes_inductive.exec_holds h.holds hok.1 he, gained, ?_⟩
  obtain ⟨d, hd, hstate⟩ := h.here
  -- a step that is not the delete's own
  have keep (here : c.procs[k]? = some (.delete d)) (other : actor a ≠ some k)
      (known : AgentGone s.config.store agentId → AgentGone c.store agentId) :
      ∃ d, c.procs[k]? = some (.delete d) ∧
        ((d.agent = some agentId ∧ ((s.changed || decide (actor a = some k ∧
            (c.store.envs ≠ s.config.store.envs ∨ c.store.agents ≠ s.config.store.agents))) =
            true → d = .committed agentId)) ∨
          ∃ r, d = .done r ∧ Outcome agentId ⟨c, s.changed || decide (actor a = some k ∧
            (c.store.envs ≠ s.config.store.envs ∨ c.store.agents ≠ s.config.store.agents)),
            s.gained || decide (actor a = some k ∧ gainedRows s.config a ≠ [])⟩ r) := by
    refine ⟨d, here, hstate.imp (And.imp_right fun hq => ?_) ?_⟩
    · simpa [other] using hq
    · rintro ⟨r, hr, ho⟩
      exact ⟨r, hr, ho.keep known (by simp [other]) (by simp [other])⟩
  rcases System.exec_cases he with ⟨p, rfl, _, rfl⟩ | ⟨j, i, p, e, p', rfl, hp, hstep, rfl⟩ |
    ⟨e, rfl, ho, rfl⟩
  · have hlt := (List.getElem?_eq_some_iff.mp hd).1
    exact keep (by rw [List.getElem?_append_left hlt, hd]) (by simp [actor]) id
  · by_cases hjk : j = k
    · subst hjk
      rw [hp] at hd
      cases hd
      obtain ⟨d', hown, rfl⟩ := step_of_sum hstep
      have hlt := (List.getElem?_eq_some_iff.mp hp).1
      refine ⟨d', List.getElem?_set_self hlt, ?_⟩
      rcases hstate with ⟨agent, quiet⟩ | ⟨r, rfl, _⟩
      · rw [gained]
        exact watched_own hown hp hok agent quiet (h.holds.proc _ (List.mem_of_getElem? hp)) rfl
          (by simp [actor])
      · cases hown
    · refine keep (by rw [List.getElem?_set_ne hjk, hd]) (by simpa [actor] using hjk) fun hg => ?_
      refine agentGone_apply hg ?_
      rintro row rfl
      exact (step_insert hstep).1
  · refine keep hd (by simp [actor]) fun hg => agentGone_apply hg ?_
    rintro row rfl
    simp [karr, Effect.outside] at ho

/-- In a run whose deletes find only rows they have read, a delete ends with its agent and
all the rows of the agent gone, or with 404 or 409 and without having changed a table. -/
theorem delete_outcome {w : World} {c : Config} (hc : karr.Runs NoneGained ⟨w, []⟩ c) {k : Nat}
    {agentId : AgentId} {force : Bool} (hk : c.procs[k]? = some (.delete (.start agentId force)))
    {s : Watch} (h : Run (watch k) (fun s a => NoneGained s.config a) ⟨c, false, false⟩ s)
    {r : Result} (hr : s.config.procs[k]? = some (.delete (.done r))) : Outcome agentId s r := by
  have start : Watched k agentId ⟨c, false, false⟩ :=
    ⟨deletes_of_run (hc.mono fun _ _ ho => ho.1), rfl, _, hk, Or.inl ⟨rfl, nofun⟩⟩
  have watched : Watched k agentId s := h.invariant start fun hw ho hs => hw.step ho hs
  obtain ⟨d, hd, ⟨agent, _⟩ | ⟨r', rfl, ho⟩⟩ := watched.here
  · rw [hr] at hd
    cases hd
    cases agent
  · rw [hr] at hd
    cases hd
    exact ho

/-- An agent with a client and no environments. -/
def oneAgent : World := (boot 0 [1] [] [1] []).store

/-- The steps of a forced delete of an agent with one container, which BONNIE removes. -/
def forcedDeleteActions (k : Nat) : List Action :=
  [.proc k (.run 0), .proc k (.run 0), .proc k (.run 0), .proc k .ok, .proc k (.run 0),
    .proc k (.run 0), .proc k (.run 0), .proc k (.run 0)]

/-- A create that ends before the forced delete starts. -/
theorem delete_outcome_forced :
    ∃ c s, karr.Runs NoneGained ⟨oneAgent, []⟩ c ∧ c.store.envs ≠ [] ∧
      Run (watch 1) (fun s a => NoneGained s.config a) ⟨c, false, false⟩ s ∧
      s.config.procs[1]? = some (.delete (.done .ok)) ∧ Outcome 1 s .ok := by
  obtain ⟨c, hc, hp⟩ := exists_run_of_execute karr.exec (fun c a => decide (NoneGained c a))
    ⟨oneAgent, []⟩
    (createActions 0 ⟨1, none, "env", "image", false, [], [], []⟩ "c1" ++
      [.spawn (.delete (.start 1 true))])
    (fun c => decide (c.procs[1]? = some (Call.delete (.start 1 true)) ∧ c.store.envs ≠ [] ∧
      ((execute (watch 1) (fun s a => decide (NoneGained s.config a)) ⟨c, false, false⟩
        (forcedDeleteActions 1)).any fun s =>
          decide (s.config.procs[1]? = some (Call.delete (.done .ok)))) = true))
    (fun _ _ => of_decide_eq_true) (by decide)
  obtain ⟨hk, henvs, hrest⟩ := of_decide_eq_true hp
  obtain ⟨s, hs, hdone⟩ := exists_run_of_execute (watch 1)
    (fun s a => decide (NoneGained s.config a)) ⟨c, false, false⟩ (forcedDeleteActions 1)
    (fun s => decide (s.config.procs[1]? = some (Call.delete (.done .ok))))
    (fun _ _ => of_decide_eq_true) hrest
  have hr := of_decide_eq_true hdone
  exact ⟨c, s, hc, henvs, hs, hr, delete_outcome hc hk hs hr⟩

def DeleteOutcomeAlways : Prop :=
  ∀ (w : World) (c : Config) (k : Nat) (agentId : AgentId) (force : Bool) (s : Watch) (r : Result),
    karr.Runs Uninterrupted ⟨w, []⟩ c →
    c.procs[k]? = some (.delete (.start agentId force)) →
    Run (watch k) (fun s a => Uninterrupted s.config a) ⟨c, false, false⟩ s →
    s.config.procs[k]? = some (.delete (.done r)) → Outcome agentId s r

/-- An environment is inserted after the delete has read that there is none. -/
def gainedActions : List Action :=
  [.proc 0 (.run 0), .proc 0 (.run 0), .proc 0 (.run 0)] ++
  (createActions 1 ⟨1, none, "env", "image", false, [], [], []⟩ "c1").take 4 ++
  [.proc 0 (.run 0), .proc 0 (.run 0)]

theorem not_deleteOutcomeAlways : ¬ DeleteOutcomeAlways := by
  intro always
  obtain ⟨s, hs, hp⟩ := exists_run_of_execute (watch 0)
    (fun _ a => uninterrupted a) ⟨⟨oneAgent, [.delete (.start 1 false)]⟩, false, false⟩
    gainedActions
    (fun s => decide (s.config.procs[0]? = some (Call.delete (.done .exception))))
    (fun _ _ h => h) (by decide)
  have start : karr.Runs Uninterrupted ⟨oneAgent, []⟩ ⟨oneAgent, [.delete (.start 1 false)]⟩ :=
    .step (a := .spawn (.delete (.start 1 false))) .refl rfl rfl
  have ended := (always oneAgent _ 0 1 false s .exception start rfl hs (of_decide_eq_true hp)).ended
  rcases ended with ⟨h, _⟩ | ⟨⟨message, h | h⟩, _⟩ <;> cases h

end Karr
