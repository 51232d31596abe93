import Karr.ForcedDelete
import Karr.Invariants.Links

/-!
# Rows without a container can be removed

A pass leaves a row whose container is gone either without a container id or
with the message that makes `remove` ignore what BONNIE answers. A row in
creation has no container id; that needs no assumption about BONNIE.
-/

set_option autoImplicit false

namespace Karr

open Interleaving

/-! ## Rows in creation -/

def Environment.Bare (r : Environment) : Prop := r.status = .creating → r.containerId = ""

/-- What a pass is about to write takes a row out of creation or leaves its container id. -/
structure Change.Settles (ch : Change) : Prop where
  left : ch.assigned.status ≠ .creating
  loaded : ch.loaded.status = .creating ∨ ch.assigned.containerId = ch.loaded.containerId

/-- No call puts a row back into creation. -/
def Call.Settles : Call → Prop
  | .transition (.requested _ _ target) => target ≠ .creating
  | .transition (.answered _ status _ _) => status ≠ .creating
  | .pass (.loaded _ changes) => ∀ ch ∈ changes, ch.Settles
  | _ => True

theorem Change.Settles.write {ch : Change} (h : ch.Settles) {r : Environment} (bare : r.Bare) :
    (ch.write r).Bare := by
  intro creating
  rcases h.loaded with was | same
  · -- the status was assigned, so it is written
    have hs : (ch.write r).status = ch.assigned.status :=
      if_neg fun eq => h.left (eq.trans was)
    exact absurd (hs.symm.trans creating) h.left
  · obtain ⟨hc, hs | hs⟩ := write_observed same r
    · rw [hc]
      exact bare (hs.symm.trans creating)
    · exact absurd (hs.symm.trans creating) h.left

theorem ReconcileRule.settles {clock : Int} {containers : List ContainerInfo}
    {env new : Environment} (h : ReconcileRule clock containers env new) :
    Change.Settles ⟨env, new⟩ := by
  cases h with
  | abandon creating => exact ⟨by simp, Or.inl creating⟩
  | adopt creating => exact ⟨observed_ne_creating _, Or.inl creating⟩
  | observe => exact ⟨observed_ne_creating _, Or.inr rfl⟩

/-- The step lemma: what a call writes to a row, and what it goes on to write. -/
theorem CallRule.settles {w : World} {p p' : Call} {i : Input} {e : Effect}
    (h : CallRule w p i e p') (hp : p.Settles) :
    (∀ r : Environment, r.Bare → (e.updateRow r).Bare) ∧ p'.Settles := by
  have mark {id : Nat} {status : Status} {message : String} (left : status ≠ .creating)
      (r : Environment) (bare : r.Bare) :
      (Effect.updateRow (.setStatus id status message) r).Bare := by
    simp only [Effect.updateRow]
    split
    · exact fun creating => absurd creating left
    · exact bare
  cases h with
  | create h =>
    cases h
    case finish env id _ _ =>
      refine ⟨fun r bare => ?_, trivial⟩
      simp only [Effect.updateRow]
      split
      · exact fun creating => by cases creating
      · exact bare
    case mark => exact ⟨mark (by decide), trivial⟩
    all_goals exact ⟨fun r bare => bare, trivial⟩
  | transition h =>
    cases h
    case request found legal =>
      exact ⟨fun r bare => bare, (transitions_shape legal).2⟩
    case act => exact ⟨fun r bare => bare, hp⟩
    case lost => exact ⟨fun r bare => bare, fun failed => by cases failed⟩
    case fail => exact ⟨fun r bare => bare, fun failed => by cases failed⟩
    case write => exact ⟨mark hp, trivial⟩
    all_goals exact ⟨fun r bare => bare, trivial⟩
  | remove h =>
    have fail (env : Environment) (message : String) :
        (Call.remove (Remove.fail env message)).Settles := by
      unfold Remove.fail
      split <;> trivial
    cases h
    case mark => exact ⟨mark (by decide), trivial⟩
    case lost => exact ⟨fun r bare => bare, fail _ _⟩
    case fail => exact ⟨fun r bare => bare, fail _ _⟩
    all_goals exact ⟨fun r bare => bare, trivial⟩
  | pass h =>
    cases h
    case load =>
      refine ⟨fun r bare => bare, fun ch hch => ?_⟩
      exact (reconcileRow_rule (mem_reconcileChanges hch).2).settles
    case flush changes _ _ =>
      refine ⟨fun r bare => ?_, trivial⟩
      rcases updateRow_flush changes r with same | ⟨ch, hch, -, written⟩
      · rwa [same]
      · rw [written]
        exact (hp ch hch).write bare
    all_goals exact ⟨fun r bare => bare, trivial⟩
  | delete h => cases h <;> exact ⟨fun r bare => bare, trivial⟩

theorem bare_inductive (ok : Config → Action → Prop) :
    Inductive karr ok (fun w => ∀ r ∈ w.envs, r.Bare) (fun _ p => p.Settles)
      (fun _ _ => True) where
  spawn := by
    intro c p _ _ hp
    rcases p with p | p | p | p | p <;> cases p <;> trivial
  spawn_pair := fun _ _ _ _ => ⟨trivial, trivial⟩
  outside := by
    intro c e hc _ he
    refine ⟨fun r' hr' => ?_, hc.proc⟩
    rcases World.mem_envs_apply.mp hr' with new | ⟨r, hr, -, rfl⟩
    · exact absurd new ((outside_frame he).1 r')
    · obtain ⟨status, -, containerId⟩ := (outside_frame he).2 r
      intro creating
      rw [containerId]
      exact hc.store r hr (status ▸ creating)
  own := by
    intro c k i p e p' hc _ hp hs
    have hrule := call_rule hs
    obtain ⟨keep, next⟩ := hrule.settles (hc.proc p (List.mem_of_getElem? hp))
    refine ⟨fun r' hr' => ?_, next⟩
    rcases World.mem_envs_apply.mp hr' with rfl | ⟨r, hr, -, rfl⟩
    · exact fun _ => hrule.insert_fresh.2.2.2.1
    · exact keep r (hc.store r hr)
  other := fun hc _ _ _ _ hq => ⟨hc.proc _ (List.mem_of_getElem? hq), trivial, trivial⟩

theorem bare_of_run {ok : Config → Action → Prop} {now : Int} {agents : List AgentId}
    {projects : List ProjectId} {clients : List AgentId} {host : List Container} {c : Config}
    (h : karr.Runs ok (boot now agents projects clients host) c) :
    ∀ r ∈ c.store.envs, r.Bare :=
  ((bare_inductive ok).holds_of_run
    ⟨by simp [boot], by simp [boot], fun _ _ _ => trivial⟩ h).store

/-! ## After a pass -/

section AfterPass
variable {containers : List ContainerInfo} {clock : Int} {r : Environment}

/-- The container of the row is not on the list, by its id or, for a row left in creation, by its
name. -/
structure Unlisted (containers : List ContainerInfo) (clock : Int) (r : Environment) : Prop where
  id : r.containerId ≠ "" → ∀ c ∈ containers, c.id ≠ r.containerId
  name : r.status = .creating → createGrace ≤ age r clock → ∀ c ∈ containers, c.name ≠ r.name

theorem Unlisted.observed (h : Unlisted containers clock r) (container : r.containerId ≠ "") :
    observed (Python.dictGet ContainerInfo.id containers r.containerId) =
      (.error, containerMissing) := by
  cases found : Python.dictGet ContainerInfo.id containers r.containerId with
  | none => rfl
  | some c =>
    obtain ⟨hc, hid⟩ := Python.mem_of_dictGet found
    exact absurd hid (h.id container c hc)

theorem reconcileRow_unlisted (bare : r.Bare) (unlisted : Unlisted containers clock r)
    (old : young r clock = false) :
    ((reconcileRow clock containers r).getD r).status ≠ .creating ∧
      (((reconcileRow clock containers r).getD r).containerId ≠ "" →
        ((reconcileRow clock containers r).getD r).statusMessage = containerMissing) := by
  fun_cases reconcileRow clock containers r
  case case1 creating new => exact absurd ⟨creating, new⟩ (of_decide_eq_false old)
  case case2 creating _ _ => exact ⟨by simp, fun container => absurd (bare creating) container⟩
  case case3 creating grown container found =>
    obtain ⟨listed, named⟩ := Python.mem_of_dictGet found
    exact absurd named (unlisted.name creating (Int.not_lt.mp grown) container listed)
  case case4 settled empty => exact ⟨settled, fun container => absurd empty container⟩
  case case5 settled container _ _ =>
    exact ⟨observed_ne_creating _, fun _ => congrArg Prod.snd (unlisted.observed container)⟩
  case case6 settled container _ unchanged =>
    refine ⟨settled, fun _ => (not_not.mp (not_or.mp unchanged).2).trans ?_⟩
    exact congrArg Prod.snd (unlisted.observed container)

/-- The pass, and then a remove of the row at any later time. -/
theorem removable_after_reconcile {ok : Config → Action → Prop} {now : Int}
    {agents : List AgentId} {projects : List ProjectId} {clients : List AgentId}
    {host : List Container} {c : Config}
    (h : karr.Runs ok (boot now agents projects clients host) c) (unlocked : c.store.locks = [])
    (hr : r ∈ c.store.envs) (client : r.agentId ∈ c.store.clients)
    (unlisted : Unlisted containers clock r) (old : young r clock = false)
    (strict : Bool) (answers : ContainerId → Answer) (later : Int) :
    ∃ w n, reconcileAgent r.agentId containers clock strict c.store = (w, .pass (.done .ok n)) ∧
      Removes answers later w r := by
  have ids : ∀ s ∈ c.store.envs, ∀ t ∈ c.store.envs, s.id = t.id → s = t :=
    (rows_of_run h).store.id_inj
  refine ⟨_, _, reconcileAgent_eq strict unlocked ids, ?_⟩
  obtain ⟨left, missing⟩ := reconcileRow_unlisted (bare_of_run h r hr) unlisted old
  have result : reconciled r.agentId containers clock r = (reconcileRow clock containers r).getD r :=
    if_pos rfl
  rw [← result] at left missing
  have key : SameKey (reconciled r.agentId containers clock r) r := reconciled_sameKey r
  have removes : Removes answers later
      { c.store with envs := c.store.envs.map (reconciled r.agentId containers clock) }
      (reconciled r.agentId containers clock r) := by
    refine (removes_settled_iff (reconciled_id_inj ids) ?_ (List.mem_map_of_mem hr) ?_ left).mpr ?_
    · exact unlocked
    · rw [key.agentId]
      exact client
    · exact fun container _ => missing container
  unfold Removes at removes ⊢
  rwa [key.id] at removes

end AfterPass

/-- An environment whose removal BONNIE has refused. -/
def failedRemove : List Action :=
  createActions 0 ⟨1, none, "env", "image", false, [], [], []⟩ "c1" ++
    [.spawn (.remove (.start 0)), .proc 1 (.run 0), .proc 1 (.error "timeout"), .proc 1 (.run 0)]

/-- Its container is gone by the next pass, and BONNIE goes on refusing. -/
theorem removable_after_reconcile_failed : ∃ (c : Config) (w : World) (r : Environment) (n : Nat),
    r.status = .error ∧ r.statusMessage = "remove container failed: timeout" ∧
      reconcileAgent 1 [] 60 true c.store = (w, .pass (.done .ok n)) ∧
      Removes (fun _ => .error "timeout") 120 w r := by
  obtain ⟨c, hr, hp⟩ := exists_run_of_execute karr.exec (fun _ _ => true)
    (boot 0 [1] [] [1] []) failedRemove
    (fun c => decide (c.store.envs = [⟨0, none, 1, "env", "image", "c1", .error,
      "remove container failed: timeout", false, [], [], [], 0⟩] ∧ c.store.locks = [] ∧
      c.store.clients = [1])) (fun _ _ _ => trivial) (by decide)
  obtain ⟨rows, unlocked, clients⟩ := of_decide_eq_true hp
  have row := rows.symm ▸ List.mem_singleton_self _
  obtain ⟨w, n, passed, removed⟩ := removable_after_reconcile hr unlocked row (by simp [clients])
    ⟨fun _ c hc => absurd hc List.not_mem_nil, fun _ _ c hc => absurd hc List.not_mem_nil⟩ rfl true
    (fun _ => .error "timeout") 120
  exact ⟨c, w, _, n, rfl, rfl, passed, removed⟩

end Karr
