import Karr.Services.Environments

/-!
# AgentService.delete

The two `DELETE` statements and the commit are separate steps of one
transaction: the rows the first one deletes stay locked, and the second one
checks the foreign key against every row committed in between.
-/

set_option autoImplicit false

namespace Karr

inductive Delete where
  | start (agentId : AgentId) (force : Bool)
  | found (agentId : AgentId) (force : Bool)
  /-- Names and container ids of the agent's rows; the read transaction is over. -/
  | read (agentId : AgentId) (envs : List (String × ContainerId))
  | removing (agentId : AgentId) (envs todo : List (String × ContainerId)) (failed : List String)
  | deleting (agentId : AgentId) (envs : List (String × ContainerId))
  | rowsDeleted (agentId : AgentId) (envs : List (String × ContainerId)) (ids : List Nat)
  | agentDeleted (agentId : AgentId) (envs : List (String × ContainerId)) (ids : List Nat)
  | committed (agentId : AgentId)
  | done (result : Result)
  deriving DecidableEq, Repr

def couldNotRemove (failed : List String) : Delete :=
  .done (.apiError 409 ("could not remove container(s) on the agent: " ++
    ", ".intercalate failed))

/-- `_remove_containers` moves on to its next request, or returns to `delete`. -/
def Delete.next (agentId : AgentId) (envs todo : List (String × ContainerId))
    (failed : List String) : Delete :=
  if todo ≠ [] then .removing agentId envs todo failed
  else if failed ≠ [] then couldNotRemove failed
  else .deleting agentId envs

theorem Delete.next_elim {motive : Delete → Prop} {agentId : AgentId}
    {envs todo : List (String × ContainerId)} {failed : List String}
    (removing : todo ≠ [] → motive (.removing agentId envs todo failed))
    (refused : todo = [] → failed ≠ [] → motive (couldNotRemove failed))
    (deleting : todo = [] → failed = [] → motive (.deleting agentId envs)) :
    motive (Delete.next agentId envs todo failed) := by
  unfold Delete.next
  by_cases htodo : todo = []
  · rw [if_neg (not_not_intro htodo)]
    by_cases hfailed : failed = []
    · rw [if_neg (not_not_intro hfailed)]
      exact deleting htodo hfailed
    · rw [if_pos hfailed]
      exact refused htodo hfailed
  · rw [if_pos htodo]
    exact removing htodo

def envRows (w : World) (agentId : AgentId) : List Environment :=
  w.envs.filter fun r => decide (r.agentId = agentId)

def deleteStep (w : World) : Delete → Input → Option (Effect × Delete)
  | .start agentId force, .run _ =>
    if agentId ∈ w.agents then some (.none, .found agentId force)
    else some (.none, .done (.apiError 404 "agent not found"))
  | .found agentId force, .run _ =>
    let envs := (envRows w agentId).map fun r => (r.name, r.containerId)
    if envs ≠ [] ∧ force = false then
      some (.none, .done (.apiError 409 ("agent has " ++ toString envs.length ++
        " environment(s); delete them or pass force=true")))
    else some (.none, .read agentId envs)
  | .read agentId envs, .run _ =>
    let withContainers := envs.filter fun e => decide (e.2 ≠ "")
    if withContainers = [] then some (.none, .deleting agentId envs)
    else if agentId ∈ w.clients then some (.none, .removing agentId envs withContainers [])
    else some (.none, couldNotRemove (withContainers.map Prod.fst))
  | .removing agentId envs (e :: todo) failed, .ok =>
    some (.removeContainer agentId e.2, Delete.next agentId envs todo failed)
  | .removing agentId envs (e :: todo) failed, .notFound _ =>
    some (.removeContainer agentId e.2, Delete.next agentId envs todo failed)
  | .removing agentId envs (e :: todo) failed, .error _ =>
    some (.none, Delete.next agentId envs todo (failed ++ [e.1]))
  | .removing agentId envs (e :: todo) failed, .lost _ =>
    some (.removeContainer agentId e.2, Delete.next agentId envs todo (failed ++ [e.1]))
  | .deleting agentId envs, .run _ =>
    if envs = [] then some (.none, .rowsDeleted agentId envs [])
    else
      let ids := (envRows w agentId).map Environment.id
      if ids.any fun id => decide (id ∈ w.locks) then none
      else some (.lockRows ids, .rowsDeleted agentId envs ids)
  | .rowsDeleted agentId envs ids, .run _ =>
    let others := (envRows w agentId).filter fun r => decide (r.id ∉ ids)
    if agentId ∈ w.agentLocks then none
    -- the foreign key is checked by this statement, before the `try` block
    else if others.any fun r => decide (r.id ∉ w.locks) then
      some (.rollback ids [], .done .exception)
    else if others ≠ [] then none
    else some (.lockAgent agentId, .agentDeleted agentId envs ids)
  | .agentDeleted agentId _ ids, .run _ => some (.dropAgent ids agentId, .committed agentId)
  | .committed agentId, .run _ => some (.unregister agentId, .done .ok)
  | .committed _, .raise => some (.none, .done .exception)
  | .done _, _ => none
  | .rowsDeleted _ _ ids, .crash => some (.rollback ids [], .done .crashed)
  | .agentDeleted agentId _ ids, .crash => some (.rollback ids [agentId], .done .crashed)
  | _, .crash => some (.none, .done .crashed)
  | _, _ => none

inductive DeleteRule (w : World) : Delete → Input → Effect → Delete → Prop where
  | quit {p : Delete} {i : Input} {r : Result} (refused : r ≠ .ok) :
      DeleteRule w p i .none (.done r)
  | find {agentId : AgentId} {force : Bool} {clock : Int} :
      DeleteRule w (.start agentId force) (.run clock) .none (.found agentId force)
  | read {agentId : AgentId} {force : Bool} {clock : Int} :
      DeleteRule w (.found agentId force) (.run clock) .none
        (.read agentId ((envRows w agentId).map fun r => (r.name, r.containerId)))
  | bare {agentId : AgentId} {envs : List (String × ContainerId)} {clock : Int}
      (none : ∀ e ∈ envs, e.2 = "") :
      DeleteRule w (.read agentId envs) (.run clock) .none (.deleting agentId envs)
  | begin {agentId : AgentId} {envs : List (String × ContainerId)} {clock : Int} :
      DeleteRule w (.read agentId envs) (.run clock) .none
        (.removing agentId envs (envs.filter fun e => decide (e.2 ≠ "")) [])
  | removed {agentId : AgentId} {envs todo : List (String × ContainerId)}
      {e : String × ContainerId} {failed : List String} {i : Input} :
      DeleteRule w (.removing agentId envs (e :: todo) failed) i (.removeContainer agentId e.2)
        (Delete.next agentId envs todo failed)
  | lost {agentId : AgentId} {envs todo : List (String × ContainerId)}
      {e : String × ContainerId} {failed : List String} {i : Input} :
      DeleteRule w (.removing agentId envs (e :: todo) failed) i (.removeContainer agentId e.2)
        (Delete.next agentId envs todo (failed ++ [e.1]))
  | fail {agentId : AgentId} {envs todo : List (String × ContainerId)}
      {e : String × ContainerId} {failed : List String} {i : Input} :
      DeleteRule w (.removing agentId envs (e :: todo) failed) i .none
        (Delete.next agentId envs todo (failed ++ [e.1]))
  | skip {agentId : AgentId} {clock : Int} :
      DeleteRule w (.deleting agentId []) (.run clock) .none (.rowsDeleted agentId [] [])
  | deleteRows {agentId : AgentId} {envs : List (String × ContainerId)} {clock : Int} :
      DeleteRule w (.deleting agentId envs) (.run clock)
        (.lockRows ((envRows w agentId).map Environment.id))
        (.rowsDeleted agentId envs ((envRows w agentId).map Environment.id))
  | gained {agentId : AgentId} {envs : List (String × ContainerId)} {ids : List Nat}
      {clock : Int} :
      DeleteRule w (.rowsDeleted agentId envs ids) (.run clock) (.rollback ids [])
        (.done .exception)
  | deleteAgent {agentId : AgentId} {envs : List (String × ContainerId)} {ids : List Nat}
      {clock : Int} (only : ∀ r ∈ w.envs, r.agentId = agentId → r.id ∈ ids) :
      DeleteRule w (.rowsDeleted agentId envs ids) (.run clock) (.lockAgent agentId)
        (.agentDeleted agentId envs ids)
  | commit {agentId : AgentId} {envs : List (String × ContainerId)} {ids : List Nat}
      {clock : Int} :
      DeleteRule w (.agentDeleted agentId envs ids) (.run clock) (.dropAgent ids agentId)
        (.committed agentId)
  | unregister {agentId : AgentId} {clock : Int} :
      DeleteRule w (.committed agentId) (.run clock) (.unregister agentId) (.done .ok)
  | abort {p : Delete} {i : Input} {ids : List Nat} {agentIds : List AgentId} :
      DeleteRule w p i (.rollback ids agentIds) (.done .crashed)

theorem deleteStep_rule {w : World} {p p' : Delete} {i : Input} {e : Effect} :
    deleteStep w p i = some (e, p') → DeleteRule w p i e p' := by
  fun_cases deleteStep w p i <;> intro h <;> cases h
  case case1 => exact .find
  case case4 => exact .read
  case case5 none => exact .bare fun e he => by simpa using List.filter_eq_nil_iff.mp none e he
  case case6 => exact .begin
  case case8 => exact .removed
  case case9 => exact .removed
  case case10 => exact .fail
  case case11 => exact .lost
  case case12 => exact .skip
  case case14 => exact .deleteRows
  case case16 => exact .gained
  case case18 only =>
    refine .deleteAgent fun r hr ha => ?_
    have hm : r ∈ envRows w _ := List.mem_filter.mpr ⟨hr, decide_eq_true ha⟩
    simpa using List.filter_eq_nil_iff.mp (not_not.mp only) r hm
  case case19 => exact .commit
  case case20 => exact .unregister
  case case23 => exact .abort
  case case24 => exact .abort
  all_goals exact .quit (by simp)

end Karr
