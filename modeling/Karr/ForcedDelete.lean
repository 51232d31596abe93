import Karr.Invariants.Rows
import Karr.Reconcile

/-!
# The forced delete of an agent and the deletes of its environments

Both decide for each row whether its container is gone. `remove` also believes a
pass that found the container missing; `_remove_containers` does not, so that an
agent whose rows could all be deleted one by one cannot always be deleted.
-/

set_option autoImplicit false

namespace Karr

open Interleaving

/-- BONNIE's answer to `remove_container`; after `lost` the container is gone all the same. -/
inductive Answer where
  | ok
  | notFound (message : String)
  | error (message : String)
  | lost (message : String)
  deriving DecidableEq, Repr

def Answer.input : Answer → Input
  | .ok => .ok
  | .notFound message => .notFound message
  | .error message => .error message
  | .lost message => .lost message

/-- A `BonnieError` that is not not-found. -/
def Answer.isError : Answer → Bool
  | .error _ => true
  | .lost _ => true
  | _ => false

/-- BONNIE answers for each container, the database at this clock. -/
def answered (answers : ContainerId → Answer) (clock : Int) : Call → Input
  | .remove (.requested env) => (answers env.containerId).input
  | .delete (.removing _ _ (e :: _) _) => (answers e.2).input
  | _ => .run clock

/-- The same, with the outcome of the registry after the delete of an agent. -/
def answeredThen (answers : ContainerId → Answer) (clock : Int) (removed : Bool) : Call → Input
  | .delete (.committed _) => if removed then .run clock else .raise
  | p => answered answers clock p

theorem answeredThen_true (answers : ContainerId → Answer) (clock : Int) :
    answeredThen answers clock true = answered answers clock := by
  funext p
  unfold answeredThen
  split <;> rfl

/-- `EnvironmentService.remove` takes three steps at most. -/
def removeAlone (answers : ContainerId → Answer) (clock : Int) (id : Nat) (w : World) :
    World × Call :=
  karr.drive (answered answers clock) 3 w (.remove (.start id))

/-- `AgentService.delete(force=True)`: seven steps and one for each container. -/
def deleteAlone (answers : ContainerId → Answer) (clock : Int) (agentId : AgentId) (w : World) :
    World × Call :=
  karr.drive (answered answers clock) (7 + (envRows w agentId).length) w
    (.delete (.start agentId true))

/-- `remove` answers success, and the row is gone. -/
def Removes (answers : ContainerId → Answer) (clock : Int) (w : World) (r : Environment) : Prop :=
  (removeAlone answers clock r.id w).2 = .remove (.done .ok) ∧
    ∀ s ∈ (removeAlone answers clock r.id w).1.envs, s.id ≠ r.id

instance (answers : ContainerId → Answer) (clock : Int) (w : World) (r : Environment) :
    Decidable (Removes answers clock w r) :=
  inferInstanceAs (Decidable (_ ∧ ∀ s ∈ _, _))

/-- The forced delete answers success, and the agent and its rows are gone. -/
def ForcedDeletes (answers : ContainerId → Answer) (clock : Int) (w : World)
    (agentId : AgentId) : Prop :=
  (deleteAlone answers clock agentId w).2 = .delete (.done .ok) ∧
    agentId ∉ (deleteAlone answers clock agentId w).1.agents ∧
    ∀ r ∈ (deleteAlone answers clock agentId w).1.envs, r.agentId ≠ agentId

/-- An agent with a client, none of whose rows is in creation; no other call is in the way. -/
structure Deletable (w : World) (agentId : AgentId) : Prop where
  known : agentId ∈ w.agents
  client : agentId ∈ w.clients
  settled : ∀ r ∈ envRows w agentId, r.status ≠ .creating
  ids : ∀ r ∈ w.envs, ∀ s ∈ w.envs, r.id = s.id → r = s
  unlocked : w.locks = []
  agentUnlocked : w.agentLocks = []

/-! ## One environment -/

section Remove
variable {answers : ContainerId → Answer} {clock : Int} {w : World} {r : Environment}

theorem find_of_mem (ids : ∀ r ∈ w.envs, ∀ s ∈ w.envs, r.id = s.id → r = s) (hr : r ∈ w.envs) :
    w.find r.id = some r := by
  cases h : w.find r.id with
  | none => exact absurd (decide_eq_true rfl) (List.find?_eq_none.mp h r hr)
  | some s =>
    obtain ⟨hs, hid⟩ := World.find_mem h
    rw [ids s hs r hr hid]

/-- From `deleting` on nothing can fail. -/
theorem remove_deleting (answers : ContainerId → Answer) (clock : Int) (host : List Container)
    (fuel : Nat) (unlocked : w.locks = []) :
    karr.drive (answered answers clock) (fuel + 1) { w with host := host }
        (.remove (.deleting r)) =
      (({ w with host := host } : World).apply (.deleteRow r.id), .remove (.done .ok)) := by
  have step : karr.step { w with host := host } (.remove (.deleting r)) (.run clock) =
      some (.deleteRow r.id, .remove (.done .ok)) := by
    simp [karr, Call.step, removeStep, unlocked]
  rw [System.drive_step fuel step, System.drive_stop fuel rfl]
  rfl

theorem remove_fail (r : Environment) (message : String) :
    (r.statusMessage ≠ containerMissing ∧
        Remove.fail r message = .marking r (removeFailure message)) ∨
      (r.statusMessage = containerMissing ∧ Remove.fail r message = .deleting r) := by
  by_cases hm : r.statusMessage = containerMissing
  · exact Or.inr ⟨hm, if_neg (not_not_intro hm)⟩
  · exact Or.inl ⟨hm, if_pos hm⟩

/-- What `remove` makes of BONNIE's answer; the request changes nothing but the host. -/
theorem remove_answer (answers : ContainerId → Answer) (w : World) (r : Environment) :
    ∃ e host, w.apply e = { w with host := host } ∧
      (((answers r.containerId).isError = true ∧ r.statusMessage ≠ containerMissing ∧
          ∃ message, karr.step w (.remove (.requested r)) (answers r.containerId).input =
            some (e, .remove (.marking r message))) ∨
        (((answers r.containerId).isError = true → r.statusMessage = containerMissing) ∧
          karr.step w (.remove (.requested r)) (answers r.containerId).input =
            some (e, .remove (.deleting r)))) := by
  have failed {a : Answer} {e : Effect} {message : String} (error : a.isError = true)
      (step : karr.step w (.remove (.requested r)) a.input =
        some (e, .remove (.fail r message))) :
      (a.isError = true ∧ r.statusMessage ≠ containerMissing ∧
          ∃ m, karr.step w (.remove (.requested r)) a.input = some (e, .remove (.marking r m))) ∨
        ((a.isError = true → r.statusMessage = containerMissing) ∧
          karr.step w (.remove (.requested r)) a.input = some (e, .remove (.deleting r))) := by
    rw [step]
    rcases remove_fail r message with ⟨hm, hf⟩ | ⟨hm, hf⟩
    · exact Or.inl ⟨error, hm, _, by rw [hf]⟩
    · exact Or.inr ⟨fun _ => hm, by rw [hf]⟩
  cases answers r.containerId with
  | ok => exact ⟨_, _, rfl, Or.inr ⟨nofun, rfl⟩⟩
  | notFound message => exact ⟨_, _, rfl, Or.inr ⟨nofun, rfl⟩⟩
  | error message => exact ⟨.none, w.host, rfl, failed rfl rfl⟩
  | lost message => exact ⟨.removeContainer r.agentId r.containerId, _, rfl, failed rfl rfl⟩

theorem remove_marking (answers : ContainerId → Answer) (clock : Int) {message : String}
    (fuel : Nat) (unlocked : w.locks = []) :
    (karr.drive (answered answers clock) (fuel + 1) w (.remove (.marking r message))).2 =
      .remove (.done (.apiError 502 message)) := by
  have step : karr.step w (.remove (.marking r message)) (.run clock) =
      some (.setStatus r.id .error message, .remove (.done (.apiError 502 message))) := by
    simp [karr, Call.step, removeStep, unlocked]
  rw [System.drive_step fuel step, System.drive_stop fuel rfl]

/-- `remove` deletes a settled row unless BONNIE fails to and no pass has found the
container missing. -/
theorem removes_settled_iff (ids : ∀ r ∈ w.envs, ∀ s ∈ w.envs, r.id = s.id → r = s)
    (unlocked : w.locks = []) (hm : r ∈ w.envs) (client : r.agentId ∈ w.clients)
    (left : r.status ≠ .creating) :
    Removes answers clock w r ↔
      (r.containerId ≠ "" → (answers r.containerId).isError = true →
        r.statusMessage = containerMissing) := by
  have settled : young r clock = false := decide_eq_false fun h => left h.1
  have gone (host : List Container) :
      ∀ s ∈ (({ w with host := host } : World).apply (.deleteRow r.id)).envs, s.id ≠ r.id := by
    intro s hs
    simpa [Effect.drops] using (List.mem_filter.mp hs).2
  unfold Removes removeAlone
  by_cases hc : r.containerId = ""
  · have start : karr.step w (.remove (.start r.id)) (.run clock) =
        some (.none, .remove (.deleting r)) := by
      simp [karr, Call.step, removeStep, find_of_mem ids hm, settled, hc]
    rw [System.drive_step 2 start]
    have same : karr.apply w .none = { w with host := w.host } := rfl
    rw [same, remove_deleting answers clock w.host 1 unlocked]
    exact ⟨fun _ h => absurd hc h, fun _ => ⟨rfl, gone w.host⟩⟩
  · have start : karr.step w (.remove (.start r.id)) (.run clock) =
        some (.none, .remove (.requested r)) := by
      simp [karr, Call.step, removeStep, find_of_mem ids hm, settled, hc, client]
    rw [System.drive_step 2 start]
    change (karr.drive _ 2 w _).2 = _ ∧ (∀ s ∈ (karr.drive _ 2 w _).1.envs, _) ↔ _
    obtain ⟨e, host, hw, ⟨error, hne, message, step⟩ | ⟨hmiss, step⟩⟩ :=
      remove_answer answers w r
    · rw [System.drive_step 1 step]
      have unlocked' : (w.apply e).locks = [] := by rw [hw]; exact unlocked
      refine ⟨fun h => ?_, fun h => absurd (h hc error) hne⟩
      cases (remove_marking answers clock 0 unlocked').symm.trans h.1
    · rw [System.drive_step 1 step]
      change (karr.drive _ 1 (w.apply e) _).2 = _ ∧
        (∀ s ∈ (karr.drive _ 1 (w.apply e) _).1.envs, _) ↔ _
      rw [hw, remove_deleting answers clock host 0 unlocked]
      exact ⟨fun _ _ => hmiss, fun _ => ⟨rfl, gone host⟩⟩

theorem removes_iff {agentId : AgentId} (ready : Deletable w agentId)
    (hr : r ∈ envRows w agentId) :
    Removes answers clock w r ↔
      (r.containerId ≠ "" → (answers r.containerId).isError = true →
        r.statusMessage = containerMissing) := by
  obtain ⟨hm, ha⟩ := List.mem_filter.mp hr
  exact removes_settled_iff ready.ids ready.unlocked hm (of_decide_eq_true ha ▸ ready.client)
    (ready.settled r hr)

end Remove

/-! ## The whole agent -/

section Delete
variable {answers : ContainerId → Answer} {clock : Int} {w : World} {agentId : AgentId}
  {envs todo : List (String × ContainerId)} {failed : List String}

/-- What the loop of `_remove_containers` makes of one answer. -/
theorem delete_answer (answers : ContainerId → Answer) (w : World) (agentId : AgentId)
    (envs todo : List (String × ContainerId)) (failed : List String) (e : String × ContainerId) :
    ∃ effect host, w.apply effect = { w with host := host } ∧
      karr.step w (.delete (.removing agentId envs (e :: todo) failed)) (answers e.2).input =
        some (effect, .delete (Delete.next agentId envs todo
          (failed ++ if (answers e.2).isError then [e.1] else []))) := by
  cases h : answers e.2 with
  | ok => exact ⟨.removeContainer agentId e.2, _, rfl,
      by simp [karr, Call.step, deleteStep, Answer.input, Answer.isError]⟩
  | notFound message => exact ⟨.removeContainer agentId e.2, _, rfl,
      by simp [karr, Call.step, deleteStep, Answer.input, Answer.isError]⟩
  | error message => exact ⟨.none, w.host, rfl,
      by simp [karr, Call.step, deleteStep, Answer.input, Answer.isError]⟩
  | lost message => exact ⟨.removeContainer agentId e.2, _, rfl,
      by simp [karr, Call.step, deleteStep, Answer.input, Answer.isError]⟩

/-- The names `_remove_containers` has collected when it is through. -/
def failures (answers : ContainerId → Answer) (todo : List (String × ContainerId)) :
    List String :=
  (todo.filter fun e => (answers e.2).isError).map Prod.fst

/-- The loop changes nothing but the host and collects the names of what failed. -/
theorem drive_removing (answers : ContainerId → Answer) (clock : Int) (removed : Bool) (w : World)
    (agentId : AgentId) (envs todo : List (String × ContainerId)) (failed : List String)
    (fuel : Nat) :
    ∃ host, karr.drive (answeredThen answers clock removed) (fuel + todo.length) w
        (.delete (Delete.next agentId envs todo failed)) =
      karr.drive (answeredThen answers clock removed) fuel { w with host := host }
        (.delete (Delete.next agentId envs [] (failed ++ failures answers todo))) := by
  induction todo generalizing w failed with
  | nil => exact ⟨w.host, by simp [failures]⟩
  | cons e todo ih =>
    obtain ⟨effect, host, hw, step⟩ := delete_answer answers w agentId envs todo failed e
    have hnext : Delete.next agentId envs (e :: todo) failed =
        .removing agentId envs (e :: todo) failed := if_pos (by simp)
    have hfail : failed ++ failures answers (e :: todo) =
        (failed ++ if (answers e.2).isError then [e.1] else []) ++ failures answers todo := by
      cases h : (answers e.2).isError <;> simp [failures, h]
    rw [hnext, hfail, List.length_cons, ← Nat.add_assoc, System.drive_step _ step]
    change ∃ host, karr.drive _ _ (w.apply effect) _ = _
    rw [hw]
    exact ih _ _

/-- The first statement of the transaction deletes every row of the agent. -/
theorem delete_rows (agentId : AgentId) (clock : Int) (unlocked : w.locks = [])
    (read : envs = [] → envRows w agentId = []) :
    ∃ effect, karr.step w (.delete (.deleting agentId envs)) (.run clock) =
        some (effect, .delete
          (.rowsDeleted agentId envs ((envRows w agentId).map Environment.id))) ∧
      w.apply effect = { w with locks := (envRows w agentId).map Environment.id } := by
  by_cases he : envs = []
  · refine ⟨.none, ?_, ?_⟩
    · simp [karr, Call.step, deleteStep, he, read he]
    · rw [read he, List.map_nil, ← unlocked]
      rfl
  · refine ⟨.lockRows ((envRows w agentId).map Environment.id), ?_, ?_⟩
    · simp [karr, Call.step, deleteStep, he, unlocked]
    · simp [World.apply, unlocked]

/-- What the commit leaves. -/
structure AgentDropped (w : World) (agentId : AgentId) (w' : World) : Prop where
  agents : w'.agents = w.agents.filter fun a => decide (a ≠ agentId)
  envs : w'.envs = w.envs.filter fun r => decide (r.agentId ≠ agentId)

/-- Once nothing has failed the transaction goes through; the registry comes after it. -/
theorem drive_deleting (answers : ContainerId → Answer) (clock : Int) (removed : Bool) (w : World)
    (fuel : Nat) (ids : ∀ r ∈ w.envs, ∀ s ∈ w.envs, r.id = s.id → r = s) (unlocked : w.locks = [])
    (agentUnlocked : w.agentLocks = []) (read : envs = [] → envRows w agentId = []) :
    ∃ w', karr.drive (answeredThen answers clock removed) (fuel + 4) w
        (.delete (.deleting agentId envs)) =
        (w', .delete (.done (if removed then .ok else .exception))) ∧
      AgentDropped w agentId w' := by
  obtain ⟨effect, rows, hw⟩ := delete_rows agentId clock unlocked read
  have agent : karr.step { w with locks := (envRows w agentId).map Environment.id }
      (.delete (.rowsDeleted agentId envs ((envRows w agentId).map Environment.id)))
      (.run clock) = some (.lockAgent agentId,
        .delete (.agentDeleted agentId envs ((envRows w agentId).map Environment.id))) := by
    have only : (envRows w agentId).filter
        (fun r => decide (r.id ∉ (envRows w agentId).map Environment.id)) = [] := by
      refine List.filter_eq_nil_iff.mpr fun r hr => ?_
      simpa using ⟨r, hr, rfl⟩
    have same (locks : List Nat) : envRows { w with locks := locks } agentId =
      envRows w agentId := rfl
    simp only [karr, Call.step, deleteStep, same, only]
    simp [agentUnlocked]
  obtain ⟨after, hafter⟩ : ∃ after : World, after =
      (({ w with locks := (envRows w agentId).map Environment.id } : World).apply
        (.lockAgent agentId)).apply
          (.dropAgent ((envRows w agentId).map Environment.id) agentId) := ⟨_, rfl⟩
  have dropped : AgentDropped w agentId after := by
    rw [hafter]
    refine ⟨rfl, List.filter_congr fun r hr => ?_⟩
    have mine : r.id ∈ (envRows w agentId).map Environment.id ↔ r.agentId = agentId := by
      constructor
      · intro h
        obtain ⟨t, ht, hid⟩ := List.mem_map.mp h
        obtain ⟨hm, ha⟩ := List.mem_filter.mp ht
        rw [← ids t hm r hr hid]
        exact of_decide_eq_true ha
      · exact fun ha => List.mem_map.mpr ⟨r, List.mem_filter.mpr ⟨hr, decide_eq_true ha⟩, rfl⟩
    simp only [Effect.drops, mine, decide_not]
  have committed : karr.drive (answeredThen answers clock removed) (fuel + 4) w
      (.delete (.deleting agentId envs)) =
      karr.drive (answeredThen answers clock removed) (fuel + 1) after
        (.delete (.committed agentId)) := by
    rw [System.drive_step (fuel + 3) rows]
    change karr.drive _ _ (w.apply effect) _ = _
    rw [hw, System.drive_step (fuel + 2) agent, System.drive_step (fuel + 1) rfl, hafter]
    rfl
  rw [committed]
  cases removed with
  | true =>
    refine ⟨after.apply (.unregister agentId), ?_, dropped.agents, dropped.envs⟩
    rw [System.drive_step fuel rfl, System.drive_stop fuel rfl]
    rfl
  | false =>
    refine ⟨after, ?_, dropped⟩
    rw [System.drive_step fuel rfl, System.drive_stop fuel rfl]
    rfl

theorem failures_eq_nil_iff :
    failures answers todo = [] ↔ ∀ e ∈ todo, (answers e.2).isError = false := by
  simp [failures, List.filter_eq_nil_iff]

/-- The call with everything it is answered: by BONNIE, and by the registry after the commit. -/
def deleteRun (answers : ContainerId → Answer) (clock : Int) (removed force : Bool)
    (agentId : AgentId) (w : World) : World × Call :=
  karr.drive (answeredThen answers clock removed) (7 + (envRows w agentId).length) w
    (.delete (.start agentId force))

theorem deleteAlone_eq (answers : ContainerId → Answer) (clock : Int) (agentId : AgentId)
    (w : World) :
    deleteAlone answers clock agentId w = deleteRun answers clock true true agentId w := by
  rw [deleteRun, answeredThen_true]
  rfl

/-- Nothing stops the call before its transaction. -/
structure Proceeds (answers : ContainerId → Answer) (w : World) (agentId : AgentId)
    (force : Bool) : Prop where
  known : agentId ∈ w.agents
  forced : force = false → envRows w agentId = []
  removable : ∀ r ∈ envRows w agentId, r.containerId ≠ "" →
    agentId ∈ w.clients ∧ (answers r.containerId).isError = false

theorem start_step {force : Bool} (known : agentId ∈ w.agents) :
    karr.step w (.delete (.start agentId force)) (.run clock) =
      some (.none, .delete (.found agentId force)) := by
  simp [karr, Call.step, deleteStep, known]

theorem found_step {force : Bool} (forced : force = false → envRows w agentId = []) :
    karr.step w (.delete (.found agentId force)) (.run clock) =
      some (.none, .delete (.read agentId
        ((envRows w agentId).map fun r => (r.name, r.containerId)))) := by
  have go : ¬ ((envRows w agentId).map (fun r => (r.name, r.containerId)) ≠ [] ∧
      force = false) := by
    rintro ⟨some, unforced⟩
    exact some (by rw [forced unforced]; rfl)
  simp only [karr, Call.step, deleteStep, if_neg go, Option.map_some]

theorem found_refused (rows : envRows w agentId ≠ []) :
    ∃ message, karr.step w (.delete (.found agentId false)) (.run clock) =
      some (.none, .delete (.done (.apiError 409 message))) := by
  refine ⟨"agent has " ++
    toString ((envRows w agentId).map fun r => (r.name, r.containerId)).length ++
    " environment(s); delete them or pass force=true", ?_⟩
  have some : (envRows w agentId).map (fun r => (r.name, r.containerId)) ≠ [] :=
    fun none => rows (List.map_eq_nil_iff.mp none)
  simp only [karr, Call.step, deleteStep, if_pos (And.intro some trivial), Option.map_some]

/-- With a client for the agent the loop over the containers begins; without, nothing is asked. -/
theorem read_step (clock : Int) (htodo : todo = envs.filter fun e => decide (e.2 ≠ "")) :
    karr.step w (.delete (.read agentId envs)) (.run clock) = some (.none, .delete
      (if agentId ∈ w.clients ∨ todo = [] then Delete.next agentId envs todo []
        else couldNotRemove (todo.map Prod.fst))) := by
  simp only [karr, Call.step, deleteStep, ← htodo]
  by_cases none : todo = []
  · rw [if_pos none, if_pos (Or.inr none), none]
    rfl
  · by_cases client : agentId ∈ w.clients
    · rw [if_neg none, if_pos client, if_pos (Or.inl client), Delete.next, if_pos none]
      rfl
    · rw [if_neg none, if_neg client, if_neg (not_or.mpr ⟨client, none⟩)]
      rfl

/-- From the head of the loop the transaction goes through, unless BONNIE fails to remove
one of the containers. -/
theorem drive_next (answers : ContainerId → Answer) (clock : Int) (removed : Bool) {fuel : Nat}
    (ids : ∀ r ∈ w.envs, ∀ s ∈ w.envs, r.id = s.id → r = s) (unlocked : w.locks = [])
    (agentUnlocked : w.agentLocks = []) (read : envs = [] → envRows w agentId = [])
    (length : todo.length ≤ fuel) :
    ((∀ e ∈ todo, (answers e.2).isError = false) ∧ ∃ w',
      karr.drive (answeredThen answers clock removed) (fuel + 4) w
          (.delete (Delete.next agentId envs todo [])) =
        (w', .delete (.done (if removed then .ok else .exception))) ∧
      AgentDropped w agentId w') ∨
    (¬ (∀ e ∈ todo, (answers e.2).isError = false) ∧ ∃ host statusCode message,
      karr.drive (answeredThen answers clock removed) (fuel + 4) w
          (.delete (Delete.next agentId envs todo [])) =
        ({ w with host := host }, .delete (.done (.apiError statusCode message)))) := by
  obtain ⟨spare, rfl⟩ := Nat.exists_eq_add_of_le length
  have fuel : todo.length + spare + 4 = (spare + 4) + todo.length := by omega
  obtain ⟨host, loop⟩ :=
    drive_removing answers clock removed w agentId envs todo [] (spare + 4)
  rw [fuel, loop, List.nil_append, ← failures_eq_nil_iff]
  by_cases none : failures answers todo = []
  · obtain ⟨w', run, dropped⟩ := drive_deleting answers clock removed { w with host := host } spare
      ids unlocked agentUnlocked read
    rw [none]
    exact Or.inl ⟨rfl, w', run, dropped.agents, dropped.envs⟩
  · have stop : Delete.next agentId envs [] (failures answers todo) =
        couldNotRemove (failures answers todo) := if_pos none
    rw [stop, System.drive_stop _ rfl]
    exact Or.inr ⟨none, host, _, _, rfl⟩

/-- The delete that nothing overlaps: it goes through, or refuses with the tables as they were. -/
theorem deleteRun_cases (answers : ContainerId → Answer) (clock : Int) (removed force : Bool)
    (agentId : AgentId) (ids : ∀ r ∈ w.envs, ∀ s ∈ w.envs, r.id = s.id → r = s)
    (unlocked : w.locks = []) (agentUnlocked : w.agentLocks = []) :
    (Proceeds answers w agentId force ∧ ∃ w',
      deleteRun answers clock removed force agentId w =
        (w', .delete (.done (if removed then .ok else .exception))) ∧
      AgentDropped w agentId w') ∨
    (¬ Proceeds answers w agentId force ∧ ∃ host statusCode message,
      deleteRun answers clock removed force agentId w =
        ({ w with host := host }, .delete (.done (.apiError statusCode message)))) := by
  obtain ⟨envs, henvs⟩ : ∃ envs, envs = (envRows w agentId).map fun r => (r.name, r.containerId) :=
    ⟨_, rfl⟩
  obtain ⟨todo, htodo⟩ : ∃ todo, todo = envs.filter fun e => decide (e.2 ≠ "") := ⟨_, rfl⟩
  have mem_todo (r : Environment) (hr : r ∈ envRows w agentId) (hc : r.containerId ≠ "") :
      (r.name, r.containerId) ∈ todo := by
    rw [htodo, henvs]
    exact List.mem_filter.mpr ⟨List.mem_map.mpr ⟨r, hr, rfl⟩, decide_eq_true hc⟩
  have of_todo (e : String × ContainerId) (he : e ∈ todo) :
      ∃ r ∈ envRows w agentId, r.containerId ≠ "" ∧ r.containerId = e.2 := by
    rw [htodo, henvs] at he
    obtain ⟨hm, hne⟩ := List.mem_filter.mp he
    obtain ⟨r, hr, rfl⟩ := List.mem_map.mp hm
    exact ⟨r, hr, of_decide_eq_true hne, rfl⟩
  unfold deleteRun
  by_cases known : agentId ∈ w.agents
  swap
  · have refused : karr.step w (.delete (.start agentId force)) (.run clock) =
        some (.none, .delete (.done (.apiError 404 "agent not found"))) := by
      simp [karr, Call.step, deleteStep, known]
    refine Or.inr ⟨fun go => known go.known, w.host, 404, "agent not found", ?_⟩
    rw [Nat.add_right_comm 6 1, System.drive_step _ refused, System.drive_stop _ rfl]
    rfl
  rw [Nat.add_comm 7, System.drive_step (_ + 6) (start_step known)]
  change (_ ∧ ∃ w', karr.drive _ _ w _ = _ ∧ _) ∨ (_ ∧ ∃ host statusCode message,
    karr.drive _ _ w _ = _)
  by_cases forced : force = false → envRows w agentId = []
  swap
  · push Not at forced
    obtain ⟨rfl, rows⟩ := forced
    obtain ⟨message, refused⟩ := found_refused rows
    refine Or.inr ⟨fun go => rows (go.forced rfl), w.host, 409, message, ?_⟩
    rw [System.drive_step (_ + 5) refused, System.drive_stop _ rfl]
    rfl
  rw [System.drive_step (_ + 5) (found_step forced)]
  change (_ ∧ ∃ w', karr.drive _ _ w _ = _ ∧ _) ∨ (_ ∧ ∃ host statusCode message,
    karr.drive _ _ w _ = _)
  rw [← henvs, System.drive_step (_ + 4) (read_step clock htodo)]
  change (_ ∧ ∃ w', karr.drive _ _ w _ = _ ∧ _) ∨ (_ ∧ ∃ host statusCode message,
    karr.drive _ _ w _ = _)
  by_cases client : agentId ∈ w.clients ∨ todo = []
  swap
  · rw [if_neg client, System.drive_stop _ rfl]
    refine Or.inr ⟨fun go => client ?_, w.host, _, _, rfl⟩
    by_cases none : todo = []
    · exact Or.inr none
    · obtain ⟨e, he⟩ := List.exists_mem_of_ne_nil todo none
      obtain ⟨r, hr, hc, _⟩ := of_todo e he
      exact Or.inl (go.removable r hr hc).1
  have length : todo.length ≤ (envRows w agentId).length := by
    rw [htodo, henvs]
    exact Nat.le_trans (List.length_filter_le _ _) (Nat.le_of_eq (List.length_map _))
  have read : envs = [] → envRows w agentId = [] := by
    intro h
    rw [henvs] at h
    exact List.map_eq_nil_iff.mp h
  rw [if_pos client]
  rcases drive_next answers clock removed ids unlocked agentUnlocked read length with
    ⟨gone, w', run, dropped⟩ | ⟨left, host, statusCode, message, run⟩
  · refine Or.inl ⟨⟨known, forced, fun r hr hc => ?_⟩, w', run, dropped⟩
    have he := mem_todo r hr hc
    exact ⟨client.resolve_right fun h => by simp [h] at he, gone _ he⟩
  · refine Or.inr ⟨fun go => left fun e he => ?_, host, statusCode, message, run⟩
    obtain ⟨r, hr, hc, same⟩ := of_todo e he
    rw [← same]
    exact (go.removable r hr hc).2

/-- The forced delete goes through where BONNIE answers for every container with success or
not-found. -/
theorem forcedDeletes_iff (ready : Deletable w agentId) :
    ForcedDeletes answers clock w agentId ↔
      ∀ r ∈ envRows w agentId, r.containerId ≠ "" → (answers r.containerId).isError = false := by
  unfold ForcedDeletes
  rw [deleteAlone_eq]
  rcases deleteRun_cases answers clock true true agentId ready.ids ready.unlocked
    ready.agentUnlocked with ⟨go, w', run, dropped⟩ | ⟨stop, host, statusCode, message, run⟩
  · rw [run]
    refine iff_of_true ⟨rfl, ?_, ?_⟩ fun r hr hc => (go.removable r hr hc).2
    · rw [dropped.agents]
      simp
    · rw [dropped.envs]
      exact fun r hr => of_decide_eq_true (List.mem_filter.mp hr).2
  · rw [run]
    refine iff_of_false (fun h => by cases h.1) fun removable => stop ?_
    exact {
      known := ready.known
      forced := fun unforced => by cases unforced
      removable := fun r hr hc => ⟨ready.client, removable r hr hc⟩ }

end Delete

/-- A forced delete agrees with the deletes of the rows one by one, except where BONNIE
fails to remove a container and every row it fails for says that the container is missing. -/
theorem forcedDelete_agrees_iff {answers : ContainerId → Answer} {clock : Int} {w : World}
    {agentId : AgentId} (ready : Deletable w agentId) :
    ((∀ r ∈ envRows w agentId, Removes answers clock w r) →
        ForcedDeletes answers clock w agentId) ↔
      (∀ r ∈ envRows w agentId, r.containerId ≠ "" → (answers r.containerId).isError = false) ∨
      ∃ r ∈ envRows w agentId, r.containerId ≠ "" ∧ (answers r.containerId).isError = true ∧
        r.statusMessage ≠ containerMissing := by
  rw [forcedDeletes_iff ready]
  constructor
  · intro agrees
    by_cases removable : ∀ r ∈ envRows w agentId, Removes answers clock w r
    · exact Or.inl (agrees removable)
    · push Not at removable
      obtain ⟨r, hr, hno⟩ := removable
      rw [removes_iff ready hr] at hno
      push Not at hno
      exact Or.inr ⟨r, hr, hno⟩
  · rintro (none | ⟨r, hr, hc, error, hne⟩) removable
    · exact none
    · exact absurd ((removes_iff ready hr).mp (removable r hr) hc error) hne

/-- Two environments of an agent, each with its container. -/
def twoContainers : World where
  now := 0
  agents := [1]
  projects := []
  envs := [⟨0, none, 1, "env-1", "image", "c1", .stopped, "", false, [], [], [], 0⟩,
    ⟨1, none, 1, "env-2", "image", "c2", .stopped, "", false, [], [], [], 0⟩]
  nextEnv := 2
  locks := []
  agentLocks := []
  clients := [1]
  host := [⟨1, "c1", "env-1", some .exited, some 0⟩, ⟨1, "c2", "env-2", some .exited, some 1⟩]

theorem twoContainers_deletable : Deletable twoContainers 1 :=
  ⟨by decide, by decide, by decide, by decide, rfl, rfl⟩

/-- BONNIE fails to remove this container and removes every other. -/
def failsFor (id : ContainerId) : ContainerId → Answer :=
  fun other => if other = id then .error "failed to remove container" else .ok

/-- BONNIE removes both containers. -/
theorem forcedDelete_agrees_iff_removed :
    (∀ r ∈ envRows twoContainers 1, Removes (failsFor "c3") 0 twoContainers r) ∧
      ForcedDeletes (failsFor "c3") 0 twoContainers 1 := by
  have whole : ∀ r ∈ envRows twoContainers 1, r.containerId ≠ "" →
      (failsFor "c3" r.containerId).isError = false := by decide
  have removes : ∀ r ∈ envRows twoContainers 1, Removes (failsFor "c3") 0 twoContainers r := by
    intro r hr
    refine (removes_iff twoContainers_deletable hr).mpr fun told error => ?_
    rw [whole r hr told] at error
    cases error
  exact ⟨removes, (forcedDelete_agrees_iff twoContainers_deletable).mpr (Or.inl whole) removes⟩

def ForcedDeleteAgrees : Prop :=
  ∀ (answers : ContainerId → Answer) (clock : Int) (w : World) (agentId : AgentId),
    Deletable w agentId → (∀ r ∈ envRows w agentId, Removes answers clock w r) →
      ForcedDeletes answers clock w agentId

/-- A forced delete removes `c1` and fails for `c2`; a pass marks the first row missing. -/
def halfDeleted : World :=
  let w := (deleteAlone (failsFor "c2") 0 1 twoContainers).1
  (reconcileAgent 1 (listContainers 1 w.host) 0 true w).1

/-- On the retry BONNIE would remove `c2`, but fails for `c1`, which it no longer has. -/
theorem not_forcedDeleteAgrees : ¬ ForcedDeleteAgrees := by
  intro agrees
  have ready : Deletable halfDeleted 1 := ⟨by decide, by decide, by decide, by decide, rfl, rfl⟩
  have done := agrees (failsFor "c1") 0 halfDeleted 1 ready (by decide)
  exact absurd done.1 (by decide)

end Karr
