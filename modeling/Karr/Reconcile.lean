import Karr.Invariants.Rows
import Karr.Lib.Solo

/-!
# What one reconcile pass does

A pass that nothing overlaps replaces each row of its agent by what the loop
body makes of it, and leaves every other row alone. The laws of the pass follow
from the five branches of that body.
-/

set_option autoImplicit false

namespace Karr

open Interleaving

/-- `reconcile_agent(agent_id, containers)` at this clock, with nothing else going on. -/
def reconcileAgent (agentId : AgentId) (containers : List ContainerInfo) (clock : Int)
    (strict : Bool) (w : World) : World × Call :=
  karr.drive
    (fun p =>
      match p with
      | .pass (.loaded _ _) => .flush strict
      | _ => .run clock)
    2 w (.pass (.listed agentId containers))

/-- A row after the pass. -/
def reconciled (agentId : AgentId) (containers : List ContainerInfo) (clock : Int)
    (r : Environment) : Environment :=
  if r.agentId = agentId then (reconcileRow clock containers r).getD r else r

/-- The rows that one run of the pass with this result leaves. -/
structure Reconciled (agentId : AgentId) (containers : List ContainerInfo) (clock : Int)
    (w w' : World) (n : Nat) : Prop where
  /-- No row appears, disappears or moves, and nothing but the table changes. -/
  rows : w'.envs.map Environment.id = w.envs.map Environment.id
  rest : w' = { w with envs := w'.envs }
  other : ∀ r ∈ w.envs, r.agentId ≠ agentId → r ∈ w'.envs
  inFlight : ∀ r ∈ w.envs, r.status = .creating → age r clock < createGrace → r ∈ w'.envs
  bare : ∀ r ∈ w.envs, r.status ≠ .creating → r.containerId = "" → r ∈ w'.envs
  settled : ∀ r ∈ w'.envs, r.agentId = agentId → createGrace ≤ age r clock → r.status ≠ .creating
  listed : ∀ r ∈ w'.envs, r.agentId = agentId → r.containerId ≠ "" →
    ∀ c ∈ containers, c.id = r.containerId → (r.status, r.statusMessage) = observed (some c)
  absent : ∀ r ∈ w'.envs, r.agentId = agentId → r.containerId ≠ "" →
    (∀ c ∈ containers, c.id ≠ r.containerId) → (r.status, r.statusMessage) = observed none
  columns : ∀ r ∈ w.envs, ∀ r' ∈ w'.envs, r'.id = r.id →
    r' = { r with
      status := r'.status
      statusMessage := r'.statusMessage
      containerId := if r.status = .creating then r'.containerId else r.containerId }
  count : n = (w.envs.filter fun r => decide (r ∉ w'.envs)).length

/-! ## The loop body -/

section Body
variable {agentId : AgentId} {containers : List ContainerInfo} {clock : Int}
  {env new r : Environment}

theorem ReconcileRule.write (h : ReconcileRule clock containers env new) :
    Change.write ⟨env, new⟩ env = new := by
  cases h <;> simp +contextual [Change.write, eq_comm]

/-- The loop body assigns to three columns, to the last of them in creation only. -/
theorem ReconcileRule.columns (h : ReconcileRule clock containers env new) :
    new = { env with
      status := new.status
      statusMessage := new.statusMessage
      containerId := if env.status = .creating then new.containerId else env.containerId } := by
  cases h with
  | abandon => simp
  | adopt creating => simp [creating]
  | observe settled => simp [settled]

theorem reconcileRow_ne (h : reconcileRow clock containers env = some new) : new ≠ env := by
  intro same
  have hs := congrArg Environment.status same
  have hm := congrArg Environment.statusMessage same
  revert h
  fun_cases reconcileRow clock containers env <;> intro h <;> cases h
  case case2 creating _ _ => cases hs.trans creating
  case case3 creating _ container _ => exact observed_ne_creating _ (hs.trans creating)
  case case5 changed => exact changed.elim (fun h => h hs.symm) (fun h => h hm.symm)

theorem reconcileRow_eq_none (young : env.status = .creating → age env clock < createGrace)
    (seen : env.status ≠ .creating → env.containerId ≠ "" → (env.status, env.statusMessage) =
      observed (Python.dictGet ContainerInfo.id containers env.containerId)) :
    reconcileRow clock containers env = none := by
  fun_cases reconcileRow clock containers env
  case case1 => rfl
  case case2 creating old _ => exact absurd (young creating) old
  case case3 creating old _ _ => exact absurd (young creating) old
  case case4 => rfl
  case case5 settled container result changed =>
    have same := seen settled container
    exact absurd changed
      (not_or.mpr ⟨not_not.mpr (congrArg Prod.fst same), not_not.mpr (congrArg Prod.snd same)⟩)
  case case6 => rfl

/-- A row in creation that is old enough is settled by the loop body. -/
theorem reconcileRow_settles (old : createGrace ≤ age r clock) :
    ((reconcileRow clock containers r).getD r).status ≠ .creating := by
  fun_cases reconcileRow clock containers r
  case case1 young => omega
  case case2 => simp
  case case3 => exact observed_ne_creating _
  case case4 settled _ => exact settled
  case case5 => exact observed_ne_creating _
  case case6 settled _ _ _ => exact settled

/-- Afterwards a row with a container id says what was observed of that container; one that
was adopted by name is found by its id. -/
theorem reconcileRow_observed (distinct : (containers.map ContainerInfo.id).Nodup)
    (bare : r.status = .creating → r.containerId = "")
    (container : ((reconcileRow clock containers r).getD r).containerId ≠ "") :
    (((reconcileRow clock containers r).getD r).status,
        ((reconcileRow clock containers r).getD r).statusMessage) =
      observed (Python.dictGet ContainerInfo.id containers
        ((reconcileRow clock containers r).getD r).containerId) := by
  revert container
  fun_cases reconcileRow clock containers r <;> intro container
  case case1 creating _ => exact absurd (bare creating) container
  case case2 creating _ _ => exact absurd (bare creating) container
  case case3 found =>
    simp only [Option.getD_some]
    rw [Python.dictGet_of_mem distinct (Python.mem_of_dictGet found).1]
  case case4 empty => exact absurd empty container
  case case5 => rfl
  case case6 unchanged =>
    obtain ⟨hs, hm⟩ := not_or.mp unchanged
    exact Prod.ext (not_not.mp hs) (not_not.mp hm)

theorem reconcileRow_again (distinct : (containers.map ContainerInfo.id).Nodup)
    (bare : r.status = .creating → r.containerId = "") :
    reconcileRow clock containers ((reconcileRow clock containers r).getD r) = none := by
  cases h : reconcileRow clock containers r with
  | none => exact h
  | some new =>
    have hr := reconcileRow_rule h
    have settled : new.status ≠ .creating := by
      cases hr with
      | abandon => simp
      | adopt => exact observed_ne_creating _
      | observe => exact observed_ne_creating _
    refine reconcileRow_eq_none (fun creating => absurd creating settled) fun _ hne => ?_
    have seen := @reconcileRow_observed containers clock r distinct bare
    rw [h] at seen
    exact seen hne

end Body

/-! ## The whole pass -/

section Pass
variable {agentId : AgentId} {containers : List ContainerInfo} {clock : Int} {w : World}

theorem reconciled_columns (r : Environment) :
    reconciled agentId containers clock r =
      { r with
        status := (reconciled agentId containers clock r).status
        statusMessage := (reconciled agentId containers clock r).statusMessage
        containerId :=
          if r.status = .creating then (reconciled agentId containers clock r).containerId
          else r.containerId } := by
  unfold reconciled
  split
  · cases h : reconcileRow clock containers r with
    | none => simp
    | some new => exact (reconcileRow_rule h).columns
  · simp

theorem reconciled_sameKey (r : Environment) :
    SameKey (reconciled agentId containers clock r) r := by
  rw [reconciled_columns]
  exact ⟨rfl, rfl, rfl, rfl⟩

theorem updateRow_reconcile (ids : ∀ r ∈ w.envs, ∀ s ∈ w.envs, r.id = s.id → r = s)
    {r : Environment} (hr : r ∈ w.envs) :
    Effect.updateRow (.flush (reconcileChanges clock containers (envRows w agentId))) r =
      reconciled agentId containers clock r := by
  unfold reconciled
  cases hfind : (reconcileChanges clock containers (envRows w agentId)).find?
      fun c => decide (c.loaded.id = r.id) with
  | none =>
    simp only [Effect.updateRow, hfind]
    split
    · rename_i ha
      cases h : reconcileRow clock containers r with
      | none => rfl
      | some new =>
        have hmem : Change.mk r new ∈ reconcileChanges clock containers (envRows w agentId) :=
          List.mem_filterMap.mpr ⟨r, List.mem_filter.mpr ⟨hr, decide_eq_true ha⟩, by simp [h]⟩
        exact absurd (decide_eq_true rfl) (List.find?_eq_none.mp hfind _ hmem)
    · rfl
  | some c =>
    simp only [Effect.updateRow, hfind]
    obtain ⟨hm, hc⟩ := mem_reconcileChanges (List.mem_of_find?_eq_some hfind)
    obtain ⟨henv, ha⟩ := List.mem_filter.mp hm
    have hid : c.loaded.id = r.id := by simpa using List.find?_some hfind
    obtain rfl := ids c.loaded henv r hr hid
    rw [if_pos (of_decide_eq_true ha), hc]
    exact (reconcileRow_rule hc).write

theorem reconcileChanges_length (rows : List Environment) :
    (reconcileChanges clock containers rows).length =
      (rows.filter fun r => (reconcileRow clock containers r).isSome).length := by
  unfold reconcileChanges
  rw [List.length_filterMap_eq_countP, List.countP_eq_length_filter]
  simp

/-- Nothing stops the pass: it returns how many rows it assigned to. -/
theorem reconcileAgent_eq (strict : Bool) (unlocked : w.locks = [])
    (ids : ∀ r ∈ w.envs, ∀ s ∈ w.envs, r.id = s.id → r = s) :
    reconcileAgent agentId containers clock strict w =
      ({ w with envs := w.envs.map (reconciled agentId containers clock) },
        .pass (.done .ok (reconcileChanges clock containers (envRows w agentId)).length)) := by
  have written : w.envs.map
      (Effect.updateRow (.flush (reconcileChanges clock containers (envRows w agentId)))) =
      w.envs.map (reconciled agentId containers clock) :=
    List.map_congr_left fun r hr => updateRow_reconcile ids hr
  unfold reconcileAgent
  by_cases hc : reconcileChanges clock containers (envRows w agentId) = []
  · have listed : karr.step w (.pass (.listed agentId containers)) (.run clock) =
        some (.none, .pass (.done .ok 0)) := by
      simp only [envRows] at hc
      simp [karr, Call.step, passStep, hc]
    rw [System.drive_step 1 listed, System.drive_stop 1 rfl, ← written, hc]
    have idle : Effect.updateRow (.flush []) = id := funext fun _ => rfl
    simp [karr, World.apply, idle]
  · have listed : karr.step w (.pass (.listed agentId containers)) (.run clock) =
        some (.none, .pass (.loaded agentId
          (reconcileChanges clock containers (envRows w agentId)))) := by
      simp only [envRows] at hc ⊢
      simp [karr, Call.step, passStep, hc]
    have flushed : karr.step w
        (.pass (.loaded agentId (reconcileChanges clock containers (envRows w agentId))))
        (.flush strict) =
        some (.flush (reconcileChanges clock containers (envRows w agentId)), .pass (.done .ok
          (reconcileChanges clock containers (envRows w agentId)).length)) := by
      have there : ¬ ((strict && (reconcileChanges clock containers (envRows w agentId)).any
          fun c => (w.find c.loaded.id).isNone) = true) := by
        simp only [Bool.and_eq_true, List.any_eq_true, Option.isNone_iff_eq_none, not_and]
        rintro - ⟨c, hc, hgone⟩
        have hm := (List.mem_filter.mp (mem_reconcileChanges hc).1).1
        exact absurd (decide_eq_true rfl) (List.find?_eq_none.mp hgone c.loaded hm)
      simp only [karr, Call.step, passStep, unlocked, if_neg there]
      simp
    rw [System.drive_step 1 listed]
    change karr.drive _ 1 w _ = _
    rw [System.drive_step 0 flushed]
    simp only [System.drive, karr, World.apply, World.update, written]

theorem reconciled_id_inj (ids : ∀ r ∈ w.envs, ∀ s ∈ w.envs, r.id = s.id → r = s) :
    ∀ r' ∈ w.envs.map (reconciled agentId containers clock),
      ∀ s' ∈ w.envs.map (reconciled agentId containers clock), r'.id = s'.id → r' = s' := by
  intro r' hr' s' hs' hid
  obtain ⟨r, hr, rfl⟩ := List.mem_map.mp hr'
  obtain ⟨s, hs, rfl⟩ := List.mem_map.mp hs'
  rw [ids r hr s hs (by rw [← (reconciled_sameKey r).id, hid, (reconciled_sameKey s).id])]

theorem reconciled_of_none {r : Environment} (h : reconcileRow clock containers r = none) :
    reconciled agentId containers clock r = r := by
  simp [reconciled, h]

/-- A pass changes the rows it assigns to, and no others. -/
theorem reconciled_ne_iff (r : Environment) :
    reconciled agentId containers clock r ≠ r ↔
      r.agentId = agentId ∧ (reconcileRow clock containers r).isSome = true := by
  unfold reconciled
  split
  · rename_i ha
    cases h : reconcileRow clock containers r with
    | none => simp
    | some new => simpa [ha] using reconcileRow_ne h
  · rename_i ha
    simp [ha]

theorem not_mem_reconciled_iff (ids : ∀ r ∈ w.envs, ∀ s ∈ w.envs, r.id = s.id → r = s)
    {r : Environment} (hr : r ∈ w.envs) :
    r ∉ w.envs.map (reconciled agentId containers clock) ↔
      reconciled agentId containers clock r ≠ r := by
  refine not_congr ⟨fun h => ?_, fun h => List.mem_map.mpr ⟨r, hr, h⟩⟩
  obtain ⟨s, hs, rfl⟩ := List.mem_map.mp h
  have same := ids s hs _ hr (reconciled_sameKey s).id.symm
  rw [← same]
  exact same.symm

theorem reconcileRow_reconciled (distinct : (containers.map ContainerInfo.id).Nodup)
    {r : Environment} (bare : r.status = .creating → r.containerId = "")
    (ha : r.agentId = agentId) :
    reconcileRow clock containers (reconciled agentId containers clock r) = none := by
  simp only [reconciled, ha, if_true]
  exact reconcileRow_again distinct bare

theorem reconciled_again (distinct : (containers.map ContainerInfo.id).Nodup) {r : Environment}
    (bare : r.status = .creating → r.containerId = "") :
    reconciled agentId containers clock (reconciled agentId containers clock r) =
      reconciled agentId containers clock r := by
  by_cases ha : r.agentId = agentId
  · exact reconciled_of_none (reconcileRow_reconciled distinct bare ha)
  · simp [reconciled, ha]

theorem reconciled_observed (distinct : (containers.map ContainerInfo.id).Nodup)
    {r : Environment} (bare : r.status = .creating → r.containerId = "")
    (ha : r.agentId = agentId)
    (hne : (reconciled agentId containers clock r).containerId ≠ "") :
    ((reconciled agentId containers clock r).status,
        (reconciled agentId containers clock r).statusMessage) =
      observed (Python.dictGet ContainerInfo.id containers
        (reconciled agentId containers clock r).containerId) := by
  simp only [reconciled, ha, if_true] at hne ⊢
  exact reconcileRow_observed distinct bare hne

/-- The laws of the pass, for what it makes of each row. -/
theorem reconciled_laws (ids : ∀ r ∈ w.envs, ∀ s ∈ w.envs, r.id = s.id → r = s)
    (bare : ∀ r ∈ w.envs, r.status = .creating → r.containerId = "")
    (distinct : (containers.map ContainerInfo.id).Nodup) :
    Reconciled agentId containers clock w
      { w with envs := w.envs.map (reconciled agentId containers clock) }
      (reconcileChanges clock containers (envRows w agentId)).length := by
  have kept {r : Environment} (hr : r ∈ w.envs)
      (h : reconciled agentId containers clock r = r) :
      r ∈ w.envs.map (reconciled agentId containers clock) := List.mem_map.mpr ⟨r, hr, h⟩
  refine ⟨?_, rfl, ?_, ?_, ?_, ?_, ?_, ?_, ?_, ?_⟩
  · rw [List.map_map]
    exact List.map_congr_left fun r _ => (reconciled_sameKey r).id
  · intro r hr ha
    exact kept hr (if_neg ha)
  · intro r hr creating young
    exact kept hr (reconciled_of_none (by simp [reconcileRow, creating, young]))
  · intro r hr settled empty
    exact kept hr (reconciled_of_none (by simp [reconcileRow, settled, empty]))
  · intro r' hr' ha old
    obtain ⟨r, hr, rfl⟩ := List.mem_map.mp hr'
    have key : SameKey (reconciled agentId containers clock r) r := reconciled_sameKey r
    rw [key.agentId] at ha
    simp only [age, key.createdAt] at old
    simp only [reconciled, ha, if_true]
    exact reconcileRow_settles old
  · intro r' hr' ha hne c hc hid
    obtain ⟨r, hr, rfl⟩ := List.mem_map.mp hr'
    rw [(reconciled_sameKey r).agentId] at ha
    rw [reconciled_observed distinct (bare r hr) ha hne, ← hid,
      Python.dictGet_of_mem distinct hc]
  · intro r' hr' ha hne hnone
    obtain ⟨r, hr, rfl⟩ := List.mem_map.mp hr'
    rw [(reconciled_sameKey r).agentId] at ha
    rw [reconciled_observed distinct (bare r hr) ha hne]
    cases found : Python.dictGet ContainerInfo.id containers
        (reconciled agentId containers clock r).containerId with
    | none => rfl
    | some c =>
      obtain ⟨hc, hid⟩ := Python.mem_of_dictGet found
      exact absurd hid (hnone c hc)
  · intro r hr r' hr' hid
    obtain ⟨s, hs, rfl⟩ := List.mem_map.mp hr'
    obtain rfl := ids s hs r hr ((reconciled_sameKey s).id.symm.trans hid)
    exact reconciled_columns s
  · rw [reconcileChanges_length, envRows, List.filter_filter]
    congr 1
    refine List.filter_congr fun r hr => ?_
    rw [Bool.eq_iff_iff, Bool.and_eq_true, decide_eq_true_iff, decide_eq_true_iff,
      not_mem_reconciled_iff ids hr, reconciled_ne_iff, and_comm]

end Pass

/-- The laws of a pass that nothing overlaps; running it again does nothing. -/
theorem reconcile_laws (agentId : AgentId) (containers : List ContainerInfo) (clock : Int)
    (strict : Bool) (w : World) (unlocked : w.locks = [])
    (ids : ∀ r ∈ w.envs, ∀ s ∈ w.envs, r.id = s.id → r = s)
    (bare : ∀ r ∈ w.envs, r.status = .creating → r.containerId = "")
    (distinct : (containers.map ContainerInfo.id).Nodup) :
    ∃ w' n, reconcileAgent agentId containers clock strict w = (w', .pass (.done .ok n)) ∧
      Reconciled agentId containers clock w w' n ∧
      reconcileAgent agentId containers clock strict w' = (w', .pass (.done .ok 0)) := by
  refine ⟨_, _, reconcileAgent_eq strict unlocked ids, reconciled_laws ids bare distinct, ?_⟩
  rw [reconcileAgent_eq strict]
  · have rows : (w.envs.map (reconciled agentId containers clock)).map
        (reconciled agentId containers clock) =
        w.envs.map (reconciled agentId containers clock) := by
      rw [List.map_map]
      exact List.map_congr_left fun r hr => reconciled_again distinct (bare r hr)
    have none : reconcileChanges clock containers
        (envRows { w with envs := w.envs.map (reconciled agentId containers clock) } agentId) =
        [] := by
      refine List.filterMap_eq_nil_iff.mpr fun r' hr' => ?_
      obtain ⟨hm, ha⟩ := List.mem_filter.mp hr'
      obtain ⟨r, hr, rfl⟩ := List.mem_map.mp hm
      rw [reconcileRow_reconciled distinct (bare r hr)
        ((reconciled_sameKey r).agentId.symm.trans (of_decide_eq_true ha))]
      rfl
    simp only [rows, none, List.length_nil]
  · exact unlocked
  · exact reconciled_id_inj ids

/-- A row whose create a crash cut off, adopted by name, and one whose container is gone. -/
def crashedRows : World where
  now := 0
  agents := [1]
  projects := []
  envs := [⟨0, none, 1, "env", "image", "", .creating, "", false, [], [], [], 0⟩,
    ⟨1, none, 1, "other", "image", "c2", .running, "", false, [], [], [], 0⟩]
  nextEnv := 2
  locks := []
  agentLocks := []
  clients := [1]
  host := []

theorem reconcile_laws_adopted :
    ∃ w' n, reconcileAgent 1 [⟨"c1", "env", .running⟩] createGrace true crashedRows =
        (w', .pass (.done .ok n)) ∧
      Reconciled 1 [⟨"c1", "env", .running⟩] createGrace crashedRows w' n ∧
      reconcileAgent 1 [⟨"c1", "env", .running⟩] createGrace true w' =
        (w', .pass (.done .ok 0)) :=
  reconcile_laws 1 [⟨"c1", "env", .running⟩] createGrace true crashedRows rfl (by decide)
    (by decide) (by decide)

end Karr
