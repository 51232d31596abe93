import Karr.Invariants.Rows

/-!
# Containers on the hosts

What is assumed of BONNIE, as conditions on the steps it answers: it hands out
ids no container of the host ever had, the name of a new container is free, and
a list shows the host as it is. A record of a container is never lost, so a
link from a row to a container can only break when the container goes.
-/

set_option autoImplicit false

namespace Karr

open Interleaving

/-- A new container has a new id and a name no container on the host has. -/
def FreshContainer (w : World) : Effect → Prop
  | .addContainer new => new.id ≠ "" ∧ ∀ c ∈ w.host, c.agentId = new.agentId →
      c.id ≠ new.id ∧ (c.state ≠ none → c.name ≠ new.name)
  | _ => True

instance (w : World) (e : Effect) : Decidable (FreshContainer w e) := by
  cases e <;> unfold FreshContainer <;> infer_instance

/-- The list a pass is given is the list of the containers on the host. -/
def HonestList (c : Config) : Action → Prop
  | .proc k (.listed containers) => ∀ p ∈ c.procs[k]?, ∀ agentId, p = .pass (.start agentId) →
      containers = listContainers agentId c.store.host
  | _ => True

/-- The answers of BONNIE, as the hosts bear them out. -/
def Bonnie (c : Config) (a : Action) : Prop :=
  (∀ e ∈ karr.effect c a, FreshContainer c.store e) ∧ HonestList c a

def listsHonestly (c : Config) : Action → Bool
  | .proc k (.listed containers) =>
    match c.procs[k]? with
    | some (.pass (.start agentId)) => decide (containers = listContainers agentId c.store.host)
    | _ => true
  | _ => true

theorem listsHonestly_iff (c : Config) (a : Action) : listsHonestly c a = true ↔ HonestList c a := by
  unfold listsHonestly HonestList
  split
  · split
    · rename_i hp
      simp [hp]
    · rename_i other
      simp only [true_iff, Option.mem_def]
      rintro p hp agentId rfl
      exact absurd hp (other agentId)
  · simp

instance (c : Config) (a : Action) : Decidable (HonestList c a) :=
  decidable_of_iff _ (listsHonestly_iff c a)

instance (c : Config) (a : Action) : Decidable (Bonnie c a) :=
  inferInstanceAs (Decidable ((∀ e ∈ _, FreshContainer _ e) ∧ HonestList c a))

theorem Bonnie.fresh {c : Config} {k : Nat} {i : Input} {p p' : Call} {e : Effect}
    (h : Bonnie c (.proc k i)) (hp : c.procs[k]? = some p)
    (hs : karr.step c.store p i = some (e, p')) : FreshContainer c.store e :=
  h.1 e (System.effect_proc hp hs)

theorem Bonnie.honest {c : Config} {k : Nat} {containers : List ContainerInfo} {agentId : AgentId}
    (h : Bonnie c (.proc k (.listed containers)))
    (hp : c.procs[k]? = some (.pass (.start agentId))) :
    containers = listContainers agentId c.store.host :=
  h.2 _ hp agentId rfl

/-! ## Records -/

/-- What an effect does to the record of a container. -/
def Effect.updateContainer : Effect → Container → Container
  | .setContainer agentId id state => Container.update agentId id (some state)
  | .removeContainer agentId id => Container.update agentId id Option.none
  | _ => id

structure SameRecord (c d : Container) : Prop where
  agentId : c.agentId = d.agentId
  id : c.id = d.id
  name : c.name = d.name
  origin : c.origin = d.origin

theorem update_sameRecord (agentId : AgentId) (id : ContainerId) (state : Option ContainerState)
    (c : Container) : SameRecord (c.update agentId id state) c := by
  unfold Container.update
  split <;> exact ⟨rfl, rfl, rfl, rfl⟩

theorem updateContainer_sameRecord (e : Effect) (c : Container) :
    SameRecord (e.updateContainer c) c := by
  cases e <;> first
    | exact update_sameRecord _ _ _ c
    | exact ⟨rfl, rfl, rfl, rfl⟩

theorem updateContainer_state {e : Effect} {c : Container} (h : (e.updateContainer c).state ≠ none) :
    c.state ≠ none := by
  intro hc
  cases e <;> simp_all [Effect.updateContainer, Container.update]

theorem mem_host_apply {w : World} {e : Effect} {d : Container} :
    d ∈ (w.apply e).host ↔ e = .addContainer d ∨ ∃ c ∈ w.host, e.updateContainer c = d := by
  cases e
  case addContainer c =>
    simp only [World.apply, List.mem_append, List.mem_singleton, Effect.addContainer.injEq,
      Effect.updateContainer, id_eq, exists_eq_right]
    exact ⟨fun h => h.symm.imp_left Eq.symm, fun h => h.symm.imp_right Eq.symm⟩
  all_goals simp [World.apply, World.update, World.drop, Effect.updateContainer]

/-- The host has, or had, a container with this id and name. -/
def Linked (host : List Container) (agentId : AgentId) (id : ContainerId) (name : String) : Prop :=
  ∃ c ∈ host, c.agentId = agentId ∧ c.id = id ∧ c.name = name

theorem linked_apply {w : World} {agentId : AgentId} {id : ContainerId} {name : String}
    (h : Linked w.host agentId id name) (e : Effect) :
    Linked (w.apply e).host agentId id name := by
  obtain ⟨c, hc, ha, hi, hn⟩ := h
  have same := updateContainer_sameRecord e c
  exact ⟨e.updateContainer c, mem_host_apply.mpr (Or.inr ⟨c, hc, rfl⟩), same.agentId.trans ha,
    same.id.trans hi, same.name.trans hn⟩

theorem linked_add {w : World} (c : Container) :
    Linked (w.apply (.addContainer c)).host c.agentId c.id c.name :=
  ⟨c, mem_host_apply.mpr (Or.inl rfl), rfl, rfl, rfl⟩

theorem mem_listContainers {agentId : AgentId} {host : List Container} {info : ContainerInfo} :
    info ∈ listContainers agentId host ↔
      ∃ c ∈ host, c.agentId = agentId ∧ c.id = info.id ∧ c.name = info.name ∧
        c.state = some info.state := by
  unfold listContainers
  rw [List.mem_filterMap]
  refine exists_congr fun c => and_congr_right fun _ => ?_
  split
  · rename_i ha
    cases hs : c.state with
    | none => simp
    | some state =>
      cases info
      simp [ha]
  · rename_i ha
    simp [ha]

/-- Ids are unique among all containers a host has had, names among those it has. -/
structure HostOk (w : World) : Prop where
  id_ne : ∀ c ∈ w.host, c.id ≠ ""
  id_inj : ∀ c ∈ w.host, ∀ d ∈ w.host, c.agentId = d.agentId → c.id = d.id → c = d
  name_inj : ∀ c ∈ w.host, ∀ d ∈ w.host, c.agentId = d.agentId → c.name = d.name →
    c.state ≠ none → d.state ≠ none → c = d

theorem hostOk_apply {w : World} {e : Effect} (h : HostOk w) (fresh : FreshContainer w e) :
    HostOk (w.apply e) := by
  have old (c : Container) := updateContainer_sameRecord e c
  refine ⟨?_, ?_, ?_⟩
  · intro c' hc'
    rcases mem_host_apply.mp hc' with rfl | ⟨c, hc, rfl⟩
    · exact fresh.1
    · rw [(old c).id]
      exact h.id_ne c hc
  · intro c' hc' d' hd' ha hid
    rcases mem_host_apply.mp hc' with rfl | ⟨c, hc, rfl⟩ <;>
      rcases mem_host_apply.mp hd' with he | ⟨d, hd, rfl⟩
    · exact Effect.addContainer.inj he
    · exact absurd hid.symm (fresh.2 d hd ha.symm).1
    · subst he
      exact absurd hid (fresh.2 c hc ha).1
    · rw [(old c).agentId, (old d).agentId] at ha
      rw [(old c).id, (old d).id] at hid
      rw [h.id_inj c hc d hd ha hid]
  · intro c' hc' d' hd' ha hn sc sd
    rcases mem_host_apply.mp hc' with rfl | ⟨c, hc, rfl⟩ <;>
      rcases mem_host_apply.mp hd' with he | ⟨d, hd, rfl⟩
    · exact Effect.addContainer.inj he
    · exact absurd hn.symm ((fresh.2 d hd ha.symm).2 (updateContainer_state sd))
    · subst he
      exact absurd hn ((fresh.2 c hc ha).2 (updateContainer_state sc))
    · rw [(old c).agentId, (old d).agentId] at ha
      rw [(old c).name, (old d).name] at hn
      rw [h.name_inj c hc d hd ha hn (updateContainer_state sc) (updateContainer_state sd)]

theorem hostOk_empty : HostOk (boot 0 [1] [] [1] []).store := by
  constructor <;> simp [boot]

/-! ## Absence -/

/-- The host has had the container and no longer has it. -/
def Gone (host : List Container) (agentId : AgentId) (id : ContainerId) : Prop :=
  (∃ c ∈ host, c.agentId = agentId ∧ c.id = id) ∧ ¬ OnHost host agentId id

theorem recorded_apply {w : World} {agentId : AgentId} {id : ContainerId}
    (h : ∃ c ∈ w.host, c.agentId = agentId ∧ c.id = id) (e : Effect) :
    ∃ c ∈ (w.apply e).host, c.agentId = agentId ∧ c.id = id := by
  obtain ⟨c, hc, ha, hid⟩ := h
  have same := updateContainer_sameRecord e c
  exact ⟨e.updateContainer c, mem_host_apply.mpr (Or.inr ⟨c, hc, rfl⟩), same.agentId.trans ha,
    same.id.trans hid⟩

theorem Linked.recorded {host : List Container} {agentId : AgentId} {id : ContainerId}
    {name : String} (h : Linked host agentId id name) :
    ∃ c ∈ host, c.agentId = agentId ∧ c.id = id := by
  obtain ⟨c, hc, ha, hid, _⟩ := h
  exact ⟨c, hc, ha, hid⟩

/-- An id some container of the host has had is never handed out again. -/
theorem gone_apply {w : World} {e : Effect} {agentId : AgentId} {id : ContainerId}
    (h : Gone w.host agentId id) (fresh : FreshContainer w e) :
    Gone (w.apply e).host agentId id := by
  refine ⟨recorded_apply h.1 e, ?_⟩
  rintro ⟨d, hd, rfl, rfl, hs⟩
  rcases mem_host_apply.mp hd with rfl | ⟨c, hc, rfl⟩
  · obtain ⟨c, hc, ha, hid⟩ := h.1
    exact (fresh.2 c hc ha).1 hid
  · have same := updateContainer_sameRecord e c
    exact h.2 ⟨c, hc, same.agentId.symm, same.id.symm, updateContainer_state hs⟩

theorem gone_remove {w : World} {agentId : AgentId} {id : ContainerId}
    (h : ∃ c ∈ w.host, c.agentId = agentId ∧ c.id = id) :
    Gone (w.apply (.removeContainer agentId id)).host agentId id := by
  refine ⟨recorded_apply h _, ?_⟩
  rintro ⟨d, hd, ha, hid, hs⟩
  rcases mem_host_apply.mp hd with he | ⟨c, _, rfl⟩
  · cases he
  · have same := update_sameRecord agentId id none c
    refine hs (?_ : (c.update agentId id none).state = none)
    unfold Container.update
    by_cases hc : c.state = none
    · simp [hc]
    · rw [if_pos ⟨same.agentId.symm.trans ha, same.id.symm.trans hid, hc⟩]

end Karr
