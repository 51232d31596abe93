import Karr.Invariants.Links

/-!
# Deleting an agent while environments are created on it

The delete removes the containers of the rows it read, then drops every row the
agent has by then. It strands a container where a create got it, or recorded it,
after the delete had read the rows.
-/

set_option autoImplicit false

namespace Karr

open Interleaving

/-- Creates, starts, stops and deletes of agents; nobody stops and no reply of a create is lost. -/
def createsAndDeletes : Action → Bool
  | .spawn (.remove _) => false
  | .spawn (.pass _) => false
  | .proc _ .crash => false
  | .proc _ (.lostMade _ _) => false
  | _ => true

/-- BONNIE makes a container for a create whose row is still there. -/
def MadeForRow (c : Config) : Action → Prop
  | .proc k (.made _) => ∀ p ∈ c.procs[k]?, ∀ env ∈ p.row, ∃ r ∈ c.store.envs, r.id = env.id
  | _ => True

instance (c : Config) (a : Action) : Decidable (MadeForRow c a) := by
  unfold MadeForRow
  split <;> infer_instance

/-- The container a create got and has not recorded yet. -/
def Call.unrecorded : Call → Option (Environment × ContainerId)
  | .create (.created env id) => some (env, id)
  | _ => none

/-- The rows a delete of an agent is about to commit away, with the container ids it read. -/
def committing (c : Config) : Action → Option (List (String × ContainerId) × List Nat)
  | .proc k (.run _) =>
    match c.procs[k]? with
    | some (.delete (.agentDeleted _ envs ids)) => some (envs, ids)
    | _ => none
  | _ => none

/-- A row that is dropped has no container, or one the delete has read; and no create
has got a container for it in the meantime. -/
def DropsRead (c : Config) (a : Action) : Prop :=
  ∀ d ∈ committing c a, ∀ r ∈ c.store.envs, r.id ∈ d.2 →
    (r.containerId = "" ∨ ∃ e ∈ d.1, e.2 = r.containerId) ∧
    ∀ q ∈ c.procs, ∀ u ∈ q.unrecorded, u.1.id ≠ r.id

instance (c : Config) (a : Action) : Decidable (DropsRead c a) :=
  inferInstanceAs (Decidable (∀ d ∈ committing c a, ∀ r ∈ c.store.envs, _ → _ ∧ ∀ q ∈ _, _))

def CleanDelete (c : Config) (a : Action) : Prop :=
  Bonnie c a ∧ createsAndDeletes a = true ∧ MadeForRow c a ∧ DropsRead c a

instance (c : Config) (a : Action) : Decidable (CleanDelete c a) :=
  inferInstanceAs (Decidable (Bonnie c a ∧ _ ∧ MadeForRow c a ∧ DropsRead c a))

/-! ## What a delete has removed -/

def AllRecorded (w : World) (agentId : AgentId) (envs : List (String × ContainerId)) : Prop :=
  ∀ e ∈ envs, e.2 ≠ "" → ∃ c ∈ w.host, c.agentId = agentId ∧ c.id = e.2

def AllGone (w : World) (agentId : AgentId) (envs : List (String × ContainerId)) : Prop :=
  ∀ e ∈ envs, e.2 ≠ "" → Gone w.host agentId e.2

/-- Ids of rows of this agent. -/
def RowsOf (w : World) (agentId : AgentId) (ids : List Nat) : Prop :=
  ∀ id ∈ ids, id < w.nextEnv ∧ ∀ r ∈ w.envs, r.id = id → r.agentId = agentId

/-- Nothing has failed so far, so what is not left to do is done. -/
def Removing (w : World) (agentId : AgentId) (envs todo : List (String × ContainerId))
    (failed : List String) : Prop :=
  AllRecorded w agentId todo ∧ (∀ e ∈ todo, e.2 ≠ "") ∧
  (failed = [] → ∀ e ∈ envs, e.2 ≠ "" → e ∈ todo ∨ Gone w.host agentId e.2)

def DeleteSound (w : World) : Call → Prop
  | .create p => ∀ env, p.row = some env → ∀ r ∈ w.envs, r.id = env.id → r.containerId = ""
  | .transition _ => True
  | .remove _ => False
  | .pass _ => False
  | .delete (.read agentId envs) => AllRecorded w agentId envs
  | .delete (.removing agentId envs todo failed) => Removing w agentId envs todo failed
  | .delete (.deleting agentId envs) => AllGone w agentId envs
  | .delete (.rowsDeleted agentId envs ids) => AllGone w agentId envs ∧ RowsOf w agentId ids
  | .delete (.agentDeleted agentId envs ids) => AllGone w agentId envs ∧ RowsOf w agentId ids
  | .delete _ => True

theorem allGone_apply {w : World} {e : Effect} {agentId : AgentId}
    {envs : List (String × ContainerId)} (h : AllGone w agentId envs)
    (fresh : FreshContainer w e) : AllGone (w.apply e) agentId envs :=
  fun env henv hne => gone_apply (h env henv hne) fresh

theorem allRecorded_apply {w : World} {agentId : AgentId} {envs : List (String × ContainerId)}
    (h : AllRecorded w agentId envs) (e : Effect) : AllRecorded (w.apply e) agentId envs :=
  fun env henv hne => recorded_apply (h env henv hne) e

theorem rowsOf_apply {w : World} {e : Effect} {agentId : AgentId} {ids : List Nat}
    (h : RowsOf w agentId ids) (hf : InsertsFresh w e) : RowsOf (w.apply e) agentId ids := by
  intro id hid
  obtain ⟨hlt, hrows⟩ := h id hid
  refine ⟨Nat.lt_of_lt_of_le hlt (w.nextEnv_le_apply e), fun r' hr' hr'id => ?_⟩
  rcases World.mem_envs_apply.mp hr' with rfl | ⟨r, hr, _, rfl⟩
  · have := (hf r' rfl).1
    omega
  · rw [(updateRow_sameKey e r).agentId]
    exact hrows r hr (updateRow_id e r ▸ hr'id)

theorem rowsOf_read {w : World} (rows : RowsOk w) (agentId : AgentId) :
    RowsOf w agentId ((envRows w agentId).map Environment.id) := by
  intro id hid
  obtain ⟨r, hr, rfl⟩ := List.mem_map.mp hid
  obtain ⟨hrm, ha⟩ := List.mem_filter.mp hr
  refine ⟨rows.id_lt r hrm, fun s hs hsid => ?_⟩
  rw [rows.id_inj s hs r hrm hsid]
  exact of_decide_eq_true ha

theorem removing_apply {w : World} {e : Effect} {agentId : AgentId}
    {envs todo : List (String × ContainerId)} {failed : List String}
    (h : Removing w agentId envs todo failed) (fresh : FreshContainer w e) :
    Removing (w.apply e) agentId envs todo failed :=
  ⟨allRecorded_apply h.1 e, h.2.1, fun hf env henv hne =>
    (h.2.2 hf env henv hne).imp_right fun hg => gone_apply hg fresh⟩

theorem deleteSound_next {w : World} {agentId : AgentId} {envs todo : List (String × ContainerId)}
    {failed : List String} (h : Removing w agentId envs todo failed) :
    DeleteSound w (.delete (Delete.next agentId envs todo failed)) := by
  refine Delete.next_elim (motive := fun d => DeleteSound w (.delete d)) (fun _ => h)
    (fun _ _ => trivial) fun htodo hfailed => ?_
  intro e he hne
  rcases h.2.2 hfailed e he hne with hm | hg
  · rw [htodo] at hm
    cases hm
  · exact hg

theorem removing_removed {w : World} {agentId : AgentId} {envs todo : List (String × ContainerId)}
    {e : String × ContainerId} {failed : List String}
    (h : Removing w agentId envs (e :: todo) failed) :
    Removing (w.apply (.removeContainer agentId e.2)) agentId envs todo failed := by
  obtain ⟨recorded, filled, rest⟩ := h
  have hgone := gone_remove (w := w) (recorded e List.mem_cons_self (filled e List.mem_cons_self))
  refine ⟨fun d hd hne => recorded_apply (recorded d (List.mem_cons_of_mem e hd) hne) _,
    fun d hd => filled d (List.mem_cons_of_mem e hd), fun hf d hd hne => ?_⟩
  rcases rest hf d hd hne with hm | hg
  · rcases List.mem_cons.mp hm with rfl | hm
    · exact Or.inr hgone
    · exact Or.inl hm
  · exact Or.inr (gone_apply hg trivial)

/-- A request failed: the delete will not get to its rows. -/
theorem removing_failed {w : World} {agentId : AgentId} {envs todo : List (String × ContainerId)}
    {e : String × ContainerId} {failed : List String} {name : String}
    (h : Removing w agentId envs (e :: todo) failed) :
    Removing w agentId envs todo (failed ++ [name]) :=
  ⟨fun d hd => h.1 d (List.mem_cons_of_mem e hd), fun d hd => h.2.1 d (List.mem_cons_of_mem e hd),
    fun hf => absurd hf (by simp)⟩

theorem unrecorded_of_finished {p : Call} (h : p.finished = true) : p.unrecorded = none := by
  cases p with
  | create p => cases p <;> first | rfl | cases h
  | _ => rfl

/-- Among these calls only its create gives a row a container id. -/
theorem CallRule.keeps_bare {w : World} {p p' : Call} {i : Input} {e : Effect}
    (h : CallRule w p i e p') (sound : DeleteSound w p) {r : Environment}
    (other : ∀ u ∈ p.unrecorded, r.id ≠ u.1.id) : (e.updateRow r).containerId = r.containerId := by
  by_contra hne
  rcases updateRow_containerId hne with ⟨id, containerId, rfl, hid⟩ | ⟨changes, rfl, _⟩
  · cases h with
    | create h =>
      cases h
      case finish env _ _ => exact other (env, containerId) rfl hid
    | transition h => cases h
    | remove h => exact sound
    | pass h => exact sound
    | delete h => cases h
  · cases h with
    | create h => cases h
    | transition h => cases h
    | remove h => exact sound
    | pass h => exact sound
    | delete h => cases h

theorem DeleteRule.sound {w : World} {p p' : Delete} {i : Input} {e : Effect}
    (h : DeleteRule w p i e p') (rows : RowsOk w) (links : RowsLinked w)
    (fresh : FreshContainer w e)
    (sound : DeleteSound w (.delete p)) : DeleteSound (w.apply e) (.delete p') := by
  cases h with
  | @read agentId =>
    intro e he hne
    obtain ⟨r, hr, rfl⟩ := List.mem_map.mp he
    obtain ⟨hrm, ha⟩ := List.mem_filter.mp hr
    have recorded := (links.linked r hrm hne).recorded
    rwa [of_decide_eq_true ha] at recorded
  | bare none => exact fun e he hne => absurd (none e he) hne
  | begin =>
    refine ⟨fun e he => sound e (List.mem_filter.mp he).1, fun e he => ?_, fun _ e he hne => ?_⟩
    · simpa using (List.mem_filter.mp he).2
    · exact Or.inl (List.mem_filter.mpr ⟨he, by simpa using hne⟩)
  | removed => exact deleteSound_next (removing_removed sound)
  | lost => exact deleteSound_next (removing_failed (removing_apply sound fresh))
  | fail => exact deleteSound_next (removing_failed sound)
  | skip => exact ⟨fun e he => (by cases he), fun id hid => (by cases hid)⟩
  | deleteRows =>
    exact ⟨allGone_apply sound fresh, rowsOf_apply (rowsOf_read rows _) (by simp [InsertsFresh])⟩
  | deleteAgent =>
    exact ⟨allGone_apply sound.1 fresh, rowsOf_apply sound.2 (by simp [InsertsFresh])⟩
  | _ => trivial

theorem CallRule.deleteSound {w : World} {p p' : Call} {i : Input} {e : Effect}
    (h : CallRule w p i e p') (rows : RowsOk w) (links : RowsLinked w)
    (fresh : FreshContainer w e) (sound : DeleteSound w p) : DeleteSound (w.apply e) p' := by
  have hrule := h
  cases h with
  | @create p p' _ _ h =>
    intro env hrow r' hr' hid
    rcases hrule.row_origin hrow with h | rfl
    · rcases World.mem_envs_apply.mp hr' with rfl | ⟨r, hr, _, rfl⟩
      · exact hrule.insert_fresh.2.2.2.1
      · rw [hrule.keeps_row hrow] at hid ⊢
        exact sound env h r hr hid
    · -- the row is the one just inserted
      have henv : env ∈ (w.apply (.insert env)).envs := World.mem_envs_apply.mpr (Or.inl rfl)
      rw [(rowsOk_apply rows (rule_insertsFresh hrule)).id_inj r' hr' env henv hid]
      exact hrule.insert_fresh.2.2.2.1
  | transition h => trivial
  | remove h => exact sound
  | pass h => exact sound
  | delete h => exact h.sound rows links fresh sound

theorem deleteSound_apply {w : World} {e : Effect} {p : Call} (h : DeleteSound w p)
    (fresh : FreshContainer w e) (hf : InsertsFresh w e) (known : KeysKnown w p)
    (bare : ∀ env, p.row = some env → ∀ r ∈ w.envs, r.id = env.id →
      (e.updateRow r).containerId = r.containerId) : DeleteSound (w.apply e) p := by
  unfold DeleteSound at h ⊢
  split at h
  · intro env hrow r' hr' hid
    rcases World.mem_envs_apply.mp hr' with rfl | ⟨r, hr, _, rfl⟩
    · have := (hf r' rfl).1
      have := (known.1 env hrow).1
      omega
    · rw [updateRow_id] at hid
      rw [bare env hrow r hr hid]
      exact h env hrow r hr hid
  · trivial
  · exact h
  · exact h
  · exact allRecorded_apply h e
  · exact removing_apply h fresh
  · exact allGone_apply h fresh
  · exact ⟨allGone_apply h.1 fresh, rowsOf_apply h.2 hf⟩
  · exact ⟨allGone_apply h.1 fresh, rowsOf_apply h.2 hf⟩
  · trivial

theorem unrecorded_row {p : Call} {u : Environment × ContainerId} (h : u ∈ p.unrecorded) :
    p.row = some u.1 := by
  cases p with
  | create p =>
    cases p <;> cases h
    rfl
  | _ => cases h

theorem agentDelete_inductive :
    Inductive karr (fun c a => CleanDelete c a ∧ LinkedState c) (fun _ => True) DeleteSound
      (fun _ _ => True) where
  spawn := by
    intro c p _ hok hp
    have hcalls := hok.1.2.1
    rcases p with p | p | p | p | p <;> cases p <;>
      simp_all [karr, Call.fresh, DeleteSound, createsAndDeletes, Create.row]
  spawn_pair := fun _ _ _ _ => ⟨trivial, trivial⟩
  outside := by
    intro c e hc hok he
    refine ⟨trivial, fun p hp => ?_⟩
    exact deleteSound_apply (hc.proc p hp) (hok.1.1.1 e rfl) (outside_insertsFresh he)
      (hok.2.rows.proc p hp) fun _ _ r _ _ => ((outside_frame he).2 r).2.2
  own := by
    intro c k i p e p' hc hok hp hs
    exact ⟨trivial, (call_rule hs).deleteSound hok.2.rows.store hok.2.links.store
      (hok.1.1.fresh hp hs) (hc.proc p (List.mem_of_getElem? hp))⟩
  other := by
    intro c k i p e p' j q hc hok hp hs hjk hq
    have hqm := List.mem_of_getElem? hq
    have hrule := call_rule hs
    refine ⟨deleteSound_apply (hc.proc q hqm) (hok.1.1.fresh hp hs) (rule_insertsFresh hrule)
      (hok.2.rows.proc q hqm) fun env hrow r _ hid => ?_, trivial, trivial⟩
    refine hrule.keeps_bare (hc.proc p (List.mem_of_getElem? hp)) fun u hu => ?_
    rw [hid]
    exact hok.2.rows.pair hjk hq hp env hrow u.1 (unrecorded_row hu)

/-! ## No container without a row -/

/-- A row has the container's id, or its create is about to write it to its row. -/
def Covered (c : Config) : Prop :=
  ∀ d ∈ c.store.host, d.origin ≠ none → d.state ≠ none →
    (∃ r ∈ c.store.envs, r.agentId = d.agentId ∧ r.containerId = d.id) ∨
    ∃ (j : Nat) (q : Call) (u : Environment × ContainerId), c.procs[j]? = some q ∧
      u ∈ q.unrecorded ∧ u.1.agentId = d.agentId ∧ u.2 = d.id ∧
      ∃ r ∈ c.store.envs, r.id = u.1.id

/-- Among these calls only the commit of a delete drops rows. -/
theorem CallRule.drops_committing {c : Config} {k : Nat} {p p' : Call} {i : Input} {e : Effect}
    (h : CallRule c.store p i e p') (hp : c.procs[k]? = some p) (sound : DeleteSound c.store p)
    {r : Environment} (hd : e.drops r = true) :
    ∃ agentId envs ids, (envs, ids) ∈ committing c (.proc k i) ∧ r.id ∈ ids ∧
      AllGone c.store agentId envs ∧ RowsOf c.store agentId ids := by
  cases h with
  | create h => cases h <;> cases hd
  | transition h => cases h <;> cases hd
  | remove h => exact absurd sound id
  | pass h => exact absurd sound id
  | delete h =>
    cases h
    case commit agentId envs ids clock =>
      exact ⟨agentId, envs, ids, by simp [committing, hp], of_decide_eq_true hd, sound⟩
    all_goals cases hd

theorem covered_made {c : Config} {k : Nat} {p p' : Call} {i : Input} {d : Container}
    (h : CallRule c.store p i (.addContainer d) p') (hp : c.procs[k]? = some p)
    (calls : createsAndDeletes (.proc k i) = true) (made : MadeForRow c (.proc k i)) :
    ∃ u ∈ p'.unrecorded, u.1.agentId = d.agentId ∧ u.2 = d.id ∧
      ∃ r ∈ c.store.envs, r.id = u.1.id := by
  rcases h with h | h | h | h | h <;> cases h
  case made env id => exact ⟨(env, id), rfl, rfl, rfl, made _ hp env rfl⟩
  case lostMade => cases calls

/-- A create that has got a container keeps it in hand or writes it to its row. -/
theorem CallRule.unrecorded_next {w : World} {p p' : Call} {i : Input} {e : Effect}
    (h : CallRule w p i e p') (hi : i ≠ .crash) {u : Environment × ContainerId}
    (hu : u ∈ p.unrecorded) : e = .finish u.1.id u.2 := by
  cases h with
  | create h =>
    cases h
    case finish => cases hu; rfl
    case crash => exact absurd rfl hi
    case quit early => exact absurd (early.symm.trans (unrecorded_row hu)) (by simp)
    all_goals cases hu
  | _ => cases hu

/-- A step of a call keeps the row of a container that is on its host. -/
theorem CallRule.covered_row {c : Config} {k : Nat} {p p' : Call} {i : Input} {e : Effect}
    (h : CallRule c.store p i e p') (hp : c.procs[k]? = some p) (hok : CleanDelete c (.proc k i))
    (st : LinkedState c) (sound : DeleteSound c.store p) {d : Container} (hd : d ∈ c.store.host)
    (hon : d.state ≠ none) {r : Environment} (hr : r ∈ c.store.envs)
    (ha : r.agentId = d.agentId) (hid : r.containerId = d.id) :
    ∃ r ∈ (c.store.apply e).envs, r.agentId = d.agentId ∧ r.containerId = d.id := by
  have hne : r.containerId ≠ "" := hid ▸ st.links.store.host.id_ne d hd
  have keep : e.drops r = false := by
    by_contra hdrop
    obtain ⟨agentId, envs, ids, hc, hrid, gone, own⟩ :=
      h.drops_committing hp sound (Bool.not_eq_false _ ▸ hdrop)
    rcases (hok.2.2.2 _ hc r hr hrid).1 with hb | ⟨env, henv, heq⟩
    · exact hne hb
    · have off := (gone env henv (heq ▸ hne)).2
      rw [heq, hid] at off
      exact off ⟨d, hd, by rw [← ha, (own r.id hrid).2 r hr rfl], rfl, hon⟩
  refine ⟨e.updateRow r, World.mem_envs_apply.mpr (Or.inr ⟨r, hr, keep, rfl⟩), ?_, ?_⟩
  · rw [(updateRow_sameKey e r).agentId, ha]
  · rw [h.keeps_bare sound fun u hu hrid => ?_, hid]
    cases p with
    | create p => exact hne (sound u.1 (unrecorded_row hu) r hr hrid)
    | _ => cases hu

/-- A step of a call keeps the row that a create is about to write, or is that write. -/
theorem CallRule.covered_unrecorded {c : Config} {k : Nat} {p p' : Call} {i : Input} {e : Effect}
    (h : CallRule c.store p i e p') (hp : c.procs[k]? = some p) (hok : CleanDelete c (.proc k i))
    (st : LinkedState c) (sound : DeleteSound c.store p) {j : Nat} {q : Call}
    (hq : c.procs[j]? = some q) {u : Environment × ContainerId} (hu : u ∈ q.unrecorded)
    {r : Environment} (hr : r ∈ c.store.envs) (hrid : r.id = u.1.id) :
    (∃ r ∈ (c.store.apply e).envs, r.agentId = u.1.agentId ∧ r.containerId = u.2) ∨
      (c.procs.set k p')[j]? = some q ∧ ∃ r ∈ (c.store.apply e).envs, r.id = u.1.id := by
  have keep : e.drops r = false := by
    by_contra hdrop
    obtain ⟨agentId, envs, ids, hc, hids, _⟩ :=
      h.drops_committing hp sound (Bool.not_eq_false _ ▸ hdrop)
    exact (hok.2.2.2 _ hc r hr hids).2 q (List.mem_of_getElem? hq) u hu hrid.symm
  have hrow : e.updateRow r ∈ (c.store.apply e).envs :=
    World.mem_envs_apply.mpr (Or.inr ⟨r, hr, keep, rfl⟩)
  rcases eq_or_ne j k with rfl | hjk
  · rw [hp] at hq
    cases hq
    have hi : i ≠ .crash := by
      rintro rfl
      cases hok.2.1
    have hfin := h.unrecorded_next hi hu
    refine Or.inl ⟨e.updateRow r, hrow, ?_, ?_⟩
    · have key := (st.rows.proc p (List.mem_of_getElem? hp)).1 u.1 (unrecorded_row hu)
      rw [(updateRow_sameKey e r).agentId, (key.2 r hr hrid).agentId]
    · rw [hfin]
      simp [Effect.updateRow, hrid]
  · exact Or.inr ⟨by rw [List.getElem?_set_ne hjk.symm, hq],
      e.updateRow r, hrow, (updateRow_id e r).trans hrid⟩

theorem covered_exec {c c' : Config} {a : Action} (h : Covered c) (hok : CleanDelete c a)
    (st : LinkedState c) (sound : Holds (fun _ => True) DeleteSound (fun _ _ => True) c)
    (he : karr.exec c a = some c') : Covered c' := by
  intro d' hd' horigin hstate
  rcases System.exec_cases he with ⟨p, _, _, rfl⟩ | ⟨k, i, p, e, p', rfl, hp, hs, rfl⟩ |
    ⟨e, _, ho, rfl⟩
  · rcases h d' hd' horigin hstate with hrow | ⟨j, q, u, hq, hu, hrest⟩
    · exact Or.inl hrow
    · have hlt := (List.getElem?_eq_some_iff.mp hq).1
      exact Or.inr ⟨j, q, u, by rw [List.getElem?_append_left hlt, hq], hu, hrest⟩
  · have hmem := List.mem_of_getElem? hp
    have hlt := (List.getElem?_eq_some_iff.mp hp).1
    have hrule := call_rule hs
    rcases mem_host_apply.mp hd' with rfl | ⟨d, hd, rfl⟩
    · obtain ⟨u, hu, ha, hid, hrow⟩ := covered_made hrule hp hok.2.1 hok.2.2.1
      exact Or.inr ⟨k, p', u, List.getElem?_set_self hlt, hu, ha, hid, hrow⟩
    · have same := updateContainer_sameRecord e d
      rw [same.agentId, same.id]
      rw [same.origin] at horigin
      have hon := updateContainer_state hstate
      rcases h d hd horigin hon with ⟨r, hr, ha, hid⟩ | ⟨j, q, u, hq, hu, ha, hid, r, hr, hrid⟩
      · exact Or.inl (hrule.covered_row hp hok st (sound.proc p hmem) hd hon hr ha hid)
      · rcases hrule.covered_unrecorded hp hok st (sound.proc p hmem) hq hu hr hrid with
          ⟨r', hr', ha', hid'⟩ | ⟨hq', row⟩
        · exact Or.inl ⟨r', hr', ha'.trans ha, hid'.trans hid⟩
        · exact Or.inr ⟨j, q, u, hq', hu, ha, hid, row⟩
  · have keep {r : Environment} (hr : r ∈ c.store.envs) :
        e.updateRow r ∈ (c.store.apply e).envs :=
      World.mem_envs_apply.mpr (Or.inr ⟨r, hr, outside_drops ho r, rfl⟩)
    rcases mem_host_apply.mp hd' with rfl | ⟨d, hd, rfl⟩
    · exact absurd (by simpa [karr, Effect.outside] using ho) horigin
    · have same := updateContainer_sameRecord e d
      rw [same.agentId, same.id]
      rw [same.origin] at horigin
      rcases h d hd horigin (updateContainer_state hstate) with
        ⟨r, hr, ha, hid⟩ | ⟨j, q, u, hq, hu, ha, hid, r, hr, hrid⟩
      · exact Or.inl ⟨e.updateRow r, keep hr, (updateRow_sameKey e r).agentId.trans ha,
          ((outside_frame ho).2 r).2.2.trans hid⟩
      · exact Or.inr ⟨j, q, u, hq, hu, ha, hid, e.updateRow r, keep hr,
          (updateRow_id e r).trans hrid⟩

/-- In a run whose deletes drop only what they read and whose containers are made for rows
that are there, every container on a host has its row once all calls have ended. -/
theorem delete_strands_none {now : Int} {agents : List AgentId} {projects : List ProjectId}
    {clients : List AgentId} {host : List Container}
    (hosts : HostOk (boot now agents projects clients host).store) {c : Config}
    (h : karr.Runs CleanDelete (boot now agents projects clients host) c)
    (ended : ∀ p ∈ c.procs, p.finished = true) :
    ∀ d ∈ c.store.host, d.origin ≠ none → d.state ≠ none →
      ∃ r ∈ c.store.envs, r.agentId = d.agentId ∧ r.containerId = d.id := by
  have linked {c : Config} (h : karr.Runs CleanDelete (boot now agents projects clients host) c) :
      LinkedState c :=
    linkedState_of_run hosts (h.mono fun _ _ ho => ho.1)
  have sound {c : Config} (h : karr.Runs CleanDelete (boot now agents projects clients host) c) :
      Holds (fun _ => True) DeleteSound (fun _ _ => True) c :=
    agentDelete_inductive.holds_of_run ⟨trivial, by simp [boot], fun _ _ _ => trivial⟩
      (h.strengthen linked)
  have covered : Covered c := by
    refine (h.strengthen fun hr => And.intro (linked hr) (sound hr)).invariant ?_ ?_
    · simp [Covered, boot]
    · exact fun hc hok he => covered_exec hc hok.1 hok.2.1 hok.2.2 he
  intro d hd horigin hstate
  rcases covered d hd horigin hstate with hrow | ⟨j, q, u, hq, hu, _⟩
  · exact hrow
  · -- a create that has got a container is still in flight
    rw [unrecorded_of_finished (ended q (List.mem_of_getElem? hq))] at hu
    cases hu

/-- Two creates: one that has ended before the delete, one that comes after it. -/
def cleanDeleteActions : List Action :=
  createActions 0 ⟨1, none, "env", "image", false, [], [], []⟩ "c1" ++
  createActions 1 ⟨2, none, "env", "image", false, [], [], []⟩ "c1" ++
  [.spawn (.delete (.start 1 true)), .proc 2 (.run 0), .proc 2 (.run 0), .proc 2 (.run 0),
    .proc 2 .ok, .proc 2 (.run 0), .proc 2 (.run 0), .proc 2 (.run 0), .proc 2 (.run 0),
    .spawn (.create (.start ⟨1, none, "late", "image", false, [], [], []⟩)), .proc 3 (.run 0)]

theorem delete_strands_none_clean :
    ∃ c, karr.Runs CleanDelete (boot 0 [1, 2] [] [1, 2] []) c ∧
      c.procs[2]? = some (.delete (.done .ok)) ∧
      c.store.host.map Container.state = [none, some .created] ∧
      ∀ d ∈ c.store.host, d.origin ≠ none → d.state ≠ none →
        ∃ r ∈ c.store.envs, r.agentId = d.agentId ∧ r.containerId = d.id := by
  obtain ⟨c, hr, hp⟩ := exists_run_of_execute karr.exec (fun c a => decide (CleanDelete c a))
    (boot 0 [1, 2] [] [1, 2] []) cleanDeleteActions
    (fun c => decide (c.procs[2]? = some (Call.delete (.done .ok)) ∧
      c.store.host.map Container.state = [none, some ContainerState.created] ∧
      ∀ p ∈ c.procs, p.finished = true))
    (fun _ _ => of_decide_eq_true) (by decide)
  obtain ⟨hdone, hhost, ended⟩ := of_decide_eq_true hp
  have hosts : HostOk (boot 0 [1, 2] [] [1, 2] []).store := by constructor <;> simp [boot]
  exact ⟨c, hr, hdone, hhost, delete_strands_none hosts hr ended⟩

/-- Creates and one forced delete; nothing else happens and no reply is lost. -/
def createsAndOneDelete (c : Config) : Action → Bool
  | .spawn (.create _) => true
  | .spawn (.delete (.start _ force)) => force && c.procs.all fun p =>
      match p with
      | .delete _ => false
      | _ => true
  | .spawn _ => false
  | .proc _ .crash => false
  | .proc _ (.lostMade _ _) => false
  | .proc _ _ => true
  | .outside _ => false

def DeleteStrandsNoneAlways : Prop :=
  ∀ (now : Int) (agents : List AgentId) (projects : List ProjectId) (clients : List AgentId)
    (host : List Container), HostOk (boot now agents projects clients host).store →
    ∀ c : Config, karr.Runs (fun c a => Bonnie c a ∧ createsAndOneDelete c a = true)
      (boot now agents projects clients host) c →
    (∀ p ∈ c.procs, p.finished = true) → Call.delete (.done .ok) ∈ c.procs →
    ∀ d ∈ c.store.host, d.origin ≠ none → d.state ≠ none →
      ∃ r ∈ c.store.envs, r.agentId = d.agentId ∧ r.containerId = d.id

/-- The delete runs while BONNIE is making the container. -/
def strandedActions : List Action :=
  (createActions 0 ⟨1, none, "env", "image", false, [], [], []⟩ "c1").take 6 ++
  [.spawn (.delete (.start 1 true)), .proc 1 (.run 0), .proc 1 (.run 0), .proc 1 (.run 0),
    .proc 1 (.run 0), .proc 1 (.run 0), .proc 1 (.run 0), .proc 1 (.run 0),
    .proc 0 (.made "c1"), .proc 0 (.run 0), .proc 0 (.run 0)]

theorem not_deleteStrandsNoneAlways : ¬ DeleteStrandsNoneAlways := by
  intro always
  obtain ⟨c, hr, hp⟩ := exists_run_of_execute karr.exec
    (fun c a => decide (Bonnie c a ∧ createsAndOneDelete c a = true))
    (boot 0 [1] [] [1] []) strandedActions
    (fun c => decide ((∀ p ∈ c.procs, p.finished = true) ∧ Call.delete (.done .ok) ∈ c.procs ∧
      c.store.envs = [] ∧ ∃ d ∈ c.store.host, d.origin ≠ none ∧ d.state ≠ none))
    (fun _ _ => of_decide_eq_true) (by decide)
  obtain ⟨ended, hdone, henvs, d, hd, horigin, hstate⟩ := of_decide_eq_true hp
  obtain ⟨r, hr', _⟩ := always 0 [1] [] [1] [] hostOk_empty c hr ended hdone d hd horigin hstate
  rw [henvs] at hr'
  cases hr'

end Karr
