import Karr.System

/-!
# Row identity

Ids are never reused, the pair of agent and name is unique, and the copy of a
row that a call holds agrees with the table on the columns nothing updates.
No assumption about BONNIE or time is needed.
-/

set_option autoImplicit false

namespace Karr

open Interleaving

structure RowsOk (w : World) : Prop where
  id_lt : ∀ r ∈ w.envs, r.id < w.nextEnv
  id_inj : ∀ r ∈ w.envs, ∀ s ∈ w.envs, r.id = s.id → r = s
  name_inj : ∀ r ∈ w.envs, ∀ s ∈ w.envs, r.agentId = s.agentId → r.name = s.name → r = s

/-- What a call knows of a row stays true while the row is there. -/
def KeyKnown (w : World) (env : Environment) : Prop :=
  env.id < w.nextEnv ∧ ∀ r ∈ w.envs, r.id = env.id → SameKey r env

def KeysKnown (w : World) (p : Call) : Prop :=
  (∀ env, p.row = some env → KeyKnown w env) ∧ ∀ env ∈ p.held, KeyKnown w env

/-- Two creates never have the same row. -/
def OwnersDiffer (p q : Call) : Prop :=
  ∀ env, p.row = some env → ∀ other, q.row = some other → env.id ≠ other.id

/-- The effect inserts only a row with the next id and a free name. -/
def InsertsFresh (w : World) (e : Effect) : Prop :=
  ∀ row, e = .insert row →
    row.id = w.nextEnv ∧ ∀ r ∈ w.envs, r.agentId = row.agentId → r.name ≠ row.name

theorem outside_insertsFresh {w : World} {e : Effect} (h : karr.outside e = true) :
    InsertsFresh w e := by
  rintro row rfl
  simp [karr, Effect.outside] at h

theorem rule_insertsFresh {w : World} {p p' : Call} {i : Input} {e : Effect}
    (h : CallRule w p i e p') : InsertsFresh w e := by
  rintro row rfl
  exact ⟨h.insert_fresh.1, h.insert_fresh.2.1⟩

theorem nextEnv_insert (w : World) (row : Environment) :
    (w.apply (.insert row)).nextEnv = w.nextEnv + 1 := rfl

theorem rowsOk_apply {w : World} {e : Effect} (h : RowsOk w) (hf : InsertsFresh w e) :
    RowsOk (w.apply e) := by
  have hle := w.nextEnv_le_apply e
  have old {r : Environment} (hr : r ∈ w.envs) : (e.updateRow r).id < w.nextEnv :=
    updateRow_id e r ▸ h.id_lt r hr
  refine ⟨?_, ?_, ?_⟩
  · intro r' hr'
    rcases World.mem_envs_apply.mp hr' with rfl | ⟨r, hr, _, rfl⟩
    · rw [(hf r' rfl).1, nextEnv_insert]
      omega
    · have := old hr
      omega
  · intro r' hr' s' hs' hid
    rcases World.mem_envs_apply.mp hr' with rfl | ⟨r, hr, _, rfl⟩ <;>
      rcases World.mem_envs_apply.mp hs' with he | ⟨s, hs, _, rfl⟩
    · exact Effect.insert.inj he
    · have := old hs
      have := (hf r' rfl).1
      omega
    · subst he
      have := old hr
      have := (hf s' rfl).1
      omega
    · rw [updateRow_id, updateRow_id] at hid
      rw [h.id_inj r hr s hs hid]
  · intro r' hr' s' hs' ha hn
    rcases World.mem_envs_apply.mp hr' with rfl | ⟨r, hr, _, rfl⟩ <;>
      rcases World.mem_envs_apply.mp hs' with he | ⟨s, hs, _, rfl⟩
    · exact Effect.insert.inj he
    · have hk := updateRow_sameKey (.insert r') s
      exact absurd (hk.name.symm.trans hn.symm)
        ((hf r' rfl).2 s hs (hk.agentId.symm.trans ha.symm))
    · subst he
      have hk := updateRow_sameKey (.insert s') r
      exact absurd (hk.name.symm.trans hn) ((hf s' rfl).2 r hr (hk.agentId.symm.trans ha))
    · have hk := updateRow_sameKey e r
      have hl := updateRow_sameKey e s
      rw [h.name_inj r hr s hs (by rw [← hk.agentId, ha, hl.agentId])
        (by rw [← hk.name, hn, hl.name])]

theorem keyKnown_apply {w : World} {e : Effect} {env : Environment} (h : KeyKnown w env)
    (hf : InsertsFresh w e) : KeyKnown (w.apply e) env := by
  have hle := w.nextEnv_le_apply e
  refine ⟨Nat.lt_of_lt_of_le h.1 hle, ?_⟩
  intro r' hr' hid
  rcases World.mem_envs_apply.mp hr' with rfl | ⟨r, hr, _, rfl⟩
  · -- the inserted row has an id no call knows yet
    have := (hf r' rfl).1
    have := h.1
    omega
  · exact (updateRow_sameKey e r).trans (h.2 r hr (updateRow_id e r ▸ hid))

theorem keyKnown_of_mem {w : World} (h : RowsOk w) {env : Environment} (henv : env ∈ w.envs) :
    KeyKnown w env :=
  ⟨h.id_lt env henv, fun r hr hid => h.id_inj r hr env henv hid ▸ SameKey.refl r⟩

theorem keyKnown_insert {w : World} {env : Environment} (h : RowsOk w)
    (hf : InsertsFresh w (.insert env)) : KeyKnown (w.apply (.insert env)) env :=
  keyKnown_of_mem (rowsOk_apply h hf) (World.mem_envs_apply.mpr (Or.inl rfl))

theorem rows_inductive (ok : Config → Action → Prop) :
    Inductive karr ok RowsOk KeysKnown OwnersDiffer where
  spawn := by
    intro c p _ _ hp
    refine ⟨fun env h => ?_, fun env h => ?_⟩
    · rw [fresh_row hp] at h
      cases h
    · rw [fresh_held hp] at h
      cases h
  spawn_pair := by
    intro c p q _ _ hp _
    refine ⟨fun env h => ?_, fun env _ other h => ?_⟩ <;>
    · rw [fresh_row hp] at h
      cases h
  outside := by
    intro c e hc _ he
    have hf : InsertsFresh c.store e := outside_insertsFresh he
    refine ⟨rowsOk_apply hc.store hf, fun p hp => ?_⟩
    have hk := hc.proc p hp
    exact ⟨fun env h => keyKnown_apply (hk.1 env h) hf, fun env h => keyKnown_apply (hk.2 env h) hf⟩
  own := by
    intro c k i p e p' hc _ hp hs
    have hrule := call_rule hs
    have hf := rule_insertsFresh hrule
    have hk := hc.proc p (List.mem_of_getElem? hp)
    refine ⟨rowsOk_apply hc.store hf, fun env h => ?_, fun env h => ?_⟩
    · rcases hrule.row_origin h with h | rfl
      · exact keyKnown_apply (hk.1 env h) hf
      · exact keyKnown_insert hc.store hf
    · rcases hrule.held_origin h with h | ⟨h, _⟩
      · exact keyKnown_apply (hk.2 env h) hf
      · exact keyKnown_apply (keyKnown_of_mem hc.store h) hf
  other := by
    intro c k i p e p' j q hc _ hp hs hjk hq
    have hrule := call_rule hs
    have hf := rule_insertsFresh hrule
    have hk := hc.proc q (List.mem_of_getElem? hq)
    -- the row of the create that moved is its old one or a new one, which nobody else has
    have differ : ∀ env, p'.row = some env → ∀ other, q.row = some other → env.id ≠ other.id := by
      intro env h other ho
      rcases hrule.row_origin h with h | rfl
      · exact hc.pair (Ne.symm hjk) hp hq env h other ho
      · have := (hk.1 other ho).1
        have := (hf env rfl).1
        omega
    refine ⟨⟨fun env h => keyKnown_apply (hk.1 env h) hf,
      fun env h => keyKnown_apply (hk.2 env h) hf⟩, differ, ?_⟩
    exact fun env h other ho => (differ other ho env h).symm

theorem rows_boot (now : Int) (agents : List AgentId) (projects : List ProjectId)
    (clients : List AgentId) (host : List Container) :
    Holds RowsOk KeysKnown OwnersDiffer (boot now agents projects clients host) where
  store := by constructor <;> simp [boot]
  proc := by simp [boot]
  pair := by simp [boot]

theorem rows_of_run {ok : Config → Action → Prop} {now : Int} {agents : List AgentId}
    {projects : List ProjectId} {clients : List AgentId} {host : List Container} {c : Config}
    (h : karr.Runs ok (boot now agents projects clients host) c) :
    Holds RowsOk KeysKnown OwnersDiffer c :=
  (rows_inductive ok).holds_of_run (rows_boot now agents projects clients host) h

end Karr
