import Karr.Invariants.Rows

/-!
# In-flight protection

While a create is in flight nobody else gets hold of its row: the grace is
longer than a create takes plus what the application clock may run ahead, so
every guard that meets the row leaves it alone. Nothing is assumed of BONNIE.
-/

set_option autoImplicit false

namespace Karr

open Interleaving

/-- The application clock a step reads, if it reads one. -/
def clockOf : Action → Option Int
  | .proc _ (.run clock) => some clock
  | _ => none

def inFlight (c : Config) : List Environment := c.procs.filterMap Call.row

/-- Creates end within `D` of their row's `created_at` on the database clock, and a
guard never reads an application clock more than `S` ahead of it. -/
def OnTime (D S : Int) (c : Config) (a : Action) : Prop :=
  (∀ env ∈ inFlight c, c.store.now ≤ env.createdAt + D) ∧
  ∀ clock ∈ clockOf a, clock ≤ c.store.now + S

instance (D S : Int) (c : Config) (a : Action) : Decidable (OnTime D S c a) :=
  inferInstanceAs (Decidable ((∀ env ∈ _, _) ∧ _))

/-- The row is as it was inserted; another service may have cleared its project. -/
def Untouched (r env : Environment) : Prop := { r with projectId := env.projectId } = env

theorem Untouched.refl (env : Environment) : Untouched env env := rfl

theorem Untouched.column {α : Type} {r env : Environment} (h : Untouched r env)
    (f : Environment → α) : f { r with projectId := env.projectId } = f env :=
  congrArg f h

theorem Untouched.status {r env : Environment} (h : Untouched r env) : r.status = env.status :=
  h.column Environment.status

theorem Untouched.createdAt {r env : Environment} (h : Untouched r env) :
    r.createdAt = env.createdAt :=
  h.column Environment.createdAt

theorem Untouched.containerId {r env : Environment} (h : Untouched r env) :
    r.containerId = env.containerId :=
  h.column Environment.containerId

/-- The row of a create in flight is as it was inserted, if it is still there. -/
def RowUntouched (w : World) (p : Call) : Prop :=
  ∀ env, p.row = some env → env.status = .creating ∧ env.containerId = "" ∧
    env.statusMessage = "" ∧ ∀ r ∈ w.envs, r.id = env.id → Untouched r env

/-- What `q` may write is not the row of `p`. -/
def NotHeld (p q : Call) : Prop :=
  ∀ env, p.row = some env → ∀ other ∈ q.held, env.id ≠ other.id

theorem untouched_deleteProject {r env : Environment} {projectId : ProjectId}
    (h : Untouched r env) : Untouched (Effect.updateRow (.deleteProject projectId) r) env := by
  simp only [Effect.updateRow]
  split
  · exact h
  · exact h

theorem outside_untouched {e : Effect} (he : karr.outside e = true) {r env : Environment}
    (h : Untouched r env) : Untouched (e.updateRow r) env := by
  cases e <;> first
    | exact untouched_deleteProject h
    | exact h
    | simp [karr, Effect.outside] at he

theorem rowUntouched_apply {w : World} {e : Effect} {p : Call} (h : RowUntouched w p)
    (hk : KeysKnown w p) (hf : InsertsFresh w e)
    (keep : ∀ env, p.row = some env → ∀ r ∈ w.envs, r.id = env.id → Untouched r env →
      Untouched (e.updateRow r) env) : RowUntouched (w.apply e) p := by
  intro env hrow
  obtain ⟨hs, hc, hm, hr⟩ := h env hrow
  refine ⟨hs, hc, hm, fun r' hr' hid => ?_⟩
  rcases World.mem_envs_apply.mp hr' with rfl | ⟨r, hmem, _, rfl⟩
  · have := (hf r' rfl).1
    have := (hk.1 env hrow).1
    omega
  · rw [updateRow_id] at hid
    exact keep env hrow r hmem hid (hr r hmem hid)

/-- A guard that reads a row in flight sees it young. -/
theorem young_of_onTime {D S clock now : Int} (fits : D + S < createGrace) {r env : Environment}
    (h : Untouched r env) (hs : env.status = .creating) (hD : now ≤ env.createdAt + D)
    (hS : clock ≤ now + S) : young r clock = true := by
  refine decide_eq_true ⟨h.status.trans hs, ?_⟩
  unfold age
  rw [h.createdAt]
  omega

/-- The assumptions under which calls protect the rows in flight. -/
def Timely (D S : Int) (c : Config) (a : Action) : Prop :=
  OnTime D S c a ∧ Holds RowsOk KeysKnown OwnersDiffer c

theorem inFlight_inductive {D S : Int} (fits : D + S < createGrace) :
    Inductive karr (Timely D S) (fun _ => True) RowUntouched NotHeld where
  spawn := by
    intro c p _ _ hp env h
    rw [fresh_row hp] at h
    cases h
  spawn_pair := by
    intro c p q _ _ hp _
    refine ⟨fun env h => ?_, fun env _ other h => ?_⟩
    · rw [fresh_row hp] at h
      cases h
    · rw [fresh_held hp] at h
      cases h
  outside := by
    intro c e hc hok he
    refine ⟨trivial, fun p hp => ?_⟩
    exact rowUntouched_apply (hc.proc p hp) (hok.2.proc p hp) (outside_insertsFresh he)
      fun _ _ _ _ _ h => outside_untouched he h
  own := by
    intro c k i p e p' hc hok hp hs
    have hmem := List.mem_of_getElem? hp
    have hrule := call_rule hs
    refine ⟨trivial, fun env hrow => ?_⟩
    rcases hrule.row_origin hrow with h | rfl
    · obtain ⟨hst, hci, hsm, hr⟩ := hc.proc p hmem env h
      refine ⟨hst, hci, hsm, fun r' hr' hid => ?_⟩
      rcases World.mem_envs_apply.mp hr' with rfl | ⟨r, hrm, _, rfl⟩
      · have := (rule_insertsFresh hrule r' rfl).1
        have := ((hok.2.proc p hmem).1 env h).1
        omega
      · rw [updateRow_id] at hid
        rw [hrule.keeps_row hrow]
        exact hr r hrm hid
    · have hnew := hrule.insert_fresh
      refine ⟨hnew.2.2.1, hnew.2.2.2.1, hnew.2.2.2.2, fun r hr hid => ?_⟩
      have hrows := rowsOk_apply hok.2.store (rule_insertsFresh hrule)
      have henv : env ∈ (c.store.apply (.insert env)).envs :=
        World.mem_envs_apply.mpr (Or.inl rfl)
      rw [hrows.id_inj r hr env henv hid]
      exact Untouched.refl env
  other := by
    intro c k i p e p' j q hc hok hp hs hjk hq
    have hpm := List.mem_of_getElem? hp
    have hqm := List.mem_of_getElem? hq
    have hrule := call_rule hs
    refine ⟨?_, ?_, ?_⟩
    · refine rowUntouched_apply (hc.proc q hqm) (hok.2.proc q hqm) (rule_insertsFresh hrule) ?_
      intro env hrow r hr hid h
      rw [hrule.updates_known]
      · exact h
      · intro own hown
        rw [hid]
        exact hok.2.pair hjk hq hp env hrow own hown
      · intro held hheld
        rw [hid]
        exact hc.pair hjk hq hp env hrow held hheld
    · intro env hrow other hother
      rcases hrule.row_origin hrow with h | rfl
      · exact hc.pair (Ne.symm hjk) hp hq env h other hother
      · -- the row just inserted is not one another call has read
        have := hrule.insert_fresh.1
        have := ((hok.2.proc q hqm).2 other hother).1
        omega
    · intro env hrow other hother
      rcases hrule.held_origin hother with h | ⟨hmem, clock, rfl, hyoung⟩
      · exact hc.pair hjk hq hp env hrow other h
      · intro hid
        obtain ⟨hst, _, _, hr⟩ := hc.proc q hqm env hrow
        have hD := hok.1.1 env (List.mem_filterMap.mpr ⟨q, hqm, hrow⟩)
        have hS := hok.1.2 clock rfl
        rw [young_of_onTime fits (hr other hmem hid.symm) hst hD hS] at hyoung
        cases hyoung

section Boot
variable {now : Int} {agents : List AgentId} {projects : List ProjectId}
variable {clients : List AgentId} {host : List Container}

theorem inFlight_of_run {D S : Int} (fits : D + S < createGrace) {c : Config}
    (h : karr.Runs (OnTime D S) (boot now agents projects clients host) c) :
    Holds (fun _ => True) RowUntouched NotHeld c :=
  (inFlight_inductive fits).holds_of_run ⟨trivial, by simp [boot], by simp [boot]⟩
    (h.strengthen rows_of_run)

end Boot

/-! ## Without agent deletes the row also stays -/

def RowPresent (w : World) (p : Call) : Prop :=
  (∀ d, p ≠ .delete d) ∧ ∀ env, p.row = some env → ∃ r ∈ w.envs, r.id = env.id

theorem survives {w : World} {e : Effect} {id : Nat} (h : ∃ r ∈ w.envs, r.id = id)
    (keep : ∀ r, r.id = id → e.drops r = false) : ∃ r ∈ (w.apply e).envs, r.id = id := by
  obtain ⟨r, hr, hid⟩ := h
  exact ⟨e.updateRow r, World.mem_envs_apply.mpr (Or.inr ⟨r, hr, keep r hid, rfl⟩),
    (updateRow_id e r).trans hid⟩

theorem CallRule.create_drops {w : World} {p p' : Call} {i : Input} {e : Effect}
    (h : CallRule w p i e p') {env : Environment} (hrow : p'.row = some env) (r : Environment) :
    e.drops r = false := by
  cases h with
  | create h => cases h <;> rfl
  | _ => cases hrow

theorem CallRule.not_delete {w : World} {p p' : Call} {i : Input} {e : Effect}
    (h : CallRule w p i e p') (hp : ∀ d, p ≠ .delete d) : ∀ d, p' ≠ .delete d := by
  cases h with
  | delete h => exact absurd rfl (hp _)
  | _ => simp

theorem apply_locks {w : World} {e : Effect} (rows : ∀ ids, e ≠ .lockRows ids)
    (unlocked : w.locks = []) : (w.apply e).locks = [] := by
  cases e
  case lockRows ids => exact absurd rfl (rows ids)
  all_goals simp [World.apply, World.update, World.drop, unlocked]

/-- Only the delete of an agent keeps a transaction open over rows. -/
theorem CallRule.locks_none {w : World} {p p' : Call} {i : Input} {e : Effect}
    (h : CallRule w p i e p') (hp : ∀ d, p ≠ .delete d) (ids : List Nat) : e ≠ .lockRows ids := by
  rintro rfl
  cases h with
  | delete h => exact hp _ rfl
  | create h => cases h
  | transition h => cases h
  | remove h => cases h
  | pass h => cases h

/-- Calls of the environment service only, with the rows in flight protected. -/
def Protected (c : Config) (a : Action) : Prop :=
  environmentCall a = true ∧ Holds (fun _ => True) RowUntouched NotHeld c

theorem present_inductive :
    Inductive karr Protected (fun w => w.locks = []) RowPresent (fun _ _ => True) where
  spawn := by
    intro c p _ hok hp
    refine ⟨?_, fun env h => ?_⟩
    · rintro d rfl
      exact absurd hok.1 (by simp [environmentCall])
    · rw [fresh_row hp] at h
      cases h
  spawn_pair := fun _ _ _ _ => ⟨trivial, trivial⟩
  outside := by
    intro c e hc _ he
    refine ⟨apply_locks (by rintro ids rfl; cases he) hc.store,
      fun p hp => ⟨(hc.proc p hp).1, fun env hrow => ?_⟩⟩
    exact survives ((hc.proc p hp).2 env hrow) fun r _ => outside_drops he r
  own := by
    intro c k i p e p' hc _ hp hs
    have hrule := call_rule hs
    have hpp := hc.proc p (List.mem_of_getElem? hp)
    refine ⟨apply_locks (hrule.locks_none hpp.1) hc.store, hrule.not_delete hpp.1,
      fun env hrow => ?_⟩
    rcases hrule.row_origin hrow with h | rfl
    · exact survives (hpp.2 env h) fun r _ => hrule.create_drops hrow r
    · exact ⟨env, World.mem_envs_apply.mpr (Or.inl rfl), rfl⟩
  other := by
    intro c k i p e p' j q hc hok hp hs hjk hq
    have hpp := hc.proc p (List.mem_of_getElem? hp)
    have hqq := hc.proc q (List.mem_of_getElem? hq)
    refine ⟨⟨hqq.1, fun env hrow => ?_⟩, trivial, trivial⟩
    refine survives (hqq.2 env hrow) fun r hid => ?_
    refine (call_rule hs).drops_held (fun held hheld => ?_) hpp.1
    rw [hid]
    exact hok.2.pair hjk hq hp env hrow held hheld

/-- A remove that reads a row still in flight answers 409 and changes nothing. -/
theorem remove_answers_409 {w : World} {id : Nat} {row : Environment} {clock : Int}
    (hfind : w.find id = some row) (hy : young row clock = true) :
    removeStep w (.start id) (.run clock) =
      some (.none, .done (.apiError 409 "environment is still being created")) := by
  simp [removeStep, hfind, hy]

/-- The final commit writes the status, the message and the id BONNIE returned. -/
theorem finish_row {w : World} {id : Nat} {containerId : ContainerId}
    (h : ∃ r ∈ w.envs, r.id = id) :
    ∃ r ∈ (w.apply (.finish id containerId)).envs, r.id = id ∧ r.status = .stopped ∧
      r.statusMessage = "" ∧ r.containerId = containerId := by
  obtain ⟨r, hr, hid⟩ := h
  refine ⟨Effect.updateRow (.finish id containerId) r,
    World.mem_envs_apply.mpr (Or.inr ⟨r, hr, rfl, rfl⟩), ?_⟩
  simp [Effect.updateRow, hid]

theorem find_of_untouched {w : World} (h : RowsOk w) {r env : Environment} (hr : r ∈ w.envs)
    (hid : r.id = env.id) : w.find env.id = some r := by
  cases hf : w.find env.id with
  | none =>
    have := List.find?_eq_none.mp hf r hr
    exact absurd hid (by simpa using this)
  | some s =>
    obtain ⟨hs, hsid⟩ := World.find_mem hf
    rw [h.id_inj s hs r hr (hsid.trans hid.symm)]

/-- What `D` and `S` promise of every step, and no delete of an agent. -/
def Graceful (D S : Int) (c : Config) (a : Action) : Prop :=
  OnTime D S c a ∧ environmentCall a = true

instance (D S : Int) (c : Config) (a : Action) : Decidable (Graceful D S c a) :=
  inferInstanceAs (Decidable (OnTime D S c a ∧ environmentCall a = true))

/-! ## A remove or a pass reads the table once -/

/-- The remove or the pass has read its rows. -/
def Call.hasRead : Call → Bool
  | .remove (.start _) => false
  | .remove _ => true
  | .pass (.start _) => false
  | .pass (.listed _ _) => false
  | .pass _ => true
  | _ => false

theorem row_of_hasRead {p : Call} (h : p.hasRead = true) : p.row = none := by
  cases p with
  | create p => cases h
  | _ => rfl

theorem CallRule.hasRead {w : World} {p p' : Call} {i : Input} {e : Effect}
    (h : CallRule w p i e p') (hr : p.hasRead = true) :
    p'.hasRead = true ∧ ∀ env ∈ p'.held, env ∈ p.held := by
  cases h with
  | remove h =>
    have fail (env : Environment) (message : String) :
        Call.hasRead (.remove (Remove.fail env message)) = true := by
      unfold Remove.fail
      split <;> rfl
    cases h <;> first
      | exact ⟨fail _ _, fun env henv => by rwa [Call.held, remove_held_fail] at henv⟩
      | simp_all [Call.hasRead, Call.held, Remove.held]
  | pass h => cases h <;> simp_all [Call.hasRead, Call.held, Pass.held]
  | _ => cases hr

/-- The call has read the table and may not write the row. -/
def Spares (id : Nat) (k : Nat) (c : Config) : Prop :=
  ∃ q, c.procs[k]? = some q ∧ q.hasRead = true ∧ ∀ other ∈ q.held, other.id ≠ id

theorem spares_exec {id k : Nat} {c c' : Config} {a : Action} (h : Spares id k c)
    (he : karr.exec c a = some c') : Spares id k c' := by
  obtain ⟨q, hq, hread, hheld⟩ := h
  have hlt := (List.getElem?_eq_some_iff.mp hq).1
  rcases System.exec_cases he with ⟨p, _, _, rfl⟩ | ⟨l, i, p, e, p', _, hp, hs, rfl⟩ |
    ⟨e, _, _, rfl⟩
  · exact ⟨q, by rw [List.getElem?_append_left hlt, hq], hread, hheld⟩
  · rcases eq_or_ne l k with rfl | hlk
    · rw [hq] at hp
      cases hp
      obtain ⟨hread', hsub⟩ := (call_rule hs).hasRead hread
      exact ⟨p', List.getElem?_set_self hlt, hread', fun other ho => hheld other (hsub other ho)⟩
    · exact ⟨q, by rw [List.getElem?_set_ne hlk, hq], hread, hheld⟩
  · exact ⟨q, hq, hread, hheld⟩

theorem spares_step {id k : Nat} {c c' : Config} {i : Input} (h : Spares id k c)
    (he : karr.exec c (.proc k i) = some c') {r : Environment} (hr : r ∈ c.store.envs)
    (hid : r.id = id) : r ∈ c'.store.envs := by
  obtain ⟨q, hq, hread, hheld⟩ := h
  obtain ⟨e, q', hs, rfl⟩ := System.exec_proc hq he
  have hne : ∀ env ∈ q.held, r.id ≠ env.id := fun env henv => hid ▸ (hheld env henv).symm
  refine World.mem_envs_apply.mpr (Or.inr ⟨r, hr, ?_, ?_⟩)
  · exact (call_rule hs).drops_held hne (by rintro d rfl; cases hread)
  · exact (call_rule hs).updates_known (by simp [row_of_hasRead hread]) hne

/-- In-flight protection. While a create has its row, the row is there as it was
inserted; a remove or pass that has read the table by then never writes the row,
now or later; a remove that reads it goes on, to answer 409; and the final commit
goes on too, and leaves the row holding what BONNIE returned. -/
theorem create_protected {D S : Int} (fits : D + S < createGrace) {now : Int}
    {agents : List AgentId} {projects : List ProjectId} {clients : List AgentId}
    {host : List Container} {c : Config}
    (h : karr.Runs (Graceful D S) (boot now agents projects clients host) c)
    {j : Nat} {p : Create} {env : Environment} (hp : c.procs[j]? = some (.create p))
    (hrow : p.row = some env) :
    (∃ r ∈ c.store.envs, r.id = env.id ∧ Untouched r env) ∧
    (∀ (k : Nat) (q : Call), c.procs[k]? = some q → q.hasRead = true →
      ∀ (c₁ c₂ : Config) (i : Input), karr.Runs (fun _ _ => True) c c₁ →
      karr.exec c₁ (.proc k i) = some c₂ →
      ∀ r ∈ c₁.store.envs, r.id = env.id → r ∈ c₂.store.envs) ∧
    (∀ (k : Nat) (clock : Int), c.procs[k]? = some (.remove (.start env.id)) →
      Graceful D S c (.proc k (.run clock)) →
      ∃ c', karr.exec c (.proc k (.run clock)) = some c' ∧ c'.store = c.store ∧
        c'.procs[k]? =
          some (.remove (.done (.apiError 409 "environment is still being created")))) ∧
    (∀ (id : ContainerId) (clock : Int), p = .created env id →
      ∃ c', karr.exec c (.proc j (.run clock)) = some c' ∧
        c'.procs[j]? = some (.create (.saved env)) ∧
        ∃ r ∈ c'.store.envs, r.id = env.id ∧ r.status = .stopped ∧ r.statusMessage = "" ∧
          r.containerId = id) := by
  have hmem : Call.create p ∈ c.procs := List.mem_of_getElem? hp
  have rows : Holds RowsOk KeysKnown OwnersDiffer c := rows_of_run h
  have timely : karr.Runs (OnTime D S) (boot now agents projects clients host) c :=
    h.mono fun _ _ hg => hg.1
  have flight : Holds (fun _ => True) RowUntouched NotHeld c := inFlight_of_run fits timely
  have known : karr.Runs Protected (boot now agents projects clients host) c :=
    (h.strengthen fun hr => inFlight_of_run fits (hr.mono fun _ _ hg => hg.1)).mono
      fun _ _ hg => ⟨hg.1.2, hg.2⟩
  have inv : Holds (fun w => w.locks = []) RowPresent (fun _ _ => True) c :=
    present_inductive.holds_of_run ⟨rfl, by simp [boot], by simp [boot]⟩ known
  have present : ∃ r ∈ c.store.envs, r.id = env.id := (inv.proc _ hmem).2 env hrow
  obtain ⟨status, _, _, untouched⟩ := flight.proc _ hmem env hrow
  refine ⟨?_, ?_, ?_, ?_⟩
  · obtain ⟨r, hr, hid⟩ := present
    exact ⟨r, hr, hid, untouched r hr hid⟩
  · intro k q hq hread c₁ c₂ i hr₁ he r hr hid
    have hkj : j ≠ k := by
      rintro rfl
      rw [hp] at hq
      cases hq
      cases hread
    have spares : Spares env.id k c :=
      ⟨q, hq, hread, fun other ho => (flight.pair hkj hp hq env hrow other ho).symm⟩
    exact spares_step (hr₁.invariant spares fun h _ => spares_exec h) he hr hid
  · intro k clock hk hg
    obtain ⟨r, hr, hid⟩ := present
    have young : young r clock = true :=
      young_of_onTime fits (untouched r hr hid) status
        (hg.1.1 env (List.mem_filterMap.mpr ⟨_, hmem, hrow⟩)) (hg.1.2 clock rfl)
    have hstep : karr.step c.store (.remove (.start env.id)) (.run clock) =
        some (.none, .remove (.done (.apiError 409 "environment is still being created"))) := by
      simp [karr, Call.step, remove_answers_409 (find_of_untouched rows.store hr hid) young]
    have hlt := (List.getElem?_eq_some_iff.mp hk).1
    exact ⟨_, System.exec_of_step hk hstep, rfl, List.getElem?_set_self hlt⟩
  · rintro id clock rfl
    have hstep : karr.step c.store (.create (.created env id)) (.run clock) =
        some (.finish env.id id, .create (.saved env)) := by
      simp [karr, Call.step, createStep, inv.store]
    have hlt := (List.getElem?_eq_some_iff.mp hp).1
    exact ⟨_, System.exec_of_step hp hstep, List.getElem?_set_self hlt, finish_row present⟩

/-- A create whose container BONNIE has made, a remove that is about to read its row,
and a pass that has read it with a foreign container of the same name in its list. -/
def graceActions : List Action :=
  (createActions 0 ⟨1, none, "env", "image", false, [], [], []⟩ "c1").take 7 ++
    [.spawn (.remove (.start 0)), .spawn (.pass (.start 1)),
      .proc 2 (.listed [⟨"c0", "env", .running⟩]), .outside (.tick 25000000),
      .proc 2 (.run 30000000)]

def graceRow : Environment :=
  newRow 0 ⟨1, none, "env", "image", false, [], [], []⟩ 0

theorem create_protected_grace :
    ∃ c, karr.Runs (Graceful 30000000 10000000) (boot 0 [1] [] [1] []) c ∧
      c.procs.map Call.hasRead = [false, false, true] ∧
      (∃ r ∈ c.store.envs, r.id = 0 ∧ r.status = .creating) ∧
      (∃ c', karr.exec c (.proc 1 (.run 30000000)) = some c' ∧ c'.store = c.store ∧
        c'.procs[1]? =
          some (.remove (.done (.apiError 409 "environment is still being created")))) ∧
      ∀ clock : Int, ∃ c', karr.exec c (.proc 0 (.run clock)) = some c' ∧
        ∃ r ∈ c'.store.envs, r.id = 0 ∧ r.status = .stopped ∧ r.statusMessage = "" ∧
          r.containerId = "c1" := by
  obtain ⟨c, hr, hp⟩ := exists_run_of_execute karr.exec
    (fun c a => decide (Graceful 30000000 10000000 c a)) (boot 0 [1] [] [1] []) graceActions
    (fun c => decide ((c.procs[0]? = some (Call.create (.created graceRow "c1")) ∧
        c.procs[1]? = some (Call.remove (.start 0))) ∧
      c.procs.map Call.hasRead = [false, false, true] ∧
      Graceful 30000000 10000000 c (.proc 1 (.run 30000000))))
    (fun _ _ => of_decide_eq_true) (by decide)
  obtain ⟨⟨hcreate, hremove⟩, hread, graceful⟩ := of_decide_eq_true hp
  obtain ⟨⟨r, hrow, hid, untouched⟩, _, refused, finished⟩ :=
    create_protected (by decide) hr hcreate rfl
  refine ⟨c, hr, hread, ⟨r, hrow, hid, untouched.status⟩,
    refused 1 30000000 hremove graceful, fun clock => ?_⟩
  obtain ⟨c', he, _, written⟩ := finished "c1" clock rfl
  exact ⟨c', he, written⟩

end Karr
