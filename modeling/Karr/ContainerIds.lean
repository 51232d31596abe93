import Karr.Invariants.InFlight
import Karr.Invariants.Links

/-!
# The life of a container id

The links alone give the shape of every row and that no two rows of an agent
share a container. That the id is filled in the commit that ends `creating`
needs more: the creates are on time, and passes over one agent do not overlap.
-/

set_option autoImplicit false

namespace Karr

open Interleaving

theorem containerId_inj {w : World} (rows : RowsOk w) (links : RowsLinked w) {r s : Environment}
    (hr : r ∈ w.envs) (hs : s ∈ w.envs) (ha : r.agentId = s.agentId)
    (hc : r.containerId = s.containerId) (hne : r.containerId ≠ "") : r = s := by
  obtain ⟨c, hcm, hca, hci, hcn⟩ := links.linked r hr hne
  obtain ⟨d, hdm, hda, hdi, hdn⟩ := links.linked s hs (hc ▸ hne)
  have : c = d := links.host.id_inj c hcm d hdm (by rw [hca, ha, hda]) (by rw [hci, hc, hdi])
  exact rows.name_inj r hr s hs ha (by rw [← hcn, this, hdn])

theorem row_after {w : World} {e : Effect} (rows : RowsOk w) (hf : InsertsFresh w e)
    {r r' : Environment} (hr : r ∈ w.envs) (hr' : r' ∈ (w.apply e).envs) (hid : r'.id = r.id) :
    r' = e.updateRow r := by
  rcases World.mem_envs_apply.mp hr' with rfl | ⟨s, hs, _, rfl⟩
  · have := (hf r' rfl).1
    have := rows.id_lt r hr
    omega
  · rw [updateRow_id] at hid
    rw [rows.id_inj s hs r hr hid]

/-- No row of the table returns to `creating` or loses its container id. -/
theorem never_back {c c' : Config} {a : Action} (rows : Holds RowsOk KeysKnown OwnersDiffer c)
    (links : Holds RowsLinked CallLinked (fun _ _ => True) c) (he : karr.exec c a = some c')
    {r r' : Environment} (hr : r ∈ c.store.envs) (hr' : r' ∈ c'.store.envs) (hid : r'.id = r.id) :
    (r.status ≠ .creating → r'.status ≠ .creating) ∧ (r.containerId ≠ "" → r'.containerId ≠ "") := by
  rcases System.exec_cases he with ⟨p, _, _, rfl⟩ | ⟨k, i, p, e, p', _, hp, hs, rfl⟩ |
    ⟨e, _, ho, rfl⟩
  · rw [rows.store.id_inj r' hr' r hr hid]
    exact ⟨fun h => h, fun h => h⟩
  · have hmem := List.mem_of_getElem? hp
    have hrule := call_rule hs
    have forward := hrule.forward links.store (links.proc p hmem) (rows.proc p hmem) hr
    rw [row_after rows.store (rule_insertsFresh hrule) hr hr' hid]
    exact ⟨forward.left, forward.filled⟩
  · have forward := outside_forward ho links.store hr
    rw [row_after rows.store (outside_insertsFresh ho) hr hr' hid]
    exact ⟨forward.left, forward.filled⟩

/-! ## Passes that do not overlap -/

/-- A pass reads the rows of an agent while no other pass has read and not committed. -/
def Separate (c : Config) : Action → Prop
  | .proc k (.run _) => ∀ p ∈ c.procs[k]?, ∀ agentId containers,
      p = .pass (.listed agentId containers) → ∀ q ∈ c.procs, ∀ changes,
      q ≠ .pass (.loaded agentId changes)
  | _ => True

def Call.loadedFor (agentId : AgentId) : Call → Bool
  | .pass (.loaded other _) => decide (other = agentId)
  | _ => false

def readsAlone (c : Config) : Action → Bool
  | .proc k (.run _) =>
    match c.procs[k]? with
    | some (.pass (.listed agentId _)) => c.procs.all fun q => !q.loadedFor agentId
    | _ => true
  | _ => true

theorem separate_of_readsAlone {c : Config} {a : Action} (h : readsAlone c a = true) :
    Separate c a := by
  unfold readsAlone at h
  unfold Separate
  split at h
  · rintro p hp agentId containers rfl q hq changes rfl
    rw [Option.mem_def] at hp
    rw [hp] at h
    have := List.all_eq_true.mp h _ hq
    simp [Call.loadedFor] at this
  · trivial

/-- A row a pass has read as `creating` is still `creating`. -/
def StillCreating (w : World) : Call → Prop
  | .pass (.loaded agentId changes) => ∀ ch ∈ changes, ch.loaded.agentId = agentId ∧
      (ch.loaded.status = .creating →
        ∀ r ∈ w.envs, r.id = ch.loaded.id → r.status = .creating)
  | _ => True

def Call.loadedRows : Call → List Environment
  | .pass p => p.held
  | _ => []

/-- Two passes never hold the same row. -/
def Apart (p q : Call) : Prop :=
  ∀ env ∈ p.loadedRows, ∀ other ∈ q.loadedRows, env.id ≠ other.id

theorem fresh_loadedRows {p : Call} (h : karr.fresh p = true) : p.loadedRows = [] := by
  cases p with
  | pass p => exact fresh_held h
  | _ => rfl

/-- Only a pass that reads gets hold of rows to adopt. -/
theorem CallRule.loadedRows_origin {w : World} {p p' : Call} {i : Input} {e : Effect}
    (h : CallRule w p i e p') {env : Environment} (henv : env ∈ p'.loadedRows) :
    env ∈ p.loadedRows ∨ ∃ agentId containers clock, p = .pass (.listed agentId containers) ∧
      i = .run clock ∧ env ∈ w.envs ∧ env.agentId = agentId := by
  cases h with
  | pass h =>
    cases h
    case load agentId containers clock =>
      obtain ⟨ch, hch, rfl⟩ := List.mem_map.mp henv
      obtain ⟨hr, ha⟩ := List.mem_filter.mp (mem_reconcileChanges hch).1
      exact Or.inr ⟨agentId, containers, clock, rfl, rfl, hr, of_decide_eq_true ha⟩
    all_goals cases henv
  | _ => cases henv

/-- Only its create, and a pass that has read it, write to a row in `creating`. -/
theorem CallRule.keeps_creating {w : World} {p p' : Call} {i : Input} {e : Effect}
    (h : CallRule w p i e p') (hl : CallLinked w p) {r : Environment} (hr : r ∈ w.envs)
    (creating : r.status = .creating) (owned : ∀ env, p.row = some env → r.id ≠ env.id)
    (apart : ∀ env ∈ p.loadedRows, r.id ≠ env.id) : e.updateRow r = r := by
  have settled {env : Environment} (hs : Settled w env) : r.id ≠ env.id :=
    fun hid => (hs.2 r hr hid).1 creating
  cases h with
  | create h =>
    cases h
    case finish env _ _ _ => exact if_neg (owned env rfl)
    case mark env _ _ _ => exact if_neg (owned env rfl)
    all_goals rfl
  | transition h =>
    cases h
    case write => exact if_neg (settled hl.1)
    all_goals rfl
  | remove h =>
    cases h
    case mark => exact if_neg (settled hl)
    all_goals rfl
  | pass h =>
    refine (CallRule.pass h).updates_known (fun env henv => by cases henv) ?_
    exact fun env henv => apart env henv
  | delete h => cases h <;> rfl

/-- Passes that do not overlap, in a state whose invariants are known. -/
def Adopting (c : Config) (a : Action) : Prop :=
  Separate c a ∧ Holds RowsOk KeysKnown OwnersDiffer c ∧
  Holds RowsLinked CallLinked (fun _ _ => True) c ∧ Holds (fun _ => True) RowUntouched NotHeld c

theorem stillCreating_of_read {w : World} (rows : RowsOk w) {agentId : AgentId}
    {containers : List ContainerInfo} {clock : Int} :
    StillCreating w (.pass (.loaded agentId (reconcileChanges clock containers
      (w.envs.filter fun r => decide (r.agentId = agentId))))) := by
  intro ch hch
  obtain ⟨hr, ha⟩ := List.mem_filter.mp (mem_reconcileChanges hch).1
  refine ⟨of_decide_eq_true ha, fun creating r hrm hid => ?_⟩
  rwa [rows.id_inj r hrm _ hr hid]

/-- A pass that reads finds no row another pass holds. -/
theorem apart_of_read {c : Config} {k : Nat} {p p' q : Call} {i : Input} {e : Effect}
    (hok : Adopting c (.proc k i)) (h : CallRule c.store p i e p') (hp : c.procs[k]? = some p)
    (hq : q ∈ c.procs) (still : StillCreating c.store q) (apart : Apart p q) : Apart p' q := by
  intro env henv other hother
  rcases h.loadedRows_origin henv with h | ⟨agentId, containers, clock, rfl, rfl, hr, ha⟩
  · exact apart env h other hother
  · rintro hid
    cases q with
    | pass q =>
      cases q with
      | loaded otherId changes =>
        obtain ⟨ch, hch, rfl⟩ := List.mem_map.mp hother
        have hne : otherId ≠ agentId := by
          rintro rfl
          exact hok.1 _ hp otherId containers rfl _ hq changes rfl
        have same := ((hok.2.1.proc _ hq).2 ch.loaded hother).2 env hr hid
        exact hne (by rw [← (still ch hch).1, ← same.agentId, ha])
      | _ => cases hother
    | _ => cases hother

theorem stillCreating_inductive :
    Inductive karr Adopting (fun _ => True) StillCreating Apart where
  spawn := by
    intro c p _ _ hp
    rcases p with p | p | p | p | p <;> cases p <;> simp_all [karr, Call.fresh, StillCreating]
  spawn_pair := by
    intro c p q _ _ hp _
    have none := fresh_loadedRows hp
    exact ⟨fun env henv => by simp [none] at henv, fun _ _ other ho => by simp [none] at ho⟩
  outside := by
    intro c e hc hok he
    refine ⟨trivial, fun p hp => ?_⟩
    have hl := hc.proc p hp
    cases p with
    | pass p =>
      cases p with
      | loaded agentId changes =>
        intro ch hch
        refine ⟨(hl ch hch).1, fun creating r' hr' hid => ?_⟩
        rcases World.mem_envs_apply.mp hr' with hi | ⟨r, hr, _, rfl⟩
        · exact absurd hi ((outside_frame he).1 r')
        · rw [((outside_frame he).2 r).1]
          exact (hl ch hch).2 creating r hr (updateRow_id e r ▸ hid)
      | _ => trivial
    | _ => trivial
  own := by
    intro c k i p e p' hc hok hp hs
    refine ⟨trivial, ?_⟩
    cases call_rule hs with
    | pass h =>
      cases h
      case load => exact stillCreating_of_read hok.2.1.store
      all_goals trivial
    | _ => trivial
  other := by
    intro c k i p e p' j q hc hok hp hs hjk hq
    have hpm := List.mem_of_getElem? hp
    have hqm := List.mem_of_getElem? hq
    have hrule := call_rule hs
    have apart : Apart p' q :=
      apart_of_read hok hrule hp hqm (hc.proc q hqm) (hc.pair hjk.symm hp hq)
    refine ⟨?_, apart, fun env henv other ho => (apart other ho env henv).symm⟩
    have hl := hc.proc q hqm
    cases q with
    | pass q =>
      cases q with
      | loaded agentId changes =>
        intro ch hch
        refine ⟨(hl ch hch).1, fun creating r' hr' hid => ?_⟩
        have hheld : ch.loaded ∈ Call.held (.pass (.loaded agentId changes)) :=
          List.mem_map.mpr ⟨ch, hch, rfl⟩
        rcases World.mem_envs_apply.mp hr' with rfl | ⟨r, hr, _, rfl⟩
        · have := (rule_insertsFresh hrule r' rfl).1
          have := ((hok.2.1.proc _ hqm).2 _ hheld).1
          omega
        · rw [updateRow_id] at hid
          have hcr := (hl ch hch).2 creating r hr hid
          rw [hrule.keeps_creating (hok.2.2.1.proc p hpm) hr hcr]
          · exact hcr
          · intro env hrow
            rw [hid]
            exact (hok.2.2.2.pair hjk.symm hp hq env hrow _ hheld).symm
          · intro env henv
            rw [hid]
            exact (hc.pair hjk.symm hp hq env henv _ hheld).symm
      | _ => trivial
    | _ => trivial

/-- A container id is written in the commit that ends `creating`, and only there. -/
theorem filled_once {c c' : Config} {a : Action} (rows : Holds RowsOk KeysKnown OwnersDiffer c)
    (links : Holds RowsLinked CallLinked (fun _ _ => True) c)
    (flight : Holds (fun _ => True) RowUntouched NotHeld c)
    (still : Holds (fun _ => True) StillCreating Apart c) (he : karr.exec c a = some c')
    {r r' : Environment} (hr : r ∈ c.store.envs) (hr' : r' ∈ c'.store.envs) (hid : r'.id = r.id)
    (hne : r'.containerId ≠ r.containerId) :
    r.status = .creating ∧ r.containerId = "" ∧ r'.status ≠ .creating ∧ r'.containerId ≠ "" := by
  rcases System.exec_cases he with ⟨p, _, _, rfl⟩ | ⟨k, i, p, e, p', _, hp, hs, rfl⟩ |
    ⟨e, _, ho, rfl⟩
  · exact absurd (by rw [rows.store.id_inj r' hr' r hr hid]) hne
  · have hmem := List.mem_of_getElem? hp
    have hrule := call_rule hs
    have hrow := row_after rows.store (rule_insertsFresh hrule) hr hr' hid
    rw [hrow] at hne ⊢
    rcases updateRow_containerId hne with ⟨id, containerId, rfl, hrid⟩ |
      ⟨changes, rfl, ch, hch, hcid, hw⟩
    · -- the final commit of the create whose row this is
      cases hrule with
      | create h =>
        cases h
        case finish env _ _ _ =>
          obtain ⟨status, bare, _, untouched⟩ := flight.proc _ hmem env rfl
          have hu := untouched r hr hrid
          refine ⟨hu.status.trans status, hu.containerId.trans bare, ?_, ?_⟩
          · simp [Effect.updateRow, hrid]
          · simpa [Effect.updateRow, hrid] using (links.proc _ hmem).1
      | transition h => cases h
      | remove h => cases h
      | pass h => cases h
      | delete h => cases h
    · -- a pass; a row it loaded after `creating` keeps its id
      rw [hw] at hne ⊢
      cases hrule with
      | pass h =>
        cases h
        case flush agentId _ _ =>
          have hl := links.proc _ hmem ch hch
          rcases hl.loaded with ⟨creating, bare⟩ | ⟨_, kept, _⟩
          · obtain ⟨status, hid⟩ := write_adopted hl creating bare r
            have hcr := (still.proc _ hmem ch hch).2 creating r hr hcid.symm
            rcases hid with ⟨_, same⟩ | ⟨filled, same⟩
            · exact absurd same hne
            · exact ⟨hcr, (links.store.shape r hr).1 hcr, status ▸ hl.left, same ▸ filled⟩
          · exact absurd (write_observed kept r).1 hne
      | create h => cases h
      | transition h => cases h
      | remove h => cases h
      | delete h => cases h
  · rw [row_after rows.store (outside_insertsFresh ho) hr hr' hid] at hne
    exact absurd ((outside_frame ho).2 r).2.2 hne

/-- BONNIE is honest, creates are on time, and passes over one agent do not overlap. -/
def Orderly (D S : Int) (c : Config) (a : Action) : Prop :=
  Bonnie c a ∧ OnTime D S c a ∧ Separate c a

theorem orderly_of_checks {D S : Int} {c : Config} {a : Action}
    (h : (decide (Bonnie c a) && (decide (OnTime D S c a) && readsAlone c a)) = true) :
    Orderly D S c a := by
  simp only [Bool.and_eq_true, decide_eq_true_eq] at h
  exact ⟨h.1, h.2.1, separate_of_readsAlone h.2.2⟩

/-- The shape of rows, the uniqueness of container ids and the life of one. The last
part is about runs whose passes do not overlap. -/
theorem containerId_laws {D S : Int} (fits : D + S < createGrace) {now : Int}
    {agents : List AgentId} {projects : List ProjectId} {clients : List AgentId}
    {host : List Container} (hosts : HostOk (boot now agents projects clients host).store)
    {c : Config} (h : karr.Runs Bonnie (boot now agents projects clients host) c) :
    (∀ r ∈ c.store.envs, r.Shape) ∧
    (∀ r ∈ c.store.envs, ∀ s ∈ c.store.envs, r.agentId = s.agentId →
      r.containerId = s.containerId → r.containerId ≠ "" → r = s) ∧
    (∀ (a : Action) (c' : Config), karr.exec c a = some c' →
      ∀ r ∈ c.store.envs, ∀ r' ∈ c'.store.envs, r'.id = r.id →
        (r.status ≠ .creating → r'.status ≠ .creating) ∧
        (r.containerId ≠ "" → r'.containerId ≠ "")) ∧
    (karr.Runs (Orderly D S) (boot now agents projects clients host) c →
      ∀ (a : Action) (c' : Config), karr.exec c a = some c' →
      ∀ r ∈ c.store.envs, ∀ r' ∈ c'.store.envs, r'.id = r.id →
        r'.containerId ≠ r.containerId →
        r.status = .creating ∧ r.containerId = "" ∧ r'.status ≠ .creating ∧
          r'.containerId ≠ "") := by
  have rows : Holds RowsOk KeysKnown OwnersDiffer c := rows_of_run h
  have links : Holds RowsLinked CallLinked (fun _ _ => True) c := links_of_run hosts h
  refine ⟨links.store.shape, ?_, ?_, ?_⟩
  · exact fun r hr s hs => containerId_inj rows.store links.store hr hs
  · exact fun a c' he r hr r' hr' => never_back rows links he hr hr'
  · intro orderly a c' he r hr r' hr' hid hne
    have onTime : karr.Runs (OnTime D S) (boot now agents projects clients host) c :=
      orderly.mono fun _ _ ho => ho.2.1
    have flight := inFlight_of_run fits onTime
    have adopting : karr.Runs Adopting (boot now agents projects clients host) c :=
      (orderly.strengthen fun hr => And.intro (rows_of_run hr)
        (And.intro (links_of_run hosts (hr.mono fun _ _ ho => ho.1))
          (inFlight_of_run fits (hr.mono fun _ _ ho => ho.2.1)))).mono
        fun _ _ ho => ⟨ho.1.2.2, ho.2⟩
    have still : Holds (fun _ => True) StillCreating Apart c :=
      stillCreating_inductive.holds_of_run ⟨trivial, by simp [boot], by simp [boot]⟩ adopting
    exact filled_once rows links flight still he hr hr' hid hne

/-- A create whose process stops after BONNIE made the container, and passes that find
the row past its grace: one with a list from before that, if `stale`, and one with
the container in its list that has yet to commit. -/
def crashActions (stale : Bool) : List Action :=
  [.spawn (.pass (.start 1)), .proc 0 (.listed [])] ++
  (createActions 1 ⟨1, none, "env", "image", false, [], [], []⟩ "c1").take 7 ++
  [.proc 1 .crash, .outside (.tick 61000000),
    .spawn (.pass (.start 1)), .proc 2 (.listed [⟨"c1", "env", .created⟩])] ++
  if stale then [.proc 0 (.run 61000000), .proc 2 (.run 61000000), .proc 0 (.flush true)]
  else [.proc 2 (.run 61000000)]

/-- Two versions of a row before and after the commit of a pass that fills its id. -/
def fills (c : Config) (k : Nat) (p : Environment → Environment → Bool) : Bool :=
  (karr.exec c (.proc k (.flush true))).any fun c' => c.store.envs.any fun r =>
    c'.store.envs.any fun r' => decide (r'.id = r.id ∧ r'.containerId ≠ r.containerId) && p r r'

theorem exists_of_fills {c : Config} {k : Nat} {p : Environment → Environment → Bool}
    (h : fills c k p = true) : ∃ c', karr.exec c (.proc k (.flush true)) = some c' ∧
      ∃ r ∈ c.store.envs, ∃ r' ∈ c'.store.envs, r'.id = r.id ∧
        r'.containerId ≠ r.containerId ∧ p r r' = true := by
  obtain ⟨c', he, h⟩ := (Option.any_eq_true _ _).mp h
  obtain ⟨r, hr, h⟩ := List.any_eq_true.mp h
  obtain ⟨r', hr', h⟩ := List.any_eq_true.mp h
  rw [Bool.and_eq_true, decide_eq_true_eq] at h
  exact ⟨c', he, r, hr, r', hr', h.1.1, h.1.2, h.2⟩

theorem containerId_laws_adopted :
    ∃ c c', karr.Runs (Orderly 30000000 0) (boot 0 [1] [] [1] []) c ∧
      karr.exec c (.proc 2 (.flush true)) = some c' ∧
      ∃ r ∈ c.store.envs, ∃ r' ∈ c'.store.envs, r'.id = r.id ∧ r'.containerId = "c1" ∧
        r.status = .creating ∧ r'.status ≠ .creating ∧ r.containerId = "" := by
  obtain ⟨c, hr, hp⟩ := exists_run_of_execute karr.exec
    (fun c a => decide (Bonnie c a) && (decide (OnTime 30000000 0 c a) && readsAlone c a))
    (boot 0 [1] [] [1] []) (crashActions false)
    (fun c => fills c 2 fun _ r' => decide (r'.containerId = "c1"))
    (fun c a => orderly_of_checks) (by decide)
  obtain ⟨c', he, r, hmem, r', hmem', hid, hne, hc⟩ := exists_of_fills hp
  have onTime : (30000000 : Int) + 0 < createGrace := by decide
  obtain ⟨_, _, _, once⟩ := containerId_laws onTime hostOk_empty
    (hr.mono fun _ _ ho => ho.1)
  obtain ⟨creating, bare, left, _⟩ := once hr _ c' he r hmem r' hmem' hid hne
  exact ⟨c, c', hr, he, r, hmem, r', hmem', hid, of_decide_eq_true hc, creating, left, bare⟩

/-- The last part of the laws for passes that may overlap. -/
def FilledOnceAlways : Prop :=
  ∀ (D S : Int), D + S < createGrace → ∀ (now : Int) (agents : List AgentId)
    (projects : List ProjectId) (clients : List AgentId) (host : List Container),
    HostOk (boot now agents projects clients host).store → ∀ c : Config,
    karr.Runs (fun c a => Bonnie c a ∧ OnTime D S c a) (boot now agents projects clients host) c →
    ∀ (a : Action) (c' : Config), Bonnie c a → OnTime D S c a → karr.exec c a = some c' →
    ∀ r ∈ c.store.envs, ∀ r' ∈ c'.store.envs, r'.id = r.id → r'.containerId ≠ r.containerId →
      r.status = .creating ∧ r.containerId = "" ∧ r'.status ≠ .creating ∧ r'.containerId ≠ ""

/-- One pass marks the row `error`, then the other one fills the id of that row. -/
theorem not_filledOnceAlways : ¬ FilledOnceAlways := by
  intro always
  obtain ⟨c, hr, hp⟩ := exists_run_of_execute karr.exec
    (fun c a => decide (Bonnie c a) && decide (OnTime 30000000 0 c a))
    (boot 0 [1] [] [1] []) (crashActions true)
    (fun c => (decide (Bonnie c (.proc 2 (.flush true))) &&
      decide (OnTime 30000000 0 c (.proc 2 (.flush true)))) &&
      fills c 2 fun r _ => decide (r.status ≠ .creating))
    (fun c a h => by simpa only [Bool.and_eq_true, decide_eq_true_eq] using h) (by decide)
  rw [Bool.and_eq_true, Bool.and_eq_true, decide_eq_true_eq, decide_eq_true_eq] at hp
  obtain ⟨c', he, r, hmem, r', hmem', hid, hne, hc⟩ := exists_of_fills hp.2
  have := always 30000000 0 (by decide) 0 [1] [] [1] [] hostOk_empty c hr _ c' hp.1.1 hp.1.2 he
    r hmem r' hmem' hid hne
  exact of_decide_eq_true hc this.1

end Karr
