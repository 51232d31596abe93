import Karr.StatusWrites

/-!
# Rows and the state of their containers

Nothing stops another call between what a call has learnt of a container and
what it writes. Where no other call's request comes between, what it has learnt
is still so as it writes, and rows and containers agree.
-/

set_option autoImplicit false

namespace Karr

open Interleaving

/-- The container an effect makes or changes. -/
def Effect.container : Effect → Option (AgentId × ContainerId)
  | .addContainer c => some (c.agentId, c.id)
  | .setContainer agentId id _ => some (agentId, id)
  | .removeContainer agentId id => some (agentId, id)
  | _ => Option.none

/-- The call has learnt the state of the container and has not written it yet. -/
def Call.knows : Call → AgentId × ContainerId → Bool
  | .create (.created env id), t => decide (t = (env.agentId, id))
  | .transition (.answered env _ _ result), t =>
    decide (result = .ok ∧ t = (env.agentId, env.containerId))
  -- the rows are not read yet, so any container of the list or missing from it
  | .pass (.listed agentId _), t => decide (t.1 = agentId)
  | .pass (.loaded _ changes), t =>
    changes.any fun ch => decide (t = (ch.loaded.agentId, ch.assigned.containerId))
  | _, _ => false

/-- No request changes a container whose state another call is about to write. -/
def LeavesKnown (c : Config) (a : Action) : Prop :=
  ∀ t ∈ (karr.effect c a).bind Effect.container,
    ∀ q ∈ c.procs.zipIdx, actor a ≠ some q.2 → q.1.knows t = false

instance (c : Config) (a : Action) : Decidable (LeavesKnown c a) :=
  inferInstanceAs (Decidable (∀ t ∈ _, ∀ q ∈ _, _))

/-- Honest answers, no calls but creates, starts, stops and passes, and no request between
what another call has learnt and what it writes. -/
def Undisturbed (c : Config) (a : Action) : Prop :=
  Bonnie c a ∧ ownStates a = true ∧ LeavesKnown c a

instance (c : Config) (a : Action) : Decidable (Undisturbed c a) :=
  inferInstanceAs (Decidable (Bonnie c a ∧ _ ∧ LeavesKnown c a))

/-- What a call has learnt is still so. -/
def Informed (w : World) : Call → Prop
  | .create (.created env id) => Shows w.host env.agentId id .stopped ""
  | .transition (.requested verb _ target) => ∃ status, transitions verb status = some target
  | .transition (.answered env status message result) =>
    (result = .ok ∨ status = .error) ∧ Shows w.host env.agentId env.containerId status message
  | .pass (.listed agentId containers) => containers = listContainers agentId w.host
  | .pass (.loaded _ changes) => ∀ ch ∈ changes,
      Shows w.host ch.loaded.agentId ch.assigned.containerId ch.assigned.status
        ch.assigned.statusMessage
  | _ => True

theorem writesTrue_of_informed {c : Config} {a : Action}
    (informed : ∀ p ∈ c.procs, Informed c.store p) : WritesTrue c a := by
  cases a with
  | proc k i =>
    intro p hp wr hwr
    have known := informed p (List.mem_of_getElem? hp)
    unfold Call.writes at hwr
    split at hwr
    · obtain rfl := List.mem_singleton.mp hwr
      exact known
    · obtain rfl := List.mem_singleton.mp hwr
      exact known.2
    · obtain ⟨ch, hch, rfl⟩ := List.mem_map.mp hwr
      exact known ch hch
    · cases hwr
  | _ => trivial

theorem updateContainer_other {e : Effect} {agentId : AgentId} {id : ContainerId}
    (other : ∀ t ∈ e.container, t ≠ (agentId, id)) {c : Container} (ha : c.agentId = agentId)
    (hid : c.id = id) : e.updateContainer c = c := by
  have untouched {a : AgentId} {i : ContainerId} (h : (a, i) ≠ (agentId, id)) :
      ¬ (c.agentId = a ∧ c.id = i) := by
    rintro ⟨rfl, rfl⟩
    exact h (by rw [ha, hid])
  cases e with
  | setContainer a i state => exact update_other (untouched (other _ rfl))
  | removeContainer a i => exact update_other (untouched (other _ rfl))
  | _ => rfl

theorem listContainers_map {f : Container → Container} {agentId : AgentId}
    {host : List Container} (agentId_eq : ∀ c, (f c).agentId = c.agentId)
    (same : ∀ c ∈ host, c.agentId = agentId → f c = c) :
    listContainers agentId (host.map f) = listContainers agentId host := by
  unfold listContainers
  rw [List.filterMap_map]
  refine List.filterMap_congr fun c hc => ?_
  by_cases ha : c.agentId = agentId
  · rw [Function.comp_apply, same c hc ha]
  · rw [Function.comp_apply, if_neg ha, if_neg (by rwa [agentId_eq])]

/-- A list shows the containers of its own agent only. -/
theorem listContainers_apply {w : World} {e : Effect} {agentId : AgentId}
    (other : ∀ t ∈ e.container, t.1 ≠ agentId) :
    listContainers agentId (w.apply e).host = listContainers agentId w.host := by
  have updated {a : AgentId} {id : ContainerId} {state : Option ContainerState}
      (h : a ≠ agentId) :
      listContainers agentId (w.host.map (Container.update a id state)) =
        listContainers agentId w.host :=
    listContainers_map (fun c => (update_sameRecord a id state c).agentId)
      fun c _ ha => update_other fun hc => h (hc.1.symm.trans ha)
  cases e with
  | addContainer new =>
    have : new.agentId ≠ agentId := other _ rfl
    simp [World.apply, listContainers, List.filterMap_append, this]
  | setContainer a id state => exact updated (other _ rfl)
  | removeContainer a id => exact updated (other _ rfl)
  | _ => rfl

/-- What a call has learnt outlasts an effect on containers it does not speak of. -/
theorem informed_apply {w : World} {e : Effect} {p : Call} (h : Informed w p) (kept : Kept w)
    (sound : AgreeSound w p) (linked : CallLinked w p)
    (other : ∀ t ∈ e.container, p.knows t = false) : Informed (w.apply e) p := by
  unfold Informed at h ⊢
  split at h
  case h_1 env id =>
    refine h.keep empty_ne_missing fun c _ => updateContainer_other fun t ht => ?_
    simpa [Call.knows] using other t ht
  case h_2 => exact h
  case h_3 env status message result =>
    refine ⟨h.1, ?_⟩
    rcases h.1 with ok | failed
    · refine h.2.keep sound.2 fun c _ => updateContainer_other fun t ht => ?_
      simpa [Call.knows, ok] using other t ht
    · rw [failed]
      exact shows_of_other (by decide) (by decide) sound.2
  case h_4 agentId containers =>
    rw [listContainers_apply fun t ht => by simpa [Call.knows] using other t ht]
    exact h
  case h_5 changes =>
    intro ch hch
    refine (h ch hch).keep (assigned_ne_missing kept (linked ch hch) (sound ch hch) (h ch hch))
      fun c _ => updateContainer_other fun t ht => ?_
    have unknown := other t ht
    simp only [Call.knows, List.any_eq_false, decide_eq_true_eq] at unknown
    exact unknown ch hch
  case h_6 => trivial

section States
variable {host : List Container} {agentId : AgentId} {id : ContainerId} {c : Container}

theorem shows_running (hc : c ∈ host) (ha : c.agentId = agentId) (hid : c.id = id)
    (state : c.state = some .running) (message : String) :
    Shows host agentId id .running message :=
  ⟨fun _ => ⟨c, hc, ha, hid, state⟩, fun h => (by cases h), fun h => (by cases h)⟩

theorem shows_stopped (hc : c ∈ host) (ha : c.agentId = agentId) (hid : c.id = id)
    {state : ContainerState} (hs : c.state = some state) (other : state ≠ .running)
    (message : String) : Shows host agentId id .stopped message :=
  ⟨fun h => (by cases h),
    fun _ => ⟨c, hc, ha, hid, by simp [hs], fun h => other (Option.some.inj (hs.symm.trans h))⟩,
    fun h => (by cases h)⟩

end States

/-- A status that a pass observed in an honest list is the state of the container. -/
theorem observed_shows {host : List Container} {agentId : AgentId} {id : ContainerId}
    {found : Option ContainerInfo}
    (listed : ∀ info ∈ found, info ∈ listContainers agentId host ∧ info.id = id)
    (missing : found = none → ∀ info ∈ listContainers agentId host, info.id ≠ id) :
    Shows host agentId id (observed found).1 (observed found).2 := by
  cases found with
  | none =>
    refine ⟨fun h => (by cases h), fun h => (by cases h), fun _ _ => ?_⟩
    rintro ⟨c, hc, ha, hid, hs⟩
    obtain ⟨state, hstate⟩ := Option.ne_none_iff_exists'.mp hs
    exact missing rfl ⟨c.id, c.name, state⟩
      (mem_listContainers.mpr ⟨c, hc, ha, rfl, rfl, hstate⟩) hid
  | some info =>
    obtain ⟨hinfo, hid⟩ := listed info rfl
    obtain ⟨c, hc, ha, hci, _, hstate⟩ := mem_listContainers.mp hinfo
    by_cases running : info.state = .running
    · have : observed (some info) = (.running, "") := if_pos running
      rw [this]
      exact shows_running hc ha (hci.trans hid) (by rw [hstate, running]) ""
    · have : observed (some info) = (.stopped, "") := if_neg running
      rw [this]
      exact shows_stopped hc ha (hci.trans hid) hstate running ""

/-- What a pass assigns to a row of its agent is what the list says of the container. -/
theorem reconcileRow_shows {clock : Int} {host : List Container} {env new : Environment}
    (h : reconcileRow clock (listContainers env.agentId host) env = some new) :
    Shows host env.agentId new.containerId new.status new.statusMessage := by
  have rule := reconcileRow_rule h
  cases rule with
  | abandon =>
    exact shows_of_other (fun h => (by cases h)) (fun h => (by cases h))
      createNeverCompleted_ne_missing
  | @adopt container _ _ listed named =>
    refine observed_shows (fun info hinfo => ?_) fun hnone => by cases hnone
    obtain rfl := Option.some.inj hinfo
    exact ⟨listed, rfl⟩
  | observe _ container =>
    exact observed_shows (fun info hinfo => Python.mem_of_dictGet hinfo)
      fun hnone info hinfo => Python.not_mem_of_dictGet hnone hinfo

theorem transitions_state {verb : Verb} {status target : Status}
    (legal : transitions verb status = some target) :
    (target = .running ∧ verb.containerState = .running) ∨
      (target = .stopped ∧ verb.containerState = .exited) := by
  revert legal
  fun_cases transitions verb status <;> rintro ⟨⟩
  · exact Or.inl ⟨rfl, rfl⟩
  · exact Or.inr ⟨rfl, rfl⟩

/-- A start or stop that BONNIE answered leaves the container in the state it writes. -/
theorem shows_transition {w : World} {env : Environment} {verb : Verb} {status target : Status}
    (kept : Kept w) (bound : Bound w env) (legal : transitions verb status = some target) :
    Shows (w.apply (.setContainer env.agentId env.containerId verb.containerState)).host
      env.agentId env.containerId target "" := by
  obtain ⟨c, hc, ha, hid, _⟩ := bound.2
  have state : c.update env.agentId env.containerId (some verb.containerState) =
      { c with state := some verb.containerState } := if_pos ⟨ha, hid, kept.present c hc⟩
  have hmem : { c with state := some verb.containerState } ∈
      (w.apply (.setContainer env.agentId env.containerId verb.containerState)).host :=
    List.mem_map.mpr ⟨c, hc, state⟩
  rcases transitions_state legal with ⟨rfl, hstate⟩ | ⟨rfl, hstate⟩ <;> rw [hstate] at hmem ⊢
  · exact shows_running hmem ha hid rfl ""
  · exact shows_stopped hmem ha hid rfl (by decide) ""

theorem CallRule.informed {w : World} {p p' : Call} {i : Input} {e : Effect}
    (h : CallRule w p i e p') (informed : Informed w p) (kept : Kept w) (sound : AgreeSound w p)
    (honest : ∀ agentId containers, p = .pass (.start agentId) → i = .listed containers →
      containers = listContainers agentId w.host) : Informed (w.apply e) p' := by
  cases h with
  | create h =>
    cases h
    case made env id =>
      have hmem : containerOf env id ∈ (w.apply (.addContainer (containerOf env id))).host :=
        mem_host_apply.mpr (Or.inl rfl)
      exact shows_stopped hmem rfl rfl rfl (by decide) ""
    all_goals trivial
  | transition h =>
    cases h
    case request legal => exact ⟨_, legal⟩
    case act =>
      obtain ⟨status, legal⟩ := informed
      exact ⟨Or.inl rfl, shows_transition kept sound legal⟩
    case lost =>
      exact ⟨Or.inr rfl, shows_of_other (by decide) (by decide) (transitionFailure_ne_missing _ _)⟩
    case fail =>
      exact ⟨Or.inr rfl, shows_of_other (by decide) (by decide) (transitionFailure_ne_missing _ _)⟩
    all_goals trivial
  | remove h => exact absurd sound id
  | pass h =>
    cases h
    case list agentId containers => exact honest agentId containers rfl rfl
    case load agentId containers clock =>
      intro ch hch
      obtain ⟨hmem, hrow⟩ := mem_reconcileChanges hch
      have ha : ch.loaded.agentId = agentId := by simpa using (List.mem_filter.mp hmem).2
      have list : containers = listContainers agentId w.host := informed
      subst ha list
      exact reconcileRow_shows hrow
    all_goals trivial
  | delete h => exact absurd sound id

theorem informed_inductive :
    Inductive karr (fun c a => Undisturbed c a ∧ KeptState c) (fun _ => True) Informed
      (fun _ _ => True) where
  spawn := by
    intro c p _ _ hp
    rcases p with p | p | p | p | p <;> cases p <;> simp_all [karr, Call.fresh, Informed]
  spawn_pair := fun _ _ _ _ => ⟨trivial, trivial⟩
  outside := by
    intro c e hc hok he
    have calls := hok.1.2.1
    have nothing : e.container = none := by cases e <;> simp_all [ownStates, Effect.container]
    refine ⟨trivial, fun p hp => ?_⟩
    refine informed_apply (hc.proc p hp) hok.2.kept.store (hok.2.kept.proc p hp)
      (hok.2.linked.links.proc p hp) fun t ht => ?_
    rw [nothing] at ht
    cases ht
  own := by
    intro c k i p e p' hc hok hp hs
    have hmem := List.mem_of_getElem? hp
    refine ⟨trivial, (call_rule hs).informed (hc.proc p hmem) hok.2.kept.store
      (hok.2.kept.proc p hmem) ?_⟩
    rintro agentId containers rfl rfl
    exact hok.1.1.honest hp
  other := by
    intro c k i p e p' j q hc hok hp hs hjk hq
    have hmem := List.mem_of_getElem? hq
    refine ⟨informed_apply (hc.proc q hmem) hok.2.kept.store (hok.2.kept.proc q hmem)
      (hok.2.linked.links.proc q hmem) fun t ht => ?_, trivial, trivial⟩
    have changed : t ∈ (karr.effect c (.proc k i)).bind Effect.container := by
      rwa [System.effect_proc hp hs]
    exact hok.1.2.2 t changed (q, j) (List.mem_zipIdx_iff_getElem?.mpr hq) fun hk =>
      hjk (Option.some.inj hk).symm

/-- In an undisturbed run every write is true as it is committed. -/
theorem truthful_of_undisturbed {now : Int} {agents : List AgentId} {projects : List ProjectId}
    {clients : List AgentId} {host : List Container}
    (hosts : HostOk (boot now agents projects clients host).store)
    (present : ∀ c ∈ host, c.state ≠ none) {c : Config}
    (h : karr.Runs Undisturbed (boot now agents projects clients host) c) :
    karr.Runs Truthful (boot now agents projects clients host) c ∧
      Holds (fun _ => True) Informed (fun _ _ => True) c := by
  induction h with
  | refl => exact ⟨.refl, trivial, by simp [boot], fun _ _ _ => trivial⟩
  | @step d d' a _ hok he ih =>
    obtain ⟨run, informed⟩ := ih
    have truthful : Truthful d a := ⟨hok.1, hok.2.1, writesTrue_of_informed informed.proc⟩
    exact ⟨.step run truthful he,
      informed_inductive.exec_holds informed ⟨hok, keptState_of_run hosts present run⟩ he⟩

/-- Where no request changes a container whose state another call is about to write, every
row agrees with its container in every state in which no call is in flight. -/
theorem rows_agree {now : Int} {agents : List AgentId} {projects : List ProjectId}
    {clients : List AgentId} {host : List Container}
    (hosts : HostOk (boot now agents projects clients host).store)
    (present : ∀ c ∈ host, c.state ≠ none) {c : Config}
    (h : karr.Runs Undisturbed (boot now agents projects clients host) c)
    (ended : ∀ p ∈ c.procs, p.finished = true) :
    ∀ r ∈ c.store.envs, Agrees c.store.host r :=
  agrees_of_truthful hosts present (truthful_of_undisturbed hosts present h).1 ended

/-- A create, a start, a pass whose list shows the container running, and a stop: the
pass commits before the stop acts, or reads the row once the stop has ended. -/
def overlapActions (stale : Bool) : List Action :=
  createActions 0 ⟨1, none, "env", "image", false, [], [], []⟩ "c1" ++
  [.spawn (.transition (.start .start 0)), .proc 1 (.run 0), .proc 1 .ok, .proc 1 (.run 0),
    .spawn (.pass (.start 1)), .proc 2 (.listed [⟨"c1", "env", .running⟩]),
    .spawn (.transition (.start .stop 0)), .proc 3 (.run 0)] ++
  if stale then [.proc 3 .ok, .proc 3 (.run 0), .proc 2 (.run 0), .proc 2 (.flush true)]
  else [.proc 2 (.run 0), .proc 3 .ok, .proc 3 (.run 0)]

theorem rows_agree_overlap :
    ∃ c, karr.Runs Undisturbed (boot 0 [1] [] [1] []) c ∧
      c.store.host.map Container.state = [some .exited] ∧
      c.store.envs.map Environment.status = [.stopped] ∧
      ∀ r ∈ c.store.envs, Agrees c.store.host r := by
  obtain ⟨c, hr, hp⟩ := exists_run_of_execute karr.exec (fun c a => decide (Undisturbed c a))
    (boot 0 [1] [] [1] []) (overlapActions false)
    (fun c => decide ((∀ p ∈ c.procs, p.finished = true) ∧
      c.store.host.map Container.state = [some ContainerState.exited] ∧
      c.store.envs.map Environment.status = [Status.stopped]))
    (fun _ _ => of_decide_eq_true) (by decide)
  obtain ⟨ended, hhost, henvs⟩ := of_decide_eq_true hp
  exact ⟨c, hr, hhost, henvs, rows_agree hostOk_empty (by simp) hr ended⟩

def RowsAgreeAlways : Prop :=
  ∀ (now : Int) (agents : List AgentId) (projects : List ProjectId) (clients : List AgentId)
    (host : List Container), HostOk (boot now agents projects clients host).store →
    (∀ c ∈ host, c.state ≠ none) → ∀ c : Config,
    karr.Runs (fun c a => Bonnie c a ∧ ownStates a = true)
      (boot now agents projects clients host) c →
    (∀ p ∈ c.procs, p.finished = true) → ∀ r ∈ c.store.envs, Agrees c.store.host r

/-- The pass listed before the stop and read after it: the row says `running` again. -/
theorem not_rowsAgreeAlways : ¬ RowsAgreeAlways := by
  intro always
  obtain ⟨c, hr, hp⟩ := exists_run_of_execute karr.exec
    (fun c a => decide (Bonnie c a ∧ ownStates a = true))
    (boot 0 [1] [] [1] []) (overlapActions true)
    (fun c => decide ((∀ p ∈ c.procs, p.finished = true) ∧
      ∃ r ∈ c.store.envs, ¬ Agrees c.store.host r))
    (fun _ _ => of_decide_eq_true) (by decide)
  obtain ⟨ended, r, hrow, disagrees⟩ := of_decide_eq_true hp
  exact disagrees (always 0 [1] [] [1] [] hostOk_empty (by simp) c hr ended r hrow)

end Karr
