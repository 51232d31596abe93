import Karr.Invariants.Links

/-!
# What a commit says of a container

A call that acts on a container writes what came of it in a later step, and a
pass writes what a list showed. Where each such write is still true as it is
committed, the rows agree with the containers whenever no call is in flight.
-/

set_option autoImplicit false

namespace Karr

open Interleaving

/-- What a row of this status and message says of the container. -/
structure Shows (host : List Container) (agentId : AgentId) (id : ContainerId) (status : Status)
    (message : String) : Prop where
  running : status = .running → ∃ c ∈ host, c.agentId = agentId ∧ c.id = id ∧
    c.state = some .running
  stopped : status = .stopped → ∃ c ∈ host, c.agentId = agentId ∧ c.id = id ∧
    c.state ≠ none ∧ c.state ≠ some .running
  missing : status = .error → message = containerMissing → ¬ OnHost host agentId id

instance (host : List Container) (agentId : AgentId) (id : ContainerId) (status : Status)
    (message : String) : Decidable (Shows host agentId id status message) :=
  decidable_of_iff ((status = .running → ∃ c ∈ host, c.agentId = agentId ∧ c.id = id ∧
      c.state = some .running) ∧
    (status = .stopped → ∃ c ∈ host, c.agentId = agentId ∧ c.id = id ∧
      c.state ≠ none ∧ c.state ≠ some .running) ∧
    (status = .error → message = containerMissing → ¬ OnHost host agentId id))
    ⟨fun h => ⟨h.1, h.2.1, h.2.2⟩, fun h => ⟨h.running, h.stopped, h.missing⟩⟩

def Agrees (host : List Container) (r : Environment) : Prop :=
  Shows host r.agentId r.containerId r.status r.statusMessage

instance (host : List Container) (r : Environment) : Decidable (Agrees host r) :=
  inferInstanceAs (Decidable (Shows _ _ _ _ _))

/-- What the next commit of a call says of containers. -/
structure Write where
  agentId : AgentId
  containerId : ContainerId
  status : Status
  message : String

def Call.writes : Call → List Write
  | .create (.created env id) => [⟨env.agentId, id, .stopped, ""⟩]
  | .transition (.answered env status message _) =>
    [⟨env.agentId, env.containerId, status, message⟩]
  | .pass (.loaded _ changes) => changes.map fun ch =>
    ⟨ch.loaded.agentId, ch.assigned.containerId, ch.assigned.status, ch.assigned.statusMessage⟩
  | _ => []

/-- A commit says of the containers what is true of them at that moment. -/
def WritesTrue (c : Config) : Action → Prop
  | .proc k _ => ∀ p ∈ c.procs[k]?, ∀ w ∈ p.writes,
      Shows c.store.host w.agentId w.containerId w.status w.message
  | _ => True

instance (c : Config) (a : Action) : Decidable (WritesTrue c a) := by
  unfold WritesTrue
  split <;> infer_instance

/-- Creates, starts, stops and passes that do not stop, over containers only they act on. -/
def ownStates : Action → Bool
  | .spawn (.remove _) => false
  | .spawn (.delete _) => false
  | .proc _ .crash => false
  | .outside (.addContainer _) => false
  | .outside (.setContainer _ _ _) => false
  | .outside (.removeContainer _ _) => false
  | _ => true

/-- Honest answers, and no write that is out of date. -/
def Truthful (c : Config) (a : Action) : Prop :=
  Bonnie c a ∧ ownStates a = true ∧ WritesTrue c a

instance (c : Config) (a : Action) : Decidable (Truthful c a) :=
  inferInstanceAs (Decidable (Bonnie c a ∧ _ ∧ WritesTrue c a))

/-! ## Nothing disappears -/

/-- No row and no container ever goes, and no row says its container is missing. -/
structure Kept (w : World) : Prop where
  present : ∀ c ∈ w.host, c.state ≠ none
  message : ∀ r ∈ w.envs, r.statusMessage ≠ containerMissing

/-- The row of `env` is there, and its container id is one of a container with its name. -/
def Bound (w : World) (env : Environment) : Prop :=
  (∃ r ∈ w.envs, r.id = env.id) ∧ Linked w.host env.agentId env.containerId env.name

def AgreeSound (w : World) : Call → Prop
  | .create (.failed _ message) => message ≠ containerMissing
  | .transition (.requested _ env _) => Bound w env
  | .transition (.answered env _ message _) => Bound w env ∧ message ≠ containerMissing
  | .remove _ => False
  | .delete _ => False
  | .pass (.loaded _ changes) => ∀ ch ∈ changes, ch.assigned.statusMessage = containerMissing →
      ch.assigned.status = .error ∧ ch.assigned.containerId ≠ ""
  | _ => True

theorem onHost_of_linked {w : World} (kept : Kept w) {agentId : AgentId} {id : ContainerId}
    {name : String} (h : Linked w.host agentId id name) : OnHost w.host agentId id := by
  obtain ⟨c, hc, ha, hid, _⟩ := h
  exact ⟨c, hc, ha, hid, kept.present c hc⟩

/-- While nothing disappears, a name belongs to one container for good. -/
theorem linked_inj {w : World} (host : HostOk w) (kept : Kept w) {agentId : AgentId}
    {id id' : ContainerId} {name : String} (h : Linked w.host agentId id name)
    (h' : Linked w.host agentId id' name) : id = id' := by
  obtain ⟨c, hc, ha, hid, hn⟩ := h
  obtain ⟨d, hd, ha', hid', hn'⟩ := h'
  have : c = d := host.name_inj c hc d hd (ha.trans ha'.symm) (hn.trans hn'.symm)
    (kept.present c hc) (kept.present d hd)
  rw [← hid, ← hid', this]

/-- No pass can truthfully miss a container that was ever there. -/
theorem assigned_ne_missing {w : World} {ch : Change} (kept : Kept w) (linked : ChangeLinked w ch)
    (sound : ch.assigned.statusMessage = containerMissing →
      ch.assigned.status = .error ∧ ch.assigned.containerId ≠ "")
    (shows : Shows w.host ch.loaded.agentId ch.assigned.containerId ch.assigned.status
      ch.assigned.statusMessage) : ch.assigned.statusMessage ≠ containerMissing := by
  intro hm
  obtain ⟨status, hne⟩ := sound hm
  exact shows.missing status hm (onHost_of_linked kept (linked.linked hne))

theorem CallRule.keeps_rows {w : World} {p p' : Call} {i : Input} {e : Effect}
    (h : CallRule w p i e p') (sound : AgreeSound w p) (r : Environment) : e.drops r = false := by
  cases h with
  | create h => cases h <;> rfl
  | transition h => cases h <;> rfl
  | remove h => exact absurd sound id
  | pass h => cases h <;> rfl
  | delete h => exact absurd sound id

theorem present_apply {w : World} {e : Effect} (h : ∀ c ∈ w.host, c.state ≠ none)
    (new : ∀ c, e = .addContainer c → c.state ≠ none)
    (removes : ∀ agentId id, e ≠ .removeContainer agentId id) :
    ∀ c ∈ (w.apply e).host, c.state ≠ none := by
  intro d hd
  rcases mem_host_apply.mp hd with he | ⟨c, hc, rfl⟩
  · exact new d he
  · have hs := h c hc
    cases e with
    | setContainer agentId id state =>
      simp only [Effect.updateContainer, Container.update]
      split
      · exact Option.some_ne_none state
      · exact hs
    | removeContainer agentId id => exact absurd rfl (removes agentId id)
    | _ => exact hs

theorem bound_apply {w : World} {e : Effect} {env : Environment} (h : Bound w env)
    (keep : ∀ r, e.drops r = false) : Bound (w.apply e) env := by
  obtain ⟨⟨r, hr, hid⟩, linked⟩ := h
  exact ⟨⟨e.updateRow r, World.mem_envs_apply.mpr (Or.inr ⟨r, hr, keep r, rfl⟩),
    (updateRow_id e r).trans hid⟩, linked_apply linked e⟩

theorem agreeSound_apply {w : World} {e : Effect} {p : Call} (h : AgreeSound w p)
    (keep : ∀ r, e.drops r = false) : AgreeSound (w.apply e) p := by
  unfold AgreeSound at h ⊢
  split at h
  · exact h
  · exact bound_apply h keep
  · exact ⟨bound_apply h.1 keep, h.2⟩
  · exact h
  · exact h
  · exact h
  · trivial

theorem write_message {ch : Change} {r : Environment}
    (row : r.statusMessage ≠ containerMissing)
    (assigned : ch.assigned.statusMessage ≠ containerMissing) :
    (ch.write r).statusMessage ≠ containerMissing := by
  simp only [Change.write]
  split
  · exact row
  · exact assigned

/-- What a flush assigns says no container is missing. -/
theorem flush_ne_missing {c : Config} {k : Nat} {agentId : AgentId} {changes : List Change}
    {i : Input} (hp : c.procs[k]? = some (.pass (.loaded agentId changes)))
    (writes : WritesTrue c (.proc k i)) (kept : Kept c.store)
    (linked : ∀ ch ∈ changes, ChangeLinked c.store ch)
    (sound : AgreeSound c.store (.pass (.loaded agentId changes))) {ch : Change}
    (hch : ch ∈ changes) :
    ch.assigned.statusMessage ≠ containerMissing ∧
      Shows c.store.host ch.loaded.agentId ch.assigned.containerId ch.assigned.status
        ch.assigned.statusMessage := by
  have shows := writes _ hp _ (List.mem_map.mpr ⟨ch, hch, rfl⟩)
  exact ⟨assigned_ne_missing kept (linked ch hch) (sound ch hch) shows, shows⟩

theorem CallRule.message {c : Config} {k : Nat} {p p' : Call} {i : Input} {e : Effect}
    (h : CallRule c.store p i e p') (hp : c.procs[k]? = some p)
    (writes : WritesTrue c (.proc k i)) (kept : Kept c.store) (linked : CallLinked c.store p)
    (sound : AgreeSound c.store p) {r : Environment} (hr : r ∈ c.store.envs) :
    (e.updateRow r).statusMessage ≠ containerMissing := by
  have hm := kept.message r hr
  have setStatus {id : Nat} {status : Status} {message : String}
      (hne : message ≠ containerMissing) :
      (Effect.updateRow (.setStatus id status message) r).statusMessage ≠ containerMissing := by
    simp only [Effect.updateRow]
    split
    · exact hne
    · exact hm
  cases h with
  | create h =>
    cases h
    case finish =>
      simp only [Effect.updateRow]
      split
      · exact empty_ne_missing
      · exact hm
    case mark => exact setStatus sound
    all_goals exact hm
  | transition h =>
    cases h
    case write => exact setStatus sound.2
    all_goals exact hm
  | remove h => exact absurd sound id
  | pass h =>
    cases h
    case flush agentId changes strict unlocked =>
      rcases updateRow_flush changes r with hrow | ⟨ch, hch, _, hrow⟩ <;> rw [hrow]
      · exact hm
      · exact write_message hm (flush_ne_missing hp writes kept linked sound hch).1
    all_goals exact hm
  | delete h => exact absurd sound id

theorem CallRule.agreeSound {w : World} {p p' : Call} {i : Input} {e : Effect}
    (h : CallRule w p i e p') (links : RowsLinked w) (sound : AgreeSound w p) :
    AgreeSound (w.apply e) p' := by
  have keep := h.keeps_rows sound
  cases h with
  | create h =>
    cases h
    case refuse => exact noClient_ne_missing
    case lostMade => exact createFailure_ne_missing _
    case fail => exact createFailure_ne_missing _
    all_goals trivial
  | transition h =>
    cases h
    case request env _ found legal =>
      have henv := (World.find_mem found).1
      have hne := (links.shape _ henv).2 (transitions_shape legal).1
      exact ⟨⟨env, henv, rfl⟩, links.linked _ henv hne⟩
    case act => exact ⟨bound_apply sound keep, empty_ne_missing⟩
    case lost => exact ⟨bound_apply sound keep, transitionFailure_ne_missing _ _⟩
    case fail => exact ⟨bound_apply sound keep, transitionFailure_ne_missing _ _⟩
    all_goals trivial
  | remove h => exact sound
  | pass h =>
    cases h
    case load =>
      intro ch hch hm
      obtain ⟨_, hrow⟩ := mem_reconcileChanges hch
      obtain ⟨loaded, assigned⟩ := ch
      have rule : ReconcileRule _ _ loaded assigned := reconcileRow_rule hrow
      cases rule with
      | abandon => exact absurd hm createNeverCompleted_ne_missing
      | adopt => cases observed_missing hm
      | observe _ container =>
        refine ⟨?_, container⟩
        change (observed _).1 = .error
        rw [observed_missing hm]
        rfl
    all_goals trivial
  | delete h => exact sound

theorem CallRule.adds {w : World} {p p' : Call} {i : Input} {new : Container}
    (h : CallRule w p i (.addContainer new) p') : new.state ≠ none := by
  rcases h with h | h | h | h | h <;> cases h <;> exact Option.some_ne_none _

theorem kept_inductive :
    Inductive karr (fun c a => Truthful c a ∧ LinkedState c) Kept AgreeSound
      (fun _ _ => True) where
  spawn := by
    intro c p _ hok hp
    have calls := hok.1.2.1
    rcases p with p | p | p | p | p <;> cases p <;>
      simp_all [karr, Call.fresh, AgreeSound, ownStates]
  spawn_pair := fun _ _ _ _ => ⟨trivial, trivial⟩
  outside := by
    intro c e hc hok he
    have calls := hok.1.2.1
    refine ⟨⟨present_apply hc.store.present ?_ ?_, fun r' hr' => ?_⟩,
      fun p hp => agreeSound_apply (hc.proc p hp) (outside_drops he)⟩
    · rintro new rfl
      cases calls
    · rintro agentId id rfl
      cases calls
    · rcases World.mem_envs_apply.mp hr' with hi | ⟨r, hr, _, rfl⟩
      · exact absurd hi ((outside_frame he).1 r')
      · rw [((outside_frame he).2 r).2.1]
        exact hc.store.message r hr
  own := by
    intro c k i p e p' hc hok hp hs
    have hmem := List.mem_of_getElem? hp
    have hrule := call_rule hs
    have sound := hc.proc p hmem
    refine ⟨⟨present_apply hc.store.present ?_ ?_, fun r' hr' => ?_⟩,
      hrule.agreeSound hok.2.links.store sound⟩
    · rintro new rfl
      exact hrule.adds
    · rintro agentId id rfl
      rcases hrule with h | h | h | h | h
      · cases h
      · cases h
      · exact sound
      · cases h
      · exact sound
    · rcases World.mem_envs_apply.mp hr' with rfl | ⟨r, hr, _, rfl⟩
      · rw [hrule.insert_fresh.2.2.2.2]
        decide
      · exact hrule.message hp hok.1.2.2 hc.store (hok.2.links.proc p hmem) sound hr
  other := by
    intro c k i p e p' j q hc _ hp hs hjk hq
    exact ⟨agreeSound_apply (hc.proc q (List.mem_of_getElem? hq))
      ((call_rule hs).keeps_rows (hc.proc p (List.mem_of_getElem? hp))), trivial, trivial⟩

/-! ## A row that disagrees has a writer -/

/-- The container a call has acted on without having written the row yet. -/
def Call.acted : Call → Option (AgentId × ContainerId)
  | .transition (.answered env _ _ _) => some (env.agentId, env.containerId)
  | _ => none

def Pending (c : Config) (r : Environment) : Prop :=
  ∃ (j : Nat) (q : Call), c.procs[j]? = some q ∧ q.acted = some (r.agentId, r.containerId)

def Agreeing (c : Config) : Prop :=
  ∀ r ∈ c.store.envs, Agrees c.store.host r ∨ Pending c r

theorem shows_of_other {host : List Container} {agentId : AgentId} {id : ContainerId}
    {status : Status} {message : String} (running : status ≠ .running)
    (stopped : status ≠ .stopped) (hm : message ≠ containerMissing) :
    Shows host agentId id status message :=
  ⟨fun h => absurd h running, fun h => absurd h stopped, fun _ h => absurd h hm⟩

theorem Shows.change {host : List Container} {agentId : AgentId} {id : ContainerId}
    {status : Status} {message message' : String} (h : Shows host agentId id status message)
    (hm : message' ≠ containerMissing) : Shows host agentId id status message' :=
  ⟨h.running, h.stopped, fun _ h => absurd h hm⟩

theorem Shows.keep {w : World} {e : Effect} {agentId : AgentId} {id : ContainerId}
    {status : Status} {message : String} (h : Shows w.host agentId id status message)
    (hm : message ≠ containerMissing)
    (same : ∀ c ∈ w.host, c.agentId = agentId → c.id = id → e.updateContainer c = c) :
    Shows (w.apply e).host agentId id status message := by
  have stay {c : Container} (hc : c ∈ w.host) (ha : c.agentId = agentId) (hid : c.id = id) :
      c ∈ (w.apply e).host :=
    mem_host_apply.mpr (Or.inr ⟨c, hc, same c hc ha hid⟩)
  refine ⟨fun hs => ?_, fun hs => ?_, fun _ hmiss => absurd hmiss hm⟩
  · obtain ⟨c, hc, ha, hid, hstate⟩ := h.running hs
    exact ⟨c, stay hc ha hid, ha, hid, hstate⟩
  · obtain ⟨c, hc, ha, hid, hstate⟩ := h.stopped hs
    exact ⟨c, stay hc ha hid, ha, hid, hstate⟩

theorem update_other {agentId : AgentId} {id : ContainerId} {state : Option ContainerState}
    {c : Container} (h : ¬ (c.agentId = agentId ∧ c.id = id)) : c.update agentId id state = c :=
  if_neg fun hc => h ⟨hc.1, hc.2.1⟩

/-- A call that has not acted leaves the pending rows to the others. -/
theorem Pending.step {c : Config} {k : Nat} {p p' : Call} {e : Effect} {r r' : Environment}
    (h : Pending c r) (hp : c.procs[k]? = some p) (agentId : r'.agentId = r.agentId)
    (containerId : r'.containerId = r.containerId)
    (other : p.acted ≠ some (r.agentId, r.containerId)) :
    Pending ⟨c.store.apply e, c.procs.set k p'⟩ r' := by
  obtain ⟨j, q, hq, hacted⟩ := h
  rcases eq_or_ne j k with rfl | hjk
  · rw [hp] at hq
    cases hq
    exact absurd hacted other
  · exact ⟨j, q, by rw [List.getElem?_set_ne hjk.symm, hq], by rw [agentId, containerId, hacted]⟩

/-- A transition that writes is the only one to have acted for its row. -/
theorem bound_acted {c : Config} {env r : Environment} (st : LinkedState c)
    (bound : Bound c.store env) (known : KeyKnown c.store env) (hne : env.containerId ≠ "")
    (hr : r ∈ c.store.envs) (ha : env.agentId = r.agentId)
    (hc : env.containerId = r.containerId) : r.id = env.id := by
  obtain ⟨⟨s, hs, hsid⟩, d, hd, hda, hdi, hdn⟩ := bound
  obtain ⟨d', hd', hda', hdi', hdn'⟩ := st.links.store.linked r hr (hc ▸ hne)
  have hdd : d = d' := st.links.store.host.id_inj d hd d' hd' (by rw [hda, ha, hda'])
    (by rw [hdi, hc, hdi'])
  have same := known.2 s hs hsid
  have : s = r := st.rows.store.name_inj s hs r hr (by rw [same.agentId, ha])
    (by rw [same.name, ← hdn, hdd, hdn'])
  rw [← this, hsid]

/-- The row a transition writes still has the container it acted on. -/
theorem bound_containerId {c : Config} {env r : Environment} (st : LinkedState c)
    (kept : Kept c.store) (bound : Bound c.store env) (known : KeyKnown c.store env)
    (settled : Settled c.store env) (hr : r ∈ c.store.envs) (hid : r.id = env.id) :
    r.containerId = env.containerId := by
  have same := known.2 r hr hid
  have linked := st.links.store.linked r hr (settled.2 r hr hid).2
  rw [same.agentId, same.name] at linked
  exact linked_inj st.links.store.host kept linked bound.2

theorem agrees_write {c : Config} {ch : Change} {r : Environment} (st : LinkedState c)
    (kept : Kept c.store) (hl : ChangeLinked c.store ch) (known : KeyKnown c.store ch.loaded)
    (hr : r ∈ c.store.envs) (hid : ch.loaded.id = r.id)
    (hm : ch.assigned.statusMessage ≠ containerMissing)
    (shows : Shows c.store.host ch.loaded.agentId ch.assigned.containerId ch.assigned.status
      ch.assigned.statusMessage) :
    Agrees c.store.host (ch.write r) ∨
      ((ch.write r).status = r.status ∧ (ch.write r).containerId = r.containerId) := by
  have same := known.2 r hr hid.symm
  have hmsg := write_message (kept.message r hr) hm
  have agentId : (ch.write r).agentId = ch.loaded.agentId := same.agentId
  unfold Agrees
  rcases hl.loaded with ⟨creating, bare⟩ | ⟨_, same_cid, settled⟩
  · obtain ⟨status, containerId⟩ := write_adopted hl creating bare r
    rw [agentId, status]
    rcases containerId with ⟨hb, _⟩ | ⟨_, hc⟩
    · -- given up: the pass found no container
      refine Or.inl (shows_of_other (fun h => ?_) (fun h => ?_) hmsg)
      · exact hl.shape.2 (Or.inl h) hb
      · exact hl.shape.2 (Or.inr h) hb
    · rw [hc]
      exact Or.inl (shows.change hmsg)
  · obtain ⟨hcid, hstatus | hstatus⟩ := write_observed same_cid r
    · exact Or.inr ⟨hstatus, hcid⟩
    · have linked := st.links.store.linked r hr (settled.2 r hr hid.symm).2
      rw [same.agentId, same.name] at linked
      have hne : ch.assigned.containerId ≠ "" := same_cid ▸ settled.1
      have := linked_inj st.links.store.host kept linked (hl.linked hne)
      rw [agentId, hstatus, hcid, this]
      exact Or.inl (shows.change hmsg)

section Agrees
variable {c : Config} {k : Nat} {i : Input} {e : Effect} {r : Environment}

/-- After a step of call `k`, which becomes `p'`, the row agrees or has a writer. -/
def AgreesAfter (c : Config) (k : Nat) (p' : Call) (e : Effect) (r : Environment) : Prop :=
  Agrees (c.store.apply e).host (e.updateRow r) ∨
    Pending ⟨c.store.apply e, c.procs.set k p'⟩ (e.updateRow r)

/-- Neither the row nor its container changes, and the call has acted on another one. -/
theorem agreesAfter_of_unchanged {p p' : Call} (hp : c.procs[k]? = some p)
    (hm : r.statusMessage ≠ containerMissing) (agrees : Agrees c.store.host r ∨ Pending c r)
    (hrow : e.updateRow r = r)
    (same : ∀ d ∈ c.store.host, d.agentId = r.agentId → d.id = r.containerId →
      e.updateContainer d = d)
    (other : p.acted ≠ some (r.agentId, r.containerId)) : AgreesAfter c k p' e r := by
  rw [AgreesAfter, hrow]
  exact agrees.imp (fun ha => ha.keep hm same) fun hpend => hpend.step hp rfl rfl other

theorem CreateRule.agrees {p p' : Create} (h : CreateRule c.store p i e p')
    (hp : c.procs[k]? = some (.create p)) (writes : WritesTrue c (.proc k i)) (st : LinkedState c)
    (kept : Kept c.store) (sound : AgreeSound c.store (.create p)) (hr : r ∈ c.store.envs)
    (agrees : Agrees c.store.host r ∨ Pending c r) : AgreesAfter c k (.create p') e r := by
  have unchanged (hrow : e.updateRow r = r) (same : ∀ d, e.updateContainer d = d) :
      AgreesAfter c k (.create p') e r :=
    agreesAfter_of_unchanged hp (kept.message r hr) agrees hrow (fun d _ _ _ => same d)
      (by simp [Call.acted])
  cases h
  case finish env id _ _ =>
    by_cases hid : r.id = env.id
    · have shows := writes _ hp _ (List.mem_singleton_self _)
      have same := ((st.rows.proc _ (List.mem_of_getElem? hp)).1 env rfl).2 r hr hid
      refine Or.inl ?_
      simp only [Effect.updateRow, if_pos hid, Agrees, same.agentId]
      exact shows
    · exact unchanged (if_neg hid) fun _ => rfl
  case mark env message _ _ =>
    by_cases hid : r.id = env.id
    · refine Or.inl ?_
      simp only [Effect.updateRow, if_pos hid, Agrees]
      exact shows_of_other (by decide) (by decide) sound
    · exact unchanged (if_neg hid) fun _ => rfl
  all_goals exact unchanged rfl fun _ => rfl

theorem TransitionRule.agrees {p p' : Transition} (h : TransitionRule c.store p i e p')
    (hp : c.procs[k]? = some (.transition p)) (writes : WritesTrue c (.proc k i))
    (calls : ownStates (.proc k i) = true) (st : LinkedState c) (kept : Kept c.store)
    (sound : AgreeSound c.store (.transition p)) (hr : r ∈ c.store.envs)
    (agrees : Agrees c.store.host r ∨ Pending c r) : AgreesAfter c k (.transition p') e r := by
  have hmem := List.mem_of_getElem? hp
  have hm := kept.message r hr
  have acts {env : Environment} {verb : Verb} {p'' : Transition}
      (he : e = .setContainer env.agentId env.containerId verb.containerState)
      (hacted : Call.acted (.transition p'') = some (env.agentId, env.containerId))
      (hp'' : p' = p'') (other : Call.acted (.transition p) = none) :
      AgreesAfter c k (.transition p') e r := by
    subst he hp''
    by_cases hc : env.agentId = r.agentId ∧ env.containerId = r.containerId
    · refine Or.inr ⟨k, _, List.getElem?_set_self (List.getElem?_eq_some_iff.mp hp).1, ?_⟩
      rw [hacted, hc.1, hc.2]
      rfl
    · refine agreesAfter_of_unchanged hp hm agrees rfl
        (fun d _ ha hid => update_other fun hd => hc ?_) (by simp [other])
      exact ⟨hd.1.symm.trans ha, hd.2.symm.trans hid⟩
  cases h
  case act => exact acts rfl rfl rfl rfl
  case lost => exact acts rfl rfl rfl rfl
  case write env status message result clock unlocked =>
    obtain ⟨bound, _⟩ := sound
    have known := (st.rows.proc _ hmem).2 env (List.mem_singleton_self env)
    have settled : Settled c.store env := (st.links.proc _ hmem).1
    by_cases hid : r.id = env.id
    · have shows := writes _ hp _ (List.mem_singleton_self _)
      have same := known.2 r hr hid
      refine Or.inl ?_
      simp only [Effect.updateRow, if_pos hid, Agrees, same.agentId,
        bound_containerId st kept bound known settled hr hid]
      exact shows
    · refine agreesAfter_of_unchanged hp hm agrees (if_neg hid) (fun _ _ _ _ => rfl)
        fun hacted => hid ?_
      obtain ⟨ha, hc⟩ := Prod.mk.inj (Option.some.inj hacted)
      exact bound_acted st bound known settled.1 hr ha hc
  case crash => cases calls
  all_goals
    exact agreesAfter_of_unchanged hp hm agrees rfl (fun _ _ _ _ => rfl) (by simp [Call.acted])

theorem PassRule.agrees {p p' : Pass} (h : PassRule c.store p i e p')
    (hp : c.procs[k]? = some (.pass p)) (writes : WritesTrue c (.proc k i)) (st : LinkedState c)
    (kept : Kept c.store) (sound : AgreeSound c.store (.pass p)) (hr : r ∈ c.store.envs)
    (agrees : Agrees c.store.host r ∨ Pending c r) : AgreesAfter c k (.pass p') e r := by
  have hmem := List.mem_of_getElem? hp
  have hm := kept.message r hr
  cases h
  case flush agentId changes strict unlocked =>
    rcases updateRow_flush changes r with hrow | ⟨ch, hch, hid, hrow⟩
    · exact agreesAfter_of_unchanged hp hm agrees hrow (fun _ _ _ _ => rfl) (by simp [Call.acted])
    · have linked : ChangeLinked c.store ch := st.links.proc _ hmem ch hch
      have known := (st.rows.proc _ hmem).2 ch.loaded (List.mem_map.mpr ⟨ch, hch, rfl⟩)
      obtain ⟨hne, shows⟩ := flush_ne_missing hp writes kept (st.links.proc _ hmem) sound hch
      rw [AgreesAfter, hrow]
      rcases agrees_write st kept linked known hr hid hne shows with ha | ⟨hs, hc⟩
      · exact Or.inl ha
      · refine agrees.imp (fun ha => ?_) fun hpend => hpend.step hp rfl hc (by simp [Call.acted])
        unfold Agrees at ha ⊢
        rw [hs, hc]
        exact ha.change (write_message hm hne)
  all_goals
    exact agreesAfter_of_unchanged hp hm agrees rfl (fun _ _ _ _ => rfl) (by simp [Call.acted])

/-- The step lemma. -/
theorem CallRule.agrees {p p' : Call} (h : CallRule c.store p i e p') (hp : c.procs[k]? = some p)
    (writes : WritesTrue c (.proc k i)) (calls : ownStates (.proc k i) = true)
    (st : LinkedState c) (kept : Kept c.store) (sound : AgreeSound c.store p)
    (hr : r ∈ c.store.envs) (agrees : Agrees c.store.host r ∨ Pending c r) :
    AgreesAfter c k p' e r := by
  cases h with
  | create h => exact h.agrees hp writes st kept sound hr agrees
  | transition h => exact h.agrees hp writes calls st kept sound hr agrees
  | remove h => exact absurd sound id
  | pass h => exact h.agrees hp writes st kept sound hr agrees
  | delete h => exact absurd sound id

end Agrees

theorem agreeing_exec {c c' : Config} {a : Action} (h : Agreeing c) (hok : Truthful c a)
    (st : LinkedState c) (kept : Holds Kept AgreeSound (fun _ _ => True) c)
    (he : karr.exec c a = some c') : Agreeing c' := by
  intro r' hr'
  rcases System.exec_cases he with ⟨p, _, _, rfl⟩ | ⟨k, i, p, e, p', rfl, hp, hs, rfl⟩ |
    ⟨e, rfl, ho, rfl⟩
  · rcases h r' hr' with ha | ⟨j, q, hq, hacted⟩
    · exact Or.inl ha
    · have hlt := (List.getElem?_eq_some_iff.mp hq).1
      exact Or.inr ⟨j, q, by rw [List.getElem?_append_left hlt, hq], hacted⟩
  · have hrule := call_rule hs
    rcases World.mem_envs_apply.mp hr' with rfl | ⟨r, hr, _, rfl⟩
    · have creating := hrule.insert_fresh.2.2.1
      refine Or.inl (shows_of_other ?_ ?_ ?_)
      · rw [creating]
        decide
      · rw [creating]
        decide
      · rw [hrule.insert_fresh.2.2.2.2]
        exact empty_ne_missing
    · exact hrule.agrees hp hok.2.2 hok.2.1 st kept.store (kept.proc p (List.mem_of_getElem? hp)) hr
        (h r hr)
  · have calls := hok.2.1
    rcases World.mem_envs_apply.mp hr' with hi | ⟨r, hr, _, rfl⟩
    · exact absurd hi ((outside_frame ho).1 r')
    · obtain ⟨status, message, containerId⟩ := (outside_frame ho).2 r
      have agentId := (updateRow_sameKey e r).agentId
      rcases h r hr with ha | ⟨j, q, hq, hacted⟩
      · refine Or.inl ?_
        unfold Agrees at ha ⊢
        rw [status, message, containerId, agentId]
        refine ha.keep (kept.store.message r hr) fun d _ _ _ => ?_
        cases e <;> first
          | rfl
          | cases calls
      · exact Or.inr ⟨j, q, hq, by rw [agentId, containerId, hacted]⟩

/-- Nothing has disappeared and every row has its container. -/
structure KeptState (c : Config) : Prop where
  linked : LinkedState c
  kept : Holds Kept AgreeSound (fun _ _ => True) c

section Truthful
variable {now : Int} {agents : List AgentId} {projects : List ProjectId}
variable {clients : List AgentId} {host : List Container} {c : Config}

theorem keptState_of_run (hosts : HostOk (boot now agents projects clients host).store)
    (present : ∀ c ∈ host, c.state ≠ none)
    (h : karr.Runs Truthful (boot now agents projects clients host) c) : KeptState c := by
  have linked {c : Config} (h : karr.Runs Truthful (boot now agents projects clients host) c) :
      LinkedState c :=
    linkedState_of_run hosts (h.mono fun _ _ ho => ho.1)
  refine ⟨linked h, kept_inductive.holds_of_run
    ⟨⟨?_, by simp [boot]⟩, by simp [boot], fun _ _ _ => trivial⟩ (h.strengthen linked)⟩
  intro d' hd'
  obtain ⟨d, hd, rfl⟩ := List.mem_map.mp hd'
  exact present d hd

/-- Where all writes are true as they are committed, every row agrees with its container
whenever no call is in flight. -/
theorem agrees_of_truthful (hosts : HostOk (boot now agents projects clients host).store)
    (present : ∀ c ∈ host, c.state ≠ none)
    (h : karr.Runs Truthful (boot now agents projects clients host) c)
    (ended : ∀ p ∈ c.procs, p.finished = true) :
    ∀ r ∈ c.store.envs, Agrees c.store.host r := by
  have agreeing : Agreeing c := by
    refine (h.strengthen (keptState_of_run hosts present)).invariant ?_ ?_
    · simp [Agreeing, boot]
    · exact fun ha hok he => agreeing_exec ha hok.1 hok.2.linked hok.2.kept he
  intro r hr
  rcases agreeing r hr with ha | ⟨j, q, hq, hacted⟩
  · exact ha
  · -- a call that has acted and not written is in flight
    have := ended q (List.mem_of_getElem? hq)
    cases q with
    | transition p => cases p <;> first | cases hacted | cases this
    | _ => cases hacted

end Truthful

end Karr
