import Karr.Invariants.Hosts

/-!
# Rows and their containers

The container id of a row is the id of a container that had the row's name on
the row's host; the status tells whether there is one. It is filled by a create
that BONNIE answered or by a pass that found the name, and never emptied.
-/

set_option autoImplicit false

namespace Karr

open Interleaving

/-- A row being created has no container id yet, a running or stopped one has. -/
def Environment.Shape (r : Environment) : Prop :=
  (r.status = .creating → r.containerId = "") ∧
  (r.status = .running ∨ r.status = .stopped → r.containerId ≠ "")

def RowLinked (w : World) (r : Environment) : Prop :=
  r.containerId ≠ "" → Linked w.host r.agentId r.containerId r.name

structure RowsLinked (w : World) : Prop where
  host : HostOk w
  shape : ∀ r ∈ w.envs, r.Shape
  linked : ∀ r ∈ w.envs, RowLinked w r

/-- The call read the row with a container id, so the row has left `creating`. -/
def Settled (w : World) (env : Environment) : Prop :=
  env.containerId ≠ "" ∧ ∀ r ∈ w.envs, r.id = env.id → r.status ≠ .creating ∧ r.containerId ≠ ""

/-- What a pass is about to write to a row. -/
structure ChangeLinked (w : World) (ch : Change) : Prop where
  left : ch.assigned.status ≠ .creating
  shape : ch.assigned.Shape
  linked : ch.assigned.containerId ≠ "" →
    Linked w.host ch.loaded.agentId ch.assigned.containerId ch.loaded.name
  loaded : (ch.loaded.status = .creating ∧ ch.loaded.containerId = "") ∨
    (ch.loaded.status ≠ .creating ∧ ch.assigned.containerId = ch.loaded.containerId ∧
      Settled w ch.loaded)

def CallLinked (w : World) : Call → Prop
  | .create (.created env id) => id ≠ "" ∧ Linked w.host env.agentId id env.name
  | .transition (.requested _ env target) => Settled w env ∧ target ≠ .creating
  | .transition (.answered env status _ _) => Settled w env ∧ status ≠ .creating
  | .remove (.requested env) => Settled w env
  | .remove (.marking env _) => Settled w env
  | .pass (.listed agentId containers) =>
    ∀ info ∈ containers, info.id ≠ "" ∧ Linked w.host agentId info.id info.name
  | .pass (.loaded _ changes) => ∀ ch ∈ changes, ChangeLinked w ch
  | _ => True

/-- What a statement does to one row: it stays linked and never goes back. -/
structure Forward (w : World) (e : Effect) (r : Environment) : Prop where
  shape : (e.updateRow r).Shape
  linked : RowLinked (w.apply e) (e.updateRow r)
  left : r.status ≠ .creating → (e.updateRow r).status ≠ .creating
  filled : r.containerId ≠ "" → (e.updateRow r).containerId ≠ ""

/-- The row after an update has its own or a newly written container id. -/
theorem rowLinked_apply {w : World} {e : Effect} {r : Environment}
    (h : (e.updateRow r).containerId = r.containerId ∨
      Linked w.host r.agentId (e.updateRow r).containerId r.name) (hr : RowLinked w r) :
    RowLinked (w.apply e) (e.updateRow r) := by
  intro hne
  have same := updateRow_sameKey e r
  rw [same.agentId, same.name]
  rcases h with h | h
  · rw [h] at hne ⊢
    exact linked_apply (hr hne) e
  · exact linked_apply h e

theorem forward_of_frame {w : World} {e : Effect} {r : Environment} (h : RowsLinked w)
    (hr : r ∈ w.envs) (status : (e.updateRow r).status = r.status)
    (containerId : (e.updateRow r).containerId = r.containerId) : Forward w e r where
  shape := by
    have hs := h.shape r hr
    unfold Environment.Shape at hs ⊢
    rwa [status, containerId]
  linked := rowLinked_apply (Or.inl containerId) (h.linked r hr)
  left := fun hc => status ▸ hc
  filled := fun hc => containerId ▸ hc

theorem forward_setStatus {w : World} {id : Nat} {status : Status} {message : String}
    (h : RowsLinked w) (left : status ≠ .creating)
    (filled : ∀ r ∈ w.envs, r.id = id → status = .running ∨ status = .stopped → r.containerId ≠ "")
    {r : Environment} (hr : r ∈ w.envs) : Forward w (.setStatus id status message) r := by
  by_cases hid : r.id = id
  · have hrow : Effect.updateRow (.setStatus id status message) r =
        { r with status := status, statusMessage := message } := if_pos hid
    refine ⟨?_, rowLinked_apply (Or.inl (by rw [hrow])) (h.linked r hr), ?_, ?_⟩
    · rw [hrow]
      exact ⟨fun hc => absurd hc left, filled r hr hid⟩
    · rw [hrow]
      exact fun _ => left
    · rw [hrow]
      exact fun hc => hc
  · have hrow : Effect.updateRow (.setStatus id status message) r = r := if_neg hid
    exact forward_of_frame h hr (by rw [hrow]) (by rw [hrow])

theorem forward_mark {w : World} {id : Nat} {message : String} (h : RowsLinked w)
    {r : Environment} (hr : r ∈ w.envs) : Forward w (.setStatus id .error message) r :=
  forward_setStatus h (by decide) (fun _ _ _ hs => by simp at hs) hr

theorem forward_finish {w : World} {id : Nat} {containerId : ContainerId} (h : RowsLinked w)
    (hne : containerId ≠ "")
    (linked : ∀ r ∈ w.envs, r.id = id → Linked w.host r.agentId containerId r.name)
    {r : Environment} (hr : r ∈ w.envs) : Forward w (.finish id containerId) r := by
  by_cases hid : r.id = id
  · have hrow : Effect.updateRow (.finish id containerId) r =
        { r with containerId := containerId, status := .stopped, statusMessage := "" } :=
      if_pos hid
    refine ⟨?_, rowLinked_apply (Or.inr ?_) (h.linked r hr), ?_, ?_⟩
    · rw [hrow]
      exact ⟨nofun, fun _ => hne⟩
    · rw [hrow]
      exact linked r hr hid
    · rw [hrow]
      exact fun _ => nofun
    · rw [hrow]
      exact fun _ => hne
  · have hrow : Effect.updateRow (.finish id containerId) r = r := if_neg hid
    exact forward_of_frame h hr (by rw [hrow]) (by rw [hrow])

/-- A row loaded as `creating` gets the status of the pass, and its container id if
the pass found one. -/
theorem write_adopted {w : World} {ch : Change} (hl : ChangeLinked w ch)
    (creating : ch.loaded.status = .creating) (bare : ch.loaded.containerId = "")
    (r : Environment) :
    (ch.write r).status = ch.assigned.status ∧
      ((ch.assigned.containerId = "" ∧ (ch.write r).containerId = r.containerId) ∨
        (ch.assigned.containerId ≠ "" ∧ (ch.write r).containerId = ch.assigned.containerId)) := by
  have hs : ch.assigned.status ≠ ch.loaded.status := fun h => hl.left (h.trans creating)
  simp only [Change.write, bare]
  refine ⟨if_neg hs, ?_⟩
  by_cases hc : ch.assigned.containerId = ""
  · exact Or.inl ⟨hc, if_pos hc⟩
  · exact Or.inr ⟨hc, if_neg hc⟩

theorem write_observed {ch : Change} (same : ch.assigned.containerId = ch.loaded.containerId)
    (r : Environment) :
    (ch.write r).containerId = r.containerId ∧
      ((ch.write r).status = r.status ∨ (ch.write r).status = ch.assigned.status) := by
  simp only [Change.write, same]
  refine ⟨if_pos trivial, ?_⟩
  split
  · exact Or.inl rfl
  · exact Or.inr rfl

theorem forward_write {w : World} {changes : List Change} (h : RowsLinked w) {ch : Change}
    (hl : ChangeLinked w ch) (key : KeyKnown w ch.loaded) {r : Environment} (hr : r ∈ w.envs)
    (hid : ch.loaded.id = r.id)
    (hrow : Effect.updateRow (.flush changes) r = ch.write r) : Forward w (.flush changes) r := by
  have same := key.2 r hr hid.symm
  rcases hl.loaded with ⟨creating, bare⟩ | ⟨_, kept, settled⟩
  · obtain ⟨status, hid⟩ := write_adopted hl creating bare r
    have linked : (ch.write r).containerId = r.containerId ∨
        Linked w.host r.agentId (ch.write r).containerId r.name := by
      rcases hid with ⟨_, hw⟩ | ⟨hne, hw⟩
      · exact Or.inl hw
      · rw [hw, same.agentId, same.name]
        exact Or.inr (hl.linked hne)
    refine ⟨?_, rowLinked_apply (by rwa [hrow]) (h.linked r hr), ?_, ?_⟩
    · rw [hrow]
      refine ⟨fun hc => absurd (status.symm.trans hc) hl.left, fun hc => ?_⟩
      rw [status] at hc
      have hne := hl.shape.2 hc
      rcases hid with ⟨hb, _⟩ | ⟨_, hw⟩
      · exact absurd hb hne
      · rwa [hw]
    · rw [hrow, status]
      exact fun _ => hl.left
    · rw [hrow]
      intro hne
      rcases hid with ⟨_, hw⟩ | ⟨ha, hw⟩
      · rwa [hw]
      · rwa [hw]
  · obtain ⟨hcid, status⟩ := write_observed kept r
    obtain ⟨left, filled⟩ := settled.2 r hr hid.symm
    have hleft : (ch.write r).status ≠ .creating := by
      rcases status with hs | hs
      · rwa [hs]
      · rw [hs]
        exact hl.left
    refine ⟨?_, rowLinked_apply (Or.inl (by rw [hrow, hcid])) (h.linked r hr), ?_, ?_⟩
    · rw [hrow]
      exact ⟨fun hc => absurd hc hleft, fun _ => by rwa [hcid]⟩
    · rw [hrow]
      exact fun _ => hleft
    · rw [hrow, hcid]
      exact fun hne => hne

theorem forward_flush {w : World} {changes : List Change} (h : RowsLinked w)
    (linked : ∀ ch ∈ changes, ChangeLinked w ch)
    (known : ∀ ch ∈ changes, KeyKnown w ch.loaded) {r : Environment} (hr : r ∈ w.envs) :
    Forward w (.flush changes) r := by
  rcases updateRow_flush changes r with hrow | ⟨ch, hch, hid, hrow⟩
  · exact forward_of_frame h hr (by rw [hrow]) (by rw [hrow])
  · exact forward_write h (linked ch hch) (known ch hch) hr hid hrow

/-- The step lemma: no statement of any call takes a row back. -/
theorem CallRule.forward {w : World} {p p' : Call} {i : Input} {e : Effect}
    (h : CallRule w p i e p') (hw : RowsLinked w) (hp : CallLinked w p) (known : KeysKnown w p)
    {r : Environment} (hr : r ∈ w.envs) : Forward w e r := by
  cases h with
  | create h =>
    cases h
    case finish env id _ _ =>
      refine forward_finish hw hp.1 (fun s hs hid => ?_) hr
      have same := (known.1 env rfl).2 s hs hid
      rw [same.agentId, same.name]
      exact hp.2
    case mark => exact forward_mark hw hr
    all_goals exact forward_of_frame hw hr rfl rfl
  | transition h =>
    cases h
    case write env status message _ _ _ =>
      exact forward_setStatus hw hp.2 (fun s hs hid _ => (hp.1.2 s hs hid).2) hr
    all_goals exact forward_of_frame hw hr rfl rfl
  | remove h =>
    cases h
    case mark => exact forward_mark hw hr
    all_goals exact forward_of_frame hw hr rfl rfl
  | pass h =>
    cases h
    case flush agentId changes strict unlocked =>
      exact forward_flush hw hp (fun ch hch => known.2 _ (List.mem_map.mpr ⟨ch, hch, rfl⟩)) hr
    all_goals exact forward_of_frame hw hr rfl rfl
  | delete h => cases h <;> exact forward_of_frame hw hr rfl rfl

theorem outside_forward {w : World} {e : Effect} (he : karr.outside e = true) (hw : RowsLinked w)
    {r : Environment} (hr : r ∈ w.envs) : Forward w e r :=
  have frame := (outside_frame he).2 r
  forward_of_frame hw hr frame.1 frame.2.2

/-! ## Every call keeps the links -/

theorem rowsLinked_apply {w : World} {e : Effect} (h : RowsLinked w)
    (fresh : FreshContainer w e)
    (forward : ∀ r ∈ w.envs, Forward w e r)
    (new : ∀ row, e = .insert row → row.status = .creating ∧ row.containerId = "") :
    RowsLinked (w.apply e) := by
  refine ⟨hostOk_apply h.host fresh, fun r' hr' => ?_, fun r' hr' => ?_⟩ <;>
    rcases World.mem_envs_apply.mp hr' with he | ⟨r, hr, _, rfl⟩
  · obtain ⟨hs, hc⟩ := new r' he
    exact ⟨fun _ => hc, by simp [hs]⟩
  · exact (forward r hr).shape
  · intro hne
    exact absurd (new r' he).2 hne
  · exact (forward r hr).linked

theorem settled_apply {w : World} {e : Effect} {env : Environment} (h : Settled w env)
    (forward : ∀ r ∈ w.envs, Forward w e r) (hf : InsertsFresh w e) (hk : KeyKnown w env) :
    Settled (w.apply e) env := by
  refine ⟨h.1, fun r' hr' hid => ?_⟩
  rcases World.mem_envs_apply.mp hr' with rfl | ⟨r, hr, _, rfl⟩
  · have := (hf r' rfl).1
    have := hk.1
    omega
  · obtain ⟨left, filled⟩ := h.2 r hr (updateRow_id e r ▸ hid)
    exact ⟨(forward r hr).left left, (forward r hr).filled filled⟩

theorem changeLinked_apply {w : World} {e : Effect} {ch : Change} (h : ChangeLinked w ch)
    (forward : ∀ r ∈ w.envs, Forward w e r) (hf : InsertsFresh w e) (hk : KeyKnown w ch.loaded) :
    ChangeLinked (w.apply e) ch where
  left := h.left
  shape := h.shape
  linked := fun hne => linked_apply (h.linked hne) e
  loaded := h.loaded.imp_right fun hs => ⟨hs.1, hs.2.1, settled_apply hs.2.2 forward hf hk⟩

theorem callLinked_apply {w : World} {e : Effect} {p : Call} (h : CallLinked w p)
    (forward : ∀ r ∈ w.envs, Forward w e r) (hf : InsertsFresh w e) (hk : KeysKnown w p) :
    CallLinked (w.apply e) p := by
  have keep {env : Environment} (hs : Settled w env) (hm : env ∈ p.held) :
      Settled (w.apply e) env :=
    settled_apply hs forward hf (hk.2 env hm)
  unfold CallLinked at h ⊢
  split at h
  · exact ⟨h.1, linked_apply h.2 e⟩
  · exact ⟨keep h.1 (List.mem_singleton_self _), h.2⟩
  · exact ⟨keep h.1 (List.mem_singleton_self _), h.2⟩
  · exact keep h (List.mem_singleton_self _)
  · exact keep h (List.mem_singleton_self _)
  · exact fun info hinfo => ⟨(h info hinfo).1, linked_apply (h info hinfo).2 e⟩
  · exact fun ch hch =>
      changeLinked_apply (h ch hch) forward hf (hk.2 _ (List.mem_map.mpr ⟨ch, hch, rfl⟩))
  · trivial

theorem settled_of_read {w : World} (hw : RowsLinked w) (rows : RowsOk w) {env : Environment}
    (henv : env ∈ w.envs) (hne : env.containerId ≠ "") : Settled w env := by
  refine ⟨hne, fun r hr hid => ?_⟩
  rw [rows.id_inj r hr env henv hid]
  exact ⟨fun hs => hne ((hw.shape env henv).1 hs), hne⟩

theorem transitions_shape {verb : Verb} {status target : Status}
    (h : transitions verb status = some target) :
    (status = .running ∨ status = .stopped) ∧ target ≠ .creating := by
  revert h
  fun_cases transitions verb status <;> intro h <;> cases h
  · exact ⟨Or.inr rfl, by decide⟩
  · exact ⟨Or.inl rfl, by decide⟩

theorem changeLinked_of_read {w : World} {agentId : AgentId} {containers : List ContainerInfo}
    {clock : Int} (hw : RowsLinked w) (rows : RowsOk w)
    (hl : ∀ info ∈ containers, info.id ≠ "" ∧ Linked w.host agentId info.id info.name)
    {ch : Change} (hch : ch ∈ reconcileChanges clock containers
      (w.envs.filter fun r => decide (r.agentId = agentId))) : ChangeLinked w ch := by
  obtain ⟨hmem, hrow⟩ := mem_reconcileChanges hch
  obtain ⟨hr, ha⟩ := List.mem_filter.mp hmem
  have ha : ch.loaded.agentId = agentId := of_decide_eq_true ha
  have shape := hw.shape _ hr
  obtain ⟨loaded, assigned⟩ := ch
  have rule : ReconcileRule clock containers loaded assigned := reconcileRow_rule hrow
  cases rule with
  | abandon creating =>
    have bare : loaded.containerId = "" := shape.1 creating
    exact ⟨nofun, ⟨nofun, by simp⟩, fun hne => absurd bare hne, Or.inl ⟨creating, bare⟩⟩
  | @adopt container creating old listed named =>
    have hleft := observed_ne_creating (some container)
    refine ⟨hleft, ⟨fun hc => absurd hc hleft, fun _ => (hl container listed).1⟩, fun _ => ?_,
      Or.inl ⟨creating, shape.1 creating⟩⟩
    have := (hl container listed).2
    rwa [named, ← ha] at this
  | observe settled container =>
    have hleft := observed_ne_creating (Python.dictGet ContainerInfo.id containers loaded.containerId)
    exact ⟨hleft, ⟨fun hc => absurd hc hleft, fun _ => container⟩, hw.linked loaded hr,
      Or.inr ⟨settled, rfl, settled_of_read hw rows hr container⟩⟩

theorem listed_linked {w : World} (hw : RowsLinked w) {agentId : AgentId} {info : ContainerInfo}
    (h : info ∈ listContainers agentId w.host) :
    info.id ≠ "" ∧ Linked w.host agentId info.id info.name := by
  obtain ⟨c, hc, ha, hid, hn, _⟩ := mem_listContainers.mp h
  exact ⟨hid ▸ hw.host.id_ne c hc, c, hc, ha, hid, hn⟩

theorem CallRule.linked {c : Config} {k : Nat} {p p' : Call} {i : Input} {e : Effect}
    (h : CallRule c.store p i e p') (hp : c.procs[k]? = some p) (bonnie : Bonnie c (.proc k i))
    (fresh : FreshContainer c.store e) (hw : RowsLinked c.store) (rows : RowsOk c.store)
    (hl : CallLinked c.store p) : CallLinked (c.store.apply e) p' := by
  cases h with
  | create h =>
    cases h
    case made env id => exact ⟨fresh.1, linked_add (containerOf env id)⟩
    all_goals trivial
  | transition h =>
    cases h
    case request found legal =>
      obtain ⟨status, left⟩ := transitions_shape legal
      have henv := (World.find_mem found).1
      exact ⟨settled_of_read hw rows henv ((hw.shape _ henv).2 status), left⟩
    case act => exact hl
    case lost => exact ⟨hl.1, by decide⟩
    case fail => exact ⟨hl.1, by decide⟩
    all_goals trivial
  | remove h =>
    have fail {w : World} {env : Environment} {message : String} (hs : Settled w env) :
        CallLinked w (.remove (Remove.fail env message)) := by
      unfold Remove.fail
      split
      · exact hs
      · trivial
    cases h
    case request found _ container =>
      exact settled_of_read hw rows (World.find_mem found).1 container
    case lost => exact fail hl
    case fail => exact fail hl
    all_goals trivial
  | pass h =>
    cases h
    case list agentId containers =>
      intro info hinfo
      rw [bonnie.honest hp] at hinfo
      exact listed_linked hw hinfo
    case load => exact fun ch hch => changeLinked_of_read hw rows hl hch
    all_goals trivial
  | delete h => cases h <;> trivial

/-- Honest answers, in a table whose rows are known to be as `RowsOk` says. -/
def Answered (c : Config) (a : Action) : Prop :=
  Bonnie c a ∧ Holds RowsOk KeysKnown OwnersDiffer c

theorem links_inductive : Inductive karr Answered RowsLinked CallLinked (fun _ _ => True) where
  spawn := by
    intro c p _ _ hp
    rcases p with p | p | p | p | p <;> cases p <;>
      simp_all [karr, Call.fresh, CallLinked]
  spawn_pair := fun _ _ _ _ => ⟨trivial, trivial⟩
  outside := by
    intro c e hc hok he
    have forward (r : Environment) (hr : r ∈ c.store.envs) := outside_forward he hc.store hr
    have hf : InsertsFresh c.store e := outside_insertsFresh he
    refine ⟨rowsLinked_apply hc.store (hok.1.1 e rfl) forward ?_, fun p hp => ?_⟩
    · exact fun row hrow => absurd hrow ((outside_frame he).1 row)
    · exact callLinked_apply (hc.proc p hp) forward hf (hok.2.proc p hp)
  own := by
    intro c k i p e p' hc hok hp hs
    have hmem := List.mem_of_getElem? hp
    have hrule := call_rule hs
    have fresh := hok.1.fresh hp hs
    refine ⟨rowsLinked_apply hc.store fresh ?_ ?_, ?_⟩
    · exact fun r hr => hrule.forward hc.store (hc.proc p hmem) (hok.2.proc p hmem) hr
    · rintro row rfl
      exact ⟨hrule.insert_fresh.2.2.1, hrule.insert_fresh.2.2.2.1⟩
    · exact hrule.linked hp hok.1 fresh hc.store hok.2.store (hc.proc p hmem)
  other := by
    intro c k i p e p' j q hc hok hp hs _ hq
    have hpm := List.mem_of_getElem? hp
    have hqm := List.mem_of_getElem? hq
    have hrule := call_rule hs
    refine ⟨callLinked_apply (hc.proc q hqm) ?_ (rule_insertsFresh hrule) (hok.2.proc q hqm),
      trivial, trivial⟩
    exact fun r hr => hrule.forward hc.store (hc.proc p hpm) (hok.2.proc p hpm) hr

theorem links_of_run {now : Int} {agents : List AgentId} {projects : List ProjectId}
    {clients : List AgentId} {host : List Container}
    (hosts : HostOk (boot now agents projects clients host).store) {c : Config}
    (h : karr.Runs Bonnie (boot now agents projects clients host) c) :
    Holds RowsLinked CallLinked (fun _ _ => True) c :=
  links_inductive.holds_of_run
    ⟨⟨hosts, by simp [boot], by simp [boot]⟩, by simp [boot], fun _ _ _ => trivial⟩
    (h.strengthen rows_of_run)

/-- What is known of rows and links in every state. -/
structure LinkedState (c : Config) : Prop where
  rows : Holds RowsOk KeysKnown OwnersDiffer c
  links : Holds RowsLinked CallLinked (fun _ _ => True) c

theorem linkedState_of_run {now : Int} {agents : List AgentId} {projects : List ProjectId}
    {clients : List AgentId} {host : List Container}
    (hosts : HostOk (boot now agents projects clients host).store) {c : Config}
    (h : karr.Runs Bonnie (boot now agents projects clients host) c) : LinkedState c :=
  ⟨rows_of_run h, links_of_run hosts h⟩

end Karr
