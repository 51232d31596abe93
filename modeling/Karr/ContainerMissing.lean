import Karr.Invariants.Owned

/-!
# When a row says `container missing`

`remove` drops such a row even though BONNIE failed to remove its container. The
message is a pass's, from a list taken before it read the row; where every
pass that commits it is right about it at that moment, `remove` is right too.
-/

set_option autoImplicit false

namespace Karr

open Interleaving

/-- Containers appear and disappear through the requests of the calls only. -/
def ownContainers : Action → Bool
  | .outside (.addContainer _) => false
  | .outside (.removeContainer _ _) => false
  | _ => true

/-- Whatever a pass marks missing as it commits is not on the host. -/
def MissingGone (c : Config) (a : Action) : Prop :=
  ∀ ch ∈ flushed c a, ch.assigned.statusMessage = containerMissing →
    ¬ OnHost c.store.host ch.loaded.agentId ch.loaded.containerId

instance (c : Config) (a : Action) : Decidable (MissingGone c a) :=
  inferInstanceAs (Decidable (∀ ch ∈ flushed c a, _ → _))

/-- A row that says `container missing` has lost its container. -/
def MissingOff (w : World) (r : Environment) : Prop :=
  r.statusMessage = containerMissing → r.containerId ≠ "" → Gone w.host r.agentId r.containerId

/-- The row still has the container id the call read. -/
def SameContainerId (w : World) (env : Environment) : Prop :=
  ∀ r ∈ w.envs, r.id = env.id → r.containerId = env.containerId

def RemovalSound (w : World) : Call → Prop
  | .create (.failed _ message) => message ≠ containerMissing
  | .transition (.answered _ _ message _) => message ≠ containerMissing
  | .remove (.requested env) => SameContainerId w env ∧
      (∃ c ∈ w.host, c.agentId = env.agentId ∧ c.id = env.containerId) ∧ MissingOff w env
  | .remove (.marking _ message) => message ≠ containerMissing
  | .remove (.deleting env) => SameContainerId w env ∧
      (env.containerId ≠ "" → Gone w.host env.agentId env.containerId)
  | .pass (.loaded _ changes) =>
    ∀ ch ∈ changes, ch.loaded.status ≠ .creating ∧ SameContainerId w ch.loaded
  | _ => True

/-! ## Container ids stay as they were read -/

theorem sameContainerId_apply {w : World} {e : Effect} {env : Environment}
    (h : SameContainerId w env) (hf : InsertsFresh w e) (hk : KeyKnown w env)
    (keep : ∀ r ∈ w.envs, r.id = env.id → (e.updateRow r).containerId = r.containerId) :
    SameContainerId (w.apply e) env := by
  intro r' hr' hid
  rcases World.mem_envs_apply.mp hr' with rfl | ⟨r, hr, _, rfl⟩
  · have := (hf r' rfl).1
    have := hk.1
    omega
  · rw [updateRow_id] at hid
    rw [keep r hr hid]
    exact h r hr hid

/-- Where passes hold no row in creation, only its create gives a row its container id. -/
theorem CallRule.keeps_containerId {w : World} {p p' : Call} {i : Input} {e : Effect}
    (h : CallRule w p i e p') (links : CallLinked w p) (sound : RemovalSound w p)
    {r : Environment} (owned : ∀ env, p.row = some env → r.id ≠ env.id) :
    (e.updateRow r).containerId = r.containerId := by
  by_contra hne
  rcases updateRow_containerId hne with ⟨id, containerId, rfl, hid⟩ |
    ⟨changes, rfl, ch, hch, _, hw⟩
  · cases h with
    | create h =>
      cases h
      case finish env _ _ => exact owned env rfl hid
    | transition h => cases h
    | remove h => cases h
    | pass h => cases h
    | delete h => cases h
  · rw [hw] at hne
    cases h with
    | pass h =>
      cases h
      case flush =>
        rcases (links ch hch).loaded with ⟨creating, _⟩ | ⟨_, kept, _⟩
        · exact (sound ch hch).1 creating
        · exact hne (write_observed kept r).1
    | create h => cases h
    | transition h => cases h
    | remove h => cases h
    | delete h => cases h

/-! ## Messages -/

theorem missingOff_of_frame {w : World} {e : Effect} {r : Environment} (h : MissingOff w r)
    (fresh : FreshContainer w e)
    (message : (e.updateRow r).statusMessage = containerMissing →
      r.statusMessage = containerMissing)
    (containerId : (e.updateRow r).containerId = r.containerId) :
    MissingOff (w.apply e) (e.updateRow r) := by
  intro hm hne
  rw [containerId] at hne ⊢
  rw [(updateRow_sameKey e r).agentId]
  exact gone_apply (h (message hm) hne) fresh

theorem missingOff_setStatus {w : World} {r : Environment} {id : Nat} {status : Status}
    {message : String} (h : MissingOff w r) (hne : message ≠ containerMissing) :
    MissingOff (w.apply (.setStatus id status message))
      (Effect.updateRow (.setStatus id status message) r) := by
  refine missingOff_of_frame h trivial (fun hm => ?_) ?_ <;>
    by_cases hid : r.id = id <;> simp_all [Effect.updateRow]

theorem missingOff_finish {w : World} {r : Environment} {id : Nat} {containerId : ContainerId}
    (h : MissingOff w r) : MissingOff (w.apply (.finish id containerId))
      (Effect.updateRow (.finish id containerId) r) := by
  by_cases hid : r.id = id
  · intro hm
    simp [Effect.updateRow, hid, containerMissing] at hm
  · have hrow : Effect.updateRow (.finish id containerId) r = r := if_neg hid
    exact missingOff_of_frame h trivial (by simp [hrow]) (by rw [hrow])

theorem missingOff_flush {w : World} {changes : List Change} {r : Environment}
    (h : MissingOff w r) (links : RowsLinked w) (hr : r ∈ w.envs)
    (known : ∀ ch ∈ changes, KeyKnown w ch.loaded) (linked : ∀ ch ∈ changes, ChangeLinked w ch)
    (sound : ∀ ch ∈ changes, ch.loaded.status ≠ .creating ∧ SameContainerId w ch.loaded)
    (gone : ∀ ch ∈ changes, ch.assigned.statusMessage = containerMissing →
      ¬ OnHost w.host ch.loaded.agentId ch.loaded.containerId) :
    MissingOff (w.apply (.flush changes)) (Effect.updateRow (.flush changes) r) := by
  rcases updateRow_flush changes r with hrow | ⟨ch, hch, hid, hrow⟩
  · exact missingOff_of_frame h trivial (by simp [hrow]) (by rw [hrow])
  · have kept : ch.assigned.containerId = ch.loaded.containerId := by
      rcases (linked ch hch).loaded with ⟨creating, _⟩ | ⟨_, kept, _⟩
      · exact absurd creating (sound ch hch).1
      · exact kept
    have hcid := (write_observed kept r).1
    by_cases hm : ch.assigned.statusMessage = ch.loaded.statusMessage
    · -- the message column is not written
      have message : (ch.write r).statusMessage = r.statusMessage := if_pos hm
      exact missingOff_of_frame h trivial (by simp [hrow, message]) (by rw [hrow, hcid])
    · have message : (ch.write r).statusMessage = ch.assigned.statusMessage := if_neg hm
      rw [hrow]
      intro hmiss hne
      rw [hcid] at hne ⊢
      rw [message] at hmiss
      have same := (known ch hch).2 r hr hid.symm
      have off := gone ch hch hmiss
      rw [← same.agentId, ← (sound ch hch).2 r hr hid.symm] at off
      exact ⟨(links.linked r hr hne).recorded, off⟩

/-- A statement writes `container missing` nowhere, or to rows that lost their container. -/
theorem CallRule.missing {c : Config} {k : Nat} {p p' : Call} {i : Input} {e : Effect}
    (h : CallRule c.store p i e p') (hp : c.procs[k]? = some p)
    (hm : MissingGone c (.proc k i)) (fresh : FreshContainer c.store e)
    (rows : KeysKnown c.store p) (links : RowsLinked c.store) (linked : CallLinked c.store p)
    (sound : RemovalSound c.store p) {r : Environment} (hr : r ∈ c.store.envs)
    (off : MissingOff c.store r) : MissingOff (c.store.apply e) (e.updateRow r) := by
  have frame (he : e.updateRow r = r) : MissingOff (c.store.apply e) (e.updateRow r) :=
    missingOff_of_frame off fresh (by simp [he]) (by rw [he])
  cases h with
  | create h =>
    cases h
    case finish => exact missingOff_finish off
    case mark => exact missingOff_setStatus off sound
    all_goals exact frame rfl
  | transition h =>
    cases h
    case write => exact missingOff_setStatus off sound
    all_goals exact frame rfl
  | remove h =>
    cases h
    case mark => exact missingOff_setStatus off sound
    all_goals exact frame rfl
  | pass h =>
    cases h
    case flush agentId changes strict unlocked =>
      refine missingOff_flush off links hr (fun ch hch => rows.2 _ (List.mem_map.mpr ⟨ch, hch, rfl⟩))
        linked sound ?_
      simpa only [MissingGone, flushed, hp] using hm
    all_goals exact frame rfl
  | delete h => cases h <;> exact frame rfl

/-! ## Removes -/

/-- The conditions under which `container missing` is never wrong. -/
def Certain (D S : Int) (c : Config) (a : Action) : Prop :=
  Steady D S c a ∧ environmentCall a = true ∧ ownContainers a = true ∧ MissingGone c a

instance (D S : Int) (c : Config) (a : Action) : Decidable (Certain D S c a) :=
  inferInstanceAs (Decidable (Steady D S c a ∧ _ ∧ _ ∧ MissingGone c a))

theorem missingOff_apply {w : World} {e : Effect} {env : Environment} (h : MissingOff w env)
    (fresh : FreshContainer w e) : MissingOff (w.apply e) env :=
  fun hm hne => gone_apply (h hm hne) fresh

theorem removalSound_apply {w : World} {e : Effect} {p : Call} (h : RemovalSound w p)
    (fresh : FreshContainer w e)
    (same : ∀ env ∈ p.held, SameContainerId w env → SameContainerId (w.apply e) env) :
    RemovalSound (w.apply e) p := by
  unfold RemovalSound at h ⊢
  split at h
  · exact h
  · exact h
  · exact ⟨same _ (List.mem_singleton_self _) h.1, recorded_apply h.2.1 e,
      missingOff_apply h.2.2 fresh⟩
  · exact h
  · exact ⟨same _ (List.mem_singleton_self _) h.1, fun hne => gone_apply (h.2 hne) fresh⟩
  · exact fun ch hch => ⟨(h ch hch).1, same _ (List.mem_map.mpr ⟨ch, hch, rfl⟩) (h ch hch).2⟩
  · trivial

theorem sameContainerId_of_read {w : World} (rows : RowsOk w) {env : Environment}
    (henv : env ∈ w.envs) : SameContainerId w env :=
  fun r hr hid => by rw [rows.id_inj r hr env henv hid]

theorem CallRule.removalSound {D S : Int} (fits : D + S < createGrace) {c : Config} {k : Nat}
    {p p' : Call} {i : Input} {e : Effect} (h : CallRule c.store p i e p')
    (onTime : OnTime D S c (.proc k i)) (st : SteadyState c)
    (off : ∀ r ∈ c.store.envs, MissingOff c.store r) (sound : RemovalSound c.store p) :
    RemovalSound (c.store.apply e) p' := by
  cases h with
  | create h =>
    cases h
    case refuse => exact noClient_ne_missing
    case lostMade => exact createFailure_ne_missing _
    case fail => exact createFailure_ne_missing _
    all_goals trivial
  | transition h =>
    cases h
    case act => exact empty_ne_missing
    case lost => exact transitionFailure_ne_missing _ _
    case fail => exact transitionFailure_ne_missing _ _
    all_goals trivial
  | remove h =>
    cases h
    case request found _ container =>
      have henv := (World.find_mem found).1
      exact ⟨sameContainerId_of_read st.rows.store henv,
        (st.links.store.linked _ henv container).recorded, off _ henv⟩
    case bare found _ bare =>
      have henv := (World.find_mem found).1
      exact ⟨sameContainerId_of_read st.rows.store henv, fun hne => absurd bare hne⟩
    case removed => exact ⟨sound.1, fun _ => gone_remove sound.2.1⟩
    case lost =>
      unfold Remove.fail
      split
      · exact removeFailure_ne_missing _
      · exact ⟨sound.1, fun _ => gone_remove sound.2.1⟩
    case fail env message =>
      unfold Remove.fail
      split
      · exact removeFailure_ne_missing _
      · -- the row said its container is missing when it was read
        rename_i hm
        exact ⟨sound.1, sound.2.2 (not_not.mp hm)⟩
    all_goals trivial
  | pass h =>
    cases h
    case load clock =>
      intro ch hch
      obtain ⟨hmem, hrow⟩ := mem_reconcileChanges hch
      have hr := (List.mem_filter.mp hmem).1
      refine ⟨fun creating => ?_, sameContainerId_of_read st.rows.store hr⟩
      have young := st.young fits onTime hr creating
      rw [reconcileRow_settled hrow] at young
      cases young
    all_goals trivial
  | delete h => cases h <;> trivial

theorem containerMissing_inductive {D S : Int} (fits : D + S < createGrace) :
    Inductive karr (fun c a => Certain D S c a ∧ SteadyState c)
      (fun w => ∀ r ∈ w.envs, MissingOff w r) RemovalSound (fun _ _ => True) where
  spawn := by
    intro c p _ _ hp
    rcases p with p | p | p | p | p <;> cases p <;> simp_all [karr, Call.fresh, RemovalSound]
  spawn_pair := fun _ _ _ _ => ⟨trivial, trivial⟩
  outside := by
    intro c e hc hok he
    have fresh := hok.1.1.1.1 e rfl
    have hf : InsertsFresh c.store e := outside_insertsFresh he
    have frame := (outside_frame he).2
    refine ⟨fun r' hr' => ?_, fun p hp => ?_⟩
    · rcases World.mem_envs_apply.mp hr' with hi | ⟨r, hr, _, rfl⟩
      · exact absurd hi ((outside_frame he).1 r')
      · exact missingOff_of_frame (hc.store r hr) fresh (by simp [frame r]) (frame r).2.2
    · refine removalSound_apply (hc.proc p hp) fresh fun env henv hs => ?_
      exact sameContainerId_apply hs hf ((hok.2.rows.proc p hp).2 env henv)
        fun r _ _ => (frame r).2.2
  own := by
    intro c k i p e p' hc hok hp hs
    have hmem := List.mem_of_getElem? hp
    have hrule := call_rule hs
    have fresh := hok.1.1.1.fresh hp hs
    refine ⟨fun r' hr' => ?_,
      hrule.removalSound fits hok.1.1.2.1 hok.2 hc.store (hc.proc p hmem)⟩
    rcases World.mem_envs_apply.mp hr' with rfl | ⟨r, hr, _, rfl⟩
    · intro hm
      rw [hrule.insert_fresh.2.2.2.2] at hm
      exact absurd hm (by decide)
    · exact hrule.missing hp hok.1.2.2.2 fresh (hok.2.rows.proc p hmem) hok.2.links.store
        (hok.2.links.proc p hmem) (hc.proc p hmem) hr (hc.store r hr)
  other := by
    intro c k i p e p' j q hc hok hp hs hjk hq
    have hpm := List.mem_of_getElem? hp
    have hqm := List.mem_of_getElem? hq
    have hrule := call_rule hs
    refine ⟨removalSound_apply (hc.proc q hqm) (hok.1.1.1.fresh hp hs) ?_, trivial, trivial⟩
    intro env henv hsame
    refine sameContainerId_apply hsame (rule_insertsFresh hrule) ((hok.2.rows.proc q hqm).2 env henv)
      fun r _ hid => ?_
    refine hrule.keeps_containerId (hok.2.links.proc p hpm) (hc.proc p hpm) fun own hrow => ?_
    rw [hid]
    exact (hok.2.flight.pair hjk.symm hp hq own hrow env henv).symm

/-- Where no pass commits `container missing` for a container that is there, a remove
that answers success leaves no container behind its row's `container_id`. -/
theorem removed_container_gone {D S : Int} (fits : D + S < createGrace) {now : Int}
    {agents : List AgentId} {projects : List ProjectId} {clients : List AgentId}
    {host : List Container} (hosts : HostOk (boot now agents projects clients host).store)
    {c : Config} (h : karr.Runs (Certain D S) (boot now agents projects clients host) c)
    {k : Nat} {p : Remove} {i : Input} {c' : Config} (hp : c.procs[k]? = some (.remove p))
    (he : karr.exec c (.proc k i) = some c')
    (hdone : c'.procs[k]? = some (.remove (.done .ok))) :
    ∃ env, p = .deleting env ∧ ∀ r ∈ c.store.envs, r.id = env.id →
      r ∉ c'.store.envs ∧
      (r.containerId ≠ "" → ¬ OnHost c'.store.host r.agentId r.containerId) := by
  have steady {c : Config} (h : karr.Runs (Certain D S) (boot now agents projects clients host) c) :
      SteadyState c :=
    steadyState_of_run fits hosts (h.mono fun _ _ ho => ho.1)
  have inv : Holds (fun w => ∀ r ∈ w.envs, MissingOff w r) RemovalSound (fun _ _ => True) c :=
    (containerMissing_inductive fits).holds_of_run
      ⟨by simp [boot], by simp [boot], fun _ _ _ => trivial⟩ (h.strengthen steady)
  have hmem := List.mem_of_getElem? hp
  obtain ⟨env, rfl, store⟩ := remove_done hp he hdone
  obtain ⟨same, gone⟩ := inv.proc _ hmem
  rw [store]
  refine ⟨env, rfl, fun r hr hid => ⟨fun hr' => ?_, fun hne => ?_⟩⟩
  · simp [World.apply, World.drop, Effect.drops, hid] at hr'
  · have known := ((steady h).rows.proc _ hmem).2 env (List.mem_singleton_self env)
    rw [same r hr hid] at hne ⊢
    rw [(known.2 r hr hid).agentId]
    exact (gone hne).2

/-- A remove whose request was carried out though its answer got lost, a pass that then
misses the container, and a remove that BONNIE answers with an error. -/
def lostRemoveActions : List Action :=
  createActions 0 ⟨1, none, "env", "image", false, [], [], []⟩ "c1" ++
  [.spawn (.remove (.start 0)), .proc 1 (.run 0), .proc 1 (.lost "timeout"), .proc 1 (.run 0),
    .spawn (.pass (.start 1)), .proc 2 (.listed []), .proc 2 (.run 0), .proc 2 (.flush true),
    .spawn (.remove (.start 0)), .proc 3 (.run 0), .proc 3 (.error "no such container")]

def lostRow : Environment :=
  { newRow 0 ⟨1, none, "env", "image", false, [], [], []⟩ 0 with
    containerId := "c1", status := .error, statusMessage := containerMissing }

theorem removed_container_gone_lost :
    ∃ c c', karr.Runs (Certain 0 0) (boot 0 [1] [] [1] []) c ∧
      karr.exec c (.proc 3 (.run 0)) = some c' ∧
      lostRow ∈ c.store.envs ∧ lostRow ∉ c'.store.envs ∧ ¬ OnHost c'.store.host 1 "c1" := by
  obtain ⟨c, hr, hp⟩ := exists_run_of_execute karr.exec (fun c a => decide (Certain 0 0 c a))
    (boot 0 [1] [] [1] []) lostRemoveActions
    (fun c => decide (c.procs[3]? = some (Call.remove (.deleting lostRow)) ∧
        lostRow ∈ c.store.envs) &&
      (karr.exec c (.proc 3 (.run 0))).any fun c' =>
        decide (c'.procs[3]? = some (Call.remove (.done .ok))))
    (fun _ _ => of_decide_eq_true) (by decide)
  rw [Bool.and_eq_true, decide_eq_true_eq] at hp
  obtain ⟨c', he, hdone⟩ := (Option.any_eq_true _ _).mp hp.2
  obtain ⟨env, henv, gone⟩ := removed_container_gone (by decide) hostOk_empty hr hp.1.1 he
    (of_decide_eq_true hdone)
  cases henv
  obtain ⟨dropped, off⟩ := gone lostRow hp.1.2 rfl
  exact ⟨c, c', hr, he, hp.1.2, dropped, off (by decide)⟩

def RemovedContainerGoneAlways : Prop :=
  ∀ (D S : Int), D + S < createGrace → ∀ (now : Int) (agents : List AgentId)
    (projects : List ProjectId) (clients : List AgentId) (host : List Container),
    HostOk (boot now agents projects clients host).store → ∀ c : Config,
    karr.Runs (fun c a => Steady D S c a ∧ environmentCall a = true ∧ ownContainers a = true)
      (boot now agents projects clients host) c →
    ∀ (k : Nat) (p : Remove) (i : Input) (c' : Config), c.procs[k]? = some (.remove p) →
    Steady D S c (.proc k i) → karr.exec c (.proc k i) = some c' →
    c'.procs[k]? = some (.remove (.done .ok)) →
    ∃ env, p = .deleting env ∧ ∀ r ∈ c.store.envs, r.id = env.id →
      r.containerId ≠ "" → ¬ OnHost c'.store.host r.agentId r.containerId

/-- A pass lists before BONNIE makes the container and reads the row after its create
has finished; then a remove that BONNIE refuses drops the row. -/
def staleListActions : List Action :=
  [.spawn (.pass (.start 1)), .proc 0 (.listed [])] ++
  createActions 1 ⟨1, none, "env", "image", false, [], [], []⟩ "c1" ++
  [.proc 0 (.run 0), .proc 0 (.flush true),
    .spawn (.remove (.start 0)), .proc 2 (.run 0), .proc 2 (.error "device busy")]

theorem not_removedContainerGoneAlways : ¬ RemovedContainerGoneAlways := by
  intro always
  obtain ⟨c, hr, hp⟩ := exists_run_of_execute karr.exec
    (fun c a => decide (Steady 0 0 c a ∧ environmentCall a = true ∧ ownContainers a = true))
    (boot 0 [1] [] [1] []) staleListActions
    (fun c => decide (c.procs[2]? = some (Call.remove (.deleting lostRow)) ∧
        Steady 0 0 c (.proc 2 (.run 0)) ∧ lostRow ∈ c.store.envs) &&
      (karr.exec c (.proc 2 (.run 0))).any fun c' =>
        decide (c'.procs[2]? = some (Call.remove (.done .ok)) ∧ OnHost c'.store.host 1 "c1"))
    (fun _ _ => of_decide_eq_true) (by decide)
  rw [Bool.and_eq_true, decide_eq_true_eq] at hp
  obtain ⟨⟨hproc, hsteady, hrow⟩, hany⟩ := hp
  obtain ⟨c', he, hc'⟩ := (Option.any_eq_true _ _).mp hany
  obtain ⟨hdone, hon⟩ := of_decide_eq_true hc'
  obtain ⟨env, henv, gone⟩ := always 0 0 (by decide) 0 [1] [] [1] [] hostOk_empty c hr 2 _ _ c'
    hproc hsteady he hdone
  cases henv
  exact gone lostRow hrow rfl (by decide) hon

end Karr
