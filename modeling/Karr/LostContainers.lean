import Karr.Leftovers

/-!
# Containers whose id is lost

Even without any overlap a container can be left behind: its create may stop
before the row learns the id, or lose the reply, and a row without an id is
dropped with no request to BONNIE. Only rows in `creating` are adopted, so the
lost reply is never made good. The run carries which rows lost an id; every
other row without one has had no container, or its create is still at work.
-/

set_option autoImplicit false

namespace Karr

open Interleaving

/-- A configuration, and the rows whose create lost the id of the container BONNIE made. -/
structure Past where
  config : Config
  lost : List Nat

/-- The row of a create that the action leaves without the id: the reply does not arrive, or
the process stops with the id in hand. -/
def loses (c : Config) : Action → Option Nat
  | .proc k (.lostMade _ _) =>
    match c.procs[k]? with
    | some (.create (.requested env)) => some env.id
    | _ => none
  | .proc k .crash =>
    match c.procs[k]? with
    | some (.create (.created env _)) => some env.id
    | _ => none
  | _ => none

/-- A step, with what it adds to the past. -/
def tell (s : Past) (a : Action) : Option Past :=
  (karr.exec s.config a).map fun c => ⟨c, s.lost ++ (loses s.config a).toList⟩

/-- A remove that gets past the grace check with a row that has no container id: its create
lost none, or a pass has found nothing under the row's name. -/
def Accounted (s : Past) : Action → Prop
  | .proc k (.run clock) => ∀ p ∈ s.config.procs[k]?, ∀ r ∈ s.config.store.envs,
      p = .remove (.start r.id) → young r clock = false → r.containerId = "" →
      r.id ∉ s.lost ∨ r.statusMessage = createNeverCompleted
  | _ => True

instance (s : Past) (a : Action) : Decidable (Accounted s a) := by
  unfold Accounted
  split <;> infer_instance

/-- Calls that do not overlap, honest answers, and no row is dropped whose create lost an id. -/
def Tidy (s : Past) (a : Action) : Prop :=
  Bonnie s.config a ∧ sequential s.config a = true ∧ Accounted s a

instance (s : Past) (a : Action) : Decidable (Tidy s a) :=
  inferInstanceAs (Decidable (Bonnie s.config a ∧ _ ∧ Accounted s a))

theorem tell_exec {s s' : Past} {a : Action} (h : tell s a = some s') :
    karr.exec s.config a = some s'.config ∧ s'.lost = s.lost ++ (loses s.config a).toList := by
  obtain ⟨c, hc, rfl⟩ := Option.map_eq_some_iff.mp h
  exact ⟨hc, rfl⟩

theorem not_lost {s s' : Past} {a : Action} {row : Nat} (h : tell s a = some s')
    (kept : row ∉ s'.lost) : row ∉ s.lost ∧ loses s.config a ≠ some row := by
  rw [(tell_exec h).2, List.mem_append, not_or, Option.mem_toList] at kept
  exact kept

/-- A row without an id whose create lost none: a container is on record only while the
create that made it still has the id in hand. -/
def InHand (s : Past) : Prop :=
  ∀ r ∈ s.config.store.envs, r.containerId = "" → r.id ∉ s.lost →
    ∀ d ∈ s.config.store.host, d.origin = some r.id →
      ∃ env id, Call.create (.created env id) ∈ s.config.procs ∧ env.id = r.id

theorem mem_set_of_ne {procs : List Call} {k j : Nat} {p q : Call} (hjk : j ≠ k)
    (h : procs[j]? = some q) : q ∈ procs.set k p :=
  List.mem_of_getElem? (by rw [List.getElem?_set_ne hjk.symm, h])

/-- A create that has the id either writes it to its row or loses it. -/
theorem CallRule.created {w : World} {env : Environment} {id : ContainerId} {i : Input}
    {e : Effect} {p' : Call} (h : CallRule w (.create (.created env id)) i e p') :
    e = .finish env.id id ∨ i = .crash := by
  cases h with
  | create h =>
    cases h
    case quit early => cases early
    case finish => exact Or.inl rfl
    case crash => exact Or.inr rfl

/-- A container with an origin comes from the request of that row's create, which then has
the id or has lost it. -/
theorem CallRule.adds_own {w : World} {p p' : Call} {i : Input} {d : Container}
    (h : CallRule w p i (.addContainer d) p') : ∃ env, d.origin = some env.id ∧
      (p' = .create (.created env d.id) ∨
        (p = .create (.requested env) ∧ ∃ message, i = .lostMade message d.id)) := by
  cases h with
  | create h =>
    cases h
    case made env id => exact ⟨env, rfl, Or.inl rfl⟩
    case lostMade env message id => exact ⟨env, rfl, Or.inr ⟨rfl, message, rfl⟩⟩
  | transition h => cases h
  | remove h => cases h
  | pass h => cases h
  | delete h => cases h

theorem inHand_proc {s s' : Past} {k : Nat} {i : Input} (h : InHand s)
    (linked : LinkedState s.config) (origins : OriginsOk s.config.store)
    (he : tell s (.proc k i) = some s') : InHand s' := by
  obtain ⟨he', -⟩ := tell_exec he
  obtain ⟨p, hp⟩ : ∃ p, s.config.procs[k]? = some p := by
    rcases System.exec_cases he' with ⟨_, ha, _⟩ | ⟨_, _, p, _, _, ha, hp, _⟩ | ⟨_, ha, _⟩
    · cases ha
    · cases ha
      exact ⟨p, hp⟩
    · cases ha
  obtain ⟨e, p', hs, hc⟩ := System.exec_proc hp he'
  have hrule := call_rule hs
  have hmem := List.mem_of_getElem? hp
  have hk := (List.getElem?_eq_some_iff.mp hp).1
  have forward (r : Environment) (hr : r ∈ s.config.store.envs) :=
    hrule.forward linked.links.store (linked.links.proc p hmem) (linked.rows.proc p hmem) hr
  intro r' hr' bare kept d' hd' horigin
  obtain ⟨kept, notNow⟩ := not_lost he kept
  rw [hc] at hr' hd' ⊢
  rcases World.mem_envs_apply.mp hr' with rfl | ⟨r, hr, _, rfl⟩
  · -- the id of a new row is that of no container's origin
    rcases mem_host_apply.mp hd' with hadd | ⟨c, hc, rfl⟩
    · cases hadd
    · have := origins.lt c hc _ ((updateContainer_sameRecord _ c).origin ▸ horigin)
      rw [hrule.insert_fresh.1] at this
      omega
  · rw [updateRow_id] at kept notNow horigin ⊢
    rcases mem_host_apply.mp hd' with rfl | ⟨c, hc, rfl⟩
    · obtain ⟨env, horigin', has | ⟨rfl, message, rfl⟩⟩ := hrule.adds_own
      · have hid := Option.some.inj (horigin'.symm.trans horigin)
        exact ⟨env, d'.id, has ▸ List.mem_set hk p', hid⟩
      · exact absurd (by simpa [loses, hp] using horigin'.symm.trans horigin) notNow
    · have bare' : r.containerId = "" := by
        by_contra hne
        exact (forward r hr).filled hne bare
      obtain ⟨env, id, hcreate, hid⟩ :=
        h r hr bare' kept c hc ((updateContainer_sameRecord e c).origin ▸ horigin)
      obtain ⟨j, hj⟩ := List.mem_iff_getElem?.mp hcreate
      by_cases hjk : j = k
      · subst hjk
        rw [hp] at hj
        cases hj
        rcases hrule.created with rfl | rfl
        · -- the row has just learned the id
          have : id = "" := by simpa [Effect.updateRow, hid] using bare
          exact absurd this (linked.links.proc _ hmem).1
        · exact absurd (by simpa [loses, hp] using hid) notNow
      · exact ⟨env, id, mem_set_of_ne hjk hj, hid⟩

theorem inHand_step {s s' : Past} {a : Action} (h : InHand s) (linked : LinkedState s.config)
    (origins : OriginsOk s.config.store) (he : tell s a = some s') : InHand s' := by
  cases a with
  | proc k i => exact inHand_proc h linked origins he
  | spawn p =>
    obtain ⟨he', lost⟩ := tell_exec he
    rcases System.exec_cases he' with ⟨q, ha, _, hc⟩ | ⟨_, _, _, _, _, ha, _⟩ | ⟨_, ha, _⟩
    · cases ha
      intro r hr bare kept d hd horigin
      rw [hc] at hr hd ⊢
      obtain ⟨env, id, hcreate, hid⟩ := h r hr bare (not_lost he kept).1 d hd horigin
      exact ⟨env, id, List.mem_append.mpr (Or.inl hcreate), hid⟩
    · cases ha
    · cases ha
  | outside e =>
    obtain ⟨he', lost⟩ := tell_exec he
    rcases System.exec_cases he' with ⟨_, ha, _⟩ | ⟨_, _, _, _, _, ha, _⟩ | ⟨e', ha, ho, hc⟩
    · cases ha
    · cases ha
    · cases ha
      obtain ⟨hi, frame⟩ := outside_frame ho
      intro r' hr' bare kept d' hd' horigin
      rw [hc] at hr' hd' ⊢
      rcases World.mem_envs_apply.mp hr' with hins | ⟨r, hr, _, rfl⟩
      · exact absurd hins (hi r')
      · rw [updateRow_id] at kept horigin ⊢
        rw [(frame r).2.2] at bare
        rcases mem_host_apply.mp hd' with rfl | ⟨c, hc, rfl⟩
        · exact absurd horigin (outside_makesNone ho r.id d' rfl)
        · exact h r hr bare (not_lost he kept).1 c hc
            ((updateContainer_sameRecord e c).origin ▸ horigin)

/-- What a run keeps of its calls, rows and containers. -/
structure Told (s : Past) : Prop where
  holds : Holds OriginsOk CallSound OneOpen s.config
  inHand : InHand s

/-- The condition on the row's create is enough: nothing is left where a remove asks nothing. -/
theorem Told.leavesNone {s : Past} {a : Action} (h : Told s) (accounted : Accounted s a) :
    LeavesNone s.config a := by
  unfold LeavesNone
  split
  · rename_i k clock
    rintro p hp r hr rfl old bare
    rcases accounted _ hp r hr rfl old bare with kept | given
    · intro d hd horigin
      obtain ⟨env, id, hcreate, _⟩ := h.inHand r hr bare kept d hd horigin
      obtain ⟨j, hj⟩ := List.mem_iff_getElem?.mp hcreate
      have hjk : j ≠ k := by
        rintro rfl
        rw [Option.mem_def.mp hp] at hj
        cases hj
      -- the remove is under way, so no create is
      rcases h.holds.pair hjk hj hp with ended | ended <;> cases ended
    · exact h.holds.store.abandoned r hr bare given
  · trivial

theorem Told.step {s s' : Past} {a : Action} (h : Told s) (tidy : Tidy s a)
    (linked : LinkedState s.config) (he : tell s a = some s') : Told s' where
  holds := leftovers_inductive.exec_holds h.holds
    ⟨⟨tidy.1, tidy.2.1, h.leavesNone tidy.2.2⟩, linked⟩ (tell_exec he).1
  inHand := inHand_step h.inHand linked h.holds.store he

/-- The service at boot, with nothing lost. -/
def begin (now : Int) (agents : List AgentId) (projects : List ProjectId)
    (clients : List AgentId) (host : List Container) : Past :=
  ⟨boot now agents projects clients host, []⟩

section Runs
variable {now : Int} {agents : List AgentId} {projects : List ProjectId}
  {clients : List AgentId} {host : List Container}
variable (hosts : HostOk (boot now agents projects clients host).store)
include hosts

theorem linkedState_of_told {s : Past}
    (h : Run tell Tidy (begin now agents projects clients host) s) : LinkedState s.config :=
  linkedState_of_run hosts
    (h.map Past.config fun tidy he => ⟨tidy.1, (tell_exec he).1⟩)

theorem told_of_run {s : Past} (h : Run tell Tidy (begin now agents projects clients host) s) :
    Told s := by
  refine (h.strengthen (linkedState_of_told hosts)).invariant ⟨?_, ?_⟩
    fun told hok he => told.step hok.1 hok.2 he
  · refine ⟨⟨?_, ?_, ?_, ?_, ?_⟩, ?_, ?_⟩ <;> simp [begin, boot]
  · simp [InHand, begin, boot]

/-- In a run without overlaps, where a remove that meets a row without a container id meets
one whose create lost no id or that a pass has given up, a remove that answers success
leaves none of its row's create at all. -/
theorem removed_leaves_none {s : Past}
    (h : Run tell Tidy (begin now agents projects clients host) s)
    {k : Nat} {p : Remove} {i : Input} {s' : Past} (hp : s.config.procs[k]? = some (.remove p))
    (he : tell s (.proc k i) = some s')
    (hdone : s'.config.procs[k]? = some (.remove (.done .ok))) :
    ∃ env, p = .deleting env ∧ (∀ r ∈ s'.config.store.envs, r.id ≠ env.id) ∧
      NoneLeft s'.config.store.host env.id := by
  have told := told_of_run hosts h
  obtain ⟨env, rfl, store⟩ := remove_done hp (tell_exec he).1 hdone
  rw [store]
  refine ⟨env, rfl, fun r hr' => ?_, told.holds.proc _ (List.mem_of_getElem? hp)⟩
  simpa [Effect.drops] using (List.mem_filter.mp hr').2

end Runs

/-- A create that stops before its last commit, a pass that adopts the container after the
grace, and a remove. -/
def adoptedActions : List Action :=
  (createActions 0 ⟨1, none, "env", "image", false, [], [], []⟩ "c1").take 7 ++
  [.proc 0 .crash, .outside (.tick 61000000),
    .spawn (.pass (.start 1)), .proc 1 (.listed [⟨"c1", "env", .created⟩]),
    .proc 1 (.run 61000000), .proc 1 (.flush true),
    .spawn (.remove (.start 0)), .proc 2 (.run 61000000), .proc 2 .ok]

def adoptedRow : Environment :=
  { newRow 0 ⟨1, none, "env", "image", false, [], [], []⟩ 0 with
    containerId := "c1", status := .stopped }

/-- The lost id is adopted, so a remove of the row asks BONNIE for the container. -/
theorem removed_leaves_none_adopted :
    ∃ s s', Run tell Tidy (begin 0 [1] [] [1] []) s ∧ s.lost = [0] ∧
      tell s (.proc 2 (.run 61000000)) = some s' ∧ s.config.store.envs = [adoptedRow] ∧
      (∀ r ∈ s'.config.store.envs, r.id ≠ 0) ∧ NoneLeft s'.config.store.host 0 := by
  obtain ⟨s, hr, hp⟩ := exists_run_of_execute tell (fun s a => decide (Tidy s a))
    (begin 0 [1] [] [1] []) adoptedActions
    (fun s => decide (s.config.procs[2]? = some (Call.remove (.deleting adoptedRow)) ∧
        s.lost = [0] ∧ s.config.store.envs = [adoptedRow]) &&
      (tell s (.proc 2 (.run 61000000))).any fun s' =>
        decide (s'.config.procs[2]? = some (Call.remove (.done .ok))))
    (fun _ _ => of_decide_eq_true) (by decide)
  rw [Bool.and_eq_true, decide_eq_true_eq] at hp
  obtain ⟨s', he, hdone⟩ := (Option.any_eq_true _ _).mp hp.2
  obtain ⟨env, henv, dropped, none⟩ :=
    removed_leaves_none hostOk_empty hr hp.1.1 he (of_decide_eq_true hdone)
  cases henv
  exact ⟨s, s', hr, hp.1.2.1, he, hp.1.2.2, dropped, none⟩

def RemovedLeavesNoneAlways : Prop :=
  ∀ (now : Int) (agents : List AgentId) (projects : List ProjectId) (clients : List AgentId)
    (host : List Container), HostOk (boot now agents projects clients host).store →
    ∀ c : Config, karr.Runs (fun c a => Bonnie c a ∧ environmentCall a = true ∧
      sequential c a = true) (boot now agents projects clients host) c →
    ∀ (k : Nat) (p : Remove) (i : Input) (c' : Config), c.procs[k]? = some (.remove p) →
    karr.exec c (.proc k i) = some c' → c'.procs[k]? = some (.remove (.done .ok)) →
    ∃ env, p = .deleting env ∧ NoneLeft c'.store.host env.id

/-- A create whose reply is lost, and a remove of its row. -/
def lostReplyActions : List Action :=
  (createActions 0 ⟨1, none, "env", "image", false, [], [], []⟩ "c1").take 6 ++
  [.proc 0 (.lostMade "timeout" "c1"), .proc 0 (.run 0), .spawn (.remove (.start 0)),
    .proc 1 (.run 0)]

def lostReplyRow : Environment :=
  { newRow 0 ⟨1, none, "env", "image", false, [], [], []⟩ 0 with
    status := .error, statusMessage := createFailure "timeout" }

theorem not_removedLeavesNoneAlways : ¬ RemovedLeavesNoneAlways := by
  intro always
  obtain ⟨c, hr, hp⟩ := exists_run_of_execute karr.exec
    (fun c a => decide (Bonnie c a ∧ environmentCall a = true ∧ sequential c a = true))
    (boot 0 [1] [] [1] []) lostReplyActions
    (fun c => decide (c.procs[1]? = some (Call.remove (.deleting lostReplyRow))) &&
      (karr.exec c (.proc 1 (.run 0))).any fun c' =>
        decide (c'.procs[1]? = some (Call.remove (.done .ok)) ∧ ¬ NoneLeft c'.store.host 0))
    (fun _ _ => of_decide_eq_true) (by decide)
  rw [Bool.and_eq_true, decide_eq_true_eq] at hp
  obtain ⟨c', he, hc'⟩ := (Option.any_eq_true _ _).mp hp.2
  obtain ⟨hdone, left⟩ := of_decide_eq_true hc'
  obtain ⟨env, henv, none⟩ := always 0 [1] [] [1] [] hostOk_empty c hr 1 _ _ c' hp.1 he hdone
  cases henv
  exact left none

end Karr
