import Karr.ContainerMissing

/-!
# Calls one after the other

A row with a container id has the id of the only container its create made, and
a row that a pass has given up has none. So a remove asks BONNIE for the right
container; what it may leave behind is the container of a row without an id.
-/

set_option autoImplicit false

namespace Karr

open Interleaving

/-- A call begins when all calls before it have ended. -/
def sequential (c : Config) : Action → Bool
  | .spawn _ => c.procs.all Call.finished
  | _ => true

/-- The containers the create of this row made are no longer on any host. -/
def NoneLeft (host : List Container) (id : Nat) : Prop :=
  ∀ container ∈ host, container.origin = some id → container.state = none

instance (host : List Container) (id : Nat) : Decidable (NoneLeft host id) :=
  inferInstanceAs (Decidable (∀ container ∈ host, _ → _))

/-- What the step of a remove that will drop a row without a container id must find. The
conditions a run is under are on the row's create: this is derived from them. -/
def LeavesNone (c : Config) : Action → Prop
  | .proc k (.run clock) => ∀ p ∈ c.procs[k]?, ∀ r ∈ c.store.envs, p = .remove (.start r.id) →
      young r clock = false → r.containerId = "" → NoneLeft c.store.host r.id
  | _ => True

/-- Calls that do not overlap, honest answers, and no leftover is dropped. -/
def OneAtATime (c : Config) (a : Action) : Prop :=
  Bonnie c a ∧ sequential c a = true ∧ LeavesNone c a

/-- A message that only a request of a call can end with, never a pass. -/
def NotOfPass (message : String) : Prop :=
  message ≠ containerMissing ∧ message ≠ createNeverCompleted

theorem noClient_notOfPass : NotOfPass noClient := ⟨noClient_ne_missing, by decide⟩

theorem empty_notOfPass : NotOfPass "" := ⟨empty_ne_missing, by decide⟩

theorem createFailure_notOfPass (message : String) : NotOfPass (createFailure message) :=
  ⟨createFailure_ne_missing message, append_ne (by decide)⟩

theorem removeFailure_notOfPass (message : String) : NotOfPass (removeFailure message) :=
  ⟨removeFailure_ne_missing message, append_ne (by decide)⟩

theorem transitionFailure_notOfPass (verb : Verb) (message : String) :
    NotOfPass (transitionFailure verb message) := by
  refine ⟨transitionFailure_ne_missing verb message, ?_⟩
  unfold transitionFailure
  rw [String.append_assoc]
  exact append_ne (by cases verb <;> decide)

/-! ## At most one call at a time -/

def OneOpen (p q : Call) : Prop := p.finished = true ∨ q.finished = true

theorem finished_step {w : World} {p : Call} {i : Input} (h : p.finished = true) :
    karr.step w p i = none := by
  rcases p with p | p | p | p | p <;> cases p <;>
    simp_all [karr, Call.step, Call.finished, Call.result, createStep, transitionStep, removeStep,
      passStep, deleteStep]

theorem oneOpen_step {w : World} {p p' q : Call} {i : Input} {e : Effect} (h : OneOpen p q)
    (hs : karr.step w p i = some (e, p')) : q.finished = true := by
  rcases h with h | h
  · rw [finished_step h] at hs
    cases hs
  · exact h

/-! ## The containers of a row's create -/

/-- Of those the create of this row made, only the container with this id may be on the host. -/
def Only (w : World) (row : Nat) (id : ContainerId) : Prop :=
  ∀ c ∈ w.host, c.origin = some row → c.state ≠ none → c.id = id

/-- A row that a pass has given up has no container. -/
def AbandonedOff (w : World) (r : Environment) : Prop :=
  r.containerId = "" → r.statusMessage = createNeverCompleted → NoneLeft w.host r.id

structure OriginsOk (w : World) : Prop where
  lt : ∀ c ∈ w.host, ∀ id, c.origin = some id → id < w.nextEnv
  made : ∀ r ∈ w.envs, ∀ c ∈ w.host, c.origin = some r.id →
    c.agentId = r.agentId ∧ c.name = r.name
  only : ∀ r ∈ w.envs, r.containerId ≠ "" → Only w r.id r.containerId
  missing : ∀ r ∈ w.envs, MissingOff w r
  abandoned : ∀ r ∈ w.envs, AbandonedOff w r

/-- The columns a pass writes are as the call read them. -/
def Current (w : World) (env : Environment) : Prop :=
  ∀ r ∈ w.envs, r.id = env.id →
    r.status = env.status ∧ r.statusMessage = env.statusMessage ∧ r.containerId = env.containerId

def NotMade (w : World) (env : Environment) : Prop :=
  (∀ r ∈ w.envs, r.id = env.id → r.containerId = "" ∧ r.statusMessage = "") ∧
    ∀ c ∈ w.host, c.origin ≠ some env.id

/-- What a pass is about to write to a row it read is so. -/
structure ChangeSound (w : World) (ch : Change) : Prop where
  current : Current w ch.loaded
  only : ch.assigned.containerId ≠ "" → Only w ch.loaded.id ch.assigned.containerId
  missing : ch.assigned.statusMessage = containerMissing → ch.assigned.containerId ≠ "" →
    Gone w.host ch.loaded.agentId ch.assigned.containerId
  abandoned : ch.assigned.containerId = "" → ch.assigned.statusMessage = createNeverCompleted →
    NoneLeft w.host ch.loaded.id

/-- What the one open call knows. -/
def CallSound (w : World) : Call → Prop
  | .create (.inserted env) => NotMade w env
  | .create (.refreshed env) => NotMade w env
  | .create (.requested env) => NotMade w env
  | .create (.created env id) => Only w env.id id
  | .create (.failed _ message) => NotOfPass message
  | .transition (.answered _ _ message _) => NotOfPass message
  | .remove (.requested env) => (∀ c ∈ w.host, c.origin = some env.id → c.agentId = env.agentId) ∧
      Only w env.id env.containerId ∧
      (∃ c ∈ w.host, c.agentId = env.agentId ∧ c.id = env.containerId) ∧ MissingOff w env
  | .remove (.marking _ message) => NotOfPass message
  | .remove (.deleting env) => NoneLeft w.host env.id
  | .pass (.listed agentId containers) =>
      (∀ r ∈ w.envs, r.agentId = agentId → r.containerId ≠ "" →
        OnHost w.host agentId r.containerId → ∃ info ∈ containers, info.id = r.containerId) ∧
      (∀ c ∈ w.host, c.agentId = agentId → c.origin ≠ none → c.state ≠ none →
        ∃ info ∈ containers, info.id = c.id ∧ info.name = c.name) ∧
      ∀ a ∈ containers, ∀ b ∈ containers, a.name = b.name → a.id = b.id
  | .pass (.loaded _ changes) => ∀ ch ∈ changes, ChangeSound w ch
  | _ => True

/-- The effect makes no container for the row. -/
def MakesNone (e : Effect) (row : Nat) : Prop :=
  ∀ new, e = .addContainer new → new.origin ≠ some row

theorem only_apply {w : World} {e : Effect} {row : Nat} {id : ContainerId} (h : Only w row id)
    (none : MakesNone e row) : Only (w.apply e) row id := by
  intro d hd horigin hstate
  rcases mem_host_apply.mp hd with rfl | ⟨c, hc, rfl⟩
  · exact absurd horigin (none d rfl)
  · have same := updateContainer_sameRecord e c
    rw [same.id]
    exact h c hc (same.origin ▸ horigin) (updateContainer_state hstate)

theorem noneLeft_apply {w : World} {e : Effect} {row : Nat} (h : NoneLeft w.host row)
    (none : MakesNone e row) : NoneLeft (w.apply e).host row := by
  intro d hd horigin
  by_contra hstate
  rcases mem_host_apply.mp hd with rfl | ⟨c, hc, rfl⟩
  · exact none d rfl horigin
  · have same := updateContainer_sameRecord e c
    exact updateContainer_state hstate (h c hc (same.origin ▸ horigin))

theorem abandonedOff_of_frame {w : World} {e : Effect} {r : Environment} (h : AbandonedOff w r)
    (none : r.statusMessage = createNeverCompleted → MakesNone e r.id)
    (message : (e.updateRow r).statusMessage = createNeverCompleted →
      r.statusMessage = createNeverCompleted)
    (containerId : (e.updateRow r).containerId = r.containerId) :
    AbandonedOff (w.apply e) (e.updateRow r) := by
  intro bare hm
  rw [containerId] at bare
  rw [updateRow_id]
  exact noneLeft_apply (h bare (message hm)) (none (message hm))

/-- What the calls do to the containers and rows keeps the two in step. -/
theorem originsOk_apply {w : World} {e : Effect} (h : OriginsOk w) (fresh : FreshContainer w e)
    (hf : InsertsFresh w e)
    (new : ∀ row, e = .insert row → row.containerId = "" ∧ row.statusMessage = "")
    (made : ∀ c, e = .addContainer c → ∀ id, c.origin = some id → id < w.nextEnv ∧
      ∀ r ∈ w.envs, r.id = id → c.agentId = r.agentId ∧ c.name = r.name ∧ r.containerId = "")
    (only : ∀ r ∈ w.envs, (e.updateRow r).containerId = r.containerId ∨
      ((e.updateRow r).containerId ≠ "" → Only (w.apply e) r.id (e.updateRow r).containerId))
    (missing : ∀ r ∈ w.envs, MissingOff (w.apply e) (e.updateRow r))
    (abandoned : ∀ r ∈ w.envs, AbandonedOff (w.apply e) (e.updateRow r)) :
    OriginsOk (w.apply e) := by
  have hle := w.nextEnv_le_apply e
  refine ⟨?_, ?_, ?_, ?_, ?_⟩
  · intro d hd id horigin
    rcases mem_host_apply.mp hd with rfl | ⟨c, hc, rfl⟩
    · exact Nat.lt_of_lt_of_le (made d rfl id horigin).1 hle
    · rw [(updateContainer_sameRecord e c).origin] at horigin
      exact Nat.lt_of_lt_of_le (h.lt c hc id horigin) hle
  · intro r' hr' d hd horigin
    rcases World.mem_envs_apply.mp hr' with rfl | ⟨r, hr, _, rfl⟩
    · -- a new row has no containers yet
      rcases mem_host_apply.mp hd with he | ⟨c, hc, rfl⟩
      · cases he
      · rw [(updateContainer_sameRecord (.insert r') c).origin] at horigin
        have := h.lt c hc _ horigin
        have := (hf r' rfl).1
        omega
    · have key := updateRow_sameKey e r
      rw [key.agentId, key.name]
      rw [key.id] at horigin
      rcases mem_host_apply.mp hd with rfl | ⟨c, hc, rfl⟩
      · have := (made d rfl r.id horigin).2 r hr rfl
        exact ⟨this.1, this.2.1⟩
      · have same := updateContainer_sameRecord e c
        rw [same.agentId, same.name]
        exact h.made r hr c hc (same.origin ▸ horigin)
  · intro r' hr' hne
    rcases World.mem_envs_apply.mp hr' with rfl | ⟨r, hr, _, rfl⟩
    · exact absurd (new r' rfl).1 hne
    · rw [updateRow_id]
      rcases only r hr with hcid | honly
      · rw [hcid] at hne ⊢
        refine only_apply (h.only r hr hne) fun c he horigin => ?_
        exact hne ((made c he r.id horigin).2 r hr rfl).2.2
      · exact honly hne
  · intro r' hr'
    rcases World.mem_envs_apply.mp hr' with rfl | ⟨r, hr, _, rfl⟩
    · exact fun _ hne => absurd (new r' rfl).1 hne
    · exact missing r hr
  · intro r' hr'
    rcases World.mem_envs_apply.mp hr' with rfl | ⟨r, hr, _, rfl⟩
    · intro _ hm
      rw [(new r' rfl).2] at hm
      exact absurd hm (by decide)
    · exact abandoned r hr

theorem originsOk_of_frame {w : World} {e : Effect} (h : OriginsOk w) (fresh : FreshContainer w e)
    (hi : ∀ row, e ≠ .insert row) (made : ∀ c, e = .addContainer c → c.origin = none)
    (frame : ∀ r, (e.updateRow r).statusMessage = r.statusMessage ∧
      (e.updateRow r).containerId = r.containerId) : OriginsOk (w.apply e) := by
  refine originsOk_apply h fresh (fun row he => absurd he (hi row))
    (fun row he => absurd he (hi row)) (fun c he id ho => ?_) (fun r _ => Or.inl (frame r).2)
    (fun r hr => ?_) fun r hr => ?_
  · rw [made c he] at ho
    cases ho
  · exact missingOff_of_frame (h.missing r hr) fresh (by simp [frame r]) (frame r).2
  · exact abandonedOff_of_frame (h.abandoned r hr) (fun _ c hc => by simp [made c hc])
      (by simp [frame r]) (frame r).2

theorem originsOk_setStatus {w : World} {id : Nat} {status : Status} {message : String}
    (h : OriginsOk w) (hne : NotOfPass message) :
    OriginsOk (w.apply (.setStatus id status message)) := by
  have same (r : Environment) :
      (Effect.updateRow (.setStatus id status message) r).containerId = r.containerId := by
    simp only [Effect.updateRow]
    split <;> rfl
  refine originsOk_apply h trivial (by simp [InsertsFresh]) (by simp) (by simp)
    (fun r _ => Or.inl (same r)) (fun r hr => missingOff_setStatus (h.missing r hr) hne.1)
    fun r hr => ?_
  refine abandonedOff_of_frame (h.abandoned r hr) (by simp [MakesNone]) (fun hm => ?_) (same r)
  by_cases hid : r.id = id
  · simp only [Effect.updateRow, if_pos hid] at hm
    exact absurd hm hne.2
  · simpa [Effect.updateRow, hid] using hm

theorem originsOk_finish {w : World} {id : Nat} {containerId : ContainerId}
    (h : OriginsOk w) (only : Only w id containerId) :
    OriginsOk (w.apply (.finish id containerId)) := by
  refine originsOk_apply h trivial (by simp [InsertsFresh]) (by simp) (by simp) (fun r _ => ?_)
    (fun r hr => missingOff_finish (h.missing r hr)) fun r hr => ?_
  · simp only [Effect.updateRow]
    by_cases hid : r.id = id
    · rw [if_pos hid, hid]
      exact Or.inr fun _ => only_apply only (by simp [MakesNone])
    · rw [if_neg hid]
      exact Or.inl rfl
  · by_cases hid : r.id = id
    · intro _ hm
      simp [Effect.updateRow, hid, createNeverCompleted] at hm
    · have hrow : Effect.updateRow (.finish id containerId) r = r := if_neg hid
      exact abandonedOff_of_frame (h.abandoned r hr) (by simp [MakesNone]) (by simp [hrow])
        (by rw [hrow])

/-- A flush over rows that are as the pass read them writes what it assigned. -/
theorem write_current {w : World} {ch : Change} {r : Environment} (current : Current w ch.loaded)
    (hr : r ∈ w.envs) (hid : ch.loaded.id = r.id) :
    (ch.write r).statusMessage = ch.assigned.statusMessage ∧
      (ch.write r).containerId = ch.assigned.containerId := by
  obtain ⟨_, message, containerId⟩ := current r hr hid.symm
  simp only [Change.write]
  constructor
  · by_cases h : ch.assigned.statusMessage = ch.loaded.statusMessage
    · rw [if_pos h, message, h]
    · rw [if_neg h]
  · by_cases h : ch.assigned.containerId = ch.loaded.containerId
    · rw [if_pos h, containerId, h]
    · rw [if_neg h]

theorem originsOk_flush {w : World} {changes : List Change} (h : OriginsOk w)
    (known : ∀ ch ∈ changes, KeyKnown w ch.loaded)
    (sound : ∀ ch ∈ changes, ChangeSound w ch) : OriginsOk (w.apply (.flush changes)) := by
  refine originsOk_apply h trivial (by simp [InsertsFresh]) (by simp) (by simp)
    (fun r hr => ?_) (fun r hr => ?_) fun r hr => ?_ <;>
    rcases updateRow_flush changes r with hrow | ⟨ch, hch, hid, hrow⟩
  · exact Or.inl (by rw [hrow])
  · rw [hrow, (write_current (sound ch hch).current hr hid).2, ← hid]
    exact Or.inr fun hne => only_apply ((sound ch hch).only hne) (by simp [MakesNone])
  · exact missingOff_of_frame (h.missing r hr) trivial (by simp [hrow]) (by rw [hrow])
  · obtain ⟨message, containerId⟩ := write_current (sound ch hch).current hr hid
    rw [hrow]
    intro hm hne
    rw [message] at hm
    rw [containerId] at hne ⊢
    rw [show (ch.write r).agentId = r.agentId from rfl, ((known ch hch).2 r hr hid.symm).agentId]
    exact gone_apply ((sound ch hch).missing hm hne) trivial
  · exact abandonedOff_of_frame (h.abandoned r hr) (by simp [MakesNone]) (by simp [hrow])
      (by rw [hrow])
  · obtain ⟨message, containerId⟩ := write_current (sound ch hch).current hr hid
    rw [hrow]
    intro bare hm
    rw [containerId] at bare
    rw [message] at hm
    rw [show (ch.write r).id = r.id from rfl, ← hid]
    exact noneLeft_apply ((sound ch hch).abandoned bare hm) (by simp [MakesNone])

/-! ## What the open call knows -/

theorem current_apply {w : World} {e : Effect} {env : Environment} (h : Current w env)
    (hi : ∀ row, e ≠ .insert row) (frame : ∀ r, (e.updateRow r).status = r.status ∧
      (e.updateRow r).statusMessage = r.statusMessage ∧
      (e.updateRow r).containerId = r.containerId) : Current (w.apply e) env := by
  intro r' hr' hid
  rcases World.mem_envs_apply.mp hr' with he | ⟨r, hr, _, rfl⟩
  · exact absurd he (hi r')
  · rw [(frame r).1, (frame r).2.1, (frame r).2.2]
    exact h r hr (updateRow_id e r ▸ hid)

theorem outside_makesNone {e : Effect} (he : karr.outside e = true) (row : Nat) :
    MakesNone e row := by
  rintro new rfl
  have : new.origin = none := by simpa [karr, Effect.outside] using he
  simp [this]

theorem notMade_apply {w : World} {e : Effect} {env : Environment} (h : NotMade w env)
    (hi : ∀ row, e ≠ .insert row) (frame : ∀ r, (e.updateRow r).status = r.status ∧
      (e.updateRow r).statusMessage = r.statusMessage ∧
      (e.updateRow r).containerId = r.containerId)
    (none : MakesNone e env.id) : NotMade (w.apply e) env := by
  refine ⟨fun r' hr' hid => ?_, fun d hd horigin => ?_⟩
  · rcases World.mem_envs_apply.mp hr' with he | ⟨r, hr, _, rfl⟩
    · exact absurd he (hi r')
    · rw [(frame r).2.1, (frame r).2.2]
      exact h.1 r hr (updateRow_id e r ▸ hid)
  · rcases mem_host_apply.mp hd with rfl | ⟨c, hc, rfl⟩
    · exact none d rfl horigin
    · exact h.2 c hc ((updateContainer_sameRecord e c).origin ▸ horigin)

theorem callSound_outside {w : World} {e : Effect} {p : Call} (h : CallSound w p)
    (he : karr.outside e = true) (fresh : FreshContainer w e) (links : RowsLinked w) :
    CallSound (w.apply e) p := by
  obtain ⟨hi, frame⟩ := outside_frame he
  have none := outside_makesNone he
  have containerId (r : Environment) := (frame r).2.2
  unfold CallSound at h ⊢
  split at h
  · exact notMade_apply h hi frame (none _)
  · exact notMade_apply h hi frame (none _)
  · exact notMade_apply h hi frame (none _)
  · exact only_apply h (none _)
  · exact h
  · exact h
  · obtain ⟨agent, only, recorded, missing⟩ := h
    refine ⟨fun d hd horigin => ?_, only_apply only (none _), recorded_apply recorded e,
      missingOff_apply missing fresh⟩
    rcases mem_host_apply.mp hd with rfl | ⟨c, hc, rfl⟩
    · exact absurd horigin (none _ d rfl)
    · have same := updateContainer_sameRecord e c
      rw [same.agentId]
      exact agent c hc (same.origin ▸ horigin)
  · exact h
  · exact noneLeft_apply h (none _)
  · obtain ⟨ids, names, unique⟩ := h
    refine ⟨fun r' hr' ha hne hon => ?_, fun d hd ha horigin hstate => ?_, unique⟩
    · rcases World.mem_envs_apply.mp hr' with hi' | ⟨r, hr, _, rfl⟩
      · exact absurd hi' (hi r')
      · rw [containerId r] at hne hon ⊢
        rw [(updateRow_sameKey e r).agentId] at ha
        refine ids r hr ha hne ?_
        by_contra off
        have recorded := (links.linked r hr hne).recorded
        rw [ha] at recorded
        exact (gone_apply ⟨recorded, off⟩ fresh).2 hon
    · rcases mem_host_apply.mp hd with rfl | ⟨c, hc, rfl⟩
      · obtain ⟨row, hrow⟩ := Option.ne_none_iff_exists'.mp horigin
        exact absurd hrow (none row d rfl)
      · have same := updateContainer_sameRecord e c
        rw [same.id, same.name]
        exact names c hc (same.agentId ▸ ha) (same.origin ▸ horigin) (updateContainer_state hstate)
  · exact fun ch hch => ⟨current_apply (h ch hch).current hi frame,
      fun hne => only_apply ((h ch hch).only hne) (none _),
      fun hm hne => gone_apply ((h ch hch).missing hm hne) fresh,
      fun bare hm => noneLeft_apply ((h ch hch).abandoned bare hm) (none _)⟩
  · trivial

theorem callSound_of_finished {w : World} {p : Call} (h : p.finished = true) : CallSound w p := by
  rcases p with p | p | p | p | p <;> cases p <;>
    simp_all [Call.finished, Call.result, CallSound]

theorem originsOk_made {w : World} {env : Environment} {id : ContainerId} (h : OriginsOk w)
    (fresh : FreshContainer w (.addContainer (containerOf env id))) (known : KeyKnown w env)
    (none : NotMade w env) : OriginsOk (w.apply (.addContainer (containerOf env id))) := by
  refine originsOk_apply h fresh (by simp [InsertsFresh]) (by simp)
    (fun c hc row horigin => ?_) (fun _ _ => Or.inl rfl)
    (fun r hr => missingOff_of_frame (h.missing r hr) fresh (fun hm => hm) rfl) fun r hr => ?_
  · cases hc
    cases horigin
    refine ⟨known.1, fun r hr hid => ?_⟩
    have same := known.2 r hr hid
    exact ⟨same.agentId.symm, same.name.symm, (none.1 r hr hid).1⟩
  · refine abandonedOff_of_frame (h.abandoned r hr) (fun hm c hc horigin => ?_) (fun hm => hm) rfl
    -- the row of a create in flight has not been given up
    cases hc
    rw [(none.1 r hr (Option.some.inj horigin).symm).2] at hm
    exact absurd hm (by decide)

theorem only_made {w : World} {env : Environment} {id : ContainerId} (none : NotMade w env) :
    Only (w.apply (.addContainer (containerOf env id))) env.id id := by
  intro d hd horigin hstate
  rcases mem_host_apply.mp hd with he | ⟨c, hc, rfl⟩
  · cases he
    rfl
  · exact absurd horigin (none.2 c hc)

/-- The step lemma: a statement or a request keeps rows and containers in step. -/
theorem CallRule.origins {w : World} {p p' : Call} {i : Input} {e : Effect}
    (h : CallRule w p i e p') (fresh : FreshContainer w e) (known : KeysKnown w p)
    (ho : OriginsOk w) (sound : CallSound w p) : OriginsOk (w.apply e) := by
  have frame (hi : ∀ row, e ≠ .insert row) (made : ∀ c, e ≠ .addContainer c)
      (keep : ∀ r, e.updateRow r = r) : OriginsOk (w.apply e) :=
    originsOk_of_frame ho fresh hi (fun c hc => absurd hc (made c)) fun r => by simp [keep r]
  have hf := rule_insertsFresh h
  cases h with
  | create h =>
    cases h
    case insert =>
      refine originsOk_apply ho fresh hf (fun row he => ?_) (by simp) (fun _ _ => Or.inl rfl)
        (fun r hr => missingOff_of_frame (ho.missing r hr) fresh (fun hm => hm) rfl)
        fun r hr => abandonedOff_of_frame (ho.abandoned r hr) (by simp [MakesNone])
          (fun hm => hm) rfl
      cases he
      exact ⟨rfl, rfl⟩
    case made => exact originsOk_made ho fresh (known.1 _ rfl) sound
    case lostMade => exact originsOk_made ho fresh (known.1 _ rfl) sound
    case finish => exact originsOk_finish ho sound
    case mark => exact originsOk_setStatus ho sound
    all_goals exact ho
  | transition h =>
    cases h
    case write => exact originsOk_setStatus ho sound
    case act => exact frame (by simp) (by simp) fun _ => rfl
    case lost => exact frame (by simp) (by simp) fun _ => rfl
    all_goals exact ho
  | remove h =>
    cases h
    case mark => exact originsOk_setStatus ho sound
    case removed => exact frame (by simp) (by simp) fun _ => rfl
    case lost => exact frame (by simp) (by simp) fun _ => rfl
    case delete => exact frame (by simp) (by simp) fun _ => rfl
    all_goals exact ho
  | pass h =>
    cases h
    case flush =>
      exact originsOk_flush ho (fun ch hch => known.2 _ (List.mem_map.mpr ⟨ch, hch, rfl⟩)) sound
    all_goals exact ho
  | delete h => cases h <;> exact frame (by simp) (by simp) fun _ => rfl

theorem noneLeft_of_gone {w : World} {env : Environment}
    (agent : ∀ c ∈ w.host, c.origin = some env.id → c.agentId = env.agentId)
    (only : Only w env.id env.containerId) (off : ¬ OnHost w.host env.agentId env.containerId) :
    NoneLeft w.host env.id := by
  intro c hc horigin
  by_contra hstate
  exact off ⟨c, hc, agent c hc horigin, only c hc horigin hstate, hstate⟩

theorem noneLeft_remove {w : World} {env : Environment}
    (agent : ∀ c ∈ w.host, c.origin = some env.id → c.agentId = env.agentId)
    (only : Only w env.id env.containerId)
    (recorded : ∃ c ∈ w.host, c.agentId = env.agentId ∧ c.id = env.containerId) :
    NoneLeft (w.apply (.removeContainer env.agentId env.containerId)).host env.id := by
  have only' := only_apply (e := .removeContainer env.agentId env.containerId) only
    (by simp [MakesNone])
  refine noneLeft_of_gone (fun d hd horigin => ?_) only' (gone_remove recorded).2
  rcases mem_host_apply.mp hd with he | ⟨c, hc, rfl⟩
  · cases he
  · have same := updateContainer_sameRecord (.removeContainer env.agentId env.containerId) c
    rw [same.agentId]
    exact agent c hc (same.origin ▸ horigin)

theorem observed_ne_never (container : Option ContainerInfo) :
    (observed container).2 ≠ createNeverCompleted := by
  cases container with
  | none => decide
  | some container =>
    simp only [observed]
    split <;> decide

/-- What a pass that reads after an honest list assigns to a row. -/
theorem changeSound_of_read {w : World} {agentId : AgentId} {containers : List ContainerInfo}
    {clock : Int} (rows : RowsOk w) (links : RowsLinked w) (ho : OriginsOk w)
    (sound : CallSound w (.pass (.listed agentId containers)))
    {ch : Change} (hch : ch ∈ reconcileChanges clock containers
      (w.envs.filter fun r => decide (r.agentId = agentId))) : ChangeSound w ch := by
  obtain ⟨hmem, hrow⟩ := mem_reconcileChanges hch
  obtain ⟨hr, ha⟩ := List.mem_filter.mp hmem
  have ha : ch.loaded.agentId = agentId := of_decide_eq_true ha
  obtain ⟨ids, names, unique⟩ := sound
  obtain ⟨loaded, assigned⟩ := ch
  have current : Current w loaded := fun r hrm hid => by simp [rows.id_inj r hrm _ hr hid]
  have rule : ReconcileRule clock containers loaded assigned := reconcileRow_rule hrow
  cases rule with
  | abandon creating old unlisted =>
    have bare : loaded.containerId = "" := (links.shape _ hr).1 creating
    refine ⟨current, fun hne => absurd bare hne, fun _ hne => absurd bare hne,
      fun _ _ c hc horigin => ?_⟩
    -- a container of the row would be in the list under the row's name
    by_contra hstate
    obtain ⟨hagent, hname⟩ := ho.made _ hr c hc horigin
    obtain ⟨info, hinfo, _, hn⟩ := names c hc (hagent.trans ha) (by simp [horigin]) hstate
    exact unlisted info hinfo (hn.trans hname)
  | @adopt container creating old listed named =>
    refine ⟨current, fun _ c hc horigin hstate => ?_, fun hm => ?_, fun _ hm => ?_⟩
    · -- the row's own container is in the list, and names in a list are unique
      obtain ⟨hagent, hname⟩ := ho.made _ hr c hc horigin
      obtain ⟨info, hinfo, hid, hn⟩ :=
        names c hc (hagent.trans ha) (by simp [horigin]) hstate
      rw [← hid]
      exact unique info hinfo container listed (by rw [hn, hname, named])
    · cases observed_missing hm
    · exact absurd hm (observed_ne_never _)
  | observe settled container =>
    refine ⟨current, fun hne => ho.only _ hr hne, fun hm hne => ⟨?_, fun hon => ?_⟩,
      fun bare => absurd bare container⟩
    · exact (links.linked _ hr hne).recorded
    · obtain ⟨info, hinfo, hid⟩ := ids _ hr ha hne (ha ▸ hon)
      exact Python.not_mem_of_dictGet (observed_missing hm) hinfo hid

theorem listSound {w : World} (host : HostOk w) (agentId : AgentId) :
    CallSound w (.pass (.listed agentId (listContainers agentId w.host))) := by
  refine ⟨fun r _ _ _ hon => ?_, fun c hc ha _ hstate => ?_, fun a ha b hb hname => ?_⟩
  · obtain ⟨c, hc, ha, hid, hs⟩ := hon
    obtain ⟨state, hstate⟩ := Option.ne_none_iff_exists'.mp hs
    exact ⟨⟨c.id, c.name, state⟩, mem_listContainers.mpr ⟨c, hc, ha, rfl, rfl, hstate⟩, hid⟩
  · obtain ⟨state, hs⟩ := Option.ne_none_iff_exists'.mp hstate
    exact ⟨⟨c.id, c.name, state⟩, mem_listContainers.mpr ⟨c, hc, ha, rfl, rfl, hs⟩, rfl, rfl⟩
  · obtain ⟨c, hc, hca, hcid, hcn, hcs⟩ := mem_listContainers.mp ha
    obtain ⟨d, hd, hda, hdid, hdn, hds⟩ := mem_listContainers.mp hb
    have : c = d := host.name_inj c hc d hd (hca.trans hda.symm)
      (by rw [hcn, hdn, hname]) (by simp [hcs]) (by simp [hds])
    rw [← hcid, ← hdid, this]

theorem CallRule.sound {c : Config} {k : Nat} {p p' : Call} {i : Input} {e : Effect}
    (h : CallRule c.store p i e p') (hp : c.procs[k]? = some p) (hok : OneAtATime c (.proc k i))
    (st : LinkedState c) (ho : OriginsOk c.store) (sound : CallSound c.store p) :
    CallSound (c.store.apply e) p' := by
  have rows := st.rows.store
  have links := st.links.store
  cases h with
  | create h =>
    cases h
    case insert body begun clock _ _ =>
      refine ⟨fun r hr hid => ?_, fun d hd horigin => ?_⟩
      · rcases World.mem_envs_apply.mp hr with he | ⟨s, hs, _, rfl⟩
        · cases he
          exact ⟨rfl, rfl⟩
        · have := rows.id_lt s hs
          simp only [Effect.updateRow, newRow] at hid
          omega
      · have := ho.lt d hd _ horigin
        simp only [newRow] at this
        omega
    case refresh => exact sound
    case request => exact sound
    case refuse => exact noClient_notOfPass
    case made => exact only_made sound
    case lostMade => exact createFailure_notOfPass _
    case fail => exact createFailure_notOfPass _
    all_goals trivial
  | transition h =>
    cases h
    case act => exact empty_notOfPass
    case lost => exact transitionFailure_notOfPass _ _
    case fail => exact transitionFailure_notOfPass _ _
    all_goals trivial
  | remove h =>
    cases h
    case request found _ container =>
      have henv := (World.find_mem found).1
      exact ⟨fun c hc horigin => (ho.made _ henv c hc horigin).1, ho.only _ henv container,
        (links.linked _ henv container).recorded, ho.missing _ henv⟩
    case bare clock env found settled bare =>
      obtain ⟨henv, hid⟩ := World.find_mem found
      exact hok.2.2 _ hp env henv (by rw [hid]) settled bare
    case removed => exact noneLeft_remove sound.1 sound.2.1 sound.2.2.1
    case lost =>
      unfold Remove.fail
      split
      · exact removeFailure_notOfPass _
      · exact noneLeft_remove sound.1 sound.2.1 sound.2.2.1
    case fail env message =>
      obtain ⟨agent, only, recorded, missing⟩ := sound
      unfold Remove.fail
      split
      · exact removeFailure_notOfPass _
      · rename_i hm
        have hne : env.containerId ≠ "" := by
          obtain ⟨d, hd, _, hid⟩ := recorded
          rw [← hid]
          exact links.host.id_ne d hd
        exact noneLeft_of_gone agent only (missing (not_not.mp hm) hne).2
    all_goals trivial
  | pass h =>
    cases h
    case list agentId containers =>
      rw [hok.1.honest hp]
      exact listSound links.host agentId
    case load => exact fun ch hch => changeSound_of_read rows links ho sound hch
    all_goals trivial
  | delete h => cases h <;> trivial

theorem leftovers_inductive :
    Inductive karr (fun c a => OneAtATime c a ∧ LinkedState c) OriginsOk CallSound OneOpen where
  spawn := by
    intro c p _ _ hp
    rcases p with p | p | p | p | p <;> cases p <;> simp_all [karr, Call.fresh, CallSound]
  spawn_pair := by
    intro c p q _ hok _ hq
    have ended := List.all_eq_true.mp hok.1.2.1 q hq
    exact ⟨Or.inr ended, Or.inl ended⟩
  outside := by
    intro c e hc hok he
    have fresh := hok.1.1.1 e rfl
    obtain ⟨hi, frame⟩ := outside_frame he
    refine ⟨originsOk_of_frame hc.store fresh hi ?_ fun r => ⟨(frame r).2.1, (frame r).2.2⟩, ?_⟩
    · rintro new rfl
      simpa [karr, Effect.outside] using he
    · exact fun p hp => callSound_outside (hc.proc p hp) he fresh hok.2.links.store
  own := by
    intro c k i p e p' hc hok hp hs
    have hmem := List.mem_of_getElem? hp
    have hrule := call_rule hs
    exact ⟨hrule.origins (hok.1.1.fresh hp hs) (hok.2.rows.proc p hmem) hc.store (hc.proc p hmem),
      hrule.sound hp hok.1 hok.2 hc.store (hc.proc p hmem)⟩
  other := by
    intro c k i p e p' j q hc _ hp hs hjk hq
    have ended := oneOpen_step (hc.pair hjk.symm hp hq) hs
    exact ⟨callSound_of_finished ended, Or.inr ended, Or.inl ended⟩

end Karr
