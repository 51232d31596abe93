import Karr.System

/-!
# A row is in `error` exactly when it carries a message

Every single writer keeps the two columns in step. The flush of a reconcile
pass writes them column by column, so a pass that changes only one of them can
combine it with the other column of a commit it has not seen.
-/

set_option autoImplicit false

namespace Karr

open Interleaving

def Consistent (status : Status) (message : String) : Prop := status = .error ↔ message ≠ ""

instance (status : Status) (message : String) : Decidable (Consistent status message) :=
  inferInstanceAs (Decidable (_ ↔ _))

def Environment.Consistent (r : Environment) : Prop := Karr.Consistent r.status r.statusMessage

instance (r : Environment) : Decidable r.Consistent :=
  inferInstanceAs (Decidable (Karr.Consistent _ _))

theorem append_ne_empty {s t : String} (h : s ≠ "") : s ++ t ≠ "" := by
  intro he
  exact h (String.append_eq_empty_iff.mp he).1

theorem noClient_ne_empty : noClient ≠ "" := by decide

theorem createFailure_ne_empty (message : String) : createFailure message ≠ "" :=
  append_ne_empty (by decide)

theorem removeFailure_ne_empty (message : String) : removeFailure message ≠ "" :=
  append_ne_empty (by decide)

theorem transitionFailure_ne_empty (verb : Verb) (message : String) :
    transitionFailure verb message ≠ "" :=
  append_ne_empty (by cases verb <;> decide)

theorem error_consistent {message : String} (h : message ≠ "") : Consistent .error message :=
  ⟨fun _ => h, fun _ => rfl⟩

theorem empty_consistent {status : Status} (h : status ≠ .error) : Consistent status "" :=
  ⟨fun he => absurd he h, fun he => absurd rfl he⟩

theorem transitions_ne_error {verb : Verb} {status target : Status}
    (h : transitions verb status = some target) : target ≠ .error := by
  cases verb <;> cases status <;> simp_all [transitions] <;> exact h ▸ nofun

theorem observed_consistent (container : Option ContainerInfo) :
    Consistent (observed container).1 (observed container).2 := by
  cases container with
  | none => decide
  | some c =>
    simp only [observed]
    split <;> decide

theorem reconcileRow_consistent {clock : Int} {containers : List ContainerInfo}
    {env new : Environment} (h : reconcileRow clock containers env = some new) :
    new.Consistent := by
  revert h
  fun_cases reconcileRow clock containers env <;> intro h <;> cases h
  · change Consistent .error createNeverCompleted
    decide
  · exact observed_consistent _
  · exact observed_consistent _

/-- The flush writes one of the two columns and leaves the other as it finds it. -/
def Change.oneColumn (c : Change) : Prop :=
  (c.assigned.status = c.loaded.status ∧ c.assigned.statusMessage ≠ c.loaded.statusMessage) ∨
  (c.assigned.status ≠ c.loaded.status ∧ c.assigned.statusMessage = c.loaded.statusMessage)

/-- When a flush of consistent values over a consistent row is consistent. -/
theorem write_consistent_iff {c : Change} {row : Environment} (hl : c.loaded.Consistent)
    (ha : c.assigned.Consistent) (hr : row.Consistent) :
    (c.write row).Consistent ↔
      (c.oneColumn → (row.status = .error ↔ c.loaded.status = .error)) := by
  unfold Environment.Consistent Consistent at *
  simp only [Change.write]
  by_cases hs : c.assigned.status = c.loaded.status <;>
    by_cases hm : c.assigned.statusMessage = c.loaded.statusMessage
  · have none : ¬ c.oneColumn := fun h => h.elim (fun h => h.2 hm) (fun h => h.1 hs)
    rw [if_pos hs, if_pos hm]
    exact ⟨fun _ h => absurd h none, fun _ => hr⟩
  · have one : c.oneColumn := Or.inl ⟨hs, hm⟩
    rw [if_pos hs, if_neg hm, ← ha, hs]
    exact ⟨fun h _ => h, fun h => h one⟩
  · have one : c.oneColumn := Or.inr ⟨hs, hm⟩
    rw [if_neg hs, if_pos hm, ← hr, ha, hm, ← hl]
    exact ⟨fun h _ => h.symm, fun h => (h one).symm⟩
  · have none : ¬ c.oneColumn := fun h => h.elim (fun h => hs h.1) (fun h => hm h.2)
    rw [if_neg hs, if_neg hm]
    exact ⟨fun _ h => absurd h none, fun _ => ha⟩

instance (c : Change) : Decidable c.oneColumn := inferInstanceAs (Decidable (_ ∨ _))

/-- Where a pass writes one column of a row, the row is still in `error`, or
still not in `error`, as the pass read it. -/
def Unmixed (c : Config) (a : Action) : Prop :=
  ∀ ch ∈ flushed c a, ∀ r ∈ c.store.envs, r.id = ch.loaded.id → ch.oneColumn →
    (r.status = .error ↔ ch.loaded.status = .error)

instance (c : Config) (a : Action) : Decidable (Unmixed c a) :=
  inferInstanceAs (Decidable (∀ ch ∈ _, ∀ r ∈ _, _ → _ → (_ ↔ _)))

/-- What a call is about to write is consistent. -/
def WritesConsistent (_ : World) : Call → Prop
  | .create (.failed _ message) => message ≠ ""
  | .transition (.requested _ _ target) => target ≠ .error
  | .transition (.answered _ status message _) => Consistent status message
  | .remove (.marking _ message) => message ≠ ""
  | .pass (.loaded _ changes) => ∀ c ∈ changes, c.loaded.Consistent ∧ c.assigned.Consistent
  | _ => True

def RowsConsistent (w : World) : Prop := ∀ r ∈ w.envs, r.Consistent

/-- The effect leaves each row it inserts or updates consistent. -/
def UpdatesConsistent (w : World) (e : Effect) : Prop :=
  (∀ row, e = .insert row → row.Consistent) ∧ ∀ r ∈ w.envs, (e.updateRow r).Consistent

theorem rowsConsistent_apply {w : World} {e : Effect} (h : UpdatesConsistent w e) :
    RowsConsistent (w.apply e) := by
  intro r' hr'
  rcases World.mem_envs_apply.mp hr' with he | ⟨r, hr, _, rfl⟩
  · exact h.1 r' he
  · exact h.2 r hr

theorem updatesConsistent_of_frame {w : World} {e : Effect} (h : RowsConsistent w)
    (hi : ∀ row, e ≠ .insert row)
    (frame : ∀ r, (e.updateRow r).status = r.status ∧
      (e.updateRow r).statusMessage = r.statusMessage) : UpdatesConsistent w e := by
  refine ⟨fun row he => absurd he (hi row), fun r hr => ?_⟩
  have hc := h r hr
  unfold Environment.Consistent at hc ⊢
  rwa [(frame r).1, (frame r).2]

theorem setStatus_updatesConsistent {w : World} {id : Nat} {status : Status} {message : String}
    (h : RowsConsistent w) (hc : Consistent status message) :
    UpdatesConsistent w (.setStatus id status message) := by
  refine ⟨by simp, fun r hr => ?_⟩
  simp only [Effect.updateRow]
  split
  · exact hc
  · exact h r hr

theorem finish_updatesConsistent {w : World} {id : Nat} {containerId : ContainerId}
    (h : RowsConsistent w) : UpdatesConsistent w (.finish id containerId) := by
  refine ⟨by simp, fun r hr => ?_⟩
  simp only [Effect.updateRow]
  split
  · change Consistent .stopped ""
    decide
  · exact h r hr

theorem flush_updatesConsistent {w : World} {changes : List Change} (h : RowsConsistent w)
    (hc : ∀ c ∈ changes, c.loaded.Consistent ∧ c.assigned.Consistent)
    (unmixed : ∀ ch ∈ changes, ∀ r ∈ w.envs, r.id = ch.loaded.id → ch.oneColumn →
      (r.status = .error ↔ ch.loaded.status = .error)) :
    UpdatesConsistent w (.flush changes) := by
  refine ⟨by simp, fun r hr => ?_⟩
  rcases updateRow_flush changes r with hrow | ⟨ch, hch, hid, hrow⟩ <;> rw [hrow]
  · exact h r hr
  · exact (write_consistent_iff (hc ch hch).1 (hc ch hch).2 (h r hr)).mpr
      (unmixed ch hch r hr hid.symm)

theorem statusMessage_inductive :
    Inductive karr Unmixed RowsConsistent WritesConsistent (fun _ _ => True) where
  spawn := by
    intro c p _ _ hp
    rcases p with p | p | p | p | p <;> cases p <;>
      simp_all [karr, Call.fresh, WritesConsistent]
  spawn_pair := fun _ _ _ _ => ⟨trivial, trivial⟩
  outside := by
    intro c e hc _ he
    obtain ⟨hi, frame⟩ := outside_frame he
    refine ⟨rowsConsistent_apply ?_, fun p hp => hc.proc p hp⟩
    exact updatesConsistent_of_frame hc.store hi fun r => ⟨(frame r).1, (frame r).2.1⟩
  other := fun hc _ _ _ _ hq => ⟨hc.proc _ (List.mem_of_getElem? hq), trivial, trivial⟩
  own := by
    intro c k i p e p' hc hok hp hs
    have hw := hc.proc p (List.mem_of_getElem? hp)
    have idle : RowsConsistent c.store := hc.store
    cases call_rule hs with
    | create h =>
      cases h
      case insert body begun clock _ _ =>
        refine ⟨rowsConsistent_apply ⟨fun row he => ?_, hc.store⟩, trivial⟩
        cases he
        change Consistent .creating ""
        decide
      case refuse => exact ⟨idle, noClient_ne_empty⟩
      case made => exact ⟨idle, trivial⟩
      case lostMade => exact ⟨idle, createFailure_ne_empty _⟩
      case fail => exact ⟨idle, createFailure_ne_empty _⟩
      case finish => exact ⟨rowsConsistent_apply (finish_updatesConsistent idle), trivial⟩
      case mark =>
        exact ⟨rowsConsistent_apply (setStatus_updatesConsistent idle (error_consistent hw)), trivial⟩
      all_goals exact ⟨idle, trivial⟩
    | transition h =>
      cases h
      case request legal => exact ⟨idle, transitions_ne_error legal⟩
      case act => exact ⟨idle, empty_consistent hw⟩
      case lost => exact ⟨idle, error_consistent (transitionFailure_ne_empty _ _)⟩
      case fail => exact ⟨idle, error_consistent (transitionFailure_ne_empty _ _)⟩
      case write => exact ⟨rowsConsistent_apply (setStatus_updatesConsistent idle hw), trivial⟩
      all_goals exact ⟨idle, trivial⟩
    | remove h =>
      have fail (env : Environment) (message : String) (w : World) :
          WritesConsistent w (.remove (Remove.fail env message)) := by
        unfold Remove.fail
        split
        · exact removeFailure_ne_empty message
        · trivial
      cases h
      case lost => exact ⟨idle, fail _ _ _⟩
      case fail => exact ⟨idle, fail _ _ _⟩
      case mark =>
        exact ⟨rowsConsistent_apply (setStatus_updatesConsistent idle (error_consistent hw)), trivial⟩
      case delete => exact ⟨fun r hr => idle r (List.mem_filter.mp hr).1, trivial⟩
      all_goals exact ⟨idle, trivial⟩
    | pass h =>
      cases h
      case load =>
        refine ⟨idle, fun ch hch => ?_⟩
        obtain ⟨hm, hrow⟩ := mem_reconcileChanges hch
        exact ⟨idle _ (List.mem_filter.mp hm).1, reconcileRow_consistent hrow⟩
      case flush agentId changes strict unlocked =>
        refine ⟨rowsConsistent_apply (flush_updatesConsistent idle hw ?_), trivial⟩
        simpa only [Unmixed, flushed, hp] using hok
      all_goals exact ⟨idle, trivial⟩
    | delete h =>
      cases h
      case commit => exact ⟨fun r hr => idle r (List.mem_filter.mp hr).1, trivial⟩
      all_goals exact ⟨idle, trivial⟩

/-- In every run whose flushes are unmixed, all rows are consistent in all states. -/
theorem consistent_of_unmixed {now : Int} {agents : List AgentId} {projects : List ProjectId}
    {clients : List AgentId} {host : List Container} {c : Config}
    (h : karr.Runs Unmixed (boot now agents projects clients host) c) :
    ∀ r ∈ c.store.envs, r.Consistent := by
  have init : Holds RowsConsistent WritesConsistent (fun _ _ => True)
      (boot now agents projects clients host) :=
    ⟨by simp [RowsConsistent, boot], by simp [boot], fun _ _ _ => trivial⟩
  exact (statusMessage_inductive.holds_of_run init h).store

/-- What a pass that sees the container stopped and a failing stop do to one row. -/
def raceActions (flushLast : Bool) : List Action :=
  createActions 0 ⟨1, none, "env", "image", false, [], [], []⟩ "c1" ++
  [.spawn (.transition (.start .start 0)), .proc 1 (.run 0), .proc 1 .ok, .proc 1 (.run 0),
    .outside (.setContainer 1 "c1" .exited),
    .spawn (.pass (.start 1)), .proc 2 (.listed [⟨"c1", "env", .exited⟩]), .proc 2 (.run 0),
    .spawn (.transition (.start .stop 0)), .proc 3 (.run 0), .proc 3 (.error "gone")] ++
  if flushLast then [.proc 3 (.run 0), .proc 2 (.flush true)]
  else [.proc 2 (.flush true), .proc 3 (.run 0)]

theorem consistent_of_unmixed_race :
    ∃ c, karr.Runs Unmixed (boot 0 [1] [] [1] []) c ∧
      c.store.envs.map Environment.status = [.error] ∧ ∀ r ∈ c.store.envs, r.Consistent := by
  obtain ⟨c, hr, hp⟩ := exists_run_of_execute karr.exec (fun c a => decide (Unmixed c a))
    (boot 0 [1] [] [1] []) (raceActions false)
    (fun c => decide (c.store.envs.map Environment.status = [.error]))
    (fun _ _ => of_decide_eq_true) (by decide)
  exact ⟨c, hr, of_decide_eq_true hp, consistent_of_unmixed hr⟩

def ConsistentAlways : Prop :=
  ∀ (now : Int) (agents : List AgentId) (projects : List ProjectId) (clients : List AgentId)
    (host : List Container) (c : Config),
    karr.Runs (fun _ a => environmentCall a = true) (boot now agents projects clients host) c →
    ∀ r ∈ c.store.envs, r.Consistent

/-- The pass loaded `running`, the stop failed and committed `error` with its
message, and the flush then wrote `stopped` and left the message. -/
theorem not_consistentAlways : ¬ ConsistentAlways := by
  intro always
  obtain ⟨c, hr, hp⟩ := exists_run_of_execute karr.exec (fun _ a => environmentCall a)
    (boot 0 [1] [] [1] []) (raceActions true)
    (fun c => c.store.envs.any fun r => decide ¬ r.Consistent) (fun _ _ h => h) (by decide)
  obtain ⟨r, hr', hc⟩ := List.any_eq_true.mp hp
  exact of_decide_eq_true hc (always 0 [1] [] [1] [] c hr r hr')

end Karr
