import Karr.Invariants.Rows
import Karr.Lib.Solo

/-!
# What a failed request leaves behind

A call that ends in `ApiError` has either written nothing, or it has marked one
row `error` with the text of that error. The writes are read off the trace of
the call, so that marking a row with the text it already has counts as one.
-/

set_option autoImplicit false

namespace Karr

open Interleaving

abbrev Alone := Interleaving.Solo World Call Input Effect

/-- The statements on `karr_environments`. -/
def Effect.writesTable : Effect → Bool
  | .insert _ => true
  | .setStatus _ _ _ => true
  | .finish _ _ => true
  | .deleteRow _ => true
  | .flush _ => true
  | .dropAgent _ _ => true
  | .deleteProject _ => true
  | _ => false

def writes (c : Alone) : List Effect := (c.trace.map Prod.snd).filter Effect.writesTable

/-- BONNIE answered with a `BonnieError`, of which not-found is one. -/
def Input.bonnieError : Input → Bool
  | .notFound _ => true
  | .error _ => true
  | .lost _ => true
  | .lostMade _ _ => true
  | _ => false

def bonnieFailed (c : Alone) : Bool := c.trace.any fun s => s.1.bonnieError

/-- `create`, `start`, `stop` and `remove` before their first step. -/
def operation : Call → Bool
  | .create (.start _) => true
  | .transition (.start _ _) => true
  | .remove (.start _) => true
  | _ => false

def createWithoutClient (w : World) : Call → Prop
  | .create (.start body) => body.agentId ∉ w.clients
  | _ => False

/-- A row as `_set_status` leaves it. -/
def errorRow (row : Environment) (message : String) : Environment :=
  { row with status := .error, statusMessage := message }

/-- What an operation that raised an error with this message has written, and the table it
leaves. Only a create can leave a new row. -/
inductive ErrorWrites (w : World) (message : String) : Call → List Effect → List Environment → Prop
  | unchanged {call : Call} : ErrorWrites w message call [] w.envs
  | marked {call : Call} {row : Environment} (found : row ∈ w.envs)
      (not_create : ∀ body, call ≠ .create (.start body)) :
      ErrorWrites w message call [.setStatus row.id .error message]
        (w.envs.map fun r => if r = row then errorRow row message else r)
  | created {body : EnvironmentCreate} {row : Environment} {begun : Int}
      (new : row = newRow w.nextEnv body begun) (fresh : ∀ r ∈ w.envs, r.id ≠ row.id)
      (bare : row.containerId = "") :
      ErrorWrites w message (.create (.start body))
        [.insert row, .setStatus row.id .error message] (w.envs ++ [errorRow row message])

/-- The contract of an operation that raised `ApiError(code, message)`. -/
structure ErrorContract (w : World) (call : Call) (c : Alone) (code : Nat) (message : String) :
    Prop where
  table : ErrorWrites w message call (writes c) c.store.envs
  recorded : writes c ≠ [] ↔
    code = 502 ∧ (bonnieFailed c = true ∨ createWithoutClient w call)

/-! ## One step of a trace -/

section Trace
variable {c : Alone} {i : Input} {e : Effect}

theorem writes_step (w' : World) (p' : Call) :
    writes ⟨w', p', c.trace ++ [(i, e)]⟩ =
      writes c ++ if e.writesTable then [e] else [] := by
  cases h : e.writesTable <;> simp [writes, h]

theorem bonnieFailed_step (w' : World) (p' : Call) :
    bonnieFailed ⟨w', p', c.trace ++ [(i, e)]⟩ = (bonnieFailed c || i.bonnieError) := by
  simp [bonnieFailed]

theorem bonnieFailed_error (h : i.bonnieError = true) (w' : World) (p' : Call) :
    bonnieFailed ⟨w', p', c.trace ++ [(i, e)]⟩ = true := by
  rw [bonnieFailed_step, h, Bool.or_true]

end Trace

/-- Nothing has been written so far. -/
structure Quiet (w : World) (c : Alone) : Prop where
  writes : writes c = []
  envs : c.store.envs = w.envs
  nextEnv : c.store.nextEnv = w.nextEnv
  clients : c.store.clients = w.clients

/-- Only the row of the create has been written so far. -/
structure Inserted (w : World) (body : EnvironmentCreate) (env : Environment) (c : Alone) :
    Prop where
  writes : writes c = [.insert env]
  envs : c.store.envs = w.envs ++ [env]
  new : ∃ begun, env = newRow w.nextEnv body begun
  clients : c.store.clients = w.clients

/-- A request to a host changes nothing but the host. -/
inductive HostOnly : Effect → Prop
  | none : HostOnly .none
  | add (d : Container) : HostOnly (.addContainer d)
  | set (agentId : AgentId) (id : ContainerId) (state : ContainerState) :
      HostOnly (.setContainer agentId id state)
  | remove (agentId : AgentId) (id : ContainerId) : HostOnly (.removeContainer agentId id)

theorem Quiet.step {w : World} {c : Alone} (h : Quiet w c) {e : Effect} (he : HostOnly e)
    (i : Input) (p' : Call) : Quiet w ⟨c.store.apply e, p', c.trace ++ [(i, e)]⟩ := by
  obtain ⟨hw, henvs, hnext, hclients⟩ := h
  cases he <;> exact ⟨by simp [writes_step, Effect.writesTable, hw], henvs, hnext, hclients⟩

theorem Inserted.step {w : World} {body : EnvironmentCreate} {env : Environment} {c : Alone}
    (h : Inserted w body env c) {e : Effect} (he : HostOnly e) (i : Input) (p' : Call) :
    Inserted w body env ⟨c.store.apply e, p', c.trace ++ [(i, e)]⟩ := by
  obtain ⟨hw, henvs, hnew, hclients⟩ := h
  cases he <;> exact ⟨by simp [writes_step, Effect.writesTable, hw], henvs, hnew, hclients⟩

/-- What is known of the run when it has come this far. -/
def TracedCreate (w : World) (body : EnvironmentCreate) (c : Alone) : Create → Prop
  | .start b => Quiet w c ∧ bonnieFailed c = false ∧ b = body
  | .agentRead b _ => Quiet w c ∧ bonnieFailed c = false ∧ b = body
  | .checked b _ => Quiet w c ∧ bonnieFailed c = false ∧ b = body
  | .inserted env => Inserted w body env c
  | .refreshed env => Inserted w body env c
  | .requested env => Inserted w body env c
  | .failed env _ => Inserted w body env c ∧
      (bonnieFailed c = true ∨ body.agentId ∉ w.clients)
  | .done (.apiError code message) => ErrorContract w (.create (.start body)) c code message
  | _ => True

def TracedTransition (w : World) (call : Call) (c : Alone) : Transition → Prop
  | .start _ _ => Quiet w c ∧ bonnieFailed c = false
  | .requested _ env _ => Quiet w c ∧ env ∈ w.envs
  | .answered env status message result => Quiet w c ∧ env ∈ w.envs ∧
      (result = .ok ∨ (result = .apiError 502 message ∧ status = .error ∧ bonnieFailed c = true))
  | .done (.apiError code message) => ErrorContract w call c code message
  | _ => True

def TracedRemove (w : World) (call : Call) (c : Alone) : Remove → Prop
  | .start _ => Quiet w c ∧ bonnieFailed c = false
  | .requested env => Quiet w c ∧ env ∈ w.envs
  | .marking env _ => Quiet w c ∧ env ∈ w.envs ∧ bonnieFailed c = true
  | .done (.apiError code message) => ErrorContract w call c code message
  | _ => True

inductive Traced (w : World) : Call → Alone → Prop
  | create {body : EnvironmentCreate} {store : World} {p : Create} {trace : List (Input × Effect)}
      (h : TracedCreate w body ⟨store, .create p, trace⟩ p) :
      Traced w (.create (.start body)) ⟨store, .create p, trace⟩
  | transition {verb : Verb} {id : Nat} {store : World} {p : Transition}
      {trace : List (Input × Effect)}
      (h : TracedTransition w (.transition (.start verb id)) ⟨store, .transition p, trace⟩ p) :
      Traced w (.transition (.start verb id)) ⟨store, .transition p, trace⟩
  | remove {id : Nat} {store : World} {p : Remove} {trace : List (Input × Effect)}
      (h : TracedRemove w (.remove (.start id)) ⟨store, .remove p, trace⟩ p) :
      Traced w (.remove (.start id)) ⟨store, .remove p, trace⟩

/-! ## The errors -/

theorem ErrorContract.refused {w : World} {call : Call} {c : Alone} {code : Nat}
    {message : String} (h : Quiet w c)
    (unanswered : code = 502 → bonnieFailed c = false ∧ ¬ createWithoutClient w call) :
    ErrorContract w call c code message := by
  refine ⟨by rw [h.writes, h.envs]; exact .unchanged, ?_⟩
  rw [h.writes]
  refine ⟨fun hne => absurd rfl hne, fun ⟨hcode, hfail⟩ => ?_⟩
  obtain ⟨hno, hclient⟩ := unanswered hcode
  rcases hfail with hfail | hfail
  · simp [hno] at hfail
  · exact absurd hfail hclient

theorem map_setStatus {w : World} (rows : RowsOk w) {env : Environment} (found : env ∈ w.envs)
    (message : String) :
    w.envs.map (Effect.updateRow (.setStatus env.id .error message)) =
      w.envs.map fun r => if r = env then errorRow env message else r := by
  refine List.map_congr_left fun r hr => ?_
  by_cases hid : r.id = env.id
  · obtain rfl := rows.id_inj r hr env found hid
    simp [Effect.updateRow, errorRow]
  · have hne : r ≠ env := fun h => hid (congrArg Environment.id h)
    simp [Effect.updateRow, hid, hne]

theorem ErrorContract.mark {w : World} {call : Call} {c : Alone} {env : Environment}
    {message : String} {clock : Int} (rows : RowsOk w) (h : Quiet w c) (found : env ∈ w.envs)
    (failed : bonnieFailed c = true) (not_create : ∀ body, call ≠ .create (.start body))
    (p' : Call) :
    ErrorContract w call ⟨c.store.apply (.setStatus env.id .error message), p',
      c.trace ++ [(.run clock, .setStatus env.id .error message)]⟩ 502 message := by
  have hw : writes ⟨c.store.apply (.setStatus env.id .error message), p',
      c.trace ++ [(.run clock, .setStatus env.id .error message)]⟩ =
      [.setStatus env.id .error message] := by
    simp [writes_step, Effect.writesTable, h.writes]
  refine ⟨?_, ?_⟩
  · rw [hw]
    simp only [World.apply, World.update, h.envs, map_setStatus rows found]
    exact .marked found not_create
  · rw [hw, bonnieFailed_step, failed]
    simp

theorem ErrorContract.markNew {w : World} {body : EnvironmentCreate} {c : Alone}
    {env : Environment} {message : String} {clock : Int} (rows : RowsOk w)
    (h : Inserted w body env c) (failed : bonnieFailed c = true ∨ body.agentId ∉ w.clients)
    (p' : Call) :
    ErrorContract w (.create (.start body)) ⟨c.store.apply (.setStatus env.id .error message), p',
      c.trace ++ [(.run clock, .setStatus env.id .error message)]⟩ 502 message := by
  obtain ⟨begun, new⟩ := h.new
  have id : env.id = w.nextEnv := by rw [new]; rfl
  have fresh : ∀ r ∈ w.envs, r.id ≠ env.id := by
    intro r hr
    have := rows.id_lt r hr
    omega
  have hw : writes ⟨c.store.apply (.setStatus env.id .error message), p',
      c.trace ++ [(.run clock, .setStatus env.id .error message)]⟩ =
      [.insert env, .setStatus env.id .error message] := by
    simp [writes_step, Effect.writesTable, h.writes]
  have others : w.envs.map (Effect.updateRow (.setStatus env.id .error message)) = w.envs :=
    (List.map_congr_left fun r hr => if_neg (fresh r hr)).trans (List.map_id _)
  have own : Effect.updateRow (.setStatus env.id .error message) env = errorRow env message :=
    if_pos rfl
  refine ⟨?_, ?_⟩
  · rw [hw]
    simp only [World.apply, World.update, h.envs, List.map_append, List.map_cons, List.map_nil,
      others, own]
    exact .created new fresh (by rw [new]; rfl)
  · rw [hw, bonnieFailed_step]
    rcases failed with failed | failed
    · simp [failed]
    · simp [createWithoutClient, failed]

/-! ## The steps -/

theorem Quiet.run {w : World} {c : Alone} (h : Quiet w c ∧ bonnieFailed c = false) (clock : Int)
    (p' : Call) : Quiet w ⟨c.store.apply .none, p', c.trace ++ [(.run clock, .none)]⟩ ∧
      bonnieFailed ⟨c.store.apply .none, p', c.trace ++ [(.run clock, .none)]⟩ = false :=
  ⟨h.1.step .none _ _, by rw [bonnieFailed_step, h.2]; rfl⟩

/-- An early refusal of a create is never answered 502. -/
theorem ErrorContract.early {w : World} {body : EnvironmentCreate} {c : Alone} {code : Nat}
    {message : String} (h : Quiet w c ∧ bonnieFailed c = false) (hcode : code ≠ 502) (clock : Int)
    (p' : Call) : ErrorContract w (.create (.start body))
      ⟨c.store.apply .none, p', c.trace ++ [(.run clock, .none)]⟩ code message :=
  .refused (Quiet.run h clock p').1 fun h => absurd h hcode

theorem TracedCreate.step {w : World} {body : EnvironmentCreate} {c : Alone} {p p' : Create}
    {i : Input} {e : Effect} (rows : RowsOk w) (h : TracedCreate w body c p)
    (hs : createStep c.store p i = some (e, p')) :
    TracedCreate w body ⟨c.store.apply e, .create p', c.trace ++ [(i, e)]⟩ p' := by
  revert h
  revert hs
  fun_cases createStep c.store p i <;> intro hs h <;> cases hs
  case case1 => exact .early ⟨h.1, h.2.1⟩ (by decide) _ _
  case case2 => exact .early ⟨h.1, h.2.1⟩ (by decide) _ _
  case case3 => exact .early ⟨h.1, h.2.1⟩ (by decide) _ _
  case case4 =>
    obtain ⟨hq, hf⟩ := Quiet.run ⟨h.1, h.2.1⟩ _ _
    exact ⟨hq, hf, h.2.2⟩
  case case5 => exact .early ⟨h.1, h.2.1⟩ (by decide) _ _
  case case6 =>
    obtain ⟨hq, hf⟩ := Quiet.run ⟨h.1, h.2.1⟩ _ _
    exact ⟨hq, hf, h.2.2⟩
  case case8 => exact .early ⟨h.1, h.2.1⟩ (by decide) _ _
  case case10 => exact .early ⟨h.1, h.2.1⟩ (by decide) _ _
  case case11 b begun clock row _ _ _ =>
    obtain ⟨quiet, _, rfl⟩ := h
    refine ⟨by simp [writes_step, Effect.writesTable, quiet.writes], ?_, ⟨begun, ?_⟩, quiet.clients⟩
    · simp only [World.apply, quiet.envs]
    · simp only [row, quiet.nextEnv]
  case case12 => exact Inserted.step h .none _ _
  case case13 => trivial
  case case14 => exact Inserted.step h .none _ _
  case case15 env _ client =>
    refine ⟨Inserted.step h .none _ _, Or.inr ?_⟩
    obtain ⟨begun, new⟩ := h.new
    have same : env.agentId = body.agentId := by rw [new]; rfl
    rwa [h.clients, same] at client
  case case16 => trivial
  case case17 => exact ⟨Inserted.step h (.add _) _ _, Or.inl (bonnieFailed_error rfl _ _)⟩
  case case18 => exact ⟨Inserted.step h .none _ _, Or.inl (bonnieFailed_error rfl _ _)⟩
  case case19 => exact ⟨Inserted.step h .none _ _, Or.inl (bonnieFailed_error rfl _ _)⟩
  case case21 => trivial
  case case23 => exact .markNew rows h.1 h.2 _
  case case24 => trivial
  case case25 => trivial
  case case27 => trivial

theorem not_createWithoutClient {w : World} {call : Call} (h : ∀ p, call ≠ .create p) :
    ¬ createWithoutClient w call := by
  cases call with
  | create p => exact absurd rfl (h p)
  | _ => exact id

/-- Outside a create, an error before BONNIE is asked. -/
theorem ErrorContract.unasked {w : World} {call : Call} {c : Alone} {code : Nat}
    {message : String} (h : Quiet w c ∧ bonnieFailed c = false)
    (not_create : ∀ p, call ≠ .create p) (clock : Int) (p' : Call) :
    ErrorContract w call ⟨c.store.apply .none, p', c.trace ++ [(.run clock, .none)]⟩ code
      message :=
  .refused (Quiet.run h clock p').1 fun _ =>
    ⟨(Quiet.run h clock p').2, not_createWithoutClient not_create⟩

theorem TracedTransition.step {w : World} {call : Call} {c : Alone} {p p' : Transition}
    {i : Input} {e : Effect} (rows : RowsOk w) (not_create : ∀ p, call ≠ .create p)
    (h : TracedTransition w call c p) (hs : transitionStep c.store p i = some (e, p')) :
    TracedTransition w call ⟨c.store.apply e, .transition p', c.trace ++ [(i, e)]⟩ p' := by
  revert h
  revert hs
  fun_cases transitionStep c.store p i <;> intro hs h <;> cases hs
  case case1 => exact .unasked h not_create _ _
  case case2 => exact .unasked h not_create _ _
  case case3 found _ _ _ =>
    exact ⟨h.1.step .none _ _, by rw [← h.1.envs]; exact (World.find_mem found).1⟩
  case case4 => exact .unasked h not_create _ _
  case case5 => exact ⟨h.1.step (.set _ _ _) _ _, h.2, Or.inl rfl⟩
  case case6 =>
    exact ⟨h.1.step (.set _ _ _) _ _, h.2, Or.inr ⟨rfl, rfl, bonnieFailed_error rfl _ _⟩⟩
  case case7 => exact ⟨h.1.step .none _ _, h.2, Or.inr ⟨rfl, rfl, bonnieFailed_error rfl _ _⟩⟩
  case case8 => exact ⟨h.1.step .none _ _, h.2, Or.inr ⟨rfl, rfl, bonnieFailed_error rfl _ _⟩⟩
  case case10 =>
    obtain ⟨quiet, found, rfl | ⟨rfl, rfl, failed⟩⟩ := h
    · trivial
    · exact .mark rows quiet found failed (fun body => not_create _) _
  case case12 => trivial

theorem TracedRemove.step {w : World} {call : Call} {c : Alone} {p p' : Remove}
    {i : Input} {e : Effect} (rows : RowsOk w) (not_create : ∀ p, call ≠ .create p)
    (h : TracedRemove w call c p) (hs : removeStep c.store p i = some (e, p')) :
    TracedRemove w call ⟨c.store.apply e, .remove p', c.trace ++ [(i, e)]⟩ p' := by
  -- a failed removal goes on to mark the row, or to delete it
  have fail {env : Environment} {message : String} {d : Alone}
      (hd : Quiet w d ∧ env ∈ w.envs ∧ bonnieFailed d = true) :
      TracedRemove w call d (Remove.fail env message) := by
    unfold Remove.fail
    split
    · exact hd
    · trivial
  revert h
  revert hs
  fun_cases removeStep c.store p i <;> intro hs h <;> cases hs
  case case1 => exact .unasked h not_create _ _
  case case2 => exact .unasked h not_create _ _
  case case3 => trivial
  case case4 found _ _ _ =>
    exact ⟨h.1.step .none _ _, by rw [← h.1.envs]; exact (World.find_mem found).1⟩
  case case5 => exact .unasked h not_create _ _
  case case6 => trivial
  case case7 => trivial
  case case8 => exact fail ⟨h.1.step .none _ _, h.2, bonnieFailed_error rfl _ _⟩
  case case9 => exact fail ⟨h.1.step (.remove _ _) _ _, h.2, bonnieFailed_error rfl _ _⟩
  case case11 => exact .mark rows h.1 h.2.1 h.2.2 (fun body => not_create _) _
  case case13 => trivial
  case case15 => trivial

theorem Traced.step {w : World} {call : Call} {c c' : Alone} {i : Input} (rows : RowsOk w)
    (h : Traced w call c) (hs : karr.alone c i = some c') : Traced w call c' := by
  obtain ⟨e, p', hstep, rfl⟩ := System.alone_cases hs
  cases h with
  | create h =>
    obtain ⟨q, hq, rfl⟩ := step_of_sum hstep
    exact .create (h.step rows hq)
  | transition h =>
    obtain ⟨q, hq, rfl⟩ := step_of_sum hstep
    exact .transition (h.step rows (fun _ => Call.noConfusion) hq)
  | remove h =>
    obtain ⟨q, hq, rfl⟩ := step_of_sum hstep
    exact .remove (h.step rows (fun _ => Call.noConfusion) hq)

theorem traced_start {w : World} {call : Call} (h : operation call = true) :
    Traced w call ⟨w, call, []⟩ := by
  have quiet (p : Call) : Quiet w ⟨w, p, []⟩ := ⟨rfl, rfl, rfl, rfl⟩
  unfold operation at h
  split at h
  · exact .create ⟨quiet _, rfl, rfl⟩
  · exact .transition ⟨quiet _, rfl⟩
  · exact .remove ⟨quiet _, rfl⟩
  · cases h

theorem Traced.contract {w : World} {call : Call} {c : Alone} {code : Nat} {message : String}
    (h : Traced w call c) (hr : c.proc.result = some (.apiError code message)) :
    ErrorContract w call c code message := by
  cases h with
  | @create _ _ p _ h =>
    cases p <;> cases hr
    exact h
  | @transition _ _ _ p _ h =>
    cases p <;> cases hr
    exact h
  | @remove _ _ p _ h =>
    cases p <;> cases hr
    exact h

/-- The error contract of `create`, `start`, `stop`, `remove` and `log_lines`, for every
database state and every answer of BONNIE; nothing overlaps the call. -/
theorem error_contract (w : World) (rows : RowsOk w) :
    (∀ (call : Call) (c : Alone) (code : Nat) (message : String), operation call = true →
      Run karr.alone (fun _ _ => True) ⟨w, call, []⟩ c →
      c.proc.result = some (.apiError code message) → ErrorContract w call c code message) ∧
    ∀ (slots slots' : Sse.StreamSlots) (now : Int) (id : Nat) (clientId : String) (code : Nat)
      (message : String), logLines w slots now id clientId = (.error (code, message), slots') →
      (∀ l ∈ slots'.leases, l ∈ slots.leases) ∧
        (code = 404 ∨ code = 409 ∨ code = 429 ∨ code = 502) := by
  constructor
  · intro call c code message hop hrun hr
    have traced : Traced w call c :=
      hrun.invariant (traced_start hop) fun h _ hs => h.step rows hs
    exact traced.contract hr
  · intro slots slots' now id clientId code message h
    obtain ⟨hslots, hcode⟩ := logLines_error h
    refine ⟨fun l hl => ?_, hcode⟩
    rcases hslots with rfl | rfl
    · exact hl
    · exact (List.mem_filter.mp hl).1

/-- One running environment. -/
def oneRunning : World where
  now := 0
  agents := [1]
  projects := []
  envs := [⟨0, none, 1, "env", "image", "c1", .running, "", false, [], [], [], 0⟩]
  nextEnv := 1
  locks := []
  agentLocks := []
  clients := [1]
  host := [⟨1, "c1", "env", some .running, some 0⟩]

theorem oneRunning_rowsOk : RowsOk oneRunning := ⟨by decide, by decide, by decide⟩

/-- BONNIE fails to stop the container. -/
theorem error_contract_stop :
    ∃ c, Run karr.alone (fun _ _ => True) ⟨oneRunning, .transition (.start .stop 0), []⟩ c ∧
      c.proc.result = some (.apiError 502 "stop container failed: timeout") ∧
      c.store.envs.map Environment.status = [.error] ∧
      ErrorContract oneRunning (.transition (.start .stop 0)) c 502
        "stop container failed: timeout" := by
  obtain ⟨c, hr, hp⟩ := exists_run_of_execute karr.alone (fun _ _ => true)
    ⟨oneRunning, .transition (.start .stop 0), []⟩ [.run 0, .error "timeout", .run 0]
    (fun c => decide (c.proc.result = some (.apiError 502 "stop container failed: timeout") ∧
      c.store.envs.map Environment.status = [Status.error]))
    (fun _ _ _ => trivial) (by decide)
  obtain ⟨hresult, hstatus⟩ := of_decide_eq_true hp
  exact ⟨c, hr, hresult, hstatus,
    (error_contract oneRunning oneRunning_rowsOk).1 _ c 502 _ rfl hr hresult⟩

end Karr
