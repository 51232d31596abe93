import Karr.Invariants.InFlight
import Karr.Invariants.Links

/-!
# Rows in creation have a create

While no process stops, a row says `creating` only as long as its create is in
flight; if that one is on time, no pass ever adopts or abandons the row.
-/

set_option autoImplicit false

namespace Karr

open Interleaving

def crashFree : Action → Bool
  | .proc _ .crash => false
  | _ => true

/-- Every row in creation is the row of a create in flight. -/
def Owned (c : Config) : Prop :=
  ∀ r ∈ c.store.envs, r.status = .creating → ∃ env ∈ inFlight c, env.id = r.id

/-- A create that lets go of its row has taken it out of `creating`, unless it is gone. -/
theorem CallRule.row_next {w : World} {p p' : Call} {i : Input} {e : Effect}
    (h : CallRule w p i e p') (hi : i ≠ .crash) {env : Environment} (hrow : p.row = some env) :
    p'.row = some env ∨ ∀ r ∈ w.envs, r.id = env.id → (e.updateRow r).status ≠ .creating := by
  cases h with
  | create h =>
    cases h
    case quit early => rw [Call.row, early] at hrow; cases hrow
    case vanished gone =>
      cases hrow
      refine Or.inr fun r hr hid => ?_
      exact absurd hid (by simpa using List.find?_eq_none.mp gone r hr)
    case finish =>
      cases hrow
      exact Or.inr fun r _ hid => by simp [Effect.updateRow, hid]
    case mark =>
      cases hrow
      exact Or.inr fun r _ hid => by simp [Effect.updateRow, hid]
    case crash => exact absurd rfl hi
    all_goals simp_all [Call.row, Create.row]
  | _ => cases hrow

theorem CallRule.insert_row {w : World} {p p' : Call} {i : Input} {row : Environment}
    (h : CallRule w p i (.insert row) p') : p'.row = some row := by
  rcases h with h | h | h | h | h <;> cases h
  rfl

theorem mem_inFlight {c : Config} {env : Environment} :
    env ∈ inFlight c ↔ ∃ (k : Nat) (p : Call), c.procs[k]? = some p ∧ p.row = some env := by
  unfold inFlight
  rw [List.mem_filterMap]
  constructor
  · rintro ⟨p, hp, hrow⟩
    obtain ⟨k, hk⟩ := List.mem_iff_getElem?.mp hp
    exact ⟨k, p, hk, hrow⟩
  · rintro ⟨k, p, hk, hrow⟩
    exact ⟨p, List.mem_of_getElem? hk, hrow⟩

theorem owned_exec {c c' : Config} {a : Action} (h : Owned c) (hf : crashFree a = true)
    (rows : Holds RowsOk KeysKnown OwnersDiffer c)
    (links : Holds RowsLinked CallLinked (fun _ _ => True) c)
    (he : karr.exec c a = some c') : Owned c' := by
  intro r' hr' hcr
  rcases System.exec_cases he with ⟨p, _, _, rfl⟩ | ⟨k, i, p, e, p', rfl, hp, hs, rfl⟩ |
    ⟨e, _, ho, rfl⟩
  · obtain ⟨env, henv, hid⟩ := h r' hr' hcr
    obtain ⟨l, q, hq, hrow⟩ := mem_inFlight.mp henv
    have hlt := (List.getElem?_eq_some_iff.mp hq).1
    exact ⟨env, mem_inFlight.mpr ⟨l, q, by rw [List.getElem?_append_left hlt, hq], hrow⟩, hid⟩
  · have hmem := List.mem_of_getElem? hp
    have hlt := (List.getElem?_eq_some_iff.mp hp).1
    have hrule := call_rule hs
    have hi : i ≠ .crash := by
      rintro rfl
      cases hf
    have self {env : Environment} (hrow : p'.row = some env) :
        env ∈ inFlight ⟨karr.apply c.store e, c.procs.set k p'⟩ :=
      mem_inFlight.mpr ⟨k, p', List.getElem?_set_self hlt, hrow⟩
    rcases World.mem_envs_apply.mp hr' with rfl | ⟨r, hr, _, rfl⟩
    · exact ⟨r', self hrule.insert_row, rfl⟩
    · have forward := hrule.forward links.store (links.proc p hmem) (rows.proc p hmem) hr
      have creating : r.status = .creating := not_not.mp fun hn => forward.left hn hcr
      obtain ⟨env, henv, hid⟩ := h r hr creating
      rw [updateRow_id]
      obtain ⟨l, q, hq, hrow⟩ := mem_inFlight.mp henv
      rcases eq_or_ne l k with rfl | hlk
      · rw [hp] at hq
        cases hq
        rcases hrule.row_next hi hrow with hnext | hleft
        · exact ⟨env, self hnext, hid⟩
        · exact absurd hcr (hleft r hr hid.symm)
      · exact ⟨env, mem_inFlight.mpr ⟨l, q, by rw [List.getElem?_set_ne hlk.symm, hq], hrow⟩, hid⟩
  · rcases World.mem_envs_apply.mp hr' with hi | ⟨r, hr, _, rfl⟩
    · exact absurd hi ((outside_frame ho).1 r')
    · rw [updateRow_id]
      exact h r hr ((outside_frame ho).2 r |>.1 ▸ hcr)

/-- Nobody stops, everybody is on time, and BONNIE is honest. -/
def Steady (D S : Int) (c : Config) (a : Action) : Prop :=
  Bonnie c a ∧ OnTime D S c a ∧ crashFree a = true

instance (D S : Int) (c : Config) (a : Action) : Decidable (Steady D S c a) :=
  inferInstanceAs (Decidable (Bonnie c a ∧ OnTime D S c a ∧ crashFree a = true))

/-- What is known of every state of such a run. -/
structure SteadyState (c : Config) : Prop where
  rows : Holds RowsOk KeysKnown OwnersDiffer c
  links : Holds RowsLinked CallLinked (fun _ _ => True) c
  flight : Holds (fun _ => True) RowUntouched NotHeld c
  owned : Owned c

theorem steadyState_of_run {D S : Int} (fits : D + S < createGrace) {now : Int}
    {agents : List AgentId} {projects : List ProjectId} {clients : List AgentId}
    {host : List Container} (hosts : HostOk (boot now agents projects clients host).store)
    {c : Config} (h : karr.Runs (Steady D S) (boot now agents projects clients host) c) :
    SteadyState c := by
  have links {c : Config} (h : karr.Runs (Steady D S) (boot now agents projects clients host) c) :
      Holds RowsLinked CallLinked (fun _ _ => True) c :=
    links_of_run hosts (h.mono fun _ _ ho => ho.1)
  refine ⟨rows_of_run h, links h, inFlight_of_run fits (h.mono fun _ _ ho => ho.2.1), ?_⟩
  refine (h.strengthen fun hr => And.intro (rows_of_run hr) (links hr)).invariant ?_ ?_
  · simp [Owned, boot]
  · exact fun ho hok he => owned_exec ho hok.1.2.2 hok.2.1 hok.2.2 he

/-- A guard never meets a row in creation past its grace. -/
theorem SteadyState.young {D S : Int} (fits : D + S < createGrace) {c : Config} {k : Nat}
    {clock : Int} (st : SteadyState c) (onTime : OnTime D S c (.proc k (.run clock)))
    {r : Environment} (hr : r ∈ c.store.envs) (creating : r.status = .creating) :
    young r clock = true := by
  obtain ⟨env, henv, hid⟩ := st.owned r hr creating
  obtain ⟨j, p, hp, hrow⟩ := mem_inFlight.mp henv
  obtain ⟨status, _, _, untouched⟩ := st.flight.proc p (List.mem_of_getElem? hp) env hrow
  exact young_of_onTime fits (untouched r hr hid.symm) status (onTime.1 env henv)
    (onTime.2 clock rfl)

end Karr
