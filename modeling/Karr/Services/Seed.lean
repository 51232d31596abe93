import Karr.Services.Registrations

/-!
# The default agent

`ensure_default_agent` runs once, before the first request. The one agent it may
insert is found again by its URL.
-/

set_option autoImplicit false

namespace Karr.Registrations

def defaultAgentName : String := "default"

variable (s : Settings)

/-- Whether a row was inserted; `none` where it raises: the `ValueError` of the URL check, or
another agent of that name. -/
def ensureDefaultAgent (url token : String) (db : Db) : Db × Option Bool :=
  if Python.strip url = "" then (db, some false)
  else
    match s.validateAgentUrl url with
    | .invalid _ => (db, some false)
    | .raised => (db, none)
    | .valid url =>
      if db.agents.any fun a => decide (a.url = url) then (db, some false)
      else if db.agents.any fun a => decide (a.name = defaultAgentName) then (db, none)
      else (db.apply (.addAgent defaultAgentName url (s.encrypt token)), some true)

variable {s} {url stored token : String} {db : Db}

theorem ensureDefaultAgent_known (valid : s.validateAgentUrl url = .valid stored)
    (known : ∃ a ∈ db.agents, a.url = stored) :
    ensureDefaultAgent s url token db = (db, some false) := by
  have found : (db.agents.any fun a => decide (a.url = stored)) = true := by simpa using known
  unfold ensureDefaultAgent
  split
  · rfl
  · simp only [valid, found, if_true]

/-- When the row is inserted, and which. -/
theorem ensureDefaultAgent_eq_inserted : ensureDefaultAgent s url token db =
      (db.apply (.addAgent defaultAgentName stored (s.encrypt token)), some true) ↔
    Python.strip url ≠ "" ∧ s.validateAgentUrl url = .valid stored ∧
      (∀ a ∈ db.agents, a.url ≠ stored) ∧ ∀ a ∈ db.agents, a.name ≠ defaultAgentName := by
  fun_cases ensureDefaultAgent s url token db with
  | case1 blank => simp [blank]
  | case2 given message invalid => simp [invalid]
  | case3 given raised => simp [raised]
  | case4 given valid_url valid known =>
    obtain ⟨a, ha, same⟩ := List.any_eq_true.mp known
    simp only [valid, Prod.mk.injEq, Option.some.injEq, Bool.false_eq_true, and_false, false_iff]
    rintro ⟨-, is, unknown, -⟩
    cases is
    exact unknown a ha (of_decide_eq_true same)
  | case5 given valid_url valid unknown named =>
    obtain ⟨a, ha, same⟩ := List.any_eq_true.mp named
    simp only [Prod.mk.injEq, reduceCtorEq, and_false, false_iff]
    rintro ⟨-, -, -, unnamed⟩
    exact unnamed a ha (of_decide_eq_true same)
  | case6 given valid_url valid unknown unnamed =>
    simp only [List.any_eq_true, decide_eq_true_eq, not_exists, not_and] at unknown unnamed
    constructor
    · intro inserted
      have rows := congrArg Db.agents (Prod.mk.inj inserted).1
      have last := List.append_cancel_left (rows : db.agents ++ [_] = db.agents ++ [_])
      obtain rfl : valid_url = stored := congrArg Agent.url (List.singleton_inj.mp last)
      exact ⟨given, valid, unknown, unnamed⟩
    · rintro ⟨-, is, -⟩
      rw [valid] at is
      cases is
      rfl

theorem ensureDefaultAgent_inserted
    (inserted : (ensureDefaultAgent s url token db).2 = some true) :
    ∃ stored, s.validateAgentUrl url = .valid stored ∧
      (ensureDefaultAgent s url token db).1 =
        db.apply (.addAgent defaultAgentName stored (s.encrypt token)) := by
  revert inserted
  fun_cases ensureDefaultAgent s url token db with
  | case6 given stored valid unknown unnamed => exact fun _ => ⟨stored, valid, rfl⟩
  | case1 | case2 | case3 | case4 | case5 => exact fun no => nomatch no

/-- The next boot with the same settings finds the row. -/
theorem ensureDefaultAgent_again (inserted : (ensureDefaultAgent s url token db).2 = some true) :
    ensureDefaultAgent s url token (ensureDefaultAgent s url token db).1 =
      ((ensureDefaultAgent s url token db).1, some false) := by
  obtain ⟨stored, valid, eq⟩ := ensureDefaultAgent_inserted inserted
  refine ensureDefaultAgent_known valid ?_
  rw [eq]
  exact ⟨⟨db.nextAgent, defaultAgentName, stored, s.encrypt token, .offline⟩,
    List.mem_append_right _ List.mem_cons_self, rfl⟩

end Karr.Registrations
