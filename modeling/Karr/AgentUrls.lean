import Karr.Services.Registrations

/-!
# Agent URLs

What `validate_agent_url` rejects it rejects with an `ApiError`, except what
`urlsplit` rejects itself: that call stands before the `try`. Neither `create` nor
`register` expects its `ValueError`.
-/

set_option autoImplicit false

namespace Karr

open Urllib Registrations

variable {checks : Checks} {url : String}

/-- What `urlsplit` takes as the network location of an agent URL. -/
def networkLocation (url : String) : List Char := (split (Python.stripChars url.toList)).netloc

/-- It returns a string or raises an `ApiError`. -/
def Answers (check : UrlCheck) : Prop :=
  (∃ url, check = .valid url) ∨ ∃ message, check = .invalid message

theorem answers_iff {check : UrlCheck} : Answers check ↔ check ≠ .raised := by
  cases check with
  | valid url => exact iff_of_true (Or.inl ⟨url, rfl⟩) UrlCheck.noConfusion
  | invalid message => exact iff_of_true (Or.inr ⟨message, rfl⟩) UrlCheck.noConfusion
  | raised =>
    refine iff_of_false ?_ (not_not_intro rfl)
    rintro (⟨_, h⟩ | ⟨_, h⟩) <;> cases h

/-- The port is read inside the `try`, the rest cannot raise. -/
theorem validateAgentUrl_eq_raised :
    validateAgentUrl checks url = .raised ↔
      urlsplit checks (Python.stripChars url.toList) = none := by
  unfold validateAgentUrl
  dsimp only
  cases urlsplit checks (Python.stripChars url.toList) with
  | none => exact iff_of_true rfl rfl
  | some parts =>
    refine iff_of_false (fun h => ?_) (Option.some_ne_none parts)
    dsimp only at h
    split at h
    · cases h
    · split at h
      · cases h
      · split at h <;> cases h

theorem validateAgentUrl_answers_iff (checks : Checks) (url : String) :
    Answers (validateAgentUrl checks url) ↔ NetlocOk checks (networkLocation url) := by
  rw [answers_iff, Ne, validateAgentUrl_eq_raised]
  by_cases ok : NetlocOk checks (networkLocation url)
  · exact iff_of_true (by rw [urlsplit_eq_some ok]; exact Option.some_ne_none _) ok
  · exact iff_of_false (not_not_intro (urlsplit_eq_none ok)) ok

/-- A claimed registration whose URL is bad: refused as such, or the call fails with the
`ValueError`. Either way the claim is rolled back. -/
theorem register_bad_url (s : Settings) (h : s.validateAgentUrl = validateAgentUrl checks) (db : Db)
    (claim : Claim) (clock : Int) (safe : s.safeHost claim.request.host = true)
    (hurl : url = "http://" ++ claim.request.host ++ ":" ++ toString claim.request.port)
    (bad : ∀ u, validateAgentUrl checks url ≠ .valid u) :
    ∃ reply, registerStep s db (.claimed claim) (.run clock) =
        some (.rollback claim.row.id none, .done reply) ∧
      ((∃ message, reply = .registrationFailed message) ↔ NetlocOk checks (networkLocation url)) := by
  rw [← validateAgentUrl_answers_iff, answers_iff]
  subst hurl
  simp only [registerStep, safe, h, Bool.true_eq_false, if_false]
  split
  · rename_i message eq
    exact ⟨_, rfl, iff_of_true ⟨message, rfl⟩ (by rw [eq]; exact UrlCheck.noConfusion)⟩
  · rename_i eq
    refine ⟨_, rfl, iff_of_false ?_ (not_not_intro eq)⟩
    rintro ⟨message, same⟩
    cases same
  · rename_i u eq
    exact absurd eq (bad u)

def AlwaysAnswers : Prop :=
  ∀ (checks : Checks) (url : String), Answers (validateAgentUrl checks url)

theorem not_alwaysAnswers : ¬ AlwaysAnswers ∧
    validateAgentUrl ⟨fun _ => true, id⟩ "http://[" = .raised := by
  have raised : validateAgentUrl ⟨fun _ => true, id⟩ "http://[" = .raised := by decide
  exact ⟨fun always => answers_iff.mp (always _ _) raised, raised⟩

end Karr
