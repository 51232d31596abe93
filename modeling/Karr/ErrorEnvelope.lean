import Karr.Api.Errors
import Karr.Api.Middleware
import Karr.Frontend.Client
import Karr.Frontend.LogView

/-!
# An error from the handler to the user

What the server says went wrong is what the user is shown, whatever its text has
in it.
-/

set_option autoImplicit false

namespace Karr.Errors

open Json JavaScript Frontend

/-- `error` of a body that `JSON.parse` has read. -/
def errorText (v : Value JsString) : Option JsString :=
  match v.get (js "error") with
  | some (.string s) => some s
  | _ => none

/-- The `Content-Type` of an answer: its own unless another one was set. -/
def JSONResponse.contentType (r : JSONResponse) : String :=
  match r.headers.reverse.find? fun h => h.1.toLower = "content-type" with
  | some h => h.2
  | none => "application/json"

/-- What a fetch of the client gets; `syntaxError` is the text of an error of `JSON.parse`. -/
def JSONResponse.answer (r : JSONResponse) (statusText syntaxError : JsString) : Answer where
  status := r.statusCode
  statusText := statusText
  contentType := some (js r.contentType)
  json := match parse (js r.text) with
    | some v => .ok (errorText v)
    | none => .error syntaxError

/-- What `resp.json()` gives the log view. -/
def JSONResponse.logError (r : JSONResponse) : Option JsString :=
  (parse (js r.text)).map fun v => (errorText v).getD []

theorem parse_envelope {r : JSONResponse} {message : String} (h : r.content = envelope message) :
    (parse (js r.text)).map errorText = some (some (js message)) := by
  have lawful : (envelope message).Lawful := ⟨trivial, trivial⟩
  rw [JSONResponse.text, h, parse_dumps compact lawful]
  rfl

theorem request_answer {r : JSONResponse} {message : String} (h : r.content = envelope message)
    (failed : ¬ (200 ≤ r.statusCode ∧ r.statusCode ≤ 299)) (told : message ≠ "")
    (json : r.contentType = "application/json") (statusText syntaxError : JsString) :
    request (some (r.answer statusText syntaxError)) = .apiError r.statusCode (js message) := by
  obtain ⟨v, parsed, error⟩ := Option.map_eq_some_iff.mp (parse_envelope h)
  have notOk : ¬ (r.answer statusText syntaxError).ok = true := by
    rw [Answer.ok, Bool.and_eq_true, decide_eq_true_eq, decide_eq_true_eq]
    exact failed
  have isJson : isJson (r.answer statusText syntaxError) = true := by
    rw [Frontend.isJson, JSONResponse.answer, json]
    have plain : toLowerCase (trim ((js "application/json").takeWhile (· != 59))) ==
        js "application/json" := by decide
    exact plain
  have read : (r.answer statusText syntaxError).error = js message := by
    have body : (r.answer statusText syntaxError).json = .ok (some (js message)) := by
      rw [JSONResponse.answer, parsed, ← error]
    rw [Answer.error, body]
    exact if_pos isJson
  have text : js message ≠ [] := fun eq => told (js_eq_nil eq)
  rw [request, if_pos notOk, errorMessage, read, if_pos text]
  rfl

/-- The log view is told the same. -/
theorem explained_answer {r : JSONResponse} {message : String} (h : r.content = envelope message)
    (failed : ¬ (200 ≤ r.statusCode ∧ r.statusCode ≤ 299)) (told : message ≠ "")
    (other : r.statusCode ≠ 401) (statusText : JsString) {v : LogView.View}
    (running : v.aborted = false) (hp : v.pending = .fetch) :
    (v.step (.answer ⟨r.statusCode, statusText, true⟩)).bind (·.step (.json r.logError)) =
      some { v with phase := .error, detail := js message, pending := .nothing } := by
  obtain ⟨body, parsed, error⟩ := Option.map_eq_some_iff.mp (parse_envelope h)
  let resp : LogView.Response := ⟨r.statusCode, statusText, true⟩
  have notOk : ¬ resp.ok = true := by
    rw [LogView.Response.ok, Bool.and_eq_true, decide_eq_true_eq, decide_eq_true_eq]
    exact failed
  have answered : v.answered resp = { v with pending := .json resp.statusLine } := by
    rw [LogView.View.answered, if_neg (by rw [running]; decide), if_neg other, if_pos notOk]
  have text : js message ≠ [] := fun eq => told (js_eq_nil eq)
  have first : v.step (.answer resp) = some (v.answered resp) := by
    simp only [LogView.View.step, hp]
  have shown : LogView.View.explained { v with pending := .json resp.statusLine } resp.statusLine
      r.logError = { v with phase := .error, detail := js message, pending := .nothing } := by
    have body : r.logError = some (js message) := by
      rw [JSONResponse.logError, parsed, Option.map_some, error]
      rfl
    rw [body, LogView.View.explained, if_neg text, LogView.View.fail_running]
    · rfl
    · exact running
  rw [first, answered, Option.bind_some, ← shown]
  rfl

/-- The client is told this status and text: at the call the answer is for, and in a log view
that asked for a stream (which takes a 401 as the end of the session). -/
structure Shown (raised : Raised) (statusCode : Nat) (message : String) : Prop where
  call : ∀ statusText syntaxError, request (some ((handle raised).answer statusText syntaxError)) =
    .apiError statusCode (js message)
  logView : statusCode ≠ 401 → ∀ (statusText : JsString) (v : LogView.View), v.aborted = false →
    v.pending = .fetch →
    (v.step (.answer ⟨(handle raised).statusCode, statusText, true⟩)).bind
        (·.step (.json (handle raised).logError)) =
      some { v with phase := .error, detail := js message, pending := .nothing }

theorem shown_of {raised : Raised} {statusCode : Nat} {message : String}
    (status : (handle raised).statusCode = statusCode)
    (content : (handle raised).content = envelope message)
    (json : (handle raised).contentType = "application/json")
    (failed : ¬ (200 ≤ statusCode ∧ statusCode ≤ 299)) (told : message ≠ "") :
    Shown raised statusCode message := by
  rw [← status] at failed ⊢
  exact ⟨request_answer content failed told json,
    fun other statusText _ running hp =>
      explained_answer content failed told other statusText running hp⟩

theorem shown_validation {errors : List ErrorDetail} {statusCode : Nat} {message : String}
    (h : validation errors = errorResponse statusCode message) (told : message ≠ "")
    (failed : statusCode = 400 ∨ statusCode = 422) :
    Shown (.validation errors) statusCode message := by
  have answer : handle (.validation errors) = errorResponse statusCode message := h
  refine shown_of ?_ ?_ ?_ (by omega) told <;> rw [answer] <;> rfl

/-- The content type stays the framework's unless the exception brings one of its own. -/
theorem contentType_own {r : JSONResponse} (h : ∀ p ∈ r.headers, p.1.toLower ≠ "content-type") :
    r.contentType = "application/json" := by
  have none : r.headers.reverse.find? (fun h => h.1.toLower = "content-type") = none := by
    rw [List.find?_eq_none]
    intro p hp
    simpa using h p (List.mem_reverse.mp hp)
  rw [JSONResponse.contentType, none]

theorem frameworkDefault_ne {detail : String} (h : detail ≠ "") : frameworkDefault detail ≠ "" := by
  unfold frameworkDefault
  split
  · decide
  · split
    · decide
    · exact h

/-- What the server raises is what the user is shown, kind by kind: the status and text an
`ApiError` or an HTTP exception was raised with, where the status says that the call failed
and there is a text; the fixed texts of the other kinds; and of a validation failure the
description of the fields, or that the body is no JSON. -/
theorem error_shown :
    (∀ (statusCode : Nat) (message : String), ¬ (200 ≤ statusCode ∧ statusCode ≤ 299) →
      message ≠ "" → Shown (.apiError statusCode message) statusCode message) ∧
    (∀ wait, Shown (.rateLimited wait) 429 "rate limited; retry shortly") ∧
    (∀ errors : List ErrorDetail,
      (∃ err ∈ errors, err.type = "json_invalid" ∨
        (err.type = "missing" ∧ err.loc = [.name "body"])) →
      Shown (.validation errors) 400 "invalid request body") ∧
    (∀ errors : List ErrorDetail,
      (∀ err ∈ errors, err.type ≠ "json_invalid" ∧
        ¬ (err.type = "missing" ∧ err.loc = [.name "body"])) →
      Shown (.validation errors) 422 (describeValidation errors)) ∧
    (∀ (statusCode : Nat) (detail : Option String) (headers : List (String × String)),
      ¬ (200 ≤ statusCode ∧ statusCode ≤ 299) → detail ≠ some "" →
      (∀ p ∈ headers, p.1.toLower ≠ "content-type") →
      Shown (.http statusCode detail headers) statusCode
        (frameworkDefault (detail.getD "request failed"))) ∧
    Shown .other 500 "internal server error" := by
  refine ⟨fun statusCode message failed told => ?_, fun wait => ?_, fun errors malformed => ?_,
    fun errors formed => ?_, fun statusCode detail headers failed told plain => ?_, ?_⟩
  · exact shown_of rfl rfl rfl failed told
  · refine shown_of rfl rfl (contentType_own ?_) (by decide) (by decide)
    intro p hp
    have name : p.1 = "Retry-After" := by rw [List.mem_singleton.mp hp]
    rw [name]
    intro same
    have letters : (String.map Char.toLower "Retry-After").toList = _ :=
      congrArg String.toList same
    rw [String.toList_map] at letters
    exact absurd letters (by decide)
  · refine shown_validation (if_pos ?_) (by decide) (Or.inl rfl)
    obtain ⟨err, herr, kind | body⟩ := malformed
    · exact Or.inl (List.any_eq_true.mpr ⟨err, herr, decide_eq_true kind⟩)
    · exact Or.inr (List.any_eq_true.mpr ⟨err, herr, decide_eq_true body⟩)
  · have answer : validation errors = errorResponse 422 (describeValidation errors) := by
      refine if_neg (not_or.mpr ⟨fun kind => ?_, fun body => ?_⟩)
      · obtain ⟨err, herr, kind⟩ := List.any_eq_true.mp kind
        exact (formed err herr).1 (of_decide_eq_true kind)
      · obtain ⟨err, herr, body⟩ := List.any_eq_true.mp body
        exact (formed err herr).2 (of_decide_eq_true body)
    exact shown_validation answer (describeValidation_ne errors) (Or.inr rfl)
  · refine shown_of rfl rfl (contentType_own plain) failed (frameworkDefault_ne ?_)
    cases detail with
    | none => decide
    | some text => exact fun empty => told (congrArg some empty)
  · exact shown_of rfl rfl rfl (by decide) (by decide)

/-- A field the schema does not know, with a quote in its name. -/
theorem error_shown_unknown :
    request (some ((handle (.validation [⟨[.name "body", .name "a\"b"], "extra_forbidden"⟩])).answer
      [] [])) = .apiError 422 (js "unknown field a\"b") := by
  have text : describeValidation [⟨[.name "body", .name "a\"b"], "extra_forbidden"⟩] =
      "unknown field a\"b" := by decide
  have shown := (error_shown.2.2.2.1 [⟨[.name "body", .name "a\"b"], "extra_forbidden"⟩]
    (by decide)).call [] []
  rw [text] at shown
  exact shown

end Karr.Errors
