import Karr.JavaScript

/-!
# The API client

`request` and the token it sends. What comes back settles the call as its caller
sees it: a result, an `ApiError`, or an error of the platform.
-/

set_option autoImplicit false

namespace Karr.Frontend

open JavaScript

/-! ## `trim` and `toLowerCase` -/

/-- The white space and line terminators of ECMAScript. -/
def isWhitespace (c : UInt16) : Bool :=
  (9 ≤ c && c ≤ 13) || c == 32 || c == 0xa0 || c == 0x1680 || (0x2000 ≤ c && c ≤ 0x200a) ||
    c == 0x2028 || c == 0x2029 || c == 0x202f || c == 0x205f || c == 0x3000 || c == 0xfeff

def trim (s : JsString) : JsString :=
  ((s.dropWhile isWhitespace).reverse.dropWhile isWhitespace).reverse

/-- On the letters a media type is made of. -/
def toLowerCase (s : JsString) : JsString :=
  s.map fun c => if 65 ≤ c && c ≤ 90 then c + 32 else c

/-! ## Answers -/

structure Answer where
  status : Nat
  statusText : JsString
  contentType : Option JsString
  /-- What `resp.json()` settles with: the text of its error, or the value, of which only an
  `error` that is a string is looked at. -/
  json : Except JsString (Option JsString)
  deriving Repr

def Answer.ok (resp : Answer) : Bool := 200 ≤ resp.status && resp.status ≤ 299

def isJson (resp : Answer) : Bool :=
  toLowerCase (trim ((resp.contentType.getD []).takeWhile (· != 59))) == js "application/json"

/-- The `error` of the envelope. -/
def Answer.error (resp : Answer) : JsString :=
  match resp.json with
  | .ok (some err) => if isJson resp then err else []
  | _ => []

def errorMessage (resp : Answer) : JsString :=
  if resp.error ≠ [] then resp.error
  else if resp.statusText ≠ [] then resp.statusText
  else js "request failed (" ++ js (toString resp.status) ++ js ")"

inductive Outcome where
  | done
  | apiError (status : Nat) (message : JsString)
  | thrown (message : JsString)
  deriving DecidableEq, Repr

def authCheckPath : JsString := js "/auth/check"

/-- What a call settles with, once its fetch does. -/
def request : Option Answer → Outcome
  | none => .apiError 0 (js "cannot reach the KARR server")
  | some resp =>
    if ¬ resp.ok then .apiError resp.status (errorMessage resp)
    else if resp.status = 204 then .done
    else if ¬ isJson resp then
      .apiError resp.status (js "unexpected non-JSON response from the server")
    else match resp.json with
      | .ok _ => .done
      | .error message => .thrown message

/-- The call sends `karr:unauthorized` to the window. -/
def dispatches (path : JsString) : Option Answer → Bool
  | none => false
  | some resp => !resp.ok && resp.status == 401 && path != authCheckPath

theorem errorMessage_ne_nil (resp : Answer) : errorMessage resp ≠ [] := by
  unfold errorMessage
  split
  · assumption
  · split
    · assumption
    · have text : js "request failed (" ≠ [] := by decide
      rw [List.append_assoc]
      exact List.append_ne_nil_of_left_ne_nil text _

/-- The errors of the platform have a text. -/
def Told (settled : Option Answer) : Prop :=
  ∀ resp message, settled = some resp → resp.json = .error message → message ≠ []

theorem apiError_ne_nil {settled : Option Answer} {status : Nat} {message : JsString}
    (h : request settled = .apiError status message) : message ≠ [] := by
  unfold request at h
  split at h
  · obtain ⟨-, rfl⟩ := Outcome.apiError.inj h
    decide
  · split at h
    · obtain ⟨-, rfl⟩ := Outcome.apiError.inj h
      exact errorMessage_ne_nil _
    · split at h
      · cases h
      · split at h
        · obtain ⟨-, rfl⟩ := Outcome.apiError.inj h
          decide
        · split at h <;> cases h

theorem thrown_ne_nil {settled : Option Answer} {message : JsString} (told : Told settled)
    (h : request settled = .thrown message) : message ≠ [] := by
  unfold request at h
  split at h
  · cases h
  · split at h
    · cases h
    · split at h
      · cases h
      · split at h
        · cases h
        · split at h
          · cases h
          · rename_i hjson
            rw [← Outcome.thrown.inj h]
            exact told _ _ rfl hjson

/-- A call settles without an error exactly for a 204 and for a 2xx with JSON in it. -/
theorem request_done_iff (settled : Option Answer) :
    request settled = .done ↔ ∃ resp, settled = some resp ∧ resp.ok = true ∧
      (resp.status = 204 ∨ (isJson resp = true ∧ ∃ value, resp.json = .ok value)) := by
  cases settled with
  | none => simp [request]
  | some resp =>
    simp only [request, Option.some.injEq, exists_eq_left']
    by_cases ok : resp.ok = true
    · rw [if_neg (not_not_intro ok)]
      by_cases empty : resp.status = 204
      · simp [empty, ok]
      · rw [if_neg empty]
        by_cases hjson : isJson resp = true
        · rw [if_neg (not_not_intro hjson)]
          cases hvalue : resp.json <;> simp [ok, empty, hjson]
        · rw [if_pos hjson]
          simp [empty, hjson]
    · rw [if_pos ok]
      simp [ok]

end Karr.Frontend
