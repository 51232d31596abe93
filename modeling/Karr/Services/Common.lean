import Karr.Lib.Urllib
import Karr.Python

/-!
# Helpers of the services

`validate_agent_url`: http and https only, with a host and without credentials.
-/

set_option autoImplicit false

namespace Karr.Registrations

/-- How `validate_agent_url` ends. -/
inductive UrlCheck where
  | valid (url : String)
  | invalid (message : String)
  | raised
  deriving DecidableEq, Repr

end Karr.Registrations

namespace Karr

open Registrations Urllib

/-- `str.rstrip("/")` -/
def rstripSlash (url : List Char) : List Char := (url.reverse.dropWhile (· == '/')).reverse

/-- The `ApiError`s have the status 422; `raised` is the `ValueError` of `urlsplit`. -/
def validateAgentUrl (checks : Checks) (url : String) : UrlCheck :=
  let url := Python.stripChars url.toList
  match urlsplit checks url with
  | none => .raised
  | some parts =>
    if parts.scheme ∉ ["http".toList, "https".toList] ∨ parts.hostinfo.1 = [] then
      .invalid "url must be an http or https URL with a host"
    else if parts.userinfo.1 ≠ [] ∨ parts.userinfo.2 ≠ [] then
      .invalid "url must not contain credentials"
    else
      match parts.port with
      | none => .invalid "url has an invalid port"
      | some (some 0) => .invalid "url has an invalid port"
      | some _ => .valid (String.ofList (rstripSlash url))

end Karr
