import Karr.Api.RateLimit
import Karr.Lib.Json

/-!
# The error envelope

What `install_error_handlers` answers to each kind of exception, as the JSON text
that goes out.
-/

set_option autoImplicit false

namespace Karr.Errors

open Json

/-- `json.dumps` as the framework calls it. -/
def compact : Style := ⟨false, false⟩

/-- A `JSONResponse`; the headers are those set besides its own. -/
structure JSONResponse where
  statusCode : Nat
  content : Value String
  headers : List (String × String) := []

def JSONResponse.text (r : JSONResponse) : String := String.ofList (dumps compact r.content)

def envelope (message : String) : Value String := .object [("error", .string message)]

def errorResponse (statusCode : Nat) (message : String) : JSONResponse where
  statusCode := statusCode
  content := envelope message

/-! ## Validation errors -/

/-- A part of `loc`. -/
inductive Loc where
  | name (s : String)
  | index (n : Nat)
  deriving DecidableEq, Repr

def Loc.text : Loc → String
  | .name s => s
  | .index n => toString n

structure ErrorDetail where
  loc : List Loc := []
  type : String := "invalid"
  deriving DecidableEq, Repr

/-- The dotted name of the field, `body` where there is none. -/
def ErrorDetail.field (err : ErrorDetail) : String :=
  let loc := (err.loc.filter fun p =>
    p ≠ .name "body" ∧ p ≠ .name "query" ∧ p ≠ .name "path").map Loc.text
  let field := ".".intercalate loc
  if field = "" then "body" else field

def ErrorDetail.part (err : ErrorDetail) : String :=
  if err.type = "missing" then err.field ++ " is required"
  else if err.type = "extra_forbidden" then "unknown field " ++ err.field
  else err.field ++ " is invalid"

/-- `dict.fromkeys` -/
def fromkeys (parts : List String) : List String :=
  parts.foldl (fun keys part => if part ∈ keys then keys else keys ++ [part]) []

def describeValidation (errors : List ErrorDetail) : String :=
  if errors.any fun err => err.type = "json_invalid" then "invalid request body"
  else
    let text := "; ".intercalate (fromkeys (errors.map ErrorDetail.part))
    if text = "" then "invalid request" else text

def bodyMissing (errors : List ErrorDetail) : Bool :=
  errors.any fun err => err.type = "missing" ∧ err.loc = [.name "body"]

def validation (errors : List ErrorDetail) : JSONResponse :=
  if (errors.any fun err => err.type = "json_invalid") ∨ bodyMissing errors then
    errorResponse 400 "invalid request body"
  else errorResponse 422 (describeValidation errors)

/-! ## The handlers -/

/-- `_FRAMEWORK_DEFAULTS.get(detail, detail)` -/
def frameworkDefault (detail : String) : String :=
  if detail = "Not Found" then "not found"
  else if detail = "Method Not Allowed" then "method not allowed"
  else detail

/-- What a route, a dependency or the framework raises; a `detail` is `none` where it is not
a text, and `wait` what `RateLimited` is made with. -/
inductive Raised where
  | apiError (statusCode : Nat) (message : String)
  | rateLimited (wait : ℚ)
  | validation (errors : List ErrorDetail)
  | http (statusCode : Nat) (detail : Option String) (headers : List (String × String))
  | other

def handle : Raised → JSONResponse
  | .apiError statusCode message => errorResponse statusCode message
  | .rateLimited wait =>
    { errorResponse 429 "rate limited; retry shortly" with
      headers := [("Retry-After", toString (RateLimit.retryAfter wait))] }
  | .validation errors => validation errors
  | .http statusCode detail headers =>
    { errorResponse statusCode (frameworkDefault (detail.getD "request failed")) with
      headers := headers }
  | .other => errorResponse 500 "internal server error"

theorem describeValidation_ne (errors : List ErrorDetail) : describeValidation errors ≠ "" := by
  unfold describeValidation
  split
  · decide
  · dsimp only
    split
    · decide
    · assumption

end Karr.Errors
