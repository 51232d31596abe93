import Mathlib.Data.List.Sort
import Karr.Lib.Interleaving
import Karr.Services.Common

/-!
# RegistrationService

A registration token is claimed, its agent inserted and linked in one
transaction, of which other calls see nothing but the locks before it commits.
Every other call is a sequence of single committed statements. `now()` is when
the transaction of a statement began, which may be before the statement runs.
-/

set_option autoImplicit false

namespace Karr.Registrations

/-- `REGISTRATION_STATUSES`, which the check constraint on the column enforces. -/
inductive Status where
  | pending
  | claimed
  | expired
  deriving DecidableEq, Repr

/-- A row of `karr_agent_registrations`. -/
structure Registration where
  id : Nat
  tokenHash : String
  label : String
  status : Status := .pending
  agentId : Option Nat := none
  createdAt : Int
  claimedAt : Option Int := none
  expiresAt : Int
  deriving DecidableEq, Repr

/-- The values the check constraint on the status of an agent allows. -/
inductive AgentStatus where
  | online
  | offline
  | unauthorized
  deriving DecidableEq, Repr

/-- The columns of `karr_agents` that `register` writes. -/
structure Agent where
  id : Nat
  name : String
  url : String
  tokenEncrypted : String
  status : AgentStatus
  deriving DecidableEq, Repr

/-- What the service is given: the hash and the cipher, the checks of other modules, the
install script renderer and the lifetime of a token. -/
structure Settings where
  hash : String → String
  encrypt : String → String
  repr : String → String
  safeHost : String → Bool
  validateAgentUrl : String → UrlCheck
  installCommand : String → String → Except String String
  ttl : Int

structure RegisterRequest where
  token : String
  sourceIp : String
  port : Nat
  authToken : String
  address : Option String
  deriving DecidableEq, Repr

/-- A token claimed in an open transaction: the row as the `UPDATE` found it. -/
structure Claim where
  request : RegisterRequest
  began : Int
  row : Registration
  claimedAt : Int
  deriving DecidableEq, Repr

/-- A committed registration of an agent. -/
structure Mint where
  claim : Claim
  agent : Agent
  deriving DecidableEq, Repr

/-! ## The database -/

structure Db where
  now : Int
  registrations : List Registration
  agents : List Agent
  nextRegistration : Nat
  nextAgent : Nat
  /-- Registrations an open transaction has updated. -/
  locks : List Nat
  /-- Agent names an open transaction has inserted. -/
  names : List String
  /-- The tokens ever issued, with the ids of their rows, and the agents ever registered
  with one; nothing reads these. -/
  issued : List (Nat × String)
  minted : List Mint
  deriving DecidableEq, Repr

/-- The statements of the transaction of `register`. -/
inductive Write where
  | claim (id : Nat) (claimedAt : Int)
  | insertAgent (agent : Agent)
  | link (id : Nat) (agentId : Nat)
  deriving DecidableEq, Repr

inductive Effect where
  | none
  | expire (began : Int)
  | insertRegistration (row : Registration) (token : String)
  | deleteRegistration (id : Nat)
  | lock (id : Nat)
  | insertAgent (name : String)
  | rollback (id : Nat) (name : Option String)
  | commit (mint : Mint)
  | deleteAgent (id : Nat)
  | tick (d : Nat)
  /-- `AgentService.create`. -/
  | addAgent (name url tokenEncrypted : String)
  deriving DecidableEq, Repr

def Mint.writes (m : Mint) : List Write :=
  [.claim m.claim.row.id m.claim.claimedAt, .insertAgent m.agent, .link m.claim.row.id m.agent.id]

/-- The `WHERE` of `expire_stale`. -/
def Registration.stale (began : Int) (r : Registration) : Bool :=
  decide (r.status = .pending ∧ r.expiresAt ≤ began)

/-- The `WHERE` of the claim. -/
def Registration.claimable (hash : String) (began : Int) (r : Registration) : Bool :=
  decide (r.tokenHash = hash ∧ r.status = .pending ∧ began < r.expiresAt)

namespace Db

def write (db : Db) : Write → Db
  | .claim id claimedAt =>
    { db with registrations := db.registrations.map fun r =>
        if r.id = id then { r with status := .claimed, claimedAt := some claimedAt } else r }
  | .insertAgent agent => { db with agents := db.agents ++ [agent] }
  | .link id agentId =>
    { db with registrations := db.registrations.map fun r =>
        if r.id = id then { r with agentId := some agentId } else r }

def unlock (db : Db) (id : Nat) (name : Option String) : Db :=
  { db with
    locks := db.locks.filter fun l => decide (l ≠ id)
    names := db.names.filter fun n => decide (some n ≠ name) }

def apply (db : Db) : Effect → Db
  | .none => db
  | .expire began =>
    { db with registrations := db.registrations.map fun r =>
        if r.stale began then { r with status := .expired } else r }
  | .insertRegistration row token =>
    { db with
      registrations := db.registrations ++ [row]
      nextRegistration := db.nextRegistration + 1
      issued := db.issued ++ [(row.id, token)] }
  | .deleteRegistration id =>
    { db with registrations := db.registrations.filter fun r => decide (r.id ≠ id) }
  | .lock id => { db with locks := id :: db.locks }
  | .insertAgent name => { db with names := name :: db.names, nextAgent := db.nextAgent + 1 }
  | .rollback id name => db.unlock id name
  | .commit m =>
    { (m.writes.foldl write db).unlock m.claim.row.id (some m.agent.name) with
      minted := db.minted ++ [m] }
  -- ON DELETE SET NULL
  | .deleteAgent id =>
    { db with
      agents := db.agents.filter fun a => decide (a.id ≠ id)
      registrations := db.registrations.map fun r =>
        if r.agentId = some id then { r with agentId := Option.none } else r }
  | .tick d => { db with now := db.now + d }
  | .addAgent name url tokenEncrypted =>
    { db with
      agents := db.agents ++ [⟨db.nextAgent, name, url, tokenEncrypted, .offline⟩]
      nextAgent := db.nextAgent + 1 }

def find (db : Db) (id : Nat) : Option Registration :=
  db.registrations.find? fun r => decide (r.id = id)

/-- A statement waits for the transaction that holds a row it would update. -/
def expireWaits (db : Db) (began : Int) : Bool :=
  db.registrations.any fun r => r.stale began && decide (r.id ∈ db.locks)

end Db

/-! ## The calls -/

inductive Reply where
  | ok
  | apiError (statusCode : Nat) (message : String)
  | registrationFailed (message : String)
  | exception
  | crashed
  deriving DecidableEq, Repr

inductive Input where
  | run (clock : Int)
  /-- `generate_registration_token` returned. -/
  | token (token : String)
  /-- The delete of an agent found environments, or could not remove their containers. -/
  | refused (message : String)
  | raise
  | crash
  deriving DecidableEq, Repr

inductive Provision where
  | start (label serverUrl : String)
  | expiring (label serverUrl : String) (began : Int)
  | expired (label serverUrl : String)
  | inserted (row : Registration)
  | done (reply : Reply)
  deriving DecidableEq, Repr

variable (s : Settings)

def provisionStep (db : Db) : Provision → Input → Option (Effect × Provision)
  | .start label serverUrl, .run _ =>
    if Python.strip label = "" then some (.none, .done (.apiError 422 "label is required"))
    else some (.none, .expiring (Python.strip label) serverUrl db.now)
  | .expiring label serverUrl began, .run _ =>
    if db.expireWaits began then none else some (.expire began, .expired label serverUrl)
  | .expired label serverUrl, .token token =>
    match s.installCommand serverUrl token with
    | .error e => some (.none, .done (.apiError 503
        ("install command cannot be built: " ++ e ++ "; set KARR_PUBLIC_URL")))
    | .ok _ =>
      if db.registrations.any fun r => decide (r.tokenHash = s.hash token) then
        some (.none, .done .exception)
      else
        let row : Registration :=
          { id := db.nextRegistration, tokenHash := s.hash token, label := label,
            createdAt := db.now, expiresAt := db.now + s.ttl }
        some (.insertRegistration row token, .inserted row)
  | .inserted row, .run _ =>
    if (db.find row.id).isSome then some (.none, .done .ok) else some (.none, .done .exception)
  | .done _, _ => none
  | _, .crash => some (.none, .done .crashed)
  | _, _ => none

/-- `expire_stale`, alone or as the first half of `list`. -/
inductive Listing where
  | start (select : Bool)
  | expiring (select : Bool) (began : Int)
  | expired
  | done (reply : Reply) (rows : List Registration)
  deriving DecidableEq, Repr

def newestFirst (rows : List Registration) : List Registration :=
  rows.insertionSort fun a b => b.createdAt ≤ a.createdAt

def listingStep (db : Db) : Listing → Input → Option (Effect × Listing)
  | .start select, .run _ => some (.none, .expiring select db.now)
  | .expiring select began, .run _ =>
    if db.expireWaits began then none
    else some (.expire began, if select then .expired else .done .ok [])
  | .expired, .run _ => some (.none, .done .ok (newestFirst db.registrations))
  | .done _ _, _ => none
  | _, .crash => some (.none, .done .crashed [])
  | _, _ => none

inductive Cancel where
  | start (id : Nat)
  | found (id : Nat)
  | done (reply : Reply)
  deriving DecidableEq, Repr

/-- `RegistrationService.delete`. -/
def cancelStep (db : Db) : Cancel → Input → Option (Effect × Cancel)
  | .start id, .run _ =>
    if (db.find id).isSome then some (.none, .found id)
    else some (.none, .done (.apiError 404 "registration not found"))
  | .found id, .run _ =>
    if id ∈ db.locks then none else some (.deleteRegistration id, .done .ok)
  | .done _, _ => none
  | _, .crash => some (.none, .done .crashed)
  | _, _ => none

inductive AgentDelete where
  | start (agentId : Nat)
  | found (agentId : Nat)
  | done (reply : Reply)
  deriving DecidableEq, Repr

/-- What `AgentService.delete` does to these tables. -/
def agentDeleteStep (db : Db) : AgentDelete → Input → Option (Effect × AgentDelete)
  | .start agentId, .run _ =>
    if db.agents.any fun a => decide (a.id = agentId) then some (.none, .found agentId)
    else some (.none, .done (.apiError 404 "agent not found"))
  | .found _, .refused message => some (.none, .done (.apiError 409 message))
  | .found agentId, .run _ =>
    if db.registrations.any fun r => decide (r.agentId = some agentId ∧ r.id ∈ db.locks) then none
    else some (.deleteAgent agentId, .done .ok)
  | .done _, _ => none
  | _, .crash => some (.none, .done .crashed)
  | _, _ => none

inductive Register where
  | start (request : RegisterRequest)
  | begun (request : RegisterRequest) (began : Int)
  | claimed (claim : Claim)
  | inserted (mint : Mint)
  | linked (mint : Mint)
  | committed (agent : Agent)
  | refreshed (agent : Agent)
  | done (reply : Reply)
  deriving DecidableEq, Repr

def RegisterRequest.host (r : RegisterRequest) : String :=
  let address := Python.strip (r.address.getD "")
  if address = "" then r.sourceIp else address

def Claim.name (c : Claim) : String :=
  if c.row.label = "" then c.request.host else c.row.label

/-- Roll back, and with it the claim: the token stays usable. -/
def Claim.fail (c : Claim) (reply : Reply) : Option (Effect × Register) :=
  some (.rollback c.row.id none, .done reply)

def registerStep (db : Db) : Register → Input → Option (Effect × Register)
  | .start request, .run _ => some (.none, .begun request db.now)
  | .begun request began, .run clock =>
    match db.registrations.find? (Registration.claimable (s.hash request.token) began) with
    | none => some (.none, .done (.registrationFailed "invalid or expired registration token"))
    | some row =>
      if row.id ∈ db.locks then none
      else some (.lock row.id, .claimed ⟨request, began, row, clock⟩)
  | .claimed claim, .run _ =>
    if s.safeHost claim.request.host = false then
      claim.fail (.registrationFailed
        "address must be a bare hostname, IPv4 address or [IPv6] literal")
    else
      match s.validateAgentUrl
        ("http://" ++ claim.request.host ++ ":" ++ toString claim.request.port) with
      | .invalid message => claim.fail (.registrationFailed message)
      | .raised => claim.fail .exception
      | .valid url =>
        if db.agents.any fun a => decide (a.name = claim.name) then
          claim.fail (.registrationFailed
            ("an agent named " ++ s.repr claim.name ++ " already exists"))
        else if claim.name ∈ db.names then none
        else some (.insertAgent claim.name, .inserted
          ⟨claim, db.nextAgent, claim.name, url, s.encrypt claim.request.authToken, .offline⟩)
  | .inserted mint, .run _ => some (.none, .linked mint)
  | .linked mint, .run _ => some (.commit mint, .committed mint.agent)
  | .committed agent, .run _ =>
    if db.agents.any fun a => decide (a.id = agent.id) then some (.none, .refreshed agent)
    else some (.none, .done .exception)
  | .refreshed _, .run _ => some (.none, .done .ok)
  -- committed already; the reload picks it up
  | .refreshed _, .raise => some (.none, .done .ok)
  | .done _, _ => none
  | .claimed claim, .crash => claim.fail .crashed
  | .inserted mint, .crash =>
    some (.rollback mint.claim.row.id (some mint.agent.name), .done .crashed)
  | .linked mint, .crash =>
    some (.rollback mint.claim.row.id (some mint.agent.name), .done .crashed)
  | _, .crash => some (.none, .done .crashed)
  | _, _ => none

/-- `lookup_for_install` in a transaction begun at `began`: the status code and the text of
the `TokenLookupError`, or the row. -/
def lookupForInstall (db : Db) (token : String) (began : Int) :
    Except (Nat × String) Registration :=
  match db.registrations.find? fun r => decide (r.tokenHash = s.hash token) with
  | none => .error (404, "registration not found")
  | some row =>
    if row.status ≠ .pending ∨ row.expiresAt ≤ began then
      .error (410, "registration is claimed or expired")
    else .ok row

/-! ## The system -/

inductive Call where
  | provision (p : Provision)
  | listing (p : Listing)
  | cancel (p : Cancel)
  | agentDelete (p : AgentDelete)
  | register (p : Register)
  deriving DecidableEq, Repr

def Call.step (db : Db) : Call → Input → Option (Effect × Call)
  | .provision p, i => (provisionStep s db p i).map fun r => (r.1, .provision r.2)
  | .listing p, i => (listingStep db p i).map fun r => (r.1, .listing r.2)
  | .cancel p, i => (cancelStep db p i).map fun r => (r.1, .cancel r.2)
  | .agentDelete p, i => (agentDeleteStep db p i).map fun r => (r.1, .agentDelete r.2)
  | .register p, i => (registerStep s db p i).map fun r => (r.1, .register r.2)

def Call.fresh : Call → Bool
  | .provision (.start _ _) => true
  | .listing (.start _) => true
  | .cancel (.start _) => true
  | .agentDelete (.start _) => true
  | .register (.start _) => true
  | _ => false

def Effect.outside : Effect → Bool
  | .tick _ => true
  | .addAgent _ _ _ => true
  | _ => false

def service : Interleaving.System Db Call Input Effect where
  step := Call.step s
  apply := Db.apply
  fresh := Call.fresh
  outside := Effect.outside

abbrev Config := Interleaving.Config Db Call
abbrev Action := Interleaving.Action Call Input Effect

def boot (now : Int) : Config :=
  ⟨⟨now, [], [], 0, 0, [], [], [], []⟩, []⟩

/-- The claim of a register whose transaction is open. -/
def Call.claim : Call → Option Claim
  | .register (.claimed claim) => some claim
  | .register (.inserted mint) => some mint.claim
  | .register (.linked mint) => some mint.claim
  | _ => none

/-- The agent a register has inserted and not committed. -/
def Call.mint : Call → Option Mint
  | .register (.inserted mint) => some mint
  | .register (.linked mint) => some mint
  | _ => none

/-- The statements that run in a transaction of their own. -/
inductive StatementRule (db : Db) : Input → Effect → Prop where
  | none {i : Input} : StatementRule db i .none
  | expire {i : Input} {began : Int} (free : db.expireWaits began = false) :
      StatementRule db i (.expire began)
  | issue {token label : String}
      (unique : ∀ r ∈ db.registrations, r.tokenHash ≠ s.hash token) :
      StatementRule db (.token token) (.insertRegistration
        { id := db.nextRegistration, tokenHash := s.hash token, label := label,
          createdAt := db.now, expiresAt := db.now + s.ttl } token)
  | cancel {i : Input} {id : Nat} (unlocked : id ∉ db.locks) :
      StatementRule db i (.deleteRegistration id)
  | deleteAgent {i : Input} {id : Nat} : StatementRule db i (.deleteAgent id)

/-- Every step of a call; the last five are those of the transaction of `register`. -/
inductive CallRule (db : Db) : Call → Input → Effect → Call → Prop where
  | statement {p p' : Call} {i : Input} {e : Effect} (h : StatementRule s db i e)
      (before : p.claim = none) (after : p'.claim = none) : CallRule db p i e p'
  | claim {request : RegisterRequest} {began clock : Int} {row : Registration}
      (found : row ∈ db.registrations)
      (claimable : row.claimable (s.hash request.token) began = true)
      (unlocked : row.id ∉ db.locks) :
      CallRule db (.register (.begun request began)) (.run clock) (.lock row.id)
        (.register (.claimed ⟨request, began, row, clock⟩))
  | insert {claim : Claim} {clock : Int} {name url tokenEncrypted : String} :
      CallRule db (.register (.claimed claim)) (.run clock) (.insertAgent name)
        (.register (.inserted ⟨claim, db.nextAgent, name, url, tokenEncrypted, .offline⟩))
  | link {mint : Mint} {clock : Int} :
      CallRule db (.register (.inserted mint)) (.run clock) .none (.register (.linked mint))
  | commit {mint : Mint} {clock : Int} :
      CallRule db (.register (.linked mint)) (.run clock) (.commit mint)
        (.register (.committed mint.agent))
  | rollback {p : Call} {i : Input} {claim : Claim} {name : Option String} {reply : Reply}
      (h : p.claim = some claim) :
      CallRule db p i (.rollback claim.row.id name) (.register (.done reply))

theorem provision_rule {db : Db} {p p' : Provision} {i : Input} {e : Effect} :
    provisionStep s db p i = some (e, p') → StatementRule s db i e := by
  fun_cases provisionStep s db p i <;> intro h <;> cases h
  case case4 free => exact .expire (by simpa using free)
  case case7 unique _ => exact .issue (by simpa using unique)
  all_goals exact .none

theorem listing_rule {db : Db} {p p' : Listing} {i : Input} {e : Effect} :
    listingStep db p i = some (e, p') → StatementRule s db i e := by
  fun_cases listingStep db p i <;> intro h <;> cases h
  case case3 free => exact .expire (by simpa using free)
  all_goals exact .none

theorem cancel_rule {db : Db} {p p' : Cancel} {i : Input} {e : Effect} :
    cancelStep db p i = some (e, p') → StatementRule s db i e := by
  fun_cases cancelStep db p i <;> intro h <;> cases h
  case case4 unlocked => exact .cancel unlocked
  all_goals exact .none

theorem agentDelete_rule {db : Db} {p p' : AgentDelete} {i : Input} {e : Effect} :
    agentDeleteStep db p i = some (e, p') → StatementRule s db i e := by
  fun_cases agentDeleteStep db p i <;> intro h <;> cases h
  case case5 => exact .deleteAgent
  all_goals exact .none

theorem register_rule {db : Db} {p p' : Register} {i : Input} {e : Effect} :
    registerStep s db p i = some (e, p') → CallRule s db (.register p) i e (.register p') := by
  fun_cases registerStep s db p i <;> intro h <;> cases h
  case case4 found unlocked =>
    exact .claim (List.mem_of_find?_eq_some found) (List.find?_some found) unlocked
  case case10 => exact .insert
  case case11 => exact .link
  case case12 => exact .commit
  case case21 =>
    -- a crash outside the transaction
    refine .statement .none ?_ rfl
    cases p <;> first | rfl | simp_all
  all_goals first
    | exact .statement .none rfl rfl
    | exact .rollback rfl

end Karr.Registrations
