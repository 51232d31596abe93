import Karr.Lib.Interleaving
import Karr.Security
import Karr.Services.AgentCreate
import Karr.Services.Common
import Karr.Services.Seed

/-!
# The store of the registry

What becomes of the agents' tokens: the calls that add agents and delete them, and
those of `KarrRegistryStore`, in one process after the other. A process has the
secret key it was started with and a registry of its own. The insert of an agent
and its commit are one step; the claim of a registration goes with it.
-/

set_option autoImplicit false

namespace Karr.BonnieStore

open Interleaving Registrations

/-- The columns that are read here, the static ones first. -/
structure Agent where
  id : Nat
  name : String
  url : String
  tokenEncrypted : String
  status : AgentStatus := .offline
  lastSeenAt : Option Int := none
  lastCheckedAt : Option Int := none
  deriving DecidableEq, Repr

/-- `flag_commons.bonnie.Agent` -/
structure RegistryAgent where
  id : Nat
  name : String
  url : String
  token : String
  status : AgentStatus := .offline
  lastSeenAt : Option Int := none
  lastCheckedAt : Option Int := none
  deriving DecidableEq, Repr

structure Deployment (Key : Type) where
  fernet : Fernet Key
  urls : Urllib.Checks
  safeHost : String → Bool

/-- The requests that add an agent; a registration with the row it claimed. -/
inductive Source where
  | create (body : AgentCreate)
  | register (claim : Claim)
  | seed (url token : String)
  deriving DecidableEq, Repr

variable {Key : Type} (d : Deployment Key)

/-- A URL as it is stored; `none` where the request ends. -/
def Deployment.url (url : String) : Option String :=
  match validateAgentUrl d.urls url with
  | .valid url => some url
  | .invalid _ => none
  | .raised => none

/-- The name, the URL and the token an agent is to have. -/
def Source.agent : Source → Option (String × String × String)
  | .create body =>
    if Python.strip body.name = "" then none
    else (d.url body.url).map fun url => (Python.strip body.name, url, body.token)
  | .register claim =>
    if d.safeHost claim.request.host = false then none
    else (d.url ("http://" ++ claim.request.host ++ ":" ++ toString claim.request.port)).map
      fun url => (claim.name, url, claim.request.authToken)
  | .seed url token =>
    if Python.strip url = "" then none
    else (d.url url).map fun url => (defaultAgentName, url, token)

/-- The default agent is not seeded where its URL is known. -/
def Source.skips (rows : List Agent) (url : String) : Source → Bool
  | .seed _ _ => rows.any fun row => decide (row.url = url)
  | _ => false

/-- What the registry is told once an agent is stored. -/
def Source.upsert (row : Agent) (token : String) : Source → List RegistryAgent
  | .create _ =>
    [⟨row.id, row.name, row.url, token, row.status, row.lastSeenAt, row.lastCheckedAt⟩]
  | .register _ =>
    [⟨row.id, row.name, row.url, token, .offline, none, none⟩]
  | .seed _ _ => []

/-- `KarrRegistryStore.list`, of the rows it has read; their order is the database's. -/
def list (key : Key) (rows : List Agent) : List RegistryAgent :=
  rows.filterMap fun row =>
    (TokenCipher.decrypt d.fernet key row.tokenEncrypted).map fun token =>
      ⟨row.id, row.name, row.url, token, row.status, row.lastSeenAt, row.lastCheckedAt⟩

/-! ## The calls -/

/-- The secret keys of the processes so far, the running one's last. -/
structure Store (Key : Type) where
  keys : List Key := []
  rows : List Agent := []
  nextId : Nat := 0
  /-- All that the registry of this process was given. -/
  handed : List RegistryAgent := []

inductive Stage where
  | add (source : Source)
  | adding (source : Source) (name url token : String)
  /-- Committed. -/
  | added (source : Source) (id : Nat) (token : String)
  | refreshed (source : Source) (row : Agent) (token : String)
  | stored (source : Source) (id : Nat)
  | delete (id : Nat)
  | list
  | listed (rows : List Agent)
  | updateStatus (id : Nat) (status : AgentStatus) (lastSeenAt : Option Int) (lastCheckedAt : Int)
  | ended
  deriving DecidableEq, Repr

/-- A call, with the number of its process. -/
structure Call where
  boot : Nat
  stage : Stage
  deriving DecidableEq, Repr

inductive Input where
  | run (random : Nat)
  /-- The session or the registry raises, or the call is cancelled. -/
  | raise
  deriving DecidableEq, Repr

inductive Effect (Key : Type) where
  | none
  | insert (name url tokenEncrypted : String)
  | delete (id : Nat)
  | updateStatus (id : Nat) (status : AgentStatus) (lastSeenAt : Option Int) (lastCheckedAt : Int)
  | hand (agents : List RegistryAgent)
  /-- The next process starts. -/
  | boot (key : Key)

def Store.apply (s : Store Key) : Effect Key → Store Key
  | .none => s
  | .insert name url tokenEncrypted =>
    { s with
      rows := s.rows ++ [{ id := s.nextId, name, url, tokenEncrypted }]
      nextId := s.nextId + 1 }
  | .delete id => { s with rows := s.rows.filter fun row => decide (row.id ≠ id) }
  | .updateStatus id status lastSeenAt lastCheckedAt =>
    { s with rows := s.rows.map fun row =>
        if row.id = id then { row with status, lastSeenAt, lastCheckedAt := some lastCheckedAt }
        else row }
  | .hand agents => { s with handed := s.handed ++ agents }
  | .boot key => { s with keys := s.keys ++ [key], handed := [] }

def Stage.step (s : Store Key) (key : Key) : Stage → Input → Option (Effect Key × Stage)
  | .stored _ _, _ => none
  | .ended, _ => none
  | .added source id _, .raise => some (.none, .stored source id)
  | .refreshed source row _, .raise => some (.none, .stored source row.id)
  | _, .raise => some (.none, .ended)
  | .add source, .run _ =>
    match source.agent d with
    | none => some (.none, .ended)
    | some (name, url, token) =>
      if source.skips s.rows url then some (.none, .ended)
      else some (.none, .adding source name url token)
  | .adding source name url token, .run random =>
    if s.rows.any fun row => decide (row.name = name) then some (.none, .ended)
    else some (.insert name url (TokenCipher.encrypt d.fernet key random token),
      .added source s.nextId token)
  | .added source id token, .run _ =>
    match s.rows.find? fun row => decide (row.id = id) with
    | none => some (.none, .stored source id)
    | some row => some (.none, .refreshed source row token)
  | .refreshed source row token, .run _ =>
    some (.hand (source.upsert row token), .stored source row.id)
  | .delete id, .run _ => some (.delete id, .ended)
  | .list, .run _ => some (.none, .listed s.rows)
  | .listed rows, .run _ => some (.hand (BonnieStore.list d key rows), .ended)
  | .updateStatus id status lastSeenAt lastCheckedAt, .run _ =>
    some (.updateStatus id status lastSeenAt lastCheckedAt, .ended)

/-- A call ends with its process. -/
def step (s : Store Key) (c : Call) (i : Input) : Option (Effect Key × Call) :=
  if c.boot + 1 = s.keys.length then
    (s.keys[c.boot]?).bind fun key => (c.stage.step d s key i).map fun r => (r.1, ⟨c.boot, r.2⟩)
  else none

def system : System (Store Key) Call Input (Effect Key) where
  step := step d
  apply := Store.apply
  fresh c :=
    match c.stage with
    | .add _ => true
    | .delete _ => true
    | .list => true
    | .updateStatus _ _ _ _ => true
    | _ => false
  outside
    | .boot _ => true
    | _ => false

/-! ## The steps -/

/-- The request of a call that has stored its agent, and the id of that. -/
def Stage.made : Stage → Option (Source × Nat)
  | .added source id _ => some (source, id)
  | .refreshed source row _ => some (source, row.id)
  | .stored source id => some (source, id)
  | _ => none

inductive StageRule (s : Store Key) (key : Key) : Stage → Effect Key → Stage → Prop where
  | quit {p : Stage} (unmade : p.made = none) : StageRule s key p .none .ended
  | stop {p : Stage} {source : Source} {id : Nat} (made : p.made = some (source, id)) :
      StageRule s key p .none (.stored source id)
  | add {source : Source} {name url token : String}
      (agent : source.agent d = some (name, url, token)) :
      StageRule s key (.add source) .none (.adding source name url token)
  | insert {source : Source} {name url token : String} (random : Nat) :
      StageRule s key (.adding source name url token)
        (.insert name url (TokenCipher.encrypt d.fernet key random token))
        (.added source s.nextId token)
  | refresh {source : Source} {row : Agent} {token : String} (found : row ∈ s.rows) :
      StageRule s key (.added source row.id token) .none (.refreshed source row token)
  | upsert {source : Source} {row : Agent} {token : String} :
      StageRule s key (.refreshed source row token) (.hand (source.upsert row token))
        (.stored source row.id)
  | delete {id : Nat} : StageRule s key (.delete id) (.delete id) .ended
  | list : StageRule s key .list .none (.listed s.rows)
  | listed {rows : List Agent} :
      StageRule s key (.listed rows) (.hand (BonnieStore.list d key rows)) .ended
  | updateStatus {id : Nat} {status : AgentStatus} {seen : Option Int} {checked : Int} :
      StageRule s key (.updateStatus id status seen checked) (.updateStatus id status seen checked)
        .ended

variable {d}

theorem stage_rule {s : Store Key} {key : Key} {p p' : Stage} {i : Input} {e : Effect Key}
    (h : p.step d s key i = some (e, p')) : StageRule d s key p e p' := by
  revert h
  fun_cases Stage.step d s key p i <;> intro h <;> cases h
  case case3 => exact .stop rfl
  case case4 => exact .stop rfl
  case case5 unstored _ unadded unrefreshed =>
    refine .quit ?_
    cases p with
    | added source id token => exact (unadded source id token rfl).elim
    | refreshed source row token => exact (unrefreshed source row token rfl).elim
    | stored source id => exact (unstored source id rfl).elim
    | add | adding | delete | list | listed | updateStatus | ended => rfl
  case case8 agent _ => exact .add agent
  case case10 random _ => exact .insert random
  case case11 => exact .stop rfl
  case case12 id _ _ row found =>
    obtain rfl : row.id = id := by simpa using List.find?_some found
    exact .refresh (List.mem_of_find?_eq_some found)
  case case13 => exact .upsert
  case case14 => exact .delete
  case case15 => exact .list
  case case16 => exact .listed
  case case17 => exact .updateStatus
  all_goals exact .quit rfl

theorem step_rule {s : Store Key} {c c' : Call} {i : Input} {e : Effect Key}
    (h : step d s c i = some (e, c')) :
    c'.boot = c.boot ∧ ∃ key, s.keys[c.boot]? = some key ∧ StageRule d s key c.stage e c'.stage := by
  unfold step at h
  split at h
  · obtain ⟨key, running, h⟩ := Option.bind_eq_some_iff.mp h
    obtain ⟨⟨e', p'⟩, hs, h⟩ := Option.map_eq_some_iff.mp h
    cases h
    exact ⟨rfl, key, running, stage_rule hs⟩
  · cases h

/-! ## The default agent -/

theorem Deployment.url_eq_some {url stored : String} :
    d.url url = some stored ↔ validateAgentUrl d.urls url = .valid stored := by
  unfold Deployment.url
  split
  · rename_i valid
    rw [valid]
    simp
  · rename_i invalid
    rw [invalid]
    simp
  · rename_i raised
    rw [raised]
    simp

theorem seed_agent {url stored token : String} :
    (Source.seed url token).agent d = some (defaultAgentName, stored, token) ↔
      Python.strip url ≠ "" ∧ validateAgentUrl d.urls url = .valid stored := by
  rw [← Deployment.url_eq_some, Source.agent]
  split
  · rename_i blank
    simp [blank]
  · rename_i given
    simp [given]

section Seed
variable {st : Store Key} {key : Key} {random : Nat} {source : Source} {name url token : String}

theorem step_add : (Stage.add source).step d st key (.run random) =
      some (.none, .adding source name url token) ↔
    source.agent d = some (name, url, token) ∧ source.skips st.rows url = false := by
  rw [Stage.step]
  split
  · rename_i none
    simp [none]
  · rename_i name' url' token' agent
    rw [agent]
    constructor
    · intro h
      split at h
      · cases h
      · rename_i unknown
        cases h
        exact ⟨rfl, Bool.eq_false_of_not_eq_true unknown⟩
    · rintro ⟨same, unknown⟩
      cases same
      rw [unknown]
      rfl

theorem step_adding : (Stage.adding source name url token).step d st key (.run random) =
      some (.insert name url (TokenCipher.encrypt d.fernet key random token),
        .added source st.nextId token) ↔
    ∀ row ∈ st.rows, row.name ≠ name := by
  rw [Stage.step]
  split
  · rename_i taken
    obtain ⟨row, hr, same⟩ := List.any_eq_true.mp taken
    exact ⟨(fun h => nomatch h), fun free => absurd (of_decide_eq_true same) (free row hr)⟩
  · rename_i free
    refine ⟨fun _ row hr same => free ?_, fun _ => rfl⟩
    exact List.any_eq_true.mpr ⟨row, hr, decide_eq_true same⟩

/-- A seed adds its agent where `ensureDefaultAgent` inserts one, with the same name and URL. -/
theorem seed_iff {s : Settings} {db : Db} {stored : String}
    (checks : s.validateAgentUrl = validateAgentUrl d.urls)
    (rows : db.agents.map (fun a => (a.name, a.url)) = st.rows.map fun row => (row.name, row.url)) :
    ensureDefaultAgent s url token db =
        (db.apply (.addAgent defaultAgentName stored (s.encrypt token)), some true) ↔
      (Stage.add (.seed url token)).step d st key (.run random) =
          some (.none, .adding (.seed url token) defaultAgentName stored token) ∧
        (Stage.adding (.seed url token) defaultAgentName stored token).step d st key (.run random) =
          some (.insert defaultAgentName stored (TokenCipher.encrypt d.fernet key random token),
            .added (.seed url token) st.nextId token) := by
  have both (q : String × String → Prop) :
      (∀ a ∈ db.agents, q (a.name, a.url)) ↔ ∀ row ∈ st.rows, q (row.name, row.url) := by
    have mapped : (∀ p ∈ db.agents.map fun a => (a.name, a.url), q p) ↔
        ∀ p ∈ st.rows.map fun row => (row.name, row.url), q p := by rw [rows]
    rwa [List.forall_mem_map, List.forall_mem_map] at mapped
  have unknown : (Source.seed url token).skips st.rows stored = false ↔
      ∀ row ∈ st.rows, row.url ≠ stored := by
    simp [Source.skips]
  rw [step_add, step_adding, seed_agent, unknown, and_assoc, and_assoc]
  have free := and_congr (both fun p => p.2 ≠ stored) (both fun p => p.1 ≠ defaultAgentName)
  have inserts : ensureDefaultAgent s url token db =
        (db.apply (.addAgent defaultAgentName stored (s.encrypt token)), some true) ↔ _ :=
    ensureDefaultAgent_eq_inserted
  rw [inserts, checks]
  exact and_congr_right fun _ => and_congr_right fun _ => free

end Seed

end Karr.BonnieStore
