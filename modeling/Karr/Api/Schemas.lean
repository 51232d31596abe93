import Karr.Api.Errors

/-!
# The response models

The records the API answers with, the texts of their identifiers and timestamps,
and the rule that leaves out what is empty.
-/

set_option autoImplicit false

namespace Karr.Schemas

open Json

abbrev Members := List (String × Value String)

/-! ## Identifiers and timestamps -/

/-- A `uuid.UUID` by the hexadecimal digits of its integer. -/
structure Uuid where
  hex : List Char
  length : hex.length = 32
  deriving DecidableEq

/-- `str(uuid)` -/
def Uuid.text (u : Uuid) : String :=
  String.ofList (u.hex.take 8 ++ '-' :: (u.hex.drop 8).take 4 ++ '-' :: (u.hex.drop 12).take 4 ++
    '-' :: (u.hex.drop 16).take 4 ++ '-' :: u.hex.drop 20)

/-- A `datetime` in UTC. -/
structure Datetime where
  year : Nat
  month : Nat
  day : Nat
  hour : Nat
  minute : Nat
  second : Nat
  microsecond : Nat
  valid : (1 ≤ year ∧ year ≤ 9999) ∧ (1 ≤ month ∧ month ≤ 12) ∧ (1 ≤ day ∧ day ≤ 31) ∧
    hour < 24 ∧ minute < 60 ∧ second < 60 ∧ microsecond < 1000000
  deriving DecidableEq

/-- `f"{n:0{width}}"` of a number that fits. -/
def padded : Nat → Nat → List Char
  | 0, _ => []
  | width + 1, n => padded width (n / 10) ++ [Nat.digitChar (n % 10)]

/-- `isoformat`, where the offset is `Z`. -/
def rfc3339 (d : Datetime) : String :=
  String.ofList (padded 4 d.year ++ '-' :: padded 2 d.month ++ '-' :: padded 2 d.day ++
    'T' :: padded 2 d.hour ++ ':' :: padded 2 d.minute ++ ':' :: padded 2 d.second ++
    (if d.microsecond = 0 then [] else '.' :: padded 6 d.microsecond) ++ ['Z'])

/-! ## What is left out -/

/-- `value in (None, "", [])` -/
def isEmpty : Value String → Bool
  | .null => true
  | .string s => s = ""
  | .array [] => true
  | _ => false

def omitEmpty (keys : List String) (data : Members) : Members :=
  data.filter fun m => !(keys.contains m.1 && isEmpty m.2)

/-! ## The records -/

def strings (xs : List String) : Value String := .array (xs.map .string)

def optional {α : Type} (text : α → String) : Option α → Value String
  | none => .null
  | some x => .string (text x)

structure AgentOut where
  id : Uuid
  name : String
  url : String
  status : String
  lastSeenAt : Option Datetime
  lastCheckedAt : Option Datetime
  createdAt : Datetime
  updatedAt : Datetime
  deriving DecidableEq

structure ProjectOut where
  id : Uuid
  name : String
  description : String
  createdAt : Datetime
  updatedAt : Datetime
  deriving DecidableEq

structure EnvironmentOut where
  id : Uuid
  projectId : Option Uuid
  agentId : Uuid
  name : String
  image : String
  containerId : String
  status : String
  statusMessage : String
  gpu : Bool
  env : List String
  mounts : List String
  command : List String
  createdAt : Datetime
  updatedAt : Datetime
  deriving DecidableEq

structure RegistrationOut where
  id : Uuid
  label : String
  status : String
  agentId : Option Uuid
  createdAt : Datetime
  claimedAt : Option Datetime
  expiresAt : Datetime
  deriving DecidableEq

/-- A record the API answers with. -/
inductive Out where
  | agent (a : AgentOut)
  | project (p : ProjectOut)
  | environment (e : EnvironmentOut)
  | registration (r : RegistrationOut)
  deriving DecidableEq

/-- `OMIT_EMPTY` -/
def Out.omitKeys : Out → List String
  | .agent _ => ["last_seen_at", "last_checked_at"]
  | .project _ => ["description"]
  | .environment _ => ["project_id", "container_id", "status_message", "env", "mounts", "command"]
  | .registration _ => ["agent_id", "claimed_at"]

/-- What the handler makes of the fields. -/
def Out.data : Out → Members
  | .agent a => [
      ("id", .string a.id.text), ("name", .string a.name), ("url", .string a.url),
      ("status", .string a.status), ("last_seen_at", optional rfc3339 a.lastSeenAt),
      ("last_checked_at", optional rfc3339 a.lastCheckedAt),
      ("created_at", .string (rfc3339 a.createdAt)), ("updated_at", .string (rfc3339 a.updatedAt))]
  | .project p => [
      ("id", .string p.id.text), ("name", .string p.name), ("description", .string p.description),
      ("created_at", .string (rfc3339 p.createdAt)), ("updated_at", .string (rfc3339 p.updatedAt))]
  | .environment e => [
      ("id", .string e.id.text), ("project_id", optional Uuid.text e.projectId),
      ("agent_id", .string e.agentId.text), ("name", .string e.name), ("image", .string e.image),
      ("container_id", .string e.containerId), ("status", .string e.status),
      ("status_message", .string e.statusMessage), ("gpu", .bool e.gpu), ("env", strings e.env),
      ("mounts", strings e.mounts), ("command", strings e.command),
      ("created_at", .string (rfc3339 e.createdAt)), ("updated_at", .string (rfc3339 e.updatedAt))]
  | .registration r => [
      ("id", .string r.id.text), ("label", .string r.label), ("status", .string r.status),
      ("agent_id", optional Uuid.text r.agentId),
      ("created_at", .string (rfc3339 r.createdAt)),
      ("claimed_at", optional rfc3339 r.claimedAt),
      ("expires_at", .string (rfc3339 r.expiresAt))]

def Out.wire (o : Out) : Value String := .object (omitEmpty o.omitKeys o.data)

def Out.text (o : Out) : String := String.ofList (dumps Errors.compact o.wire)

/-- The text of an answer that is a list. -/
def listText (os : List Out) : String :=
  String.ofList (dumps Errors.compact (.array (os.map Out.wire)))

/-! ## Texts that are read in one way -/

theorem uuid_text_inj {u u' : Uuid} (h : u.text = u'.text) : u = u' := by
  obtain ⟨x, hx⟩ := u
  obtain ⟨y, hy⟩ := u'
  have lists := String.ofList_injective h
  simp only [List.append_assoc, List.cons_append] at lists
  obtain ⟨first, lists⟩ := List.append_inj lists (by simp [hx, hy])
  obtain ⟨second, lists⟩ := List.append_inj (List.cons.inj lists).2 (by simp [hx, hy])
  obtain ⟨third, lists⟩ := List.append_inj (List.cons.inj lists).2 (by simp [hx, hy])
  obtain ⟨fourth, lists⟩ := List.append_inj (List.cons.inj lists).2 (by simp [hx, hy])
  have last := (List.cons.inj lists).2
  have parts (z : List Char) : z = z.take 8 ++ ((z.drop 8).take 4 ++ ((z.drop 12).take 4 ++
      ((z.drop 16).take 4 ++ z.drop 20))) := by
    have step (n : Nat) : z.drop n = (z.drop n).take 4 ++ z.drop (n + 4) := by
      rw [← List.drop_drop, List.take_append_drop]
    rw [← step 16, ← step 12, ← step 8, List.take_append_drop]
  have : x = y := by rw [parts x, parts y, first, second, third, fourth, last]
  subst this
  rfl

theorem uuid_text_ne (u : Uuid) : u.text ≠ "" := by
  intro h
  have := congrArg String.length h
  rw [Uuid.text, String.length_ofList] at this
  simp at this

theorem length_padded (width n : Nat) : (padded width n).length = width := by
  induction width generalizing n with
  | zero => rfl
  | succ width ih => rw [padded, List.length_append, ih, List.length_singleton]

theorem padded_inj {width m n : Nat} (hm : m < 10 ^ width) (hn : n < 10 ^ width)
    (h : padded width m = padded width n) : m = n := by
  induction width generalizing m n with
  | zero => omega
  | succ width ih =>
    rw [Nat.pow_succ] at hm hn
    obtain ⟨front, last⟩ := List.append_inj h (by rw [length_padded, length_padded])
    have digits : ∀ a < 10, ∀ b < 10, Nat.digitChar a = Nat.digitChar b → a = b := by decide
    have := digits _ (Nat.mod_lt m (by decide)) _ (Nat.mod_lt n (by decide))
      (List.cons.inj last).1
    have := ih (by omega) (by omega) front
    omega

theorem rfc3339_inj {d d' : Datetime} (h : rfc3339 d = rfc3339 d') : d = d' := by
  obtain ⟨year, month, day, hour, minute, second, micro, valid⟩ := d
  obtain ⟨year', month', day', hour', minute', second', micro', valid'⟩ := d'
  have lists := String.ofList_injective h
  simp only [List.append_assoc, List.cons_append] at lists
  have same (width m n : Nat) :
      (padded width m).length = (padded width n).length := by rw [length_padded, length_padded]
  obtain ⟨h₁, lists⟩ := List.append_inj lists (same _ _ _)
  obtain ⟨h₂, lists⟩ := List.append_inj (List.cons.inj lists).2 (same _ _ _)
  obtain ⟨h₃, lists⟩ := List.append_inj (List.cons.inj lists).2 (same _ _ _)
  obtain ⟨h₄, lists⟩ := List.append_inj (List.cons.inj lists).2 (same _ _ _)
  obtain ⟨h₅, lists⟩ := List.append_inj (List.cons.inj lists).2 (same _ _ _)
  obtain ⟨h₆, lists⟩ := List.append_inj (List.cons.inj lists).2 (same _ _ _)
  have h₇ := List.append_cancel_right lists
  obtain rfl := padded_inj (by omega) (by omega) h₁
  obtain rfl := padded_inj (by omega) (by omega) h₂
  obtain rfl := padded_inj (by omega) (by omega) h₃
  obtain rfl := padded_inj (by omega) (by omega) h₄
  obtain rfl := padded_inj (by omega) (by omega) h₅
  obtain rfl := padded_inj (by omega) (by omega) h₆
  have : micro = micro' := by
    split at h₇ <;> split at h₇
    · omega
    · cases h₇
    · cases h₇
    · exact padded_inj (by omega) (by omega) (List.cons.inj h₇).2
  subst this
  rfl

theorem rfc3339_ne (d : Datetime) : rfc3339 d ≠ "" := by
  intro h
  have := congrArg String.length h
  rw [rfc3339, String.length_ofList] at this
  simp at this

end Karr.Schemas
