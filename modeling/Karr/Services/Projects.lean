import Karr.Lib.Interleaving
import Karr.Python

/-!
# The project service

Calls of `create`, `update` and `delete` at a time, each with a session of its
own. A flush and its commit are one step: another transaction can only wait in
between. An update writes the columns whose value differs from the one it read.
-/

set_option autoImplicit false

namespace Karr.Projects

open Interleaving

structure Project where
  id : Nat
  name : String
  description : String
  deriving DecidableEq, Repr

/-- The table, and the next of the ids, which are never given twice. -/
structure Table where
  rows : List Project := []
  nextId : Nat := 0
  deriving DecidableEq, Repr

def Table.find (t : Table) (id : Nat) : Option Project := t.rows.find? fun p => decide (p.id = id)

/-- A body of which absent and null fields are left out. -/
structure ProjectUpdate where
  name : Option String := none
  description : Option String := none
  deriving DecidableEq, Repr

inductive Reply where
  | ok (project : Project)
  | noContent
  | apiError (statusCode : Nat) (message : String)
  | exception
  deriving DecidableEq, Repr

inductive Call where
  | create (name description : String)
  /-- Before the commit of the insert. -/
  | added (name description : String)
  | update (id : Nat) (body : ProjectUpdate)
  /-- The row as it was read, and the values that are set on it. -/
  | loaded (row : Project) (set : ProjectUpdate)
  | delete (id : Nat)
  | found (id : Nat)
  /-- Committed; `refresh` reads the row anew. -/
  | refresh (id : Nat)
  | done (reply : Reply)
  deriving DecidableEq, Repr

inductive Input where
  | run
  /-- The session raises, or the request is cancelled. -/
  | raise
  deriving DecidableEq, Repr

inductive Effect where
  | none
  | insert (name description : String)
  | write (id : Nat) (set : ProjectUpdate)
  | remove (id : Nat)
  deriving DecidableEq, Repr

def Project.set (p : Project) (set : ProjectUpdate) : Project :=
  { p with name := set.name.getD p.name, description := set.description.getD p.description }

def Table.apply (t : Table) : Effect → Table
  | .none => t
  | .insert name description =>
    { rows := t.rows ++ [⟨t.nextId, name, description⟩], nextId := t.nextId + 1 }
  | .write id set => { t with rows := t.rows.map fun p => if p.id = id then p.set set else p }
  | .remove id => { t with rows := t.rows.filter fun p => decide (p.id ≠ id) }

/-- What differs from the row that was read. -/
def ProjectUpdate.changes (set : ProjectUpdate) (row : Project) : ProjectUpdate where
  name := set.name.filter fun name => name ≠ row.name
  description := set.description.filter fun description => description ≠ row.description

def step (t : Table) : Call → Input → Option (Effect × Call)
  | .done _, _ => none
  | _, .raise => some (.none, .done .exception)
  | .create name description, .run =>
    if Python.strip name = "" then some (.none, .done (.apiError 422 "name is required"))
    else some (.none, .added (Python.strip name) (Python.strip description))
  | .added name description, .run =>
    if t.rows.any fun p => decide (p.name = name) then
      some (.none, .done (.apiError 409 "project name already exists"))
    else some (.insert name description, .refresh t.nextId)
  | .update id body, .run =>
    match t.find id with
    | none => some (.none, .done (.apiError 404 "project not found"))
    | some row =>
      if body.name.map Python.strip = some "" then
        some (.none, .done (.apiError 422 "name is required"))
      else some (.none, .loaded row
        ⟨body.name.map Python.strip, body.description.map Python.strip⟩)
  | .loaded row set, .run =>
    let changes := set.changes row
    if changes = {} then some (.none, .refresh row.id)
    -- the update matches no row
    else if t.find row.id = none then some (.none, .done .exception)
    else if t.rows.any fun p => decide (p.id ≠ row.id ∧ some p.name = changes.name) then
      some (.none, .done (.apiError 409 "project name already exists"))
    else some (.write row.id changes, .refresh row.id)
  | .delete id, .run =>
    match t.find id with
    | none => some (.none, .done (.apiError 404 "project not found"))
    | some _ => some (.none, .found id)
  | .found id, .run => some (.remove id, .done .noContent)
  | .refresh id, .run =>
    match t.find id with
    | none => some (.none, .done .exception)
    | some row => some (.none, .done (.ok row))

def service : System Table Call Input Effect where
  step := step
  apply := Table.apply
  fresh
    | .create _ _ | .update _ _ | .delete _ => true
    | _ => false
  outside _ := false

/-- What a step does. -/
inductive StepRule (t : Table) : Call → Effect → Call → Prop where
  | quit {p : Call} {reply : Reply} (not_ok : ∀ row, reply ≠ .ok row) :
      StepRule t p .none (.done reply)
  | add {name description : String} (told : Python.strip name ≠ "") :
      StepRule t (.create name description) .none
        (.added (Python.strip name) (Python.strip description))
  | insert {name description : String} (unique : ∀ p ∈ t.rows, p.name ≠ name) :
      StepRule t (.added name description) (.insert name description) (.refresh t.nextId)
  | load {row : Project} {body : ProjectUpdate} (found : row ∈ t.rows)
      (told : body.name.map Python.strip ≠ some "") :
      StepRule t (.update row.id body) .none
        (.loaded row ⟨body.name.map Python.strip, body.description.map Python.strip⟩)
  | same {row : Project} {set : ProjectUpdate} (same : set.changes row = {}) :
      StepRule t (.loaded row set) .none (.refresh row.id)
  | write {row : Project} {set : ProjectUpdate}
      (unique : ∀ p ∈ t.rows, p.id ≠ row.id → some p.name ≠ (set.changes row).name) :
      StepRule t (.loaded row set) (.write row.id (set.changes row)) (.refresh row.id)
  | find {id : Nat} : StepRule t (.delete id) .none (.found id)
  | remove {id : Nat} : StepRule t (.found id) (.remove id) (.done .noContent)
  | answer {row : Project} (found : row ∈ t.rows) :
      StepRule t (.refresh row.id) .none (.done (.ok row))

theorem mem_of_find {t : Table} {id : Nat} {row : Project} (h : t.find id = some row) :
    row ∈ t.rows ∧ row.id = id :=
  ⟨List.mem_of_find?_eq_some h, by simpa using List.find?_some h⟩

theorem step_rule {t : Table} {p p' : Call} {i : Input} {e : Effect}
    (h : step t p i = some (e, p')) : StepRule t p e p' := by
  revert h
  fun_cases step t p i <;> intro h <;> cases h
  case case4 told => exact .add told
  case case6 free =>
    refine .insert fun p hp same => free ?_
    exact List.any_eq_true.mpr ⟨p, hp, decide_eq_true same⟩
  case case9 id body row found told =>
    obtain ⟨mem, rfl⟩ := mem_of_find found
    exact .load mem told
  case case10 same => exact .same same
  case case13 free =>
    refine .write fun p hp other same => free ?_
    exact List.any_eq_true.mpr ⟨p, hp, decide_eq_true ⟨other, same⟩⟩
  case case15 => exact .find
  case case16 => exact .remove
  case case18 id row found =>
    obtain ⟨mem, rfl⟩ := mem_of_find found
    exact .answer mem
  all_goals exact .quit fun _ => Reply.noConfusion

end Karr.Projects
