import Karr.Lib.Routing
import Mathlib.Data.List.Induction
import Mathlib.Data.Nat.Find

/-!
# File trees

A tree of directories, files and symbolic links; what an operating system finds at a
path, and what `realpath` makes of it. A path that goes through no link is the
place of what is found there, and `realpath` gives such paths only.
-/

set_option autoImplicit false

namespace FileTree

open Routing

abbrev Name := List Char

/-- Of a place: the names on the way from the root. -/
abbrev Path := List Name

inductive Node where
  | dir
  | file
  | link (target : List Char)
  deriving DecidableEq, Repr

def Plain (name : Name) : Prop := name ≠ [] ∧ name ≠ ['.'] ∧ name ≠ ['.', '.']

def Legal (name : Name) : Prop := Plain name ∧ '/' ∉ name ∧ '\x00' ∉ name

instance (name : Name) : Decidable (Plain name) := inferInstanceAs (Decidable (_ ∧ _))

instance (name : Name) : Decidable (Legal name) := inferInstanceAs (Decidable (_ ∧ _))

/-- The root is a directory, and so is what has something below it. -/
def WellFormed (entries : List (Path × Node)) : Prop :=
  entries.lookup [] = some .dir ∧ ∀ e ∈ entries, e.1 = [] ∨
    entries.lookup e.1.dropLast = some .dir ∧ ∀ name ∈ e.1.getLast?, Legal name

instance (entries : List (Path × Node)) : Decidable (WellFormed entries) :=
  inferInstanceAs (Decidable (_ ∧ _))

structure Tree where
  entries : List (Path × Node)
  wellFormed : WellFormed entries

/-- Where the way to a target begins. -/
def origin (d : Path) (target : List Char) : Path := if target.head? = some '/' then [] else d

namespace Tree

def node (t : Tree) (p : Path) : Option Node := t.entries.lookup p

theorem mem_of_node {t : Tree} {p : Path} {n : Node} (there : t.node p = some n) :
    (p, n) ∈ t.entries := by
  obtain ⟨l, r, eq, -⟩ := List.lookup_eq_some_iff.mp there
  rw [eq]
  exact List.mem_append_right l List.mem_cons_self

theorem entry {t : Tree} {d : Path} {name : Name} {n : Node} (there : t.node (d ++ [name]) = some n) :
    t.node d = some .dir ∧ Legal name := by
  rcases t.wellFormed.2 _ (mem_of_node there) with root | ⟨above, legal⟩
  · exact absurd root (List.append_ne_nil_of_right_ne_nil d (List.cons_ne_nil name []))
  · rw [List.dropLast_concat] at above
    exact ⟨above, legal name List.getLast?_concat⟩

/-- What the system finds from a directory on, going through so many links at most. -/
def walk (t : Tree) (limit : Nat) (d : Path) : List Name → Option Path
  | [] => some d
  | name :: rest =>
    if t.node d ≠ some .dir then none
    else if name = [] ∨ name = ['.'] then t.walk limit d rest
    else if name = ['.', '.'] then t.walk limit d.dropLast rest
    else
      match t.node (d ++ [name]) with
      | none => none
      | some (.link target) =>
        if limit = 0 then none
        else t.walk (limit - 1) (origin d target) (pieces target ++ rest)
      | some _ => t.walk limit (d ++ [name]) rest
  termination_by names => (limit, names.length)

def unseen (t : Tree) (seen : List Path) : List Path :=
  (t.entries.map Prod.fst).filter fun p => decide (p ∉ seen)

/-- Going through a link leaves fewer to go through. -/
theorem unseen_cons {t : Tree} {seen : List Path} {p : Path} {n : Node} (is : t.node p = some n)
    (new : p ∉ seen) : (t.unseen (p :: seen)).length < (t.unseen seen).length := by
  have there : p ∈ t.unseen seen :=
    List.mem_filter.mpr ⟨List.mem_map.mpr ⟨_, mem_of_node is, rfl⟩, decide_eq_true new⟩
  have fewer : t.unseen (p :: seen) = (t.unseen seen).filter fun q => decide (q ≠ p) := by
    unfold unseen
    rw [List.filter_filter]
    apply List.filter_congr
    intro q _
    simp only [List.mem_cons, not_or, Bool.decide_and, ne_eq]
  rw [fewer]
  exact List.length_filter_lt_length_iff_exists.mpr
    ⟨p, there, fun other => of_decide_eq_true other rfl⟩

/-- The path without links and dots; `seen` are the links on the way to a target, and `none`
is a link that leads to itself. -/
def realpath (t : Tree) (seen : List Path) (path : Path) : List Name → Option Path
  | [] => some path
  | name :: rest =>
    if name = [] ∨ name = ['.'] then t.realpath seen path rest
    else if name = ['.', '.'] then t.realpath seen path.dropLast rest
    else
      match _is : t.node (path ++ [name]) with
      | some (.link target) =>
        if _new : path ++ [name] ∉ seen then
          match t.realpath ((path ++ [name]) :: seen) (origin path target) (pieces target) with
          | some path => t.realpath seen path rest
          | none => none
        else none
      | _ => t.realpath seen (path ++ [name]) rest
  termination_by names => ((t.unseen seen).length, names.length)
  decreasing_by
    · exact Prod.Lex.right _ (Nat.lt_succ_self _)
    · exact Prod.Lex.right _ (Nat.lt_succ_self _)
    · exact Prod.Lex.left _ _ (unseen_cons _is _new)
    · exact Prod.Lex.right _ (Nat.lt_succ_self _)
    · exact Prod.Lex.right _ (Nat.lt_succ_self _)

/-! ## Places -/

section Places
variable {t : Tree}

/-- A path through no link and no dots. -/
def Solid (t : Tree) (p : Path) : Prop :=
  ∀ d name rest, p = d ++ name :: rest →
    Plain name ∧ ∀ target, t.node (d ++ [name]) ≠ some (.link target)

theorem Solid.nil : t.Solid [] := by
  intro d name rest h
  exact absurd h.symm (List.append_ne_nil_of_right_ne_nil d (List.cons_ne_nil name rest))

theorem Solid.of_append {d rest : Path} (h : t.Solid (d ++ rest)) : t.Solid d := by
  intro e name more same
  refine h e name (more ++ rest) ?_
  rw [same, List.append_assoc, List.cons_append]

theorem Solid.dropLast {p : Path} (h : t.Solid p) : t.Solid p.dropLast := by
  rcases List.eq_nil_or_concat p with rfl | ⟨p, last, rfl⟩
  · exact h
  · rw [List.concat_eq_append] at h ⊢
    rw [List.dropLast_concat]
    exact h.of_append

theorem Solid.origin {p : Path} (h : t.Solid p) (target : List Char) :
    t.Solid (FileTree.origin p target) := by
  unfold FileTree.origin
  split
  · exact Solid.nil
  · exact h

end Places

/-! ## `realpath` and the system -/

section Agree
variable {t : Tree}

end Agree

end Tree

end FileTree
