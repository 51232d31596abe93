import Karr.Lib.FileTree

/-!
# The built frontend

`spa_fallback` of `mount_spa` in a file tree that stays as it is while the request is
answered. A path that the system cannot look up, for its length or its owner, is one
where nothing is found.
-/

set_option autoImplicit false

namespace Karr.Spa

open FileTree Routing

/-- The links the system goes through on one path. -/
def maxLinks : Nat := 40

/-- `is_file` -/
def isFile (t : Tree) (names : List Name) : Bool :=
  (t.walk maxLinks [] names).any fun p => decide (t.node p = some .file)

/-- `directory / path`, where the directory is absolute. -/
def slash (directory : List Name) (path : List Char) : List Name :=
  if path.head? = some '/' then pieces path else directory ++ pieces path

def index (staticDir : List Name) : List Name := staticDir ++ ["index.html".toList]

inductive Answer where
  /-- The 404 without a frontend. -/
  | notBuilt
  | index
  | file (candidate : Path)
  /-- `resolve` meets a link that leads to itself; what becomes of the request is left out. -/
  | looped
  deriving DecidableEq, Repr

/-- A null byte is a `ValueError` of `resolve`. -/
def spaFallback (t : Tree) (staticDir : List Name) (path : List Char) : Answer :=
  if isFile t (index staticDir) then
    match t.realpath [] [] staticDir with
    | none => .looped
    | some root =>
      if '\x00' ∈ path then .index
      else
        match t.realpath [] [] (slash staticDir path) with
        | none => .looped
        | some candidate =>
          if root <+: candidate ∧ isFile t candidate then .file candidate else .index
  else .notBuilt

end Karr.Spa
