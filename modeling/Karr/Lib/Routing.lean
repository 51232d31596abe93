import Mathlib.Data.List.Forall2

/-!
# Routing

A path is cut at its slashes and compared with the templates of the routes, in
their order: the first that fits, and takes the method, gets the request.
-/

set_option autoImplicit false

namespace Routing

universe u

/-- The pieces of a path, one before each slash and one behind the last. -/
def pieces : List Char → List (List Char)
  | [] => [[]]
  | c :: s =>
    if c = '/' then [] :: pieces s
    else
      match pieces s with
      | [] => [[c]]
      | p :: ps => (c :: p) :: ps

/-- The same, put together again. -/
def joined : List (List Char) → List Char
  | [] => []
  | [p] => p
  | p :: ps => p ++ '/' :: joined ps

/-- `{name}` and `{name:path}` take what is there. -/
inductive Segment where
  | lit (text : List Char)
  | param
  | rest
  deriving DecidableEq, Repr

/-- What `{name:path}` takes; it does not go over a newline. -/
def untilNewline (p : List Char) : Option (List Char) :=
  match p.dropWhile fun c => c != '\n' with
  | [] => some p
  | ['\n'] => some p.dropLast
  | _ => none

/-- The end of a pattern also fits before a newline that ends the path. -/
def fitsLit (text p : List Char) (last : Prop) : Prop := p = text ∨ last ∧ p = text ++ ['\n']

instance (text p : List Char) (last : Prop) [Decidable last] : Decidable (fitsLit text p last) :=
  inferInstanceAs (Decidable (_ ∨ _ ∧ _))

/-- The values of the parameters where the pieces fit the template. -/
def fits : List Segment → List (List Char) → Option (List (List Char))
  | [], [] => some []
  | .lit text :: template, p :: ps =>
    if fitsLit text p (template = [] ∧ ps = []) then fits template ps else none
  | .param :: template, p :: ps => if p ≠ [] then (fits template ps).map (p :: ·) else none
  | [.rest], p :: ps => (untilNewline (joined (p :: ps))).map ([·])
  | _, _ => none

/-- The segment a piece of a template stands for. -/
def Segment.ofPiece (p : List Char) : Segment :=
  if p.head? ≠ some '{' then .lit p else if ":path\x7d".toList <:+ p then .rest else .param

def compile (template : String) : List Segment := (pieces template.toList).map Segment.ofPiece

structure Route (E : Type u) where
  /-- All of them where it names none. -/
  methods : Option (List String)
  template : List Segment
  endpoint : E

inductive Dispatch (E : Type u) where
  | handled (endpoint : E) (params : List (List Char))
  | methodNotAllowed
  | redirect (path : List Char)
  | notFound

variable {E : Type u}

/-- The values of the parameters where the route takes the request. -/
def Route.takes (r : Route E) (method : String) (path : List Char) : Option (List (List Char)) :=
  if r.methods.all fun methods => decide (method ∈ methods) then fits r.template (pieces path)
  else none

def Route.covers (r : Route E) (path : List Char) : Bool :=
  (fits r.template (pieces path)).isSome

/-- With the slash at the end that is too much, or that is missing. -/
def slashed (path : List Char) : List Char :=
  if path.getLast? = some '/' then (path.reverse.dropWhile (· == '/')).reverse else path ++ ['/']

def dispatch (routes : List (Route E)) (method : String) (path : List Char) : Dispatch E :=
  match routes.findSome? fun r => (r.takes method path).map fun params => (r.endpoint, params) with
  | some (endpoint, params) => .handled endpoint params
  | none =>
    if routes.any fun r => r.covers path then .methodNotAllowed
    else if path ≠ ['/'] ∧ routes.any fun r => r.covers (slashed path) then
      .redirect (slashed path)
    else .notFound

/-! ## Paths -/

theorem pieces_ne_nil (s : List Char) : pieces s ≠ [] := by
  induction s with
  | nil => exact List.cons_ne_nil _ _
  | cons c s ih =>
    unfold pieces
    split
    · exact List.cons_ne_nil _ _
    · split
      · exact List.cons_ne_nil _ _
      · exact List.cons_ne_nil _ _

theorem pieces_slash (s : List Char) : pieces ('/' :: s) = [] :: pieces s := by
  rw [pieces, if_pos rfl]

theorem pieces_of_not_mem {p : List Char} (h : '/' ∉ p) : pieces p = [p] := by
  induction p with
  | nil => rfl
  | cons c p ih =>
    rw [List.mem_cons, not_or] at h
    obtain ⟨hc, hp⟩ := h
    rw [pieces, if_neg (Ne.symm hc), ih hp]

theorem pieces_append {p : List Char} (h : '/' ∉ p) (s : List Char) :
    pieces (p ++ '/' :: s) = p :: pieces s := by
  induction p with
  | nil => exact pieces_slash s
  | cons c p ih =>
    rw [List.mem_cons, not_or] at h
    obtain ⟨hc, hp⟩ := h
    rw [List.cons_append, pieces, if_neg (Ne.symm hc), ih hp]

theorem pieces_joined {ps : List (List Char)} (some_ : ps ≠ []) (plain : ∀ p ∈ ps, '/' ∉ p) :
    pieces (joined ps) = ps := by
  induction ps with
  | nil => exact absurd rfl some_
  | cons p ps ih =>
    have here := plain p List.mem_cons_self
    cases ps with
    | nil => exact pieces_of_not_mem here
    | cons q qs =>
      rw [joined, pieces_append here, ih (List.cons_ne_nil q qs)
        fun r hr => plain r (List.mem_cons_of_mem p hr)]
      exact List.cons_ne_nil q qs

theorem joined_pieces (s : List Char) : joined (pieces s) = s := by
  induction s with
  | nil => rfl
  | cons c s ih =>
    obtain ⟨p, ps, eq⟩ := List.exists_cons_of_ne_nil (pieces_ne_nil s)
    unfold pieces
    split
    · rename_i slash
      rw [eq] at ih ⊢
      rw [joined, List.nil_append, ih, slash]
      exact List.cons_ne_nil p ps
    · rw [eq] at ih ⊢
      cases ps with
      | nil => exact congrArg (c :: ·) ih
      | cons q qs =>
        rw [joined] at ih ⊢
        · exact congrArg (c :: ·) ih
        · exact List.cons_ne_nil q qs
        · exact List.cons_ne_nil q qs

/-! ## Templates -/

theorem fits_lit_cons (p : List Char) (template : List Segment) (ps : List (List Char)) :
    fits (.lit p :: template) (p :: ps) = fits template ps := by
  rw [fits]
  exact if_pos (Or.inl rfl)

/-- A path fits a template without parameters if it is the same, or that and a newline. -/
theorem fits_lit {texts ps params : List (List Char)}
    (h : fits (texts.map .lit) ps = some params) :
    params = [] ∧ (joined ps = joined texts ∨ joined ps = joined texts ++ ['\n']) := by
  induction texts generalizing ps with
  | nil =>
    cases ps with
    | nil =>
      cases h
      exact ⟨rfl, Or.inl rfl⟩
    | cons p ps => cases h
  | cons text texts ih =>
    cases ps with
    | nil => cases h
    | cons p ps =>
      rw [List.map_cons, fits] at h
      split at h
      · rename_i here
        obtain ⟨none, later⟩ := ih h
        refine ⟨none, ?_⟩
        rcases here with rfl | ⟨⟨last, last'⟩, rfl⟩
        · cases texts with
          | nil =>
            cases ps with
            | nil => exact Or.inl rfl
            | cons => cases h
          | cons text' texts =>
            cases ps with
            | nil => cases h
            | cons q qs =>
              simp only [joined] at later ⊢
              rcases later with later | later
              · exact Or.inl (by rw [later])
              · exact Or.inr (by rw [later, List.append_assoc, List.cons_append])
        · rw [List.map_eq_nil_iff] at last
          subst last last'
          exact Or.inr rfl
      · cases h

theorem dispatch_handled {routes : List (Route E)} {method : String} {path : List Char}
    {endpoint : E} {params : List (List Char)} :
    dispatch routes method path = .handled endpoint params ↔
      (routes.findSome? fun r => (r.takes method path).map fun params => (r.endpoint, params)) =
        some (endpoint, params) := by
  unfold dispatch
  split
  · rename_i found
    rw [found, Option.some.injEq, Prod.mk.injEq, Dispatch.handled.injEq]
  · rename_i none
    rw [none]
    split
    · exact ⟨fun h => (nomatch h), fun h => (nomatch h)⟩
    · split
      · exact ⟨fun h => (nomatch h), fun h => (nomatch h)⟩
      · exact ⟨fun h => (nomatch h), fun h => (nomatch h)⟩

/-- The request is handled by a route that takes it. -/
theorem takes_of_handled {routes : List (Route E)} {method : String} {path : List Char}
    {endpoint : E} {params : List (List Char)}
    (h : dispatch routes method path = .handled endpoint params) :
    ∃ r ∈ routes, r.endpoint = endpoint ∧ r.takes method path = some params := by
  obtain ⟨r, hr, taken⟩ := List.exists_of_findSome?_eq_some (dispatch_handled.mp h)
  obtain ⟨params', taken, same⟩ := Option.map_eq_some_iff.mp taken
  cases same
  exact ⟨r, hr, rfl, taken⟩

theorem Route.takes_eq_some {r : Route E} {method : String} {path : List Char}
    {params : List (List Char)} : r.takes method path = some params ↔
      (∀ methods, r.methods = some methods → method ∈ methods) ∧
        fits r.template (pieces path) = some params := by
  have all : (r.methods.all fun methods => decide (method ∈ methods)) = true ↔
      ∀ methods, r.methods = some methods → method ∈ methods := by
    cases r.methods with
    | none => exact ⟨fun _ _ h => (nomatch h), fun _ => rfl⟩
    | some methods => simp
  rw [Route.takes]
  split
  · rename_i taken
    exact ⟨fun h => ⟨all.mp taken, h⟩, fun h => h.2⟩
  · rename_i left_
    exact ⟨fun h => (nomatch h), fun h => absurd (all.mpr h.1) left_⟩

theorem untilNewline_isSome {p : List Char} : (untilNewline p).isSome ↔
    (p.dropWhile fun c => c != '\n') = [] ∨ (p.dropWhile fun c => c != '\n') = ['\n'] := by
  unfold untilNewline
  split
  · rename_i none
    exact ⟨fun _ => Or.inl none, fun _ => rfl⟩
  · rename_i last
    exact ⟨fun _ => Or.inr last, fun _ => rfl⟩
  · rename_i more notLast
    exact ⟨Bool.noConfusion, fun or => (or.elim more notLast).elim⟩

theorem untilNewline_append {p q : List Char} (h : (untilNewline (p ++ q)).isSome) :
    (untilNewline q).isSome := by
  rw [untilNewline_isSome] at h ⊢
  induction p with
  | nil => exact h
  | cons c p ih =>
    by_cases newline : c = '\n'
    · subst newline
      rw [List.cons_append, List.dropWhile_cons_of_neg (by decide)] at h
      rcases h with h | h
      · cases h
      · rw [(List.append_eq_nil_iff.mp (List.cons.inj h).2).2]
        exact Or.inl rfl
    · rw [List.cons_append, List.dropWhile_cons_of_pos (by simpa using newline)] at h
      exact ih h

/-! ## Shapes -/

/-- Whether pieces could fit of which some are not known. -/
def couldFit : List Segment → List (Option (List Char)) → Bool
  | [], [] => true
  | .lit text :: template, o :: ps =>
    (o.all fun p => fitsLit text p (template = [] ∧ ps = [])) && couldFit template ps
  | .param :: template, _ :: ps => couldFit template ps
  | [.rest], _ :: _ => true
  | _, _ => false

/-- The pieces are those that are known. -/
def Shaped : List (Option (List Char)) → List (List Char) → Prop :=
  List.Forall₂ fun o p => ∀ q, o = some q → q = p

theorem couldFit_of_fits {template : List Segment} {shape : List (Option (List Char))}
    {ps : List (List Char)} (shaped : Shaped shape ps) (fit : (fits template ps).isSome) :
    couldFit template shape = true := by
  induction template generalizing shape ps with
  | nil =>
    cases shaped with
    | nil => rfl
    | cons => cases fit
  | cons segment template ih =>
    cases shaped with
    | nil => cases segment <;> cases template <;> cases fit
    | @cons o p shape ps here later =>
      cases segment with
      | lit text =>
        rw [fits] at fit
        split at fit
        · rename_i fitted
          rw [couldFit, Bool.and_eq_true]
          refine ⟨?_, ih later fit⟩
          cases o with
          | none => rfl
          | some q =>
            obtain rfl := here q rfl
            have ends : shape = [] ↔ ps = [] := by
              rw [← List.length_eq_zero_iff, later.length_eq, List.length_eq_zero_iff]
            simpa only [Option.all_some, decide_eq_true_eq, ends] using fitted
        · cases fit
      | param =>
        rw [fits] at fit
        split at fit
        · rw [Option.isSome_map] at fit
          exact ih later fit
        · cases fit
      | rest =>
        cases template with
        | nil => rfl
        | cons => cases fit

theorem findSome?_filter {α β : Type} {f : α → Option β} {keep : α → Bool} {l : List α}
    (kept : ∀ a ∈ l, (f a).isSome → keep a = true) : l.findSome? f = (l.filter keep).findSome? f := by
  induction l with
  | nil => rfl
  | cons a l ih =>
    have later := ih fun b hb => kept b (List.mem_cons_of_mem a hb)
    cases found : f a with
    | none =>
      rw [List.findSome?_cons, found, later]
      cases keeps : keep a with
      | true => rw [List.filter_cons_of_pos keeps, List.findSome?_cons, found]
      | false => rw [List.filter_cons_of_neg (by rw [keeps]; exact Bool.false_ne_true)]
    | some b =>
      have keeps := kept a List.mem_cons_self (by rw [found]; rfl)
      rw [List.filter_cons_of_pos keeps, List.findSome?_cons, List.findSome?_cons, found]

/-- Only the routes count that take the method and could fit. -/
theorem dispatch_candidates {E : Type} {routes candidates : List (Route E)} {method : String}
    {path : List Char} {shape : List (Option (List Char))} (shaped : Shaped shape (pieces path))
    (candidate : (routes.filter fun r =>
      (r.methods.all fun methods => decide (method ∈ methods)) && couldFit r.template shape) =
        candidates) {endpoint : E} {params : List (List Char)} :
    dispatch routes method path = .handled endpoint params ↔
      (candidates.findSome? fun r =>
        (r.takes method path).map fun params => (r.endpoint, params)) =
        some (endpoint, params) := by
  rw [dispatch_handled, findSome?_filter, candidate]
  intro r _ taken
  rw [Option.isSome_map, Route.takes] at taken
  split at taken
  · rename_i takes
    rw [takes, Bool.true_and]
    exact couldFit_of_fits shaped taken
  · cases taken

end Routing
