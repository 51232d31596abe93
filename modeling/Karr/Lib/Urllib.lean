import Karr.Python

/-!
# urllib.parse

`urlsplit` and the parts of a network location as CPython computes them, on the
characters of a text. Its checks of the network location are the only place
where `urlsplit` raises a `ValueError`; what it takes from other modules there,
and what differs between releases, is a parameter.
-/

set_option autoImplicit false

namespace Urllib

/-- `str.partition`: before the first `c`, whether there is one, and after it. -/
def partition (c : Char) : List Char → List Char × Bool × List Char
  | [] => ([], false, [])
  | x :: s => if x = c then ([], true, s) else
    let (before, found, after) := partition c s
    (x :: before, found, after)

/-- `str.rpartition`: the same for the last `c`. -/
def rpartition (c : Char) (s : List Char) : List Char × Bool × List Char :=
  match partition c s.reverse with
  | (after, true, before) => (before.reverse, true, after.reverse)
  | (_, false, _) => ([], false, s)

structure SplitResult where
  scheme : List Char
  netloc : List Char
  path : List Char
  query : List Char
  fragment : List Char
  deriving DecidableEq

/-- `_WHATWG_C0_CONTROL_OR_SPACE` -/
def isControlOrSpace (c : Char) : Bool := c.toNat ≤ 0x20

/-- `_UNSAFE_URL_BYTES_TO_REMOVE` -/
def isUnsafe (c : Char) : Bool := c == '\t' || c == '\r' || c == '\n'

def isSchemeChar (c : Char) : Bool := c.isAlphanum || c == '+' || c == '-' || c == '.'

/-- The scheme in lower case and the rest, when there is one. -/
def splitScheme (url : List Char) : List Char × List Char :=
  match partition ':' url with
  | (scheme, true, rest) =>
    if scheme.head?.any Char.isAlpha && scheme.all isSchemeChar then (scheme.map Char.toLower, rest)
    else ([], url)
  | (_, false, _) => ([], url)

/-- What ends a network location. -/
def isDelimiter (c : Char) : Bool := c == '/' || c == '?' || c == '#'

def splitNetloc : List Char → List Char × List Char
  | '/' :: '/' :: url =>
    (url.takeWhile fun c => !isDelimiter c, url.dropWhile fun c => !isDelimiter c)
  | url => ([], url)

/-- `urlsplit` but for its checks. -/
def split (url : List Char) : SplitResult :=
  let url := (url.dropWhile isControlOrSpace).filter fun c => !isUnsafe c
  let (scheme, url) := splitScheme url
  let (netloc, url) := splitNetloc url
  let (url, _, fragment) := partition '#' url
  let (path, _, query) := partition '?' url
  ⟨scheme, netloc, path, query, fragment⟩

/-- What the checks need: whether a network location with both brackets has a host in them that
is allowed there (`_check_bracketed_host`, and in newer releases nothing beside them), and
`unicodedata.normalize("NFKC", s)`. -/
structure Checks where
  bracketed : List Char → Bool
  nfkc : List Char → List Char

variable (checks : Checks)

def checkBrackets (netloc : List Char) : Bool :=
  if '[' ∈ netloc ∧ ']' ∉ netloc ∨ ']' ∈ netloc ∧ '[' ∉ netloc then false
  else if '[' ∈ netloc ∧ ']' ∈ netloc then checks.bracketed netloc
  else true

/-- `_checknetloc` -/
def checkNetloc (netloc : List Char) : Bool :=
  if netloc.all fun c => decide (c.toNat < 128) then true
  else
    let n := netloc.filter fun c => decide (c ∉ ['@', ':', '#', '?'])
    let normal := checks.nfkc n
    if n = normal then true else ['/', '?', '#', '@', ':'].all fun c => decide (c ∉ normal)

/-- `none` for the `ValueError`. -/
def urlsplit (url : List Char) : Option SplitResult :=
  let parts := split url
  if checkBrackets checks parts.netloc && checkNetloc checks parts.netloc then some parts else none

namespace SplitResult

/-- `username` and `password`, empty where they are `None`. -/
def userinfo (r : SplitResult) : List Char × List Char :=
  match rpartition '@' r.netloc with
  | (userinfo, true, _) => ((partition ':' userinfo).1, (partition ':' userinfo).2.2)
  | (_, false, _) => ([], [])

/-- The host, before `hostname` turns it into lower case, and the port, empty for `None`. -/
def hostinfo (r : SplitResult) : List Char × List Char :=
  let hostinfo := (rpartition '@' r.netloc).2.2
  match partition '[' hostinfo with
  | (_, true, bracketed) =>
    let (host, _, port) := partition ']' bracketed
    (host, (partition ':' port).2.2)
  | (_, false, _) =>
    let (host, _, port) := partition ':' hostinfo
    (host, port)

def isDigit (c : Char) : Bool := '0' ≤ c && c ≤ '9'

/-- `None` is `some none`, and `none` a `ValueError`. -/
def port (r : SplitResult) : Option (Option Nat) :=
  let port := r.hostinfo.2
  if port = [] then some none
  else if port.all isDigit then
    let n := port.foldl (fun n c => 10 * n + (c.toNat - '0'.toNat)) 0
    if port.length ≤ Python.maxStrDigits ∧ n ≤ 65535 then some (some n) else none
  else none

end SplitResult

/-- Both brackets or none; an allowed host in them; and no delimiter that only normalization
would bring about. -/
structure NetlocOk (netloc : List Char) : Prop where
  brackets : '[' ∈ netloc ↔ ']' ∈ netloc
  bracketed : '[' ∈ netloc → checks.bracketed netloc = true
  normal : checkNetloc checks netloc = true

variable {checks} {url : List Char}

theorem checkBrackets_iff {netloc : List Char} : checkBrackets checks netloc = true ↔
    ('[' ∈ netloc ↔ ']' ∈ netloc) ∧ ('[' ∈ netloc → checks.bracketed netloc = true) := by
  unfold checkBrackets
  by_cases left : '[' ∈ netloc <;> by_cases right : ']' ∈ netloc <;> simp [left, right]

theorem urlsplit_eq_some (h : NetlocOk checks (split url).netloc) :
    urlsplit checks url = some (split url) := by
  have brackets := checkBrackets_iff.mpr ⟨h.brackets, h.bracketed⟩
  exact if_pos (by rw [brackets, h.normal]; rfl)

theorem urlsplit_eq_none (h : ¬ NetlocOk checks (split url).netloc) :
    urlsplit checks url = none := by
  refine if_neg fun passed => h ?_
  obtain ⟨brackets, normal⟩ := Bool.and_eq_true_iff.mp passed
  exact ⟨(checkBrackets_iff.mp brackets).1, (checkBrackets_iff.mp brackets).2, normal⟩

/-! ### Slashes at the end -/

theorem partition_of_not_mem {c : Char} {s : List Char} (h : c ∉ s) :
    partition c s = (s, false, []) := by
  induction s with
  | nil => rfl
  | cons x s ih =>
    obtain ⟨hx, hs⟩ := not_or.mp (mt List.mem_cons.mpr h)
    rw [partition, if_neg (Ne.symm hx), ih hs]

theorem partition_append {c : Char} {s t : List Char} (h : c ∉ t) :
    partition c (s ++ t) =
      if (partition c s).2.1 then ((partition c s).1, true, (partition c s).2.2 ++ t)
      else (s ++ t, false, []) := by
  induction s with
  | nil => exact partition_of_not_mem h
  | cons x s ih =>
    by_cases hx : x = c
    · simp [partition, hx]
    · rw [List.cons_append, partition, partition, if_neg hx, if_neg hx, ih]
      cases (partition c s).2.1 <;> rfl

theorem splitScheme_append {s t : List Char} (h : ':' ∉ t) :
    splitScheme (s ++ t) = ((splitScheme s).1, (splitScheme s).2 ++ t) := by
  rw [splitScheme, splitScheme, partition_append h]
  rcases partition ':' s with ⟨scheme, found, rest⟩
  cases found with
  | false => rfl
  | true =>
    simp only [if_true]
    split <;> rfl

theorem splitNetloc_eq (url : List Char) :
    (splitNetloc ('/' :: '/' :: url)).1 = url.takeWhile fun c => !isDelimiter c := rfl

theorem splitNetloc_of_ne {s : List Char} (h : ∀ url, s ≠ '/' :: '/' :: url) :
    splitNetloc s = ([], s) := by
  unfold splitNetloc
  split
  · exact absurd rfl (h _)
  · rfl

theorem takeWhile_slashes {t : List Char} (h : ∀ c ∈ t, c = '/') :
    t.takeWhile (fun c => !isDelimiter c) = [] := by
  cases t with
  | nil => rfl
  | cons x t => rw [h x List.mem_cons_self]; rfl

/-- Slashes at the end are never part of the network location. -/
theorem splitNetloc_append {s t : List Char} (h : ∀ c ∈ t, c = '/') :
    (splitNetloc (s ++ t)).1 = (splitNetloc s).1 := by
  by_cases starts : ∃ url, s = '/' :: '/' :: url
  · obtain ⟨url, rfl⟩ := starts
    rw [List.cons_append, List.cons_append, splitNetloc_eq, splitNetloc_eq, List.takeWhile_append,
      takeWhile_slashes h, List.append_nil]
    split
    · rename_i whole
      exact (List.IsPrefix.eq_of_length (List.takeWhile_prefix _) whole).symm
    · rfl
  · have alone := splitNetloc_of_ne fun url heq => starts ⟨url, heq⟩
    rw [alone]
    by_cases both : ∃ url, s ++ t = '/' :: '/' :: url
    · -- then the whole text is slashes
      obtain ⟨url, heq⟩ := both
      have rest : ∀ c ∈ url, c = '/' := by
        intro c hc
        match s, starts, heq with
        | [], _, heq => exact h c (by rw [List.nil_append] at heq; simp [heq, hc])
        | [x], _, heq => exact h c (by simp at heq; simp [heq, hc])
        | x :: y :: s, starts, heq =>
          simp only [List.cons_append, List.cons.injEq] at heq
          exact absurd ⟨s, by rw [heq.1, heq.2.1]⟩ starts
      rw [heq, splitNetloc_eq, takeWhile_slashes rest]
    · rw [splitNetloc_of_ne fun url heq => both ⟨url, heq⟩]

/-- What `urlsplit` keeps of a text with slashes at the end. -/
theorem split_append {s t : List Char} (h : ∀ c ∈ t, c = '/') :
    (split (s ++ t)).scheme = (split s).scheme ∧ (split (s ++ t)).netloc = (split s).netloc := by
  have clean : ((s ++ t).dropWhile isControlOrSpace).filter (fun c => !isUnsafe c) =
      (s.dropWhile isControlOrSpace).filter (fun c => !isUnsafe c) ++ t := by
    have kept : t.filter (fun c => !isUnsafe c) = t :=
      List.filter_eq_self.mpr fun c hc => by rw [h c hc]; rfl
    have first : t.dropWhile isControlOrSpace = t := by
      cases t with
      | nil => rfl
      | cons x t => rw [h x List.mem_cons_self]; rfl
    rw [List.dropWhile_append]
    split
    · rename_i none
      rw [List.isEmpty_iff.mp none, first, kept]
      rfl
    · rw [List.filter_append, kept]
  have colon : ':' ∉ t := fun hc => absurd (h ':' hc) (by decide)
  unfold split
  dsimp only
  rw [clean, splitScheme_append colon]
  exact ⟨rfl, splitNetloc_append h⟩

end Urllib
