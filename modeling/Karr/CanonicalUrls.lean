import Karr.AgentUrls
import Karr.Services.Seed

/-!
# The normal form of agent URLs

`validate_agent_url` strips white space before it looks at the URL and slashes
after. Neither strip changes what `urlsplit` sees, so the result is accepted again.
It is the same again unless the slashes covered white space, which then stands at
the end of what is stored.
-/

set_option autoImplicit false

namespace Karr

open Urllib Registrations

variable {checks : Checks} {url stored : String}

/-- What `validate_agent_url` asks of the parts. -/
structure Accepted (parts : SplitResult) : Prop where
  scheme : parts.scheme ∈ ["http".toList, "https".toList]
  host : parts.hostinfo.1 ≠ []
  user : parts.userinfo.1 = []
  password : parts.userinfo.2 = []
  port : parts.port ≠ none
  zero : parts.port ≠ some (some 0)

theorem validateAgentUrl_eq_valid : validateAgentUrl checks url = .valid stored ↔
    ∃ parts, urlsplit checks (Python.stripChars url.toList) = some parts ∧ Accepted parts ∧
      stored = String.ofList (rstripSlash (Python.stripChars url.toList)) := by
  unfold validateAgentUrl
  dsimp only
  cases urlsplit checks (Python.stripChars url.toList) with
  | none => simp
  | some parts =>
    simp only [Option.some.injEq, exists_eq_left']
    split
    · rename_i bad
      refine iff_of_false (by simp) fun h => ?_
      rcases bad with bad | bad
      · exact bad h.1.scheme
      · exact h.1.host bad
    · rename_i ok
      obtain ⟨scheme, host⟩ := not_or.mp ok
      split
      · rename_i bad
        refine iff_of_false (by simp) fun h => ?_
        rcases bad with bad | bad
        · exact bad h.1.user
        · exact bad h.1.password
      · rename_i ok
        obtain ⟨user, password⟩ := not_or.mp ok
        split
        · rename_i none
          exact iff_of_false (by simp) fun h => h.1.port none
        · rename_i zero
          exact iff_of_false (by simp) fun h => h.1.zero zero
        · rename_i port zero hp
          rw [UrlCheck.valid.injEq]
          refine ⟨fun h => ⟨⟨not_not.mp scheme, host, not_not.mp user, not_not.mp password, ?_, ?_⟩,
            h.symm⟩, fun h => h.2.symm⟩
          · simp [hp]
          · simpa [hp] using zero

/-- Nothing but the scheme and the network location is looked at. -/
theorem Accepted.congr {parts parts' : SplitResult} (h : Accepted parts)
    (scheme : parts'.scheme = parts.scheme) (netloc : parts'.netloc = parts.netloc) :
    Accepted parts' := by
  cases parts
  cases parts'
  cases scheme
  cases netloc
  exact ⟨h.scheme, h.host, h.user, h.password, h.port, h.zero⟩

theorem rstripSlash_append (s : List Char) :
    ∃ slashes, s = rstripSlash s ++ slashes ∧ ∀ c ∈ slashes, c = '/' :=
  ⟨s.rtakeWhile (· == '/'), List.rdropWhile_append_rtakeWhile.symm, fun c hc => by
    have other := List.mem_rtakeWhile_imp hc
    simpa using other⟩

theorem rstripSlash_last {s : List Char} {c : Char} (h : (rstripSlash s).getLast? = some c) :
    c ≠ '/' := by
  have other := Python.rdropWhile_last h
  simpa using other

theorem rstripSlash_slashes {s slashes : List Char} {c : Char} (hc : c ≠ '/')
    (h : ∀ x ∈ slashes, x = '/') : rstripSlash (s ++ c :: slashes) = s ++ [c] := by
  have dropped : slashes.reverse.dropWhile (· == '/') = [] :=
    List.dropWhile_eq_nil_iff.mpr fun x hx => by simp [h x (List.mem_reverse.mp hx)]
  rw [rstripSlash, List.append_cons, List.reverse_append, List.dropWhile_append, dropped]
  simp [hc]

/-- A URL as it should be stored. -/
structure Canonical (checks : Checks) (url : String) : Prop where
  head : ∀ c, url.toList.head? = some c → Python.isSpace c = false
  last : ∀ c, url.toList.getLast? = some c → Python.isSpace c = false ∧ c ≠ '/'
  again : validateAgentUrl checks url = .valid url

/-- But for white space at its end, the URL ends in white space and slashes after it. -/
def SpaceBeforeSlashes (url : String) : Prop :=
  ∃ front c slashes back, url.toList = front ++ c :: slashes ++ back ∧
    Python.isSpace c = true ∧ slashes ≠ [] ∧ (∀ x ∈ slashes, x = '/') ∧
    ∀ x ∈ back, Python.isSpace x = true


section Stored
variable {s : List Char}

/-- The end of a stored URL shows what it was stripped from. -/
theorem space_last_iff (h : rstripSlash (Python.stripChars s) ≠ []) :
    (∃ c, (rstripSlash (Python.stripChars s)).getLast? = some c ∧ Python.isSpace c = true) ↔
      ∃ front c slashes back, s = front ++ c :: slashes ++ back ∧
        Python.isSpace c = true ∧ slashes ≠ [] ∧ (∀ x ∈ slashes, x = '/') ∧
        ∀ x ∈ back, Python.isSpace x = true := by
  constructor
  · rintro ⟨c, last, space⟩
    obtain ⟨front, hfront⟩ := List.getLast?_eq_some_iff.mp last
    obtain ⟨slashes, hslashes, only⟩ := rstripSlash_append (Python.stripChars s)
    obtain ⟨lead, back, hs, -, white⟩ := Python.stripChars_append s
    refine ⟨lead ++ front, c, slashes, back, ?_, space, ?_, only, white⟩
    · rw [hs, hslashes, hfront]
      simp
    · -- otherwise the white space would have been stripped
      rintro rfl
      rw [List.append_nil] at hslashes
      rw [← hslashes] at last
      rw [Python.stripChars_last last] at space
      cases space
  · rintro ⟨front, c, slashes, back, rfl, space, some, only, white⟩
    have hc : c ≠ '/' := by
      rintro rfl
      revert space
      decide
    have ends : ∀ x, (front ++ c :: slashes).getLast? = .some x → Python.isSpace x = false := by
      intro x hx
      have hx' : slashes.getLast? = .some x := by
        rw [List.append_cons, List.getLast?_append] at hx
        cases last : slashes.getLast? with
        | none => exact absurd (List.getLast?_eq_none_iff.mp last) some
        | some y => rwa [last] at hx
      rw [only x (List.mem_of_getLast? hx')]
      decide
    rw [Python.stripChars_append_spaces white, Python.stripChars_of_last ends] at h ⊢
    by_cases none : (front.dropWhile Python.isSpace).isEmpty = true
    · -- nothing but slashes is left
      rw [List.dropWhile_append, if_pos none, List.dropWhile_cons_of_pos space] at h
      refine absurd (List.rdropWhile_eq_nil_iff.mpr fun x hx => ?_) h
      simp [only x (List.dropWhile_subset _ hx)]
    · rw [List.dropWhile_append, if_neg none, rstripSlash_slashes hc only]
      exact ⟨c, by simp, space⟩

end Stored

theorem Accepted.unslashed {s : List Char} {parts : SplitResult}
    (h : urlsplit checks s = some parts) (accepted : Accepted parts) :
    rstripSlash s ≠ [] ∧ Accepted (split (rstripSlash s)) ∧
      urlsplit checks (rstripSlash s) = some (split (rstripSlash s)) := by
  obtain ⟨slashes, hslashes, only⟩ := rstripSlash_append s
  obtain ⟨scheme, netloc⟩ := split_append (s := rstripSlash s) only
  rw [← hslashes] at scheme netloc
  unfold urlsplit at h ⊢
  dsimp only at h ⊢
  split at h
  · rename_i passed
    cases h
    rw [netloc] at passed
    refine ⟨fun none => accepted.host ?_, accepted.congr scheme.symm netloc.symm, if_pos passed⟩
    rw [SplitResult.hostinfo, netloc, none]
    rfl
  · cases h

/-- Where no white space stands before the slashes, the stored URL is in normal form. -/
theorem canonical_of_valid (valid : validateAgentUrl checks url = .valid stored)
    (ends : ¬ SpaceBeforeSlashes url) : Canonical checks stored := by
  obtain ⟨parts, hparts, accepted, rfl⟩ := validateAgentUrl_eq_valid.mp valid
  obtain ⟨some, again, hagain⟩ := accepted.unslashed hparts
  rw [SpaceBeforeSlashes, ← space_last_iff some] at ends
  have last (c : Char) (h : (rstripSlash (Python.stripChars url.toList)).getLast? = Option.some c) :
      Python.isSpace c = false :=
    Bool.eq_false_iff.mpr fun space => ends ⟨c, h, space⟩
  have head (c : Char) (h : (rstripSlash (Python.stripChars url.toList)).head? = Option.some c) :
      Python.isSpace c = false := by
    obtain ⟨slashes, hslashes, -⟩ := rstripSlash_append (Python.stripChars url.toList)
    refine Python.stripChars_head (s := url.toList) ?_
    rw [hslashes, List.head?_append, h]
    rfl
  have stripped := Python.stripChars_eq_self head last
  refine ⟨?_, ?_, validateAgentUrl_eq_valid.mpr ⟨_, ?_, again, ?_⟩⟩
  · rwa [String.toList_ofList]
  · rw [String.toList_ofList]
    exact fun c h => ⟨last c h, rstripSlash_last h⟩
  · rw [String.toList_ofList, stripped, hagain]
  · rw [String.toList_ofList, stripped]
    exact congrArg String.ofList (List.rdropWhile_idempotent _ _).symm

/-- A stored URL is in normal form, unless the URL had white space before its slashes. -/
theorem validateAgentUrl_canonical_iff (valid : validateAgentUrl checks url = .valid stored) :
    Canonical checks stored ↔ ¬ SpaceBeforeSlashes url := by
  refine ⟨fun canonical space => ?_, canonical_of_valid valid⟩
  obtain ⟨parts, hparts, accepted, rfl⟩ := validateAgentUrl_eq_valid.mp valid
  obtain ⟨c, last, space⟩ := (space_last_iff (accepted.unslashed hparts).1).mpr space
  have off := (canonical.last c (by rwa [String.toList_ofList])).1
  rw [off] at space
  cases space

/-- Checks that let every host pass. -/
def lenient : Checks := ⟨fun _ => true, id⟩

/-- What a slash alone leaves, and what white space before it does. -/
theorem validateAgentUrl_canonical_iff_slash :
    Canonical lenient "http://10.0.0.2:7777" ∧ ¬ Canonical lenient "http://10.0.0.2:7777/ " := by
  have plain : ¬ SpaceBeforeSlashes " http://10.0.0.2:7777/ " := by
    intro spaced
    obtain ⟨c, last, space⟩ := (space_last_iff (by decide)).mpr spaced
    have digit : (rstripSlash (Python.stripChars " http://10.0.0.2:7777/ ".toList)).getLast? =
        some '7' := by decide
    rw [digit] at last
    cases last
    revert space
    decide
  have spaced : SpaceBeforeSlashes "http://10.0.0.2:7777/ /" :=
    ⟨"http://10.0.0.2:7777/".toList, ' ', ['/'], [], by decide, rfl, List.cons_ne_nil _ _,
      fun _ => List.mem_singleton.mp, List.forall_mem_nil _⟩
  exact ⟨(validateAgentUrl_canonical_iff (by decide)).mpr plain,
    fun canonical => (validateAgentUrl_canonical_iff (by decide)).mp canonical spaced⟩

def AlwaysCanonical : Prop :=
  ∀ (checks : Checks) (url stored : String), validateAgentUrl checks url = .valid stored →
    Canonical checks stored

/-- The blank that the slash had covered is stored, and the next pass takes both it and the slash
before it. -/
theorem not_alwaysCanonical : ¬ AlwaysCanonical ∧
    validateAgentUrl lenient "http://10.0.0.2:7777/ /" = .valid "http://10.0.0.2:7777/ " ∧
    validateAgentUrl lenient "http://10.0.0.2:7777/ " = .valid "http://10.0.0.2:7777" := by
  have first : validateAgentUrl lenient "http://10.0.0.2:7777/ /" =
    .valid "http://10.0.0.2:7777/ " := by decide
  have second : validateAgentUrl lenient "http://10.0.0.2:7777/ " =
    .valid "http://10.0.0.2:7777" := by decide
  refine ⟨fun always => ?_, first, second⟩
  have again := (always lenient _ _ first).again
  rw [second] at again
  exact absurd (UrlCheck.valid.inj again) (by decide)

/-! ## The equality test of the seed -/

section Seed
variable {s : Settings} {db : Db} {token : String}

/-- The URL of a stored agent, in normal form, seeds no second one. -/
theorem ensureDefaultAgent_stored (service : s.validateAgentUrl = validateAgentUrl checks)
    (valid : validateAgentUrl checks url = .valid stored) (ends : ¬ SpaceBeforeSlashes url)
    (known : ∃ a ∈ db.agents, a.url = stored) :
    ensureDefaultAgent s stored token db = (db, some false) := by
  have again : s.validateAgentUrl stored = .valid stored := by
    rw [service]
    exact (canonical_of_valid valid ends).again
  exact ensureDefaultAgent_known again known

end Seed

end Karr
