/-
# The scope of a query

A query may name the files it is about. The key of a scoped entry carries a digest of their
paths, each followed by a newline. A path may contain a newline, and then what the key shows
of a scope is its paths one after another, cut at the newlines in them.
-/

import BazelDiff.Cache

namespace BazelDiff.Server.Scope

open Text HashFunction
open UnixPath (PathSet)

/-! ## Requests -/

/-- The body of a posted query. -/
structure QueryBody where
  fromRev : Option String := none
  toRev : Option String := none
  targetType : Option (List String) := none
  modifiedFilepaths : Option (List String) := none
  profile : Option Bool := none

/-- What a request asks for. -/
structure QueryInputs where
  fromRev : String
  toRev : String
  targetTypes : Option StringSet
  modifiedFilepaths : PathSet
  profile : Bool

/-- A request: the method, what reading its body gives, and the parameters of its URL. -/
structure Request where
  isPost : Bool
  body : Result String
  params : List (String × String)

/-- The last value a parameter is given. -/
def Request.param (request : Request) (name : String) : Option String :=
  (request.params.reverse.find? (·.1 = name)).map Prod.snd

/-- Values without the white space around them, and only those with anything else. -/
def trimmed (values : List String) : List String :=
  (values.map trim).filter (· ≠ "")

def normalizedTypes (types : Option (List String)) : Option StringSet :=
  (types.map fun types => Std.ExtTreeSet.ofList (trimmed types)).filter (!·.isEmpty)

/-- Read a query off a request. `fromStr` reads the JSON of a body. -/
def parseQueryInputs (fromStr : String → Option QueryBody) (request : Request) :
    Result QueryInputs :=
  if request.isPost then do
    let raw ← request.body
    if trim raw = "" then bail "missing JSON body with 'from' and 'to'"
    else
      let body ← okOr "invalid JSON body" (fromStr raw)
      let fromRev ← okOr "missing required fields 'from' and 'to'" (body.fromRev.filter (· ≠ ""))
      let toRev ← okOr "missing required fields 'from' and 'to'" (body.toRev.filter (· ≠ ""))
      return {
        fromRev := fromRev
        toRev := toRev
        targetTypes := normalizedTypes body.targetType
        modifiedFilepaths := PathSet.collect (trimmed (body.modifiedFilepaths.getD []))
        profile := body.profile.getD false }
  else do
    let fromRev ← okOr "missing required query parameters 'from' and 'to'"
      ((request.param "from").filter (· ≠ ""))
    let toRev ← okOr "missing required query parameters 'from' and 'to'"
      ((request.param "to").filter (· ≠ ""))
    return {
      fromRev := fromRev
      toRev := toRev
      targetTypes := normalizedTypes ((request.param "targetType").map (split ','))
      modifiedFilepaths := PathSet.empty
      profile := request.param "profile" = some "true" }

/-! ## Keys of scopes -/

/-- The paths of a scope one after another, cut at the newlines in them. -/
def scopePieces (modified : PathSet) : List String :=
  modified.paths.flatMap (split '\n')

theorem split_ne_nil (c : Char) (s : String) : split c s ≠ [] := by
  rw [split, ne_eq, List.map_eq_nil_iff]
  exact List.splitOn_ne_nil c s.toList

theorem scopePieces_eq_nil_iff (modified : PathSet) :
    scopePieces modified = [] ↔ modified.paths = [] := by
  rw [scopePieces, List.flatMap_eq_nil_iff]
  constructor
  · intro h
    exact List.eq_nil_iff_forall_not_mem.mpr fun path hmem => split_ne_nil '\n' path (h path hmem)
  · intro h path hmem
    rw [h] at hmem
    cases hmem

/-- The bytes of a scope say which pieces its paths have, and nothing else. -/
theorem scopeInput_eq_iff (m₁ m₂ : PathSet) :
    scopeInput m₁ = scopeInput m₂ ↔ scopePieces m₁ = scopePieces m₂ :=
  utf8_ended_eq_iff '\n' m₁.paths m₂.paths

section Keys

variable {D : Type} [HashFunction D] (tree fingerprint : String)

theorem cacheKey_of_nil {m : PathSet} (h : m.paths = []) :
    cacheKey D tree fingerprint m = tree ++ "." ++ fingerprint := by
  rw [cacheKey, h]
  rfl

theorem cacheKey_of_ne_nil {m : PathSet} (h : m.paths ≠ []) :
    cacheKey D tree fingerprint m =
      tree ++ "." ++ fingerprint ++ "." ++ shortHex D (scopeInput m) := by
  rw [cacheKey, if_neg]
  rwa [List.isEmpty_iff]

theorem append_dot_ne (base rest : String) : base ++ "." ++ rest ≠ base := by
  intro h
  have hlength := congrArg (fun text => text.toList.length) h
  simp at hlength

/-- Under one tree and configuration two scopes have one key exactly when their paths have the
same pieces. -/
theorem cacheKey_eq_iff {m₁ m₂ : PathSet}
    (hdigest : shortHex D (scopeInput m₁) = shortHex D (scopeInput m₂) →
      scopeInput m₁ = scopeInput m₂) :
    cacheKey D tree fingerprint m₁ = cacheKey D tree fingerprint m₂ ↔
      scopePieces m₁ = scopePieces m₂ := by
  by_cases h₁ : m₁.paths = [] <;> by_cases h₂ : m₂.paths = []
  · rw [cacheKey_of_nil tree fingerprint h₁, cacheKey_of_nil tree fingerprint h₂,
      (scopePieces_eq_nil_iff m₁).mpr h₁, (scopePieces_eq_nil_iff m₂).mpr h₂]
    exact iff_of_true rfl rfl
  · rw [cacheKey_of_nil tree fingerprint h₁, cacheKey_of_ne_nil tree fingerprint h₂,
      (scopePieces_eq_nil_iff m₁).mpr h₁]
    have hpieces : [] ≠ scopePieces m₂ := fun h => h₂ ((scopePieces_eq_nil_iff m₂).mp h.symm)
    exact iff_of_false (append_dot_ne _ _).symm hpieces
  · rw [cacheKey_of_ne_nil tree fingerprint h₁, cacheKey_of_nil tree fingerprint h₂,
      (scopePieces_eq_nil_iff m₂).mpr h₂]
    have hpieces : scopePieces m₁ ≠ [] := fun h => h₁ ((scopePieces_eq_nil_iff m₁).mp h)
    exact iff_of_false (append_dot_ne _ _) hpieces
  · rw [cacheKey_of_ne_nil tree fingerprint h₁, cacheKey_of_ne_nil tree fingerprint h₂,
      ← scopeInput_eq_iff, String.append_right_inj]
    exact ⟨hdigest, fun h => by rw [h]⟩

/-- Different scopes have different keys exactly when their paths do not have the same pieces.
No digest of 48 bits is injective, so this is asked of it at the two scopes only. -/
theorem scopes_separated_iff (m₁ m₂ : PathSet)
    (hdigest : shortHex D (scopeInput m₁) = shortHex D (scopeInput m₂) →
      scopeInput m₁ = scopeInput m₂) :
    (m₁.elements ≠ m₂.elements →
        cacheKey D tree fingerprint m₁ ≠ cacheKey D tree fingerprint m₂) ↔
      (m₁.elements = m₂.elements ∨ scopePieces m₁ ≠ scopePieces m₂) := by
  rw [ne_eq (cacheKey D tree fingerprint m₁), cacheKey_eq_iff tree fingerprint hdigest,
    ← or_iff_not_imp_left]

end Keys

/-- Two scopes that share a file are told apart. -/
theorem scopes_separated_shared :
    (PathSet.collect ["a", "c"]).elements ≠ (PathSet.collect ["b", "c"]).elements ∧
      cacheKey Preimage "4b825dc6" "0f1e2d3c4b5a" (PathSet.collect ["a", "c"]) ≠
        cacheKey Preimage "4b825dc6" "0f1e2d3c4b5a" (PathSet.collect ["b", "c"]) := by
  have hne : (PathSet.collect ["a", "c"]).elements ≠ (PathSet.collect ["b", "c"]).elements := by
    decide +kernel
  have hpieces : scopePieces (PathSet.collect ["a", "c"]) ≠
      scopePieces (PathSet.collect ["b", "c"]) := by
    decide +kernel
  have hdigest : shortHex Preimage (scopeInput (PathSet.collect ["a", "c"])) ≠
      shortHex Preimage (scopeInput (PathSet.collect ["b", "c"])) := by
    decide +kernel
  exact ⟨hne, (scopes_separated_iff "4b825dc6" "0f1e2d3c4b5a" _ _
    fun h => absurd h hdigest).mpr (Or.inr hpieces) hne⟩

/-- A query about one file, whose name has a newline in it. -/
def foldedBody : QueryBody where
  fromRev := some "v1"
  toRev := some "v2"
  modifiedFilepaths := some ["a\nb"]

/-- A query about two files. -/
def listedBody : QueryBody where
  fromRev := some "v1"
  toRev := some "v2"
  modifiedFilepaths := some ["a", "b"]

/-- One file and two files, and one key. -/
theorem foldedBody_shares_key :
    ∃ folded listed : QueryInputs,
      parseQueryInputs (fun _ => some foldedBody) ⟨true, .ok "folded", []⟩ = .ok folded ∧
      parseQueryInputs (fun _ => some listedBody) ⟨true, .ok "listed", []⟩ = .ok listed ∧
      folded.modifiedFilepaths.elements ≠ listed.modifiedFilepaths.elements ∧
      cacheKey Preimage "4b825dc6" "0f1e2d3c4b5a" folded.modifiedFilepaths =
        cacheKey Preimage "4b825dc6" "0f1e2d3c4b5a" listed.modifiedFilepaths := by
  apply Exists.intro
  apply Exists.intro
  refine ⟨rfl, rfl, ?_, ?_⟩
  · decide +kernel
  · decide +kernel

/-- Scopes without newlines in their paths have the pieces they have as paths, so that different
ones are told apart. -/
theorem scopePieces_ne_of_newlineFree {m₁ m₂ : PathSet} (h₁ : ∀ path ∈ m₁.paths, '\n' ∉ path.toList)
    (h₂ : ∀ path ∈ m₂.paths, '\n' ∉ path.toList) (hne : m₁.elements ≠ m₂.elements) :
    scopePieces m₁ ≠ scopePieces m₂ := by
  rw [scopePieces, scopePieces, flatMap_split_of_notMem h₁, flatMap_split_of_notMem h₂]
  intro hpaths
  apply hne
  show (m₁.paths.map UnixPath.components).toFinset = (m₂.paths.map UnixPath.components).toFinset
  rw [hpaths]

end BazelDiff.Server.Scope
