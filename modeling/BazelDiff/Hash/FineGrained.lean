/-
# Repositories hashed target by target

A rule input in an external repository stands for the whole repository unless the user
asked for its targets one by one. The repository is asked for by its apparent or its
canonical name, and a label spells it either way. The names are related through one
apparent name for each canonical name, the smallest.
-/

import BazelDiff.Hash.Inputs
import BazelDiff.Lib.Outcome
import Mathlib.Data.List.DropRight

namespace BazelDiff

open Text Outcome

/-! ## The two readings of a label -/

/-- Leading markers neither move the first separator nor stay in the trimmed repository. -/
theorem splitOnce_trimStart (label : String) :
    splitOnce "//" (trimStart '@' label) =
      (splitOnce "//" label).map fun cut => (trimStart '@' cut.1, cut.2) := by
  have hcut : ∀ chars : List Char, cutList ['/', '/'] (chars.dropWhile (· == '@')) =
      (cutList ['/', '/'] chars).map fun cut => (cut.1.dropWhile (· == '@'), cut.2) := by
    intro chars
    induction chars with
    | nil => rfl
    | cons c rest ih =>
        by_cases hat : c = '@'
        · subst hat
          rw [List.dropWhile_cons_of_pos (by decide), ih, cutList_cons_of_ne (by decide),
            Option.map_map]
          rfl
        · rw [List.dropWhile_cons_of_neg (by simpa using hat)]
          cases hfound : cutList ['/', '/'] (c :: rest) with
          | none => rfl
          | some cut =>
              obtain ⟨before, after⟩ := cut
              have hkept : before.dropWhile (· == '@') = before := by
                cases before with
                | nil => rfl
                | cons first tail =>
                    have hfirst := (List.cons.inj (cutList_eq_some hfound)).1
                    rw [List.dropWhile_cons_of_neg]
                    simpa [← hfirst] using hat
              change some (before, after) = some (before.dropWhile (· == '@'), after)
              rw [hkept]
  have htrim : (trimStart '@' label).toList = label.toList.dropWhile (· == '@') := by
    rw [trimStart, String.toList_ofList]
  have hsep : ("//" : String).toList = ['/', '/'] := rfl
  rw [splitOnce, splitOnce, htrim, hsep, hcut, Option.map_map, Option.map_map]
  congr 1
  funext cut
  simp [trimStart]

/-- The repository of a label has no marker in front. -/
theorem trimStart_externalLabelParts {label name target : String} {canonical : Bool}
    (h : externalLabelParts label = some (canonical, name, target)) :
    trimStart '@' name = name := by
  obtain ⟨rest, -, h⟩ := Option.bind_eq_some_iff.mp h
  obtain ⟨⟨name', target'⟩, hsplit, h⟩ := Option.bind_eq_some_iff.mp h
  cases h
  rw [splitOnce_trimStart] at hsplit
  obtain ⟨⟨repo, target''⟩, -, hpair⟩ := Option.map_eq_some_iff.mp hsplit
  cases hpair
  rw [trimStart, trimStart, String.toList_ofList, List.dropWhile_idempotent]

/-- The name of the node a repository stands for, as a label spells it. -/
def spelledNode (nodes : StringMap String) (canonical : Bool) (name : String) : String :=
  if canonical then (nodes[name]?).getD name else name

/-- A repository is spelled with a second marker exactly when the label is. -/
theorem hasPrefix_repo {label rest repo target : String} (hmain : isMainRepo label = false)
    (hlabel : label.toList = '@' :: rest.toList) (hrepo : splitOnce "//" label = some (repo, target)) :
    hasPrefix "@@" repo = hasPrefix "@" rest := by
  obtain ⟨⟨before, after⟩, hcut, hpair⟩ := Option.map_eq_some_iff.mp hrepo
  cases hpair
  have htext : '@' :: rest.toList = before ++ ['/', '/'] ++ after := by
    rw [← hlabel]
    exact cutList_eq_some hcut
  have hsingle : before ≠ ['@'] := by
    intro hbefore
    rw [hbefore, ← hlabel] at htext
    have hhead : hasPrefix "@//" label = true := (hasPrefix_iff _ _).mpr ⟨after, htext⟩
    simp [isMainRepo, hhead] at hmain
  cases before with
  | nil => simp at htext
  | cons first before =>
      cases before with
      | nil =>
          have hfirst : '@' = first := (List.cons.inj htext).1
          exact absurd (by rw [hfirst]) hsingle
      | cons second before =>
          have hfirst : '@' = first := (List.cons.inj htext).1
          have hrest : rest.toList = second :: (before ++ ['/', '/'] ++ after) :=
            (List.cons.inj htext).2
          rw [hasPrefix, hasPrefix, String.toList_ofList, hrest, ← hfirst]
          simp [List.isPrefixOf]

/-- The source reading and the input reading of an external label agree. -/
theorem externalInputRepo_of_parts {label name target : String} {canonical : Bool}
    (nodes : StringMap String) (hmain : isMainRepo label = false)
    (h : externalLabelParts label = some (canonical, name, target)) :
    externalInputRepo label nodes = some (name, spelledNode nodes canonical name) := by
  obtain ⟨rest, hrest, h⟩ := Option.bind_eq_some_iff.mp h
  obtain ⟨⟨name', target'⟩, hsplit, h⟩ := Option.bind_eq_some_iff.mp h
  cases h
  have hlabel : label.toList = '@' :: rest.toList := (stripPrefix_eq_some_iff _ _ _).mp hrest
  have hat : hasPrefix "@" label = true := by
    rw [← stripPrefix_isSome, hrest]
    rfl
  have htrim : trimStart '@' label = trimStart '@' rest := by
    simp [trimStart, hlabel]
  rw [← htrim, splitOnce_trimStart] at hsplit
  obtain ⟨⟨repo, target''⟩, hrepo, hpair⟩ := Option.map_eq_some_iff.mp hsplit
  cases hpair
  have hcanonical : hasPrefix "@@" repo = hasPrefix "@" rest :=
    hasPrefix_repo hmain hlabel hrepo
  rw [externalInputRepo]
  simp only [hmain, hat, Bool.not_true, Bool.or_false, Bool.false_eq_true, if_false, hrepo,
    Option.pure_def, Option.bind_eq_bind, Option.bind_some, hcanonical, spelledNode]

/-! ## One apparent name for a repository -/

/-- `name` is the smallest apparent name the entries give the repository `canonical`. -/
def IsSmallestName (entries : List (String × String)) (canonical name : String) : Prop :=
  (name, canonical) ∈ entries ∧ ∀ other, (other, canonical) ∈ entries → name ≤ other

/-- One step of the inversion of the mapping. -/
def keepSmallest (nodes : StringMap String) (entry : String × String) : StringMap String :=
  match nodes[entry.2]? with
  | some existing => if existing ≤ entry.1 then nodes else nodes.insert entry.2 entry.1
  | none => nodes.insert entry.2 entry.1

/-- What the inversion has to hold after the entries seen so far. -/
def SmallestSoFar (seen : List (String × String)) (nodes : StringMap String) : Prop :=
  ∀ canonical : String,
    (∀ name, nodes[canonical]? = some name → IsSmallestName seen canonical name) ∧
      (nodes[canonical]? = none → ∀ other, (other, canonical) ∉ seen)

theorem getElem?_keepSmallest_of_ne (nodes : StringMap String) (entry : String × String)
    {canonical : String} (h : entry.2 ≠ canonical) :
    (keepSmallest nodes entry)[canonical]? = nodes[canonical]? := by
  have hinsert : (nodes.insert entry.2 entry.1)[canonical]? = nodes[canonical]? := by
    rw [Std.ExtTreeMap.getElem?_insert, if_neg]
    exact fun heq => h (Std.LawfulEqCmp.compare_eq_iff_eq.mp heq)
  rw [keepSmallest]
  split
  · split_ifs
    · rfl
    · exact hinsert
  · exact hinsert

theorem smallestSoFar_keepSmallest {seen : List (String × String)} {nodes : StringMap String}
    (entry : String × String) (h : SmallestSoFar seen nodes) :
    SmallestSoFar (seen ++ [entry]) (keepSmallest nodes entry) := by
  intro canonical
  obtain ⟨apparent, mapped⟩ := entry
  by_cases hmapped : mapped = canonical
  · subst hmapped
    have hsmallest : ∃ name, (keepSmallest nodes (apparent, mapped))[mapped]? = some name ∧
        IsSmallestName (seen ++ [(apparent, mapped)]) mapped name := by
      cases hnode : nodes[mapped]? with
      | none =>
          refine ⟨apparent, by simp [keepSmallest, hnode], by simp, fun other hother => ?_⟩
          rcases List.mem_append.mp hother with hseen | hlast
          · exact absurd hseen ((h mapped).2 hnode other)
          · rw [(Prod.mk.inj (List.mem_singleton.mp hlast)).1]
      | some existing =>
          obtain ⟨hexisting, hleast⟩ := (h mapped).1 existing hnode
          by_cases hle : existing ≤ apparent
          · refine ⟨existing, by simp [keepSmallest, hnode, hle],
              List.mem_append_left _ hexisting, fun other hother => ?_⟩
            rcases List.mem_append.mp hother with hseen | hlast
            · exact hleast other hseen
            · rw [(Prod.mk.inj (List.mem_singleton.mp hlast)).1]
              exact hle
          · refine ⟨apparent, by simp [keepSmallest, hnode, hle], by simp, fun other hother => ?_⟩
            rcases List.mem_append.mp hother with hseen | hlast
            · exact (le_of_not_ge hle).trans (hleast other hseen)
            · rw [(Prod.mk.inj (List.mem_singleton.mp hlast)).1]
    obtain ⟨name, hname, hleast⟩ := hsmallest
    rw [hname]
    exact ⟨fun other hother => Option.some.inj hother ▸ hleast, fun hnone => nomatch hnone⟩
  · have hmem : ∀ other, (other, canonical) ∈ seen ++ [(apparent, mapped)] ↔
        (other, canonical) ∈ seen := by
      intro other
      simp [Ne.symm hmapped]
    rw [getElem?_keepSmallest_of_ne nodes (apparent, mapped) hmapped]
    constructor
    · intro name hname
      obtain ⟨hin, hleast⟩ := (h canonical).1 name hname
      exact ⟨(hmem name).mpr hin, fun other hother => hleast other ((hmem other).mp hother)⟩
    · intro hnone other hother
      exact (h canonical).2 hnone other ((hmem other).mp hother)

theorem smallestSoFar_foldl {seen : List (String × String)} {nodes : StringMap String}
    (entries : List (String × String)) (h : SmallestSoFar seen nodes) :
    SmallestSoFar (seen ++ entries) (entries.foldl keepSmallest nodes) := by
  induction entries generalizing seen nodes with
  | nil => simpa using h
  | cons entry rest ih =>
      have hrest := ih (smallestSoFar_keepSmallest entry h)
      rwa [List.append_assoc] at hrest

/-- The node of a repository is its smallest apparent name. -/
theorem canonicalRepoNodes_eq_some_iff (resolver : ExternalRepoResolver) (canonical name : String) :
    resolver.canonicalRepoNodes[canonical]? = some name ↔
      resolver.repoMapping[name]? = some canonical ∧
        ∀ other : String, resolver.repoMapping[other]? = some canonical → name ≤ other := by
  have hempty : SmallestSoFar [] ∅ := by
    intro repo
    constructor
    · intro name hname
      simp at hname
    · intro _ other
      simp
  have hnodes : SmallestSoFar resolver.repoMapping.toList resolver.canonicalRepoNodes :=
    smallestSoFar_foldl _ hempty
  have hmem : ∀ other : String, (other, canonical) ∈ resolver.repoMapping.toList ↔
      resolver.repoMapping[other]? = some canonical := fun other =>
    Std.ExtTreeMap.mem_toList_iff_getElem?_eq_some
  have hsmallest : IsSmallestName resolver.repoMapping.toList canonical name ↔
      resolver.repoMapping[name]? = some canonical ∧
        ∀ other : String, resolver.repoMapping[other]? = some canonical → name ≤ other := by
    rw [IsSmallestName, hmem]
    simp only [hmem]
  rw [← hsmallest]
  constructor
  · exact (hnodes canonical).1 name
  · intro hname
    cases hnode : resolver.canonicalRepoNodes[canonical]? with
    | none => exact absurd hname.1 ((hnodes canonical).2 hnode name)
    | some existing =>
        obtain ⟨hin, hleast⟩ := (hnodes canonical).1 existing hnode
        rw [le_antisymm (hleast name hname.1) (hname.2 existing hin)]

/-! ## Labels that name one repository -/

/-- The label lies in the external repository `repo`, named canonically or by one of its
apparent names. -/
def NamesRepository (resolver : ExternalRepoResolver) (repo label : String) : Prop :=
  isMainRepo label = false ∧ ∃ canonical name target,
    externalLabelParts label = some (canonical, name, target) ∧
      (canonical = true ∧ name = repo ∨
        canonical = false ∧ resolver.repoMapping[name]? = some repo)

/-- The label names the repository canonically or by the smallest of its apparent names. -/
def NamesRepositoryNode (resolver : ExternalRepoResolver) (repo label : String) : Prop :=
  isMainRepo label = false ∧ ∃ canonical name target,
    externalLabelParts label = some (canonical, name, target) ∧
      (canonical = true ∧ name = repo ∨
        canonical = false ∧ resolver.repoMapping[name]? = some repo ∧
          ∀ other : String, resolver.repoMapping[other]? = some repo → name ≤ other)

/-- Whether a rule input stays as it is. -/
def KeepsInput (resolver : ExternalRepoResolver) (fineGrainedRepos : StringSet) (label : String) :
    Prop :=
  transformExternalInput label fineGrainedRepos resolver.canonicalRepoNodes = label

instance (resolver : ExternalRepoResolver) (fineGrainedRepos : StringSet) (label : String) :
    Decidable (KeepsInput resolver fineGrainedRepos label) :=
  inferInstanceAs (Decidable (_ = _))

/-- An external input is kept exactly when its repository is hashed target by target. -/
theorem keepsInput_iff {resolver : ExternalRepoResolver} {fineGrainedRepos : StringSet}
    {label name target : String} {canonical : Bool} (hmain : isMainRepo label = false)
    (h : externalLabelParts label = some (canonical, name, target)) :
    KeepsInput resolver fineGrainedRepos label ↔
      namesFineGrainedRepo name (spelledNode resolver.canonicalRepoNodes canonical name)
        fineGrainedRepos resolver.canonicalRepoNodes = true := by
  have hrepo := externalInputRepo_of_parts resolver.canonicalRepoNodes hmain h
  rw [KeepsInput, transformExternalInput, syntheticInput, hrepo]
  cases hfine : namesFineGrainedRepo name
      (spelledNode resolver.canonicalRepoNodes canonical name) fineGrainedRepos
      resolver.canonicalRepoNodes with
  | true => simp [hfine]
  | false =>
      simp only [Option.bind_eq_bind, Option.bind_some, hfine, Bool.false_eq_true, if_false,
        Option.pure_def, Option.getD_some, iff_false]
      intro heq
      have hexternal : isMainRepo ("//external:" ++
          spelledNode resolver.canonicalRepoNodes canonical name) = true := by
        have hhead : hasPrefix "//" ("//external:" ++
            spelledNode resolver.canonicalRepoNodes canonical name) = true := by
          rw [hasPrefix_iff, String.toList_append]
          exact ⟨"external:".toList ++ _, rfl⟩
        simp [isMainRepo, hhead]
      rw [heq, hmain] at hexternal
      exact absurd hexternal (by decide)

/-- A repository is matched under its smallest apparent name as under its canonical name. -/
theorem namesFineGrainedRepo_of_node {nodes : StringMap String} {repo name : String}
    (h : nodes[repo]? = some name) (fineGrainedRepos : StringSet) :
    namesFineGrainedRepo name name fineGrainedRepos nodes =
      namesFineGrainedRepo repo name fineGrainedRepos nodes := by
  rw [namesFineGrainedRepo, namesFineGrainedRepo]
  congr 1
  funext given
  by_cases hgiven : trimStart '@' given = repo
  · simp [hgiven, h]
  · have hne : (trimStart '@' given == repo) = false := by simpa using hgiven
    simp [hne]

/-- A label that names a repository by its node is kept as the canonical name is. -/
theorem keepsInput_iff_of_namesRepositoryNode {resolver : ExternalRepoResolver}
    {fineGrainedRepos : StringSet} {repo label : String}
    (h : NamesRepositoryNode resolver repo label) :
    KeepsInput resolver fineGrainedRepos label ↔
      namesFineGrainedRepo repo (spelledNode resolver.canonicalRepoNodes true repo)
        fineGrainedRepos resolver.canonicalRepoNodes = true := by
  obtain ⟨hmain, canonical, name, target, hparts, hname⟩ := h
  rw [keepsInput_iff hmain hparts]
  rcases hname with ⟨rfl, rfl⟩ | ⟨rfl, hmapped⟩
  · rfl
  · have hnode := (canonicalRepoNodes_eq_some_iff resolver repo name).mpr hmapped
    have hrepo : spelledNode resolver.canonicalRepoNodes true repo = name := by
      rw [spelledNode, if_pos rfl, hnode, Option.getD_some]
    have hself : spelledNode resolver.canonicalRepoNodes false name = name := rfl
    rw [hrepo, hself, namesFineGrainedRepo_of_node hnode]

/-! ## Rule inputs rewritten without the mapping -/

/-! ## Sources -/

namespace SourceHasher

/-- The source is a canonical one that cquery returned and that is looked for on disk first,
and it is there or cannot be inspected. -/
def ReadsDirectly (hasher : SourceHasher) (label : String) (configuredSource : Bool) : Prop :=
  ∃ repo target, externalLabelParts label = some (true, repo, target) ∧
    configuredSource = true ∧ repo ≠ "" ∧ hasher.tree = none ∧ hasher.contentHashes = none ∧
      hasher.modifiedFilepaths = [] ∧
      hasher.resolveConfigured label
        (UnixPath.join (UnixPath.join "external" repo) (externalLabelPath target)) ≠ .ok none

/-- The source side matches a repository as the input side does. -/
theorem isFineGrained_eq (hasher : SourceHasher) (canonical : Bool) (repo : String)
    (hrepo : trimStart '@' repo = repo) :
    hasher.isFineGrained canonical repo =
      namesFineGrainedRepo repo
        (spelledNode hasher.externalResolver.canonicalRepoNodes canonical repo)
        hasher.fineGrainedExternalRepos hasher.externalResolver.canonicalRepoNodes := by
  have hcontains : hasher.fineGrainedExternalRepos.contains repo = true →
      namesFineGrainedRepo repo
        (spelledNode hasher.externalResolver.canonicalRepoNodes canonical repo)
        hasher.fineGrainedExternalRepos hasher.externalResolver.canonicalRepoNodes = true := by
    intro hmem
    rw [namesFineGrainedRepo, List.any_eq_true]
    refine ⟨repo, ?_, by simp [hrepo]⟩
    simpa using hmem
  have hnonempty : namesFineGrainedRepo repo
        (spelledNode hasher.externalResolver.canonicalRepoNodes canonical repo)
        hasher.fineGrainedExternalRepos hasher.externalResolver.canonicalRepoNodes = true →
      hasher.fineGrainedExternalRepos.isEmpty = false := by
    intro hnames
    obtain ⟨given, hgiven, -⟩ := List.any_eq_true.mp hnames
    rw [← Bool.not_eq_true]
    intro hempty
    rw [← Std.ExtTreeSet.isEmpty_toList, List.isEmpty_iff] at hempty
    simp [hempty] at hgiven
  rw [isFineGrained, Bool.eq_iff_iff]
  constructor
  · intro hfine
    rcases Bool.or_eq_true_iff.mp hfine with hmem | hnames
    · exact hcontains hmem
    · exact (Bool.and_eq_true_iff.mp hnames).2
  · intro hnames
    rw [Bool.or_eq_true_iff, Bool.and_eq_true_iff, hnonempty hnames]
    exact Or.inr ⟨rfl, hnames⟩

/-- The last step of resolving an external source, after the direct reading found nothing. -/
theorem resolve_of_not_direct {hasher : SourceHasher} {label name target : String}
    {canonical configuredSource : Bool} (hmain : isMainRepo label = false)
    (hparts : externalLabelParts label = some (canonical, name, target))
    (hdirect : ¬ hasher.ReadsDirectly label configuredSource) :
    hasher.resolve label configuredSource = .ok none ↔
      hasher.isFineGrained canonical name = false := by
  have hpath : mainRepoPath label = none := by
    rw [← Option.not_isSome_iff_eq_none, ← isMainRepo_iff_mainRepoPath, hmain]
    decide
  have hrest : ∀ h : Result (Option (String × String × Bool)), h = (do
      if !hasher.isFineGrained canonical name then return none
      let root ← hasher.externalResolver.resolve hasher.disk name
      let path := UnixPath.join root (externalLabelPath target)
      let file ← hasher.inspectScoped label path name
      return some (path, UnixPath.join (UnixPath.join "external" name) (externalLabelPath target),
        file)) → (h = .ok none ↔ hasher.isFineGrained canonical name = false) := by
    rintro _ rfl
    cases hfine : hasher.isFineGrained canonical name with
    | false => simp [pure, Except.pure]
    | true =>
        simp only [Bool.true_eq_false, iff_false]
        intro h
        obtain ⟨root, -, h⟩ := bind_eq_ok h
        obtain ⟨file, -, h⟩ := bind_eq_ok h
        exact nomatch Except.ok.inj h
  apply hrest
  rw [resolve]
  simp only [hpath, hparts]
  by_cases htried : configuredSource ∧ canonical ∧ name ≠ "" ∧ hasher.tree.isNone ∧
      hasher.contentHashes.isNone ∧ hasher.modifiedFilepaths.isEmpty
  · have hnone : hasher.resolveConfigured label
        (UnixPath.join (UnixPath.join "external" name) (externalLabelPath target)) = .ok none := by
      by_contra hfound
      obtain ⟨hconfigured, rfl, hname, htree, hcontent, hmodified⟩ := htried
      exact hdirect ⟨name, target, hparts, hconfigured, hname, Option.isNone_iff_eq_none.mp htree,
        Option.isNone_iff_eq_none.mp hcontent, List.isEmpty_iff.mp hmodified, hfound⟩
    rw [if_pos htried, hnone]
    rfl
  · rw [if_neg htried]
    rfl

/-- A canonical source that cquery found on disk is never left out. -/
theorem resolve_ne_none_of_direct {hasher : SourceHasher} {label : String} {configuredSource : Bool}
    (hmain : isMainRepo label = false) (hdirect : hasher.ReadsDirectly label configuredSource) :
    hasher.resolve label configuredSource ≠ .ok none := by
  obtain ⟨name, target, hparts, hconfigured, hname, htree, hcontent, hmodified, hfound⟩ := hdirect
  have hpath : mainRepoPath label = none := by
    rw [← Option.not_isSome_iff_eq_none, ← isMainRepo_iff_mainRepoPath, hmain]
    decide
  intro h
  rw [resolve] at h
  simp only [hpath, hparts] at h
  rw [if_pos ⟨hconfigured, trivial, hname, by simp [htree], by simp [hcontent],
    by simp [hmodified]⟩] at h
  obtain ⟨direct, hread, h⟩ := bind_eq_ok h
  cases direct with
  | none => exact hfound hread
  | some found => exact nomatch Except.ok.inj h

/-- A source is left out exactly when its repository is rewritten as a whole and cquery did
not find it on disk. -/
theorem resolve_eq_none_iff {hasher : SourceHasher} {label : String} {configuredSource : Bool}
    {repo : String} (h : NamesRepository hasher.externalResolver repo label) :
    hasher.resolve label configuredSource = .ok none ↔
      ¬ KeepsInput hasher.externalResolver hasher.fineGrainedExternalRepos label ∧
        ¬ hasher.ReadsDirectly label configuredSource := by
  obtain ⟨hmain, canonical, name, target, hparts, -⟩ := h
  by_cases hdirect : hasher.ReadsDirectly label configuredSource
  · exact iff_of_false (resolve_ne_none_of_direct hmain hdirect) fun hnot => hnot.2 hdirect
  · rw [resolve_of_not_direct hmain hparts hdirect, keepsInput_iff hmain hparts,
      isFineGrained_eq hasher canonical name (trimStart_externalLabelParts hparts),
      Bool.not_eq_true]
    exact ⟨fun hfine => ⟨hfine, hdirect⟩, fun hfine => hfine.1⟩

end SourceHasher

/-! ## The two sides agree on every spelling -/

/-- Two labels of one repository, each by the canonical name or by the smallest apparent name,
are kept or rewritten together; and a source under any of its names is left out exactly when
such an input is rewritten, unless cquery reads the source directly. -/
theorem fineGrained_agrees_on_spellings (hasher : SourceHasher) (repo : String) :
    (∀ label other, NamesRepositoryNode hasher.externalResolver repo label →
      NamesRepositoryNode hasher.externalResolver repo other →
        (KeepsInput hasher.externalResolver hasher.fineGrainedExternalRepos label ↔
          KeepsInput hasher.externalResolver hasher.fineGrainedExternalRepos other)) ∧
    ∀ label configuredSource, NamesRepository hasher.externalResolver repo label →
      (hasher.resolve label configuredSource = .ok none ↔
        ¬ KeepsInput hasher.externalResolver hasher.fineGrainedExternalRepos label ∧
          ¬ hasher.ReadsDirectly label configuredSource) := by
  constructor
  · intro label other hlabel hother
    rw [keepsInput_iff_of_namesRepositoryNode hlabel, keepsInput_iff_of_namesRepositoryNode hother]
  · intro label configuredSource hlabel
    exact SourceHasher.resolve_eq_none_iff hlabel

/-- A workspace that asks for the targets of `@crates` one by one; the repository is mapped
under the names `crates` and `vendored`. Every path of the disk is the same. -/
def cratesHasher (files : Except IoError Metadata) : SourceHasher where
  workspace := "/w"
  tree := none
  contentHashes := none
  modifiedFilepaths := []
  fineGrainedExternalRepos := Std.ExtTreeSet.ofList ["@crates"]
  externalResolver :=
    { outputBase := "/o"
      repoMapping := Std.ExtTreeMap.ofList
        [("crates", "rules_rs++crate+crates"), ("other", "other+"),
          ("vendored", "rules_rs++crate+crates")] }
  disk := { metadata := fun _ => files, read := fun _ => .ok [], walk := fun _ => .ok [] }

theorem fineGrained_agrees_on_crates :
    (KeepsInput (cratesHasher (.error .notFound)).externalResolver
        (cratesHasher (.error .notFound)).fineGrainedExternalRepos "@crates//:anyhow" ↔
      KeepsInput (cratesHasher (.error .notFound)).externalResolver
        (cratesHasher (.error .notFound)).fineGrainedExternalRepos
        "@@rules_rs++crate+crates//:anyhow") ∧
    ((cratesHasher (.error .notFound)).resolve "@crates//:lib.rs" false = .ok none ↔
      ¬ KeepsInput (cratesHasher (.error .notFound)).externalResolver
          (cratesHasher (.error .notFound)).fineGrainedExternalRepos "@crates//:lib.rs" ∧
        ¬ (cratesHasher (.error .notFound)).ReadsDirectly "@crates//:lib.rs" false) := by
  have hnode : (cratesHasher (.error .notFound)).externalResolver.canonicalRepoNodes[
      "rules_rs++crate+crates"]? = some "crates" := by decide +kernel
  have happarent := (canonicalRepoNodes_eq_some_iff _ _ _).mp hnode
  have hagree := fineGrained_agrees_on_spellings (cratesHasher (.error .notFound))
    "rules_rs++crate+crates"
  constructor
  · apply hagree.1
    · exact ⟨by decide +kernel, false, "crates", ":anyhow", by decide +kernel,
        Or.inr ⟨rfl, happarent⟩⟩
    · exact ⟨by decide +kernel, true, "rules_rs++crate+crates", ":anyhow", by decide +kernel,
        Or.inl ⟨rfl, rfl⟩⟩
  · apply hagree.2
    exact ⟨by decide +kernel, false, "crates", ":lib.rs", by decide +kernel,
      Or.inr ⟨rfl, happarent.1⟩⟩

/-- The user's name for a repository does not reach its other apparent names, and cquery reads
a canonical source of a repository that is rewritten as a whole. -/
theorem fineGrained_misses_second_name :
    (NamesRepository (cratesHasher (.error .notFound)).externalResolver
        "rules_rs++crate+crates" "@crates//:anyhow" ∧
      NamesRepository (cratesHasher (.error .notFound)).externalResolver
        "rules_rs++crate+crates" "@vendored//:anyhow" ∧
      KeepsInput (cratesHasher (.error .notFound)).externalResolver
        (cratesHasher (.error .notFound)).fineGrainedExternalRepos "@crates//:anyhow" ∧
      ¬ KeepsInput (cratesHasher (.error .notFound)).externalResolver
        (cratesHasher (.error .notFound)).fineGrainedExternalRepos "@vendored//:anyhow") ∧
    (NamesRepository (cratesHasher (.ok ⟨true, false, false⟩)).externalResolver
        "other+" "@@other+//:lib.rs" ∧
      (cratesHasher (.ok ⟨true, false, false⟩)).resolve "@@other+//:lib.rs" true =
        .ok (some ("/o/external/other+/lib.rs", "external/other+/lib.rs", true)) ∧
      ¬ KeepsInput (cratesHasher (.ok ⟨true, false, false⟩)).externalResolver
        (cratesHasher (.ok ⟨true, false, false⟩)).fineGrainedExternalRepos
        "@@other+//:lib.rs") := by
  refine ⟨⟨⟨by decide +kernel, false, "crates", ":anyhow", by decide +kernel,
      Or.inr ⟨rfl, by decide +kernel⟩⟩, ⟨by decide +kernel, false, "vendored", ":anyhow",
      by decide +kernel, Or.inr ⟨rfl, by decide +kernel⟩⟩, by decide +kernel, by decide +kernel⟩,
    ⟨by decide +kernel, true, "other+", ":lib.rs", by decide +kernel, Or.inl ⟨rfl, rfl⟩⟩,
    by decide +kernel, by decide +kernel⟩

end BazelDiff
