import S4Drive.Library.PathText
import S4Drive.Library.PrunedWalk
import S4Drive.Notes.Backup
import S4Drive.Sync.RemoteChanges

/-
  The filters for paths that are not synced: the one of the
  watcher, the one of the cycle that handles its events, and
  the one of a full scan of the sync folder. The first two
  look at the whole path, the last one only at what is below
  the sync folder, and at each folder before what is in it.

  A scan stops after a number of files; that limit is left
  out.

  Main declarations:
    * `shouldIgnorePath`, `shouldIgnoreSyncPath`
    * `ignoredByEvents`, `scanEntries`
    * `filters_agree_iff`
-/

------------------------------------------------------------
-- Names
------------------------------------------------------------

namespace S4Drive

namespace IgnoreFilters

open PathText (Component EntryName components joinAll
  slashJoin stripPrefix texts)
open RemoteChanges (hiddenPart ignoredEndings ignoredNames)

def hiddenComponent : Component → Bool
  | .normal name => hiddenPart name
  | _ => false

def endsWithAny (endings : List String) (name : Text) : Bool :=
  endings.any fun ending => ending.toList.isSuffixOf name

def isAny (names : List String) (name : Text) : Bool :=
  names.any fun other => other.toList = name

/- `file_name().unwrap_or_default()`. -/
def nameOf (path : Text) : Text :=
  (PathText.fileName path).getD []

def watcherEndings : List String :=
  ["~", ".tmp", ".swp", ".swx"]

def watcherNames : List String :=
  ["Thumbs.db", ".DS_Store", "desktop.ini", "node_modules"]

def shouldIgnorePath (path : Text) : Bool :=
  (components path).any hiddenComponent ||
    ((nameOf path).head? = some '.' &&
      !".s4drive".toList.isPrefixOf (nameOf path)) ||
    endsWithAny watcherEndings (nameOf path) ||
    isAny watcherNames (nameOf path)

------------------------------------------------------------
-- The Engine
------------------------------------------------------------

def forwardSlashes (text : Text) : Text :=
  text.map fun c => if c = '\\' then '/' else c

def normalizedPattern (pattern : Text) : Text :=
  forwardSlashes
    (Conflicts.trimMatches (· = '/')
      (Conflicts.trimMatches isWhitespace pattern))

def matchesPattern (path root pattern : Text) : Bool :=
  let pattern := normalizedPattern pattern
  let normalizedPath := forwardSlashes path
  let relativePath :=
    ((stripPrefix path root).map forwardSlashes).getD
      normalizedPath
  if pattern = [] then
    false
  else if pattern.head? = some '*' then
    match PathText.fileName path with
    | some name => pattern.tail.isSuffixOf name
    | none => false
  else if '/' ∈ pattern then
    relativePath = pattern ||
      (pattern ++ ['/']).isPrefixOf relativePath ||
      ('/' :: pattern).isSuffixOf normalizedPath ||
      containsText normalizedPath ('/' :: pattern ++ ['/'])
  else
    (components path).any fun component =>
      component = .normal pattern

def matchesExcludePattern
    (path root : Text)
    (excludePatterns : List Text) : Bool :=
  excludePatterns.any (matchesPattern path root)

def ignoredName (name : Text) : Bool :=
  name.head? = some '.' || endsWithAny ignoredEndings name ||
    isAny ignoredNames name

def checkRelativePath
    (relative path root : Text)
    (excludePatterns : List Text) : Bool :=
  (components relative).any hiddenComponent ||
    ignoredName (nameOf path) ||
    matchesExcludePattern path root excludePatterns

/- `canonicalize` is what the file system answers. -/
def shouldIgnoreSyncPath
    (canonicalize : Text → Option Text)
    (path root : Text)
    (excludePatterns : List Text) : Bool :=
  let check := fun relative =>
    checkRelativePath relative path root excludePatterns
  if root = [] then
    check path
  else
    match stripPrefix path root with
    | some relative => check relative
    | none =>
        match canonicalize path, canonicalize root with
        | some p, some r =>
            match stripPrefix p r with
            | some relative => check relative
            | none => check path
        | _, _ => check path

def shouldIgnoreSyncWithExcludes
    (canonicalize : Text → Option Text)
    (path : Text)
    (excludePatterns : List Text) : Bool :=
  shouldIgnoreSyncPath canonicalize path [] excludePatterns

/- An event passes the watcher and then the event cycle. -/
def ignoredByEvents
    (canonicalize : Text → Option Text)
    (path : Text)
    (excludePatterns : List Text) : Bool :=
  shouldIgnorePath path ||
    shouldIgnoreSyncWithExcludes canonicalize path
      excludePatterns

/- Does the scan pass over what the names lead to? -/
def ignoredByScan
    (canonicalize : Text → Option Text)
    (root : Text)
    (excludePatterns : List Text)
    (names : List EntryName) : Bool :=
  shouldIgnoreSyncPath canonicalize (joinAll root names) root
    excludePatterns

/- What is read of the sync folder; a file has its size. -/
abbrev FolderListing := NestedListing EntryName Nat

/- The files and folders that a scan of the folder meets. -/
def scanEntries
    (canonicalize : Text → Option Text)
    (root : Text)
    (excludePatterns : List Text)
    (listing : FolderListing) :
    List (List EntryName × Option Nat) :=
  listing.walk
    (fun names =>
      !ignoredByScan canonicalize root excludePatterns names)
    []

structure FolderScan where
  files : List (List EntryName × Nat)
  folders : List (List EntryName)
deriving DecidableEq

def scanFolderRecursive
    (canonicalize : Text → Option Text)
    (root : Text)
    (excludePatterns : List Text)
    (listing : FolderListing) : FolderScan :=
  let met :=
    scanEntries canonicalize root excludePatterns listing
  { files := met.filterMap fun (names, size) =>
      size.map fun size => (names, size)
    folders := met.filterMap fun (names, size) =>
      if size.isNone then some names else none }

/- A part of the path of the sync folder itself is hidden. -/
def rootHidden (root : Text) : Bool :=
  (components root).any hiddenComponent

/- A pattern with a slash that the whole path starts with. -/
def matchesFromTop (path pattern : Text) : Bool :=
  let pattern := normalizedPattern pattern
  let normalizedPath := forwardSlashes path
  pattern.head? ≠ some '*' && '/' ∈ pattern &&
    (normalizedPath = pattern ||
      (pattern ++ ['/']).isPrefixOf normalizedPath)

/- A pattern that a name matches by its end. -/
def matchesEnd (name pattern : Text) : Bool :=
  let pattern := normalizedPattern pattern
  pattern.head? = some '*' && pattern.tail.isSuffixOf name

/- A name that only the item with that name is ignored for. -/
def rejectedName
    (excludePatterns : List Text)
    (name : EntryName) : Bool :=
  ignoredName name.text ||
    excludePatterns.any (matchesEnd name.text)

variable {canonicalize : Text → Option Text}
variable {root path relative pattern : Text}
variable {excludePatterns : List Text}
variable {names above below : List EntryName}

theorem containsText_iff
    {text part : Text} :
    containsText text part = true ↔ part <:+: text := by
  simp only [containsText, List.any_eq_true, List.mem_tails,
    List.isPrefixOf_iff_prefix]
  constructor
  · rintro ⟨rest, hRest, hPart⟩
    exact hPart.isInfix.trans hRest.isInfix
  · intro hPart
    obtain ⟨rest, hStarts, hRest⟩ :=
      List.infix_iff_prefix_suffix.mp hPart
    exact ⟨rest, hRest, hStarts⟩

theorem forwardSlashes_append
    (left right : Text) :
    forwardSlashes (left ++ right) =
      forwardSlashes left ++ forwardSlashes right :=
  List.map_append

theorem forwardSlashes_cons
    (right : Text) :
    forwardSlashes ('/' :: right) =
      '/' :: forwardSlashes right := rfl

theorem hidden_names
    (names : List EntryName) :
    ((texts names).map Component.normal).any hiddenComponent =
      (texts names).any hiddenPart := by
  rw [List.any_map]
  rfl

theorem nameOf_joinAll
    (root : Text)
    (above : List EntryName)
    (last : EntryName) :
    nameOf (joinAll root (above ++ [last])) = last.text := by
  rw [nameOf, PathText.fileName_joinAll]
  rfl

/- A match that does not depend on where the root is. -/
def matchesAnywhere (path pattern : Text) : Bool :=
  let pattern := normalizedPattern pattern
  let normalizedPath := forwardSlashes path
  if pattern = [] then
    false
  else if pattern.head? = some '*' then
    match PathText.fileName path with
    | some name => pattern.tail.isSuffixOf name
    | none => false
  else if '/' ∈ pattern then
    ('/' :: pattern).isSuffixOf normalizedPath ||
      containsText normalizedPath ('/' :: pattern ++ ['/'])
  else
    (components path).any fun component =>
      component = .normal pattern

theorem matchesPattern_eq
    (hBelow : stripPrefix path root = some relative) :
    matchesPattern path root pattern =
      (matchesAnywhere path pattern ||
        matchesFromTop relative pattern) := by
  rw [matchesPattern, matchesAnywhere, matchesFromTop, hBelow]
  by_cases hEmpty : normalizedPattern pattern = []
  · simp [hEmpty]
  · by_cases hStar :
        (normalizedPattern pattern).head? = some '*'
    · simp [hEmpty, hStar]
    · by_cases hSlash : '/' ∈ normalizedPattern pattern
      · simp only [hEmpty, hStar, hSlash, if_false, if_true,
          Option.map_some, Option.getD_some, decide_true,
          Bool.true_and, ne_eq, not_false_eq_true]
        rw [Bool.or_assoc, Bool.or_comm]
      · simp [hEmpty, hStar, hSlash]

theorem matchesFromTop_iff :
    matchesFromTop path pattern = true ↔
      (normalizedPattern pattern).head? ≠ some '*' ∧
        '/' ∈ normalizedPattern pattern ∧
        (forwardSlashes path = normalizedPattern pattern ∨
          normalizedPattern pattern ++ ['/'] <+:
            forwardSlashes path) := by
  simp [matchesFromTop, and_assoc]

/- A pattern with a slash that is not at an end of names. -/
theorem matchesAnywhere_of_within
    (hStar : (normalizedPattern pattern).head? ≠ some '*')
    (hSlash : '/' ∈ normalizedPattern pattern)
    (hWithin :
      '/' :: normalizedPattern pattern <:+ forwardSlashes path ∨
        '/' :: normalizedPattern pattern ++ ['/'] <:+:
          forwardSlashes path) :
    matchesAnywhere path pattern = true := by
  have hSome : normalizedPattern pattern ≠ [] :=
    List.ne_nil_of_mem hSlash
  rw [matchesAnywhere, if_neg hSome, if_neg hStar,
    if_pos hSlash, Bool.or_eq_true, List.isSuffixOf_iff_suffix,
    containsText_iff]
  exact hWithin

/- What starts the names below a root is within the path. -/
theorem matchesFromTop_below
    (hSome : names ≠ [])
    (hTop :
      matchesFromTop (slashJoin (texts names)) pattern = true) :
    matchesAnywhere (joinAll root names) pattern = true ∨
      matchesFromTop (joinAll root names) pattern = true := by
  have hText := PathText.joinAll_eq root hSome
  rcases PathText.withSlash_cases root with hEmpty | hStart
  · subst hEmpty
    rw [PathText.joinAll_nil hSome]
    exact Or.inr hTop
  · obtain ⟨start, hStart⟩ := hStart
    obtain ⟨hStar, hSlash, hTop⟩ := matchesFromTop_iff.mp hTop
    have hWhole :
        forwardSlashes (joinAll root names) =
          forwardSlashes start ++
            '/' :: forwardSlashes (slashJoin (texts names)) := by
      rw [hText, hStart, forwardSlashes_append,
        forwardSlashes_append, List.append_assoc]
      rfl
    refine Or.inl
      (matchesAnywhere_of_within hStar hSlash ?_)
    rw [hWhole]
    cases hTop with
    | inl hEq =>
        rw [hEq]
        exact Or.inl (List.suffix_append _ _)
    | inr hStarts =>
        obtain ⟨rest, hRest⟩ := hStarts
        exact Or.inr ⟨forwardSlashes start, rest, by
          rw [← hRest]
          simp⟩

theorem slashJoin_append
    (hAbove : above ≠ [])
    (hBelow : below ≠ []) :
    slashJoin (texts (above ++ below)) =
      slashJoin (texts above) ++
        '/' :: slashJoin (texts below) := by
  have hJoin := PathText.joinAll_append [] hAbove hBelow
  have hSome : above ++ below ≠ [] := by simp [hAbove]
  rw [PathText.joinAll_nil hAbove, PathText.joinAll_nil hSome]
    at hJoin
  exact hJoin

/- A folder matches by its end, or all in it match too. -/
theorem matchesAnywhere_inside
    {last : EntryName}
    (hBelow : below ≠ [])
    (hFolder :
      matchesAnywhere (joinAll root (above ++ [last])) pattern =
        true) :
    matchesEnd last.text pattern = true ∨
      matchesAnywhere (joinAll root (above ++ [last] ++ below))
        pattern = true := by
  have hAbove : above ++ [last] ≠ [] := by simp
  have hWhole :
      forwardSlashes (joinAll root (above ++ [last] ++ below)) =
        forwardSlashes (joinAll root (above ++ [last])) ++
          '/' :: forwardSlashes (slashJoin (texts below)) := by
    rw [PathText.joinAll_append root hAbove hBelow,
      forwardSlashes_append]
    rfl
  rw [matchesAnywhere] at hFolder
  by_cases hEmpty : normalizedPattern pattern = []
  · simp [hEmpty] at hFolder
  · by_cases hStar :
        (normalizedPattern pattern).head? = some '*'
    · refine Or.inl ?_
      simpa [hEmpty, hStar, PathText.fileName_joinAll,
        matchesEnd] using hFolder
    · refine Or.inr ?_
      by_cases hSlash : '/' ∈ normalizedPattern pattern
      · rw [if_neg hEmpty, if_neg hStar, if_pos hSlash,
          Bool.or_eq_true, List.isSuffixOf_iff_suffix,
          containsText_iff] at hFolder
        refine matchesAnywhere_of_within hStar hSlash
          (Or.inr ?_)
        rw [hWhole]
        cases hFolder with
        | inl hEnds =>
            obtain ⟨start, hStart⟩ := hEnds
            exact ⟨start,
              forwardSlashes (slashJoin (texts below)), by
                rw [← hStart]
                simp⟩
        | inr hWithin =>
            exact hWithin.trans (List.prefix_append _ _).isInfix
      · rw [if_neg hEmpty, if_neg hStar, if_neg hSlash]
          at hFolder
        have hMore :
            (components
              (joinAll root (above ++ [last] ++ below))).any
                (fun component =>
                  component =
                    Component.normal (normalizedPattern pattern)) =
              true := by
          rw [PathText.components_joinAll root hAbove]
            at hFolder
          rw [PathText.components_joinAll root (by simp)]
          obtain ⟨component, hIn, hEq⟩ :=
            List.any_eq_true.mp hFolder
          refine List.any_eq_true.mpr ⟨component, ?_, hEq⟩
          rw [texts, List.map_append, List.map_append,
            ← List.append_assoc]
          exact List.mem_append_left _ hIn
        rw [matchesAnywhere, if_neg hEmpty, if_neg hStar,
          if_neg hSlash]
        exact hMore

/- A pattern that names a folder from the root on. -/
theorem matchesFromTop_inside
    (hAbove : above ≠ [])
    (hBelow : below ≠ [])
    (hTop :
      matchesFromTop (slashJoin (texts above)) pattern = true) :
    matchesFromTop (slashJoin (texts (above ++ below))) pattern =
      true := by
  obtain ⟨hStar, hSlash, hTop⟩ := matchesFromTop_iff.mp hTop
  refine matchesFromTop_iff.mpr ⟨hStar, hSlash, Or.inr ?_⟩
  rw [slashJoin_append hAbove hBelow, forwardSlashes_append,
    forwardSlashes_cons]
  cases hTop with
  | inl hEq =>
      rw [hEq]
      exact ⟨forwardSlashes (slashJoin (texts below)), by simp⟩
  | inr hStarts =>
      exact hStarts.trans (List.prefix_append _ _)

------------------------------------------------------------
-- What Each Filter Ignores
------------------------------------------------------------

/- The path is ignored for what it is called below the root. -/
def ignoredItself
    (root : Text)
    (excludePatterns : List Text)
    (names : List EntryName) : Bool :=
  (texts names).any hiddenPart ||
    ignoredName (nameOf (joinAll root names)) ||
    excludePatterns.any fun pattern =>
      matchesAnywhere (joinAll root names) pattern ||
        matchesFromTop (slashJoin (texts names)) pattern

theorem stripPrefix_root
    (root : Text)
    (hSome : names ≠ []) :
    stripPrefix (joinAll root names) root =
      some (slashJoin (texts names)) := by
  by_cases hEmpty : root = []
  · subst hEmpty
    rw [PathText.stripPrefix_nil, PathText.joinAll_nil hSome]
  · exact PathText.stripPrefix_joinAll hSome fun hNone =>
      hEmpty (PathText.components_eq_nil_iff.mp hNone)

theorem ignoredByScan_eq
    (hSome : names ≠ []) :
    ignoredByScan canonicalize root excludePatterns names =
      ignoredItself root excludePatterns names := by
  have hStrip := stripPrefix_root root hSome
  have hCheck :
      ignoredByScan canonicalize root excludePatterns names =
        checkRelativePath (slashJoin (texts names))
          (joinAll root names) root excludePatterns := by
    by_cases hEmpty : root = []
    · subst hEmpty
      rw [ignoredByScan, shouldIgnoreSyncPath, if_pos rfl]
      simp only [PathText.joinAll_nil hSome]
    · rw [ignoredByScan, shouldIgnoreSyncPath, if_neg hEmpty,
        hStrip]
  have hHidden :
      (components (slashJoin (texts names))).any
          hiddenComponent =
        (texts names).any hiddenPart := by
    have hNames := PathText.components_joinAll [] hSome
    rw [PathText.joinAll_nil hSome] at hNames
    rw [hNames, ← hidden_names]
    rfl
  have hPatterns :
      matchesPattern (joinAll root names) root =
        fun pattern =>
          matchesAnywhere (joinAll root names) pattern ||
            matchesFromTop (slashJoin (texts names)) pattern :=
    funext fun _ => matchesPattern_eq hStrip
  rw [hCheck, checkRelativePath, hHidden,
    matchesExcludePattern, hPatterns, ignoredItself]

theorem name_mem_components
    (path name : Text)
    (hName : PathText.fileName path = some name) :
    Component.normal name ∈ components path := by
  rw [PathText.fileName] at hName
  split at hName
  · rename_i last hLast
    rw [← Option.some.inj hName]
    exact List.mem_of_getLast? hLast
  · contradiction

theorem shouldIgnoreSync_eq :
    shouldIgnoreSyncWithExcludes canonicalize path
        excludePatterns =
      checkRelativePath path path [] excludePatterns := by
  simp [shouldIgnoreSyncWithExcludes, shouldIgnoreSyncPath]

/- The watcher ignores nothing that the cycle takes. -/
theorem shouldIgnorePath_le
    (hWatcher : shouldIgnorePath path = true) :
    shouldIgnoreSyncWithExcludes canonicalize path
      excludePatterns = true := by
  have hEndings :
      endsWithAny watcherEndings (nameOf path) = true →
        endsWithAny ignoredEndings (nameOf path) = true := by
    intro hAny
    obtain ⟨ending, hIn, hEnds⟩ := List.any_eq_true.mp hAny
    have hAll :
        ∀ e ∈ watcherEndings, e ∈ ignoredEndings := by decide
    exact List.any_eq_true.mpr ⟨ending, hAll ending hIn, hEnds⟩
  have hNames :
      isAny watcherNames (nameOf path) = true →
        isAny ignoredNames (nameOf path) = true ∨
          (components path).any hiddenComponent = true := by
    intro hAny
    by_cases hModules : nameOf path = "node_modules".toList
    · have hName :
          PathText.fileName path =
            some "node_modules".toList := by
        cases hFile : PathText.fileName path with
        | none =>
            rw [nameOf, hFile] at hModules
            contradiction
        | some name =>
            rw [nameOf, hFile] at hModules
            exact congrArg some hModules
      exact Or.inr (List.any_eq_true.mpr
        ⟨_, name_mem_components path _ hName, by decide⟩)
    · refine Or.inl ?_
      have hOther :
          ¬ "node_modules".toList = nameOf path :=
        fun h => hModules h.symm
      simpa only [isAny, watcherNames, ignoredNames,
        List.any_cons, List.any_nil, Bool.or_false,
        Bool.or_eq_true, decide_eq_true_eq, hOther, or_false]
        using hAny
  rw [shouldIgnoreSync_eq, checkRelativePath, ignoredName]
  simp only [shouldIgnorePath, Bool.or_eq_true,
    Bool.and_eq_true, decide_eq_true_eq] at hWatcher ⊢
  rcases hWatcher with ((hHidden | hDot) | hEnding) | hName
  · exact Or.inl (Or.inl hHidden)
  · exact Or.inl (Or.inr (Or.inl (Or.inl hDot.1)))
  · exact Or.inl
      (Or.inr (Or.inl (Or.inr (hEndings hEnding))))
  · cases hNames hName with
    | inl hIgnored =>
        exact Or.inl (Or.inr (Or.inr hIgnored))
    | inr hHidden => exact Or.inl (Or.inl hHidden)

/- The events add what lies above the root. -/
theorem ignoredByEvents_iff
    (hSome : names ≠ []) :
    ignoredByEvents canonicalize (joinAll root names)
        excludePatterns = true ↔
      ignoredItself root excludePatterns names = true ∨
        rootHidden root = true ∨
        excludePatterns.any (matchesFromTop (joinAll root names)) =
          true := by
  have hOnly :
      ignoredByEvents canonicalize (joinAll root names)
          excludePatterns = true ↔
        shouldIgnoreSyncWithExcludes canonicalize
          (joinAll root names) excludePatterns = true := by
    rw [ignoredByEvents, Bool.or_eq_true]
    exact or_iff_right_of_imp shouldIgnorePath_le
  have hHidden :
      (components (joinAll root names)).any hiddenComponent =
        (rootHidden root || (texts names).any hiddenPart) := by
    rw [PathText.components_joinAll root hSome, List.any_append,
      hidden_names, rootHidden]
  have hPatterns :
      matchesExcludePattern (joinAll root names) []
          excludePatterns = true ↔
        (excludePatterns.any fun pattern =>
          matchesAnywhere (joinAll root names) pattern ||
            matchesFromTop (slashJoin (texts names)) pattern) =
            true ∨
          excludePatterns.any
            (matchesFromTop (joinAll root names)) = true := by
    have hEq :
        matchesPattern (joinAll root names) [] =
          fun pattern =>
            matchesAnywhere (joinAll root names) pattern ||
              matchesFromTop (joinAll root names) pattern :=
      funext fun _ =>
        matchesPattern_eq (PathText.stripPrefix_nil _)
    simp only [matchesExcludePattern, hEq, List.any_eq_true,
      Bool.or_eq_true]
    constructor
    · rintro ⟨pattern, hIn, hAny | hTop⟩
      · exact Or.inl ⟨pattern, hIn, Or.inl hAny⟩
      · exact Or.inr ⟨pattern, hIn, hTop⟩
    · rintro (⟨pattern, hIn, hAny | hTop⟩ | ⟨pattern, hIn, hTop⟩)
      · exact ⟨pattern, hIn, Or.inl hAny⟩
      · exact ⟨pattern, hIn, matchesFromTop_below hSome hTop⟩
      · exact ⟨pattern, hIn, Or.inr hTop⟩
  rw [hOnly, shouldIgnoreSync_eq, checkRelativePath, hHidden,
    ignoredItself]
  simp only [Bool.or_eq_true, hPatterns]
  exact Iff.of_eq (by ac_rfl)

------------------------------------------------------------
-- What the Scan Meets
------------------------------------------------------------

/- Around a path that is not ignored, names decide. -/
theorem ignoredItself_folder
    {last : EntryName}
    (hBelow : below ≠ [])
    (hPath :
      ignoredItself root excludePatterns
        (above ++ [last] ++ below) = false) :
    ignoredItself root excludePatterns (above ++ [last]) =
      rejectedName excludePatterns last := by
  have hNot := Bool.eq_false_iff.mp hPath
  have hAbove : above ++ [last] ≠ [] := by simp
  rw [Bool.eq_iff_iff, ignoredItself, rejectedName,
    nameOf_joinAll]
  simp only [Bool.or_eq_true, List.any_eq_true]
  constructor
  · rintro ((⟨part, hPart, hHidden⟩ | hName) |
      ⟨pattern, hIn, hMatch⟩)
    · refine absurd ?_ hNot
      have hMore : part ∈ texts (above ++ [last] ++ below) := by
        rw [texts, List.map_append]
        exact List.mem_append_left _ hPart
      simp only [ignoredItself, Bool.or_eq_true,
        List.any_eq_true]
      exact Or.inl (Or.inl ⟨part, hMore, hHidden⟩)
    · exact Or.inl hName
    · by_cases hEnd : matchesEnd last.text pattern = true
      · exact Or.inr ⟨pattern, hIn, hEnd⟩
      · refine absurd ?_ hNot
        simp only [ignoredItself, Bool.or_eq_true,
          List.any_eq_true]
        refine Or.inr ⟨pattern, hIn, ?_⟩
        cases hMatch with
        | inl hAny =>
            exact Or.inl
              ((matchesAnywhere_inside hBelow hAny).resolve_left
                hEnd)
        | inr hTop =>
            exact Or.inr
              (matchesFromTop_inside hAbove hBelow hTop)
  · rintro (hName | ⟨pattern, hIn, hEnd⟩)
    · exact Or.inl (Or.inr hName)
    · refine Or.inr ⟨pattern, hIn, Or.inl ?_⟩
      simp only [matchesEnd, Bool.and_eq_true,
        decide_eq_true_eq] at hEnd
      have hSome : normalizedPattern pattern ≠ [] := by
        intro hEmpty
        simp [hEmpty] at hEnd
      simp [matchesAnywhere, hSome, hEnd.1, hEnd.2,
        PathText.fileName_joinAll]

theorem mem_scanEntries_iff
    {listing : FolderListing}
    {size : Option Nat}
    (hSome : names ≠ [])
    (hIn : (names, size) ∈ listing.entries []) :
    (names, size) ∈
        scanEntries canonicalize root excludePatterns listing ↔
      ignoredItself root excludePatterns names = false ∧
        names.dropLast.any (rejectedName excludePatterns) =
          false := by
  have hWalk :
      (names, size) ∈
          scanEntries canonicalize root excludePatterns
            listing ↔
        ∀ reached : List EntryName, reached ≠ [] →
          reached <+: names →
            ignoredItself root excludePatterns reached =
              false := by
    rw [scanEntries, NestedListing.mem_walk_iff, and_iff_right hIn]
    constructor
    · intro hKept reached hSome hOn
      have hKeep := hKept reached List.nil_prefix hSome hOn
      simpa [ignoredByScan_eq hSome] using hKeep
    · intro hNone reached _ hSome hOn
      simpa [ignoredByScan_eq hSome]
        using hNone reached hSome hOn
  rw [hWalk]
  constructor
  · intro hNone
    have hPath := hNone names hSome List.prefix_rfl
    refine ⟨hPath, List.any_eq_false.mpr fun folder hFolder => ?_⟩
    obtain ⟨above, more, hSplit⟩ := List.append_of_mem hFolder
    obtain ⟨last, hLast⟩ :
        ∃ last, names = names.dropLast ++ [last] :=
      ⟨names.getLast hSome,
        (List.dropLast_append_getLast hSome).symm⟩
    have hNames :
        names = above ++ [folder] ++ (more ++ [last]) := by
      rw [hLast, hSplit]
      simp
    have hHere := hNone (above ++ [folder]) (by simp)
      ⟨more ++ [last], hNames.symm⟩
    rw [hNames] at hPath
    rw [ignoredItself_folder (by simp) hPath] at hHere
    simp [hHere]
  · rintro ⟨hPath, hFolders⟩ reached hReached hOn
    obtain ⟨below, hNames⟩ := hOn
    by_cases hBelow : below = []
    · rw [hBelow, List.append_nil] at hNames
      rw [hNames]
      exact hPath
    · obtain ⟨above, folder, rfl⟩ :=
        (List.eq_nil_or_concat' reached).resolve_left hReached
      have hFolder :
          folder ∈ names.dropLast := by
        rw [← hNames, List.dropLast_append_of_ne_nil hBelow]
        simp
      rw [← hNames] at hPath
      rw [ignoredItself_folder hBelow hPath]
      simpa using List.any_eq_false.mp hFolders folder hFolder

/-
  For every sync folder, every list of patterns and every
  file and folder in it: the events take what the scan meets
  iff the path is ignored for what it is called below the
  sync folder, or the sync folder's own path is ignored or
  named by a pattern exactly if a folder around the entry has
  a rejected name.
-/
theorem filters_agree_iff
    {listing : FolderListing}
    {size : Option Nat}
    (hIn : (names, size) ∈ listing.entries []) :
    (ignoredByEvents canonicalize (joinAll root names)
          excludePatterns = false ↔
        (names, size) ∈
          scanEntries canonicalize root excludePatterns
            listing) ↔
      (ignoredItself root excludePatterns names = true ∨
        ((rootHidden root = true ∨
            excludePatterns.any
              (matchesFromTop (joinAll root names)) = true) ↔
          names.dropLast.any (rejectedName excludePatterns) =
            true)) := by
  have hSome : names ≠ [] := by
    obtain ⟨name, more, hNames⟩ := NestedListing.entries_below hIn
    rw [hNames]
    simp
  rw [mem_scanEntries_iff hSome hIn, ← Bool.not_eq_true,
    ignoredByEvents_iff hSome, ← Bool.not_eq_true,
    ← Bool.not_eq_true]
  by_cases hItself :
      ignoredItself root excludePatterns names = true
  · simp only [hItself, true_or, not_true, false_and]
  · simp only [hItself, Bool.false_eq_true, false_or,
      not_false_eq_true, true_and]
    exact not_iff_not

def readme : EntryName where
  text := "readme.txt".toList
  notEmpty := by decide
  noSlash := by decide
  notSelf := by decide
  notParent := by decide

def docs : EntryName where
  text := "docs".toList
  notEmpty := by decide
  noSlash := by decide
  notSelf := by decide
  notParent := by decide

/- A file in a folder that has no special name. -/
def plainListing : FolderListing :=
  .folder docs (.file readme 5 .nil) .nil

theorem plain_path_agrees :
    ([docs, readme], some 5) ∈ plainListing.entries [] ∧
      (ignoredByEvents (fun _ => none)
            (joinAll "/home/ann/S4Drive".toList [docs, readme])
            [] = false ↔
          ([docs, readme], some 5) ∈
            scanEntries (fun _ => none)
              "/home/ann/S4Drive".toList [] plainListing) := by
  have hIn :
      ([docs, readme], some 5) ∈ plainListing.entries [] := by
    decide
  exact ⟨hIn, (filters_agree_iff hIn).mpr
    (Or.inr (by decide +kernel))⟩

/- In a hidden sync folder only the scan meets the file. -/
theorem hidden_root_scanned_only :
    ([docs, readme], some 5) ∈ plainListing.entries [] ∧
      ignoredByEvents (fun _ => none)
          (joinAll "/home/ann/.local/S4Drive".toList
            [docs, readme]) [] = true ∧
      ([docs, readme], some 5) ∈
        scanEntries (fun _ => none)
          "/home/ann/.local/S4Drive".toList []
          plainListing := by
  decide +kernel

end IgnoreFilters

end S4Drive
