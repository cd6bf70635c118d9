import Mathlib.Data.List.Infix
import Mathlib.Data.List.Sort
import S4Drive.Core.Text
import S4Drive.Library.Edits

/-
  The three-way merge of texts: a line diff of each side
  against the base by longest common subsequences, and one
  walk along the two lists of changes. An index or a slice
  out of range panics. A table of more than 2^32 lines does
  not fit in memory, so its counts do not overflow.

  Main declarations:
    * `Panic`, `Checked`, `slice`
    * `lcsPairs`, `diffLines`
    * `mergeLineChanges`
    * `textThreeWayMerge`, `hasConflictMarkers`
-/

------------------------------------------------------------
-- Checked Access
------------------------------------------------------------

namespace S4Drive

namespace ConflictEngine

/- Why an access panics. -/
inductive Panic where
  | outOfRange
  -- A slice starts after its end.
  | sliceOrder
deriving DecidableEq

abbrev Checked := Except Panic

variable {α : Type}

def index (xs : List α) (i : Nat) : Checked α :=
  match xs[i]? with
  | some x => .ok x
  | none => .error .outOfRange

def setAt (xs : List α) (i : Nat) (x : α) : Checked (List α) :=
  if i < xs.length then .ok (xs.set i x)
  else .error .outOfRange

def slice
    (xs : List α)
    (start stop : Nat) : Checked (List α) :=
  if stop < start then .error .sliceOrder
  else if xs.length < stop then .error .outOfRange
  else .ok ((xs.take stop).drop start)

abbrev Table := List (List Nat)

def entry (dp : Table) (i j : Nat) : Checked Nat := do
  let row ← index dp i
  index row j

def setEntry
    (dp : Table)
    (i j value : Nat) : Checked Table := do
  let row ← index dp i
  let row ← setAt row j value
  setAt dp i row

variable [DecidableEq α]

def lcsCell
    (base modified : List α)
    (i : Nat)
    (dp : Table)
    (j : Nat) : Checked Table := do
  if (← index base (i - 1)) = (← index modified (j - 1)) then
    let corner ← entry dp (i - 1) (j - 1)
    setEntry dp i j (corner + 1)
  else
    let above ← entry dp (i - 1) j
    let left ← entry dp i (j - 1)
    setEntry dp i j (max above left)

def lcsTable (base modified : List α) : Checked Table :=
  (List.range' 1 base.length).foldlM
    (fun dp i =>
      (List.range' 1 modified.length).foldlM
        (lcsCell base modified i) dp)
    (List.replicate (base.length + 1)
      (List.replicate (modified.length + 1) 0))

/- Walk back through the table; pairs are put in front. -/
def lcsBack
    (base modified : List α)
    (dp : Table) :
    Nat → Nat → Nat → List (Nat × Nat) →
      Checked (List (Nat × Nat))
  | 0, _, _, result => .ok result
  | rounds + 1, i, j, result =>
      if 0 < i ∧ 0 < j then do
        if (← index base (i - 1)) =
            (← index modified (j - 1)) then
          lcsBack base modified dp rounds (i - 1) (j - 1)
            ((i - 1, j - 1) :: result)
        else
          let above ← entry dp (i - 1) j
          let left ← entry dp i (j - 1)
          if above > left then
            lcsBack base modified dp rounds (i - 1) j result
          else
            lcsBack base modified dp rounds i (j - 1) result
      else
        .ok result

def lcsPairs
    (base modified : List α) : Checked (List (Nat × Nat)) :=
  if base.length = 0 ∨ modified.length = 0 then
    .ok []
  else do
    let dp ← lcsTable base modified
    lcsBack base modified dp (base.length + modified.length)
      base.length modified.length []

/- The change between two cursors, if there is any. -/
def changeAt
    (modified : List α)
    (baseCursor baseIndex modifiedCursor modifiedIndex : Nat) :
    Checked (List (Edit α)) :=
  if baseCursor < baseIndex ∨
      modifiedCursor < modifiedIndex then do
    let replacement ←
      slice modified modifiedCursor modifiedIndex
    pure [⟨baseCursor, baseIndex, replacement⟩]
  else
    pure []

def diffPairs
    (base modified : List α) :
    List (Nat × Nat) → Nat → Nat → Checked (List (Edit α))
  | [], baseCursor, modifiedCursor =>
      changeAt modified baseCursor base.length modifiedCursor
        modified.length
  | (baseIndex, modifiedIndex) :: pairs, baseCursor,
      modifiedCursor => do
      let change ← changeAt modified baseCursor baseIndex
        modifiedCursor modifiedIndex
      let changes ← diffPairs base modified pairs
        (baseIndex + 1) (modifiedIndex + 1)
      pure (change ++ changes)

def diffLines
    (base modified : List α) : Checked (List (Edit α)) := do
  let pairs ← lcsPairs base modified
  diffPairs base modified pairs 0 0

abbrev LineChange := Edit Text

def changesOverlapOrSameInsertion
    (left right : LineChange) : Bool :=
  let sameInsertion :=
    left.start = left.stop && right.start = right.stop &&
      left.start = right.start
  sameInsertion ||
    (left.start < right.stop && right.start < left.stop)

def appendBase
    (base : List Text)
    (start stop : Nat) : Checked (List Text) :=
  slice base (min start base.length) (min stop base.length)

def appendConflict
    (localName : Text)
    (localLines : List Text)
    (remoteName : Text)
    (remoteLines : List Text) : List Text :=
  ["<<<<<<< ".toList ++ localName] ++ localLines ++
    ["=======".toList] ++ remoteLines ++
    [">>>>>>> ".toList ++ remoteName]

/- Two changes that overlap: one change, or a conflict. -/
def mergeBoth
    (localName remoteName : Text)
    (left right : LineChange) : List Text :=
  if left.start = right.start ∧ left.stop = right.stop ∧
      left.replacement = right.replacement then
    left.replacement
  else
    appendConflict localName left.replacement remoteName
      right.replacement

/- The lines from `cursor` on; every round takes a change. -/
def mergeRounds
    (base : List Text)
    (localName remoteName : Text) :
    Nat → List LineChange → List LineChange → Nat →
      Checked (List Text)
  | 0, _, _, cursor => appendBase base cursor base.length
  | _ + 1, [], [], cursor => appendBase base cursor base.length
  | rounds + 1, left :: lefts, [], cursor => do
      let kept ← appendBase base cursor left.start
      let rest ← mergeRounds base localName remoteName rounds
        lefts [] left.stop
      pure (kept ++ left.replacement ++ rest)
  | rounds + 1, [], right :: rights, cursor => do
      let kept ← appendBase base cursor right.start
      let rest ← mergeRounds base localName remoteName rounds
        [] rights right.stop
      pure (kept ++ right.replacement ++ rest)
  | rounds + 1, left :: lefts, right :: rights, cursor =>
      if changesOverlapOrSameInsertion left right then do
        let kept ← appendBase base cursor
          (min left.start right.start)
        let rest ← mergeRounds base localName remoteName rounds
          lefts rights (max left.stop right.stop)
        pure (kept ++
          mergeBoth localName remoteName left right ++ rest)
      else if left.stop ≤ right.start then do
        let kept ← appendBase base cursor left.start
        let rest ← mergeRounds base localName remoteName rounds
          lefts (right :: rights) left.stop
        pure (kept ++ left.replacement ++ rest)
      else do
        let kept ← appendBase base cursor right.start
        let rest ← mergeRounds base localName remoteName rounds
          (left :: lefts) rights right.stop
        pure (kept ++ right.replacement ++ rest)

def mergeLineChanges
    (base : List Text)
    (localChanges remoteChanges : List LineChange)
    (localName remoteName : Text) : Checked (List Text) :=
  mergeRounds base localName remoteName
    (localChanges.length + remoteChanges.length)
    localChanges remoteChanges 0

def stripCr (line : Text) : Text :=
  if line.getLast? = some '\r' then line.dropLast else line

/- The lines of the rest of a text, from a started line on. -/
def linesFrom (line : Text) : Text → List Text
  | [] => if line = [] then [] else [line]
  | c :: rest =>
      if c = '\n' then
        stripCr line :: linesFrom [] rest
      else
        linesFrom (line ++ [c]) rest

/- `str::lines`: a line ends with LF or CRLF. -/
def lines (text : Text) : List Text := linesFrom [] text

def joinLines (ls : List Text) : Text :=
  ['\n'].intercalate ls

/- The parts of a path, without the empty ones and `.`. -/
def pathParts (path : Text) : List Text :=
  (path.splitOn '/').filter fun part =>
    part ≠ [] && part ≠ ['.']

/- `Path::file_name` -/
def fileName (path : Text) : Option Text :=
  match (pathParts path).getLast? with
  | some name => if name = ['.', '.'] then none else some name
  | none => none

/- The merged text; the code never answers with an error. -/
def textThreeWayMerge
    (baseContent localContent remoteContent : Text)
    (localPath remotePath : Text) : Checked Text :=
  if localContent = remoteContent then
    .ok localContent
  else if localContent = baseContent then
    .ok remoteContent
  else if remoteContent = baseContent then
    .ok localContent
  else do
    let base := lines baseContent
    let localName := (fileName localPath).getD "local".toList
    let remoteName :=
      (fileName remotePath).getD "remote".toList
    let localChanges ← diffLines base (lines localContent)
    let remoteChanges ← diffLines base (lines remoteContent)
    let merged ← mergeLineChanges base localChanges
      remoteChanges localName remoteName
    pure (joinLines merged)

def hasConflictMarkers (content : Text) : Bool :=
  "<<<<<<< ".toList <:+: content &&
    "=======".toList <:+: content &&
    ">>>>>>> ".toList <:+: content

end ConflictEngine

end S4Drive
