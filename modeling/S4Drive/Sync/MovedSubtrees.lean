import S4Drive.Library.SubtreePaths
import S4Drive.Sync.LocalDatabase

/-
  What becomes of the index and of the transfers when a
  folder has moved. The statements look at the texts of the
  paths alone; still what they set is exactly what lies at
  the folder or below it, name by name, but for rows that
  are deleted and transfers that are completed.

  Main declarations:
    * `subtreePrefix`, `atOrUnder`, `LocalDatabase.moveSubtree`
    * `FolderMove`, `FolderMove.moved`, `FolderMove.Free`
    * `moveSubtree_shows`, `moveSubtree_exact`
-/

------------------------------------------------------------
-- The Statements
------------------------------------------------------------

namespace S4Drive

namespace Db

open KeyedTables SubtreePaths

/- `folder` with one separator: how paths inside it start. -/
def subtreePrefix (separator : Char) (folder : Text) : Text :=
  folder.rdropWhile (fun c => c = separator) ++ [separator]

/- `substr(text, 1, length(start)) = start` -/
def startsAs (start text : Text) : Bool :=
  text.take start.length = start

/- The condition `AT_OR_UNDER`. -/
def atOrUnder
    (separator : Char)
    (folder path : Text) : Bool :=
  path = folder || startsAs (subtreePrefix separator folder) path

/- `remote_key`: a key outside the folder stays. -/
def remoteKey (fromRemote toRemote key : Text) : Text :=
  if key = fromRemote || startsAs (fromRemote ++ ['/']) key then
    rebaseText fromRemote toRemote key
  else
    key

/- The tables do not name a row that is deleted any more. -/
def ObjectRow.isPresent (row : ObjectRow) : Bool :=
  !row.state.isDeleted

def LocalDatabase.moveSubtree
    (separator : Char)
    (fromLocal toLocal fromRemote toRemote : Text)
    (now : Timestamp)
    (db : LocalDatabase) : LocalDatabase :=
  { db with
    objects := db.objects.updateWhere
      (fun row =>
        atOrUnder separator fromLocal row.localPath &&
          row.isPresent)
      (fun row =>
        { row with
          localPath := rebaseText fromLocal toLocal row.localPath
          s3Key := remoteKey fromRemote toRemote row.s3Key
          updatedAt := now })
      (fun _ => rfl)
    transferQueue := db.transferQueue.update
      (fun row =>
        atOrUnder separator fromLocal row.localPath &&
          row.isOpen)
      -- The key of a download is that of its blob.
      (fun row =>
        { row with
          localPath := rebaseText fromLocal toLocal row.localPath
          s3Key :=
            if row.direction = .upload then
              remoteKey fromRemote toRemote row.s3Key
            else
              row.s3Key
          updatedAt := now })
      (fun _ => rfl) }

theorem startsAs_iff
    {start text : Text} :
    startsAs start text ↔ start <+: text := by
  rw [startsAs, decide_eq_true_iff, List.prefix_iff_eq_take]
  exact eq_comm

/- The text of a folder ends with no separator. -/
def IsFolderText (separator : Char) (folder : Text) : Prop :=
  folder.getLast? ≠ some separator

instance
    (separator : Char)
    (folder : Text) : Decidable (IsFolderText separator folder) :=
  inferInstanceAs (Decidable (_ ≠ _))

theorem subtreePrefix_eq
    {separator : Char}
    {folder : Text}
    (hFolder : IsFolderText separator folder) :
    subtreePrefix separator folder = folder ++ [separator] := by
  have hSame :
      folder.rdropWhile (fun c => c = separator) = folder := by
    rw [List.rdropWhile_eq_self_iff]
    intro hSome hLast
    apply hFolder
    rw [List.getLast?_eq_some_getLast hSome]
    simpa using hLast
  rw [subtreePrefix, hSame]

theorem atOrUnder_iff
    {separator : Char}
    {folder : Text}
    (path : Text)
    (hFolder : IsFolderText separator folder) :
    atOrUnder separator folder path ↔
      InSubtree separator folder path := by
  rw [atOrUnder, subtreePrefix_eq hFolder, inSubtree_iff,
    Bool.or_eq_true, decide_eq_true_iff, startsAs_iff]

theorem remoteKey_inside
    {fromRemote key : Text}
    (toRemote : Text)
    (hIn : InSubtree '/' fromRemote key) :
    remoteKey fromRemote toRemote key =
      rebaseText fromRemote toRemote key := by
  rw [inSubtree_iff] at hIn
  apply if_pos
  rw [Bool.or_eq_true, decide_eq_true_iff, startsAs_iff]
  exact hIn

theorem remoteKey_outside
    {fromRemote key : Text}
    (toRemote : Text)
    (hOut : ¬ InSubtree '/' fromRemote key) :
    remoteKey fromRemote toRemote key = key := by
  rw [inSubtree_iff] at hOut
  apply if_neg
  rw [Bool.or_eq_true, decide_eq_true_iff, startsAs_iff]
  exact hOut

/- Where a path goes with a folder, one name after another. -/
def placeOf
    (separator : Char)
    (source target path : Text) : Text :=
  [separator].intercalate
    (NamedForest.rebase (source.splitOn separator)
      (target.splitOn separator) (path.splitOn separator))

variable {source path : Text}

theorem placeOf_inside
    {separator : Char}
    (target : Text)
    (hIn : InSubtree separator source path) :
    placeOf separator source target path =
      rebaseText source target path := by
  rw [placeOf, ← splitOn_rebaseText target hIn,
    List.intercalate_splitOn]

theorem placeOf_outside
    {separator : Char}
    (target : Text)
    (hOut : ¬ InSubtree separator source path) :
    placeOf separator source target path = path := by
  rw [placeOf, NamedForest.rebase_outside hOut,
    List.intercalate_splitOn]

theorem remoteKey_eq_placeOf
    (fromRemote toRemote key : Text) :
    remoteKey fromRemote toRemote key =
      placeOf '/' fromRemote toRemote key := by
  by_cases hIn : InSubtree '/' fromRemote key
  · rw [remoteKey_inside toRemote hIn,
      placeOf_inside toRemote hIn]
  · rw [remoteKey_outside toRemote hIn,
      placeOf_outside toRemote hIn]

/- Nothing comes to a path that is not below the new place. -/
theorem eq_of_placeOf_eq
    {separator : Char}
    {source target path other : Text}
    (hPath : ¬ InSubtree separator target path)
    (hSame : placeOf separator source target other = path) :
    other = path := by
  by_cases hIn : InSubtree separator source other
  · rw [placeOf_inside target hIn] at hSame
    exact absurd (hSame ▸ inSubtree_rebaseText target hIn) hPath
  · rwa [placeOf_outside target hIn] at hSame

theorem placeOf_inj
    {separator : Char}
    {source target path other : Text}
    (hPath : ¬ InSubtree separator target path)
    (hOther : ¬ InSubtree separator target other)
    (hSame :
      placeOf separator source target path =
        placeOf separator source target other) :
    path = other := by
  by_cases hIn : InSubtree separator source path
  · by_cases hInOther : InSubtree separator source other
    · rw [placeOf_inside target hIn,
        placeOf_inside target hInOther] at hSame
      exact rebaseText_inj hIn hInOther hSame
    · rw [placeOf_outside target hInOther] at hSame
      exact eq_of_placeOf_eq hOther hSame
  · rw [placeOf_outside target hIn] at hSame
    exact (eq_of_placeOf_eq hPath hSame.symm).symm

/- There and back again, also for what stays. -/
theorem placeOf_placeOf
    {separator : Char}
    {source target path : Text}
    (hPath : ¬ InSubtree separator target path) :
    placeOf separator target source
      (placeOf separator source target path) = path := by
  by_cases hIn : InSubtree separator source path
  · rw [placeOf_inside target hIn,
      placeOf_inside source (inSubtree_rebaseText target hIn),
      rebaseText_rebaseText target hIn]
  · rw [placeOf_outside target hIn,
      placeOf_outside source hPath]

------------------------------------------------------------
-- Moves of Folders
------------------------------------------------------------

/- Where a folder was and is, here and in the bucket. -/
structure FolderMove (separator : Char) where
  fromLocal : Text
  toLocal : Text
  fromRemote : Text
  toRemote : Text
  fromFolder : IsFolderText separator fromLocal
  toFolder : IsFolderText separator toLocal

variable {row : TransferRow}

namespace FolderMove

variable {separator : Char}

def back (m : FolderMove separator) : FolderMove separator where
  fromLocal := m.toLocal
  toLocal := m.fromLocal
  fromRemote := m.toRemote
  toRemote := m.fromRemote
  fromFolder := m.toFolder
  toFolder := m.fromFolder

def run
    (m : FolderMove separator)
    (now : Timestamp)
    (db : LocalDatabase) : LocalDatabase :=
  db.moveSubtree separator m.fromLocal m.toLocal m.fromRemote
    m.toRemote now

/- Rows that are there, at the folder or below it. -/
def holds (m : FolderMove separator) (row : ObjectRow) : Bool :=
  row.isPresent &&
    decide (InSubtree separator m.fromLocal row.localPath)

/- Transfers that are not completed, at or below it. -/
def carries
    (m : FolderMove separator)
    (row : TransferRow) : Bool :=
  row.isOpen &&
    decide (InSubtree separator m.fromLocal row.localPath)

/- The row of an entry that has moved with the folder. -/
def movedObject
    (m : FolderMove separator)
    (now : Timestamp)
    (row : ObjectRow) : ObjectRow :=
  { row with
    localPath :=
      placeOf separator m.fromLocal m.toLocal row.localPath
    s3Key := placeOf '/' m.fromRemote m.toRemote row.s3Key
    updatedAt := now }

def movedTransfer
    (m : FolderMove separator)
    (now : Timestamp)
    (row : TransferRow) : TransferRow :=
  { row with
    localPath :=
      placeOf separator m.fromLocal m.toLocal row.localPath
    s3Key :=
      match row.direction with
      | .upload => placeOf '/' m.fromRemote m.toRemote row.s3Key
      | .download => row.s3Key
    updatedAt := now }

/- The tables when exactly the subtree has moved. -/
def moved
    (m : FolderMove separator)
    (now : Timestamp)
    (db : LocalDatabase) : LocalDatabase :=
  { db with
    objects := db.objects.updateWhere m.holds
      (m.movedObject now) (fun _ => rfl)
    transferQueue := db.transferQueue.update m.carries
      (m.movedTransfer now) (fun _ => rfl) }

/- The tables with the time of an update in the subtree. -/
def touched
    (m : FolderMove separator)
    (now : Timestamp)
    (db : LocalDatabase) : LocalDatabase :=
  { db with
    objects := db.objects.updateWhere m.holds
      (fun row => { row with updatedAt := now }) (fun _ => rfl)
    transferQueue := db.transferQueue.update m.carries
      (fun row => { row with updatedAt := now })
      (fun _ => rfl) }

/- Nothing that counts is at the new place or below it. -/
structure Free
    (m : FolderMove separator)
    (db : LocalDatabase) : Prop where
  objects :
    ∀ row ∈ db.objects.rows, row.isPresent →
      ¬ InSubtree separator m.toLocal row.localPath ∧
        ¬ InSubtree '/' m.toRemote row.s3Key
  transfers :
    ∀ row ∈ db.transferQueue.rows, row.isOpen →
      ¬ InSubtree separator m.toLocal row.localPath ∧
        (row.direction = .upload →
          ¬ InSubtree '/' m.toRemote row.s3Key)

variable (m : FolderMove separator) (now : Timestamp)

theorem holds_eq
    (row : ObjectRow) :
    (atOrUnder separator m.fromLocal row.localPath &&
      row.isPresent) = m.holds row := by
  rw [Bool.eq_iff_iff, holds, Bool.and_eq_true,
    Bool.and_eq_true, atOrUnder_iff _ m.fromFolder,
    decide_eq_true_iff]
  exact and_comm

theorem carries_eq
    (row : TransferRow) :
    (atOrUnder separator m.fromLocal row.localPath &&
      row.isOpen) = m.carries row := by
  rw [Bool.eq_iff_iff, carries, Bool.and_eq_true,
    Bool.and_eq_true, atOrUnder_iff _ m.fromFolder,
    decide_eq_true_iff]
  exact and_comm

theorem below_of_holds
    {row : ObjectRow}
    (hRow : m.holds row) :
    row.isPresent ∧
      InSubtree separator m.fromLocal row.localPath := by
  simpa [holds] using hRow

theorem below_of_carries
    (hRow : m.carries row) :
    row.isOpen ∧
      InSubtree separator m.fromLocal row.localPath := by
  simpa [carries] using hRow

end FolderMove

/- What the statements set is the subtree, name by name. -/
theorem run_eq_moved
    {separator : Char}
    (m : FolderMove separator)
    (now : Timestamp)
    (db : LocalDatabase) : m.run now db = m.moved now db := by
  have hObjects :
      (m.run now db).objects = (m.moved now db).objects := by
    refine Table.updateWhere_congr
      (by intro; rfl) (by intro; rfl)
      (fun row _ => m.holds_eq row) fun row _ hRow => ?_
    rw [m.holds_eq] at hRow
    have hIn := (m.below_of_holds hRow).2
    rw [FolderMove.movedObject, placeOf_inside _ hIn,
      remoteKey_eq_placeOf]
  have hTransfers :
      (m.run now db).transferQueue =
        (m.moved now db).transferQueue := by
    refine TransferQueue.ext (Table.updateWhere_congr
      (by intro; rfl) (by intro; rfl)
      (fun row _ => m.carries_eq row) fun row _ hRow => ?_) rfl
    rw [m.carries_eq] at hRow
    have hIn := (m.below_of_carries hRow).2
    rw [FolderMove.movedTransfer, placeOf_inside _ hIn,
      remoteKey_eq_placeOf]
    cases row.direction <;> rfl
  calc
    m.run now db =
        { db with
          objects := (m.run now db).objects
          transferQueue := (m.run now db).transferQueue } := rfl
    _ = m.moved now db := by
      rw [hObjects, hTransfers]
      rfl

/- A row as names, its path below the sync folder `root`. -/
structure ShowsObject
    (separator : Char)
    (root : List Text)
    (row : ObjectRow)
    (shown : RemoteChanges.ObjectRow) : Prop where
  fileId : row.fileId = shown.fileId
  state : row.state = shown.state
  localPath :
    row.localPath.splitOn separator = root ++ shown.localPath
  s3Key : row.s3Key.splitOn '/' = shown.s3Key

/- The places of a move as names. -/
structure ShowsMove
    {separator : Char}
    (root : List Text)
    (m : FolderMove separator)
    (fromLocal toLocal : Recovery.Path) : Prop where
  fromLocal :
    m.fromLocal.splitOn separator = root ++ fromLocal
  toLocal : m.toLocal.splitOn separator = root ++ toLocal

theorem splitOn_placeOf
    {separator : Char}
    (target : Text) :
    (placeOf separator source target path).splitOn separator =
      NamedForest.rebase (source.splitOn separator)
        (target.splitOn separator) (path.splitOn separator) := by
  by_cases hIn : InSubtree separator source path
  · rw [placeOf_inside target hIn, splitOn_rebaseText target hIn]
  · rw [placeOf_outside target hIn,
      NamedForest.rebase_outside hIn]

/- What is common above the folders stays. -/
theorem rebase_below
    (root a b p : List Text) :
    NamedForest.rebase (root ++ a) (root ++ b) (root ++ p) =
      root ++ NamedForest.rebase a b p := by
  by_cases hIn : a <+: p
  · obtain ⟨rest, rfl⟩ := hIn
    rw [NamedForest.rebase_append, ← List.append_assoc,
      NamedForest.rebase_append, List.append_assoc]
  · rw [NamedForest.rebase_outside hIn,
      NamedForest.rebase_outside]
    rwa [List.prefix_append_right_inj]

/- The move of texts does what the move of names does. -/
theorem moveSubtree_shows
    {separator : Char}
    {root : List Text}
    {m : FolderMove separator}
    {fromLocal toLocal : Recovery.Path}
    {db : LocalDatabase}
    {d : RemoteChanges.SyncDevice}
    (now : Timestamp)
    (hMove : ShowsMove root m fromLocal toLocal)
    (hRows :
      List.Forall₂ (ShowsObject separator root)
        db.objects.rows d.objects) :
    List.Forall₂ (ShowsObject separator root)
      (m.run now db).objects.rows
      (d.moveSubtree fromLocal toLocal
        (m.fromRemote.splitOn '/')
        (m.toRemote.splitOn '/')).objects := by
  rw [run_eq_moved]
  refine List.forall₂_map_left_iff.mpr
    (List.forall₂_map_right_iff.mpr
      (hRows.imp fun row shown hShows => ?_))
  have hSelected :
      m.holds row =
        (shown.atOrUnder fromLocal &&
          !shown.state.isDeleted) := by
    have hBelow :
        InSubtree separator m.fromLocal row.localPath ↔
          fromLocal <+: shown.localPath := by
      rw [InSubtree, hMove.fromLocal, hShows.localPath,
        List.prefix_append_right_inj]
    rw [Bool.eq_iff_iff]
    simp [FolderMove.holds, ObjectRow.isPresent,
      RemoteChanges.ObjectRow.atOrUnder, hBelow, hShows.state,
      and_comm]
  rw [hSelected]
  split
  · exact {
      fileId := hShows.fileId
      state := hShows.state
      localPath := by
        rw [FolderMove.movedObject, splitOn_placeOf,
          hMove.fromLocal, hMove.toLocal, hShows.localPath,
          rebase_below]
      s3Key := by
        rw [FolderMove.movedObject, splitOn_placeOf,
          hShows.s3Key] }
  · exact hShows

namespace FolderMove

variable {separator : Char} (m : FolderMove separator)
  (now : Timestamp) {db : LocalDatabase}

/- What becomes of a row of the index. -/
def objectAfter (row : ObjectRow) : ObjectRow :=
  if m.holds row then m.movedObject now row else row

def transferAfter (row : TransferRow) : TransferRow :=
  if m.carries row then m.movedTransfer now row else row

/- Different paths and keys of rows remain different. -/
structure Apart (db : LocalDatabase) : Prop where
  localPaths :
    ∀ row ∈ db.objects.rows, ∀ other ∈ db.objects.rows,
      row.isPresent → other.isPresent →
        (m.objectAfter now row).localPath =
          (m.objectAfter now other).localPath →
        row.localPath = other.localPath
  remoteKeys :
    ∀ row ∈ db.objects.rows, ∀ other ∈ db.objects.rows,
      row.isPresent → other.isPresent →
        (m.objectAfter now row).s3Key =
          (m.objectAfter now other).s3Key →
        row.s3Key = other.s3Key
  transferPaths :
    ∀ row ∈ db.transferQueue.rows,
      ∀ other ∈ db.transferQueue.rows,
        row.isOpen → other.isOpen →
          (m.transferAfter now row).localPath =
            (m.transferAfter now other).localPath →
          row.localPath = other.localPath

theorem objectAfter_localPath
    {row : ObjectRow}
    (hRow : row.isPresent) :
    (m.objectAfter now row).localPath =
      placeOf separator m.fromLocal m.toLocal row.localPath := by
  by_cases hIn : InSubtree separator m.fromLocal row.localPath
  · simp [objectAfter, holds, hRow, hIn, movedObject]
  · simp [objectAfter, holds, hIn, placeOf_outside _ hIn]

theorem transferAfter_localPath
    (hRow : row.isOpen) :
    (m.transferAfter now row).localPath =
      placeOf separator m.fromLocal m.toLocal row.localPath := by
  by_cases hIn : InSubtree separator m.fromLocal row.localPath
  · simp [transferAfter, carries, hRow, hIn, movedTransfer]
  · simp [transferAfter, carries, hIn, placeOf_outside _ hIn]

/- Only one of two equal keys may have moved. -/
theorem objectAfter_s3Key
    (row : ObjectRow) :
    (m.objectAfter now row).s3Key = row.s3Key ∨
      (m.objectAfter now row).s3Key =
        placeOf '/' m.fromRemote m.toRemote row.s3Key := by
  by_cases hIn : m.holds row
  · simp [objectAfter, hIn, movedObject]
  · simp [objectAfter, hIn]

theorem apart_of_free
    (hFree : m.Free db) : m.Apart now db where
  localPaths := by
    intro row hRow other hOther hLive hLiveOther hSame
    rw [m.objectAfter_localPath now hLive,
      m.objectAfter_localPath now hLiveOther] at hSame
    exact placeOf_inj (hFree.objects row hRow hLive).1
      (hFree.objects other hOther hLiveOther).1 hSame
  remoteKeys := by
    intro row hRow other hOther hLive hLiveOther hSame
    have hKey := (hFree.objects row hRow hLive).2
    have hKeyOther := (hFree.objects other hOther hLiveOther).2
    rcases m.objectAfter_s3Key now row with hStay | hMove
    · rcases m.objectAfter_s3Key now other with hStays | hMoves
      · rwa [hStay, hStays] at hSame
      · rw [hStay, hMoves] at hSame
        exact (eq_of_placeOf_eq hKey hSame.symm).symm
    · rcases m.objectAfter_s3Key now other with hStays | hMoves
      · rw [hMove, hStays] at hSame
        exact eq_of_placeOf_eq hKeyOther hSame
      · rw [hMove, hMoves] at hSame
        exact placeOf_inj hKey hKeyOther hSame
  transferPaths := by
    intro row hRow other hOther hOpen hOpenOther hSame
    rw [m.transferAfter_localPath now hOpen,
      m.transferAfter_localPath now hOpenOther] at hSame
    exact placeOf_inj (hFree.transfers row hRow hOpen).1
      (hFree.transfers other hOther hOpenOther).1 hSame

------------------------------------------------------------
-- There and Back Again
------------------------------------------------------------

variable (later : Timestamp)

theorem back_holds
    {row : ObjectRow}
    (hRow : m.holds row) :
    m.back.holds (m.movedObject now row) := by
  obtain ⟨hLive, hIn⟩ := m.below_of_holds hRow
  have hPlace :
      InSubtree separator m.toLocal
        (m.movedObject now row).localPath := by
    rw [movedObject, placeOf_inside _ hIn]
    exact inSubtree_rebaseText m.toLocal hIn
  rw [holds, Bool.and_eq_true, decide_eq_true_iff]
  exact ⟨hLive, hPlace⟩

theorem back_carries
    (hRow : m.carries row) :
    m.back.carries (m.movedTransfer now row) := by
  obtain ⟨hOpen, hIn⟩ := m.below_of_carries hRow
  have hPlace :
      InSubtree separator m.toLocal
        (m.movedTransfer now row).localPath := by
    rw [movedTransfer, placeOf_inside _ hIn]
    exact inSubtree_rebaseText m.toLocal hIn
  rw [carries, Bool.and_eq_true, decide_eq_true_iff]
  exact ⟨hOpen, hPlace⟩

theorem back_movedObject
    {row : ObjectRow}
    (hPath : ¬ InSubtree separator m.toLocal row.localPath)
    (hKey : ¬ InSubtree '/' m.toRemote row.s3Key) :
    m.back.movedObject later (m.movedObject now row) =
      { row with updatedAt := later } := by
  have hPlace :
      placeOf separator m.toLocal m.fromLocal
        (m.movedObject now row).localPath = row.localPath :=
    placeOf_placeOf hPath
  have hRemote :
      placeOf '/' m.toRemote m.fromRemote
        (m.movedObject now row).s3Key = row.s3Key :=
    placeOf_placeOf hKey
  rw [movedObject]
  simp only [back, hPlace, hRemote]
  rfl

theorem back_movedTransfer
    (hPath : ¬ InSubtree separator m.toLocal row.localPath)
    (hKey :
      row.direction = .upload →
        ¬ InSubtree '/' m.toRemote row.s3Key) :
    m.back.movedTransfer later (m.movedTransfer now row) =
      { row with updatedAt := later } := by
  have hPlace :
      placeOf separator m.toLocal m.fromLocal
        (m.movedTransfer now row).localPath = row.localPath :=
    placeOf_placeOf hPath
  cases hWay : row.direction with
  | upload =>
      have hRemote :
          placeOf '/' m.toRemote m.fromRemote
            (placeOf '/' m.fromRemote m.toRemote row.s3Key) =
              row.s3Key :=
        placeOf_placeOf (hKey hWay)
      rw [movedTransfer]
      simp only [back, hPlace]
      simp [movedTransfer, hWay, hRemote]
  | download =>
      rw [movedTransfer]
      simp only [back, hPlace]
      simp [movedTransfer, hWay]

theorem back_moved
    (hFree : m.Free db) :
    m.back.moved later (m.moved now db) = m.touched later db := by
  have hObjects :
      (m.back.moved later (m.moved now db)).objects =
        (m.touched later db).objects := by
    refine (Table.updateWhere_updateWhere (by intro; rfl)
      (by intro; rfl) (fun row _ => m.back_holds now)
      fun row hRow hOut => ?_).trans
      (Table.updateWhere_congr _ (by intro; rfl)
        (fun _ _ => rfl) fun row hRow hIn => ?_)
    · by_contra hBack
      have hBelow := m.back.below_of_holds
        (Bool.of_not_eq_false hBack)
      exact (hFree.objects row hRow hBelow.1).1 hBelow.2
    · obtain ⟨hPath, hKey⟩ :=
        hFree.objects row hRow (m.below_of_holds hIn).1
      exact m.back_movedObject now later hPath hKey
  have hTransfers :
      (m.back.moved later (m.moved now db)).transferQueue =
        (m.touched later db).transferQueue := by
    refine TransferQueue.ext
      ((Table.updateWhere_updateWhere (by intro; rfl)
        (by intro; rfl) (fun row _ => m.back_carries now)
        fun row hRow hOut => ?_).trans
        (Table.updateWhere_congr _ (by intro; rfl)
          (fun _ _ => rfl) fun row hRow hIn => ?_)) rfl
    · by_contra hBack
      have hBelow := m.back.below_of_carries
        (Bool.of_not_eq_false hBack)
      exact (hFree.transfers row hRow hBelow.1).1 hBelow.2
    · obtain ⟨hPath, hKey⟩ :=
        hFree.transfers row hRow (m.below_of_carries hIn).1
      exact m.back_movedTransfer now later hPath hKey
  calc
    m.back.moved later (m.moved now db) =
        { db with
          objects :=
            (m.back.moved later (m.moved now db)).objects
          transferQueue :=
            (m.back.moved later
              (m.moved now db)).transferQueue } := rfl
    _ = m.touched later db := by
      rw [hObjects, hTransfers]
      rfl

end FolderMove

/-
  The move sets exactly the subtree, name by name, keeps
  different rows apart, and the move back leaves no trace of
  it but the time of the update.
-/
theorem moveSubtree_exact
    {separator : Char}
    (m : FolderMove separator)
    (now later : Timestamp)
    (db : LocalDatabase)
    (hFree : m.Free db) :
    m.run now db = m.moved now db ∧
      m.Apart now db ∧
      m.back.run later (m.run now db) = m.touched later db := by
  refine ⟨run_eq_moved m now db, m.apart_of_free now hFree, ?_⟩
  rw [run_eq_moved, run_eq_moved]
  exact m.back_moved now later hFree

def sampleObject
    (id : FileId)
    (path key : String)
    (state : IndexState) : ObjectRow where
  fileId := id
  localPath := path.toList
  s3Key := key.toList
  size := 3
  state := state
  isFolder := false
  parentId := none
  currentRevisionId := none
  localHash := none
  localMtime := none
  localKey := none
  updatedAt := 0
  metadata := none

/- A picture, one of a sibling, and one that is deleted. -/
def sampleAlbum : LocalDatabase :=
  { LocalDatabase.empty with
    objects :=
      { rows :=
          [sampleObject 1 "/s/a/é_%" "a/é_%" .synced,
            sampleObject 2 "/s/ab/x" "ab/x" .synced,
            sampleObject 3 "/s/a/y" "a/y" .deletedRemotely]
        distinct := by decide } }

def sampleMove : FolderMove '/' where
  fromLocal := "/s/a".toList
  toLocal := "/s/c".toList
  fromRemote := "a".toList
  toRemote := "c".toList
  fromFolder := by decide
  toFolder := by decide

/- The rows of the album by their names. -/
def sampleShown
    (id : FileId)
    (path : List Text)
    (state : IndexState) : RemoteChanges.ObjectRow where
  fileId := id
  localPath := path
  s3Key := path
  size := 3
  state := state
  isFolder := false
  parentId := none
  currentRevisionId := none
  localHash := none
  localMtime := none

def sampleDevice : RemoteChanges.SyncDevice where
  disk := ⟨[]⟩
  objects :=
    [sampleShown 1 [['a'], "é_%".toList] .synced,
      sampleShown 2 ["ab".toList, ['x']] .synced,
      sampleShown 3 [['a'], ['y']] .deletedRemotely]
  transfers := []
  conflicts := []
  bucket := ⟨fun _ => none, fun _ => false, fun _ => none⟩

theorem sampleAlbum_moves_as_names :
    List.Forall₂ (ShowsObject '/' [[], ['s']])
      (sampleMove.run 7 sampleAlbum).objects.rows
      (sampleDevice.moveSubtree [['a']] [['c']]
        (sampleMove.fromRemote.splitOn '/')
        (sampleMove.toRemote.splitOn '/')).objects := by
  refine moveSubtree_shows 7 ⟨by decide, by decide⟩ ?_
  repeat
    apply List.Forall₂.cons
    · exact ⟨rfl, rfl, by decide, by decide⟩
  exact .nil

theorem sampleAlbum_free : sampleMove.Free sampleAlbum where
  objects := by decide
  transfers := by simp [sampleAlbum, LocalDatabase.empty,
    TransferQueue.empty, Table.empty]

theorem moveSubtree_exact_sample :
    sampleMove.run 7 sampleAlbum =
        sampleMove.moved 7 sampleAlbum ∧
      sampleMove.Apart 7 sampleAlbum ∧
      sampleMove.back.run 8 (sampleMove.run 7 sampleAlbum) =
        sampleMove.touched 8 sampleAlbum :=
  moveSubtree_exact sampleMove 7 8 sampleAlbum sampleAlbum_free

/- A deleted row below stays, and the way back is dated. -/
theorem deleted_row_not_moved :
    sampleMove.Free sampleAlbum ∧
      InSubtree '/' "/s/a".toList "/s/a/y".toList ∧
      sampleObject 3 "/s/a/y" "a/y" .deletedRemotely ∈
        (sampleMove.run 7 sampleAlbum).objects.rows ∧
      sampleMove.back.run 8 (sampleMove.run 7 sampleAlbum) ≠
        sampleAlbum := by
  refine ⟨sampleAlbum_free, by decide, by decide, ?_⟩
  intro hSame
  have hRow :
      (sampleMove.back.run 8
        (sampleMove.run 7 sampleAlbum)).objects.find 1 =
          sampleAlbum.objects.find 1 := by
    rw [hSame]
  exact absurd hRow (by decide)

end Db

end S4Drive
