import Mathlib.Data.List.Forall2
import S4Drive.Library.TextLines

/-
  The toolbar actions of the note editor: each takes a text
  with a selection and returns both as they are to be. Some
  edit whole lines, others put marks around the selection.
  A line is searched for from the offset before the
  selection, which fails on an empty first line.

  Main declarations:
    * `applyMarkdownAction`
    * `Precise`, `ActsWell`
    * `applyMarkdownAction_precise_iff`
-/

------------------------------------------------------------
-- The Actions
------------------------------------------------------------

namespace S4Drive.Markdown

open TextLines

inductive MarkdownAction where
  | bold
  | italic
  | heading
  | list
  | task
  | code
  | link
  -- Any other text.
  | unknown
deriving DecidableEq

/- A text with the part of it that is selected. -/
structure MarkdownEdit (α : Type) where
  body : List α
  start : Int
  stop : Int
deriving DecidableEq

section Actions

variable {α : Type} [DecidableEq α]

/- The units of a text that characters are written as. -/
variable (unit : Char → α)

abbrev startsWith (line mark : List α) : Bool :=
  mark.isPrefixOf line

/- `bold` and `italic`. -/
def emphasize
    (body : List α)
    (start stop : Nat)
    (mark : List α) : MarkdownEdit α :=
  if start < stop then
    ⟨body.take start ++ mark ++ slice body start stop ++
        mark ++ body.drop stop,
      start + mark.length, stop + mark.length⟩
  else
    ⟨body.take start ++ mark ++ mark ++ body.drop start,
      start + mark.length, start + mark.length⟩

/- `lastIndexOf` takes an offset of -1 for 0. -/
def firstLineStart (body : List α) (start : Nat) : Nat :=
  (lastIndexOf (unit '\n') body (start - 1) + 1).toNat

def lastLineEnd (body : List α) (stop : Nat) : Nat :=
  if indexOf (unit '\n') body stop = -1 then
    body.length
  else
    (indexOf (unit '\n') body stop).toNat

/- The new line, and by how much the selection moves. -/
def nextHeading (line : List α) : List α × Int :=
  if startsWith line (['#', '#', '#', ' '].map unit) then
    (line.drop 4, -4)
  else if startsWith line (['#', '#', ' '].map unit) then
    (['#', '#', '#', ' '].map unit ++ line.drop 3, 1)
  else if startsWith line (['#', ' '].map unit) then
    (['#', '#', ' '].map unit ++ line.drop 2, 1)
  else
    (['#', ' '].map unit ++ line, 2)

def applyHeading
    (body : List α)
    (start stop : Nat) : MarkdownEdit α :=
  let first := firstLineStart unit body start
  let last := lastLineEnd unit body start
  let next := nextHeading unit (slice body first last)
  ⟨body.take first ++ next.1 ++ body.drop last,
    max first (start + next.2), max first (stop + next.2)⟩

/- `list` and `task`. -/
def editLines
    (edit : List (List α) → List (List α))
    (body : List α)
    (start stop : Nat) : MarkdownEdit α :=
  let first := firstLineStart unit body start
  let last := lastLineEnd unit body stop
  let lines := (slice body first last).splitOn (unit '\n')
  let newBlock := [unit '\n'].intercalate (edit lines)
  ⟨body.take first ++ newBlock ++ body.drop last,
    first, first + newBlock.length⟩

def bullet : List α :=
  ['-', ' '].map unit

def toggleBullets (lines : List (List α)) : List (List α) :=
  if lines.all (startsWith · (bullet unit)) then
    lines.map fun l => l.drop 2
  else
    lines.map fun l =>
      if startsWith l (bullet unit) then
        l
      else
        bullet unit ++ l

/- The mark of a task, with what is in its box. -/
def box (state : Char) : List α :=
  ['-', ' ', '[', state, ']', ' '].map unit

/- `/^- \[[ x]\] /i` -/
def isTask (line : List α) : Bool :=
  startsWith line (box unit ' ') ||
    startsWith line (box unit 'x') ||
    startsWith line (box unit 'X')

def toggleTasks (lines : List (List α)) : List (List α) :=
  if lines.all fun l => startsWith l (box unit ' ') ||
      startsWith l (box unit 'x') then
    lines.map fun l => if isTask unit l then l.drop 6 else l
  else
    lines.map fun l =>
      if startsWith l (box unit ' ') then
        l
      else
        box unit ' ' ++ l

def applyCode
    (body : List α)
    (start stop : Nat) : MarkdownEdit α :=
  let selected := slice body start stop
  if unit '\n' ∈ selected then
    ⟨body.take start ++ ['`', '`', '`', '\n'].map unit ++
        selected ++ ['\n', '`', '`', '`'].map unit ++
        body.drop stop,
      start + 4, stop + 4⟩
  else
    ⟨body.take start ++ ['`'].map unit ++ selected ++
        ['`'].map unit ++ body.drop stop,
      start + 1, stop + 1⟩

def applyLink
    (body : List α)
    (start stop : Nat) : MarkdownEdit α :=
  let selected := slice body start stop
  let linkText :=
    if selected = [] then
      ['l', 'i', 'n', 'k'].map unit
    else
      selected
  ⟨body.take start ++ ['['].map unit ++ linkText ++
      [']', '(', 'u', 'r', 'l', ')'].map unit ++
      body.drop stop,
    start + 1, start + 1 + linkText.length⟩

/- The offset in the text that is closest to a number. -/
def selectionFrom
    (body : List α)
    (selectionStart : Int) : Nat :=
  (max 0 (min selectionStart body.length)).toNat

def selectionTo
    (body : List α)
    (selectionStart selectionEnd : Int) : Nat :=
  (max (selectionFrom body selectionStart : Int)
    (min selectionEnd body.length)).toNat

def applyMarkdownAction
    (body : List α)
    (selectionStart selectionEnd : Int)
    (action : MarkdownAction) : MarkdownEdit α :=
  let start := selectionFrom body selectionStart
  let stop := selectionTo body selectionStart selectionEnd
  match action with
  | .bold => emphasize body start stop (['*', '*'].map unit)
  | .italic => emphasize body start stop (['*'].map unit)
  | .heading => applyHeading unit body start stop
  | .list =>
      editLines unit (toggleBullets unit) body start stop
  | .task => editLines unit (toggleTasks unit) body start stop
  | .code => applyCode unit body start stop
  | .link => applyLink unit body start stop
  | .unknown => ⟨body, start, stop⟩

end Actions

/- A unit of a text of the editor; marks are in ASCII. -/
abbrev CodeUnit := UInt16

def codeUnit (c : Char) : CodeUnit :=
  c.toNat.toUInt16

abbrev JsString := List CodeUnit

------------------------------------------------------------
-- What the Actions Are to Do
------------------------------------------------------------

abbrev lineBreak : CodeUnit :=
  codeUnit '\n'

/- The lines from one offset to another one, as one text. -/
def affected (body : JsString) (start stop : Nat) : JsString :=
  slice body (lineStart lineBreak body start)
    (lineEnd lineBreak body stop)

/- The affected lines become others, and nothing else does. -/
def LinesBecome
    (rel : JsString → JsString → Prop)
    (body : JsString)
    (start stop : Nat)
    (newBody : JsString) : Prop :=
  ∃ newBlock,
    newBody =
      body.take (lineStart lineBreak body start) ++ newBlock ++
        body.drop (lineEnd lineBreak body stop) ∧
    List.Forall₂ rel
      ((affected body start stop).splitOn lineBreak)
      (newBlock.splitOn lineBreak)

/- The selection is between two marks, or `filler` is. -/
def Wrapped
    (opening filler closing : List Char)
    (body : JsString)
    (start stop : Nat)
    (newBody : JsString) : Prop :=
  let selected := slice body start stop
  newBody =
    body.take start ++ opening.map codeUnit ++
      (if selected = [] then filler.map codeUnit else selected) ++
      closing.map codeUnit ++ body.drop stop

def headingMarks : List JsString :=
  [[], ['#', ' '].map codeUnit, ['#', '#', ' '].map codeUnit,
    ['#', '#', '#', ' '].map codeUnit]

/- Two lines have the same content after their marks. -/
def HeadingEdit (old new : JsString) : Prop :=
  ∃ mark ∈ headingMarks, ∃ newMark ∈ headingMarks, ∃ content,
    old = mark ++ content ∧ new = newMark ++ content

def BulletEdit (old new : JsString) : Prop :=
  new = old ∨ new = bullet codeUnit ++ old ∨
    old = bullet codeUnit ++ new

def taskMarks : List JsString :=
  [box codeUnit ' ', box codeUnit 'x', box codeUnit 'X']

def IsTask (line : JsString) : Prop :=
  ∃ mark ∈ taskMarks, ∃ content, line = mark ++ content

/- A line that already is a task gets no second mark. -/
def TaskEdit (old new : JsString) : Prop :=
  new = old ∨
    (¬ IsTask old ∧ new = box codeUnit ' ' ++ old) ∨
    ∃ mark ∈ taskMarks, old = mark ++ new

def SelectionWithin (r : MarkdownEdit CodeUnit) : Prop :=
  0 ≤ r.start ∧ r.start ≤ r.stop ∧ r.stop ≤ r.body.length

/- The action does what it is for, and nothing else. -/
def Precise
    (body : JsString)
    (start stop : Nat)
    (action : MarkdownAction)
    (r : MarkdownEdit CodeUnit) : Prop :=
  SelectionWithin r ∧
    match action with
    | .bold => Wrapped ['*', '*'] [] ['*', '*'] body start stop
        r.body
    | .italic => Wrapped ['*'] [] ['*'] body start stop r.body
    | .heading => LinesBecome HeadingEdit body start start r.body
    | .list => LinesBecome BulletEdit body start stop r.body
    | .task => LinesBecome TaskEdit body start stop r.body
    | .code =>
        if lineBreak ∈ slice body start stop then
          Wrapped ['`', '`', '`', '\n'] [] ['\n', '`', '`', '`']
            body start stop r.body
        else
          Wrapped ['`'] [] ['`'] body start stop r.body
    | .link =>
        Wrapped ['['] ['l', 'i', 'n', 'k']
          [']', '(', 'u', 'r', 'l', ')'] body start stop r.body
    | .unknown => r.body = body

/- The selection starts on a first line that is empty. -/
def OnEmptyFirst (body : JsString) (start : Nat) : Prop :=
  start = 0 ∧ body.head? = some lineBreak

instance (body : JsString) (start : Nat) :
    Decidable (OnEmptyFirst body start) :=
  inferInstanceAs (Decidable (_ ∧ _))

/- The affected lines without an empty first one. -/
def taskLines
    (body : JsString)
    (start stop : Nat) : List JsString :=
  let lines := (affected body start stop).splitOn lineBreak
  if OnEmptyFirst body start then lines.tail else lines

/- All lines are tasks, or no line is one that was ticked. -/
def TasksAlike (lines : List JsString) : Prop :=
  (∀ l ∈ lines, startsWith l (box codeUnit ' ') = true ∨
    startsWith l (box codeUnit 'x') = true) ∨
  ∀ l ∈ lines, startsWith l (box codeUnit 'x') = false ∧
    startsWith l (box codeUnit 'X') = false

def ActsWell
    (body : JsString)
    (start stop : Nat) : MarkdownAction → Prop
  | .heading => ¬ OnEmptyFirst body start
  | .list => ¬ (OnEmptyFirst body start ∧ stop = 0)
  | .task => ¬ (OnEmptyFirst body start ∧ stop = 0) ∧
      TasksAlike (taskLines body start stop)
  | _ => True

variable {body : JsString} {start stop : Nat}
variable {rel : JsString → JsString → Prop}

theorem selectionFrom_le_length (selectionStart : Int) :
    selectionFrom body selectionStart ≤ body.length := by
  unfold selectionFrom
  omega

theorem selectionFrom_le_selectionTo
    (selectionStart selectionEnd : Int) :
    selectionFrom body selectionStart ≤
      selectionTo body selectionStart selectionEnd := by
  unfold selectionTo
  omega

theorem selectionTo_le_length
    (selectionStart selectionEnd : Int) :
    selectionTo body selectionStart selectionEnd ≤
      body.length := by
  have hStart : selectionFrom body selectionStart ≤ body.length :=
    selectionFrom_le_length selectionStart
  unfold selectionTo
  omega

theorem OnEmptyFirst.body_eq
    (h : OnEmptyFirst body start) :
    ∃ rest, body = lineBreak :: rest := by
  cases body with
  | nil => cases h.2
  | cons x rest =>
      cases h.2
      exact ⟨rest, rfl⟩

theorem firstLineStart_onEmptyFirst
    (h : OnEmptyFirst body start) :
    firstLineStart codeUnit body start = 1 := by
  rcases h.body_eq with ⟨rest, rfl⟩
  rw [h.1]
  rfl

theorem firstLineStart_eq
    (hStart : start ≤ body.length)
    (h : ¬ OnEmptyFirst body start) :
    firstLineStart codeUnit body start =
      lineStart lineBreak body start := by
  cases start with
  | zero =>
      have hOther : body[0]? ≠ some lineBreak := by
        intro hHead
        apply h
        rw [← List.head?_eq_getElem?] at hHead
        exact ⟨rfl, hHead⟩
      have hNone :
          lastIndexOf lineBreak body ((0 : Nat) - 1) = -1 := by
        show (if body[0]? = some lineBreak then _ else _) = _
        rw [if_neg hOther]
        rfl
      unfold firstLineStart
      rw [hNone]
      rfl
  | succ n =>
      have hBefore : ((n + 1 : Nat) : Int) - 1 = n := by omega
      unfold firstLineStart
      rw [hBefore, lastIndexOf_add_one hStart]
      rfl

theorem lastLineEnd_eq
    (hEnd : stop ≤ body.length) :
    lastLineEnd codeUnit body stop =
      lineEnd lineBreak body stop :=
  indexOf_eq_lineEnd hEnd

theorem lineEnd_onEmptyFirst
    (h : OnEmptyFirst body start) :
    lineEnd lineBreak body 0 = 0 := by
  rcases h.body_eq with ⟨rest, rfl⟩
  simp [lineEnd]

theorem firstLineStart_le
    (hStart : start ≤ body.length) :
    firstLineStart codeUnit body start ≤ body.length := by
  by_cases h : OnEmptyFirst body start
  · rw [firstLineStart_onEmptyFirst h]
    rcases h.body_eq with ⟨rest, rfl⟩
    exact Nat.succ_pos _
  · rw [firstLineStart_eq hStart h]
    exact lineStart_le.trans hStart

/- What is between the same texts is the same. -/
theorem linesBecome_iff
    {newBlock : JsString} :
    LinesBecome rel body start stop
      (body.take (lineStart lineBreak body start) ++ newBlock ++
        body.drop (lineEnd lineBreak body stop)) ↔
    List.Forall₂ rel
      ((affected body start stop).splitOn lineBreak)
      (newBlock.splitOn lineBreak) := by
  constructor
  · rintro ⟨other, hSame, hLines⟩
    rw [List.append_assoc, List.append_assoc,
      List.append_cancel_left_eq,
      List.append_cancel_right_eq] at hSame
    rw [hSame]
    exact hLines
  · intro hLines
    exact ⟨newBlock, rfl, hLines⟩

variable {edit : List JsString → List JsString}

/- Lines put in place of the affected ones. -/
theorem editLines_becomes_iff
    (hStart : start ≤ body.length)
    (hEnd : stop ≤ body.length)
    (hNot : ¬ OnEmptyFirst body start)
    (hClean :
      ∀ l ∈ edit ((affected body start stop).splitOn lineBreak),
        lineBreak ∉ l)
    (hSome :
      edit ((affected body start stop).splitOn lineBreak) ≠
        []) :
    LinesBecome rel body start stop
      (editLines codeUnit edit body start stop).body ↔
    List.Forall₂ rel
      ((affected body start stop).splitOn lineBreak)
      (edit ((affected body start stop).splitOn lineBreak)) := by
  have hFirst := firstLineStart_eq hStart hNot
  have hLast := lastLineEnd_eq hEnd
  unfold editLines
  rw [hFirst, hLast]
  dsimp only
  rw [linesBecome_iff]
  unfold affected at hClean hSome ⊢
  rw [List.splitOn_intercalate _ hClean hSome]

theorem splitOn_lineBreak_cons (l : JsString) :
    (lineBreak :: l).splitOn lineBreak =
      [] :: l.splitOn lineBreak := by
  rw [List.splitOn_cons_eq_if_modifyHead, if_pos (by simp)]

/- The empty line is above the lines that are edited. -/
theorem affected_onEmptyFirst
    (hOn : OnEmptyFirst body start)
    (hEnd : 0 < stop) :
    affected body start stop =
      lineBreak ::
        slice body 1 (lineEnd lineBreak body stop) := by
  rcases hOn.body_eq with ⟨rest, hBody⟩
  have hLast : 0 < lineEnd lineBreak body stop :=
    hEnd.trans_le le_lineEnd
  rcases Nat.exists_eq_add_of_lt hLast with ⟨n, hLines⟩
  unfold affected slice
  rw [hOn.1, hLines, Nat.zero_add, hBody]
  rfl

theorem editLines_onEmptyFirst_iff
    {lines : List JsString}
    (hOn : OnEmptyFirst body start)
    (hPositive : 0 < stop)
    (hEnd : stop ≤ body.length)
    (hLines :
      lines =
        ((affected body start stop).splitOn lineBreak).tail)
    (hClean : ∀ l ∈ edit lines, lineBreak ∉ l)
    (hSome : edit lines ≠ []) :
    LinesBecome rel body start stop
      (editLines codeUnit edit body start stop).body ↔
    rel [] [] ∧ List.Forall₂ rel lines (edit lines) := by
  have hAffected := affected_onEmptyFirst hOn hPositive
  rw [hAffected, splitOn_lineBreak_cons, List.tail_cons]
    at hLines
  have hBody :
      (editLines codeUnit edit body start stop).body =
        body.take (lineStart lineBreak body start) ++
          (lineBreak :: [lineBreak].intercalate (edit lines)) ++
          body.drop (lineEnd lineBreak body stop) := by
    unfold editLines
    rw [firstLineStart_onEmptyFirst hOn, lastLineEnd_eq hEnd]
    dsimp only
    rw [← hLines, hOn.1, lineStart_zero]
    rcases hOn.body_eq with ⟨rest, hRest⟩
    rw [hRest]
    rfl
  rw [hBody, linesBecome_iff, hAffected, splitOn_lineBreak_cons,
    splitOn_lineBreak_cons, List.forall₂_cons,
    List.splitOn_intercalate _ hClean hSome, ← hLines]

/- The line break of an empty first line is written twice. -/
theorem not_linesBecome_onEmptyFirst
    {newLine : JsString}
    (hOn : OnEmptyFirst body start) :
    ¬ LinesBecome rel body start 0
      (body.take 1 ++ newLine ++ body.drop 0) := by
  have hBody :
      body.take 1 ++ newLine ++ body.drop 0 =
        body.take (lineStart lineBreak body start) ++
          (lineBreak :: newLine) ++
          body.drop (lineEnd lineBreak body 0) := by
    rw [lineEnd_onEmptyFirst hOn, hOn.1, lineStart_zero]
    rcases hOn.body_eq with ⟨rest, hRest⟩
    rw [hRest]
    rfl
  have hNone : affected body start 0 = [] := by
    unfold affected
    rw [lineEnd_onEmptyFirst hOn, hOn.1, lineStart_zero]
    rfl
  rw [hBody, linesBecome_iff, hNone, splitOn_lineBreak_cons,
    List.splitOn_nil, List.forall₂_cons]
  rintro ⟨_, hRest⟩
  exact List.splitOn_ne_nil _ _
    (List.forall₂_nil_left_iff.mp hRest)

------------------------------------------------------------
-- Lines and Their Marks
------------------------------------------------------------

theorem startsWith_iff {line mark : JsString} :
    startsWith line mark = true ↔
      ∃ content, line = mark ++ content := by
  rw [List.isPrefixOf_iff_prefix]
  constructor
  · rintro ⟨content, rfl⟩
    exact ⟨content, rfl⟩
  · rintro ⟨content, rfl⟩
    exact ⟨content, rfl⟩

theorem nextHeading_edits (line : JsString) :
    HeadingEdit line (nextHeading codeUnit line).1 := by
  unfold nextHeading
  split
  case isTrue h =>
    rcases startsWith_iff.mp h with ⟨content, rfl⟩
    exact ⟨_, by simp [headingMarks], [], by simp [headingMarks],
      content, rfl, rfl⟩
  split
  case isTrue h =>
    rcases startsWith_iff.mp h with ⟨content, rfl⟩
    exact ⟨_, by simp [headingMarks], _, by simp [headingMarks],
      content, rfl, rfl⟩
  split
  case isTrue h =>
    rcases startsWith_iff.mp h with ⟨content, rfl⟩
    exact ⟨_, by simp [headingMarks], _, by simp [headingMarks],
      content, rfl, rfl⟩
  case isFalse =>
    exact ⟨[], by simp [headingMarks], _, by simp [headingMarks],
      line, rfl, rfl⟩

/- The selection moves by as much as the line grows. -/
theorem nextHeading_length (line : JsString) :
    ((nextHeading codeUnit line).1.length : Int) =
      line.length + (nextHeading codeUnit line).2 := by
  unfold nextHeading
  split
  case isTrue h =>
    rcases startsWith_iff.mp h with ⟨content, rfl⟩
    simp
    omega
  split
  case isTrue h =>
    rcases startsWith_iff.mp h with ⟨content, rfl⟩
    simp
  split
  case isTrue h =>
    rcases startsWith_iff.mp h with ⟨content, rfl⟩
    simp
  case isFalse =>
    simp
    omega

/- Marks have no line breaks, nor do parts of clean lines. -/
theorem clean_append
    {mark line : JsString}
    (hMark : lineBreak ∉ mark)
    (hLine : lineBreak ∉ line) : lineBreak ∉ mark ++ line := by
  intro hMem
  rcases List.mem_append.mp hMem with hMem | hMem
  · exact hMark hMem
  · exact hLine hMem

theorem clean_drop
    {line : JsString} (n : Nat)
    (hLine : lineBreak ∉ line) : lineBreak ∉ line.drop n :=
  fun hMem => hLine (List.mem_of_mem_drop hMem)

variable {line : JsString}

theorem nextHeading_clean
    (hLine : lineBreak ∉ line) :
    lineBreak ∉ (nextHeading codeUnit line).1 := by
  unfold nextHeading
  split
  · exact clean_drop 4 hLine
  split
  · exact clean_append (by decide) (clean_drop 3 hLine)
  split
  · exact clean_append (by decide) (clean_drop 2 hLine)
  · exact clean_append (by decide) hLine

variable {lines : List JsString}

theorem toggleBullets_edits (lines : List JsString) :
    List.Forall₂ BulletEdit lines
      (toggleBullets codeUnit lines) := by
  unfold toggleBullets
  split
  case isTrue hAll =>
    rw [List.forall₂_map_right_iff, List.forall₂_same]
    intro l hl
    have hBullet := List.all_eq_true.mp hAll l hl
    rcases startsWith_iff.mp hBullet with ⟨content, rfl⟩
    exact .inr (.inr rfl)
  case isFalse =>
    rw [List.forall₂_map_right_iff, List.forall₂_same]
    intro l hl
    split
    · exact .inl rfl
    · exact .inr (.inl rfl)

theorem toggleBullets_clean
    (h : ∀ l ∈ lines, lineBreak ∉ l) :
    ∀ l ∈ toggleBullets codeUnit lines, lineBreak ∉ l := by
  have hMark : lineBreak ∉ bullet codeUnit := by decide
  unfold toggleBullets
  split
  · intro l hl
    rcases List.mem_map.mp hl with ⟨line, hLine, rfl⟩
    exact clean_drop 2 (h line hLine)
  · intro l hl
    rcases List.mem_map.mp hl with ⟨line, hLine, rfl⟩
    split
    · exact h line hLine
    · exact clean_append hMark (h line hLine)

theorem toggleBullets_ne_nil
    (h : lines ≠ []) : toggleBullets codeUnit lines ≠ [] := by
  unfold toggleBullets
  split <;> simpa using h

theorem isTask_iff {line : JsString} :
    isTask codeUnit line = true ↔ IsTask line := by
  unfold isTask IsTask taskMarks
  simp only [Bool.or_eq_true, startsWith_iff, List.mem_cons,
    List.not_mem_nil, or_false, exists_eq_or_imp, exists_eq_left]
  rw [or_assoc]

theorem taskMark_length :
    ∀ mark ∈ taskMarks, mark.length = 6 := by
  decide

/- A task without its mark. -/
theorem isTask_drop
    (h : IsTask line) :
    ∃ mark ∈ taskMarks, line = mark ++ line.drop 6 := by
  rcases h with ⟨mark, hMark, content, rfl⟩
  refine ⟨mark, hMark, ?_⟩
  rw [← taskMark_length mark hMark, List.drop_left]

/- A second mark makes a task no other line of the kind. -/
theorem not_taskEdit_of_isTask
    (h : IsTask line) :
    ¬ TaskEdit line (box codeUnit ' ' ++ line) := by
  have hLonger :
      (box codeUnit ' ' ++ line).length = 6 + line.length := by
    rw [List.length_append]
    rfl
  rintro (hSame | ⟨hNot, _⟩ | ⟨mark, _, hLess⟩)
  · rw [hSame] at hLonger
    omega
  · exact hNot h
  · have hLength := congrArg List.length hLess
    rw [List.length_append, hLonger] at hLength
    omega

/- An open box is no ticked one. -/
theorem unticked_of_open
    (h : startsWith line (box codeUnit ' ') = true) :
    startsWith line (box codeUnit 'x') = false ∧
      startsWith line (box codeUnit 'X') = false := by
  rcases startsWith_iff.mp h with ⟨content, rfl⟩
  exact ⟨rfl, rfl⟩

/- A ticked box gets an open one in front of it. -/
theorem toggleTasks_edits_iff :
    List.Forall₂ TaskEdit lines (toggleTasks codeUnit lines) ↔
      TasksAlike lines := by
  unfold toggleTasks
  split
  case isTrue hAll =>
    have hTasks :
        ∀ l ∈ lines, startsWith l (box codeUnit ' ') = true ∨
          startsWith l (box codeUnit 'x') = true := by
      intro l hl
      have hTask := List.all_eq_true.mp hAll l hl
      rwa [Bool.or_eq_true] at hTask
    apply iff_of_true _ (.inl hTasks)
    rw [List.forall₂_map_right_iff, List.forall₂_same]
    intro l hl
    split
    case isTrue hTask =>
      exact .inr (.inr (isTask_drop (isTask_iff.mp hTask)))
    case isFalse => exact .inl rfl
  case isFalse hSome =>
    rw [List.forall₂_map_right_iff, List.forall₂_same]
    constructor
    · intro hEdits
      refine .inr fun l hl => ?_
      have hEdit := hEdits l hl
      split at hEdit
      case isTrue hOpen => exact unticked_of_open hOpen
      case isFalse =>
        have hNot : ¬ IsTask l :=
          fun hTask => not_taskEdit_of_isTask hTask hEdit
        rw [← isTask_iff, isTask, Bool.or_eq_true,
          Bool.or_eq_true, not_or, not_or, Bool.not_eq_true,
          Bool.not_eq_true, Bool.not_eq_true] at hNot
        exact ⟨hNot.1.2, hNot.2⟩
    · rintro (hAll | hUnticked)
      · exact absurd (List.all_eq_true.mpr fun l hl => by
          rw [Bool.or_eq_true]
          exact hAll l hl) hSome
      · intro l hl
        split
        case isTrue => exact .inl rfl
        case isFalse hOther =>
          refine .inr (.inl ⟨fun hTask => ?_, rfl⟩)
          rw [← isTask_iff] at hTask
          rcases hUnticked l hl with ⟨hDone, hUpper⟩
          rw [isTask, hDone, hUpper, Bool.or_false,
            Bool.or_false] at hTask
          exact hOther hTask

theorem toggleTasks_clean
    (h : ∀ l ∈ lines, lineBreak ∉ l) :
    ∀ l ∈ toggleTasks codeUnit lines, lineBreak ∉ l := by
  have hMark : lineBreak ∉ box codeUnit ' ' := by decide
  unfold toggleTasks
  split
  · intro l hl
    rcases List.mem_map.mp hl with ⟨line, hLine, rfl⟩
    split
    · exact clean_drop 6 (h line hLine)
    · exact h line hLine
  · intro l hl
    rcases List.mem_map.mp hl with ⟨line, hLine, rfl⟩
    split
    · exact h line hLine
    · exact clean_append hMark (h line hLine)

theorem toggleTasks_ne_nil
    (h : lines ≠ []) : toggleTasks codeUnit lines ≠ [] := by
  unfold toggleTasks
  split <;> simpa using h

theorem length_replaced
    {first : Nat}
    (hFirst : first ≤ body.length)
    (newText : JsString)
    (last : Nat) :
    (body.take first ++ newText ++ body.drop last).length =
      first + newText.length + (body.length - last) := by
  rw [List.length_append, List.length_append, List.length_take,
    List.length_drop, min_eq_left hFirst]

/- What is between two marks is within the new text. -/
theorem within_of_marked
    {r : MarkdownEdit CodeUnit}
    {opening middle closing : JsString}
    (hFirst : start ≤ body.length)
    (hBody :
      r.body = body.take start ++ opening ++ middle ++ closing ++
        body.drop stop)
    (hStart : r.start = start + opening.length)
    (hEnd : r.stop = start + opening.length + middle.length) :
    SelectionWithin r := by
  have hLength :
      r.body.length =
        start + (opening ++ middle ++ closing).length +
          (body.length - stop) := by
    rw [hBody, ← length_replaced hFirst]
    simp only [List.append_assoc]
  rw [List.length_append, List.length_append] at hLength
  unfold SelectionWithin
  omega

theorem applyHeading_within
    (hStart : start ≤ stop)
    (hEnd : stop ≤ body.length) :
    SelectionWithin (applyHeading codeUnit body start stop) := by
  have hFirst := firstLineStart_le (hStart.trans hEnd)
  have hLast := lastLineEnd_eq (hStart.trans hEnd)
  have hWithin :
      lastLineEnd codeUnit body start ≤ body.length := by
    rw [hLast]
    exact lineEnd_le (hStart.trans hEnd)
  unfold applyHeading SelectionWithin
  dsimp only
  rw [length_replaced hFirst]
  have hLine := length_slice (i := firstLineStart codeUnit body
    start) hWithin
  have hNext := nextHeading_length
    (slice body (firstLineStart codeUnit body start)
      (lastLineEnd codeUnit body start))
  omega

theorem editLines_within
    (hStart : start ≤ body.length) :
    SelectionWithin
      (editLines codeUnit edit body start stop) := by
  have hFirst := firstLineStart_le hStart
  unfold editLines SelectionWithin
  dsimp only
  rw [length_replaced hFirst]
  omega

/- Nothing is put in for a selection that is empty. -/
theorem wrapped_nil_iff
    {opening closing : List Char} {newBody : JsString} :
    Wrapped opening [] closing body start stop newBody ↔
      newBody =
        body.take start ++ opening.map codeUnit ++
          slice body start stop ++ closing.map codeUnit ++
          body.drop stop := by
  have hFilled :
      (if slice body start stop = [] then
        [].map codeUnit
      else
        slice body start stop) = slice body start stop := by
    split
    · rename_i hNone
      exact hNone.symm
    · rfl
  unfold Wrapped
  dsimp only
  rw [hFilled]

theorem emphasize_precise
    (mark : List Char)
    (hStart : start ≤ stop)
    (hEnd : stop ≤ body.length) :
    SelectionWithin
        (emphasize body start stop (mark.map codeUnit)) ∧
      Wrapped mark [] mark body start stop
        (emphasize body start stop (mark.map codeUnit)).body := by
  have hLength := length_slice (i := start) hEnd
  rw [wrapped_nil_iff]
  by_cases hSome : start < stop
  · have hResult :
        emphasize body start stop (mark.map codeUnit) =
          ⟨body.take start ++ mark.map codeUnit ++
              slice body start stop ++ mark.map codeUnit ++
              body.drop stop,
            start + (mark.map codeUnit).length,
            stop + (mark.map codeUnit).length⟩ := if_pos hSome
    rw [hResult]
    refine ⟨within_of_marked (hStart.trans hEnd) rfl rfl ?_, rfl⟩
    dsimp only
    omega
  · have hSame : start = stop :=
      hStart.antisymm (Nat.le_of_not_lt hSome)
    have hNone : slice body start stop = [] :=
      slice_of_le hSame.ge
    have hResult :
        emphasize body start stop (mark.map codeUnit) =
          ⟨body.take start ++ mark.map codeUnit ++
              mark.map codeUnit ++ body.drop start,
            start + (mark.map codeUnit).length,
            start + (mark.map codeUnit).length⟩ := if_neg hSome
    have hBody :
        body.take start ++ mark.map codeUnit ++
            mark.map codeUnit ++ body.drop start =
          body.take start ++ mark.map codeUnit ++
            slice body start stop ++ mark.map codeUnit ++
            body.drop stop := by
      rw [hNone, List.append_nil, ← hSame]
    rw [hResult]
    refine ⟨within_of_marked (hStart.trans hEnd) hBody rfl ?_,
      hBody⟩
    dsimp only
    omega

theorem applyCode_precise
    (hStart : start ≤ stop)
    (hEnd : stop ≤ body.length) :
    SelectionWithin (applyCode codeUnit body start stop) ∧
      if lineBreak ∈ slice body start stop then
        Wrapped ['`', '`', '`', '\n'] [] ['\n', '`', '`', '`']
          body start stop (applyCode codeUnit body start stop).body
      else
        Wrapped ['`'] [] ['`'] body start stop
          (applyCode codeUnit body start stop).body := by
  have hLength := length_slice (i := start) hEnd
  unfold applyCode
  dsimp only
  split
  · rw [wrapped_nil_iff]
    refine ⟨within_of_marked (hStart.trans hEnd) rfl rfl ?_, rfl⟩
    simp only [List.length_map, List.length_cons,
      List.length_nil]
    omega
  · rw [wrapped_nil_iff]
    refine ⟨within_of_marked (hStart.trans hEnd) rfl rfl ?_, rfl⟩
    simp only [List.length_map, List.length_cons,
      List.length_nil]
    omega

theorem applyLink_precise
    (hStart : start ≤ body.length) :
    SelectionWithin (applyLink codeUnit body start stop) ∧
      Wrapped ['['] ['l', 'i', 'n', 'k']
        [']', '(', 'u', 'r', 'l', ')'] body start stop
        (applyLink codeUnit body start stop).body :=
  ⟨within_of_marked hStart rfl rfl rfl, rfl⟩

------------------------------------------------------------
-- What the Actions Do
------------------------------------------------------------

theorem affected_clean :
    ∀ l ∈ (affected body start stop).splitOn lineBreak,
      lineBreak ∉ l :=
  fun _ => not_mem_of_mem_splitOn

theorem affected_ne_nil :
    (affected body start stop).splitOn lineBreak ≠ [] :=
  List.splitOn_ne_nil _ _

/- The lines below the empty one, when there are any. -/
theorem tail_ne_nil
    (hOn : OnEmptyFirst body start)
    (hEnd : 0 < stop) :
    ((affected body start stop).splitOn lineBreak).tail ≠ [] := by
  rw [affected_onEmptyFirst hOn hEnd, splitOn_lineBreak_cons,
    List.tail_cons]
  exact List.splitOn_ne_nil _ _

theorem tail_clean :
    ∀ l ∈ ((affected body start stop).splitOn lineBreak).tail,
      lineBreak ∉ l :=
  fun l hl => affected_clean l (List.mem_of_mem_tail hl)

theorem not_editLines_becomes
    (hOn : OnEmptyFirst body start) :
    ¬ LinesBecome rel body start 0
      (editLines codeUnit edit body start 0).body := by
  unfold editLines
  rw [firstLineStart_onEmptyFirst hOn,
    lastLineEnd_eq (Nat.zero_le _), lineEnd_onEmptyFirst hOn]
  exact not_linesBecome_onEmptyFirst hOn

/-
  An edit that is right on all lines is right on the text
  unless the selection is within an empty first line.
-/
theorem editLines_becomes_of_lines
    (hEnd : stop ≤ body.length)
    (hStart : start ≤ stop)
    (hClean :
      ∀ lines : List JsString, (∀ l ∈ lines, lineBreak ∉ l) →
        ∀ l ∈ edit lines, lineBreak ∉ l)
    (hSome :
      ∀ lines : List JsString, lines ≠ [] → edit lines ≠ [])
    (hRefl : rel [] []) :
    LinesBecome rel body start stop
      (editLines codeUnit edit body start stop).body ↔
    ¬ (OnEmptyFirst body start ∧ stop = 0) ∧
      List.Forall₂ rel (taskLines body start stop)
        (edit (taskLines body start stop)) := by
  by_cases hOn : OnEmptyFirst body start
  · have hLines :
        taskLines body start stop =
          ((affected body start stop).splitOn lineBreak).tail :=
      if_pos hOn
    rcases Nat.eq_zero_or_pos stop with rfl | hPositive
    · apply iff_of_false (not_editLines_becomes hOn)
      exact fun h => h.1 ⟨hOn, rfl⟩
    · have hOutside : ¬ (OnEmptyFirst body start ∧ stop = 0) :=
        fun h => hPositive.ne' h.2
      rw [hLines, and_iff_right hOutside,
        editLines_onEmptyFirst_iff hOn hPositive hEnd rfl
          (hClean _ tail_clean)
          (hSome _ (tail_ne_nil hOn hPositive))]
      exact and_iff_right hRefl
  · have hLines :
        taskLines body start stop =
          (affected body start stop).splitOn lineBreak :=
      if_neg hOn
    have hOutside : ¬ (OnEmptyFirst body start ∧ stop = 0) :=
      fun h => hOn h.1
    rw [hLines, and_iff_right hOutside]
    exact editLines_becomes_iff (hStart.trans hEnd) hEnd hOn
      (hClean _ affected_clean) (hSome _ affected_ne_nil)

theorem list_becomes_iff
    (hStart : start ≤ stop)
    (hEnd : stop ≤ body.length) :
    LinesBecome BulletEdit body start stop
      (editLines codeUnit (toggleBullets codeUnit) body start
        stop).body ↔
    ¬ (OnEmptyFirst body start ∧ stop = 0) := by
  rw [editLines_becomes_of_lines hEnd hStart
    (fun _ => toggleBullets_clean)
    (fun _ => toggleBullets_ne_nil) (.inl rfl)]
  exact and_iff_left (toggleBullets_edits _)

theorem task_becomes_iff
    (hStart : start ≤ stop)
    (hEnd : stop ≤ body.length) :
    LinesBecome TaskEdit body start stop
      (editLines codeUnit (toggleTasks codeUnit) body start
        stop).body ↔
    ¬ (OnEmptyFirst body start ∧ stop = 0) ∧
      TasksAlike (taskLines body start stop) := by
  rw [editLines_becomes_of_lines hEnd hStart
    (fun _ => toggleTasks_clean)
    (fun _ => toggleTasks_ne_nil) (.inl rfl)]
  exact and_congr_right fun _ => toggleTasks_edits_iff

theorem heading_becomes_iff
    (hStart : start ≤ body.length) :
    LinesBecome HeadingEdit body start start
      (applyHeading codeUnit body start stop).body ↔
    ¬ OnEmptyFirst body start := by
  have hLast := lastLineEnd_eq hStart
  by_cases hOn : OnEmptyFirst body start
  · refine iff_of_false ?_ (not_not.mpr hOn)
    have hZero := hOn.1
    subst hZero
    unfold applyHeading
    rw [firstLineStart_onEmptyFirst hOn, hLast,
      lineEnd_onEmptyFirst hOn]
    exact not_linesBecome_onEmptyFirst hOn
  · refine iff_of_true ?_ hOn
    unfold applyHeading
    rw [firstLineStart_eq hStart hOn, hLast]
    dsimp only
    rw [linesBecome_iff]
    have hLine : lineBreak ∉ affected body start start :=
      not_mem_line hStart
    rw [List.splitOn_eq_singleton hLine]
    unfold affected at hLine ⊢
    rw [List.splitOn_eq_singleton (nextHeading_clean hLine)]
    exact .cons (nextHeading_edits _) .nil

/-
  An action does what it is for, and nothing else, iff it is
  not given an empty first line, or tasks of which some are
  ticked beside lines that are no tasks.
-/
theorem applyMarkdownAction_precise_iff
    (body : JsString)
    (selectionStart selectionEnd : Int)
    (action : MarkdownAction) :
    Precise body (selectionFrom body selectionStart)
      (selectionTo body selectionStart selectionEnd) action
      (applyMarkdownAction codeUnit body selectionStart
        selectionEnd action) ↔
    ActsWell body (selectionFrom body selectionStart)
      (selectionTo body selectionStart selectionEnd) action := by
  have hStart : selectionFrom body selectionStart ≤
      selectionTo body selectionStart selectionEnd :=
    selectionFrom_le_selectionTo selectionStart selectionEnd
  have hEnd : selectionTo body selectionStart selectionEnd ≤
      body.length :=
    selectionTo_le_length selectionStart selectionEnd
  have hFirst := hStart.trans hEnd
  unfold Precise
  cases action with
  | bold =>
      exact iff_of_true
        (emphasize_precise ['*', '*'] hStart hEnd) trivial
  | italic =>
      exact iff_of_true (emphasize_precise ['*'] hStart hEnd)
        trivial
  | heading =>
      exact (and_iff_right (applyHeading_within hStart hEnd)).trans
        (heading_becomes_iff hFirst)
  | list =>
      exact (and_iff_right (editLines_within hFirst)).trans
        (list_becomes_iff hStart hEnd)
  | task =>
      exact (and_iff_right (editLines_within hFirst)).trans
        (task_becomes_iff hStart hEnd)
  | code =>
      exact iff_of_true (applyCode_precise hStart hEnd) trivial
  | link =>
      exact iff_of_true (applyLink_precise hFirst) trivial
  | unknown =>
      refine iff_of_true ⟨?_, rfl⟩ trivial
      unfold SelectionWithin applyMarkdownAction
      dsimp only
      omega

def text (chars : List Char) : JsString :=
  chars.map codeUnit

/- A line that is no task, and a task that is done. -/
def doneBelow : JsString :=
  text ['a', '\n', '-', ' ', '[', 'x', ']', ' ', 'b']

/-
  A heading on the empty first line of a text adds a line,
  and the done task gets a second box.
-/
theorem actions_do_more :
    (applyMarkdownAction codeUnit (text ['\n', 'a']) 0 0
        .heading).body =
      text ['\n', '#', ' ', '\n', 'a'] ∧
    ¬ Precise (text ['\n', 'a']) 0 0 .heading
      (applyMarkdownAction codeUnit (text ['\n', 'a']) 0 0
        .heading) ∧
    (applyMarkdownAction codeUnit doneBelow 0 9 .task).body =
      text ['-', ' ', '[', ' ', ']', ' ', 'a', '\n',
        '-', ' ', '[', ' ', ']', ' ',
        '-', ' ', '[', 'x', ']', ' ', 'b'] ∧
    ¬ Precise doneBelow 0 9 .task
      (applyMarkdownAction codeUnit doneBelow 0 9 .task) := by
  refine ⟨by decide, ?_, by decide, ?_⟩
  · rintro ⟨_, hLines⟩
    exact (heading_becomes_iff (Nat.zero_le _)).mp hLines
      ⟨rfl, rfl⟩
  · rintro ⟨_, hLines⟩
    have hAlike :=
      ((task_becomes_iff (Nat.zero_le 9) (by decide)).mp
        hLines).2
    revert hAlike
    unfold TasksAlike
    decide

end S4Drive.Markdown
