import Mathlib.Data.List.Basic

/-
  Paths as texts: what stands between the slashes, the
  components, joins, and what is left of a path below another
  one. Slashes that repeat and names `.` count for nothing
  but at the start.

  Main declarations:
    * `components`, `fileName`, `stripPrefix`
    * `EntryName`, `joinAll`
    * `components_joinAll`, `stripPrefix_joinAll`
-/

namespace PathText

abbrev Text := List Char

------------------------------------------------------------
-- Components
------------------------------------------------------------

inductive Component where
  | rootDir
  | curDir
  | parentDir
  | normal (name : Text)
deriving DecidableEq

/- What stands between the slashes. -/
def segments : Text → List Text
  | [] => [[]]
  | c :: rest =>
      if c = '/' then
        [] :: segments rest
      else
        match segments rest with
        | [] => [[c]]
        | segment :: more => (c :: segment) :: more

/- A segment after the start of a path. -/
def bodyComponent (segment : Text) : Option Component :=
  if segment = [] ∨ segment = ['.'] then
    none
  else if segment = ['.', '.'] then
    some .parentDir
  else
    some (.normal segment)

def leadComponent (path : Text) : List Component :=
  if path.head? = some '/' then
    [.rootDir]
  else if (segments path).head? = some ['.'] then
    [.curDir]
  else
    []

def bodyComponents (path : Text) : List Component :=
  (segments path).filterMap bodyComponent

def components (path : Text) : List Component :=
  leadComponent path ++ bodyComponents path

def fileName (path : Text) : Option Text :=
  match (components path).getLast? with
  | some (.normal name) => some name
  | _ => none

/- The texts with a slash between each two. -/
def slashJoin (texts : List Text) : Text :=
  ['/'].intercalate texts

/- The segments from the component of that number on. -/
def afterComponents : Nat → List Text → List Text
  | _, [] => []
  | 0, segment :: rest =>
      if (bodyComponent segment).isNone then
        afterComponents 0 rest
      else
        segment :: rest
  | n + 1, segment :: rest =>
      if (bodyComponent segment).isNone then
        afterComponents (n + 1) rest
      else
        afterComponents n rest

/- What is left of a path below `base`, as it was written. -/
def stripPrefix (path base : Text) : Option Text :=
  if (components base).isPrefixOf (components path) then
    if components base = [] then
      some path
    else
      some (slashJoin
        (afterComponents (bodyComponents base).length
          (segments path)))
  else
    none

------------------------------------------------------------
-- Joins
------------------------------------------------------------

/- A name that an entry of a folder can have. -/
structure EntryName where
  text : Text
  notEmpty : text ≠ []
  noSlash : '/' ∉ text
  notSelf : text ≠ ['.']
  notParent : text ≠ ['.', '.']
deriving DecidableEq

/- A path and a name, with a slash unless one is there. -/
def push (path name : Text) : Text :=
  if path = [] ∨ path.getLast? = some '/' then
    path ++ name
  else
    path ++ '/' :: name

def joinAll (root : Text) (names : List EntryName) : Text :=
  names.foldl (fun path name => push path name.text) root

/- The texts of some names. -/
def texts (names : List EntryName) : List Text :=
  names.map EntryName.text

theorem bodyComponent_name
    (name : EntryName) :
    bodyComponent name.text = some (.normal name.text) := by
  simp [bodyComponent, name.notEmpty, name.notSelf,
    name.notParent]

theorem push_name
    (path : Text)
    (last : EntryName)
    (name : Text) :
    push (path ++ last.text) name =
      path ++ last.text ++ '/' :: name := by
  have hFull : path ++ last.text ≠ [] := by
    simp [last.notEmpty]
  have hLast : (path ++ last.text).getLast? ≠ some '/' := by
    intro hSlash
    rw [List.getLast?_append_of_ne_nil _ last.notEmpty] at hSlash
    exact last.noSlash (List.mem_of_getLast? hSlash)
  exact if_neg fun h => h.elim hFull hLast

/- A root with the slash that a join puts after it. -/
def withSlash (root : Text) : Text :=
  if root = [] ∨ root.getLast? = some '/' then
    root
  else
    root ++ ['/']

theorem joinAll_after
    (path : Text)
    (last : EntryName)
    (names : List EntryName) :
    joinAll (path ++ last.text) names =
      path ++ slashJoin (last.text :: texts names) := by
  induction names generalizing path last with
  | nil => simp [joinAll, texts, slashJoin, List.intercalate]
  | cons name rest ih =>
      have hPush := push_name path last name.text
      calc
        joinAll (path ++ last.text) (name :: rest) =
            joinAll (push (path ++ last.text) name.text) rest :=
          rfl
        _ = joinAll ((path ++ last.text ++ ['/']) ++ name.text)
              rest := by
          rw [hPush]
          simp
        _ = path ++ last.text ++ ['/'] ++
              slashJoin (name.text :: texts rest) :=
          ih _ name
        _ = path ++ slashJoin
              (last.text :: texts (name :: rest)) := by
          simp [texts, slashJoin, List.intercalate]

/- The text of a join. -/
theorem joinAll_eq
    (root : Text)
    {names : List EntryName}
    (hSome : names ≠ []) :
    joinAll root names =
      withSlash root ++ slashJoin (texts names) := by
  cases names with
  | nil => contradiction
  | cons name rest =>
      have hPush :
          push root name.text = withSlash root ++ name.text := by
        by_cases hPlain : root = [] ∨ root.getLast? = some '/'
        · simp [push, withSlash, hPlain]
        · simp [push, withSlash, hPlain]
      calc
        joinAll root (name :: rest) =
            joinAll (push root name.text) rest := rfl
        _ = joinAll (withSlash root ++ name.text) rest := by
          rw [hPush]
        _ = withSlash root ++ slashJoin (texts (name :: rest)) :=
          joinAll_after _ name rest

theorem withSlash_cases
    (root : Text) :
    root = [] ∨ ∃ start, withSlash root = start ++ ['/'] := by
  by_cases hEmpty : root = []
  · exact Or.inl hEmpty
  · refine Or.inr ?_
    by_cases hLast : root.getLast? = some '/'
    · obtain ⟨start, hStart⟩ :=
        List.getLast?_eq_some_iff.mp hLast
      exact ⟨start, by simp [withSlash, hStart]⟩
    · exact ⟨root, by simp [withSlash, hEmpty, hLast]⟩

/- What is joined to a name comes after a slash. -/
theorem joinAll_append
    (root : Text)
    {above below : List EntryName}
    (hAbove : above ≠ [])
    (hBelow : below ≠ []) :
    joinAll root (above ++ below) =
      joinAll root above ++ '/' :: slashJoin (texts below) := by
  obtain ⟨start, last, rfl⟩ :=
    List.eq_nil_or_concat' above |>.resolve_left hAbove
  have hPath :
      joinAll root (start ++ [last]) =
        withSlash (joinAll root start) ++ last.text := by
    have hOne := joinAll_eq (joinAll root start)
      (List.cons_ne_nil last [])
    calc
      joinAll root (start ++ [last]) =
          joinAll (joinAll root start) [last] :=
        List.foldl_append ..
      _ = withSlash (joinAll root start) ++ last.text := by
        rw [hOne]
        simp [texts, slashJoin, List.intercalate]
  have hSlash :
      withSlash (joinAll root (start ++ [last])) =
        joinAll root (start ++ [last]) ++ ['/'] := by
    have hPush :=
      push_name (withSlash (joinAll root start)) last []
    rw [← hPath] at hPush
    by_cases hPlain : joinAll root (start ++ [last]) = [] ∨
        (joinAll root (start ++ [last])).getLast? = some '/'
    · rw [push, if_pos hPlain] at hPush
      simp at hPush
    · exact if_neg hPlain
  calc
    joinAll root (start ++ [last] ++ below) =
        joinAll (joinAll root (start ++ [last])) below :=
      List.foldl_append ..
    _ = withSlash (joinAll root (start ++ [last])) ++
          slashJoin (texts below) := joinAll_eq _ hBelow
    _ = joinAll root (start ++ [last]) ++
          '/' :: slashJoin (texts below) := by
      rw [hSlash]
      simp

variable {names : List EntryName}

/- The names themselves are a join to nothing. -/
theorem joinAll_nil
    (hSome : names ≠ []) :
    joinAll [] names = slashJoin (texts names) := by
  simpa [withSlash] using joinAll_eq [] hSome

------------------------------------------------------------
-- Segments of Joins
------------------------------------------------------------

theorem segments_ne_nil
    (path : Text) :
    segments path ≠ [] := by
  cases path with
  | nil => simp [segments]
  | cons c rest =>
      rw [segments]
      split
      · simp
      · split <;> simp

theorem segments_slash
    (left right : Text) :
    segments (left ++ '/' :: right) =
      segments left ++ segments right := by
  induction left with
  | nil => simp [segments]
  | cons c rest ih =>
      rw [List.cons_append, segments, segments, ih]
      by_cases hSlash : c = '/'
      · simp [hSlash]
      · cases hRest : segments rest with
        | nil => exact absurd hRest (segments_ne_nil rest)
        | cons segment more => simp [hSlash]

theorem segments_of_noSlash
    {text : Text}
    (hNone : '/' ∉ text) :
    segments text = [text] := by
  induction text with
  | nil => rfl
  | cons c rest ih =>
      have hHead : c ≠ '/' := fun h => hNone (by simp [h])
      have hRest := ih fun h => hNone (List.mem_cons_of_mem c h)
      simp [segments, hHead, hRest]

theorem segments_slashJoin
    (first : EntryName)
    (names : List EntryName) :
    segments (slashJoin (texts (first :: names))) =
      texts (first :: names) := by
  induction names generalizing first with
  | nil =>
      simpa [texts, slashJoin, List.intercalate]
        using segments_of_noSlash first.noSlash
  | cons name rest ih =>
      have hText :
          slashJoin (texts (first :: name :: rest)) =
            first.text ++
              '/' :: slashJoin (texts (name :: rest)) := by
        simp [texts, slashJoin, List.intercalate]
      rw [hText, segments_slash,
        segments_of_noSlash first.noSlash, ih name]
      rfl

/- The segments of a join end with the names. -/
theorem segments_joinAll
    (root : Text)
    {names : List EntryName}
    (hSome : names ≠ []) :
    ∃ above : List Text,
      segments (joinAll root names) = above ++ texts names ∧
        above.filterMap bodyComponent = bodyComponents root ∧
        (root ≠ [] → above.head? = (segments root).head?) := by
  have hText := joinAll_eq root hSome
  have hNames :
      segments (slashJoin (texts names)) = texts names := by
    cases names with
    | nil => contradiction
    | cons name rest => exact segments_slashJoin name rest
  by_cases hEmpty : root = []
  · subst hEmpty
    refine ⟨[], ?_, rfl, fun h => absurd rfl h⟩
    simpa [withSlash, hNames] using congrArg segments hText
  · by_cases hLast : root.getLast? = some '/'
    · obtain ⟨start, rfl⟩ := List.getLast?_eq_some_iff.mp hLast
      have hStart :
          segments (start ++ ['/']) = segments start ++ [[]] :=
        segments_slash start []
      refine ⟨segments start, ?_, ?_, fun _ => ?_⟩
      · rw [hText]
        simp [withSlash, segments_slash, hNames]
      · simp [bodyComponents, hStart, bodyComponent]
      · rw [hStart]
        exact (List.head?_append_of_ne_nil _
          (segments_ne_nil start)).symm
    · refine ⟨segments root, ?_, rfl, fun _ => rfl⟩
      rw [hText]
      simp [withSlash, hEmpty, hLast, segments_slash, hNames]

theorem leadComponent_joinAll
    (root : Text)
    {names : List EntryName}
    (hSome : names ≠ []) :
    leadComponent (joinAll root names) = leadComponent root := by
  obtain ⟨above, hSegments, _, hHead⟩ :=
    segments_joinAll root hSome
  have hText := joinAll_eq root hSome
  by_cases hEmpty : root = []
  · subst hEmpty
    obtain ⟨name, rest, rfl⟩ := List.exists_cons_of_ne_nil hSome
    have hFirst :
        (segments (joinAll [] (name :: rest))).head? =
          some name.text := by
      have hNames := segments_slashJoin name rest
      rw [hText, withSlash, if_pos (Or.inl rfl), List.nil_append,
        hNames]
      rfl
    have hNoSlash :
        (joinAll [] (name :: rest)).head? ≠ some '/' := by
      intro hSlash
      have hName : name.text.head? = some '/' := by
        obtain ⟨c, more, hMore⟩ :=
          List.exists_cons_of_ne_nil name.notEmpty
        cases rest with
        | nil =>
            simpa [hText, withSlash, texts, slashJoin,
              List.intercalate, hMore] using hSlash
        | cons _ _ =>
            simpa [hText, withSlash, texts, slashJoin,
              List.intercalate, List.intersperse, hMore]
              using hSlash
      exact name.noSlash (List.mem_of_head? hName)
    simp [leadComponent, hFirst, hNoSlash, name.notSelf,
      segments]
  · have hFirst :
        (joinAll root names).head? = root.head? := by
      rw [hText, withSlash]
      split
      · exact List.head?_append_of_ne_nil _ hEmpty
      · rw [List.append_assoc]
        exact List.head?_append_of_ne_nil _ hEmpty
    have hAbove : above ≠ [] := by
      rintro rfl
      have hNone : (segments root).head? = none :=
        (hHead hEmpty).symm
      exact segments_ne_nil root (List.head?_eq_none_iff.mp hNone)
    have hSegment :
        (segments (joinAll root names)).head? =
          (segments root).head? := by
      rw [hSegments, List.head?_append_of_ne_nil _ hAbove,
        hHead hEmpty]
    simp [leadComponent, hFirst, hSegment]

theorem components_joinAll
    (root : Text)
    {names : List EntryName}
    (hSome : names ≠ []) :
    components (joinAll root names) =
      components root ++
        (texts names).map Component.normal := by
  obtain ⟨above, hSegments, hAbove, _⟩ :=
    segments_joinAll root hSome
  have hNames :
      (texts names).filterMap bodyComponent =
        (texts names).map Component.normal := by
    simp only [texts, List.filterMap_map, List.map_map]
    rw [← List.filterMap_eq_map]
    exact List.filterMap_congr fun name _ =>
      bodyComponent_name name
  rw [components, leadComponent_joinAll root hSome,
    bodyComponents, hSegments, List.filterMap_append, hAbove,
    hNames, components, List.append_assoc]

theorem fileName_joinAll
    (root : Text)
    (names : List EntryName)
    (last : EntryName) :
    fileName (joinAll root (names ++ [last])) =
      some last.text := by
  rw [fileName, components_joinAll root (by simp)]
  simp [texts]

theorem afterComponents_append
    (above below : List Text) :
    afterComponents (above.filterMap bodyComponent).length
        (above ++ below) =
      afterComponents 0 below := by
  induction above with
  | nil => rfl
  | cons segment rest ih =>
      cases hBody : bodyComponent segment with
      | none =>
          cases hCount :
              (rest.filterMap bodyComponent).length with
          | zero =>
              rw [hCount] at ih
              simp [hBody, hCount, afterComponents, ih]
          | succ n =>
              rw [hCount] at ih
              simp [hBody, hCount, afterComponents, ih]
      | some component =>
          simp [hBody, afterComponents, ih]

theorem afterComponents_names
    (hSome : names ≠ []) :
    afterComponents 0 (texts names) = texts names := by
  cases names with
  | nil => contradiction
  | cons name rest =>
      simp [texts, afterComponents, bodyComponent_name]

/- Below a root, the names of a join are left. -/
theorem stripPrefix_joinAll
    {root : Text}
    (hSome : names ≠ [])
    (hRoot : components root ≠ []) :
    stripPrefix (joinAll root names) root =
      some (slashJoin (texts names)) := by
  obtain ⟨above, hSegments, hAbove, _⟩ :=
    segments_joinAll root hSome
  have hBelow :
      afterComponents (bodyComponents root).length
          (segments (joinAll root names)) =
        texts names := by
    rw [hSegments, ← hAbove, afterComponents_append,
      afterComponents_names hSome]
  have hStarts :
      (components root).isPrefixOf
        (components (joinAll root names)) = true := by
    rw [components_joinAll root hSome]
    simp
  simp [stripPrefix, hStarts, hRoot, hBelow]

theorem components_eq_nil_iff
    {path : Text} :
    components path = [] ↔ path = [] := by
  constructor
  · intro hNone
    cases path with
    | nil => rfl
    | cons c rest =>
        obtain ⟨hLead, hBody⟩ := List.append_eq_nil_iff.mp hNone
        by_cases hSlash : c = '/'
        · simp [leadComponent, hSlash] at hLead
        · obtain ⟨segment, more, hSegments⟩ :
              ∃ segment more,
                segments (c :: rest) = (c :: segment) :: more := by
            rw [segments, if_neg hSlash]
            split
            · exact ⟨[], [], rfl⟩
            · exact ⟨_, _, rfl⟩
          by_cases hSelf : c :: segment = ['.']
          · simp [leadComponent, hSlash, hSegments, hSelf]
              at hLead
          · by_cases hParent : c :: segment = ['.', '.']
            · simp [bodyComponents, hSegments, bodyComponent,
                hParent] at hBody
            · simp [bodyComponents, hSegments, bodyComponent,
                hSelf, hParent] at hBody
  · rintro rfl
    rfl

/- Below nothing, a path is left as it is. -/
theorem stripPrefix_nil
    (path : Text) :
    stripPrefix path [] = some path := by
  have hNone : components [] = [] := rfl
  simp [stripPrefix, hNone]

end PathText
