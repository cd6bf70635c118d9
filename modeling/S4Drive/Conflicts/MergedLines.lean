import S4Drive.Conflicts.LineDiffs

/-
  The merge walks along two scripts. It panics exactly if a
  change of one side overlaps two of the other, as the walk
  has then gone past the second one.

  Main declarations:
    * `writeEdits`, `mergeRounds_eq`
    * `merge_completes_iff`
-/

------------------------------------------------------------
-- The Walk
------------------------------------------------------------

namespace S4Drive

namespace ConflictEngine

variable {base : List Text} {localName remoteName : Text}
variable {ls rs cs : List LineChange} {c d : LineChange}
variable {rounds cursor : Nat}

/- What the walk writes for edits, with its checks. -/
def writeEdits
    (base : List Text) :
    List LineChange → Nat → Checked (List Text)
  | [], cursor => appendBase base cursor base.length
  | c :: cs, cursor => do
      let kept ← appendBase base cursor c.start
      let rest ← writeEdits base cs c.stop
      pure (kept ++ c.replacement ++ rest)

theorem changesOverlapOrSameInsertion_iff :
    changesOverlapOrSameInsertion c d = true ↔
      c.Overlaps d := by
  simp [changesOverlapOrSameInsertion, Edit.Overlaps,
    and_assoc]

/- The steps of the walk, each as one edit. -/
abbrev mergeEdits
    (both : LineChange → LineChange → List Text)
    (ls rs : List LineChange) : List LineChange :=
  (Edit.pairUp (ls.length + rs.length) ls rs).map
    (Edit.Step.edit both)

theorem mergeRounds_eq :
    mergeRounds base localName remoteName rounds ls rs cursor =
      writeEdits base
        ((Edit.pairUp rounds ls rs).map
          (Edit.Step.edit (mergeBoth localName remoteName)))
        cursor := by
  induction rounds generalizing ls rs cursor with
  | zero => rfl
  | succ rounds ih =>
      cases ls with
      | nil =>
          cases rs with
          | nil => rfl
          | cons r rs =>
              simp only [mergeRounds, Edit.pairUp, ih,
                List.map_cons, Edit.Step.edit, writeEdits]
      | cons l ls =>
          cases rs with
          | nil =>
              simp only [mergeRounds, Edit.pairUp, ih,
                List.map_cons, Edit.Step.edit, writeEdits]
          | cons r rs =>
              simp only [mergeRounds, Edit.pairUp,
                changesOverlapOrSameInsertion_iff]
              split
              · simp only [ih, List.map_cons, Edit.Step.edit,
                  writeEdits]
              · split
                · simp only [ih, List.map_cons, Edit.Step.edit,
                    writeEdits]
                · simp only [ih, List.map_cons, Edit.Step.edit,
                    writeEdits]

theorem appendBase_ok_iff
    {start stop : Nat}
    (hStart : start ≤ base.length)
    (hStop : stop ≤ base.length)
    (out : List Text) :
    appendBase base start stop = .ok out ↔
      start ≤ stop ∧ out = (base.take stop).drop start := by
  unfold appendBase
  rw [Nat.min_eq_left hStart, Nat.min_eq_left hStop]
  by_cases hOrder : start ≤ stop
  · rw [slice_ok hOrder hStop]
    constructor
    · intro h
      cases h
      exact ⟨hOrder, rfl⟩
    · rintro ⟨_, rfl⟩
      rfl
  · unfold slice
    rw [if_pos (Nat.lt_of_not_le hOrder)]
    constructor
    · intro h
      cases h
    · exact fun h => absurd h.1 hOrder

/- The walk gets to its end exactly if the edits fit. -/
theorem writeEdits_ok_iff
    (hWithin : ∀ c ∈ cs, c.Within base.length)
    (hCursor : cursor ≤ base.length)
    (out : List Text) :
    writeEdits base cs cursor = .ok out ↔
      Edit.Fits base.length cs cursor ∧
        out = Edit.patchFrom base cs cursor := by
  induction cs generalizing cursor out with
  | nil =>
      unfold writeEdits Edit.Fits Edit.patchFrom
      rw [appendBase_ok_iff hCursor (Nat.le_refl _),
        List.take_length]
  | cons c cs ih =>
      rw [List.forall_mem_cons] at hWithin
      rcases hWithin with ⟨⟨hOrder, hEnd⟩, hRest⟩
      have hStart := hOrder.trans hEnd
      unfold writeEdits Edit.Fits Edit.patchFrom
      cases hKept : appendBase base cursor c.start with
      | error panic =>
          constructor
          · intro h
            cases h
          · rintro ⟨⟨hFrom, _⟩, _⟩
            rw [(appendBase_ok_iff hCursor hStart _).mpr
              ⟨hFrom, rfl⟩] at hKept
            cases hKept
      | ok kept =>
          rcases (appendBase_ok_iff hCursor hStart _).mp hKept
            with ⟨hFrom, rfl⟩
          cases hLater : writeEdits base cs c.stop with
          | error panic =>
              constructor
              · intro h
                cases h
              · rintro ⟨⟨_, _, _, hFits⟩, _⟩
                rw [(ih hRest hEnd _).mpr ⟨hFits, rfl⟩]
                  at hLater
                cases hLater
          | ok later =>
              rcases (ih hRest hEnd _).mp hLater with
                ⟨hFits, rfl⟩
              constructor
              · intro h
                cases h
                exact ⟨⟨hFrom, hOrder, hEnd, hFits⟩, rfl⟩
              · rintro ⟨_, rfl⟩
                rfl

variable {f : LineChange → LineChange → List Text}
variable {n : Nat}

theorem mergeEdits_within
    (hls : Edit.IsScript n ls)
    (hrs : Edit.IsScript n rs) :
    ∀ e ∈ (Edit.pairUp rounds ls rs).map (Edit.Step.edit f),
      e.Within n := by
  induction rounds generalizing ls rs with
  | zero => simp [Edit.pairUp]
  | succ rounds ih =>
      cases ls with
      | nil =>
          cases rs with
          | nil => simp [Edit.pairUp]
          | cons r rs =>
              rw [Edit.pairUp, List.map_cons,
                List.forall_mem_cons]
              exact ⟨hrs.head, ih hls hrs.tail⟩
      | cons l ls =>
          cases rs with
          | nil =>
              rw [Edit.pairUp, List.map_cons,
                List.forall_mem_cons]
              exact ⟨hls.head, ih hls.tail hrs⟩
          | cons r rs =>
              have hl := hls.head
              have hr := hrs.head
              rw [Edit.pairUp]
              split
              · rw [List.map_cons, List.forall_mem_cons]
                refine ⟨?_, ih hls.tail hrs.tail⟩
                unfold Edit.Within at hl hr ⊢
                simp only [Edit.Step.edit]
                omega
              · split
                · rw [List.map_cons, List.forall_mem_cons]
                  exact ⟨hl, ih hls.tail hrs⟩
                · rw [List.map_cons, List.forall_mem_cons]
                  exact ⟨hr, ih hls hrs.tail⟩

/- The lines are merged exactly if the sides are apart. -/
theorem mergeLineChanges_ok_iff
    (hls : Edit.IsScript base.length ls)
    (hrs : Edit.IsScript base.length rs)
    (out : List Text) :
    mergeLineChanges base ls rs localName remoteName =
        .ok out ↔
      Edit.Apart ls rs ∧
        out = Edit.patchFrom base
          (mergeEdits (mergeBoth localName remoteName) ls rs)
          0 := by
  unfold mergeLineChanges
  rw [mergeRounds_eq,
    writeEdits_ok_iff (mergeEdits_within hls hrs)
      (Nat.zero_le _),
    Edit.fits_pairUp_iff (Nat.le_refl _) hls hrs]
  constructor
  · exact fun ⟨hAhead, hOut⟩ => ⟨hAhead.apart, hOut⟩
  · exact fun ⟨hApart, hOut⟩ =>
      ⟨⟨Nat.zero_le _, fun _ _ => Nat.zero_le _,
        fun _ _ => Nat.zero_le _, hApart⟩, hOut⟩

------------------------------------------------------------
-- Texts that Need No Merge
------------------------------------------------------------

variable {baseContent localContent remoteContent : Text}
variable {localPath remotePath : Text}

/- One side is as the other, or as the base. -/
def Unmerged
    (baseContent localContent remoteContent : Text) : Prop :=
  localContent = remoteContent ∨
    localContent = baseContent ∨ remoteContent = baseContent

instance
    (baseContent localContent remoteContent : Text) :
    Decidable
      (Unmerged baseContent localContent remoteContent) :=
  inferInstanceAs (Decidable (_ ∨ _ ∨ _))

/- The scripts from the base to the two sides. -/
structure Sides
    (baseContent localContent remoteContent : Text)
    (ls rs : List LineChange) : Prop where
  localDiff :
    diffLines (lines baseContent) (lines localContent) = .ok ls
  remoteDiff :
    diffLines (lines baseContent) (lines remoteContent) =
      .ok rs
  localScript : Edit.IsScript (lines baseContent).length ls
  remoteScript : Edit.IsScript (lines baseContent).length rs
  localPatch :
    Edit.patchFrom (lines baseContent) ls 0 =
      lines localContent
  remotePatch :
    Edit.patchFrom (lines baseContent) rs 0 =
      lines remoteContent

theorem sides_exist
    (baseContent localContent remoteContent : Text) :
    ∃ ls rs, Sides baseContent localContent remoteContent ls
      rs := by
  rcases diffLines_spec (lines baseContent)
    (lines localContent) with ⟨ls, hl, hlScript, hlPatch⟩
  rcases diffLines_spec (lines baseContent)
    (lines remoteContent) with ⟨rs, hr, hrScript, hrPatch⟩
  exact ⟨ls, rs, hl, hr, hlScript, hrScript, hlPatch, hrPatch⟩

theorem Sides.swap
    (h : Sides baseContent localContent remoteContent ls rs) :
    Sides baseContent remoteContent localContent rs ls :=
  ⟨h.remoteDiff, h.localDiff, h.remoteScript, h.localScript,
    h.remotePatch, h.localPatch⟩

/- How the scripts of two sides that need no merge differ. -/
theorem Sides.unmerged
    (h : Sides baseContent localContent remoteContent ls rs)
    (hUnmerged :
      Unmerged baseContent localContent remoteContent) :
    ls = rs ∨ ls = [] ∨ rs = [] := by
  rcases hUnmerged with rfl | rfl | rfl
  · have hSame := h.localDiff.symm.trans h.remoteDiff
    cases hSame
    exact .inl rfl
  · have hSelf := h.localDiff
    rw [diffLines_self] at hSelf
    cases hSelf
    exact .inr (.inl rfl)
  · have hSelf := h.remoteDiff
    rw [diffLines_self] at hSelf
    cases hSelf
    exact .inr (.inr rfl)

theorem Sides.sameItems
    (h : Sides baseContent localContent remoteContent ls rs)
    (hUnmerged :
      Unmerged baseContent localContent remoteContent) :
    Edit.SameItems ls rs := by
  intro c hc d hd hOverlaps
  rcases h.unmerged hUnmerged with rfl | rfl | rfl
  · rw [h.localScript.eq_of_overlaps hc hd hOverlaps]
    exact ⟨rfl, rfl⟩
  · cases hc
  · cases hd

theorem textThreeWayMerge_of_merged
    (h : Sides baseContent localContent remoteContent ls rs)
    (hMerged :
      ¬ Unmerged baseContent localContent remoteContent) :
    textThreeWayMerge baseContent localContent remoteContent
        localPath remotePath =
      (mergeLineChanges (lines baseContent) ls rs
        ((fileName localPath).getD "local".toList)
        ((fileName remotePath).getD "remote".toList)).map
          joinLines := by
  unfold Unmerged at hMerged
  simp only [not_or] at hMerged
  unfold textThreeWayMerge
  rw [if_neg hMerged.1, if_neg hMerged.2.1,
    if_neg hMerged.2.2]
  dsimp only
  rw [h.localDiff, h.remoteDiff]
  simp only [bind, Except.bind, pure, Except.pure, Except.map]

/- What is not merged is one of the texts, either way. -/
theorem textThreeWayMerge_of_unmerged
    (localPath remotePath : Text)
    (hUnmerged :
      Unmerged baseContent localContent remoteContent) :
    ∃ merged,
      textThreeWayMerge baseContent localContent remoteContent
          localPath remotePath = .ok merged ∧
        textThreeWayMerge baseContent remoteContent
          localContent remotePath localPath = .ok merged ∧
        ((merged = localContent ∧
            (localContent = remoteContent ∨
              remoteContent = baseContent)) ∨
          (merged = remoteContent ∧
            localContent = baseContent)) := by
  by_cases hSame : localContent = remoteContent
  · subst hSame
    refine ⟨localContent, ?_, ?_, .inl ⟨rfl, .inl rfl⟩⟩
    · simp [textThreeWayMerge]
    · simp [textThreeWayMerge]
  have hOther : ¬ remoteContent = localContent :=
    fun h => hSame h.symm
  rcases hUnmerged with hEqual | rfl | rfl
  · exact absurd hEqual hSame
  · refine ⟨remoteContent, ?_, ?_, .inr ⟨rfl, rfl⟩⟩
    · simp [textThreeWayMerge, hSame]
    · simp [textThreeWayMerge, hOther]
  · refine ⟨localContent, ?_, ?_, .inl ⟨rfl, .inr rfl⟩⟩
    · simp [textThreeWayMerge, hSame]
    · simp [textThreeWayMerge, hOther]

/-
  The merge of three texts gets to its end exactly if no
  change of one side overlaps two changes of the other.
-/
theorem merge_completes_iff
    (baseContent localContent remoteContent : Text)
    (localPath remotePath : Text) :
    ∃ ls rs,
      diffLines (lines baseContent) (lines localContent) =
          .ok ls ∧
        diffLines (lines baseContent) (lines remoteContent) =
          .ok rs ∧
        ((∃ merged,
            textThreeWayMerge baseContent localContent
              remoteContent localPath remotePath =
                .ok merged) ↔
          Edit.Apart ls rs) := by
  rcases sides_exist baseContent localContent remoteContent
    with ⟨ls, rs, hSides⟩
  refine ⟨ls, rs, hSides.localDiff, hSides.remoteDiff, ?_⟩
  by_cases hUnmerged :
      Unmerged baseContent localContent remoteContent
  · have hApart := (hSides.sameItems hUnmerged).apart
      hSides.localScript hSides.remoteScript
    rcases textThreeWayMerge_of_unmerged localPath remotePath
      hUnmerged with ⟨merged, hMerge, _⟩
    exact ⟨fun _ => hApart, fun _ => ⟨merged, hMerge⟩⟩
  · rw [textThreeWayMerge_of_merged hSides hUnmerged]
    constructor
    · rintro ⟨merged, hMerge⟩
      cases hLines : mergeLineChanges (lines baseContent) ls rs
          ((fileName localPath).getD "local".toList)
          ((fileName remotePath).getD "remote".toList) with
      | error panic =>
          rw [hLines] at hMerge
          cases hMerge
      | ok out =>
          exact ((mergeLineChanges_ok_iff hSides.localScript
            hSides.remoteScript out).mp hLines).1
    · intro hApart
      rw [(mergeLineChanges_ok_iff hSides.localScript
        hSides.remoteScript _).mpr ⟨hApart, rfl⟩]
      exact ⟨_, rfl⟩

/-
  The local side replaces four lines as one change, in which
  the remote side replaces two lines apart.
-/
theorem wide_change_panics :
    textThreeWayMerge "1\n2\n3\n4\n5".toList "x\n5".toList
        "1\nb\n3\nd\n5".toList "a.txt".toList "b.txt".toList =
      .error .sliceOrder := by
  decide +kernel

end ConflictEngine

end S4Drive
