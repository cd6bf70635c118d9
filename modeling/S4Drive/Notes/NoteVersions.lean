import S4Drive.Notes.Controller

/-
  The versions of the notes in the backend. A note never
  goes back to an earlier generation, a document has the
  token of its note at the time of the answer, and a save is
  answered with a token that the note has had.

  Main declarations:
    * `NotesBackend.Served`, `SaveServed`
    * `answerTo_served`, `answerTo_token`
    * `answerToSave_served`
-/

------------------------------------------------------------
-- The Backend
------------------------------------------------------------

namespace S4Drive

/- No note goes back to an earlier generation. -/
def NotesBackend.Onward (b b' : NotesBackend) : Prop :=
  ∀ noteId,
    (b.notes noteId).token.generation ≤
      (b'.notes noteId).token.generation

/- A recorded answer is of a version that the note has had. -/
def NotesBackend.Recorded (b : NotesBackend) : Prop :=
  ∀ x ∈ b.saved,
    x.2.generation ≤ (b.notes x.1.noteId).token.generation

namespace NotesBackend

variable {hashBytes : String → String} {b b' : NotesBackend}
variable {noteId : Uuid} {n : StoredNote}

theorem generation_le_contentToken :
    n.token.generation ≤
      (n.contentToken hashBytes).generation := by
  unfold StoredNote.contentToken
  split
  · exact Nat.le_refl _
  · exact Nat.le_succ _

@[simp] theorem notes_setNote :
    (b.setNote noteId n).notes noteId = n :=
  Function.update_self ..

theorem onward_setNote
    (h :
      (b.notes noteId).token.generation ≤
        n.token.generation) :
    b.Onward (b.setNote noteId n) := by
  intro other
  by_cases hSame : other = noteId
  · subst hSame
    rw [notes_setNote]
    exact h
  · have hOther :
        (b.setNote noteId n).notes other = b.notes other :=
      Function.update_of_ne hSame ..
    exact Nat.le_of_eq (by rw [hOther])

theorem Onward.trans
    {b'' : NotesBackend}
    (h : b.Onward b')
    (hThen : b'.Onward b'') : b.Onward b'' :=
  fun noteId => Nat.le_trans (h noteId) (hThen noteId)

theorem Recorded.onward
    (h : b.Recorded)
    (hOn : b.Onward b')
    (hSaved : b'.saved = b.saved) : b'.Recorded := by
  intro x hMem
  rw [hSaved] at hMem
  exact Nat.le_trans (h x hMem) (hOn _)

theorem onward_refl : b.Onward b := fun _ => Nat.le_refl _

/- What a step of the backend does to its versions. -/
structure Served (b b' : NotesBackend) : Prop where
  onward : b.Onward b'
  recorded : b.Recorded → b'.Recorded

theorem served_refl : b.Served b := ⟨onward_refl, id⟩

theorem served_setNote
    (h :
      (b.notes noteId).token.generation ≤
        n.token.generation) :
    b.Served (b.setNote noteId n) where
  onward := onward_setNote h
  recorded := fun hRecorded =>
    hRecorded.onward (onward_setNote h) rfl

theorem read_served :
    b.Served (b.read hashBytes noteId).2 := by
  unfold read
  dsimp only
  split
  · exact served_setNote generation_le_contentToken
  · exact served_refl

variable {doc : NoteDocument}

/- A document has the version that the note has now. -/
theorem read_token
    (h : (b.read hashBytes noteId).1 = some doc) :
    doc.token =
      ((b.read hashBytes noteId).2.notes doc.noteId).token := by
  unfold read at h ⊢
  dsimp only at h ⊢
  split at h
  · rename_i hPresent
    cases h
    rw [if_pos hPresent]
    simp
  · cases h

variable {served : S4Drive.Served}

theorem answerToRead_served :
    b.Served
      (NotesController.answerToRead hashBytes b noteId
        served).2 := by
  have hRead : b.Served (b.read hashBytes noteId).2 :=
    read_served
  unfold NotesController.answerToRead
  generalize b.read hashBytes noteId = answer at hRead ⊢
  rcases answer with ⟨_ | doc, b'⟩
  · cases served
    · exact hRead
    · exact served_refl
    · exact hRead
  · cases served
    · exact hRead
    · exact served_refl
    · exact hRead

theorem answerToDelete_served
    {id : Uuid} :
    b.Served
      (NotesController.answerToDelete b id served).2 := by
  have hDelete : b.Served (b.delete id) :=
    served_setNote (Nat.le_refl _)
  unfold NotesController.answerToDelete
  cases (b.notes id).present
  · cases served <;> exact served_refl
  · cases served
    · exact hDelete
    · exact served_refl
    · exact hDelete

theorem answerTo_served
    (hashBytes : String → String)
    (b : NotesBackend)
    (request : NotesRequest)
    (served : S4Drive.Served) :
    b.Served
      (NotesController.answerTo hashBytes b request
        served).2 := by
  cases request with
  | loadNoteDocument noteId _ => exact answerToRead_served
  | handleRemoteChanges noteId _ => exact answerToRead_served
  | deleteEntry id => exact answerToDelete_served

theorem answerToRead_token
    (h :
      (NotesController.answerToRead hashBytes b noteId
        served).1 = .document doc) :
    doc.token =
      ((NotesController.answerToRead hashBytes b noteId
        served).2.notes doc.noteId).token := by
  have hRead := @read_token hashBytes b noteId doc
  unfold NotesController.answerToRead at h ⊢
  generalize b.read hashBytes noteId = answer at hRead h ⊢
  rcases answer with ⟨_ | found, b'⟩
  · cases served <;> cases h
  · cases served
    · cases h
      exact hRead rfl
    · cases h
    · cases h

theorem answerTo_token
    {request : NotesRequest}
    (h :
      (NotesController.answerTo hashBytes b request
        served).1 = .document doc) :
    doc.token =
      ((NotesController.answerTo hashBytes b request
        served).2.notes doc.noteId).token := by
  cases request with
  | loadNoteDocument noteId _ => exact answerToRead_token h
  | handleRemoteChanges noteId _ => exact answerToRead_token h
  | deleteEntry id =>
      unfold NotesController.answerTo
        NotesController.answerToDelete at h
      dsimp only at h
      cases hPresent : (b.notes id).present
      · rw [hPresent] at h
        cases served <;> cases h
      · rw [hPresent] at h
        cases served <;> cases h

variable {r : SaveRequest}

/- The token is recorded for a version that the note has. -/
theorem Recorded.cons
    {token : SaveToken}
    (h : b.Recorded)
    (hNow :
      token.generation ≤
        (b.notes r.noteId).token.generation) :
    Recorded { b with saved := (r, token) :: b.saved } := by
  intro x hMem
  rcases List.mem_cons.mp hMem with rfl | hOld
  · exact hNow
  · exact h x hOld

structure SaveServed
    (b b' : NotesBackend)
    (r : SaveRequest)
    (result : Except SaveError SaveToken) : Prop
    extends Served b b' where
  token :
    b.Recorded → ∀ token, result = .ok token →
      token.generation ≤
        (b'.notes r.noteId).token.generation

theorem saveServed_error
    {e : SaveError}
    (h : b.Served b') : SaveServed b b' r (.error e) where
  toServed := h
  token := fun _ _ hOk => nomatch hOk

theorem publishSave_served
    {current : SaveToken}
    (h :
      (b.notes r.noteId).token.generation ≤
        current.generation) :
    SaveServed b (b.publishSave hashBytes r current).2 r
      (.ok (b.publishSave hashBytes r current).1) := by
  have hLe :
      current.generation ≤
        (b.publishSave hashBytes r current).1.generation := by
    unfold publishSave
    dsimp only
    split
    · exact Nat.le_refl _
    · exact Nat.le_succ _
  have hWritten :
      b.Served
        (b.setNote r.noteId
          { b.notes r.noteId with
            body := r.body
            token :=
              (b.publishSave hashBytes r current).1 }) :=
    served_setNote (Nat.le_trans h hLe)
  have hNow :
      (((b.publishSave hashBytes r current).2).notes
          r.noteId).token =
        (b.publishSave hashBytes r current).1 := by
    unfold publishSave
    dsimp only
    rw [notes_setNote]
  constructor
  · refine ⟨hWritten.onward, ?_⟩
    intro hRecorded
    refine (hWritten.recorded hRecorded).cons ?_
    rw [notes_setNote]
    exact Nat.le_refl _
  · intro _ token hOk
    cases hOk
    exact Nat.le_of_eq (by rw [hNow])

theorem SaveServed.after
    {b'' : NotesBackend}
    {result : Except SaveError SaveToken}
    (h : b.Served b')
    (hThen : SaveServed b' b'' r result) :
    SaveServed b b'' r result where
  onward := h.onward.trans hThen.onward
  recorded := fun hRecorded =>
    hThen.recorded (h.recorded hRecorded)
  token := fun hRecorded => hThen.token (h.recorded hRecorded)

theorem saveLocal_served :
    SaveServed b (b.saveLocal hashBytes r).2 r
      (b.saveLocal hashBytes r).1 := by
  unfold saveLocal
  cases hFound :
      b.saved.find? fun x => x.1.requestId = r.requestId with
  | some x =>
      rcases x with ⟨known, token⟩
      dsimp only
      split
      · rename_i hSame
        subst hSame
        refine ⟨served_refl, ?_⟩
        intro hRecorded other hOk
        cases hOk
        exact hRecorded _ (List.mem_of_find?_eq_some hFound)
      · exact saveServed_error served_refl
  | none =>
      dsimp only
      split
      · exact saveServed_error served_refl
      · have hGiven :
            b.Served
              (b.setNote r.noteId
                { b.notes r.noteId with
                  token := (b.notes r.noteId).contentToken
                    hashBytes }) :=
          served_setNote generation_le_contentToken
        split
        · exact saveServed_error hGiven
        · apply SaveServed.after hGiven
          apply publishSave_served
          exact Nat.le_of_eq (by rw [notes_setNote])

theorem answerToSave_served :
    SaveServed b
      (NotesController.answerToSave hashBytes b r served).2 r
      (NotesController.answerToSave hashBytes b r
        served).1 := by
  cases served with
  | refused => exact saveServed_error served_refl
  | carriedOut => exact saveLocal_served
  | garbled =>
      exact saveServed_error saveLocal_served.toServed

end NotesBackend

end S4Drive
