import S4Drive.Metadata.LogOperations

/-
  What a search along the chain computes: on a log whose
  objects are all there it finds what the same search of a
  list finds, and gives up only on a chain that is too long.

  Main declarations:
    * `searchOf`
    * `SupersededIn`
    * `searchChain_exact`
-/

------------------------------------------------------------
-- Searches of a List
------------------------------------------------------------

namespace S4Drive

open ObjectStore Concurrency ChainLog

/-
  The search of a part of the chain, newest entry first;
  `none` when it gives up.
-/
def searchOf
    (targetFileId : FileId)
    (isOwn isFloor : Operation → Bool) :
    Nat → Option OpId → List Operation → Option ChainSearch
  | 0, _, _ => none
  | _ + 1, foreign, [] => some (.absent foreign)
  | rounds + 1, foreign, op :: rest =>
      if isOwn op then
        some (.found op foreign.isSome)
      else if isFloor op then
        some (.absent foreign)
      else
        let foreign :=
          if foreign = none ∧
              op.targetFileId = some targetFileId then
            some op.opId
          else
            foreign
        match rest with
        | [] => some (.absent foreign)
        | next :: rest =>
            searchOf targetFileId isOwn isFloor rounds foreign
              (next :: rest)

/- The result of a search that may have given up. -/
def Finds
    (expected : Option ChainSearch)
    (search : ChainSearch) : Prop :=
  match expected with
  | some result => search = result
  | none => ∃ reason, search = .ambiguous reason

/- A newer operation on the file is above an operation. -/
def SupersededIn
    (fileId : FileId)
    (opId : OpId)
    (l : List Operation) : Prop :=
  ∃ above op below, l = above ++ op :: below ∧
    op.opId = opId ∧
    ∃ x ∈ above, x.targetFileId = some fileId

variable {fileId : FileId}

theorem SupersededIn.mono
    {opId : OpId} {l l' : List Operation}
    (h : SupersededIn fileId opId l)
    (hSuffix : l <:+ l') : SupersededIn fileId opId l' := by
  rcases h with ⟨above, op, below, rfl, hId, x, hx, hTarget⟩
  rcases hSuffix with ⟨newer, rfl⟩
  refine ⟨newer ++ above, op, below, ?_, hId, x, ?_, hTarget⟩
  · rw [List.append_assoc]
  · exact List.mem_append_right _ hx

/- The newest operation on a file. -/
def newestOn
    (fileId : FileId)
    (l : List Operation) : Option Operation :=
  l.find? (·.targetFileId = some fileId)

variable {op : Operation} {l : List Operation}

theorem newestOn_cons_of_target
    (hTarget : op.targetFileId = some fileId) :
    newestOn fileId (op :: l) = some op := by
  simp [newestOn, hTarget]

theorem newestOn_cons_of_ne
    (hTarget : op.targetFileId ≠ some fileId) :
    newestOn fileId (op :: l) = newestOn fileId l := by
  simp [newestOn, hTarget]

theorem mem_of_newestOn
    (h : newestOn fileId l = some op) :
    op ∈ l ∧ op.targetFileId = some fileId :=
  ⟨List.mem_of_find?_eq_some h,
    by simpa using List.find?_some h⟩

/- Nothing newer is on the file of its newest operation. -/
theorem not_superseded_of_newestOn
    (hChain : LogChain l)
    (h : newestOn fileId l = some op) :
    ¬ SupersededIn fileId op.opId l := by
  rintro ⟨above, op', below, rfl, hId, x, hx, hTarget⟩
  have hSome :
      (above.find? (·.targetFileId = some fileId)).isSome := by
    rw [List.find?_isSome]
    exact ⟨x, hx, by simpa using hTarget⟩
  rcases Option.isSome_iff_exists.mp hSome with ⟨y, hFind⟩
  unfold newestOn at h
  rw [List.find?_append, hFind] at h
  cases h
  have hDisjoint := List.disjoint_of_nodup_append
    (List.map_append ▸ hChain.nodup)
  have hAbove := List.mem_map_of_mem (f := Operation.opId)
    (List.mem_of_find?_eq_some hFind)
  apply hDisjoint hAbove
  rw [← hId]
  exact List.mem_map_of_mem (List.mem_cons_self ..)

variable {targetFileId : FileId}
variable {isOwn isFloor : Operation → Bool}
variable {rounds : Nat} {foreign : Option OpId}

/- The flag of an operation that was found is true to it. -/
theorem searchOf_found
    (h :
      searchOf targetFileId isOwn isFloor rounds foreign l =
        some (.found op true)) :
    ∃ above below, l = above ++ op :: below ∧
      isOwn op = true ∧
      (foreign ≠ none ∨
        ∃ x ∈ above, x.targetFileId = some targetFileId) := by
  induction rounds generalizing foreign l with
  | zero => cases h
  | succ rounds ih =>
      cases l with
      | nil => cases h
      | cons x rest =>
          unfold searchOf at h
          split at h
          · rename_i hOwn
            simp only [Option.some.injEq,
              ChainSearch.found.injEq] at h
            rcases h with ⟨rfl, hForeign⟩
            refine ⟨[], rest, rfl, hOwn, .inl ?_⟩
            intro hNone
            rw [hNone] at hForeign
            cases hForeign
          split at h
          · cases h
          cases rest with
          | nil => cases h
          | cons y rest =>
              rcases ih h with
                ⟨above, below, hList, hOwn, hNewer⟩
              refine ⟨x :: above, below, ?_, hOwn, ?_⟩
              · rw [hList]
                rfl
              rcases hNewer with hForeign | ⟨z, hz, hTarget⟩
              · by_cases hHere :
                    foreign = none ∧
                      x.targetFileId = some targetFileId
                · exact .inr ⟨x, List.mem_cons_self, hHere.2⟩
                · rw [if_neg hHere] at hForeign
                  exact .inl hForeign
              · exact .inr
                  ⟨z, List.mem_cons_of_mem _ hz, hTarget⟩

theorem Finds.superseded
    {opId : OpId}
    (h :
      Finds (searchOf targetFileId isOwn isFloor rounds none l)
        (.found op true))
    (hId : op.opId = opId) :
    SupersededIn targetFileId opId l := by
  cases hSearch :
      searchOf targetFileId isOwn isFloor rounds none l with
  | none =>
      rw [hSearch] at h
      rcases h with ⟨_, hAmbiguous⟩
      cases hAmbiguous
  | some found =>
      rw [hSearch] at h
      rw [show found = .found op true from h.symm] at hSearch
      rcases searchOf_found hSearch with
        ⟨above, below, hList, _, hForeign | hNewer⟩
      · exact absurd rfl hForeign
      · exact ⟨above, op, below, hList, hId, hNewer⟩

/- A search of a list does not find a gap. -/
theorem searchOf_conclusive
    {reason : String} :
    searchOf targetFileId isOwn isFloor rounds foreign l ≠
      some (.ambiguous reason) := by
  induction rounds generalizing foreign l with
  | zero => simp [searchOf]
  | succ rounds ih =>
      cases l with
      | nil => simp [searchOf]
      | cons x rest =>
          unfold searchOf
          split
          · simp
          split
          · simp
          cases rest with
          | nil => simp
          | cons y rest => exact ih

/- A search gives up on a chain that is too long. -/
theorem searchOf_none
    (h :
      searchOf targetFileId isOwn isFloor rounds foreign l =
        none) :
    rounds ≤ l.length := by
  induction rounds generalizing foreign l with
  | zero => exact Nat.zero_le _
  | succ rounds ih =>
      cases l with
      | nil => cases h
      | cons x rest =>
          unfold searchOf at h
          split at h
          · cases h
          split at h
          · cases h
          cases rest with
          | nil => cases h
          | cons y rest =>
              have hRest := ih h
              simp only [List.length_cons] at hRest ⊢
              omega

theorem Finds.too_long
    {reason : String}
    (h :
      Finds (searchOf targetFileId isOwn isFloor rounds foreign
        l) (.ambiguous reason)) :
    rounds ≤ l.length := by
  cases hSearch :
      searchOf targetFileId isOwn isFloor rounds foreign l with
  | none => exact searchOf_none hSearch
  | some found =>
      rw [hSearch] at h
      rw [show found = .ambiguous reason from h.symm] at hSearch
      exact absurd hSearch searchOf_conclusive

------------------------------------------------------------
-- Searches of the Chain
------------------------------------------------------------

variable {clean : Prop}
variable {host : Host clean}
variable {t : Tid} {w w' : World}

namespace OperationLog

variable {v : OperationLog}

/- An operation of the log can be read. -/
theorem readChained_meets
    {Q : CoreResult Operation → OperationLog → World → Prop}
    (hClean : clean)
    (hOp : op ∈ w.headLog)
    (h :
      ∀ r w', Others t w w' → (∀ x, r = .ok x → x = op) →
        (∀ message, r ≠ .error (.notFound message)) →
          Q r v w') :
    LogMeets host t (readOperation op.opId) v Q w := by
  unfold readOperation
  apply meets_bind
  apply meets_read
  intro w₁ data w₂ h₁ hInv₁ h₂ hInv₂ hData
  have hFound := (hInv₁.log.linear hClean).present op
    (h₁.log.subset hOp)
  have hAnswers := hData.answers
  cases data with
  | error e =>
      apply continues_error
      apply h _ w₂ (h₁.trans h₂)
      · intro x hx
        cases hx
      · rintro message hMissing
        cases hMissing
        exact absurd (hFound.symm.trans hAnswers)
          (Option.some_ne_none _)
  | ok body =>
      have hBody := hFound.symm.trans hAnswers
      cases hBody
      apply continues_ok
      apply meets_ofExcept
      intro w' h₃ _
      apply h _ w' ((h₁.trans h₂).trans h₃)
      · intro x hx
        cases hx
        rfl
      · intro message hMissing
        cases hMissing

theorem searchChainWalk_exact
    {rest : List Operation}
    (rounds : Nat)
    (foreign : Option OpId)
    (hClean : clean)
    (hInv : LogInv clean w)
    (hSuffix : op :: rest <:+ w.headLog) :
    LogMeets host t
      (searchChainWalk targetFileId isOwn isFloor rounds
        foreign op.opId) v
      (fun r _ _ => ∀ search, r = .ok search →
        Finds (searchOf targetFileId isOwn isFloor rounds
          foreign (op :: rest)) search)
      w := by
  induction rounds generalizing w foreign op rest with
  | zero =>
      apply meets_pure
      rintro w' _ _ search hSearch
      cases hSearch
      exact ⟨_, rfl⟩
  | succ rounds ih =>
      have hMem : op ∈ w.headLog :=
        hSuffix.subset List.mem_cons_self
      unfold searchChainWalk
      apply meets_bind
      apply meets_attempt
      apply readChained_meets hClean hMem
      intro r w₁ h₁ hSame hThere
      apply continues_ok
      cases r with
      | error e =>
          cases e with
          | notFound message => exact absurd rfl (hThere message)
          | _ =>
              apply meets_throw
              rintro w' _ _ search hSearch
              cases hSearch
      | ok x =>
          cases hSame x rfl
          have decided :
              ∀ found : ChainSearch,
                searchOf targetFileId isOwn isFloor (rounds + 1)
                  foreign (op :: rest) = some found →
                LogMeets host t (pure found) v
                  (fun r _ _ => ∀ search, r = .ok search →
                    Finds (searchOf targetFileId isOwn isFloor
                      (rounds + 1) foreign (op :: rest)) search)
                  w₁ := by
            intro found hFound
            apply meets_pure
            rintro w' _ _ search hSearch
            cases hSearch
            rw [hFound]
            rfl
          simp only [ne_eq, not_true_eq_false, if_false]
          split
          · rename_i hOwn
            apply decided
            simp [searchOf, hOwn]
          rename_i hOwn
          split
          · rename_i hFloor
            apply decided
            simp [searchOf, hOwn, hFloor]
          rename_i hFloor
          have hLinked :=
            ((hInv.linear hClean).chain.of_suffix
              hSuffix).linked.1
          cases rest with
          | nil =>
              rw [show op.baseHead = none from hLinked]
              apply decided
              simp [searchOf, hOwn, hFloor]
          | cons next rest =>
              rw [show op.baseHead = some next.opId
                from hLinked]
              apply meets_of_inv
              intro w₂ h₂ hInv₂
              have hBelow : next :: rest <:+ w₂.headLog :=
                ((List.suffix_cons _ _).trans hSuffix).trans
                  (h₁.log.trans h₂.log)
              apply Meets.mono (ih _ hInv₂.log hBelow)
              intro r v' w' hSearch search hFound
              have hExact := hSearch search hFound
              simpa [searchOf, hOwn, hFloor] using hExact

/-
  A search from a head of the log finds what is in the part
  of the log that ends there.
-/
theorem searchChain_exact
    (hClean : clean)
    (hSuffix : l <:+ w.headLog)
    (hHead : headOf l = v.currentHead) :
    LogMeets host t
      (searchChain targetFileId isOwn isFloor) v
      (fun r _ _ => ∀ search, r = .ok search →
        Finds (searchOf targetFileId isOwn isFloor
          maxDurableWalkOps none l) search)
      w := by
  unfold searchChain
  apply meets_bind
  apply meets_get
  intro w₁ h₁ hInv₁
  apply continues_ok
  rw [← hHead]
  cases l with
  | nil =>
      apply meets_pure
      rintro w' _ _ search hSearch
      cases hSearch
      rfl
  | cons op rest =>
      exact searchChainWalk_exact _ none hClean hInv₁.log
        (hSuffix.trans h₁.log)

/- What a search that succeeds says of the log it looked at. -/
def SearchedIn
    (clean : Prop)
    (targetFileId : FileId)
    (isOwn isFloor : Operation → Bool)
    (head : Option OpId)
    (w : World)
    (r : CoreResult ChainSearch) : Prop :=
  clean → ∀ l, l <:+ w.headLog → headOf l = head →
    ∀ search, r = .ok search →
      Finds (searchOf targetFileId isOwn isFloor
        maxDurableWalkOps none l) search

theorem searchChain_finds
    (hInv : LogInv clean w) :
    LogMeets host t
      (searchChain targetFileId isOwn isFloor) v
      (fun r v' w' => (Others t w w' ∧ v' = v ∧
        SearchPost targetFileId isOwn isFloor none
          v.currentHead w' r) ∧
        SearchedIn clean targetFileId isOwn isFloor
          v.currentHead w r)
      w := by
  apply Meets.and searchChain_meets
  by_cases hExact :
      clean ∧ ∃ l, l <:+ w.headLog ∧ headOf l = v.currentHead
  · rcases hExact with ⟨hClean, l, hSuffix, hHead⟩
    apply Meets.mono
      (searchChain_exact hClean hSuffix hHead)
    intro r v' w' hFinds _ l' hSuffix' hHead'
    have hChain := (hInv.linear hClean).chain
    rw [suffix_unique hChain.nodup hSuffix' hSuffix
      (hHead'.trans hHead.symm)]
    exact hFinds
  · apply Meets.mono searchChain_meets
    intro r v' w' _ hClean l hSuffix hHead
    exact absurd ⟨hClean, l, hSuffix, hHead⟩ hExact

end OperationLog

end S4Drive
