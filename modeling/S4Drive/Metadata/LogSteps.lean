import S4Drive.Metadata.LogInvariant

/-
  Every step of the world keeps the invariant of the log:
  sending and delivering writes, building operations,
  writing journals, and the beginning and end of calls.

  Main declarations:
    * `LogInv.deliver`
    * `LogInv.send`
    * `LogInv.stamp`
    * `LogInv.setJournal`
    * `LogInv.beginCall`, `LogInv.release`, `LogInv.halt`
-/

------------------------------------------------------------
-- Deliveries
------------------------------------------------------------

namespace S4Drive

open ObjectStore Concurrency ChainLog

variable {clean : Prop} {w w' : World}

/- What a delivery changes. -/
structure Delivery
    (f : Flight Key Body Sender)
    (w w' : World) : Prop where
  flight : f ∈ w.store.flights
  issued : w'.issued = w.issued
  drawn : w'.drawn = w.drawn
  journals : w'.journals = w.journals
  owner : w'.owner = w.owner
  holding : w'.holding = w.holding
  calls : w'.calls = w.calls
  basis : w'.basis = w.basis
  reads : w'.reads = w.reads
  now : w'.now = w.now
  versions :
    w'.versions =
      if f.write.Allowed w.store.objects then
        w.noteVersion f
      else
        w.versions
  grown : FlightsGrow w.store.flights w'.store.flights
  sized : w'.store.flights.length = w.store.flights.length
  flights :
    ∀ g ∈ w'.store.flights, g ∈ w.store.flights ∨
      (g.write = f.write ∧ g.sender = f.sender ∧
        ((f.write.Allowed w.store.objects ∧
            g.refused = f.refused) ∨
          (¬ f.write.Allowed w.store.objects ∧
            g.applied = f.applied)))
  outcome :
    (f.write.Allowed w.store.objects ∧
        w'.store.objects = f.write.apply w.store.objects ∧
        w'.headLog = w.noteHead f.write) ∨
      (¬ f.write.Allowed w.store.objects ∧
        w'.store.objects = w.store.objects ∧
        w'.headLog = w.headLog)

theorem deliver_at
    {ticket : Nat}
    (h : w.deliver ticket = some w') :
    ∃ f, w.store.flights[ticket]? = some f ∧
      Delivery f w w' := by
  unfold World.deliver at h
  cases hStore : w.store.deliver ticket with
  | none => simp [hStore] at h
  | some r =>
      rcases r with ⟨f, store⟩
      simp only [hStore, Option.some.injEq] at h
      subst h
      rcases Store.deliver_cases hStore with ⟨hf, hCases⟩
      refine ⟨f, hf, List.mem_of_getElem? hf, rfl, rfl, rfl,
        rfl, rfl, rfl, rfl, rfl, rfl, rfl,
        Store.flightsGrow_deliver hStore,
        Store.length_deliver hStore,
        fun g hg => Store.mem_deliver hStore hg, ?_⟩
      rcases hCases with ⟨hAllowed, rfl⟩ | ⟨hRefused, rfl⟩
      · exact .inl ⟨hAllowed, rfl, by simp [hAllowed]⟩
      · exact .inr ⟨hRefused, rfl, by simp [hRefused]⟩

theorem deliver_spec
    {ticket : Nat}
    (h : w.deliver ticket = some w') :
    ∃ f, Delivery f w w' := by
  rcases deliver_at h with ⟨f, _, hDelivery⟩
  exact ⟨f, hDelivery⟩

namespace Delivery

variable {f : Flight Key Body Sender}

theorem built_iff
    (h : Delivery f w w')
    {op : Operation} : Built w' op ↔ Built w op := by
  unfold Built
  rw [h.issued]

/- Every flight was there before. -/
theorem old
    (h : Delivery f w w')
    {g : Flight Key Body Sender}
    (hg : g ∈ w'.store.flights) :
    ∃ g₀ ∈ w.store.flights, g₀.Later g :=
  h.grown.mem_back h.sized hg

theorem flight_before
    (h : Delivery f w w')
    {g : Flight Key Body Sender}
    (hg : g ∈ w'.store.flights) :
    ∃ g₀ ∈ w.store.flights, g₀.write = g.write := by
  rcases h.old hg with ⟨g₀, hg₀, hLater⟩
  exact ⟨g₀, hg₀, hLater.write.symm⟩

/- A delivery adds at most one entry to the history. -/
theorem headLog_cases
    (h : Delivery f w w')
    (hBasic : Basic clean w) :
    (w'.headLog = w.headLog ∧
        (f.write.key = .head →
          w'.store.objects = w.store.objects) ∧
        ∀ id, HeadWrite id f.write →
          ¬ f.write.Allowed w.store.objects) ∨
      ∃ op, Built w op ∧ HeadWrite op.opId f.write ∧
        (clean → f.write = headWrite op) ∧
        f.write.Allowed w.store.objects ∧
        w'.headLog = op :: w.headLog ∧
        w'.store.objects =
          f.write.apply w.store.objects := by
  rcases h.outcome with
    ⟨hAllowed, hObjects, hLog⟩ | ⟨hRefused, hObjects, hLog⟩
  · have hProtocol := hBasic.flights f h.flight
    generalize hWrite : f.write = x
      at hProtocol hObjects hLog hAllowed
    cases hProtocol with
    | operation =>
        refine .inl ⟨hLog, ?_, ?_⟩
        · intro hKey
          cases hKey
        · intro id hHead
          cases hHead
    | discard =>
        refine .inl ⟨hLog, ?_, ?_⟩
        · intro hKey
          cases hKey
        · intro id hHead
          cases hHead
    | @head op _ known write own =>
        refine .inr ⟨op, known, write, own, hAllowed, ?_,
          hObjects⟩
        rw [hLog]
        unfold World.noteHead
        rw [write.key, write.body]
        simp only [hBasic.operationOf_of_built known]
    | other notHead =>
        refine .inl ⟨?_, fun h => absurd h notHead,
          fun _ h => absurd h.key notHead⟩
        rw [hLog]
        unfold World.noteHead
        cases hKey : x.key with
        | head => exact absurd hKey notHead
        | _ => rfl
  · exact .inl ⟨hLog, fun _ => hObjects, fun _ _ => hRefused⟩

theorem suffix
    (h : Delivery f w w')
    (hBasic : Basic clean w) :
    w.headLog <:+ w'.headLog := by
  rcases h.headLog_cases hBasic with
    ⟨hLog, _⟩ | ⟨op, _, _, _, _, hLog, _⟩
  · rw [hLog]
  · rw [hLog]
    exact List.suffix_cons op w.headLog

/- A write that is carried out leaves a new version. -/
theorem versions_suffix
    (h : Delivery f w w')
    (key : Key) : w.versions key <:+ w'.versions key := by
  rw [h.versions]
  split
  · unfold World.noteVersion
    cases f.write.body with
    | none => exact List.suffix_rfl
    | some body =>
        simp only
        split
        · exact List.suffix_cons _ _
        · exact List.suffix_rfl
  · exact List.suffix_rfl

/- A body that appears is a new version. -/
theorem gone
    (h : Delivery f w w')
    (key : Key)
    (hNone : w.store.objects.lookup key = none)
    (hSame :
      (w'.versions key).length = (w.versions key).length) :
    w'.store.objects.lookup key = none := by
  rcases h.outcome with
    ⟨hAllowed, hObjects, _⟩ | ⟨_, hObjects, _⟩
  · by_cases hKey : key = f.write.key
    · rw [hObjects, hKey, Write.lookup_apply_self]
      cases hBody : f.write.body with
      | none => rfl
      | some body =>
          rw [h.versions, if_pos hAllowed] at hSame
          simp [World.noteVersion, hBody, hKey] at hSame
    · rw [hObjects, Write.lookup_apply_of_ne hKey]
      exact hNone
  · rw [hObjects]
    exact hNone

theorem grows
    (h : Delivery f w w')
    (hBasic : Basic clean w) : Grows w w' := by
  refine ⟨h.suffix hBasic, ?_, h.grown, ?_, h.versions_suffix,
    ?_, ?_, h.gone⟩
  · rw [h.issued]
  · rw [h.drawn]
  · rw [h.reads]
  · rw [h.now]

/- A version was there before or is the delivered one. -/
theorem mem_versions
    (h : Delivery f w w')
    {key : Key} {v : Version}
    (hv : v ∈ w'.versions key) :
    v ∈ w.versions key ∨
      (f.write.key = key ∧ f.write.Allowed w.store.objects ∧
        f.write.body = some v.body ∧ v.sender = f.sender) := by
  rw [h.versions] at hv
  split at hv
  · rename_i hAllowed
    unfold World.noteVersion at hv
    cases hBody : f.write.body with
    | none =>
        rw [hBody] at hv
        exact .inl hv
    | some body =>
        simp only [hBody] at hv
        split at hv
        · rename_i hKey
          rcases List.mem_cons.mp hv with rfl | hv
          · exact .inr ⟨hKey.symm, hAllowed, rfl, rfl⟩
          · exact .inl hv
        · exact .inl hv
  · exact .inl hv

/- A write that is carried out gives an object its body. -/
theorem history
    (h : Delivery f w w')
    (hBasic : Basic clean w)
    (hHistory : HistoryOk w) : HistoryOk w' := by
  constructor
  · intro key body hBody
    rw [h.versions]
    rcases h.outcome with
      ⟨hAllowed, hObjects, _⟩ | ⟨hRefused, hObjects, _⟩
    · rw [if_pos hAllowed]
      rw [hObjects] at hBody
      unfold World.noteVersion
      by_cases hKey : key = f.write.key
      · rw [hKey, Write.lookup_apply_self] at hBody
        rw [hBody]
        simp [hKey]
      · rw [Write.lookup_apply_of_ne hKey] at hBody
        have hOld := hHistory.newest key body hBody
        cases f.write.body with
        | none => exact hOld
        | some new => simpa [hKey] using hOld
    · rw [if_neg hRefused]
      rw [hObjects] at hBody
      exact hHistory.newest key body hBody
  · intro note hNote
    rw [h.reads] at hNote
    exact (hHistory.reads note hNote).mono (h.grows hBasic)
  · intro g hg hApplied body hBody
    have old :
        ∀ g ∈ w.store.flights, g.applied = true →
          g.write.body = some body →
          ⟨body, g.sender⟩ ∈ w'.versions g.write.key :=
      fun g hg hApplied hBody =>
        (h.versions_suffix g.write.key).subset
          (hHistory.applied g hg hApplied body hBody)
    rcases h.flights g hg with
      hg | ⟨hWrite, hSender, ⟨hAllowed, _⟩ | ⟨_, hSame⟩⟩
    · exact old g hg hApplied hBody
    · rw [hWrite] at hBody
      rw [hWrite, hSender, h.versions, if_pos hAllowed]
      simp [World.noteVersion, hBody]
    · rw [hSame] at hApplied
      rw [hWrite] at hBody
      rw [hWrite, hSender]
      exact old f h.flight hApplied hBody

theorem others
    (h : Delivery f w w')
    (hBasic : Basic clean w)
    (t : Tid) : Others t w w' := by
  refine ⟨⟨h.grows hBasic, ?_, ?_, ?_⟩, ?_, ?_⟩
  · rw [h.holding]
  · rw [h.calls]
  · rw [h.basis]
  · intro j _
    rw [h.journals]
  · rw [h.issued]
    exact fun x hx _ => hx

/- What became of one object. -/
theorem lookup_cases
    (h : Delivery f w w')
    (key : Key) :
    w'.store.objects.lookup key =
        w.store.objects.lookup key ∨
      (f.write.key = key ∧
        f.write.Allowed w.store.objects ∧
        w'.store.objects.lookup key = f.write.body) := by
  rcases h.outcome with
    ⟨hAllowed, hObjects, _⟩ | ⟨_, hObjects, _⟩
  · by_cases hKey : key = f.write.key
    · refine .inr ⟨hKey.symm, hAllowed, ?_⟩
      rw [hObjects, hKey, Write.lookup_apply_self]
    · left
      rw [hObjects, Write.lookup_apply_of_ne hKey]
  · left
    rw [hObjects]

theorem lookup_of_allowed
    (h : Delivery f w w')
    (hAllowed : f.write.Allowed w.store.objects) :
    w'.store.objects.lookup f.write.key = f.write.body := by
  rcases h.outcome with ⟨_, hObjects, _⟩ | ⟨hRefused, _⟩
  · rw [hObjects, Write.lookup_apply_self]
  · exact absurd hAllowed hRefused

theorem lookup_of_ne
    (h : Delivery f w w')
    {key : Key}
    (hKey : f.write.key ≠ key) :
    w'.store.objects.lookup key =
      w.store.objects.lookup key :=
  (h.lookup_cases key).resolve_right fun hWritten =>
    hKey hWritten.1

theorem basic
    (h : Delivery f w w')
    (hBasic : Basic clean w) : Basic clean w' where
  ids := by
    rw [h.issued]
    exact hBasic.ids
  drawn := by
    rw [h.issued]
    unfold World.Drawn
    rw [h.drawn]
    exact hBasic.drawn
  bases := by
    intro op hOp
    rcases hBasic.bases op (h.built_iff.mp hOp) with
      ⟨l, hl, hHead⟩
    exact ⟨l, hl.trans (h.suffix hBasic), hHead⟩
  flights := by
    intro g hg
    rcases h.flight_before hg with ⟨g₀, hg₀, hWrite⟩
    rw [← hWrite]
    exact (hBasic.flights g₀ hg₀).mono
      fun _ => h.built_iff.mpr
  objects := by
    intro id body hBody
    rcases h.lookup_cases (.op id) with
      hSame | ⟨hKey, _, hNew⟩
    · rw [hSame] at hBody
      rcases hBasic.objects id body hBody with ⟨op, hOp, hRest⟩
      exact ⟨op, h.built_iff.mpr hOp, hRest⟩
    · rw [hNew] at hBody
      have hProtocol := hBasic.flights f h.flight
      generalize f.write = x at hProtocol hBody hKey
      cases hProtocol with
      | @operation op known =>
          refine ⟨op, h.built_iff.mpr known, ?_, ?_⟩
          · simpa [opWrite, Write.key] using hKey
          · simpa [opWrite, Write.body] using hBody.symm
      | discard => simp [Write.body] at hBody
      | head _ write =>
          rw [write.key] at hKey
          cases hKey
      | other _ notOp => exact absurd hKey (notOp id)
  pointer := by
    rcases h.headLog_cases hBasic with
      ⟨hLog, hSame, _⟩ | ⟨op, _, hWrite, _, _, hLog, hObjects⟩
    · rw [hLog, ← hBasic.pointer]
      rcases h.lookup_cases .head with hEq | ⟨hKey, _, _⟩
      · exact hEq
      · rw [hSame hKey]
    · rw [hLog, hObjects, ← hWrite.key,
        Write.lookup_apply_self, hWrite.body]
      rfl
  log := by
    intro op hOp
    rw [h.built_iff]
    rcases h.headLog_cases hBasic with
      ⟨hLog, _⟩ | ⟨new, hNew, _, _, _, hLog, _⟩
    · rw [hLog] at hOp
      exact hBasic.log op hOp
    · rw [hLog] at hOp
      rcases List.mem_cons.mp hOp with rfl | hOp
      · exact hNew
      · exact hBasic.log op hOp
  applied := by
    intro g hg hApplied id hHead
    have old :
        ∀ g ∈ w.store.flights, g.applied = true →
          HeadWrite id g.write →
          ∃ op ∈ w'.headLog, op.opId = id := by
      intro g hg hApplied hHead
      rcases hBasic.applied g hg hApplied id hHead with
        ⟨op, hOp, hId⟩
      exact ⟨op, (h.suffix hBasic).subset hOp, hId⟩
    rcases h.flights g hg with
      hg | ⟨hWrite, _, ⟨hAllowed, _⟩ | ⟨_, hSame⟩⟩
    · exact old g hg hApplied hHead
    · rw [hWrite] at hHead
      rcases h.headLog_cases hBasic with
        ⟨_, _, hRefused⟩ | ⟨op, _, hOp, _, _, hLog, _⟩
      · exact absurd hAllowed (hRefused id hHead)
      · refine ⟨op, ?_, hOp.unique hHead⟩
        rw [hLog]
        exact List.mem_cons_self
    · rw [hSame] at hApplied
      rw [hWrite] at hHead
      exact old f h.flight hApplied hHead
  logFlights := by
    intro op hOp
    have old :
        ∀ g ∈ w.store.flights, HeadWrite op.opId g.write →
          ∃ g' ∈ w'.store.flights,
            HeadWrite op.opId g'.write := by
      intro g hg hHead
      rcases h.grown.mem hg with ⟨g', hg', hLater⟩
      exact ⟨g', hg', by rwa [hLater.write]⟩
    rcases h.headLog_cases hBasic with
      ⟨hLog, _⟩ | ⟨new, _, hNew, _, _, hLog, _⟩
    · rw [hLog] at hOp
      rcases hBasic.logFlights op hOp with ⟨g, hg, hHead⟩
      exact old g hg hHead
    · rw [hLog] at hOp
      rcases List.mem_cons.mp hOp with rfl | hOp
      · exact old f h.flight hNew
      · rcases hBasic.logFlights op hOp with ⟨g, hg, hHead⟩
        exact old g hg hHead
  owner := by
    rw [h.holding, h.owner]
    exact hBasic.owner
  numbered := by
    rw [h.issued, h.calls]
    exact hBasic.numbered
  targets := by
    rw [h.issued]
    exact hBasic.targets
  recorded := by
    rw [h.issued, h.journals]
    exact hBasic.recorded

end Delivery

------------------------------------------------------------
-- Deliveries and the Chain
------------------------------------------------------------

/- A head write succeeds exactly when its base is newest. -/
theorem Basic.allowed_headWrite_iff
    (h : Basic clean w)
    (op : Operation) :
    (headWrite op).Allowed w.store.objects ↔
      op.baseHead = headOf w.headLog := by
  unfold headWrite
  cases hBase : op.baseHead with
  | none =>
      simp only [Write.Allowed, h.pointer,
        Option.map_eq_none_iff]
      exact eq_comm
  | some base =>
      simp only [Write.Allowed, h.pointer, headEtag]
      constructor
      · intro hHead
        rcases Option.map_eq_some_iff.mp hHead with
          ⟨id, hId, hBody⟩
        cases hBody
        exact hId.symm
      · intro hHead
        rw [← hHead]
        rfl

theorem Built.known
    (h : Basic clean w)
    {op : Operation}
    (hOp : Built w op) :
    Known Operation.opId op.baseHead w.headLog := by
  rcases h.bases op hOp with ⟨l, hl, hHead⟩
  rw [← hHead]
  exact known_headKey.mono hl

theorem ReceiptOk.mono
    {r : Receipt}
    (h : ReceiptOk r w.headLog)
    (hSuffix : w.headLog <:+ w'.headLog)
    (hDead :
      ∀ op ∈ r.attempts, LogDead op w.headLog →
        LogDead op w'.headLog) :
    ReceiptOk r w'.headLog := by
  refine ⟨⟨?_, ?_⟩, ?_⟩
  · intro op hOp
    exact hDead op (List.mem_of_mem_dropLast hOp)
      (h.attempts.dead op hOp)
  · exact h.attempts.floor.mono hSuffix
  · intro id hId
    rcases h.committed id hId with ⟨op, hOp, hId⟩
    exact ⟨op, hSuffix.subset hOp, hId⟩

namespace Delivery

variable {f : Flight Key Body Sender}

/- A CAS against the own base appends to the chain. -/
theorem chain
    (h : Delivery f w w')
    (hBasic : Basic clean w)
    (hLinear : Linear w)
    (hClean : clean) : LogChain w'.headLog := by
  rcases h.headLog_cases hBasic with
    ⟨hLog, _⟩ | ⟨op, hOp, _, own, hAllowed, hLog, _⟩
  · rw [hLog]
    exact hLinear.chain
  · rw [own hClean, hBasic.allowed_headWrite_iff] at hAllowed
    rw [hLog]
    apply hLinear.chain.cons hAllowed
    intro x hx hId
    have hEq := hBasic.built_unique (hBasic.log x hx) hOp hId
    rw [hEq] at hx
    exact hLinear.chain.not_mem_of_live hAllowed hx

theorem dead
    (h : Delivery f w w')
    (hBasic : Basic clean w)
    (hLinear : Linear w)
    (hClean : clean)
    {op : Operation}
    (hOp : Built w op)
    (hDead : LogDead op w.headLog) :
    LogDead op w'.headLog :=
  logDead_mono (h.basic hBasic)
    (h.chain hBasic hLinear hClean)
    (h.built_iff.mpr hOp) hDead (h.suffix hBasic)

/- No delivery takes an object away that is still needed. -/
theorem kept
    (h : Delivery f w w')
    (hBasic : Basic clean w)
    (hLinear : Linear w)
    (hClean : clean)
    {op : Operation}
    (hOp : Built w op)
    (hKept : Kept w op) : Kept w' op := by
  rcases hKept with hPresent | hDead
  · rcases h.lookup_cases (.op op.opId) with
      hSame | ⟨hKey, hAllowed, _⟩
    · left
      rw [hSame]
      exact hPresent
    · have hProtocol := hBasic.flights f h.flight
      generalize hWrite : f.write = x
        at hProtocol hKey hAllowed
      cases hProtocol with
      | operation =>
          simp only [opWrite, Write.key, Key.op.injEq] at hKey
          simp [opWrite, Write.Allowed, hKey, hPresent]
            at hAllowed
      | @discard op' =>
          right
          apply h.dead hBasic hLinear hClean hOp
          simp only [Write.key, Key.op.injEq] at hKey
          rw [hKey] at hWrite
          exact hLinear.discards f h.flight op hOp hWrite
      | head _ write =>
          rw [write.key] at hKey
          cases hKey
      | other _ notOp => exact absurd hKey (notOp op.opId)
  · right
    exact h.dead hBasic hLinear hClean hOp hDead

theorem sent_iff
    (h : Delivery f w w')
    {op : Operation} : Sent w' op ↔ Sent w op := by
  constructor
  · rintro ⟨g, hg, hHead⟩
    rcases h.flight_before hg with ⟨g₀, hg₀, hWrite⟩
    exact ⟨g₀, hg₀, by rwa [hWrite]⟩
  · rintro ⟨g, hg, hHead⟩
    rcases h.grown.mem hg with ⟨g', hg', hLater⟩
    exact ⟨g', hg', by rwa [hLater.write]⟩

/- An object write that was answered has left its object. -/
theorem written
    (h : Delivery f w w')
    (hBasic : Basic clean w)
    (hLinear : Linear w)
    (hClean : clean)
    {op : Operation}
    (hWritten : Written w' op) : Kept w' op := by
  rcases hWritten with ⟨g, hg, hWrite, hSeen⟩
  have hOp : Built w op := by
    rcases h.flight_before hg with ⟨g₀, hg₀, hWrite₀⟩
    have hProtocol := hBasic.flights g₀ hg₀
    rw [hWrite₀, hWrite] at hProtocol
    exact hProtocol.operation_inv
  have old : Written w op → Kept w' op := fun hWritten =>
    h.kept hBasic hLinear hClean hOp
      (hLinear.written op hWritten)
  rcases h.flights g hg with hg | ⟨hSame, _, hNote⟩
  · exact old ⟨g, hg, hWrite, hSeen⟩
  · have hDelivered : f.write = opWrite op :=
      hSame.symm.trans hWrite
    have hLookup :
        w'.store.objects.lookup (.op op.opId) =
            some (.operation op) := by
      rcases h.outcome with
        ⟨_, hObjects, _⟩ | ⟨hRefused, hObjects, _⟩
      · have hKey : f.write.key = .op op.opId := by
          rw [hDelivered]
          rfl
        rw [hObjects, ← hKey, Write.lookup_apply_self,
          hDelivered]
        rfl
      · rw [hDelivered] at hRefused
        rw [hObjects]
        cases hFound : w.store.objects.lookup (.op op.opId) with
        | none =>
            exact absurd hFound hRefused
        | some body =>
            rcases hBasic.objects _ body hFound with
              ⟨op', hOp', hId, rfl⟩
            rw [hBasic.built_unique hOp' hOp hId]
    exact .inl hLookup

theorem linear
    (h : Delivery f w w')
    (hBasic : Basic clean w)
    (hLinear : Linear w)
    (hClean : clean) : Linear w' where
  chain := h.chain hBasic hLinear hClean
  refused := by
    intro g hg hRefused op hOp hWrite
    rw [h.built_iff] at hOp
    have hChain := h.chain hBasic hLinear hClean
    have old :
        ∀ g ∈ w.store.flights, g.refused = true →
          g.write = headWrite op →
          LogStale op.baseHead w'.headLog := by
      intro g hg hRefused hWrite
      exact (hLinear.refused g hg hRefused op hOp hWrite).mono
        hChain.nodup (h.suffix hBasic)
    rcases h.flights g hg with
      hg | ⟨hSame, _, ⟨_, hNote⟩ | ⟨hNot, _⟩⟩
    · exact old g hg hRefused hWrite
    · rw [hNote] at hRefused
      exact old f h.flight hRefused (hSame.symm.trans hWrite)
    · have hDelivered := hSame.symm.trans hWrite
      rw [hDelivered, hBasic.allowed_headWrite_iff] at hNot
      have hStale : LogStale op.baseHead w.headLog :=
        ⟨hOp.known hBasic, hNot⟩
      exact hStale.mono hChain.nodup (h.suffix hBasic)
  written := fun op hWritten =>
    h.written hBasic hLinear hClean hWritten
  sent := by
    intro op hOp hSent
    rw [h.built_iff] at hOp
    rw [h.sent_iff] at hSent
    exact h.kept hBasic hLinear hClean hOp
      (hLinear.sent op hOp hSent)
  present := by
    intro op hOp
    have hBuilt : Built w op :=
      h.built_iff.mp ((h.basic hBasic).log op hOp)
    have hKept : Kept w op := by
      rcases h.headLog_cases hBasic with
        ⟨hLog, _⟩ | ⟨new, hNew, hHead, _, _, hLog, _⟩
      · rw [hLog] at hOp
        exact .inl (hLinear.present op hOp)
      · rw [hLog] at hOp
        rcases List.mem_cons.mp hOp with rfl | hOp
        · exact hLinear.sent op hNew ⟨f, h.flight, hHead⟩
        · exact .inl (hLinear.present op hOp)
    rcases h.kept hBasic hLinear hClean hBuilt hKept with
      hPresent | hDead
    · exact hPresent
    · exact absurd hOp hDead.not_mem
  discards := by
    intro g hg op hOp hWrite
    rw [h.built_iff] at hOp
    rcases h.flight_before hg with ⟨g₀, hg₀, hWrite₀⟩
    exact h.dead hBasic hLinear hClean hOp
      (hLinear.discards g₀ hg₀ op hOp
        (hWrite₀.trans hWrite))
  journals := by
    intro j
    have hJournal := hLinear.journals j
    have built :
        ∀ op ∈ (w.journals j).stored.attempts,
          Built w op := by
      intro op hOp
      rcases hBasic.recorded j op (.inr hOp) with
        ⟨x, hx, hxOp, _⟩
      exact ⟨x, hx, hxOp⟩
    refine ⟨?_, ?_, ?_, ?_⟩
    · rw [h.journals]
      apply hJournal.receipt.mono (h.suffix hBasic)
      intro op hOp
      exact h.dead hBasic hLinear hClean
        (built op (hJournal.kept.subset hOp))
    · rw [h.journals]
      apply hJournal.stored.mono (h.suffix hBasic)
      intro op hOp
      exact h.dead hBasic hLinear hClean (built op hOp)
    · rw [h.journals]
      exact hJournal.kept
    · rw [h.journals, h.issued]
      intro x hx hj hSent
      rw [h.sent_iff] at hSent
      exact hJournal.sent x hx hj hSent

end Delivery

/- A delivery keeps the invariant and is seen by nobody. -/
theorem LogInv.deliver
    (h : LogInv clean w)
    {ticket : Nat}
    (hDeliver : w.deliver ticket = some w') :
    LogInv clean w' ∧ ∀ t, Others t w w' := by
  rcases deliver_spec hDeliver with ⟨f, hDelivery⟩
  refine ⟨⟨hDelivery.basic h.basic, ?_,
    hDelivery.history h.basic h.history⟩,
    hDelivery.others h.basic⟩
  intro hClean
  exact hDelivery.linear h.basic (h.linear hClean) hClean

/-
  What must hold before a write is sent: a head write needs
  its object, and its entry in the journal that it belongs
  to; only a dead operation is deleted.
-/
structure Guarded
    (w : World)
    (write : Write Key Body) : Prop where
  kept :
    ∀ op, Built w op → HeadWrite op.opId write → Kept w op
  recorded :
    ∀ x ∈ w.issued, HeadWrite x.operation.opId write →
      ∀ j, x.journal = some j →
        x.operation ∈ (w.journals j).receipt.attempts
  dead :
    ∀ op, Built w op → write = .delete (.op op.opId) →
      LogDead op w.headLog

variable {write : Write Key Body}

theorem mem_sent
    {t : Tid}
    {f : Flight Key Body Sender}
    (hf : f ∈ (w.sent t write).store.flights) :
    f ∈ w.store.flights ∨
      f = ⟨write, w.sender t, false, false⟩ := by
  simpa [World.sent, Store.send] using hf

theorem sent_sent
    {t : Tid} {op : Operation}
    (h : Sent (w.sent t write) op) :
    Sent w op ∨ HeadWrite op.opId write := by
  rcases h with ⟨f, hf, hHead⟩
  rcases mem_sent hf with hf | rfl
  · exact .inl ⟨f, hf, hHead⟩
  · exact .inr hHead

theorem written_sent
    {t : Tid} {op : Operation}
    (h : Written (w.sent t write) op) : Written w op := by
  rcases h with ⟨f, hf, hWrite, hSeen⟩
  rcases mem_sent hf with hf | rfl
  · exact ⟨f, hf, hWrite, hSeen⟩
  · simp at hSeen

theorem others_sent
    (w : World)
    (t u : Tid)
    (write : Write Key Body) :
    Others u w (w.sent t write) :=
  ⟨⟨⟨List.suffix_rfl, List.prefix_rfl,
    flightsGrow_send _ _ _, List.suffix_rfl,
    fun _ => List.suffix_rfl, List.suffix_rfl,
    Nat.le_refl _, fun _ hNone _ => hNone⟩, rfl, rfl, rfl⟩,
    fun _ _ => rfl, fun _ hx _ => hx⟩

/- A write that was sent has not been applied. -/
theorem HistoryOk.send
    (h : HistoryOk w)
    (t : Tid)
    (write : Write Key Body) : HistoryOk (w.sent t write) := by
  refine ⟨h.newest, ?_, ?_⟩
  · exact fun note hNote => (h.reads note hNote).mono
      (others_sent w t t write).toGrows
  · intro f hf hApplied
    rcases mem_sent hf with hf | rfl
    · exact h.applied f hf hApplied
    · cases hApplied

theorem Basic.send
    (h : Basic clean w)
    (t : Tid)
    {write : Write Key Body}
    (hProtocol : Protocol clean (Built w) write) :
    Basic clean (w.sent t write) where
  ids := h.ids
  drawn := h.drawn
  bases := h.bases
  flights := by
    intro f hf
    rcases mem_sent hf with hf | rfl
    · exact h.flights f hf
    · exact hProtocol
  objects := h.objects
  pointer := h.pointer
  log := h.log
  applied := by
    intro f hf hApplied
    rcases mem_sent hf with hf | rfl
    · exact h.applied f hf hApplied
    · simp at hApplied
  logFlights := by
    intro op hOp
    rcases h.logFlights op hOp with ⟨f, hf, hHead⟩
    exact ⟨f, List.mem_append_left _ hf, hHead⟩
  owner := h.owner
  numbered := h.numbered
  targets := h.targets
  recorded := h.recorded

theorem Linear.send
    (h : Linear w)
    (t : Tid)
    {write : Write Key Body}
    (hGuarded : Guarded w write) :
    Linear (w.sent t write) where
  chain := h.chain
  refused := by
    intro f hf hRefused
    rcases mem_sent hf with hf | rfl
    · exact h.refused f hf hRefused
    · simp at hRefused
  written := fun op hWritten =>
    h.written op (written_sent hWritten)
  sent := by
    intro op hOp hSent
    rcases sent_sent hSent with hSent | hHead
    · exact h.sent op hOp hSent
    · exact hGuarded.kept op hOp hHead
  present := h.present
  discards := by
    intro f hf op hOp hWrite
    rcases mem_sent hf with hf | rfl
    · exact h.discards f hf op hOp hWrite
    · exact hGuarded.dead op hOp hWrite
  journals := by
    intro j
    have hJournal := h.journals j
    refine ⟨hJournal.receipt, hJournal.stored, hJournal.kept,
      ?_⟩
    intro x hx hj hSent
    rcases sent_sent hSent with hSent | hHead
    · exact hJournal.sent x hx hj hSent
    · exact hGuarded.recorded x hx hHead j hj

theorem LogInv.send
    (h : LogInv clean w)
    (t : Tid)
    {write : Write Key Body}
    (hProtocol : Protocol clean (Built w) write)
    (hGuarded : clean → Guarded w write) :
    LogInv clean (w.sent t write) :=
  ⟨h.basic.send t hProtocol,
    fun hClean => (h.linear hClean).send t (hGuarded hClean),
    h.history.send t write⟩

------------------------------------------------------------
-- Building Operations
------------------------------------------------------------

theorem built_stamped_iff
    {t : Tid} {op x : Operation} :
    Built (w.stamped t op) x ↔ Built w x ∨ x = op := by
  simp [Built, World.stamped, or_and_right, exists_or,
    eq_comm]

theorem steps_stamped
    (w : World)
    (t u : Tid)
    (op : Operation) :
    Steps u w (w.stamped t op) :=
  ⟨⟨List.suffix_rfl, List.prefix_append _ _, .refl _,
    List.suffix_cons _ _, fun _ => List.suffix_rfl,
    List.suffix_rfl, Nat.le_refl _, fun _ hNone _ => hNone⟩,
    rfl, rfl, rfl⟩

theorem others_stamped
    (w : World)
    {t u : Tid}
    (op : Operation)
    (hu : u ≠ t) :
    Others u w (w.stamped t op) := by
  refine ⟨steps_stamped w t u op, fun _ _ => rfl, ?_⟩
  intro x hx hIssuer
  simp only [World.stamped, List.mem_append,
    List.mem_singleton] at hx
  rcases hx with hx | rfl
  · exact hx
  · exact absurd hIssuer.symm hu

/- A fresh id is the id of no operation built before. -/
theorem Basic.fresh_ne
    (h : Basic clean w)
    {op x : Operation}
    (hFresh : ¬ w.Drawn op.opId.opUuid)
    (hx : Built w x) : x.opId ≠ op.opId := by
  intro hId
  rcases hx with ⟨y, hy, rfl⟩
  apply hFresh
  rw [← hId]
  exact h.drawn y hy

theorem Basic.not_sent_fresh
    (h : Basic clean w)
    {op : Operation}
    (hFresh : ¬ w.Drawn op.opId.opUuid) : ¬ Sent w op := by
  rintro ⟨f, hf, hHead⟩
  rcases (h.flights f hf).head_inv hHead with
    ⟨x, hx, hId, _⟩
  exact h.fresh_ne hFresh hx hId

theorem Basic.stamp
    (h : Basic clean w)
    (t : Tid)
    {op : Operation}
    (hFresh : ¬ w.Drawn op.opId.opUuid)
    (hBase :
      ∃ l, l <:+ w.headLog ∧ headOf l = op.baseHead)
    (hTarget :
      ∀ j, w.holding t = some j →
        op.targetFileId = some j.fileId) :
    Basic clean (w.stamped t op) where
  ids := by
    simp only [World.stamped, List.map_append, List.map_cons,
      List.map_nil]
    apply List.Nodup.append h.ids (List.nodup_singleton _)
    intro id hOld hNew
    rcases List.mem_map.mp hOld with ⟨x, hx, hId⟩
    rw [List.mem_singleton] at hNew
    exact h.fresh_ne hFresh ⟨x, hx, rfl⟩ (hId.trans hNew)
  drawn := by
    intro x hx
    simp only [World.stamped, List.mem_append,
      List.mem_singleton] at hx
    rcases hx with hx | rfl
    · exact List.mem_cons_of_mem _ (h.drawn x hx)
    · exact List.mem_cons_self
  bases := by
    intro x hx
    rcases built_stamped_iff.mp hx with hx | rfl
    · exact h.bases x hx
    · exact hBase
  flights := by
    intro f hf
    exact (h.flights f hf).mono
      fun x hx => built_stamped_iff.mpr (.inl hx)
  objects := by
    intro id body hBody
    rcases h.objects id body hBody with ⟨x, hx, hRest⟩
    exact ⟨x, built_stamped_iff.mpr (.inl hx), hRest⟩
  pointer := h.pointer
  log := by
    intro x hx
    exact built_stamped_iff.mpr (.inl (h.log x hx))
  applied := h.applied
  logFlights := h.logFlights
  owner := h.owner
  numbered := by
    intro x hx
    simp only [World.stamped, List.mem_append,
      List.mem_singleton] at hx
    rcases hx with hx | rfl
    · exact h.numbered x hx
    · exact Nat.le_refl _
  targets := by
    intro x hx j hj
    simp only [World.stamped, List.mem_append,
      List.mem_singleton] at hx
    rcases hx with hx | rfl
    · exact h.targets x hx j hj
    · exact hTarget j hj
  recorded := by
    intro j x hx
    rcases h.recorded j x hx with ⟨y, hy, hRest⟩
    exact ⟨y, List.mem_append_left _ hy, hRest⟩

theorem Linear.stamp
    (h : Linear w)
    (hBasic : Basic clean w)
    (t : Tid)
    {op : Operation}
    (hFresh : ¬ w.Drawn op.opId.opUuid) :
    Linear (w.stamped t op) where
  chain := h.chain
  refused := by
    intro f hf hRefused x hx hWrite
    rcases built_stamped_iff.mp hx with hx | rfl
    · exact h.refused f hf hRefused x hx hWrite
    · exfalso
      apply hBasic.not_sent_fresh hFresh
      exact ⟨f, hf, hWrite ▸ headWrite_isHeadWrite x⟩
  written := h.written
  sent := by
    intro x hx hSent
    rcases built_stamped_iff.mp hx with hx | rfl
    · exact h.sent x hx hSent
    · exact absurd hSent (hBasic.not_sent_fresh hFresh)
  present := h.present
  discards := by
    intro f hf x hx hWrite
    rcases built_stamped_iff.mp hx with hx | rfl
    · exact h.discards f hf x hx hWrite
    · exfalso
      have hProtocol := hBasic.flights f hf
      rw [hWrite] at hProtocol
      rcases hProtocol.discard_inv with ⟨y, hy, hId⟩
      exact hBasic.fresh_ne hFresh hy hId
  journals := by
    intro j
    have hJournal := h.journals j
    refine ⟨hJournal.receipt, hJournal.stored, hJournal.kept,
      ?_⟩
    intro x hx hj hSent
    simp only [World.stamped, List.mem_append,
      List.mem_singleton] at hx
    rcases hx with hx | rfl
    · exact hJournal.sent x hx hj hSent
    · exact absurd hSent (hBasic.not_sent_fresh hFresh)

theorem LogInv.stamp
    (h : LogInv clean w)
    (t : Tid)
    {op : Operation}
    (hFresh : ¬ w.Drawn op.opId.opUuid)
    (hBase :
      ∃ l, l <:+ w.headLog ∧ headOf l = op.baseHead)
    (hTarget :
      ∀ j, w.holding t = some j →
        op.targetFileId = some j.fileId) :
    LogInv clean (w.stamped t op) :=
  ⟨h.basic.stamp t hFresh hBase hTarget,
    fun hClean =>
      (h.linear hClean).stamp h.basic t hFresh,
    h.history.newest, fun note hNote =>
      (h.history.reads note hNote).mono
        (steps_stamped w t t op).toGrows, h.history.applied⟩

theorem journals_setJournal
    (w : World)
    (i j : JournalId)
    (journal : Journal) :
    (w.setJournal j journal).journals i =
      if i = j then journal else w.journals i := rfl

/- Nobody else uses the journal of a thread. -/
theorem Basic.others_setJournal
    (h : Basic clean w)
    {t u : Tid} {j : JournalId}
    (journal : Journal)
    (hHolding : w.owner j = some t ∨ w.owner j = none)
    (hu : u ≠ t) :
    Others u w (w.setJournal j journal) := by
  refine ⟨⟨SameData.grows {}, rfl, rfl, rfl⟩, ?_,
    fun _ hx _ => hx⟩
  intro i hi
  rw [journals_setJournal, if_neg]
  rintro rfl
  have hOwner := h.owner u i hi
  rcases hHolding with hHolding | hHolding
  · rw [hHolding] at hOwner
    exact hu (Option.some.inj hOwner).symm
  · rw [hHolding] at hOwner
    cases hOwner

/-
  A journal may be replaced by one that keeps its attempts
  and says only what the log bears out.
-/
structure JournalStep
    (w : World)
    (j : JournalId)
    (journal : Journal) : Prop where
  receipt : ReceiptOk journal.receipt w.headLog
  stored : ReceiptOk journal.stored w.headLog
  kept :
    journal.receipt.attempts <+: journal.stored.attempts
  grown :
    (w.journals j).receipt.attempts <+:
      journal.receipt.attempts

theorem LogInv.setJournal
    (h : LogInv clean w)
    {j : JournalId} {journal : Journal}
    (hRecorded :
      ∀ op,
        op ∈ journal.receipt.attempts ∨
          op ∈ journal.stored.attempts →
        ∃ x ∈ w.issued, x.operation = op ∧
          x.journal = some j)
    (hStep : clean → JournalStep w j journal) :
    LogInv clean (w.setJournal j journal) := by
  refine ⟨⟨h.basic.ids, h.basic.drawn, h.basic.bases,
    h.basic.flights, h.basic.objects, h.basic.pointer,
    h.basic.log, h.basic.applied, h.basic.logFlights,
    h.basic.owner, h.basic.numbered, h.basic.targets, ?_⟩, ?_,
    h.history.same {} rfl⟩
  · intro i op hOp
    rw [journals_setJournal] at hOp
    by_cases hij : i = j
    · subst hij
      rw [if_pos rfl] at hOp
      exact hRecorded op hOp
    · rw [if_neg hij] at hOp
      exact h.basic.recorded i op hOp
  intro hClean
  have hLinear := h.linear hClean
  have hStep := hStep hClean
  refine ⟨hLinear.chain, hLinear.refused, hLinear.written,
    hLinear.sent, hLinear.present, hLinear.discards, ?_⟩
  intro i
  have hJournal := hLinear.journals i
  by_cases hij : i = j
  · subst hij
    refine ⟨?_, ?_, ?_, ?_⟩
    all_goals rw [journals_setJournal, if_pos rfl]
    · exact hStep.receipt
    · exact hStep.stored
    · exact hStep.kept
    · intro x hx hj hSent
      exact hStep.grown.subset (hJournal.sent x hx hj hSent)
  · refine ⟨?_, ?_, ?_, ?_⟩
    all_goals rw [journals_setJournal, if_neg hij]
    · exact hJournal.receipt
    · exact hJournal.stored
    · exact hJournal.kept
    · exact hJournal.sent

/- A journal may always be opened again from its file. -/
theorem LogInv.reopen
    (h : LogInv clean w)
    (j : JournalId) : LogInv clean (w.reopen j) := by
  apply h.setJournal
  · rintro op (hOp | hOp)
    · exact h.basic.recorded j op (.inr hOp)
    · exact h.basic.recorded j op (.inr hOp)
  · intro hClean
    have hJournal := (h.linear hClean).journals j
    exact ⟨hJournal.stored, hJournal.stored, List.prefix_rfl,
      hJournal.kept⟩

------------------------------------------------------------
-- Calls
------------------------------------------------------------

/-
  The invariant does not depend on who runs what, or on how
  many ids have been drawn.
-/
theorem LogInv.of_same
    (h : LogInv clean w)
    (hStore : w'.store = w.store)
    (hDrawn : ∀ id, w.Drawn id → w'.Drawn id)
    (hJournals : w'.journals = w.journals)
    (hIssued : w'.issued = w.issued)
    (hLog : w'.headLog = w.headLog)
    (hCalls : ∀ t, w.calls t ≤ w'.calls t)
    (hOwner :
      ∀ t j, w'.holding t = some j → w'.owner j = some t)
    (hHistory : HistoryOk w') :
    LogInv clean w' := by
  rcases w with ⟨store, now, drawn, journals, owner, holding,
    calls, basis, issued, headLog, versions, reads⟩
  rcases w' with ⟨store', now', drawn', journals', owner',
    holding', calls', basis', issued', headLog', versions',
    reads'⟩
  simp only at hStore hJournals hIssued hLog
  simp only at hCalls hOwner
  subst hStore hJournals hIssued hLog
  rcases h with ⟨hBasic, hLinear, _⟩
  refine ⟨⟨hBasic.ids, fun x hx => hDrawn _ (hBasic.drawn x hx),
    hBasic.bases, hBasic.flights, hBasic.objects, hBasic.pointer,
    hBasic.log, hBasic.applied, hBasic.logFlights,
    hOwner, ?_, hBasic.targets, hBasic.recorded⟩, ?_,
    hHistory⟩
  · intro x hx
    exact Nat.le_trans (hBasic.numbered x hx) (hCalls _)
  intro hClean
  have hLinear := hLinear hClean
  refine ⟨hLinear.chain, hLinear.refused, hLinear.written,
    hLinear.sent, hLinear.present, hLinear.discards, ?_⟩
  intro j
  have hJournal := hLinear.journals j
  exact ⟨hJournal.receipt, hJournal.stored, hJournal.kept,
    hJournal.sent⟩

theorem LogInv.draws
    (h : LogInv clean w)
    (t : Tid)
    (id : Uuid) : LogInv clean (w.draws t id) :=
  h.of_same rfl (fun _ => List.mem_cons_of_mem _) rfl rfl rfl
    (fun _ => Nat.le_refl _) h.basic.owner
    (h.history.same { drawn := List.suffix_cons _ _ } rfl)

theorem LogInv.prepares
    (h : LogInv clean w)
    (t : Tid)
    (change : Change) : LogInv clean (w.prepares t change) :=
  h.of_same rfl (fun _ => id) rfl rfl rfl
    (fun _ => Nat.le_refl _) h.basic.owner
    (h.history.same {} rfl)

theorem sameData_noteRead
    (w : World)
    (t : Tid)
    (key : Key) : SameData w (w.noteRead t key) := by
  unfold World.noteRead
  split
  · exact {}
  · exact { reads := List.suffix_cons _ _ }

theorem LogInv.noteRead
    (h : LogInv clean w)
    (t : Tid)
    (key : Key) : LogInv clean (w.noteRead t key) := by
  have hGrows := (sameData_noteRead w t key).grows
  unfold World.noteRead at hGrows ⊢
  split
  · exact h
  · rename_i body hFound
    simp only [hFound] at hGrows
    refine h.of_same rfl (fun _ => id) rfl rfl rfl
      (fun _ => Nat.le_refl _) h.basic.owner
      ⟨h.history.newest, ?_, h.history.applied⟩
    intro note hNote
    rcases List.mem_cons.mp hNote with rfl | hNote
    · exact ⟨h.history.newest key body hFound,
        List.suffix_rfl, List.suffix_rfl, Nat.le_refl _⟩
    · exact (h.history.reads note hNote).mono hGrows

theorem others_noteRead
    (w : World)
    (t u : Tid)
    (key : Key) : Others u w (w.noteRead t key) := by
  have hGrows := (sameData_noteRead w t key).grows
  unfold World.noteRead at hGrows ⊢
  split
  · exact .refl u w
  · rename_i body hFound
    simp only [hFound] at hGrows
    exact ⟨⟨hGrows, rfl, rfl, rfl⟩, fun _ _ => rfl,
      fun _ hx _ => hx⟩

theorem others_draws
    (w : World)
    (t u : Tid)
    (id : Uuid) : Others u w (w.draws t id) :=
  ⟨⟨SameData.grows { drawn := List.suffix_cons _ _ }, rfl, rfl,
    rfl⟩, fun _ _ => rfl, fun _ hx _ => hx⟩

theorem others_prepares
    (w : World)
    {t u : Tid}
    (change : Change)
    (hu : u ≠ t) : Others u w (w.prepares t change) :=
  ⟨⟨SameData.grows {}, rfl, rfl, if_neg hu⟩, fun _ _ => rfl,
    fun _ hx _ => hx⟩

/- What a call finds when it begins. -/
structure Begun
    (clean : Prop)
    (t : Tid)
    (journal : Option JournalId)
    (w w' : World) : Prop where
  inv : LogInv clean w'
  others : ∀ u, u ≠ t → Others u w w'
  grows : Grows w w'
  holding : w'.holding t = journal
  basis : w'.basis t = none
  -- No operation has been built by this call yet.
  unused :
    ∀ x ∈ w'.issued, x.issuer = t → x.call ≠ w'.calls t

theorem LogInv.beginCall
    (h : LogInv clean w)
    {t : Tid} {journal : Option JournalId}
    (hIdle : w.holding t = none)
    (hBegin : w.beginCall t journal = some w') :
    Begun clean t journal w w' := by
  have counted :
      ∀ u, w.calls u ≤
        if u = t then w.calls t + 1 else w.calls u := by
    intro u
    split
    · rename_i hu
      rw [hu]
      omega
    · omega
  have unused :
      ∀ x ∈ w.issued, x.issuer = t →
        x.call ≠ if t = t then w.calls t + 1 else w.calls t := by
    intro x hx hIssuer
    have hNumbered := h.basic.numbered x hx
    rw [hIssuer] at hNumbered
    rw [if_pos rfl]
    omega
  unfold World.beginCall at hBegin
  cases journal with
  | none =>
      simp only [Option.some.injEq] at hBegin
      subst hBegin
      refine ⟨h.of_same rfl (fun _ => id) rfl rfl rfl
        counted h.basic.owner (h.history.same {} rfl), ?_,
        SameData.grows {}, hIdle, if_pos rfl, unused⟩
      intro u hu
      exact ⟨⟨SameData.grows {}, rfl, if_neg hu, if_neg hu⟩,
        fun _ _ => rfl, fun _ hx _ => hx⟩
  | some j =>
      simp only at hBegin
      split at hBegin
      · rename_i hFree
        simp only [Option.some.injEq] at hBegin
        subst hBegin
        refine ⟨h.of_same rfl (fun _ => id) rfl rfl rfl
          counted ?_ (h.history.same {} rfl), ?_,
          SameData.grows {}, if_pos rfl, if_pos rfl, unused⟩
        · intro u i hi
          by_cases hu : u = t
          · subst hu
            simp only [if_true, Option.some.injEq] at hi
            simp [hi]
          · simp only [if_neg hu] at hi
            have hOwner := h.basic.owner u i hi
            have hij : i ≠ j := by
              rintro rfl
              rw [hFree] at hOwner
              cases hOwner
            simp only [if_neg hij]
            exact hOwner
        · intro u hu
          exact ⟨⟨SameData.grows {}, if_neg hu, if_neg hu,
            if_neg hu⟩, fun _ _ => rfl, fun _ hx _ => hx⟩
      · cases hBegin

theorem LogInv.release
    (h : LogInv clean w)
    (t : Tid) :
    LogInv clean (w.release t) ∧
      (∀ u, u ≠ t → Others u w (w.release t)) ∧
      Grows w (w.release t) ∧
      (w.release t).holding t = none := by
  unfold World.release
  cases hHolding : w.holding t with
  | none =>
      exact ⟨h, fun u _ => .refl u w, .refl w, hHolding⟩
  | some j =>
      refine ⟨h.of_same rfl (fun _ => id) rfl rfl rfl
        (fun _ => Nat.le_refl _) ?_ (h.history.same {} rfl),
        ?_, SameData.grows {}, if_pos rfl⟩
      · intro u i hi
        by_cases hu : u = t
        · simp [hu] at hi
        · simp only [if_neg hu] at hi
          have hij : i ≠ j := by
            rintro rfl
            have hMine := h.basic.owner t i hHolding
            have hYours := h.basic.owner u i hi
            rw [hMine] at hYours
            exact hu (Option.some.inj hYours).symm
          simp only [if_neg hij]
          exact h.basic.owner u i hi
      · intro u hu
        exact ⟨⟨SameData.grows {}, if_neg hu, rfl, rfl⟩,
          fun _ _ => rfl, fun _ hx _ => hx⟩

theorem LogInv.halt
    (h : LogInv clean w)
    (t : Tid) :
    LogInv clean (w.halt t) ∧
      (∀ u, u ≠ t → Others u w (w.halt t)) ∧
      (w.halt t).holding t = none := by
  unfold World.halt
  cases hHolding : w.holding t with
  | none => exact ⟨h, fun u _ => .refl u w, hHolding⟩
  | some j =>
      have hReopen := h.reopen j
      rcases hReopen.release t with ⟨hInv, hOthers, _, hNone⟩
      refine ⟨hInv, ?_, hNone⟩
      intro u hu
      have hMine := h.basic.owner t j hHolding
      exact (h.basic.others_setJournal _ (.inl hMine) hu).trans
        (hOthers u hu)

theorem LogInv.environment
    (h : LogInv clean w)
    {e : EnvAction}
    (hEnv : w.environment e = some w') :
    LogInv clean w' ∧ ∀ t, Others t w w' := by
  cases e with
  | deliver ticket => exact h.deliver hEnv
  | tick elapsed =>
      simp only [World.environment, Option.some.injEq] at hEnv
      subst hEnv
      exact ⟨h.of_same rfl (fun _ => id) rfl rfl rfl
          (fun _ => Nat.le_refl _) h.basic.owner
          (h.history.same { now := Nat.le_add_right _ _ } rfl),
        fun t => ⟨⟨SameData.grows
          { now := Nat.le_add_right _ _ }, rfl, rfl, rfl⟩,
          fun _ _ => rfl, fun _ hx _ => hx⟩⟩
  | reopen j =>
      simp only [World.environment] at hEnv
      split at hEnv
      · rename_i hFree
        simp only [Option.some.injEq] at hEnv
        subst hEnv
        refine ⟨h.reopen j, ?_⟩
        intro t
        -- The journal is nobody's, so any other thread will do.
        exact h.basic.others_setJournal (t := t + 1) _
          (.inr hFree) (Nat.succ_ne_self t).symm
      · cases hEnv

/- The invariant holds of a bucket that nobody has used. -/
theorem LogInv.fresh (clean : Prop) :
    LogInv clean World.fresh := by
  have hReceipt : ReceiptOk ⟨[], none, none, false⟩ [] :=
    ⟨⟨by simp, [], List.suffix_rfl, by simp, by simp⟩,
      by simp⟩
  have noFlights :
      ∀ f : Flight Key Body Sender,
        f ∉ World.fresh.store.flights := by
    simp [World.fresh, Store.empty]
  refine ⟨⟨?_, ?_, ?_, ?_, ?_, rfl, ?_, ?_, ?_, ?_, ?_, ?_,
    ?_⟩, ?_, ?_, ?_, ?_⟩
  · exact List.nodup_nil
  · intro x hx
    cases hx
  · rintro op ⟨x, hx, _⟩
    cases hx
  · exact fun f hf => absurd hf (noFlights f)
  · intro id body hBody
    cases hBody
  · intro op hOp
    cases hOp
  · exact fun f hf => absurd hf (noFlights f)
  · intro op hOp
    cases hOp
  · intro t j hj
    cases hj
  · intro x hx
    cases hx
  · intro x hx
    cases hx
  · rintro j op (hOp | hOp)
    · cases hOp
    · cases hOp
  · intro _
    refine ⟨Chain.nil, ?_, ?_, ?_, ?_, ?_, ?_⟩
    · exact fun f hf => absurd hf (noFlights f)
    · rintro op ⟨f, hf, _⟩
      exact absurd hf (noFlights f)
    · rintro op _ ⟨f, hf, _⟩
      exact absurd hf (noFlights f)
    · intro op hOp
      cases hOp
    · exact fun f hf => absurd hf (noFlights f)
    · intro j
      refine ⟨hReceipt, hReceipt, List.prefix_rfl, ?_⟩
      intro x hx
      cases hx
  · intro key body hBody
    cases hBody
  · intro note hNote
    cases hNote
  · exact fun f hf => absurd hf (noFlights f)

end S4Drive
