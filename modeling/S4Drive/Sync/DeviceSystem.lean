import S4Drive.Metadata.LogVerified

/-
  Devices that run the programs of the sync engine on one
  bucket. A call works on operation logs of its own; what a
  device reads from its index is part of the call. Any host
  whose invariant no delivery breaks holds in every state
  that a run reaches.

  Main declarations:
    * `meets_onLog`
    * `deviceSystem`
    * `deviceSystem_verified`, `deviceState_of_run`
    * `answered`, `written`: parts of traces
-/

------------------------------------------------------------
-- Logs of a Call
------------------------------------------------------------

namespace S4Drive

open ObjectStore Concurrency ChainLog

variable {clean : Prop}
variable {host : Host clean}
variable {t : Tid} {w w' : World}

theorem meets_onLog
    {l α : Type} {log : OperationLog} {x : LogM α} {v : l}
    {P : CoreResult α → OperationLog → World → Prop}
    {Q : CoreResult α → l → World → Prop}
    (hx : LogMeets host t x log P w)
    (hQ : ∀ r log' w', P r log' w' → Q r v w') :
    LogMeets host t (onLog log x) v Q w :=
  hx.onLog hQ

theorem knows_new
    (deviceId : DeviceId)
    (clock : Nat)
    (w : World) :
    LogKnows (OperationLog.new deviceId clock) w :=
  ⟨[], List.nil_suffix, rfl⟩

variable {ζ ω l : Type}

/- Threads that run the calls `ζ`; a call may use a journal. -/
def deviceSystem
    (run : ζ → l → Prog Req Resp (ω × l))
    (boot : l)
    (journal : ζ → Option JournalId) :
    ThreadSystem Req Resp World Tid Choice ζ ω l
      EnvAction where
  toMachine := cloud
  body := run
  boot := boot
  begin := fun t c _ w => w.beginCall t (journal c)
  finish := fun t _ _ _ _ w => w.release t
  halt := fun t w => w.halt t
  env := fun e w => w.environment e

theorem SameData.hostInv
    (h : SameData w w')
    (hInv : HostInv host w)
    (hLog : LogInv clean w') : HostInv host w' :=
  ⟨hLog, host.same hInv.extra h⟩

theorem sameData_prepares
    (w : World)
    (t : Tid)
    (change : Change) : SameData w (w.prepares t change) :=
  {}

theorem sameData_beginCall
    {journal : Option JournalId}
    (h : w.beginCall t journal = some w') :
    SameData w w' := by
  unfold World.beginCall at h
  cases journal with
  | none =>
      simp only [Option.some.injEq] at h
      subst h
      exact {}
  | some j =>
      simp only at h
      split at h
      · simp only [Option.some.injEq] at h
        subst h
        exact {}
      · cases h

theorem sameData_release
    (w : World)
    (t : Tid) : SameData w (w.release t) := by
  unfold World.release
  split
  · exact {}
  · exact {}

theorem sameData_halt
    (w : World)
    (t : Tid) : SameData w (w.halt t) := by
  unfold World.halt
  split
  · exact {}
  · rename_i j _
    have hRelease := sameData_release (w.reopen j) t
    exact ⟨hRelease.store, hRelease.issued, hRelease.headLog,
      hRelease.versions, hRelease.drawn, hRelease.reads,
      hRelease.now⟩

theorem sameData_environment
    {e : EnvAction}
    (h : w.environment e = some w')
    (hDeliver : ∀ ticket, e ≠ .deliver ticket) :
    SameData w w' := by
  cases e with
  | deliver ticket => exact absurd rfl (hDeliver ticket)
  | tick elapsed =>
      simp only [World.environment, Option.some.injEq] at h
      subst h
      exact { now := Nat.le_add_right _ _ }
  | reopen j =>
      simp only [World.environment] at h
      split at h
      · simp only [Option.some.injEq] at h
        subst h
        exact {}
      · cases h

------------------------------------------------------------
-- Verified Devices
------------------------------------------------------------

/- A call of thread `t` starts in `w`. -/
structure Starting
    (host : Host clean)
    (t : Tid)
    (journal : Option JournalId)
    (w : World) : Prop where
  inv : HostInv host w
  holding : w.holding t = journal
  basis : w.basis t = none
  unused : OperationLog.Unused w t

/- The system meets the contract when its calls do. -/
theorem deviceSystem_verified
    {run : ζ → l → Prog Req Resp (ω × l)}
    {boot : l}
    {journal : ζ → Option JournalId}
    {L : ThreadSystem.Limits Req Choice World Tid ζ l
      EnvAction}
    {Post : Tid → ζ → l → ω × l → World → Prop}
    (hBody :
      ∀ t c v w, Starting host t (journal c) w →
        (∃ w₀, SameData w₀ w ∧ L.Starts t c v w₀) →
        wp cloud (logContract (host.limit (L.Admits c))) t
          (run c v) (Post t c v) w)
    (hDeliver :
      ∀ w w' ticket, HostInv host w →
        L.Env (.deliver ticket) w →
        w.deliver ticket = some w' → host.extra w') :
    ThreadSystem.Verified
      (deviceSystem run boot journal)
      (logContract host) L
      (fun t _ w => w.holding t = none) Post where
  stable := by
    intro t v s s' hHolding hRely _
    exact hRely.holding.trans hHolding
  begin := by
    intro t c v s s' hInv hHolding hStarts hBegin
    have hBegun := hInv.log.beginCall hHolding hBegin
    have hSame := sameData_beginCall hBegin
    have hInv' : HostInv host s' :=
      hSame.hostInv hInv hBegun.inv
    refine ⟨⟨hInv', hBegun.others⟩, ?_⟩
    have hStarting : Starting _ t (journal c) s' :=
      ⟨hInv', hBegun.holding, hBegun.basis, hBegun.unused⟩
    exact hBody t c v s' hStarting ⟨s, hSame, hStarts⟩
  finish := by
    intro t c v x v' s hInv _
    rcases hInv.log.release t with
      ⟨hLog, hOthers, _, hNone⟩
    exact ⟨⟨(sameData_release s t).hostInv hInv hLog,
      hOthers⟩, hNone⟩
  halt := by
    intro t s hInv
    rcases hInv.log.halt t with ⟨hLog, hOthers, hNone⟩
    exact ⟨⟨(sameData_halt s t).hostInv hInv hLog, hOthers⟩,
      hNone⟩
  env := by
    intro e s s' hInv hLimit hEnv
    rcases hInv.log.environment hEnv with ⟨hLog, hOthers⟩
    refine ⟨?_, hOthers⟩
    by_cases hDelivery : ∃ ticket, e = .deliver ticket
    · rcases hDelivery with ⟨ticket, rfl⟩
      exact ⟨hLog, hDeliver s s' ticket hInv hLimit hEnv⟩
    · apply (sameData_environment hEnv ?_).hostInv hInv hLog
      intro ticket hTicket
      exact hDelivery ⟨ticket, hTicket⟩

variable {run : ζ → CloudM Unit Unit}
variable {journal : ζ → Option JournalId}
variable {L : ThreadSystem.Limits Req Choice World Tid ζ Unit
  EnvAction}
variable {Post : Tid → ζ → CoreResult Unit → World → Prop}
variable {permits :
  SystemState Req Resp World Tid ζ (CoreResult Unit) Unit →
    Action Tid Choice ζ EnvAction → Prop}
variable {s s' : SystemState Req Resp World Tid ζ
  (CoreResult Unit) Unit}

/- Devices that keep no value between their calls. -/
theorem device_verified
    (hBody :
      ∀ t c w, Starting host t (journal c) w →
        LogMeets (host.limit (L.Admits c)) t (run c) ()
          (fun r _ w' => Post t c r w') w)
    (hDeliver :
      ∀ w w' ticket, HostInv host w →
        L.Env (.deliver ticket) w →
        w.deliver ticket = some w' → host.extra w') :
    ThreadSystem.Verified (deviceSystem run () journal)
      (logContract host) L (fun t _ w => w.holding t = none)
      (fun t c _ r w => Post t c r.1 w) :=
  deviceSystem_verified
    (fun t c _ w hStarting _ => hBody t c w hStarting) hDeliver

/- What holds of every state of every permitted run. -/
abbrev DeviceStateOk
    {ζ : Type}
    {clean : Prop}
    (run : ζ → CloudM Unit Unit)
    (journal : ζ → Option JournalId)
    (host : Host clean)
    (L : ThreadSystem.Limits Req Choice World Tid ζ Unit
      EnvAction)
    (Post : Tid → ζ → CoreResult Unit → World → Prop)
    (s : SystemState Req Resp World Tid ζ (CoreResult Unit)
      Unit) : Prop :=
  ThreadSystem.StateOk (deviceSystem run () journal)
    (logContract host) L (fun t _ w => w.holding t = none)
    (fun t c _ r w => Post t c r.1 w) s

/-
  The rule for devices: it remains to prove each call, and
  that deliveries keep the host's invariant.
-/
theorem deviceState_of_run
    (hFresh : host.extra World.fresh)
    (hBody :
      ∀ t c w, Starting host t (journal c) w →
        LogMeets (host.limit (L.Admits c)) t (run c) ()
          (fun r _ w' => Post t c r w') w)
    (hDeliver :
      ∀ w w' ticket, HostInv host w →
        L.Env (.deliver ticket) w →
        w.deliver ticket = some w' → host.extra w')
    (hPermits : ∀ s a, permits s a → L.Permitted s a)
    (hRun :
      (deviceSystem run () journal).Run permits
        ((deviceSystem run () journal).initial World.fresh)
        s) :
    DeviceStateOk run journal host L Post s :=
  (device_verified hBody hDeliver).stateOk_of_run
    ⟨LogInv.fresh clean, hFresh⟩ (fun _ => rfl)
    (hRun.weaken hPermits)

/- Between two states of a run nothing is taken back. -/
theorem grows_of_run
    (hBody :
      ∀ t c w, Starting host t (journal c) w →
        LogMeets (host.limit (L.Admits c)) t (run c) ()
          (fun r _ w' => Post t c r w') w)
    (hDeliver :
      ∀ w w' ticket, HostInv host w →
        L.Env (.deliver ticket) w →
        w.deliver ticket = some w' → host.extra w')
    (hPermits : ∀ s a, permits s a → L.Permitted s a)
    (hState : DeviceStateOk run journal host L Post s)
    (hRun :
      (deviceSystem run () journal).Run permits s s') :
    Grows s.world s'.world :=
  (device_verified hBody hDeliver).relates_run Grows.refl
    Grows.trans (fun _ _ _ hOthers => hOthers.toGrows)
    someone_else hState (hRun.weaken hPermits)

/- The next requests of `t` are answered. -/
def answered
    (t : Tid)
    (count : Nat) : List (Action Tid Choice ζ EnvAction) :=
  List.replicate count (.serve t .answer)

/- The next request of `t` is a write that succeeds. -/
def written
    (t : Tid)
    (ticket : Nat) : List (Action Tid Choice ζ EnvAction) :=
  [.serve t .answer, .env (.deliver ticket),
    .serve t (.reply true)]

end S4Drive
