import RtfmEv.TempRadio.Stranded

/-!
# Who ends a session

A session ends when its time is up because a task sleeps until then, or tries
again every now and then. A start replaces the task only after it has saved the
new session, and a restore that fails leaves it to the task that was there. So a
session goes without one when a start is cancelled or its undo fails, and when
the reconcile of a new connection does not put a task there.
-/

namespace RtfmEv.TempRadio

open RtfmEv.Lib

/-- The task ends the session, or tries to. -/
def ExpiryTask.ends (st : Session) : ExpiryTask → Bool
  | .sleeping expiresAt => decide (expiresAt = st.expiresAt)
  | .restoring => true
  | .retrying _ => true

/-- The start has saved its session and has no task for it yet. -/
def Phase.starting : Phase → Bool
  | .startSaving _ => true
  | .startSwitching _ _ => true
  | .startRegion _ => true
  | .undoSwitching _ _ => true
  | .undoRegion _ => true
  | .undoSaving => true
  | .undoFailedSaving => true
  | _ => false

namespace Call

/-- The present connection is reconciled when the call ends. -/
def reconciles (c : Call) (s : ServiceState) : Bool :=
  match c.request with
  | .reconcileOnConnect n => decide (n = s.connection)
  | _ => false

def IsStart (c : Call) : Prop := ∃ req scan, c.request = .start req scan

def IsExtension (c : Call) : Prop := ∃ expiresAt, c.request = .extendTo expiresAt

/-- An expiry task only restores, and the run of a scan extends nothing itself. -/
structure Legal (c : Call) : Prop where
  expiry : ∀ i, c.caller = .expiry i → c.request = .restore
  scan : ∀ run, c.caller = .scan run → ¬ c.IsExtension

variable {c : Call}

theorem IsStart.not_reconciles (h : c.IsStart) (s : ServiceState) : c.reconciles s = false := by
  obtain ⟨req, scan, hrequest⟩ := h
  unfold reconciles
  rw [hrequest]

theorem IsExtension.not_reconciles (h : c.IsExtension) (s : ServiceState) :
    c.reconciles s = false := by
  obtain ⟨expiresAt, hrequest⟩ := h
  unfold reconciles
  rw [hrequest]

theorem IsStart.not_expiry (h : c.IsStart) (hlegal : c.Legal) (i : ℕ) : c.caller ≠ .expiry i := by
  intro hcaller
  obtain ⟨req, scan, hrequest⟩ := h
  rw [hlegal.expiry i hcaller] at hrequest
  cases hrequest

theorem IsExtension.not_expiry (h : c.IsExtension) (hlegal : c.Legal) (i : ℕ) :
    c.caller ≠ .expiry i := by
  intro hcaller
  obtain ⟨expiresAt, hrequest⟩ := h
  rw [hlegal.expiry i hcaller] at hrequest
  cases hrequest

theorem legal_of_fromOutside {s : ServiceState} (h : c.fromOutside s = true) : c.Legal := by
  obtain ⟨caller, request⟩ := c
  refine ⟨?_, ?_⟩
  · intro i hcaller
    cases hcaller
    cases h
  · intro run hcaller hextension
    obtain ⟨expiresAt, hrequest⟩ := hextension
    cases hcaller
    cases hrequest
    cases h

end Call

namespace ServiceState

/-- A task ends the session of the connected companion. -/
def Watched (s : ServiceState) : Prop :=
  ∀ st, s.session = some st → s.connected = some st.companionKey →
    ∃ i task, s.tasks.get i = some task ∧ task.ends st = true

/-! ### The branches that leave a session alone -/

/-- The call that holds the lock, if it reconciles, could not restore the session. -/
def reconcileFails (c : Call) (s : ServiceState) : Bool :=
  c.reconciles s && s.session.any Session.restorePending

/-- The step is the end of a start, of its undo or of a reconcile after which no task
was started for the session. -/
def lapses (s : ServiceState) : ServiceOp → Bool
  | .cancel run => s.holder.any (fun h => decide (h.1.caller = .scan run) && h.2.starting)
  | .enter => s.queue.head?.any (fun c => c.reconciles s && s.selfInfo.isNone)
  | .saved =>
    match s.holder with
    | some (_, .undoFailedSaving) => true
    | some (c, .restoreFailedSaving) => c.reconciles s
    | _ => false
  | .switchFailed =>
    match s.holder with
    | some (c, .restoreSwitching _) => s.reconcileFails c
    | _ => false
  | .regionDone false =>
    match s.holder with
    | some (c, .restoreRegion) => s.reconcileFails c
    | _ => false
  | _ => false

/-! ### What is kept -/

/-- The session is watched when the present connection was reconciled. -/
def Guarded (s : ServiceState) : Prop := s.reconciled = true → s.Watched

/-- What holds at an await. -/
def Held (s : ServiceState) (c : Call) : Phase → Prop
  | .clearing _ => s.session = none
  | .undoClearing => s.session = none
  | .restoreSwitching _ => s.Guarded
  | .restoreRegion => s.Guarded
  | .regionBack _ => s.Guarded
  | .restoreFailedSaving => s.Guarded ∧ ∀ st, s.session = some st → st.restorePending = true
  | .extendSaving => c.IsExtension
  | _ => c.IsStart

/-- Every session that is left alone by the calls is watched. -/
structure Attended (s : ServiceState) : Prop where
  queued : ∀ c ∈ s.queue, c.Legal
  free : s.holder = none → s.Guarded
  held : ∀ {c phase}, s.holder = some (c, phase) → c.Legal ∧ Held s c phase

/-- A call holds the lock. -/
structure Running (c : Call) (s : ServiceState) : Prop where
  queued : ∀ c ∈ s.queue, c.Legal
  legal : c.Legal
  holder : ∃ phase, s.holder = some (c, phase)

section

variable {s s' : ServiceState} {c : Call} {phase : Phase} {st : Session}

theorem Watched.of_none (h : s.session = none) : s.Watched := by
  intro st hst
  rw [h] at hst
  cases hst

theorem Watched.congr (h : s.Watched) (hsession : s'.session = s.session)
    (hconnected : s'.connected = s.connected) (htasks : s'.tasks = s.tasks) : s'.Watched := by
  intro st hst hkey
  rw [htasks]
  exact h st (hsession ▸ hst) (hconnected ▸ hkey)

theorem Guarded.congr (h : s.Guarded) (hsession : s'.session = s.session)
    (hconnected : s'.connected = s.connected) (htasks : s'.tasks = s.tasks)
    (hreconciled : s'.reconciled = s.reconciled) : s'.Guarded := by
  intro hrec
  exact (h (hreconciled ▸ hrec)).congr hsession hconnected htasks

theorem Held.congr (h : Held s c phase) (hsession : s'.session = s.session)
    (hguarded : s.Guarded → s'.Guarded) : Held s' c phase := by
  cases phase with
  | clearing dropped => exact hsession.trans h
  | undoClearing => exact hsession.trans h
  | restoreSwitching taken => exact hguarded h
  | restoreRegion => exact hguarded h
  | regionBack dropped => exact hguarded h
  | restoreFailedSaving => exact ⟨hguarded h.1, fun st hst => h.2 st (hsession ▸ hst)⟩
  | _ => exact h

/-! ### The end of a call -/

/-- A call that ends leaves a session that is watched, whoever goes on trying. -/
theorem Running.finish (h : s.Running c) {ok : Bool}
    (hwatched : s.reconciled = true ∨ c.reconciles s = true → s.Watched)
    (hexpiry : ∀ i, c.caller = .expiry i → ∀ st, s.session = some st →
      s.connected = some st.companionKey → ok = false ∧ st.restorePending = true) :
    (s.finish ok).Attended := by
  obtain ⟨phase, hholder⟩ := h.holder
  have hfree := holder_finish ok s
  refine ⟨?_, fun _ => ?_, fun hheld => by rw [hfree] at hheld; cases hheld⟩
  · intro c' hc'
    refine h.queued c' ?_
    unfold ServiceState.finish returned at hc'
    rw [hholder] at hc'
    dsimp only at hc'
    split at hc'
    · split at hc'
      · split at hc' <;> exact hc'
      · exact hc'
    · split at hc' <;> exact hc'
    · exact hc'
  · unfold ServiceState.finish returned
    rw [hholder]
    dsimp only
    split
    · rename_i i hcaller
      split
      · rename_i st hst
        split
        · -- it goes on trying
          intro _ st' _ _
          exact ⟨i, _, Table.get_set_self .., rfl⟩
        · rename_i hgoes
          intro _ st' hst' hkey
          have hsame : s.session = some st' := hst'
          have hhere : s.connected = some st'.companionKey := hkey
          rw [hst] at hsame
          cases hsame
          obtain ⟨rfl, hpending⟩ := hexpiry i hcaller st hst hhere
          refine absurd ?_ hgoes
          rw [hpending, hhere]
          exact decide_eq_true rfl
      · rename_i hnone
        exact fun _ => Watched.of_none hnone
    · rename_i n hrequest _
      have hnow : n = s.connection → c.reconciles s = true := by
        intro hn
        unfold Call.reconciles
        rw [hrequest]
        exact decide_eq_true hn
      split
      · rename_i hn
        intro _
        exact (hwatched (Or.inr (hnow hn))).congr rfl rfl rfl
      · intro hrec
        exact (hwatched (Or.inl hrec)).congr rfl rfl rfl
    · intro hrec
      exact (hwatched (Or.inl hrec)).congr rfl rfl rfl

theorem Running.finish_none (h : s.Running c) (hnone : s.session = none) (ok : Bool) :
    (s.finish ok).Attended := by
  refine h.finish (fun _ => Watched.of_none hnone) ?_
  intro i _ st hst
  rw [hnone] at hst
  cases hst

theorem Running.await (h : s.Running c) (hheld : Held s c phase) :
    (s.await phase).Attended := by
  obtain ⟨phase₀, hholder⟩ := h.holder
  have hnow : (s.await phase).holder = some (c, phase) := by
    unfold ServiceState.await
    rw [hholder]
    rfl
  refine ⟨h.queued, ?_, ?_⟩
  · intro hfree
    rw [hnow] at hfree
    cases hfree
  · intro c' phase' hholder'
    rw [hnow] at hholder'
    cases hholder'
    exact ⟨h.legal, hheld.congr rfl (fun hguarded => hguarded.congr rfl rfl rfl rfl)⟩

theorem mem_cancelTask {c' : Call} (h : c' ∈ s.cancelTask.queue) : c' ∈ s.queue := by
  unfold cancelTask at h
  split at h
  · exact h
  · split at h
    · exact h
    · exact (List.mem_filter.mp h).1

theorem Running.cancelTask (h : s.Running c) : s.cancelTask.Running c where
  queued := fun c' hc' => h.queued c' (mem_cancelTask hc')
  legal := h.legal
  holder := by
    rw [(cancelTask_frame s).2.2.2]
    exact h.holder

theorem watched_schedule (s : ServiceState) : s.schedule.Watched := by
  intro st hst _
  unfold ServiceState.schedule at hst ⊢
  dsimp only at hst ⊢
  split at hst
  · rename_i hnone
    rw [hnone] at hst
    cases hst
  · rename_i st' hst'
    have hst : s.cancelTask.session = some st := hst
    rw [hst'] at hst
    cases hst
    rw [hst']
    exact ⟨_, _, Table.get_set_self .., decide_eq_true rfl⟩

theorem Running.schedule (h : s.Running c) : s.schedule.Running c := by
  refine ⟨?_, h.legal, ?_⟩
  · intro c' hc'
    refine h.queued c' (mem_cancelTask ?_)
    unfold ServiceState.schedule at hc'
    dsimp only at hc'
    split at hc' <;> exact hc'
  · rw [(schedule_frame s).2.2.2]
    exact h.holder

theorem Running.schedule_finish (h : s.Running c) (hcaller : ∀ i, c.caller ≠ .expiry i)
    (ok : Bool) : (s.schedule.finish ok).Attended := by
  refine h.schedule.finish (fun _ => watched_schedule s) ?_
  intro i hi
  exact absurd hi (hcaller i)

theorem Running.clear (h : s.Running c)
    (hheld : ∀ {s : ServiceState}, s.session = none → Held s c phase) :
    (s.clear phase).Attended := by
  have hcall : Running c { s.cancelTask with session := none } :=
    ⟨h.cancelTask.queued, h.legal, h.cancelTask.holder⟩
  exact hcall.await (hheld rfl)

theorem Running.save (h : s.Running c)
    (hheld : Held { s with session := some st } c phase) : (s.save st phase).Attended := by
  have hcall : Running c { s with session := some st } := ⟨h.queued, h.legal, h.holder⟩
  exact hcall.await hheld

/-! ### The calls -/

/-- A call that changed nothing leaves the session as watched as it was. -/
theorem Running.finish_quiet (h : s.Running c) (hguarded : s.Guarded)
    (hreconciles : c.reconciles s = false) (hcaller : ∀ i, c.caller ≠ .expiry i) (ok : Bool) :
    (s.finish ok).Attended := by
  refine h.finish ?_ (fun i hi => absurd hi (hcaller i))
  intro hrec
  rcases hrec with hrec | hrec
  · exact hguarded hrec
  · rw [hreconciles] at hrec
    cases hrec

theorem Guarded.pending (h : s.Guarded) (hst : s.session = some st) :
    Guarded { s with session := some st.pending } := by
  intro hrec st' hst' hkey
  cases hst'
  exact h hrec st hst hkey

theorem Running.restoreFailed (h : s.Running c) (hguarded : s.Guarded)
    (hst : s.session = some st)
    (hlapse : c.reconciles s = true → st.restorePending = true → s.Watched) :
    (s.restoreFailed st).Attended := by
  unfold ServiceState.restoreFailed
  split
  · rename_i hpending
    refine h.finish ?_ ?_
    · intro hrec
      rcases hrec with hrec | hrec
      · exact hguarded hrec
      · exact hlapse hrec hpending
    · intro i _ st' hst' _
      rw [hst] at hst'
      cases hst'
      exact ⟨rfl, hpending⟩
  · refine h.save ⟨hguarded.pending hst, ?_⟩
    intro st' hst'
    cases hst'
    rfl

theorem Running.endSession (h : s.Running c) (hguarded : s.Guarded) (st : Session)
    (dropped : Bool) : (s.endSession st dropped).Attended := by
  unfold ServiceState.endSession
  split
  · exact h.clear id
  · exact h.await hguarded

theorem Watched.of_ne (hst : s.session = some st)
    (hkey : some st.companionKey ≠ s.connected) : s.Watched := by
  intro st' hst' hkey'
  rw [hst] at hst'
  cases hst'
  exact absurd hkey'.symm hkey

theorem Running.restoreLocked (h : s.Running c) (hguarded : s.Guarded) :
    s.restoreLocked.Attended := by
  unfold ServiceState.restoreLocked
  split
  · rename_i hnone
    exact h.finish_none hnone true
  rename_i st hst
  split
  · rename_i hkey
    exact h.restoreFailed hguarded hst (fun _ _ => Watched.of_ne hst hkey)
  split
  · exact h.await hguarded
  split
  · exact h.endSession hguarded st false
  split
  · exact h.await hguarded
  · exact h.endSession hguarded st true

theorem Running.reconcileOnConnect (h : s.Running c) (hguarded : s.Guarded)
    (hcaller : ∀ i, c.caller ≠ .expiry i)
    (hlapse : c.reconciles s = true → s.selfInfo = none → s.Watched) :
    s.reconcileOnConnect.Attended := by
  have hexpiry : ∀ {ok : Bool} i, c.caller = .expiry i → ∀ st, s.session = some st →
      s.connected = some st.companionKey → ok = false ∧ st.restorePending = true :=
    fun i hi => absurd hi (hcaller i)
  unfold ServiceState.reconcileOnConnect
  split
  · rename_i hnone
    exact h.finish_none hnone true
  rename_i st hst
  split
  · rename_i hkey
    exact h.finish (fun _ => Watched.of_ne hst hkey) hexpiry
  split
  · rename_i hinfo
    refine h.finish ?_ hexpiry
    intro hrec
    rcases hrec with hrec | hrec
    · exact hguarded hrec
    · exact hlapse hrec hinfo
  split
  · split
    · exact h.restoreLocked hguarded
    · exact h.schedule_finish hcaller true
  split
  · exact h.endSession hguarded st false
  · exact h.endSession hguarded st true

theorem Running.extendTo (h : s.Running c) (hguarded : s.Guarded) (hextends : c.IsExtension)
    (expiresAt : ℚ) : (s.extendTo expiresAt).Attended := by
  unfold ServiceState.extendTo
  split
  · rename_i hnone
    exact h.finish_none hnone true
  split
  · exact h.finish_quiet hguarded (hextends.not_reconciles s) (hextends.not_expiry h.legal) true
  · exact h.save hextends

theorem Running.startLocked (h : s.Running c) (hguarded : s.Guarded) (hstarts : c.IsStart)
    (caller : Caller)
    (req : StartRequest) (scan : Option ScanProgress) :
    (s.startLocked caller req scan).Attended := by
  have hrefused : (s.finish false).Attended :=
    h.finish_quiet hguarded (hstarts.not_reconciles s) (hstarts.not_expiry h.legal) false
  unfold ServiceState.startLocked
  split
  · exact hrefused
  split
  · dsimp only
    split
    · exact hrefused
    · exact h.save hstarts
  · exact hrefused

/-! ### The awaits -/

theorem Attended.enter (h : s.Attended) (hlapse : s.lapses .enter = true → s.Watched)
    (henter : s.enter = some s') : s'.Attended := by
  unfold ServiceState.enter at henter
  split at henter
  · rename_i c rest hfree hqueue
    have hlegal : c.Legal := h.queued c (hqueue ▸ List.mem_cons_self)
    have hcall : Running c { s with
        queue := rest
        holder := some (c, .startSaving none) } :=
      ⟨fun c' hc' => h.queued c' (hqueue ▸ List.mem_cons_of_mem c hc'), hlegal, _, rfl⟩
    have hguarded : Guarded { s with
        queue := rest
        holder := some (c, .startSaving none) } := (h.free hfree).congr rfl rfl rfl rfl
    dsimp only at henter
    split at henter <;> rename_i hrequest <;> cases henter
    · exact hcall.startLocked hguarded ⟨_, _, hrequest⟩ _ _ _
    · exact hcall.restoreLocked hguarded
    · unfold ServiceState.endAsNewNormal
      split
      · rename_i hnone
        exact hcall.finish_none hnone true
      · exact hcall.endSession hguarded _ false
    · exact hcall.extendTo hguarded ⟨_, hrequest⟩ _
    · refine hcall.reconcileOnConnect hguarded ?_ ?_
      · intro i hi
        rw [hlegal.expiry i hi] at hrequest
        cases hrequest
      · intro hrec hinfo
        refine (hlapse ?_).congr rfl rfl rfl
        have hrec : c.reconciles s = true := hrec
        have hinfo : s.selfInfo = none := hinfo
        simp [lapses, hqueue, hrec, hinfo]
  · cases henter

theorem Attended.running (h : s.Attended) (hholder : s.holder = some (c, phase)) :
    s.Running c :=
  ⟨h.queued, (h.held hholder).1, phase, hholder⟩

theorem Attended.saved (h : s.Attended) (hlapse : s.lapses .saved = true → s.Watched)
    (hsaved : s.saved = some s') : s'.Attended := by
  have hwritten : ∀ {c phase}, s.holder = some (c, phase) →
      Running c { s with stored := s.session } := by
    intro c phase hholder
    exact ⟨h.queued, (h.held hholder).1, phase, hholder⟩
  unfold ServiceState.saved at hsaved
  dsimp only at hsaved
  split at hsaved
  · rename_i previous hholder
    cases hsaved
    have hstarts : Call.IsStart _ := (h.held hholder).2
    exact (hwritten hholder).await hstarts
  · rename_i hholder
    cases hsaved
    exact (hwritten hholder).finish_none (h.held hholder).2 false
  · rename_i hholder
    cases hsaved
    have hstarts : Call.IsStart _ := (h.held hholder).2
    exact (hwritten hholder).schedule_finish (hstarts.not_expiry (h.held hholder).1) false
  · rename_i hholder
    cases hsaved
    have hstarts : Call.IsStart _ := (h.held hholder).2
    refine (hwritten hholder).finish ?_ ?_
    · intro _
      refine (hlapse ?_).congr rfl rfl rfl
      unfold lapses
      rw [hholder]
    · intro i hi
      exact absurd hi (hstarts.not_expiry (h.held hholder).1 i)
  · rename_i hholder
    cases hsaved
    obtain ⟨hguarded, hpending⟩ := (h.held hholder).2
    refine (hwritten hholder).finish ?_ (fun i _ st hst _ => ⟨rfl, hpending st hst⟩)
    intro hrec
    rcases hrec with hrec | hrec
    · exact (hguarded hrec).congr rfl rfl rfl
    · refine (hlapse ?_).congr rfl rfl rfl
      unfold lapses
      rw [hholder]
      exact hrec
  · rename_i dropped hholder
    cases hsaved
    have hcall := h.running hholder
    have hdone : Running _ { s with
        stored := s.session
        drops := s.drops + if dropped then 1 else 0 } := ⟨hcall.queued, hcall.legal, hcall.holder⟩
    exact hdone.finish_none (h.held hholder).2 true
  · rename_i hholder
    cases hsaved
    have hextends : Call.IsExtension _ := (h.held hholder).2
    exact (hwritten hholder).schedule_finish (hextends.not_expiry (h.held hholder).1) true
  · cases hsaved

theorem Attended.takes (h : s.Attended) (htakes : s.takes = some s') : s'.Attended := by
  unfold ServiceState.takes at htakes
  split at htakes
  · rename_i stamp phase key hswitch hkey
    cases htakes
    have hcall : ∀ {c phase}, s.holder = some (c, phase) →
        Running c { s with actual := Function.update s.actual key stamp } := by
      intro c phase hholder
      exact ⟨h.queued, (h.held hholder).1, phase, hholder⟩
    unfold switch at hswitch
    split at hswitch
    · rename_i c previous st hholder _
      cases hswitch
      have hstarts : c.IsStart := (h.held hholder).2
      exact (hcall hholder).await hstarts
    · rename_i c st hholder _
      cases hswitch
      have hstarts : c.IsStart := (h.held hholder).2
      exact (hcall hholder).await hstarts
    · rename_i c p st hholder _
      cases hswitch
      have hstarts : c.IsStart := (h.held hholder).2
      exact (hcall hholder).await hstarts
    · rename_i c st hholder _
      cases hswitch
      have hguarded : s.Guarded := (h.held hholder).2
      exact (hcall hholder).await (hguarded.congr rfl rfl rfl rfl)
    · cases hswitch
  · cases htakes

theorem Running.refresh (h : s.Running c) (refreshed : Bool) :
    (s.refresh refreshed).Running c := by
  unfold ServiceState.refresh
  split
  · exact ⟨h.queued, h.legal, h.holder⟩
  · exact h

theorem Guarded.refresh (h : s.Guarded) (refreshed : Bool) : (s.refresh refreshed).Guarded := by
  unfold ServiceState.refresh
  split
  · exact h.congr rfl rfl rfl rfl
  · exact h

theorem Running.undoRegionDone (h : s.Running c) (hstarts : c.IsStart)
    (previous : Option Session) : (s.undoRegionDone previous).Attended := by
  cases previous with
  | none => exact h.clear id
  | some p => exact h.save hstarts

theorem Attended.switched (h : s.Attended) {refreshed : Bool}
    (hswitched : s.switched refreshed = some s') : s'.Attended := by
  unfold ServiceState.switched at hswitched
  split at hswitched
  · rename_i c previous st hholder _
    cases hswitched
    have hcall := (h.running hholder).refresh refreshed
    have hstarts : c.IsStart := (h.held hholder).2
    unfold startSwitched
    split
    · exact hcall.await hstarts
    · exact hcall.schedule_finish (hstarts.not_expiry hcall.legal) true
  · rename_i c previous st hholder _
    cases hswitched
    have hcall := (h.running hholder).refresh refreshed
    have hstarts : c.IsStart := (h.held hholder).2
    unfold undoSwitched
    split
    · exact hcall.await hstarts
    · exact hcall.undoRegionDone hstarts previous
  · rename_i c st hholder _
    cases hswitched
    have hcall := (h.running hholder).refresh refreshed
    have hguarded : s.Guarded := (h.held hholder).2
    unfold restoreSwitched
    split
    · exact hcall.await (hguarded.refresh refreshed)
    · exact hcall.clear id
  · cases hswitched

theorem reconcileFails_of_pending (hst : s.session = some st)
    (hrec : c.reconciles s = true) (hpending : st.restorePending = true) :
    s.reconcileFails c = true := by
  simp [reconcileFails, hst, hrec, hpending]

theorem Attended.switchFailed (h : s.Attended) (hlapse : s.lapses .switchFailed = true → s.Watched)
    (hfailed : s.switchFailed = some s') : s'.Attended := by
  unfold ServiceState.switchFailed at hfailed
  split at hfailed
  · rename_i c previous taken st hholder _
    cases hfailed
    have hstarts : c.IsStart := (h.held hholder).2
    exact (h.running hholder).await hstarts
  · rename_i c previous taken st hholder _
    cases hfailed
    have hstarts : c.IsStart := (h.held hholder).2
    exact (h.running hholder).save hstarts
  · rename_i c taken st hholder hst
    cases hfailed
    refine (h.running hholder).restoreFailed (h.held hholder).2 hst ?_
    intro hrec hpending
    refine hlapse ?_
    unfold lapses
    rw [hholder]
    exact reconcileFails_of_pending hst hrec hpending
  · cases hfailed

theorem Attended.regionDone (h : s.Attended) {ok : Bool}
    (hlapse : s.lapses (.regionDone ok) = true → s.Watched)
    (hdone : s.regionDone ok = some s') : s'.Attended := by
  unfold ServiceState.regionDone at hdone
  split at hdone
  · rename_i c previous st hholder _
    cases hdone
    have hcall := h.running hholder
    have hstarts : c.IsStart := (h.held hholder).2
    cases ok with
    | true => exact hcall.schedule_finish (hstarts.not_expiry hcall.legal) true
    | false => exact hcall.await hstarts
  · rename_i c previous st hholder _
    cases hdone
    have hcall := h.running hholder
    have hstarts : c.IsStart := (h.held hholder).2
    cases ok with
    | true => exact hcall.undoRegionDone hstarts previous
    | false => exact hcall.save hstarts
  · rename_i c st hholder hst
    cases hdone
    have hcall := h.running hholder
    cases ok with
    | true => exact hcall.clear id
    | false =>
      refine hcall.restoreFailed (h.held hholder).2 hst ?_
      intro hrec hpending
      refine hlapse ?_
      unfold lapses
      rw [hholder]
      exact reconcileFails_of_pending hst hrec hpending
  · rename_i c dropped st hholder _
    cases hdone
    exact (h.running hholder).clear id
  · cases hdone

/-! ### Around the calls -/

/-- What concerns neither the session nor the call keeps it watched. -/
theorem Attended.congr (h : s.Attended) (hqueue : ∀ c ∈ s'.queue, c.Legal)
    (hholder : s'.holder = s.holder) (hsession : s'.session = s.session)
    (hguarded : s.Guarded → s'.Guarded) : s'.Attended where
  queued := hqueue
  free := fun hfree => hguarded (h.free (hholder ▸ hfree))
  held := by
    intro c phase hheld
    rw [hholder] at hheld
    exact ⟨(h.held hheld).1, (h.held hheld).2.congr hsession hguarded⟩

/-- A call whose start is cut off leaves a session that is watched, or it lapses. -/
theorem Attended.cancel (h : s.Attended) {run : ℕ}
    (hlapse : s.lapses (.cancel run) = true → s.Watched) : (s.cancel run).Attended := by
  have hqueue : ∀ c ∈ (s.cancel run).queue, c.Legal :=
    fun c hc => h.queued c (List.mem_filter.mp hc).1
  refine ⟨hqueue, ?_, ?_⟩
  · intro hfree
    have hguarded : s.Guarded := by
      cases hholder : s.holder with
      | none => exact h.free hholder
      | some held =>
        obtain ⟨c, phase⟩ := held
        have hcaller : c.caller = .scan run := by
          by_contra hne
          unfold ServiceState.cancel at hfree
          simp [hholder, hne] at hfree
        have hends : phase.starting = true → s.Watched := by
          intro hstarting
          refine hlapse ?_
          unfold lapses
          rw [hholder]
          simp [hcaller, hstarting]
        obtain ⟨hlegal, hheld⟩ := h.held hholder
        cases phase with
        | undoClearing => exact fun _ => Watched.of_none hheld
        | clearing dropped => exact fun _ => Watched.of_none hheld
        | restoreSwitching taken => exact hheld
        | restoreRegion => exact hheld
        | regionBack dropped => exact hheld
        | restoreFailedSaving => exact hheld.1
        | extendSaving => exact absurd hheld (hlegal.scan run hcaller)
        | _ => exact fun _ => hends rfl
    exact hguarded.congr rfl rfl rfl rfl
  · intro c phase hholder
    unfold ServiceState.cancel at hholder
    dsimp only at hholder
    split at hholder
    · cases hholder
    · obtain ⟨hlegal, hheld⟩ := h.held hholder
      exact ⟨hlegal, hheld.congr rfl (fun hguarded => hguarded.congr rfl rfl rfl rfl)⟩

/-- Another state of a task that still ends the session, or one that did not. -/
theorem Watched.of_task {i : ℕ} (h : s.Watched) (hsession : s'.session = s.session)
    (hconnected : s'.connected = s.connected)
    (hothers : ∀ j, j ≠ i → s'.tasks.get j = s.tasks.get j)
    (htask : ∀ st task, s.session = some st → s.tasks.get i = some task → task.ends st = true →
      ∃ task', s'.tasks.get i = some task' ∧ task'.ends st = true) : s'.Watched := by
  intro st hst hkey
  rw [hsession] at hst
  rw [hconnected] at hkey
  obtain ⟨j, task, hget, hends⟩ := h st hst hkey
  by_cases hj : j = i
  · subst hj
    obtain ⟨task', hget', hends'⟩ := htask st task hst hget hends
    exact ⟨j, task', hget', hends'⟩
  · exact ⟨j, task, (hothers j hj).trans hget, hends⟩

theorem Attended.askRestore (h : s.Attended) (i : ℕ) : (s.askRestore i).Attended := by
  refine h.congr ?_ rfl rfl ?_
  · intro c hc
    rcases List.mem_append.mp hc with hc | hc
    · exact h.queued c hc
    · rw [List.mem_singleton.mp hc]
      refine ⟨fun _ _ => rfl, ?_⟩
      intro run hcaller
      cases hcaller
  · intro hguarded hrec
    refine (hguarded hrec).of_task (i := i) rfl rfl ?_ ?_
    · intro j hj
      exact Table.get_set_of_ne _ _ hj
    · intro st task _ _ _
      exact ⟨_, Table.get_set_self .., rfl⟩

theorem Attended.wake (h : s.Attended) {i : ℕ} (hwake : s.wake i = some s') : s'.Attended := by
  unfold ServiceState.wake at hwake
  split at hwake
  · rename_i expiresAt hget
    split at hwake
    · cases hwake
      split
      · exact h.askRestore i
      · exact h
    · rename_i hother
      cases hwake
      refine h.congr h.queued rfl rfl ?_
      intro hguarded hrec
      refine (hguarded hrec).of_task (i := i) rfl rfl ?_ ?_
      · intro j hj
        exact Table.get_erase_of_ne _ hj
      · -- a task for another time ended nothing
        intro st task hst hget' hends
        rw [hget] at hget'
        cases hget'
        have htime : expiresAt = st.expiresAt := of_decide_eq_true hends
        rw [hst, htime] at hother
        simp at hother
  · split at hwake <;> cases hwake
    exact h.askRestore i
  · cases hwake

theorem Guarded.of_unreconciled (h : s.reconciled = false) : s.Guarded := by
  intro hrec
  rw [h] at hrec
  cases hrec

/-- **One step.** -/
theorem Attended.step {e : ServiceEvent} (h : e.pre.Attended)
    (hstep : ServiceStep e.pre e.label e.post)
    (hlapse : e.pre.lapses e.label = true → e.pre.Watched) : e.post.Attended := by
  obtain ⟨s, op, s'⟩ := e
  dsimp only at h hstep hlapse ⊢
  unfold ServiceStep at hstep
  cases op with
  | advance now =>
    simp only [ServiceOp.apply] at hstep
    split at hstep <;> cases hstep
    exact h.congr h.queued rfl rfl (fun hguarded => hguarded.congr rfl rfl rfl rfl)
  | connect key known openhop =>
    simp only [ServiceOp.apply, connect] at hstep
    split at hstep <;> cases hstep
    exact h.congr h.queued rfl rfl (fun _ => Guarded.of_unreconciled rfl)
  | disconnect =>
    cases hstep
    exact h.congr h.queued rfl rfl (fun _ => Guarded.of_unreconciled rfl)
  | crash =>
    cases hstep
    refine ⟨?_, fun _ => Guarded.of_unreconciled rfl, ?_⟩
    · intro c hc
      cases hc
    · intro c phase hholder
      cases hholder
  | call c =>
    simp only [ServiceOp.apply] at hstep
    split at hstep <;> cases hstep
    rename_i houtside
    refine h.congr ?_ rfl rfl (fun hguarded => hguarded.congr rfl rfl rfl rfl)
    intro c' hc'
    rcases List.mem_append.mp hc' with hc' | hc'
    · exact h.queued c' hc'
    · rw [List.mem_singleton.mp hc']
      exact Call.legal_of_fromOutside houtside
  | cancel run =>
    cases hstep
    exact h.cancel hlapse
  | enter => exact h.enter hlapse hstep
  | saved => exact h.saved hlapse hstep
  | takes => exact h.takes hstep
  | switched refreshed => exact h.switched hstep
  | switchFailed => exact h.switchFailed hlapse hstep
  | regionDone ok => exact h.regionDone hlapse hstep
  | wake i => exact h.wake hstep

end

/-! ### Runs -/

theorem attended_fresh (home : String → RadioStamp) : (fresh home).Attended := by
  refine ⟨?_, fun _ _ => Watched.of_none rfl, ?_⟩
  · intro c hc
    cases hc
  · intro c phase hholder
    cases hholder

/-- **A session has someone who ends it.** When the lock is free and the connection
was reconciled, a task sleeps until exactly the session's end or goes on restoring. -/
theorem session_watched {home : String → RadioStamp} {h : List ServiceEvent} {s : ServiceState}
    (r : Run ServiceStep (fresh home) h s)
    (hlapses : ∀ e ∈ h, e.pre.lapses e.label = true → e.pre.Watched)
    (hfree : s.holder = none) (hreconciled : s.reconciled = true) : s.Watched := by
  have hattended : s.Attended :=
    r.invariant (P := Attended) hlapses (fun e hstep hlapse hpre => hpre.step hstep hlapse)
      (attended_fresh home)
  exact hattended.free hfree hreconciled

/-- A session that is extended, whose end fails twice and is tried again, after a start
over it that was undone. -/
def triedAgain : List ServiceOp :=
  [.connect "c0" true false, .call ⟨.other, .reconcileOnConnect 1⟩, .enter,
    startOn 8, .enter, .saved, .takes, .switched true,
    .call ⟨.hold 1, .extendTo 900⟩, .enter, .saved,
    startOn 9, .enter, .saved, .switchFailed, .takes, .switched true, .saved,
    .advance 1000, .wake 3, .enter, .switchFailed, .saved,
    .advance 1030, .wake 3, .enter, .takes, .switchFailed]

theorem session_watched_triedAgain :
    ∃ (h : List ServiceEvent) (s : ServiceState), Run ServiceStep (fresh (fun _ => stamp 7)) h s ∧
      h.map Event.label = triedAgain ∧ s.session.isSome = true ∧ s.Watched := by
  obtain ⟨h, s, r, hlabels, hrun⟩ :=
    Run.exists_of_trace ServiceOp.apply (fresh (fun _ => stamp 7)) triedAgain
      (fun x => x.1.all (fun e => !e.pre.lapses e.label) && x.2.holder.isNone && x.2.reconciled &&
        x.2.session.isSome) (by decide +kernel)
  simp only [Bool.and_eq_true, Option.isNone_iff_eq_none, List.all_eq_true,
    Bool.not_eq_true'] at hrun
  obtain ⟨⟨⟨hlapses, hfree⟩, hreconciled⟩, hsession⟩ := hrun
  refine ⟨h, s, r, hlabels, hsession, session_watched r ?_ hfree hreconciled⟩
  intro e he hlapse
  rw [hlapses e he] at hlapse
  cases hlapse

/-- A start whose switch and whose undo fail. -/
def leftAlone : List ServiceOp :=
  [.connect "c0" true false, .call ⟨.other, .reconcileOnConnect 1⟩, .enter,
    startOn 8, .enter, .saved, .takes, .switchFailed, .switchFailed, .saved]

theorem not_forall_session_watched :
    ¬ ∀ (home : String → RadioStamp) (h : List ServiceEvent) (s : ServiceState),
      Run ServiceStep (fresh home) h s → s.holder = none → s.reconciled = true → s.Watched := by
  intro hall
  have htrace : ∃ h s, Run.trace ServiceOp.apply (fresh (fun _ => stamp 7)) leftAlone = some (h, s) ∧
      (s.holder = none ∧ s.reconciled = true) ∧ (∃ st, s.session = some st ∧
        s.connected = some st.companionKey) ∧ ∀ i, s.tasks.get i = none :=
    ⟨_, _, rfl, ⟨rfl, rfl⟩, ⟨_, rfl, rfl⟩, fun _ => rfl⟩
  obtain ⟨h, s, htrace, ⟨hfree, hreconciled⟩, ⟨st, hst, hkey⟩, hnone⟩ := htrace
  obtain ⟨i, task, hget, _⟩ := hall _ h s (Run.of_trace htrace) hfree hreconciled st hst hkey
  rw [hnone i] at hget
  cases hget

end ServiceState

end RtfmEv.TempRadio
