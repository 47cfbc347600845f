import RtfmEv.TempRadio.Service

/-!
# When a companion can be left on temporary settings

A session remembers the settings a companion had, the temporary ones and those
before the last switch. A start that replaces a session forgets the oldest of
them, so it may forget what the companion is on. `Kept` says that nothing was
forgotten, and every step keeps it that does not take one of those branches.
-/

namespace RtfmEv.TempRadio

open RtfmEv.Lib

namespace ServiceState

variable (home : String → RadioStamp)

/-- The companion is on the settings it had before. -/
def onHome (s : ServiceState) (key : String) : Bool := stampsEqual (s.actual key) (home key)

/-- The session of a companion has its settings from before, and knows those it is
on. -/
structure Knows (s : ServiceState) (st : Session) : Prop where
  original : stampsEqual st.original (home st.companionKey) = true
  fits : s.onHome home st.companionKey = true ∨ st.ours (s.actual st.companionKey) = true

/-- **Not stranded.** A companion is on the settings it had before, or its session
is stored with them and with those it is on. -/
def NotStranded (s : ServiceState) : Prop :=
  ∀ key, s.onHome home key = true ∨
    ∃ st, s.stored = some st ∧ st.companionKey = key ∧
      stampsEqual st.original (home key) = true ∧ st.ours (s.actual key) = true

/-! ### The branches that forget -/

/-- What a start remembers as normal is what the companion is on, and a start that
replaces a session does not forget what the companion is on. -/
def startTracks (req : StartRequest) (s : ServiceState) : Bool :=
  match s.connected, s.selfInfo, s.session with
  | some key, some current, none => decide (current = s.actual key)
  | some key, some _, some p =>
    decide (p.companionKey ≠ key) || s.onHome home key || stampsEqual (s.actual key) p.temp ||
      stampsEqual (s.actual key) req.radio
  | _, _, _ => true

/-- A restore that makes no switch leaves the companion on its settings from
before. -/
def restoreTracks (s : ServiceState) : Bool :=
  match s.session, s.selfInfo with
  | some st, some current =>
    decide (some st.companionKey ≠ s.connected) ||
      (st.ours current && !stampsEqual current st.original) || s.onHome home st.companionKey
  | _, _ => true

def reconcileTracks (s : ServiceState) : Bool :=
  match s.session, s.selfInfo with
  | some st, some current =>
    if st.ours current then !s.overdue st || s.restoreTracks home
    else decide (some st.companionKey ≠ s.connected) || s.onHome home st.companionKey
  | _, _ => true

def callTracks (c : Call) (s : ServiceState) : Bool :=
  match c.request with
  | .start req _ => s.startTracks home req
  | .restore => s.restoreTracks home
  | .endAsNewNormal => s.session.isNone
  | .extendTo _ => true
  | .reconcileOnConnect _ => s.reconcileTracks home

/-- A switch reaches the companion that the session is for. -/
def takesTracks (s : ServiceState) : Bool :=
  match s.session with
  | some st => decide (s.connected = some st.companionKey)
  | none => true

end ServiceState

/-- The step takes none of the branches that forget what a companion is on. -/
def tracks (home : String → RadioStamp) (e : ServiceEvent) : Bool :=
  match e.label with
  | .enter => e.pre.queue.head?.all (fun c => e.pre.callTracks home c)
  | .takes => e.pre.takesTracks
  | _ => true

namespace ServiceState

variable {home : String → RadioStamp} {s : ServiceState}

/-! ### What is kept -/

/-- What a call still has to go by at an await. -/
def PhaseKept (home : String → RadioStamp) (s : ServiceState) (st : Session) : Phase → Prop
  | .startSaving previous => ReplacedBy previous
  | .startSwitching previous _ => s.stored = some st ∧ ReplacedBy previous
  | .startRegion previous => s.stored = some st ∧ ReplacedBy previous
  | .undoSwitching previous taken => s.stored = some st ∧ ReplacedBy previous ∧
      (taken = true → BackTo previous)
  | .undoRegion previous => ReplacedBy previous ∧ BackTo previous
  | .restoreSwitching taken => taken = true → s.onHome home st.companionKey = true
  | .restoreRegion => s.onHome home st.companionKey = true
  | .regionBack _ => s.onHome home st.companionKey = true
  | _ => True
where
  /-- The session that the start replaced. -/
  ReplacedBy (previous : Option Session) : Prop :=
    ∀ p, previous = some p → p.companionKey = st.companionKey ∧ st.prevTemp = some p.temp ∧
      stampsEqual p.original (home p.companionKey) = true
  /-- The companion is back on the settings it was switched from. -/
  BackTo : Option Session → Prop
    | none => s.onHome home st.companionKey = true
    | some p => stampsEqual (s.actual st.companionKey) p.temp = true

/-- Nothing was forgotten, as far as the sessions go. -/
structure Core (home : String → RadioStamp) (s : ServiceState) : Prop where
  session : ∀ {st}, s.session = some st → s.Knows home st
  stored : ∀ {st}, s.stored = some st → s.Knows home st
  away : ∀ {key}, s.onHome home key = false →
    (∃ st, s.session = some st ∧ st.companionKey = key) ∧
      ∃ st, s.stored = some st ∧ st.companionKey = key

/-- Nothing was forgotten, and the call that holds the lock keeps it so. -/
structure Kept (home : String → RadioStamp) (s : ServiceState) : Prop where
  core : s.Core home
  phase : ∀ {c phase st}, s.holder = some (c, phase) → s.session = some st →
    PhaseKept home s st phase

theorem Core.notStranded (h : s.Core home) : s.NotStranded home := by
  intro key
  cases haway : s.onHome home key with
  | true => exact Or.inl rfl
  | false =>
    obtain ⟨_, st, hst, rfl⟩ := h.away haway
    have hknows := h.stored hst
    refine Or.inr ⟨st, hst, rfl, hknows.original, ?_⟩
    rcases hknows.fits with hhome | hours
    · rw [haway] at hhome
      cases hhome
    · exact hours

/-- With no session every companion is on its settings from before. -/
theorem Core.onHome_of_none (h : s.Core home) (hnone : s.session = none)
    (key : String) : s.onHome home key = true := by
  by_contra haway
  obtain ⟨⟨st, hst, _⟩, _⟩ := h.away (Bool.eq_false_iff.mpr haway)
  rw [hnone] at hst
  cases hst

/-- With a session only its companion may be away. -/
theorem Core.onHome_of_ne (h : s.Core home) {st : Session}
    (hst : s.session = some st) {key : String} (hkey : key ≠ st.companionKey) :
    s.onHome home key = true := by
  by_contra haway
  obtain ⟨⟨st', hst', rfl⟩, _⟩ := h.away (Bool.eq_false_iff.mpr haway)
  rw [hst] at hst'
  cases hst'
  exact hkey rfl

section

variable {s s' : ServiceState} {st : Session} {phase : Phase}

theorem Knows.congr (h : s.Knows home st) (hactual : s'.actual = s.actual) :
    s'.Knows home st := by
  obtain ⟨horiginal, hfits⟩ := h
  refine ⟨horiginal, ?_⟩
  unfold onHome at hfits ⊢
  rw [hactual]
  exact hfits

theorem Core.congr (h : s.Core home) (hsession : s'.session = s.session)
    (hstored : s'.stored = s.stored) (hactual : s'.actual = s.actual) : s'.Core home where
  session := by
    intro st hst
    exact (h.session (hsession ▸ hst)).congr hactual
  stored := by
    intro st hst
    exact (h.stored (hstored ▸ hst)).congr hactual
  away := by
    intro key haway
    rw [hsession, hstored]
    refine h.away ?_
    unfold onHome at haway ⊢
    rw [← hactual]
    exact haway

theorem Core.free (h : s.Core home) (hfree : s.holder = none) : s.Kept home where
  core := h
  phase := by
    intro c phase st hholder
    rw [hfree] at hholder
    cases hholder

theorem Core.finish (h : s.Core home) (ok : Bool) : (s.finish ok).Kept home :=
  Core.free (h.congr (session_finish ..) (stored_finish ..) (actual_finish ..)) (holder_finish ..)

theorem Core.schedule (h : s.Core home) : s.schedule.Core home := by
  obtain ⟨hsession, hstored, hactual, _⟩ := schedule_frame s
  exact h.congr hsession hstored hactual

theorem Core.await (h : s.Core home)
    (hphase : ∀ st, s.session = some st → PhaseKept home s st phase) :
    (s.await phase).Kept home where
  core := h.congr rfl rfl rfl
  phase := by
    intro c phase' st hholder hst
    obtain ⟨x, _, heq⟩ := Option.map_eq_some_iff.mp hholder
    cases heq
    exact hphase st hst

theorem Core.save (h : s.Core home) (hknows : s.Knows home st)
    (hkey : ∀ st', s.session = some st' → st'.companionKey = st.companionKey)
    (hphase : PhaseKept home s st phase) : (s.save st phase).Kept home := by
  have hcore : Core home { s with session := some st } := by
    refine ⟨?_, fun hst => (h.stored hst).congr rfl, ?_⟩
    · intro st' hst'
      cases hst'
      exact hknows.congr rfl
    · intro key haway
      obtain ⟨⟨st', hst', rfl⟩, hstored⟩ := h.away haway
      exact ⟨⟨st, rfl, (hkey st' hst').symm⟩, hstored⟩
  refine hcore.await ?_
  intro st' hst'
  cases hst'
  exact hphase

/-- The session ends with its companion on the settings from before. -/
theorem Core.clear (h : s.Core home)
    (hhome : ∀ st, s.session = some st → s.onHome home st.companionKey = true) :
    (s.clear phase).Kept home := by
  obtain ⟨hsession, hstored, hactual, _⟩ := cancelTask_frame s
  have htask : s.cancelTask.Core home := h.congr hsession hstored hactual
  have hcore : Core home { s.cancelTask with session := none } := by
    refine ⟨?_, fun hst => (htask.stored hst).congr rfl, ?_⟩
    · intro st hst
      cases hst
    · intro key haway
      obtain ⟨⟨st, hst, rfl⟩, _⟩ := htask.away haway
      have hback := hhome st (hsession ▸ hst)
      unfold onHome at haway hback
      rw [← hactual] at hback
      exact absurd (haway.symm.trans hback) Bool.false_ne_true
  refine hcore.await ?_
  intro st hst
  cases hst

/-! ### The calls -/

theorem Knows.pending (h : s.Knows home st) : s.Knows home st.pending :=
  ⟨h.original, h.fits⟩

theorem Core.undoFailed (h : s.Core home) (hst : s.session = some st) :
    (s.undoFailed st).Kept home := by
  refine h.save (h.session hst).pending ?_ trivial
  intro st' hst'
  rw [hst] at hst'
  cases hst'
  rfl

theorem Core.restoreFailed (h : s.Core home) (hst : s.session = some st) :
    (s.restoreFailed st).Kept home := by
  unfold ServiceState.restoreFailed
  split
  · exact h.finish false
  · refine h.save (h.session hst).pending ?_ trivial
    intro st' hst'
    rw [hst] at hst'
    cases hst'
    rfl

theorem Core.endSession (h : s.Core home) (hst : s.session = some st)
    (hhome : s.onHome home st.companionKey = true) (dropped : Bool) :
    (s.endSession st dropped).Kept home := by
  have hback : ∀ st', s.session = some st' → s.onHome home st'.companionKey = true := by
    intro st' hst'
    rw [hst] at hst'
    cases hst'
    exact hhome
  unfold ServiceState.endSession
  split
  · exact h.clear hback
  · exact h.await hback

theorem Core.restoreLocked (h : s.Core home) (htracks : s.restoreTracks home = true) :
    s.restoreLocked.Kept home := by
  unfold ServiceState.restoreLocked
  split
  · exact h.finish true
  rename_i st hst
  have hswitch : (s.await (.restoreSwitching false)).Kept home := by
    refine h.await ?_
    intro st' _ htaken
    cases htaken
  split
  · exact h.restoreFailed hst
  rename_i hkey
  split
  · exact hswitch
  rename_i current hcurrent
  -- which of the three the source takes is what `restoreTracks` looks at
  simp only [restoreTracks, hst, hcurrent, Bool.or_eq_true, Bool.and_eq_true, decide_eq_true_eq,
    hkey, false_or, Bool.not_eq_true'] at htracks
  split
  · rename_i heq
    refine h.endSession hst ?_ false
    rcases htracks with ⟨_, hne⟩ | hhome
    · rw [heq] at hne
      cases hne
    · exact hhome
  split
  · exact hswitch
  · rename_i hours
    refine h.endSession hst ?_ true
    rcases htracks with ⟨hours', _⟩ | hhome
    · exact absurd hours' hours
    · exact hhome

theorem Core.reconcileOnConnect (h : s.Core home) (htracks : s.reconcileTracks home = true) :
    s.reconcileOnConnect.Kept home := by
  unfold ServiceState.reconcileOnConnect
  split
  · exact h.finish true
  rename_i st hst
  split
  · exact h.finish true
  rename_i hkey
  split
  · exact h.finish true
  rename_i current hcurrent
  simp only [reconcileTracks, hst, hcurrent] at htracks
  split
  · rename_i hours
    rw [if_pos hours, Bool.or_eq_true] at htracks
    split
    · rename_i hoverdue
      refine h.restoreLocked ?_
      rcases htracks with hnot | htracks
      · rw [hoverdue] at hnot
        cases hnot
      · exact htracks
    · exact h.schedule.finish true
  · rename_i hours
    simp only [hours, Bool.false_eq_true, if_false, Bool.or_eq_true, decide_eq_true_eq, hkey,
      false_or] at htracks
    split
    · exact h.endSession hst htracks false
    · exact h.endSession hst htracks true

theorem Core.extendTo (h : s.Core home) (expiresAt : ℚ) : (s.extendTo expiresAt).Kept home := by
  unfold ServiceState.extendTo
  split
  · exact h.finish true
  rename_i st hst
  split
  · exact h.finish true
  · have hknows := h.session hst
    refine h.save ⟨hknows.original, hknows.fits⟩ ?_ trivial
    intro st' hst'
    rw [hst] at hst'
    cases hst'
    rfl

theorem Core.startLocked (h : s.Core home) {req : StartRequest}
    (htracks : s.startTracks home req = true) (caller : Caller) (scan : Option ScanProgress) :
    (s.startLocked caller req scan).Kept home := by
  unfold ServiceState.startLocked
  split
  · exact h.finish false
  split
  · rename_i key current hkey hcurrent
    dsimp only
    split
    · exact h.finish false
    rename_i hconflict
    cases hst : s.session with
    | none =>
      simp only [startTracks, hkey, hcurrent, hst, decide_eq_true_eq] at htracks
      subst htracks
      have hhome := h.onHome_of_none hst key
      refine h.save ⟨hhome, Or.inl hhome⟩ ?_ ?_
      · intro st' hst'
        rw [hst] at hst'
        cases hst'
      · intro p hp
        cases hp
    | some p =>
      have hsame : p.companionKey = key := by
        rw [hst] at hconflict
        simpa using hconflict
      subst hsame
      have hknows := h.session hst
      simp only [startTracks, hkey, hcurrent, hst, Bool.or_eq_true, decide_eq_true_eq, ne_eq,
        not_true_eq_false, false_or] at htracks
      refine h.save ⟨hknows.original, ?_⟩ ?_ ?_
      · rcases htracks with (hhome | hbefore) | hnow
        · exact Or.inl hhome
        · refine Or.inr (Bool.or_eq_true_iff.mpr (Or.inr ?_))
          exact hbefore
        · exact Or.inr (Bool.or_eq_true_iff.mpr (Or.inl hnow))
      · intro st' hst'
        rw [hst] at hst'
        cases hst'
        rfl
      · intro p' hp'
        cases hp'
        exact ⟨rfl, rfl, hknows.original⟩
  · exact h.finish false

/-! ### The awaits -/

theorem Kept.enter (h : s.Kept home) (htracks : s.queue.head?.all (fun c => s.callTracks home c))
    (henter : s.enter = some s') : s'.Kept home := by
  unfold ServiceState.enter at henter
  split at henter
  · rename_i c rest hfree hqueue
    rw [hqueue] at htracks
    have hcore : Core home { s with
        queue := rest
        holder := some (c, .startSaving none) } := h.core.congr rfl rfl rfl
    have htracks : s.callTracks home c = true := htracks
    unfold callTracks at htracks
    dsimp only at henter
    split at henter <;> rename_i hrequest <;> rw [hrequest] at htracks <;> cases henter
    · exact hcore.startLocked htracks _ _
    · exact hcore.restoreLocked htracks
    · have hnone : s.session = none := Option.isNone_iff_eq_none.mp htracks
      unfold ServiceState.endAsNewNormal
      split
      · exact hcore.finish true
      · rename_i st hst
        cases hst.symm.trans hnone
    · exact hcore.extendTo _
    · exact hcore.reconcileOnConnect htracks
  · cases henter

theorem Core.written (h : s.Core home) : Core home { s with stored := s.session } where
  session := fun hst => (h.session hst).congr rfl
  stored := fun hst => (h.session hst).congr rfl
  away := by
    intro key haway
    obtain ⟨hsession, _⟩ := h.away haway
    exact ⟨hsession, hsession⟩

theorem Kept.saved (h : s.Kept home) (hsaved : s.saved = some s') : s'.Kept home := by
  have hwritten := h.core.written
  unfold ServiceState.saved at hsaved
  dsimp only at hsaved
  split at hsaved
  · rename_i previous hholder
    cases hsaved
    exact hwritten.await (fun st hst => ⟨hst, h.phase hholder hst⟩)
  · cases hsaved
    exact hwritten.finish false
  · cases hsaved
    exact hwritten.schedule.finish false
  · cases hsaved
    exact hwritten.finish false
  · cases hsaved
    exact hwritten.finish false
  · cases hsaved
    refine Core.finish ?_ true
    exact hwritten.congr rfl rfl rfl
  · cases hsaved
    exact hwritten.schedule.finish true
  · cases hsaved

/-- The companion of the session takes settings that are its own from before or
that the session knows, and the stored session too unless it is back. -/
theorem Core.take (h : s.Core home) (hst : s.session = some st)
    {stamp : RadioStamp} (hfits : stampsEqual stamp (home st.companionKey) = true ∨
      (st.ours stamp = true ∧ s.stored = some st)) :
    Core home { s with actual := Function.update s.actual st.companionKey stamp } := by
  have hother : ∀ {key}, key ≠ st.companionKey →
      Function.update s.actual st.companionKey stamp key = s.actual key :=
    fun hkey => Function.update_of_ne hkey ..
  have hself : Function.update s.actual st.companionKey stamp st.companionKey = stamp :=
    Function.update_self ..
  have hback : ∀ {key}, key ≠ st.companionKey → onHome home
      { s with actual := Function.update s.actual st.companionKey stamp } key = true := by
    intro key hkey
    unfold onHome
    dsimp only
    rw [hother hkey]
    exact h.onHome_of_ne hst hkey
  have hknows : ∀ {st'}, (s.session = some st' ∨ s.stored = some st') → Knows home
      { s with actual := Function.update s.actual st.companionKey stamp } st' := by
    intro st' hst'
    have hpre : s.Knows home st' := by
      rcases hst' with hst' | hst'
      · exact h.session hst'
      · exact h.stored hst'
    refine ⟨hpre.original, ?_⟩
    by_cases hkey : st'.companionKey = st.companionKey
    · unfold onHome
      dsimp only
      rw [hkey, hself]
      rcases hfits with hhome | ⟨hours, hstored⟩
      · exact Or.inl hhome
      · rw [hst, hstored, or_self] at hst'
        cases hst'
        exact Or.inr hours
    · exact Or.inl (hback hkey)
  refine ⟨fun hst' => hknows (Or.inl hst'), fun hst' => hknows (Or.inr hst'), ?_⟩
  intro key haway
  by_cases hkey : key = st.companionKey
  · subst hkey
    unfold onHome at haway
    dsimp only at haway
    rw [hself] at haway
    rcases hfits with hhome | ⟨_, hstored⟩
    · rw [haway] at hhome
      cases hhome
    · exact ⟨⟨st, hst, rfl⟩, st, hstored, rfl⟩
  · rw [hback hkey] at haway
    cases haway

theorem Kept.takes (h : s.Kept home) (htracks : s.takesTracks = true)
    (htakes : s.takes = some s') : s'.Kept home := by
  unfold ServiceState.takes at htakes
  split at htakes
  · rename_i stamp phase key hswitch hkey
    cases htakes
    unfold switch at hswitch
    split at hswitch
    · rename_i c previous st hholder hst
      cases hswitch
      simp only [takesTracks, hst, hkey, decide_eq_true_eq, Option.some.injEq] at htracks
      subst htracks
      obtain ⟨hstored, hprevious⟩ := h.phase hholder hst
      have hours : st.ours st.temp = true := Bool.or_eq_true_iff.mpr (Or.inl (stampsEqual_refl _))
      refine (h.core.take hst (Or.inr ⟨hours, hstored⟩)).await ?_
      intro st' hst'
      rw [hst] at hst'
      cases hst'
      exact ⟨hstored, hprevious⟩
    · rename_i c st hholder hst
      cases hswitch
      simp only [takesTracks, hst, hkey, decide_eq_true_eq, Option.some.injEq] at htracks
      subst htracks
      obtain ⟨hstored, hprevious, _⟩ := h.phase hholder hst
      have hhome := (h.core.session hst).original
      refine (h.core.take hst (Or.inl hhome)).await ?_
      intro st' hst'
      rw [hst] at hst'
      cases hst'
      refine ⟨hstored, hprevious, fun _ => ?_⟩
      simpa [PhaseKept.BackTo, onHome] using hhome
    · rename_i c p st hholder hst
      cases hswitch
      simp only [takesTracks, hst, hkey, decide_eq_true_eq, Option.some.injEq] at htracks
      subst htracks
      obtain ⟨hstored, hprevious, _⟩ := h.phase hholder hst
      have hprev := (hprevious p rfl).2.1
      have hours : st.ours p.temp = true := by
        simp [Session.ours, hprev, stampsEqual_refl]
      refine (h.core.take hst (Or.inr ⟨hours, hstored⟩)).await ?_
      intro st' hst'
      rw [hst] at hst'
      cases hst'
      refine ⟨hstored, hprevious, fun _ => ?_⟩
      simpa [PhaseKept.BackTo] using stampsEqual_refl p.temp
    · rename_i c st hholder hst
      cases hswitch
      simp only [takesTracks, hst, hkey, decide_eq_true_eq, Option.some.injEq] at htracks
      subst htracks
      have hhome := (h.core.session hst).original
      refine (h.core.take hst (Or.inl hhome)).await ?_
      intro st' hst'
      rw [hst] at hst'
      cases hst'
      intro _
      simpa [onHome] using hhome
    · cases hswitch
  · cases htakes

theorem Core.refresh (h : s.Core home) (refreshed : Bool) : (s.refresh refreshed).Core home := by
  unfold ServiceState.refresh
  split
  · exact h.congr rfl rfl rfl
  · exact h

theorem refresh_frame (refreshed : Bool) (s : ServiceState) :
    (s.refresh refreshed).session = s.session ∧ (s.refresh refreshed).stored = s.stored ∧
      (s.refresh refreshed).actual = s.actual ∧ (s.refresh refreshed).holder = s.holder := by
  unfold refresh
  split <;> exact ⟨rfl, rfl, rfl, rfl⟩

theorem PhaseKept.congr (hstored : s'.stored = s.stored)
    (hactual : s'.actual = s.actual) (h : PhaseKept home s st phase) :
    PhaseKept home s' st phase := by
  have hback : ∀ previous, PhaseKept.BackTo home s st previous →
      PhaseKept.BackTo home s' st previous := by
    intro previous hprevious
    cases previous with
    | none =>
      unfold BackTo onHome at hprevious ⊢
      rw [hactual]
      exact hprevious
    | some p =>
      unfold BackTo at hprevious ⊢
      rw [hactual]
      exact hprevious
  have hhome : s.onHome home st.companionKey = true → s'.onHome home st.companionKey = true := by
    unfold onHome
    rw [hactual]
    exact id
  cases phase with
  | startSaving previous => exact h
  | startSwitching previous taken => exact ⟨hstored.trans h.1, h.2⟩
  | startRegion previous => exact ⟨hstored.trans h.1, h.2⟩
  | undoSwitching previous taken =>
    exact ⟨hstored.trans h.1, h.2.1, fun htaken => hback previous (h.2.2 htaken)⟩
  | undoRegion previous => exact ⟨h.1, hback previous h.2⟩
  | restoreSwitching taken => exact fun htaken => hhome (h htaken)
  | restoreRegion => exact hhome h
  | regionBack dropped => exact hhome h
  | _ => trivial

theorem Core.undoRegionDone (h : s.Core home) (hst : s.session = some st)
    {previous : Option Session} (hprevious : PhaseKept.ReplacedBy home st previous)
    (hback : PhaseKept.BackTo home s st previous) : (s.undoRegionDone previous).Kept home := by
  cases previous with
  | none =>
    refine h.clear ?_
    intro st' hst'
    rw [hst] at hst'
    cases hst'
    exact hback
  | some p =>
    obtain ⟨hkey, _, horiginal⟩ := hprevious p rfl
    refine h.save ⟨horiginal, Or.inr ?_⟩ ?_ trivial
    · rw [hkey]
      exact Bool.or_eq_true_iff.mpr (Or.inl hback)
    · intro st' hst'
      rw [hst] at hst'
      cases hst'
      exact hkey.symm

theorem Kept.switched (h : s.Kept home) {refreshed : Bool}
    (hswitched : s.switched refreshed = some s') : s'.Kept home := by
  obtain ⟨hsession, hstored, hactual, _⟩ := refresh_frame refreshed s
  have hcore := h.core.refresh refreshed
  unfold ServiceState.switched at hswitched
  split at hswitched
  · rename_i c previous st hholder hst
    cases hswitched
    unfold startSwitched
    split
    · refine hcore.await ?_
      intro st' hst'
      rw [hsession, hst] at hst'
      cases hst'
      have hphase := h.phase hholder hst
      exact ⟨hstored.trans hphase.1, hphase.2⟩
    · exact hcore.schedule.finish true
  · rename_i c previous st hholder hst
    cases hswitched
    obtain ⟨_, hprevious, hback⟩ := (h.phase hholder hst).congr hstored hactual
    have hst' : (s.refresh refreshed).session = some st := hsession.trans hst
    unfold undoSwitched
    split
    · refine hcore.await ?_
      intro st'' hst''
      rw [hst'] at hst''
      cases hst''
      exact ⟨hprevious, hback rfl⟩
    · exact hcore.undoRegionDone hst' hprevious (hback rfl)
  · rename_i c st hholder hst
    cases hswitched
    have hback := (h.phase hholder hst).congr hstored hactual
    have hhome : ∀ st', (s.refresh refreshed).session = some st' →
        (s.refresh refreshed).onHome home st'.companionKey = true := by
      intro st' hst'
      rw [hsession, hst] at hst'
      cases hst'
      exact hback rfl
    unfold restoreSwitched
    split
    · exact hcore.await hhome
    · exact hcore.clear hhome
  · cases hswitched

theorem Kept.switchFailed (h : s.Kept home) (hfailed : s.switchFailed = some s') :
    s'.Kept home := by
  unfold ServiceState.switchFailed at hfailed
  split at hfailed
  · rename_i c previous taken st hholder hst
    cases hfailed
    refine h.core.await ?_
    intro st' hst'
    rw [hst] at hst'
    cases hst'
    obtain ⟨hstored, hprevious⟩ := h.phase hholder hst
    exact ⟨hstored, hprevious, fun htaken => by cases htaken⟩
  · rename_i c previous taken st hholder hst
    cases hfailed
    exact h.core.undoFailed hst
  · rename_i c taken st hholder hst
    cases hfailed
    exact h.core.restoreFailed hst
  · cases hfailed

theorem Kept.regionDone (h : s.Kept home) {ok : Bool} (hdone : s.regionDone ok = some s') :
    s'.Kept home := by
  unfold ServiceState.regionDone at hdone
  split at hdone
  · rename_i c previous st hholder hst
    cases hdone
    cases ok with
    | true => exact h.core.schedule.finish true
    | false =>
      refine h.core.await ?_
      intro st' hst'
      rw [hst] at hst'
      cases hst'
      obtain ⟨hstored, hprevious⟩ := h.phase hholder hst
      exact ⟨hstored, hprevious, fun htaken => by cases htaken⟩
  · rename_i c previous st hholder hst
    cases hdone
    obtain ⟨hprevious, hback⟩ := h.phase hholder hst
    cases ok with
    | true => exact h.core.undoRegionDone hst hprevious hback
    | false => exact h.core.undoFailed hst
  · rename_i c st hholder hst
    cases hdone
    have hhome : ∀ st', s.session = some st' → s.onHome home st'.companionKey = true := by
      intro st' hst'
      rw [hst] at hst'
      cases hst'
      exact h.phase hholder hst
    cases ok with
    | true => exact h.core.clear hhome
    | false => exact h.core.restoreFailed hst
  · rename_i c dropped st hholder hst
    cases hdone
    refine h.core.clear ?_
    intro st' hst'
    rw [hst] at hst'
    cases hst'
    exact h.phase hholder hst
  · cases hdone

/-- What concerns neither the sessions, nor the companions, nor the call. -/
theorem Kept.congr (h : s.Kept home) (hsession : s'.session = s.session)
    (hstored : s'.stored = s.stored) (hactual : s'.actual = s.actual)
    (hholder : s'.holder = s.holder) : s'.Kept home where
  core := h.core.congr hsession hstored hactual
  phase := by
    intro c phase st hc hst
    rw [hholder] at hc
    rw [hsession] at hst
    exact (h.phase hc hst).congr hstored hactual

theorem Kept.crash (h : s.Kept home) : s.crash.Kept home := by
  refine Core.free ⟨fun hst => (h.core.stored hst).congr rfl,
    fun hst => (h.core.stored hst).congr rfl, ?_⟩ rfl
  intro key haway
  obtain ⟨_, hstored⟩ := h.core.away haway
  exact ⟨hstored, hstored⟩

/-- **One step.** -/
theorem Kept.step {e : ServiceEvent} (h : e.pre.Kept home)
    (hstep : ServiceStep e.pre e.label e.post) (htracks : tracks home e = true) :
    e.post.Kept home := by
  obtain ⟨s, op, s'⟩ := e
  dsimp only at h hstep ⊢
  unfold ServiceStep at hstep
  cases op with
  | advance now | call c =>
    simp only [ServiceOp.apply] at hstep
    split at hstep <;> cases hstep
    exact h.congr rfl rfl rfl rfl
  | connect key known openhop =>
    simp only [ServiceOp.apply, connect] at hstep
    split at hstep <;> cases hstep
    exact h.congr rfl rfl rfl rfl
  | disconnect =>
    cases hstep
    exact h.congr rfl rfl rfl rfl
  | crash =>
    cases hstep
    exact h.crash
  | cancel run =>
    cases hstep
    refine ⟨h.core.congr rfl rfl rfl, ?_⟩
    intro c phase st hholder hst
    unfold cancel at hholder
    dsimp only at hholder
    split at hholder
    · cases hholder
    · exact (h.phase hholder hst).congr rfl rfl
  | enter => exact h.enter htracks hstep
  | saved => exact h.saved hstep
  | takes => exact h.takes htracks hstep
  | switched refreshed => exact h.switched hstep
  | switchFailed => exact h.switchFailed hstep
  | regionDone ok => exact h.regionDone hstep
  | wake i =>
    simp only [ServiceOp.apply, wake] at hstep
    split at hstep
    · split at hstep
      · cases hstep
        split
        · exact h.congr rfl rfl rfl rfl
        · exact h
      · cases hstep
        exact h.congr rfl rfl rfl rfl
    · split at hstep <;> cases hstep
      exact h.congr rfl rfl rfl rfl
    · cases hstep

end

/-! ### Runs -/

/-- No session, and every companion is on its own settings. -/
def fresh (home : String → RadioStamp) : ServiceState := { actual := home }

theorem kept_fresh (home : String → RadioStamp) : (fresh home).Kept home := by
  refine Core.free ⟨?_, ?_, ?_⟩ rfl
  · intro st hst
    cases hst
  · intro st hst
    cases hst
  · intro key haway
    have hhome : (fresh home).onHome home key = true := stampsEqual_refl _
    rw [haway] at hhome
    cases hhome

/-- **A run that forgets nothing strands no companion.** -/
theorem never_stranded {home : String → RadioStamp} {h : List ServiceEvent} {s : ServiceState}
    (r : Run ServiceStep (fresh home) h s) (htracks : ∀ e ∈ h, tracks home e = true) :
    s.NotStranded home := by
  have hkept : s.Kept home :=
    r.invariant (P := Kept home) htracks (fun e hstep ht hpre => hpre.step hstep ht)
      (kept_fresh home)
  exact hkept.core.notStranded

/-- Settings that differ in the spreading factor. -/
def stamp (sf : ℤ) : RadioStamp := ⟨4343 / 5, 125 / 2, sf, 5⟩

def startOn (sf : ℤ) : ServiceOp :=
  .call ⟨.other, .start ⟨stamp sf, 600, none, .manual⟩ none⟩

/-- A session that is started, moved on and restored, with working commands. -/
def wellTraveled : List ServiceOp :=
  [.connect "c0" true false, startOn 8, .enter, .saved, .takes, .switched true,
    startOn 9, .enter, .saved, .takes, .switched true,
    .call ⟨.other, .restore⟩, .enter, .takes, .switched true, .saved]

theorem never_stranded_wellTraveled :
    ∃ (h : List ServiceEvent) (s : ServiceState), Run ServiceStep (fresh (fun _ => stamp 7)) h s ∧
      h.map Event.label = wellTraveled ∧ s.NotStranded (fun _ => stamp 7) := by
  obtain ⟨h, s, r, hlabels, htracks⟩ :=
    Run.exists_of_trace ServiceOp.apply (fresh (fun _ => stamp 7)) wellTraveled
      (fun x => x.1.all (tracks (fun _ => stamp 7))) (by decide +kernel)
  exact ⟨h, s, r, hlabels, never_stranded r (List.all_eq_true.mp htracks)⟩

/-- Two starts whose commands do not reach the radio, the second over the first. -/
def twiceUnswitched : List ServiceOp :=
  [.connect "c0" true false, startOn 8, .enter, .saved, .takes, .switched true,
    startOn 9, .enter, .saved, .switchFailed, .switchFailed, .saved,
    startOn 10, .enter, .saved, .switchFailed, .switchFailed, .saved,
    .disconnect, .connect "c0" true false, .call ⟨.other, .reconcileOnConnect 2⟩, .enter, .saved]

/-- The companion is on other settings than before and nothing is stored. -/
def lost (s : ServiceState) : Bool :=
  s.stored.isNone && !s.onHome (fun _ => stamp 7) "c0"

theorem not_forall_never_stranded :
    ¬ ∀ (home : String → RadioStamp) (h : List ServiceEvent) (s : ServiceState),
      Run ServiceStep (fresh home) h s →
        (∀ e ∈ h, ∀ caller, e.label ≠ .call ⟨caller, .endAsNewNormal⟩) → s.NotStranded home := by
  intro hall
  obtain ⟨h, s, r, hlabels, hlost⟩ :=
    Run.exists_of_trace ServiceOp.apply (fresh (fun _ => stamp 7)) twiceUnswitched
      (fun x => lost x.2) (by decide +kernel)
  have hcalls : ∀ e ∈ h, ∀ caller, e.label ≠ .call ⟨caller, .endAsNewNormal⟩ := by
    intro e he caller
    have hmem := List.mem_map_of_mem (f := Event.label) he
    rw [hlabels] at hmem
    simp only [twiceUnswitched, startOn, List.mem_cons, List.not_mem_nil, or_false] at hmem
    intro heq
    rw [heq] at hmem
    simp at hmem
  simp only [lost, Bool.and_eq_true, Option.isNone_iff_eq_none, Bool.not_eq_true'] at hlost
  rcases hall _ h s r hcalls "c0" with hhome | ⟨st, hst, _⟩
  · rw [hlost.2] at hhome
    cases hhome
  · rw [hlost.1] at hst
    cases hst

end ServiceState

end RtfmEv.TempRadio
