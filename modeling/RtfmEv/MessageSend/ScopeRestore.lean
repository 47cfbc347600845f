import RtfmEv.MessageSend.EffectiveScope

/-!
# The radio after a send on a channel

A send may change the flood scope and the path hash mode of the radio and sets
both back afterwards. A restore attempt that is not answered counts as success.
So the radio has its baseline or a notice was sent, unless an unanswered attempt
was lost.
-/

namespace RtfmEv.MessageSend

open RtfmEv.Lib RtfmEv.Lib.Proc

/-- A notice was sent between two states. -/
def Reported (notice : RestoreNotice) (w w' : World) : Prop :=
  w.notices.count notice < w'.notices.count notice

/-- The attempts end with one that was neither answered nor applied, and none
before it was applied. -/
def lostSilently : List CommandOutcome → Bool
  | [] => false
  | c :: rest =>
    match c.reply with
    | .ok => false
    | .silent => !c.applied
    | .error => lostSilently rest
    | .raised => !c.applied && lostSilently rest

/-! ### Restoring one setting -/

section Restore

variable {β : Type} {get : Radio → β} {effect : Radio → Radio}
  {restored : RadioManager → RadioManager} {notice : RestoreNotice}

theorem restore_frame (hget : ∀ r, get (effect r) = get r) (attempts : List CommandOutcome)
    (w : World) : get (restore effect restored notice attempts w).radio = get w.radio := by
  induction attempts generalizing w with
  | nil => rfl
  | cons c rest ih =>
    have hone : get (if c.takes then { w with radio := effect w.radio } else w : World).radio =
        get w.radio := by
      split_ifs
      · exact hget w.radio
      · rfl
    unfold restore
    dsimp only
    cases c.reply with
    | ok => exact hone
    | silent => exact hone
    | error => exact (ih _).trans hone
    | raised => exact (ih _).trans hone

theorem restore_count_of_ne {other : RestoreNotice} (hne : other ≠ notice)
    (attempts : List CommandOutcome) (w : World) :
    (restore effect restored notice attempts w).notices.count other = w.notices.count other := by
  induction attempts generalizing w with
  | nil =>
    show (w.notices ++ [notice]).count other = _
    rw [List.count_append, List.count_singleton, if_neg]
    · rfl
    · simpa using fun h : notice = other => hne h.symm
  | cons c rest ih =>
    have hone : (if c.takes then { w with radio := effect w.radio } else w : World).notices =
        w.notices := by
      split_ifs <;> rfl
    unfold restore
    dsimp only
    cases c.reply with
    | ok => exact congrArg _ hone
    | silent => exact congrArg _ hone
    | error => exact (ih _).trans (congrArg _ hone)
    | raised => exact (ih _).trans (congrArg _ hone)

theorem restore_of_held {v : β} (hget : ∀ r, get (effect r) = v)
    (attempts : List CommandOutcome) (w : World) (hheld : get w.radio = v) :
    get (restore effect restored notice attempts w).radio = v := by
  induction attempts generalizing w with
  | nil => exact hheld
  | cons c rest ih =>
    have hone : get (if c.takes then { w with radio := effect w.radio } else w : World).radio =
        v := by
      split_ifs
      · exact hget w.radio
      · exact hheld
    unfold restore
    dsimp only
    cases c.reply with
    | ok => exact hone
    | silent => exact hone
    | error => exact ih _ hone
    | raised => exact ih _ hone

/-- **One restore.** The radio has the value or a notice was sent, unless the
radio did not have it and the attempts were lost silently. -/
theorem restored_or_reported_iff {v : β} (hget : ∀ r, get (effect r) = v)
    (attempts : List CommandOutcome) (w : World) :
    (get (restore effect restored notice attempts w).radio = v ∨
        Reported notice w (restore effect restored notice attempts w)) ↔
      ¬ (get w.radio ≠ v ∧ lostSilently attempts = true) := by
  by_cases hheld : get w.radio = v
  · have hkept : get (restore effect restored notice attempts w).radio = v :=
      restore_of_held hget attempts w hheld
    simp [hkept, hheld]
  · simp only [ne_eq, hheld, not_false_eq_true, true_and, Bool.not_eq_true]
    induction attempts generalizing w with
    | nil =>
      refine ⟨fun _ => rfl, fun _ => Or.inr ?_⟩
      show w.notices.count notice < (w.notices ++ [notice]).count notice
      rw [List.count_append, List.count_singleton_self]
      omega
    | cons c rest ih =>
      obtain ⟨reply, applied⟩ := c
      unfold restore lostSilently CommandOutcome.takes
      cases reply with
      | ok =>
        have hnow : get (effect w.radio) = v := hget w.radio
        exact ⟨fun _ => rfl, fun _ => Or.inl hnow⟩
      | silent =>
        cases applied with
        | true =>
          have hnow : get (effect w.radio) = v := hget w.radio
          exact ⟨fun _ => rfl, fun _ => Or.inl hnow⟩
        | false =>
          constructor
          · rintro (hnow | hsent)
            · exact absurd hnow hheld
            · exact absurd hsent (Nat.lt_irrefl _)
          · intro hlost
            cases hlost
      | error => exact ih w hheld
      | raised =>
        cases applied with
        | true =>
          have hnow : get (restore effect restored notice rest
              { w with radio := effect w.radio }).radio = v :=
            restore_of_held hget rest _ (hget w.radio)
          exact ⟨fun _ => rfl, fun _ => Or.inl hnow⟩
        | false => exact ih w hheld

end Restore

/-! ### The settings during a send -/

/-- The settings of the radio and the notices so far. -/
structure Live (scope : LiveScope) (mode : ℤ) (notices : List RestoreNotice) (w : World) :
    Prop where
  scope : w.radio.floodScope = scope
  mode : w.radio.pathHashMode = mode
  notices : w.notices = notices

/-- A command that is taken for failed ends the send. -/
def CommandOutcome.fails (c : CommandOutcome) : Bool :=
  match c.reply with
  | .ok => false
  | .silent => false
  | .error => true
  | .raised => true

section Live

variable {scope : LiveScope} {mode : ℤ} {notices : List RestoreNotice} {P Q : World → Prop}

theorem meets_command (effect : Radio → Radio) (takes : Bool) (reply : Reply)
    (h : ∀ w, P w → Q (if takes then { w with radio := effect w.radio } else w)) :
    Meets P (command effect takes reply)
      (fun r w => r = reply ∧ reply ≠ .raised ∧ Q w) (fun _ w => reply = .raised ∧ Q w) := by
  unfold command
  apply meets_bind (Q := fun _ => Q)
  · exact meets_update h
  · intro _
    cases reply with
    | raised => exact meets_raise (fun w hw => ⟨rfl, hw⟩)
    | ok | error | silent => exact meets_pure (fun w hw => ⟨rfl, by simp, hw⟩)

theorem keeps_command {effect : Radio → Radio} (takes : Bool) (reply : Reply)
    (h : ∀ w, P w → P { w with radio := effect w.radio }) :
    Keeps P (command effect takes reply) := by
  refine (meets_command (Q := P) effect takes reply ?_).mono (fun _ hw => hw)
    (fun _ _ hw => hw.2.2) (fun _ _ hw => hw.2)
  intro w hw
  split_ifs
  · exact h w hw
  · exact hw

theorem live_updateManager (f : RadioManager → RadioManager) :
    Keeps (Live scope mode notices) (updateManager f) := by
  apply keeps_update
  intro w hw
  exact ⟨hw.scope, hw.mode, hw.notices⟩

theorem live_invalidateEvicted (evicted : Option String) :
    Keeps (Live scope mode notices) (invalidateEvicted evicted) := by
  cases evicted with
  | none => exact keeps_pure ()
  | some key => exact live_updateManager _

theorem live_loadChannelSlot (a : ChannelSend) (c : CommandOutcome) :
    Keeps (Live scope mode notices) (loadChannelSlot a c) := by
  unfold loadChannelSlot
  apply keeps_bind (keeps_ask _)
  intro plan
  split_ifs
  · apply keeps_bind
    · apply keeps_handle
      · apply keeps_command
        intro w hw
        exact ⟨hw.scope, hw.mode, hw.notices⟩
      · intro e
        exact keeps_bind (live_invalidateEvicted _) (fun _ => keeps_raise e)
    · intro reply
      cases reply with
      | ok => exact keeps_bind (live_updateManager _) (fun _ => keeps_pure _)
      | error => exact keeps_bind (live_invalidateEvicted _) (fun _ => keeps_raise _)
      | silent => exact keeps_raise _
      | raised => exact keeps_raise _
  · exact keeps_pure _

theorem live_sendOnSlot (a : ChannelSend) (reply : Reply) (slot : ℕ) :
    Keeps (Live scope mode notices) (sendOnSlot a reply slot) := by
  unfold sendOnSlot
  apply keeps_bind
  · apply keeps_update
    intro w hw
    exact ⟨hw.scope, hw.mode, hw.notices⟩
  intro _
  cases reply with
  | raised => exact keeps_raise _
  | silent => exact keeps_raise _
  | error | ok => exact keeps_bind (live_updateManager _) (fun _ => keeps_pure _)

theorem meets_applyOverride (effect : Radio → Radio) (rejected : Detail) (c : CommandOutcome)
    (h : ∀ w, P w → Q (if c.takes then { w with radio := effect w.radio } else w)) :
    Meets P (applyOverride effect rejected c) (fun _ w => c.fails = false ∧ Q w)
      (fun _ w => c.fails = true ∧ Q w) := by
  unfold applyOverride
  apply meets_bind (Q := fun r w => r = c.reply ∧ c.reply ≠ .raised ∧ Q w)
  · refine (meets_command effect c.takes c.reply h).mono (fun _ hw => hw) (fun _ _ hw => hw) ?_
    intro e w hw
    refine ⟨?_, hw.2⟩
    rw [CommandOutcome.fails, hw.1]
  intro reply
  split_ifs with herror
  · apply meets_raise
    intro w hw
    refine ⟨?_, hw.2.2⟩
    rw [CommandOutcome.fails, ← hw.1, herror]
  · apply meets_pure
    rintro w ⟨hreply, hraised, hw⟩
    refine ⟨?_, hw⟩
    rw [hreply] at herror
    unfold CommandOutcome.fails
    cases hr : c.reply with
    | ok => rfl
    | silent => rfl
    | error => exact absurd hr herror
    | raised => exact absurd hr hraised

end Live

namespace ChannelSend

/-- The flood scope of the radio when the restores begin. -/
def scopeBeforeRestore (a : ChannelSend) (o : ChannelOutcomes) (w : World) : LiveScope :=
  if a.applyScope && o.applyScope.takes then a.scopeTarget w.manager else w.radio.floodScope

/-- The path hash mode of the radio when the restores begin. It is only set after
the scope. -/
def modeBeforeRestore (a : ChannelSend) (o : ChannelOutcomes) (w : World) : ℤ :=
  match a.pathHashModeTarget w.manager with
  | none => w.radio.pathHashMode
  | some mode =>
    if !(a.applyScope && o.applyScope.fails) && o.applyPathHashMode.takes then mode
    else w.radio.pathHashMode

end ChannelSend

variable (a : ChannelSend) (o : ChannelOutcomes)

/-- The scope is set before the mode. -/
theorem meets_applyScope (w₀ : World) : Meets (fun w => w = w₀) (applyScopeOverride a o w₀.manager)
      (fun _ w => (a.applyScope && o.applyScope.fails) = false ∧
        Live (a.scopeBeforeRestore o w₀) w₀.radio.pathHashMode w₀.notices w)
      (fun _ w => (a.applyScope && o.applyScope.fails) = true ∧
        Live (a.scopeBeforeRestore o w₀) w₀.radio.pathHashMode w₀.notices w) := by
  unfold applyScopeOverride ChannelSend.scopeBeforeRestore
  generalize a.scopeTarget w₀.manager = target
  cases a.applyScope with
  | false =>
    apply meets_pure
    rintro w rfl
    exact ⟨rfl, rfl, rfl, rfl⟩
  | true =>
    simp only [Bool.true_and, if_true]
    apply meets_applyOverride (Q := Live
      (if o.applyScope.takes = true then target else w₀.radio.floodScope)
      w₀.radio.pathHashMode w₀.notices)
    rintro w rfl
    split_ifs
    · exact ⟨rfl, rfl, rfl⟩
    · exact ⟨rfl, rfl, rfl⟩

theorem meets_applyPathHashMode (w₀ : World) (scope : LiveScope) :
    Meets (fun w => (a.applyScope && o.applyScope.fails) = false ∧
        Live scope w₀.radio.pathHashMode w₀.notices w)
      (applyPathHashModeOverride a o w₀.manager)
      (fun _ => Live scope (a.modeBeforeRestore o w₀) w₀.notices)
      (fun _ => Live scope (a.modeBeforeRestore o w₀) w₀.notices) := by
  unfold applyPathHashModeOverride ChannelSend.modeBeforeRestore
  cases a.pathHashModeTarget w₀.manager with
  | none => exact meets_pure (fun w hw => hw.2)
  | some mode =>
    have hone := meets_applyOverride (Q := Live scope
      (if !(a.applyScope && o.applyScope.fails) && o.applyPathHashMode.takes then mode
        else w₀.radio.pathHashMode) w₀.notices)
      (P := fun w => (a.applyScope && o.applyScope.fails) = false ∧
        Live scope w₀.radio.pathHashMode w₀.notices w)
      (Radio.setPathHashMode mode) .pathHashModeRejected o.applyPathHashMode ?_
    · exact hone.mono (fun _ hw => hw) (fun _ _ hw => hw.2) (fun _ _ hw => hw.2)
    rintro w ⟨hfails, hw⟩
    rw [hfails]
    cases o.applyPathHashMode.takes with
    | false => exact hw
    | true => exact ⟨hw.scope, rfl, hw.notices⟩

/-- The settings of the radio when the restores begin, and no notice yet. -/
theorem meets_applyAndSend (w₀ : World) : Meets (fun w => w = w₀) (applyAndSend a o w₀.manager)
      (fun _ => Live (a.scopeBeforeRestore o w₀) (a.modeBeforeRestore o w₀) w₀.notices)
      (fun _ => Live (a.scopeBeforeRestore o w₀) (a.modeBeforeRestore o w₀) w₀.notices) := by
  unfold applyAndSend
  apply meets_bind (Q := fun _ w => (a.applyScope && o.applyScope.fails) = false ∧
    Live (a.scopeBeforeRestore o w₀) w₀.radio.pathHashMode w₀.notices w)
  · refine (meets_applyScope a o w₀).mono (fun _ hw => hw) (fun _ _ hw => hw) ?_
    rintro e w ⟨hfails, hw⟩
    refine ⟨hw.scope, ?_, hw.notices⟩
    unfold ChannelSend.modeBeforeRestore
    rw [hfails, hw.mode]
    cases a.pathHashModeTarget w₀.manager <;> rfl
  intro _
  apply meets_bind (meets_applyPathHashMode a o w₀ _)
  intro _
  exact keeps_bind (live_loadChannelSlot a o.setChannel) (live_sendOnSlot a o.send)

/-! ### Both settings -/

namespace ChannelSend

/-- The send goes on after it has read the settings. -/
def goesOn (a : ChannelSend) (o : ChannelOutcomes) : Bool :=
  !a.applyScope || o.settings == .done

/-- The send sets a scope, or a path hash mode, of its own. -/
def overridesScope (a : ChannelSend) (o : ChannelOutcomes) : Bool :=
  a.goesOn o && a.applyScope

def overridesMode (a : ChannelSend) (o : ChannelOutcomes) (m : RadioManager) : Bool :=
  a.goesOn o && (a.pathHashModeTarget m).isSome

/-- The scope is not the baseline when the restore begins, and stays so without a
notice. -/
def leaksScope (a : ChannelSend) (o : ChannelOutcomes) (w : World) : Prop :=
  a.overridesScope o = true ∧ a.scopeBeforeRestore o w ≠ a.scopeBaseline w.manager ∧
    lostSilently ((List.range restoreAttempts).map o.restoreScope) = true

def leaksMode (a : ChannelSend) (o : ChannelOutcomes) (w : World) : Prop :=
  a.overridesMode o w.manager = true ∧ a.modeBeforeRestore o w ≠ w.manager.pathHashMode ∧
    lostSilently ((List.range restoreAttempts).map o.restorePathHashMode) = true

end ChannelSend

/-- Each setting that the send has overridden is the baseline again or a notice
was sent for it, and the other one is as it was. -/
structure OverridesSettled (a : ChannelSend) (o : ChannelOutcomes) (w w' : World) : Prop where
  scope : a.overridesScope o = true →
    w'.radio.floodScope = a.scopeBaseline w.manager ∨ Reported .floodScope w w'
  scope_kept : a.overridesScope o = false → w'.radio.floodScope = w.radio.floodScope
  mode : a.overridesMode o w.manager = true →
    w'.radio.pathHashMode = w.manager.pathHashMode ∨ Reported .pathHashMode w w'
  mode_kept : a.overridesMode o w.manager = false → w'.radio.pathHashMode = w.radio.pathHashMode

/-- What the two restores leave. -/
def scopeRestored (a : ChannelSend) (o : ChannelOutcomes) (m : RadioManager) (w : World) : World :=
  if a.applyScope then
    restore (Radio.setFloodScope (a.scopeBaseline m)) id .floodScope
      ((List.range restoreAttempts).map o.restoreScope) w
  else w

def modeRestored (a : ChannelSend) (o : ChannelOutcomes) (m : RadioManager) (w : World) : World :=
  match a.pathHashModeTarget m with
  | some _ =>
    restore (Radio.setPathHashMode m.pathHashMode)
      (fun manager => { manager with pathHashMode := m.pathHashMode }) .pathHashMode
      ((List.range restoreAttempts).map o.restorePathHashMode) w
  | none => w

theorem restoreScopeOverride_eq (m : RadioManager)
    (w : World) : restoreScopeOverride a o m w = (.ok (), scopeRestored a o m w) := by
  unfold restoreScopeOverride scopeRestored
  split_ifs <;> rfl

theorem restorePathHashModeOverride_eq (m : RadioManager) (w : World) :
    restorePathHashModeOverride a o m w = (.ok (), modeRestored a o m w) := by
  unfold restorePathHashModeOverride modeRestored
  cases a.pathHashModeTarget m <;> rfl

theorem readSettings_eq (w : World) :
    readSettings a o w = (if a.goesOn o then .ok () else .error .other, w) := by
  unfold readSettings ChannelSend.goesOn
  cases a.applyScope with
  | false => rfl
  | true => cases o.settings <;> rfl

/-- The state after a send is the one after both restores. -/
theorem sendChannelMessage_state (w : World) : (sendChannelMessageWithEffectiveScope a o w).2 =
      if a.goesOn o then
        modeRestored a o w.manager (scopeRestored a o w.manager (applyAndSend a o w.manager w).2)
      else w := by
  show (Proc.bind (readSettings a o) (fun _ => _) w).2 = _
  unfold Proc.bind
  rw [readSettings_eq]
  cases a.goesOn o with
  | false => rfl
  | true =>
    show (after (applyAndSend a o w.manager w).1 (Proc.bind (restoreScopeOverride a o w.manager)
      (fun _ => restorePathHashModeOverride a o w.manager)
        (applyAndSend a o w.manager w).2)).2 = _
    unfold Proc.bind
    rw [restoreScopeOverride_eq]
    dsimp only
    rw [restorePathHashModeOverride_eq]
    rfl

section

variable (a : ChannelSend) (o : ChannelOutcomes) (m : RadioManager) (w : World)

theorem scope_modeRestored : (modeRestored a o m w).radio.floodScope = w.radio.floodScope := by
  unfold modeRestored
  cases a.pathHashModeTarget m with
  | none => rfl
  | some mode =>
    exact restore_frame (fun r => floodScope_setPathHashMode r _) _ w

theorem count_modeRestored :
    (modeRestored a o m w).notices.count .floodScope = w.notices.count .floodScope := by
  unfold modeRestored
  cases a.pathHashModeTarget m with
  | none => rfl
  | some mode => exact restore_count_of_ne (by decide) _ w

theorem mode_scopeRestored :
    (scopeRestored a o m w).radio.pathHashMode = w.radio.pathHashMode := by
  unfold scopeRestored
  split_ifs
  · exact restore_frame (fun r => pathHashMode_setFloodScope r _) _ w
  · rfl

theorem count_scopeRestored :
    (scopeRestored a o m w).notices.count .pathHashMode = w.notices.count .pathHashMode := by
  unfold scopeRestored
  split_ifs
  · exact restore_count_of_ne (by decide) _ w
  · rfl

end

/-- The scope after both restores. -/
theorem scope_settled_iff (w w₁ : World)
    (hscope : w₁.radio.floodScope = a.scopeBeforeRestore o w) (hnotices : w₁.notices = w.notices)
    (happly : a.applyScope = true) :
    ((modeRestored a o w.manager (scopeRestored a o w.manager w₁)).radio.floodScope =
        a.scopeBaseline w.manager ∨
      Reported .floodScope w (modeRestored a o w.manager (scopeRestored a o w.manager w₁))) ↔
    ¬ (a.scopeBeforeRestore o w ≠ a.scopeBaseline w.manager ∧
      lostSilently ((List.range restoreAttempts).map o.restoreScope) = true) := by
  have hone : ((scopeRestored a o w.manager w₁).radio.floodScope = a.scopeBaseline w.manager ∨
      Reported .floodScope w₁ (scopeRestored a o w.manager w₁)) ↔
        ¬ (w₁.radio.floodScope ≠ a.scopeBaseline w.manager ∧
          lostSilently ((List.range restoreAttempts).map o.restoreScope) = true) := by
    unfold scopeRestored
    rw [if_pos happly]
    exact restored_or_reported_iff (fun r => floodScope_setFloodScope r _) _ w₁
  unfold Reported at hone ⊢
  rw [scope_modeRestored, count_modeRestored, ← hnotices, ← hscope]
  exact hone

/-- The path hash mode after both restores. -/
theorem mode_settled_iff (w w₁ : World)
    (hmode : w₁.radio.pathHashMode = a.modeBeforeRestore o w) (hnotices : w₁.notices = w.notices)
    (htarget : (a.pathHashModeTarget w.manager).isSome = true) :
    ((modeRestored a o w.manager (scopeRestored a o w.manager w₁)).radio.pathHashMode =
        w.manager.pathHashMode ∨
      Reported .pathHashMode w
        (modeRestored a o w.manager (scopeRestored a o w.manager w₁))) ↔
    ¬ (a.modeBeforeRestore o w ≠ w.manager.pathHashMode ∧
      lostSilently ((List.range restoreAttempts).map o.restorePathHashMode) = true) := by
  have hframe := mode_scopeRestored a o w.manager w₁
  have hcount := count_scopeRestored a o w.manager w₁
  generalize scopeRestored a o w.manager w₁ = w₂ at hframe hcount ⊢
  have hone : ((modeRestored a o w.manager w₂).radio.pathHashMode = w.manager.pathHashMode ∨
      Reported .pathHashMode w₂ (modeRestored a o w.manager w₂)) ↔
        ¬ (w₂.radio.pathHashMode ≠ w.manager.pathHashMode ∧
          lostSilently ((List.range restoreAttempts).map o.restorePathHashMode) = true) := by
    unfold modeRestored
    obtain ⟨mode, hmode⟩ := Option.isSome_iff_exists.mp htarget
    rw [hmode]
    exact restored_or_reported_iff (fun r => pathHashMode_setPathHashMode r _) _ w₂
  unfold Reported at hone ⊢
  rw [hcount, hframe, hmode, hnotices] at hone
  exact hone

/-- **Overrides do not leak**, exactly when no setting that differs from its
baseline is lost to attempts without an answer. -/
theorem overrides_settled_iff (a : ChannelSend) (o : ChannelOutcomes) (w : World) :
    OverridesSettled a o w (sendChannelMessageWithEffectiveScope a o w).2 ↔
      ¬ a.leaksScope o w ∧ ¬ a.leaksMode o w := by
  rw [sendChannelMessage_state]
  unfold ChannelSend.leaksScope ChannelSend.leaksMode
  cases hgo : a.goesOn o with
  | false =>
    have hscope : a.overridesScope o = false := by rw [ChannelSend.overridesScope, hgo]; rfl
    have hmode : a.overridesMode o w.manager = false := by
      rw [ChannelSend.overridesMode, hgo]
      rfl
    rw [hscope, hmode]
    simp only [Bool.false_eq_true, false_and, not_false_eq_true, and_self, iff_true]
    refine ⟨?_, fun _ => rfl, ?_, fun _ => rfl⟩
    · rw [hscope]
      intro h
      cases h
    · rw [hmode]
      intro h
      cases h
  | true =>
    rw [if_pos rfl]
    have hlive : Live (a.scopeBeforeRestore o w) (a.modeBeforeRestore o w) w.notices
        (applyAndSend a o w.manager w).2 := (meets_applyAndSend a o w).state rfl
    generalize (applyAndSend a o w.manager w).2 = w₁ at hlive
    have hover : a.overridesScope o = a.applyScope := by
      rw [ChannelSend.overridesScope, hgo, Bool.true_and]
    have hoverMode : a.overridesMode o w.manager = (a.pathHashModeTarget w.manager).isSome := by
      rw [ChannelSend.overridesMode, hgo, Bool.true_and]
    have hscope := scope_settled_iff a o w w₁ hlive.scope hlive.notices
    have hmode := mode_settled_iff a o w w₁ hlive.mode hlive.notices
    rw [hover, hoverMode, not_and (a := a.applyScope = true), not_and (a := _ = true)]
    constructor
    · intro h
      refine ⟨fun happly => ?_, fun htarget => ?_⟩
      · exact (hscope happly).mp (h.scope (hover.trans happly))
      · exact (hmode htarget).mp (h.mode (hoverMode.trans htarget))
    · rintro ⟨hs, hm⟩
      refine ⟨?_, ?_, ?_, ?_⟩
      · intro happly
        rw [hover] at happly
        exact (hscope happly).mpr (hs happly)
      · intro happly
        rw [hover] at happly
        rw [scope_modeRestored, scopeRestored, if_neg (by simp [happly]), hlive.scope,
          ChannelSend.scopeBeforeRestore, happly]
        rfl
      · intro htarget
        rw [hoverMode] at htarget
        exact (hmode htarget).mpr (hm htarget)
      · intro htarget
        rw [hoverMode] at htarget
        have hnone : a.pathHashModeTarget w.manager = none :=
          Option.isNone_iff_eq_none.mp (Option.isSome_eq_false_iff.mp htarget)
        rw [modeRestored, hnone]
        show (scopeRestored a o w.manager w₁).radio.pathHashMode = _
        rw [mode_scopeRestored, hlive.mode, ChannelSend.modeBeforeRestore, hnone]

/-! ### A restore without an answer -/

/-- A send on a channel with a region of its own. -/
def regionalSend : ChannelSend where
  channelKey := "AB"
  keyBytes := [0xAB]
  tempRadioSlot := 0
  floodScopeOverride := some "Esperance"
  pathHashModeOverride := none
  scopeArgument := none
  sessionRegion := none
  savedFloodScope := none

/-- Everything is answered OK until the first restore, which is lost. -/
def lostRestore : ChannelOutcomes where
  settings := .done
  applyScope := ⟨.ok, true⟩
  applyPathHashMode := ⟨.ok, true⟩
  setChannel := ⟨.ok, true⟩
  send := .ok
  restoreScope := fun _ => ⟨.silent, false⟩
  restorePathHashMode := fun _ => ⟨.ok, true⟩

/-- A radio without a region, on a serial line. -/
def unscopedWorld : World where
  radio := { floodScope := .unscoped, pathHashMode := 0, slots := .empty }
  manager := {
    connectionInfo := some "Serial: /dev/ttyUSB0"
    connectionType := "serial"
    forceChannelSlotReconfigure := false
    maxChannels := some 40
    firmwareVerCode := some 12
    pathHashMode := 0
    pathHashModeSupported := true
    slotByKey := .empty
    keyBySlot := .empty }

/-- The radio keeps the region of the channel and nobody is told. -/
theorem not_forall_overrides_settled :
    ¬ ∀ (a : ChannelSend) (o : ChannelOutcomes) (w : World),
      OverridesSettled a o w (sendChannelMessageWithEffectiveScope a o w).2 := by
  intro hall
  have hover : regionalSend.overridesScope lostRestore = true := by decide +kernel
  have hleft : (sendChannelMessageWithEffectiveScope regionalSend lostRestore
      unscopedWorld).2.radio.floodScope ≠ regionalSend.scopeBaseline unscopedWorld.manager := by
    decide +kernel
  have hquiet : (sendChannelMessageWithEffectiveScope regionalSend lostRestore
      unscopedWorld).2.notices = [] := by
    decide +kernel
  rcases (hall regionalSend lostRestore unscopedWorld).scope hover with h | h
  · exact hleft h
  · rw [Reported, hquiet] at h
    exact absurd h (Nat.not_lt_zero _)

end RtfmEv.MessageSend
