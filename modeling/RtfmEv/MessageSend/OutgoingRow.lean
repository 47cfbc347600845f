import RtfmEv.MessageSend.ScopeRestore

/-!
# The row of an outgoing message

A message that the radio took, or did not answer for, keeps its row. The row is
deleted when the send command was never issued or was refused. It is also deleted
when the send command raised.
-/

namespace RtfmEv.MessageSend

open RtfmEv.Lib RtfmEv.Lib.Proc

/-! ### What does not touch the row -/

/-- A condition on the send commands, the row and the message only. -/
def AboutRow (P : World → Prop) : Prop :=
  ∀ w w', w'.sends = w.sends → w'.row = w.row → w'.message = w.message → P w → P w'

/-- The send commands, the row and the message. -/
structure RowIs (sends : List SendCommand) (row : Option SendStatus) (message : Bool)
    (w : World) : Prop where
  sends : w.sends = sends
  row : w.row = row
  message : w.message = message

theorem aboutRow_rowIs (sends : List SendCommand) (row : Option SendStatus) (message : Bool) :
    AboutRow (RowIs sends row message) := by
  intro w w' hsends hrow hmessage h
  exact ⟨hsends.trans h.sends, hrow.trans h.row, hmessage.trans h.message⟩

section Frame

variable {P : World → Prop} (hP : AboutRow P) (effect : Radio → Radio)

theorem AboutRow.exists {α : Type} {P : α → World → Prop} (h : ∀ a, AboutRow (P a)) :
    AboutRow (fun w => ∃ a, P a w) := by
  rintro w w' hsends hrow hmessage ⟨a, ha⟩
  exact ⟨a, h a w w' hsends hrow hmessage ha⟩

theorem AboutRow.and {Q : World → Prop} (hP : AboutRow P) (hQ : AboutRow Q) :
    AboutRow (fun w => P w ∧ Q w) := by
  rintro w w' hsends hrow hmessage ⟨hp, hq⟩
  exact ⟨hP w w' hsends hrow hmessage hp, hQ w w' hsends hrow hmessage hq⟩

theorem AboutRow.or {Q : World → Prop} (hP : AboutRow P) (hQ : AboutRow Q) :
    AboutRow (fun w => P w ∨ Q w) := by
  rintro w w' hsends hrow hmessage (hp | hq)
  · exact Or.inl (hP w w' hsends hrow hmessage hp)
  · exact Or.inr (hQ w w' hsends hrow hmessage hq)

theorem aboutRow_const (p : Prop) : AboutRow (fun _ => p) := fun _ _ _ _ _ h => h

theorem keeps_step (o : Step) : Keeps P (step o) := by
  cases o with
  | done => exact keeps_pure ()
  | raised => exact keeps_raise _

include hP

theorem AboutRow.command (takes : Bool) (reply : Reply) :
    Keeps P (command effect takes reply) := by
  apply keeps_command
  intro w hw
  exact hP w _ rfl rfl rfl hw

theorem AboutRow.updateManager (f : RadioManager → RadioManager) : Keeps P (updateManager f) := by
  apply keeps_update
  intro w hw
  exact hP w _ rfl rfl rfl hw

theorem AboutRow.applyOverride (rejected : Detail)
    (c : CommandOutcome) : Keeps P (applyOverride effect rejected c) := by
  unfold MessageSend.applyOverride
  apply keeps_bind (hP.command effect c.takes c.reply)
  intro reply
  split_ifs
  · exact keeps_raise _
  · exact keeps_pure ()

theorem AboutRow.invalidateEvicted (evicted : Option String) :
    Keeps P (invalidateEvicted evicted) := by
  cases evicted with
  | none => exact keeps_pure ()
  | some key => exact hP.updateManager _

theorem AboutRow.loadChannelSlot (a : ChannelSend) (c : CommandOutcome) :
    Keeps P (loadChannelSlot a c) := by
  unfold MessageSend.loadChannelSlot
  apply keeps_bind (keeps_ask _)
  intro plan
  split_ifs
  · apply keeps_bind
    · apply keeps_handle (hP.command _ _ _)
      intro e
      exact keeps_bind (hP.invalidateEvicted _) (fun _ => keeps_raise e)
    · intro reply
      cases reply with
      | ok => exact keeps_bind (hP.updateManager _) (fun _ => keeps_pure _)
      | error => exact keeps_bind (hP.invalidateEvicted _) (fun _ => keeps_raise _)
      | silent => exact keeps_raise _
      | raised => exact keeps_raise _
  · exact keeps_pure _

theorem AboutRow.restore (restored : RadioManager → RadioManager)
    (notice : RestoreNotice) (attempts : List CommandOutcome) {w : World} (hw : P w) :
    P (restore effect restored notice attempts w) := by
  induction attempts generalizing w with
  | nil => exact hP w _ rfl rfl rfl hw
  | cons c rest ih =>
    have hone : P (if c.takes then { w with radio := effect w.radio } else w : World) := by
      split_ifs
      · exact hP w _ rfl rfl rfl hw
      · exact hw
    unfold MessageSend.restore
    dsimp only
    generalize (if c.takes then { w with radio := effect w.radio } else w : World) = w' at hone ⊢
    cases c.reply with
    | ok => exact hP w' _ rfl rfl rfl hone
    | silent => exact hP w' _ rfl rfl rfl hone
    | error => exact ih hone
    | raised => exact ih hone

/-- The restores of a channel send do not raise. -/
theorem AboutRow.restores (a : ChannelSend) (o : ChannelOutcomes) (m : RadioManager) :
    Meets P (do
        restoreScopeOverride a o m
        restorePathHashModeOverride a o m)
      (fun _ => P) (fun _ _ => False) := by
  apply meets_bind (Q := fun _ => P)
  · intro w hw
    rw [restoreScopeOverride_eq]
    unfold scopeRestored
    split_ifs
    · exact hP.restore _ _ _ _ hw
    · exact hw
  · intro _ w hw
    rw [restorePathHashModeOverride_eq]
    unfold modeRestored
    cases a.pathHashModeTarget m with
    | none => exact hw
    | some mode => exact hP.restore _ _ _ _ hw

end Frame

/-! ### One send command -/

/-- A send that went to the radio and returned the reply. -/
def Answered (row : Option SendStatus) (message : Bool) (reply : Reply) (w : World) : Prop :=
  ∃ c : SendCommand, c.reply = reply ∧ reply ≠ .raised ∧ RowIs [c] row message w

/-- How a send ends that raises: the command was not issued, was not answered, or
raised itself. -/
def Unanswered (row : Option SendStatus) (message : Bool) (e : SendError) (w : World) : Prop :=
  RowIs [] row message w ∨
    ∃ c : SendCommand, RowIs [c] row message w ∧
      (c.reply = .silent ∧ isUnknownSendOutcome e = true ∨
        c.reply = .raised ∧ isUnknownSendOutcome e = false)

section Send

variable {row : Option SendStatus} {message : Bool}

theorem aboutRow_answered (reply : Reply) : AboutRow (Answered row message reply) :=
  AboutRow.exists fun _ => (aboutRow_const _).and ((aboutRow_const _).and (aboutRow_rowIs _ _ _))

theorem aboutRow_unanswered (e : SendError) : AboutRow (Unanswered row message e) :=
  (aboutRow_rowIs _ _ _).or
    (AboutRow.exists fun _ => (aboutRow_rowIs _ _ _).and (aboutRow_const _))

theorem meets_sendMsg (reply : Reply) :
    Meets (RowIs [] row message) (sendMsg reply) (Answered row message)
      (Unanswered row message) := by
  unfold sendMsg
  apply meets_bind (Q := fun _ => RowIs [⟨reply, none⟩] row message)
  · apply meets_update
    intro w hw
    refine ⟨?_, hw.row, hw.message⟩
    show w.sends ++ _ = _
    rw [hw.sends]
    rfl
  intro _
  cases reply with
  | raised => exact meets_raise fun w hw => Or.inr ⟨_, hw, Or.inr ⟨rfl, rfl⟩⟩
  | ok | error | silent => exact meets_pure fun w hw => ⟨_, rfl, by simp, hw⟩

theorem meets_sendOnChannelSlot (a : ChannelSend) (reply : Reply) (slot : ℕ) :
    Meets (RowIs [] row message) (sendOnSlot a reply slot) (Answered row message)
      (Unanswered row message) := by
  unfold sendOnSlot
  apply meets_bind (Q := fun _ w => ∃ c : SendCommand, c.reply = reply ∧ RowIs [c] row message w)
  · apply meets_update
    intro w hw
    refine ⟨⟨reply, some (a.keyBytes, w.radio.slots.get slot)⟩, rfl, ?_, hw.row, hw.message⟩
    show w.sends ++ _ = _
    rw [hw.sends]
    rfl
  intro _
  have hkeep : ∀ f, reply ≠ .raised → Meets
      (fun w => ∃ c : SendCommand, c.reply = reply ∧ RowIs [c] row message w) (updateManager f)
      (fun _ => Answered row message reply) (Unanswered row message) := by
    intro f hne
    apply meets_update
    rintro w ⟨c, hc, hw⟩
    exact ⟨c, hc, hne, hw.sends, hw.row, hw.message⟩
  cases reply with
  | raised => exact meets_raise fun w ⟨c, hc, hw⟩ => Or.inr ⟨c, hw, Or.inr ⟨hc, rfl⟩⟩
  | silent => exact meets_raise fun w ⟨c, hc, hw⟩ => Or.inr ⟨c, hw, Or.inl ⟨hc, rfl⟩⟩
  | error | ok => exact meets_bind (hkeep _ (by simp)) fun _ => meets_pure fun _ hw => hw

/-- A step before the send command that raises leaves it unissued. -/
theorem unissued_of_keeps {α : Type} {x : SendM α} (h : Keeps (RowIs [] row message) x) :
    Meets (RowIs [] row message) x (fun _ => RowIs [] row message) (Unanswered row message) :=
  h.mono (fun _ hw => hw) (fun _ _ hw => hw) (fun _ _ hw => Or.inl hw)

/-- **A send on a channel.** It returns the reply to the send command, or raises
as that command ended. -/
theorem meets_sendChannelMessage (a : ChannelSend) (o : ChannelOutcomes) :
    Meets (RowIs [] row message) (sendChannelMessageWithEffectiveScope a o)
      (Answered row message) (Unanswered row message) := by
  have hP := aboutRow_rowIs [] row message
  unfold sendChannelMessageWithEffectiveScope
  apply meets_bind (Q := fun _ => RowIs [] row message)
  · apply unissued_of_keeps
    unfold readSettings
    split_ifs
    · exact keeps_step _
    · exact keeps_pure ()
  intro _
  apply meets_bind (unissued_of_keeps (keeps_ask _))
  intro m
  apply meets_ensuring (Q := Answered row message) (E := Unanswered row message)
  · unfold applyAndSend
    apply meets_bind (Q := fun _ => RowIs [] row message)
    · apply unissued_of_keeps
      unfold applyScopeOverride
      split_ifs
      · exact hP.applyOverride _ _ _
      · exact keeps_pure ()
    intro _
    apply meets_bind (Q := fun _ => RowIs [] row message)
    · apply unissued_of_keeps
      unfold applyPathHashModeOverride
      cases a.pathHashModeTarget m with
      | none => exact keeps_pure ()
      | some mode => exact hP.applyOverride _ _ _
    intro _
    apply meets_bind (unissued_of_keeps (hP.loadChannelSlot a o.setChannel))
    intro slot
    exact meets_sendOnChannelSlot a o.send slot
  · intro reply
    exact ((aboutRow_answered reply).restores a o m).mono (fun _ hw => hw) (fun _ _ hw => hw)
      (fun _ _ hw => hw.elim)
  · intro e
    exact ((aboutRow_unanswered e).restores a o m).mono (fun _ hw => hw) (fun _ _ hw => hw)
      (fun _ _ hw => hw.elim)

/-- A flood scope around a send. -/
theorem meets_temporaryFloodScope {body : SendM Reply}
    (hbody : Meets (RowIs [] row message) body (Answered row message) (Unanswered row message))
    (override sessionRegion savedFloodScope : Option String) (reported : Bool)
    (o : ScopeOutcomes) :
    Meets (RowIs [] row message)
      (temporaryFloodScope override sessionRegion savedFloodScope reported o body)
      (Answered row message) (Unanswered row message) := by
  have hrestore : ∀ (P : World → Prop), AboutRow P → ∀ baseline,
      Meets P (restoreReported reported baseline o.restoreScope) (fun _ => P)
        (fun _ _ => False) := by
    intro P hP baseline
    apply meets_update
    intro w hw
    have hrestored := hP.restore (Radio.setFloodScope baseline) id .floodScope
      ((List.range restoreAttempts).map o.restoreScope) hw
    dsimp only
    generalize restore (Radio.setFloodScope baseline) id .floodScope
      ((List.range restoreAttempts).map o.restoreScope) w = w' at hrestored ⊢
    split_ifs
    · exact hrestored
    · exact hP w' _ rfl rfl rfl hrestored
  unfold temporaryFloodScope
  split_ifs
  · apply meets_bind (unissued_of_keeps (keeps_step _))
    intro _
    apply meets_bind (unissued_of_keeps (keeps_ask _))
    intro fwVer
    apply meets_ensuring (Q := Answered row message) (E := Unanswered row message)
    · apply meets_bind (Q := fun _ => RowIs [] row message)
      · exact unissued_of_keeps ((aboutRow_rowIs _ _ _).applyOverride _ _ _)
      · intro _
        exact hbody
    · intro reply
      exact (hrestore _ (aboutRow_answered reply) _).mono (fun _ hw => hw) (fun _ _ hw => hw)
        (fun _ _ hw => hw.elim)
    · intro e
      exact (hrestore _ (aboutRow_unanswered e) _).mono (fun _ hw => hw) (fun _ _ hw => hw)
        (fun _ _ hw => hw.elim)
  · exact hbody

end Send

/-! ### Settling the row -/

/-- The row after a send, by the reply to its command. `accepted` says that the
steps after an accepted send returned. -/
structure RowSettled (o : RowOutcomes) (accepted : Prop) (w : World) : Prop where
  /-- An accepted message is confirmed. -/
  accepted : accepted → ∀ c ∈ w.sends, c.reply = .ok → w.row = some .confirmed
  /-- A message that was not answered for keeps its row. -/
  unanswered : ∀ c ∈ w.sends, c.reply = .silent → w.row = some .unknown ∨ w.row = some .pending
  /-- A command that raised leaves no row behind. -/
  raised : o.delete = .done → ∀ c ∈ w.sends, c.reply = .raised → w.row = none

/-- How the `try` block ends when it raises. -/
def BodyFailed (accepted : Prop) (e : SendError) (w : World) : Prop :=
  w.sends = [] ∨
    ∃ c : SendCommand, w.sends = [c] ∧ w.message = true ∧
      (c.reply = .error ∨
        (c.reply = .silent ∧ isUnknownSendOutcome e = true ∧ w.row = some .pending) ∨
        (c.reply = .raised ∧ isUnknownSendOutcome e = false) ∨
        (c.reply = .ok ∧ ¬ accepted))

/-- The accepted message when the `try` block returns. -/
def BodyDone (row : SendStatus) (w : World) : Prop :=
  ∃ c : SendCommand, c.reply = .ok ∧ RowIs [c] (some row) true w

section Settle

variable {o : RowOutcomes} {accepted : Prop} {w : World} {unknown : SendM Unit} {e : SendError}

theorem RowSettled.of_unsent (h : w.sends = []) : RowSettled o accepted w := by
  have hno : ∀ c, c ∉ w.sends := by
    intro c hc
    rw [h] at hc
    cases hc
  exact ⟨fun _ c hc => absurd hc (hno c), fun c hc => absurd hc (hno c),
    fun _ c hc => absurd hc (hno c)⟩

theorem RowSettled.of_sent {c : SendCommand} (h : w.sends = [c])
    (hok : accepted → c.reply = .ok → w.row = some .confirmed)
    (hsilent : c.reply = .silent → w.row = some .unknown ∨ w.row = some .pending)
    (hraised : o.delete = .done → c.reply = .raised → w.row = none) :
    RowSettled o accepted w := by
  have hone : ∀ c', c' ∈ w.sends → c' = c := by
    intro c' hc'
    rw [h] at hc'
    exact List.mem_singleton.mp hc'
  refine ⟨?_, ?_, ?_⟩
  · intro hacc c' hc' hreply
    rw [hone c' hc'] at hreply
    exact hok hacc hreply
  · intro c' hc' hreply
    rw [hone c' hc'] at hreply
    exact hsilent hreply
  · intro hdel c' hc' hreply
    rw [hone c' hc'] at hreply
    exact hraised hdel hreply

theorem meets_write {P Q : World → Prop} {E : SendError → World → Prop} (effect : World → World)
    (o : Write) (hdone : ∀ w, P w → o = .done → Q (effect w))
    (happlied : ∀ w, P w → o ≠ .done → E .other (effect w))
    (hlost : ∀ w, P w → o ≠ .done → E .other w) :
    Meets P (write effect o) (fun _ => Q) E := by
  cases o with
  | done => exact meets_update fun w hw => hdone w hw rfl
  | raised applied =>
    apply meets_bind (Q := fun _ => E .other)
    · apply meets_update
      intro w hw
      split_ifs
      · exact happlied w hw (by simp)
      · exact hlost w hw (by simp)
    · intro _
      exact meets_raise fun _ hw => hw

/-- A program that only marks the row as unknown. -/
def MarksUnknown (x : SendM Unit) : Prop :=
  ∀ P : World → Prop, (∀ w, P w → P { w with row := w.row.map (fun _ => .unknown) }) → Keeps P x

theorem marksUnknown_updateSendStatus (o : Write) :
    MarksUnknown (updateSendStatus .unknown o) := by
  intro P hP
  apply meets_write
  · intro w hw _
    exact hP w hw
  · intro w hw _
    exact hP w hw
  · intro w hw _
    exact hw

theorem marksUnknown_direct (o : DirectOutcomes) : MarksUnknown (directUnknown o) := by
  intro P hP
  apply keeps_bind (marksUnknown_updateSendStatus _ P hP)
  intro _
  exact keeps_bind (keeps_step _) fun _ => keeps_step _

theorem marksUnknown_channel (o : ChannelMessageOutcomes) : MarksUnknown (channelUnknown o) := by
  intro P hP
  apply keeps_bind (marksUnknown_updateSendStatus _ P hP)
  intro _
  exact keeps_bind (keeps_step _) fun _ => keeps_step _

/-- The row of a send that was not answered for is kept. -/
theorem meets_unknown (hunknown : MarksUnknown unknown)
    (he : isUnknownSendOutcome e = true) :
    Meets (BodyFailed accepted e) unknown (fun _ => RowSettled o accepted)
      (fun _ => RowSettled o accepted) := by
  have hkeep := hunknown
    (fun w => w.sends = [] ∨ ∃ c : SendCommand, w.sends = [c] ∧ c.reply ≠ .raised ∧
      (c.reply = .ok → ¬ accepted) ∧
      (c.reply = .silent → w.row = some .unknown ∨ w.row = some .pending)) ?_
  · have hend : ∀ w : World, (w.sends = [] ∨ ∃ c : SendCommand, w.sends = [c] ∧
        c.reply ≠ .raised ∧ (c.reply = .ok → ¬ accepted) ∧
        (c.reply = .silent → w.row = some .unknown ∨ w.row = some .pending)) →
        RowSettled o accepted w := by
      rintro w (hw | ⟨c, hw, hraised, hok, hsilent⟩)
      · exact RowSettled.of_unsent hw
      · exact RowSettled.of_sent hw (fun hacc hc => absurd hacc (hok hc)) hsilent
          (fun _ hc => absurd hc hraised)
    refine hkeep.mono ?_ (fun _ => hend) (fun _ => hend)
    rintro w (hw | ⟨c, hw, _, hc⟩)
    · exact Or.inl hw
    · refine Or.inr ⟨c, hw, ?_⟩
      rcases hc with hc | ⟨hc, _, hrow⟩ | ⟨hc, hne⟩ | ⟨hc, hacc⟩
      · simp [hc]
      · simp [hc, hrow]
      · rw [he] at hne
        cases hne
      · simp [hc, hacc]
  · rintro w (hw | ⟨c, hw, hraised, hok, hsilent⟩)
    · exact Or.inl hw
    · refine Or.inr ⟨c, hw, hraised, hok, fun hc => Or.inl ?_⟩
      show w.row.map _ = _
      rcases hsilent hc with hrow | hrow
      · rw [hrow]
        rfl
      · rw [hrow]
        rfl

theorem meets_deleteById (he : isUnknownSendOutcome e = false) :
    Meets (BodyFailed accepted e) (deleteById o.delete) (fun _ => RowSettled o accepted)
      (fun _ => RowSettled o accepted) := by
  have hend : ∀ w w' : World, BodyFailed accepted e w → w'.sends = w.sends →
      (o.delete = .done → w'.row = none) → RowSettled o accepted w' := by
    rintro w w' (hw | ⟨c, hw, _, hc⟩) hsends hrow
    · exact RowSettled.of_unsent (hsends.trans hw)
    · apply RowSettled.of_sent (hsends.trans hw)
      · intro hacc hok
        rcases hc with hc | ⟨hc, _⟩ | ⟨hc, _⟩ | ⟨_, hne⟩
        · simp [hc] at hok
        · simp [hc] at hok
        · simp [hc] at hok
        · exact absurd hacc hne
      · intro hsilent
        rcases hc with hc | ⟨_, hunknown, _⟩ | ⟨hc, _⟩ | ⟨hc, _⟩
        · simp [hc] at hsilent
        · rw [he] at hunknown
          cases hunknown
        · simp [hc] at hsilent
        · simp [hc] at hsilent
      · intro hdel _
        exact hrow hdel
  unfold deleteById
  apply meets_bind (Q := fun _ => RowSettled o accepted)
  · apply meets_write
    · intro w hw _
      exact hend w _ hw rfl fun _ => rfl
    · intro w hw hne
      exact hend w _ hw rfl fun hdone => absurd hdone hne
    · intro w hw hne
      exact hend w _ hw rfl fun hdone => absurd hdone hne
  · intro _
    apply meets_update
    intro w hw
    exact ⟨hw.accepted, hw.unanswered, hw.raised⟩

/-- **Settling.** The handlers leave the row as the send command ended. -/
theorem meets_settleRow (hunknown : MarksUnknown unknown)
    (e : SendError) :
    Meets (BodyFailed accepted e) (settleRow o unknown e) (fun _ => RowSettled o accepted)
      (fun _ => RowSettled o accepted) := by
  unfold settleRow
  apply meets_bind (Q := fun message w => message = w.message ∧ BodyFailed accepted e w)
  · apply meets_ask
    intro w hw
    exact ⟨rfl, hw⟩
  intro message
  split_ifs with hkept hstored
  · have he : isUnknownSendOutcome e = true := by
      rw [Bool.and_eq_true] at hkept
      exact hkept.2
    exact (meets_unknown hunknown he).mono (fun _ hw => hw.2) (fun _ _ hw => hw)
      (fun _ _ hw => hw)
  · have he : isUnknownSendOutcome e = false := by
      rw [hstored, Bool.true_and, Bool.not_eq_true] at hkept
      exact hkept
    exact (meets_deleteById he).mono (fun _ hw => hw.2) (fun _ _ hw => hw) (fun _ _ hw => hw)
  · apply meets_pure
    rintro w ⟨hmessage, hw | ⟨c, _, htrue, _⟩⟩
    · exact RowSettled.of_unsent hw
    · exact absurd (hmessage.trans htrue) hstored

/-- The `try` of the three functions settles the row. -/
theorem meets_withStoredRow {P : World → Prop} {body : SendM Unit}
    (hunknown : MarksUnknown unknown)
    (hbody : Meets P body (fun _ => BodyDone .confirmed) (BodyFailed accepted)) :
    Meets P (withStoredRow o unknown body) (fun _ => RowSettled o accepted)
      (fun _ => RowSettled o accepted) := by
  have hrelease : Keeps (RowSettled o accepted) (releaseOutgoingSenderTimestamp o) := by
    apply keeps_bind (keeps_ask _)
    intro timestamp
    split_ifs
    · exact keeps_step _
    · exact keeps_pure ()
  apply meets_ensuring _ (fun _ => hrelease) (fun _ => hrelease)
  apply meets_handle (E := BodyFailed accepted)
  · refine hbody.mono (fun _ hw => hw) ?_ (fun _ _ hw => hw)
    rintro _ w ⟨c, hc, hw⟩
    apply RowSettled.of_sent hw.sends
    · intro _ _
      exact hw.row
    · intro hsilent
      simp [hc] at hsilent
    · intro _ hraised
      simp [hc] at hraised
  · intro e
    exact meets_bind (meets_settleRow hunknown e) fun _ => keeps_raise (α := Unit) e

/-! ### The bodies of the three functions -/

/-- Before the row is stored. -/
abbrev Unstored : World → Prop := RowIs [] none false

theorem Unanswered.bodyFailed
    (h : Unanswered (some .pending) true e w) : BodyFailed accepted e w := by
  rcases h with hw | ⟨c, hw, hc⟩
  · exact Or.inl hw.sends
  · refine Or.inr ⟨c, hw.sends, hw.message, ?_⟩
    rcases hc with ⟨hc, he⟩ | hc
    · exact Or.inr (Or.inl ⟨hc, he, hw.row⟩)
    · exact Or.inr (Or.inr (Or.inl hc))

theorem unstored_of_keeps {α : Type} {x : SendM α} (h : Keeps Unstored x) :
    Meets Unstored x (fun _ => Unstored) (BodyFailed accepted) :=
  h.mono (fun _ hw => hw) (fun _ _ hw => hw) (fun _ _ hw => Or.inl hw.sends)

theorem unstored_requireText (text : String) (name : Option String) :
    Keeps Unstored (requireTextFitsRadio text name) := by
  unfold requireTextFitsRadio
  dsimp only
  split_ifs
  · exact keeps_raise _
  · exact keeps_pure ()

theorem unstored_allocate (o : Step) : Keeps Unstored (allocateOutgoingSenderTimestamp o) := by
  apply keeps_bind (keeps_step o)
  intro _
  apply keeps_update
  intro w hw
  exact ⟨hw.sends, hw.row, hw.message⟩

theorem meets_createOutgoing (o : Create) :
    Meets Unstored (createOutgoing o) (fun _ => RowIs [] (some .pending) true)
      (BodyFailed accepted) := by
  cases o with
  | stored =>
    apply meets_update
    intro w hw
    exact ⟨hw.sends, rfl, rfl⟩
  | duplicate => exact meets_raise fun w hw => Or.inl hw.sends
  | raised stored =>
    apply meets_bind (Q := fun _ w => w.sends = [])
    · apply meets_update
      intro w hw
      split_ifs
      · exact hw.sends
      · exact hw.sends
    · intro _
      exact meets_raise fun w hw => Or.inl hw

/-- Only an accepted message goes on. -/
theorem meets_acceptReply (reply : Reply) :
    Meets (Answered (some .pending) true reply) (acceptReply reply)
      (fun _ => BodyDone .pending) (BodyFailed accepted) := by
  cases reply with
  | ok => exact meets_pure fun w ⟨c, hc, _, hw⟩ => ⟨c, hc, hw⟩
  | error =>
    exact meets_raise fun w ⟨c, hc, _, hw⟩ => Or.inr ⟨c, hw.sends, hw.message, Or.inl hc⟩
  | silent =>
    exact meets_raise fun w ⟨c, hc, _, hw⟩ =>
      Or.inr ⟨c, hw.sends, hw.message, Or.inr (Or.inl ⟨hc, rfl, hw.row⟩)⟩
  | raised => exact meets_pure fun w ⟨c, _, hne, _⟩ => absurd rfl hne

theorem BodyDone.failed {row : SendStatus} (h : BodyDone row w)
    (hne : ¬ accepted) : BodyFailed accepted e w := by
  obtain ⟨c, hc, hw⟩ := h
  exact Or.inr ⟨c, hw.sends, hw.message, Or.inr (Or.inr (Or.inr ⟨hc, hne⟩))⟩

theorem meets_confirm (hconfirm : accepted → o.confirm = .done) :
    Meets (BodyDone .pending) (updateSendStatus .confirmed o.confirm)
      (fun _ => BodyDone .confirmed) (BodyFailed accepted) := by
  have hmark : ∀ w, BodyDone .pending w →
      BodyDone .confirmed { w with row := w.row.map (fun _ => .confirmed) } := by
    rintro w ⟨c, hc, hw⟩
    refine ⟨c, hc, hw.sends, ?_, hw.message⟩
    show w.row.map _ = _
    rw [hw.row]
    rfl
  apply meets_write
  · intro w hw _
    exact hmark w hw
  · intro w hw hne
    exact (hmark w hw).failed fun hacc => hne (hconfirm hacc)
  · intro w hw hne
    exact hw.failed fun hacc => hne (hconfirm hacc)

theorem rowSettled_requireStored : Keeps (RowSettled o accepted) requireStored := by
  apply keeps_bind (keeps_ask _)
  intro stored
  split_ifs
  · exact keeps_pure ()
  · exact keeps_raise _

end Settle

/-- A direct message is accepted when its status is written and broadcast. -/
def DirectOutcomes.accepted (o : DirectOutcomes) : Prop :=
  o.row.confirm = .done ∧ o.broadcast = .done

theorem meets_directBody (a : DirectSend) (o : DirectOutcomes) :
    Meets Unstored (directBody a o) (fun _ => BodyDone .confirmed) (BodyFailed o.accepted) := by
  unfold directBody
  apply meets_bind (Q := Answered (some .pending) true)
  · unfold sendDirectMessage
    apply meets_bind (unstored_of_keeps (keeps_step _))
    intro _
    apply meets_bind (unstored_of_keeps (keeps_step _))
    intro _
    apply meets_bind (Q := fun _ => Unstored)
    · apply unstored_of_keeps
      unfold addContact
      split_ifs
      · exact keeps_pure ()
      · cases o.addContact with
        | ok => exact keeps_pure ()
        | error => exact keeps_pure ()
        | silent => exact keeps_raise _
        | raised => exact keeps_raise _
    intro _
    apply meets_bind (unstored_of_keeps (unstored_allocate _))
    intro _
    apply meets_bind (meets_createOutgoing _)
    intro _
    exact (meets_temporaryFloodScope (meets_sendMsg o.send) _ _ _ _ _).mono (fun _ hw => hw)
      (fun _ _ hw => hw) (fun _ _ hw => hw.bodyFailed)
  intro reply
  apply meets_bind (meets_acceptReply reply)
  intro _
  apply meets_bind (meets_confirm (fun hacc => hacc.1))
  intro _
  cases hbroadcast : o.broadcast with
  | done => exact meets_pure fun _ hw => hw
  | raised =>
    apply meets_raise
    intro w hw
    apply hw.failed
    rintro ⟨_, hdone⟩
    rw [hbroadcast] at hdone
    cases hdone

/-- A channel message is accepted when its status is written. -/
def ChannelMessageOutcomes.accepted (o : ChannelMessageOutcomes) : Prop :=
  o.row.confirm = .done

theorem meets_sendAndConfirm (a : ChannelSend) (o : ChannelMessageOutcomes) :
    Meets (RowIs [] (some .pending) true)
      (do
        let result ← sendChannelMessageWithEffectiveScope a o.channel
        acceptReply result
        updateSendStatus .confirmed o.row.confirm)
      (fun _ => BodyDone .confirmed) (BodyFailed o.accepted) := by
  apply meets_bind (Q := Answered (some .pending) true)
  · exact (meets_sendChannelMessage a o.channel).mono (fun _ hw => hw) (fun _ _ hw => hw)
      (fun _ _ hw => hw.bodyFailed)
  intro reply
  apply meets_bind (meets_acceptReply reply)
  intro _
  exact meets_confirm (fun hacc => hacc)

variable (a : ChannelMessage) (o : ChannelMessageOutcomes)

theorem meets_channelBody :
    Meets Unstored (channelBody a o) (fun _ => BodyDone .confirmed) (BodyFailed o.accepted) := by
  unfold channelBody
  apply meets_bind (unstored_of_keeps (keeps_step _))
  intro _
  apply meets_bind (unstored_of_keeps (keeps_step _))
  intro _
  apply meets_bind (unstored_of_keeps (unstored_requireText _ _))
  intro _
  apply meets_bind (unstored_of_keeps (unstored_allocate _))
  intro _
  apply meets_bind (meets_createOutgoing _)
  intro _
  exact meets_sendAndConfirm a.channel o

theorem meets_resendBody (channel : ChannelSend) (o : ChannelMessageOutcomes) :
    Meets Unstored (resendBody channel true o) (fun _ => BodyDone .confirmed)
      (BodyFailed o.accepted) := by
  unfold resendBody
  apply meets_bind (unstored_of_keeps (keeps_step _))
  intro _
  apply meets_bind (unstored_of_keeps (keeps_step _))
  intro _
  apply meets_bind (Q := fun _ => RowIs [] (some .pending) true)
  · show Meets Unstored (do
        update (fun w => { w with timestamp := true })
        step o.row.timestamp
        createOutgoing o.row.create) _ _
    apply meets_bind (Q := fun _ => Unstored)
    · apply meets_update
      intro w hw
      exact ⟨hw.sends, hw.row, hw.message⟩
    intro _
    apply meets_bind (unstored_of_keeps (keeps_step _))
    intro _
    exact meets_createOutgoing _
  intro _
  exact meets_sendAndConfirm channel o

/-! ### The three functions -/

theorem settled_direct (a : DirectSend) (o : DirectOutcomes) :
    Meets Unstored (sendDirectMessageToContact a o) (fun _ => RowSettled o.row o.accepted)
      (fun _ => RowSettled o.row o.accepted) := by
  have hstart : ∀ {x : SendM Unit}, Keeps Unstored x →
      Meets Unstored x (fun _ => Unstored) (fun _ => RowSettled o.row o.accepted) := fun h =>
    h.mono (fun _ hw => hw) (fun _ _ hw => hw) (fun _ _ hw => RowSettled.of_unsent hw.sends)
  unfold sendDirectMessageToContact
  apply meets_bind (hstart (unstored_requireText _ _))
  intro _
  apply meets_bind (Q := fun _ => Unstored)
  · apply hstart
    unfold ensureContactSettings
    split_ifs
    · exact keeps_pure ()
    · exact keeps_step _
  intro _
  apply meets_bind (meets_withStoredRow (marksUnknown_direct o) (meets_directBody a o))
  intro _
  apply keeps_bind rowSettled_requireStored
  intro _
  apply keeps_bind (keeps_step _)
  intro _
  exact keeps_bind (keeps_step _) fun _ => keeps_step _

theorem settled_channel :
    Meets Unstored (sendChannelMessageToChannel a o) (fun _ => RowSettled o.row o.accepted)
      (fun _ => RowSettled o.row o.accepted) := by
  unfold sendChannelMessageToChannel
  apply meets_bind (meets_withStoredRow (marksUnknown_channel o) (meets_channelBody a o))
  intro _
  apply keeps_bind rowSettled_requireStored
  intro _
  exact keeps_bind (keeps_step _) fun _ => keeps_step _

theorem settled_resend : Meets Unstored (resendChannelMessageRecord a true o)
      (fun _ => RowSettled o.row o.accepted) (fun _ => RowSettled o.row o.accepted) := by
  unfold resendChannelMessageRecord
  cases fromHex a.channel.channelKey.toList with
  | none => exact meets_raise fun w hw => RowSettled.of_unsent hw.sends
  | some keyBytes =>
    apply meets_bind (meets_withStoredRow (marksUnknown_channel o) (meets_resendBody _ o))
    intro _
    show Keeps (RowSettled o.row o.accepted) (do
      requireStored
      step o.build
      step o.broadcast)
    apply keeps_bind rowSettled_requireStored
    intro _
    exact keeps_bind (keeps_step _) fun _ => keeps_step _

/-- **An accepted message keeps its row.** Whatever the steps answer, the row of a
message that was not answered for stays, and one whose send was accepted is
confirmed when the steps after it return. A send command that raised deletes it. -/
theorem outgoing_row_settled (radio : Radio) (manager : RadioManager) :
    (∀ (a : DirectSend) (o : DirectOutcomes), RowSettled o.row o.accepted
      (sendDirectMessageToContact a o { radio := radio, manager := manager }).2) ∧
    (∀ (a : ChannelMessage) (o : ChannelMessageOutcomes), RowSettled o.row o.accepted
      (sendChannelMessageToChannel a o { radio := radio, manager := manager }).2) ∧
    (∀ (a : ChannelMessage) (o : ChannelMessageOutcomes), RowSettled o.row o.accepted
      (resendChannelMessageRecord a true o { radio := radio, manager := manager }).2) := by
  have hstart : Unstored { radio := radio, manager := manager } := ⟨rfl, rfl, rfl⟩
  refine ⟨?_, ?_, ?_⟩
  · intro a o
    exact (settled_direct a o).state hstart
  · intro a o
    exact (settled_channel a o).state hstart
  · intro a o
    exact (settled_resend a o).state hstart

/-! ### A send command that raises -/

/-- A message that the radio took, or may have taken, has its row. -/
def RowKept (w : World) : Prop := ∀ c ∈ w.sends, c.reply ≠ .error → w.row.isSome = true

def greeting : DirectSend where
  text := "hi"
  localCommand := false
  floodScopeOverride := none
  sessionRegion := none
  savedFloodScope := none
  reported := true

/-- Every step returns but the send command. -/
def sendRaises : DirectOutcomes where
  contactSettings := .done
  sendSlot := .done
  radioOperation := .done
  addContact := .ok
  scope := ⟨.done, ⟨.ok, true⟩, fun _ => ⟨.ok, true⟩⟩
  send := .raised
  row := ⟨.done, .stored, .done, .done, .done, .done⟩
  broadcast := .done
  lastContacted := .done
  recordAttempt := .done
  trackAck := .done

/-- The packet may be on air and its row is gone. -/
theorem not_forall_row_kept :
    ¬ ∀ (a : DirectSend) (o : DirectOutcomes),
      RowKept (sendDirectMessageToContact a o
        { radio := unscopedWorld.radio, manager := unscopedWorld.manager }).2 := by
  intro hall
  have hsends : (sendDirectMessageToContact greeting sendRaises
      { radio := unscopedWorld.radio, manager := unscopedWorld.manager }).2.sends =
        [⟨.raised, none⟩] := by
    decide +kernel
  have hrow : (sendDirectMessageToContact greeting sendRaises
      { radio := unscopedWorld.radio, manager := unscopedWorld.manager }).2.row = none := by
    decide +kernel
  have hkept := hall greeting sendRaises ⟨.raised, none⟩
    (by rw [hsends]; exact List.mem_singleton_self _) (by decide)
  rw [hrow] at hkept
  cases hkept

end RtfmEv.MessageSend
