import RtfmEv.Lib.Run
import RtfmEv.MessageSend.ScopeRestore

/-!
# Channel slots over a sequence of sends

A run is a sequence of sends from a reset cache. The radio may load a channel
although it answers an error or the command raises. The cache stays faithful to
the radio, and every send command goes out with the key of its channel.
-/

namespace RtfmEv.MessageSend

open RtfmEv.Lib RtfmEv.Lib.Proc

/-- The send command went out with the key of its channel in the slot. -/
def SendCommand.OnOwnKey (c : SendCommand) : Prop :=
  ∀ key held, c.channel = some (key, held) → held = some key

/-- The cache is in use and faithful to the radio, and no message was sent with
the key of another channel. -/
structure SlotsOk (capacity : ℕ) (w : World) : Prop where
  reuse : w.manager.channelSlotReuseEnabled = true
  capacity : w.manager.channelSendCacheCapacity = capacity
  faithful : w.manager.Faithful w.radio.slots
  sends : ∀ c ∈ w.sends, c.OnOwnKey

/-- A send as its callers make it: the key is the channel key in bytes, and
`set_channel` is answered or raises. -/
structure SlotRequest (a : ChannelSend) (o : ChannelOutcomes) : Prop where
  key : fromHex a.channelKey.toList = some a.keyBytes
  answered : o.setChannel.reply ≠ .silent

section

variable {capacity : ℕ} {w : World} {slot : ℕ} {a : ChannelSend} {effect : Radio → Radio}

theorem SlotsOk.updateManager (h : SlotsOk capacity w)
    {f : RadioManager → RadioManager}
    (hreuse : (f w.manager).channelSlotReuseEnabled = w.manager.channelSlotReuseEnabled)
    (hcap : (f w.manager).channelSendCacheCapacity = w.manager.channelSendCacheCapacity)
    (hfaithful : (f w.manager).Faithful w.radio.slots) :
    SlotsOk capacity { w with manager := f w.manager } :=
  ⟨hreuse.trans h.reuse, hcap.trans h.capacity, hfaithful, h.sends⟩

/-- An operation on the cache leaves the connection and the channel count. -/
theorem SlotsOk.invalidate (h : SlotsOk capacity w) (channelKey : String) :
    SlotsOk capacity
      { w with manager := w.manager.invalidateCachedChannelSlot channelKey } := by
  apply h.updateManager (f := fun m => m.invalidateCachedChannelSlot channelKey)
  · unfold RadioManager.invalidateCachedChannelSlot
    dsimp only
    split <;> rfl
  · unfold RadioManager.invalidateCachedChannelSlot
    dsimp only
    split <;> rfl
  · exact h.faithful.invalidate channelKey

theorem SlotsOk.used (h : SlotsOk capacity w) (channelKey : String) :
    SlotsOk capacity { w with manager := w.manager.noteChannelSlotUsed channelKey } := by
  apply h.updateManager (f := fun m => m.noteChannelSlotUsed channelKey)
  · unfold RadioManager.noteChannelSlotUsed
    dsimp only
    split
    · rfl
    · split <;> rfl
  · unfold RadioManager.noteChannelSlotUsed
    dsimp only
    split
    · rfl
    · split <;> rfl
  · exact h.faithful.used channelKey

/-- The radio has loaded the channel into the slot. -/
theorem SlotsOk.loaded (h : SlotsOk capacity w) {channelKey : String} {bytes : Bytes}
    (hbytes : fromHex channelKey.toList = some bytes) (hlt : slot < capacity) :
    SlotsOk capacity { w with
      radio := w.radio.setChannel slot bytes
      manager := w.manager.noteChannelSlotLoaded channelKey slot } := by
  rw [← h.capacity] at hlt
  refine ⟨?_, ?_, h.faithful.noteLoaded h.reuse hbytes hlt, h.sends⟩
  · rw [← h.reuse]
    unfold RadioManager.noteChannelSlotLoaded
    split <;> rfl
  · rw [← h.capacity]
    unfold RadioManager.noteChannelSlotLoaded
    split <;> rfl

theorem SlotsOk.setFree (h : SlotsOk capacity w)
    (hfree : w.manager.keyBySlot.get slot = none) (bytes : Bytes) :
    SlotsOk capacity { w with radio := w.radio.setChannel slot bytes } :=
  ⟨h.reuse, h.capacity, h.faithful.setFree hfree bytes, h.sends⟩

theorem SlotsOk.evicted (h : SlotsOk capacity w) {key : String}
    (hkey : w.manager.slotByKey.get? key = some slot) :
    (w.manager.invalidateCachedChannelSlot key).keyBySlot.get slot = none := by
  rw [RadioManager.keyBySlot_invalidate h.faithful, h.faithful.upper hkey,
    if_pos ((h.faithful.inverse key slot).mp hkey)]

/-! ### Loading a channel -/

/-- What a `set_channel` command that was not confirmed has done to the radio. -/
def Touched (w₀ : World) (slot : ℕ) (bytes : Bytes) (w : World) : Prop :=
  w = w₀ ∨ w = { w₀ with radio := w₀.radio.setChannel slot bytes }

/-- A failed load leaves the cache faithful, whatever the radio holds. -/
theorem meets_invalidateEvicted {w₀ : World} (h : SlotsOk capacity w₀)
    {evicted : Option String} (bytes : Bytes)
    (hplan : (evicted = none ∧ w₀.manager.keyBySlot.get slot = none) ∨
      ∃ key, evicted = some key ∧ w₀.manager.slotByKey.get? key = some slot) :
    Meets (Touched w₀ slot bytes) (invalidateEvicted evicted) (fun _ => SlotsOk capacity)
      (fun _ => SlotsOk capacity) := by
  rcases hplan with ⟨rfl, hfree⟩ | ⟨key, rfl, hkey⟩
  · apply meets_pure
    rintro w (rfl | rfl)
    · exact h
    · exact h.setFree hfree bytes
  · apply meets_update
    have hfree := h.evicted hkey
    rintro w (rfl | rfl)
    · exact h.invalidate key
    · exact (h.invalidate key).setFree hfree bytes

/-- The load of a channel that is not cached. -/
theorem meets_load {w₀ : World} (h : SlotsOk capacity w₀)
    {c : CommandOutcome} (hkey : fromHex a.channelKey.toList = some a.keyBytes)
    (hanswered : c.reply ≠ .silent) (hlt : slot < capacity)
    {evicted : Option String}
    (hplan : (evicted = none ∧ w₀.manager.keyBySlot.get slot = none) ∨
      ∃ key, evicted = some key ∧ w₀.manager.slotByKey.get? key = some slot) :
    Meets (fun w => w = w₀)
      (do
        let reply ← handle (command (Radio.setChannel slot a.keyBytes) c.loads c.reply)
          (fun e => do
            invalidateEvicted evicted
            raise e)
        match reply with
        | .ok =>
          updateManager (fun m => m.noteChannelSlotLoaded a.channelKey slot)
          pure slot
        | .error =>
          invalidateEvicted evicted
          raise (.http 422 .channelRejected)
        | _ => raise .other)
      (fun slot w => SlotsOk capacity w ∧ w.radio.slots.get slot = some a.keyBytes)
      (fun _ => SlotsOk capacity) := by
  have hinvalidate := meets_invalidateEvicted h a.keyBytes hplan
  apply meets_bind (Q := fun reply w => reply = c.reply ∧ c.reply ≠ .raised ∧
    w = if c.loads then { w₀ with radio := w₀.radio.setChannel slot a.keyBytes } else w₀)
  · apply meets_handle (E := fun _ => Touched w₀ slot a.keyBytes)
    · refine (meets_command (Q := fun w =>
        w = if c.loads then { w₀ with radio := w₀.radio.setChannel slot a.keyBytes } else w₀)
        (Radio.setChannel slot a.keyBytes) c.loads c.reply ?_).mono (fun _ hw => hw)
        (fun _ _ hw => hw) ?_
      · rintro w rfl
        rfl
      · rintro e w ⟨_, hw⟩
        rw [hw]
        split_ifs
        · exact Or.inr rfl
        · exact Or.inl rfl
    · intro e
      exact meets_bind hinvalidate (fun _ => keeps_raise (α := Reply) e)
  intro reply
  cases reply with
  | ok =>
    apply meets_bind (Q := fun _ w => SlotsOk capacity w ∧
      w.radio.slots.get slot = some a.keyBytes)
    · apply meets_update
      rintro w ⟨hreply, _, hw⟩
      have hloads : c.loads = true := by rw [CommandOutcome.loads, ← hreply]
      rw [hw, if_pos hloads]
      exact ⟨h.loaded hkey hlt, Table.get_set_self ..⟩
    · intro _
      exact meets_pure (fun _ hw => hw)
  | error =>
    apply meets_bind (Q := fun _ => SlotsOk capacity)
    · refine hinvalidate.mono ?_ (fun _ _ hw => hw) (fun _ _ hw => hw)
      rintro w ⟨_, _, hw⟩
      rw [hw]
      split_ifs
      · exact Or.inr rfl
      · exact Or.inl rfl
    · intro _
      exact meets_raise (fun _ hw => hw)
  | silent =>
    apply meets_raise
    rintro w ⟨hreply, _, _⟩
    exact absurd hreply.symm hanswered
  | raised =>
    apply meets_raise
    rintro w ⟨hreply, hraised, _⟩
    exact absurd hreply.symm hraised

/-- **The slot of a send.** The radio holds the key of the channel in the slot
that the send uses. -/
theorem meets_loadChannelSlot {c : CommandOutcome}
    (hkey : fromHex a.channelKey.toList = some a.keyBytes) (hanswered : c.reply ≠ .silent) :
    Meets (SlotsOk capacity) (loadChannelSlot a c)
      (fun slot w => SlotsOk capacity w ∧ w.radio.slots.get slot = some a.keyBytes)
      (fun _ => SlotsOk capacity) := by
  intro w₀ h
  refine meets_bind (P := fun w => w = w₀)
    (Q := fun plan w => w = w₀ ∧
      RadioManager.Planned (upperAscii a.channelKey) w₀.manager plan)
    (meets_ask ?_) ?_ w₀ rfl
  · rintro w rfl
    exact ⟨rfl, h.faithful.planned h.reuse a.channelKey a.tempRadioSlot⟩
  rintro plan w ⟨rfl, hplanned⟩
  cases hplanned with
  | @cached slot hcached =>
    obtain ⟨bytes, hbytes, hslot⟩ := h.faithful.loaded hcached
    rw [upperAscii, String.toList_ofList, fromHex_toUpper, hkey] at hbytes
    rw [← Option.some.inj hbytes] at hslot
    exact ⟨h, hslot⟩
  | @free slot hnew hlt hfree =>
    rw [h.capacity] at hlt
    exact meets_load h hkey hanswered hlt (Or.inl ⟨rfl, hfree⟩) w rfl
  | @evicts slot evicted hnew hcached =>
    have hlt := h.faithful.bounded hcached
    rw [h.capacity] at hlt
    exact meets_load h hkey hanswered hlt (Or.inr ⟨evicted, rfl, hcached⟩) w rfl

/-! ### The rest of a send -/

/-- The send command goes out while the slot holds the key. -/
theorem meets_sendOnSlot (a : ChannelSend) (reply : Reply) (slot : ℕ) :
    Meets (fun w => SlotsOk capacity w ∧ w.radio.slots.get slot = some a.keyBytes)
      (sendOnSlot a reply slot) (fun _ => SlotsOk capacity) (fun _ => SlotsOk capacity) := by
  unfold sendOnSlot
  apply meets_bind (Q := fun _ => SlotsOk capacity)
  · apply meets_update
    rintro w ⟨h, hslot⟩
    refine ⟨h.reuse, h.capacity, h.faithful, ?_⟩
    intro c hc
    rcases List.mem_append.mp hc with hold | hnew
    · exact h.sends c hold
    · rw [List.mem_singleton.mp hnew]
      intro key held heq
      cases heq
      exact hslot
  intro _
  cases reply with
  | raised => exact keeps_raise _
  | silent => exact keeps_raise _
  | error =>
    exact keeps_bind (keeps_update (fun w h => h.invalidate a.channelKey)) (fun _ => keeps_pure _)
  | ok => exact keeps_bind (keeps_update (fun w h => h.used a.channelKey)) (fun _ => keeps_pure _)

theorem SlotsOk.radio (h : SlotsOk capacity w)
    (hslots : ∀ r, (effect r).slots = r.slots) :
    SlotsOk capacity { w with radio := effect w.radio } := by
  refine ⟨h.reuse, h.capacity, ?_, h.sends⟩
  show w.manager.Faithful (effect w.radio).slots
  rw [hslots]
  exact h.faithful

theorem slotsOk_applyOverride (hslots : ∀ r, (effect r).slots = r.slots)
    (rejected : Detail) (c : CommandOutcome) :
    Keeps (SlotsOk capacity) (applyOverride effect rejected c) := by
  refine (meets_applyOverride (Q := SlotsOk capacity) effect rejected c ?_).mono (fun _ h => h)
    (fun _ _ h => h.2) (fun _ _ h => h.2)
  intro w h
  split_ifs
  · exact h.radio hslots
  · exact h

/-- A restore leaves the slots and the cache alone. -/
theorem SlotsOk.restore {restored : RadioManager → RadioManager}
    {notice : RestoreNotice} (hslots : ∀ r, (effect r).slots = r.slots)
    (hrestored : ∀ w, SlotsOk capacity w →
      SlotsOk capacity { w with manager := restored w.manager })
    (attempts : List CommandOutcome) (h : SlotsOk capacity w) :
    SlotsOk capacity (restore effect restored notice attempts w) := by
  induction attempts generalizing w with
  | nil => exact ⟨h.reuse, h.capacity, h.faithful, h.sends⟩
  | cons c rest ih =>
    have hone : SlotsOk capacity
        (if c.takes then { w with radio := effect w.radio } else w : World) := by
      split_ifs
      · exact h.radio hslots
      · exact h
    unfold MessageSend.restore
    dsimp only
    cases c.reply with
    | ok => exact hrestored _ hone
    | silent => exact hrestored _ hone
    | error => exact ih hone
    | raised => exact ih hone

theorem slotsOk_restores (a : ChannelSend) (o : ChannelOutcomes) (m : RadioManager) :
    Keeps (SlotsOk capacity) (do
      restoreScopeOverride a o m
      restorePathHashModeOverride a o m) := by
  apply keeps_bind
  · unfold restoreScopeOverride
    split_ifs
    · apply keeps_update
      intro w h
      apply h.restore
      · intro r
        exact slots_setFloodScope r _
      · intro w h
        exact h
    · exact keeps_pure ()
  · intro _
    unfold restorePathHashModeOverride
    cases a.pathHashModeTarget m with
    | none => exact keeps_pure ()
    | some mode =>
      apply keeps_update
      intro w h
      apply h.restore
      · intro r
        exact slots_setPathHashMode r _
      · intro w h
        exact ⟨h.reuse, h.capacity,
          ⟨h.faithful.inverse, h.faithful.upper, h.faithful.bounded, h.faithful.loaded⟩, h.sends⟩

/-- **One send.** Whatever is answered, the cache stays faithful. -/
theorem slotsOk_send {o : ChannelOutcomes} (hreq : SlotRequest a o) :
    Keeps (SlotsOk capacity) (sendChannelMessageWithEffectiveScope a o) := by
  unfold sendChannelMessageWithEffectiveScope
  apply keeps_bind
  · unfold readSettings
    split_ifs
    · cases o.settings with
      | done => exact keeps_pure ()
      | raised => exact keeps_raise _
    · exact keeps_pure ()
  intro _
  apply keeps_bind (keeps_ask _)
  intro m
  apply keeps_ensuring _ (slotsOk_restores a o m)
  unfold applyAndSend
  apply keeps_bind
  · unfold applyScopeOverride
    split_ifs
    · apply slotsOk_applyOverride
      intro r
      exact slots_setFloodScope r _
    · exact keeps_pure ()
  intro _
  apply keeps_bind
  · unfold applyPathHashModeOverride
    cases a.pathHashModeTarget m with
    | none => exact keeps_pure ()
    | some mode =>
      apply slotsOk_applyOverride
      intro r
      exact slots_setPathHashMode r _
  intro _
  exact meets_bind (meets_loadChannelSlot hreq.key hreq.answered) (meets_sendOnSlot a o.send)

end

/-! ### Sequences of sends -/

/-- One send after another, whether they return or raise. -/
inductive Sends : World → World → Prop
  | nil (w : World) : Sends w w
  | send {w₀ w : World} {a : ChannelSend} {o : ChannelOutcomes} (run : Sends w₀ w)
      (request : SlotRequest a o) : Sends w₀ (sendChannelMessageWithEffectiveScope a o w).2

theorem Sends.slotsOk {capacity : ℕ} {w₀ w : World} (run : Sends w₀ w)
    (h : SlotsOk capacity w₀) : SlotsOk capacity w := by
  induction run with
  | nil => exact h
  | send run request ih => exact (slotsOk_send request).state ih

/-- The cache and the radio after a run. -/
structure ChannelSlots (w : World) : Prop where
  /-- The two maps are inverse to each other. -/
  inverse : ∀ key slot,
    w.manager.slotByKey.get? key = some slot ↔ w.manager.keyBySlot.get slot = some key
  size : w.manager.slotByKey.size ≤ w.manager.channelSendCacheCapacity
  /-- A channel that needs no load is in the slot of the radio. -/
  configured : ∀ key preferred, (w.manager.planChannelSendSlot key preferred).2.1 = false →
    ∃ bytes, fromHex key.toList = some bytes ∧
      w.radio.slots.get (w.manager.planChannelSendSlot key preferred).1 = some bytes
  /-- Every message went out with the key of its channel. -/
  sends : ∀ c ∈ w.sends, c.OnOwnKey

theorem SlotsOk.channelSlots (capacity : ℕ) {w : World} (h : SlotsOk capacity w) :
    ChannelSlots w where
  inverse := h.faithful.inverse
  size := h.faithful.size_le
  configured := by
    intro key preferred hconf
    have hplanned := h.faithful.planned h.reuse key preferred
    generalize w.manager.planChannelSendSlot key preferred = plan at hconf hplanned ⊢
    cases hplanned with
    | @cached slot hcached =>
      obtain ⟨bytes, hbytes, hslot⟩ := h.faithful.loaded hcached
      rw [upperAscii, String.toList_ofList, fromHex_toUpper] at hbytes
      exact ⟨bytes, hbytes, hslot⟩
    | free => cases hconf
    | evicts => cases hconf
  sends := h.sends

/-- **The slot cache is faithful.** After any sequence of sends from a reset cache
the maps are inverse, the capacity is kept, and no channel is taken for loaded
into a slot that holds another key. -/
theorem sends_channelSlots {radio : Radio} {m : RadioManager} {w : World}
    (hreuse : m.channelSlotReuseEnabled = true)
    (run : Sends { radio := radio, manager := m.resetChannelSendCache } w) : ChannelSlots w := by
  refine SlotsOk.channelSlots m.channelSendCacheCapacity (run.slotsOk ?_)
  refine ⟨hreuse, rfl, RadioManager.faithful_reset _ _, ?_⟩
  intro c hc
  cases hc

/-! ### A failed eviction -/

/-- The radio has one slot. -/
def oneSlot : RadioManager :=
  { unscopedWorld.manager with maxChannels := some 1 }

def plainSend (channelKey : String) (keyBytes : Bytes) : ChannelSend :=
  { regionalSend with
    channelKey := channelKey
    keyBytes := keyBytes
    floodScopeOverride := none }

/-- The radio loads the channel and its answer is an error. -/
def loadsWithError : ChannelOutcomes := { lostRestore with setChannel := ⟨.error, true⟩ }

/-- Two channels take the slot, the second one without a confirmation. -/
def afterFailedEviction : World :=
  (sendChannelMessageWithEffectiveScope (plainSend "CD" [0xCD]) loadsWithError
    (sendChannelMessageWithEffectiveScope (plainSend "AB" [0xAB]) lostRestore
      { radio := unscopedWorld.radio, manager := oneSlot.resetChannelSendCache }).2).2

/-- The first channel is no longer cached, and one message was sent. -/
theorem sends_channelSlots_evicted :
    ChannelSlots afterFailedEviction ∧ afterFailedEviction.sends.length = 1 ∧
      afterFailedEviction.manager.slotByKey.size = 0 := by
  refine ⟨?_, by decide +kernel, by decide +kernel⟩
  apply sends_channelSlots (m := oneSlot)
  · decide +kernel
  · exact .send (.send (.nil _) ⟨by decide +kernel, by decide⟩) ⟨by decide +kernel, by decide⟩

end RtfmEv.MessageSend
