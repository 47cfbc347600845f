import RtfmEv.DirectMessage.Delivery

/-!
# No ACK before the first code

Until the first send of a message has registered its code, no table leads to the
message and no increment of its ACK count is under way. An ACK that arrives early
is buffered, and the send itself counts it.
-/

namespace RtfmEv.DirectMessage

open RtfmEv.Lib

namespace DmState

variable {code : String} {ev : DmEvent} {m : ℕ}

/-- A pending entry was there, or its code is registered and was not buffered. -/
theorem pending_step (hstep : DmStep ev.pre ev.label ev.post)
    {e : PendingAck} (he : ev.post.tables.pending.get code = some e) :
    ev.pre.tables.pending.get code = some e ∨
      (registration ev = some (e.messageId, code) ∧ ev.pre.tables.buffered.get code = none) := by
  obtain ⟨s, op, s'⟩ := ev
  dsimp only at hstep he ⊢
  cases step_cases hstep with
  | @registered _ m code' timeoutMs t t' _ hreg ht hphase hcodes heq =>
    rcases applyAckTracking_cases m code' timeoutMs t' s with ⟨_, htrack⟩ | ⟨hb, htrack⟩
    · rw [heq, htrack] at he
      exact Or.inl (Table.get_keep_eq_some.mp he).1
    · rw [heq, htrack] at he
      rcases Table.get_set_eq_some he with ⟨rfl, rfl⟩ | ⟨_, he⟩
      · exact Or.inr ⟨hreg, hb⟩
      · exact Or.inl he
  | @counted m t ht hphase =>
    have htables := (incrementAckCount_frame m s).2.2.1
    change (s.incrementAckCount m).tables.pending.get code = some e at he
    rw [htables] at he
    exact Or.inl he
  | @tracked m t ht hphase | requestDelete
  | dropCodes => exact Or.inl (Table.get_keep_eq_some.mp he).1
  | @acked code' =>
    have hspec := AckTables.applyDmAckCode_spec code' s.clock s.tables
    rw [tables_ack] at he
    exact Or.inl (hspec.within.pending he)
  | @incremented m hm =>
    have htables := (incrementAckCount_frame m { s with acking := s.acking.erase m }).2.2.1
    rw [htables] at he
    exact Or.inl he
  | _ => exact Or.inl he

/-- A failed entry was there, or its send has ended. -/
theorem failedEntry_step (hstep : DmStep ev.pre ev.label ev.post)
    {e : FailedAck} (he : ev.post.tables.failed.get code = some e) :
    ev.pre.tables.failed.get code = some e ∨
      ∃ t, ev.pre.tasks.get e.messageId = some t ∧ t.phase = .tracking := by
  obtain ⟨s, op, s'⟩ := ev
  dsimp only at hstep he ⊢
  cases step_cases hstep with
  | @registered _ m code' timeoutMs t t' _ hreg ht hphase hcodes heq =>
    rcases applyAckTracking_cases m code' timeoutMs t' s with ⟨_, htrack⟩ | ⟨_, htrack⟩
    · rw [heq, htrack] at he
      exact Or.inl (Table.get_keep_eq_some.mp he).1
    · rw [heq, htrack] at he
      exact Or.inl he
  | @counted m t ht hphase =>
    have htables := (incrementAckCount_frame m s).2.2.1
    change (s.incrementAckCount m).tables.failed.get code = some e at he
    rw [htables] at he
    exact Or.inl he
  | @tracked m t ht hphase =>
    have hset := Table.get_setAll s.tables.failed t.ackCodes ⟨m, s.clock⟩ code
    change (s.tables.failed.setAll t.ackCodes ⟨m, s.clock⟩).get code = some e at he
    rw [hset] at he
    split at he
    · obtain rfl := Option.some.inj he
      exact Or.inr ⟨t, ht, hphase⟩
    · exact Or.inl he
  | @acked code' =>
    have hspec := AckTables.applyDmAckCode_spec code' s.clock s.tables
    rw [tables_ack] at he
    exact Or.inl (hspec.within.failed he)
  | @incremented m hm =>
    have htables := (incrementAckCount_frame m { s with acking := s.acking.erase m }).2.2.1
    rw [htables] at he
    exact Or.inl he
  | requestDelete | dropCodes => exact Or.inl (Table.get_keep_eq_some.mp he).1
  | _ => exact Or.inl he

/-- No ACK leads to the message, which is not sent yet or is in its first send. -/
structure Unmatched (m : ℕ) (s : DmState) : Prop where
  acking : m ∉ s.acking
  pending : ∀ {code e}, s.tables.pending.get code = some e → e.messageId ≠ m
  failed : ∀ {code e}, s.tables.failed.get code = some e → e.messageId ≠ m
  phase : ∀ {t}, s.tasks.get m = some t → t.phase = .first ∨ t.phase = .counting

theorem unmatched_init (m : ℕ) : Unmatched m {} := ⟨by simp, by simp, by simp, by simp⟩

/-- The first code of a message is registered and was not buffered. -/
def Registers (m : ℕ) (ev : DmEvent) : Prop :=
  ∃ code suggested, ev.label = .firstSent m (some code) suggested ∧
    ev.pre.tables.buffered.get code = none

theorem registers_of_registration
    (h : ev.pre.Unmatched m) (hreg : registration ev = some (m, code))
    (hb : ev.pre.tables.buffered.get code = none) : Registers m ev := by
  unfold registration at hreg
  split at hreg
  · rename_i hop
    cases hreg
    exact ⟨_, _, hop, hb⟩
  · rename_i m' hop
    split at hreg
    · rename_i ht
      cases hreg
      rcases h.phase ht with hphase | hphase <;> cases hphase
    · cases hreg
  · cases hreg

/-- **Nothing matches early.** Only the registration of its first code lets an
ACK lead to the message. -/
theorem Unmatched.step (h : ev.pre.Unmatched m)
    (hstep : DmStep ev.pre ev.label ev.post) (hregisters : ¬ Registers m ev) :
    ev.post.Unmatched m where
  acking := by
    intro hm
    rcases acking_step hstep hm with hm | ⟨code, _, hmatch⟩
    · exact h.acking hm
    · have hspec := AckTables.applyDmAckCode_spec code ev.pre.clock ev.pre.tables
      rcases hspec.matched_of hmatch with ⟨e, he, hid⟩ | ⟨e, he, hid⟩
      · exact h.pending he hid
      · exact h.failed he hid
  pending := by
    rintro code e he rfl
    rcases pending_step hstep he with he | ⟨hreg, hb⟩
    · exact h.pending he rfl
    · exact hregisters (registers_of_registration h hreg hb)
  failed := by
    rintro code e he rfl
    rcases failedEntry_step hstep he with he | ⟨t, ht, hphase⟩
    · exact h.failed he rfl
    · rcases h.phase ht with hp | hp <;> rw [hphase] at hp <;> cases hp
  phase := by
    intro t ht
    cases task_change hstep m with
    | same hs => exact h.phase (hs ▸ ht)
    | started _ _ hs =>
      obtain ⟨t', ht', _, hfirst⟩ := hs
      rw [ht] at ht'
      rw [Option.some.inj ht']
      exact Or.inl hfirst
    | registered hreg _ _ hs _ hphase' =>
      rw [hs] at ht
      cases ht
      rcases hphase' with ⟨_, hcounting⟩ | ⟨hb, _⟩
      · exact Or.inr hcounting
      · exact absurd (registers_of_registration h hreg hb) hregisters
    | moved ht' hquiet _ _ _ =>
      rcases h.phase ht' with hp | hp <;> rw [hp] at hquiet <;> exact absurd hquiet id
    | ended _ hs _ =>
      rw [hs] at ht
      cases ht

/-! ### Messages that are not sent yet -/

theorem create_spec {s s' : DmState} (h : DmStep s (.create m) s') :
    s.lastId < m ∧ s'.lastId = m := by
  simp only [DmStep, DmOp.apply, create] at h
  split at h
  · rename_i hnew
    cases h
    exact ⟨hnew, rfl⟩
  · cases h

/-- A message whose id was not used has no send and no ACK. -/
structure Unused (m : ℕ) (s : DmState) : Prop where
  tasks : s.tasks.get m = none
  unmatched : s.Unmatched m

theorem Unused.step (hsound : ev.post.Sound)
    (h : ev.pre.lastId < m → ev.pre.Unused m) (hstep : DmStep ev.pre ev.label ev.post)
    (hnew : ev.post.lastId < m) : ev.post.Unused m := by
  have hpre := h (lt_of_le_of_lt (lastId_mono hstep) hnew)
  have hnone : ∀ {t}, ev.pre.tasks.get m ≠ some t := by
    intro t ht
    rw [hpre.tasks] at ht
    cases ht
  have hregisters : ¬ Registers m ev := by
    rintro ⟨code, suggested, hop, _⟩
    unfold DmStep DmOp.apply at hstep
    rw [hop] at hstep
    obtain ⟨t, ht, _⟩ := Option.bind_eq_some_iff.mp hstep
    exact hnone ht
  refine ⟨?_, hpre.unmatched.step hstep hregisters⟩
  cases task_change hstep m with
  | same hs => exact hs.trans hpre.tasks
  | started _ hrow _ => exact absurd (hsound.ids hrow) (Nat.not_le.mpr hnew)
  | registered _ ht _ _ _ _ => exact absurd ht hnone
  | moved ht _ _ _ _ => exact absurd ht hnone
  | ended ht _ _ => exact absurd ht hnone

end DmState

end RtfmEv.DirectMessage
