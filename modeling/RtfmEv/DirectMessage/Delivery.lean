import RtfmEv.DirectMessage.Attribution

/-!
# Delivery ACKs of direct messages

An ACK that arrives for an attempt of a message should end with the message
counted and not failed, from shortly before the attempt is registered until some
time after the message was marked failed.

The code of an attempt is in hand of its send until the message is marked
failed, and in the failed table from then on. Only the pending table is asked in
between, and it forgets a code after twice the timeout of its attempt while the
send goes on for longer. So an ACK that comes in between is buffered and never
looked at again. Without such an ACK, and with codes that belong to one message
each, none is lost.
-/

namespace RtfmEv.DirectMessage

open RtfmEv.Lib

/-- The message is deleted, resent as another one, or was never sent. -/
def DmOp.Removes (m : ℕ) : DmOp → Prop
  | .firstFailed m' _ => m' = m
  | .requestDelete m' => m' = m
  | .dropCodes m' => m' = m
  | .deleteRow m' => m' = m
  | _ => False

instance (m : ℕ) : DecidablePred (DmOp.Removes m) := fun op => by
  cases op <;> unfold DmOp.Removes <;> infer_instance

/-- The step marks the message as failed. -/
def MarksFailed (m : ℕ) (ev : DmEvent) : Prop :=
  ev.label = .mark m ∧ ∃ row, ev.post.rows.get m = some row ∧ row.failedAt.isSome = true

namespace DmState

/-- The message has an ACK count and is not marked failed. -/
def Recorded (s : DmState) (m : ℕ) : Prop :=
  ∃ row, s.rows.get m = some row ∧ 0 < row.acked ∧ row.failedAt = none

/-- An increment of the ACK count of the message is under way. -/
def Underway (s : DmState) (m : ℕ) : Prop :=
  m ∈ s.acking ∨ ∃ t, s.tasks.get m = some t ∧ t.phase = .counting

def Counted (s : DmState) (m : ℕ) : Prop := s.Recorded m ∨ s.Underway m

/-- The send of the message has used the code and goes on. -/
def Retrying (s : DmState) (m : ℕ) (code : String) : Prop :=
  ∃ t, s.tasks.get m = some t ∧ code ∈ t.ackCodes

/-- The send goes on without an ACK and the code is not pending for it any more,
or its pending entry is older than twice the timeout. -/
def Expired (s : DmState) (m : ℕ) (code : String) : Prop :=
  s.Retrying m code ∧ ¬ s.Counted m ∧
    ∀ e, s.tables.pending.get code = some e → e.messageId = m → e.expired s.clock = true

/-! ### Rows -/

/-- What a step can do to the row of a message. -/
inductive RowChange (m : ℕ) (ev : DmEvent) : Prop
  | same (h : ev.post.rows.get m = ev.pre.rows.get m)
  | counted (h : ev.post.rows.get m =
      (ev.pre.rows.get m).map (fun row => ⟨row.acked + 1, none⟩))
  | failed {row : MessageRow} (hrow : ev.pre.rows.get m = some row) (hacked : row.acked = 0)
      (h : ev.post.rows.get m = some { row with failedAt := some ⌊ev.pre.clock⌋ })
  | created (hid : ev.pre.lastId < m) (hlast : ev.post.lastId = m)
      (h : ev.post.rows.get m = some {})
  | removed (hop : ev.label.Removes m) (h : ev.post.rows.get m = none)

theorem rows_incrementAckCount (m m' : ℕ) (s : DmState) :
    (s.incrementAckCount m').rows.get m =
      if m = m' then (s.rows.get m).map (fun row => ⟨row.acked + 1, none⟩)
      else s.rows.get m := by
  unfold incrementAckCount
  by_cases hm : m = m'
  · subst hm
    cases hrow : s.rows.get m with
    | none => simp [hrow]
    | some row => simp
  · cases s.rows.get m' with
    | none => simp [hm]
    | some row => simp [hm, Table.get_set_of_ne _ _ hm]

variable {ev : DmEvent} {m : ℕ}

theorem row_change (hstep : DmStep ev.pre ev.label ev.post) (m : ℕ) :
    RowChange m ev := by
  obtain ⟨s, op, s'⟩ := ev
  dsimp only at hstep
  cases step_cases hstep with
  | @create m' hid =>
    by_cases hm : m = m'
    · subst hm
      exact .created hid rfl (Table.get_set_self ..)
    · exact .same (Table.get_set_of_ne _ _ hm)
  | @registered _ m' code timeoutMs t t' _ hreg ht hphase hcodes heq =>
    refine .same ?_
    rcases applyAckTracking_cases m' code timeoutMs t' s with ⟨_, htrack⟩ | ⟨_, htrack⟩
    · dsimp only
      rw [heq, htrack]
      rfl
    · dsimp only
      rw [heq, htrack]
      rfl
  | @firstFailed m' keepRow t ht hphase =>
    cases keepRow with
    | true => exact .same rfl
    | false =>
      by_cases hm : m = m'
      · subst hm
        exact .removed rfl (Table.get_erase_self ..)
      · exact .same (Table.get_erase_of_ne _ hm)
  | @counted m' t ht hphase =>
    have hrows := rows_incrementAckCount m m' s
    by_cases hm : m = m'
    · rw [if_pos hm] at hrows
      exact .counted hrows
    · rw [if_neg hm] at hrows
      exact .same hrows
  | @marked m' t row ht hphase hrow hacked =>
    by_cases hm : m = m'
    · subst hm
      exact .failed hrow hacked (Table.get_set_self ..)
    · exact .same (Table.get_set_of_ne _ _ hm)
  | @acked code =>
    refine .same ?_
    dsimp only
    rw [(ack_frame code s).1]
  | @incremented m' hm' =>
    have hrows := rows_incrementAckCount m m' { s with acking := s.acking.erase m' }
    by_cases hm : m = m'
    · rw [if_pos hm] at hrows
      exact .counted hrows
    · rw [if_neg hm] at hrows
      exact .same hrows
  | @deleteRow m' =>
    by_cases hm : m = m'
    · subst hm
      exact .removed rfl (Table.get_erase_self ..)
    · exact .same (Table.get_erase_of_ne _ hm)
  | _ => exact .same rfl

/-- What holds in every state: ids are used up to the last one, a counted message
is not marked failed, and a send without a registered code lists none. -/
structure Sound (s : DmState) : Prop where
  ids : ∀ {m row}, s.rows.get m = some row → m ≤ s.lastId
  unfailed : ∀ {m row}, s.rows.get m = some row → 0 < row.acked → row.failedAt = none
  first : ∀ {m t}, s.tasks.get m = some t → t.phase = .first → t.ackCodes = []

theorem counters_mono (hstep : DmStep ev.pre ev.label ev.post) :
    ev.pre.lastId ≤ ev.post.lastId ∧ ev.pre.clock ≤ ev.post.clock := by
  obtain ⟨s, op, s'⟩ := ev
  dsimp only at hstep ⊢
  cases step_cases hstep with
  | create hid => exact ⟨hid.le, le_rfl⟩
  | advance hclock => exact ⟨le_rfl, hclock⟩
  | @registered _ m' code timeoutMs t t' _ hreg ht hphase hcodes heq =>
    rcases applyAckTracking_cases m' code timeoutMs t' s with ⟨_, htrack⟩ | ⟨_, htrack⟩ <;>
      rw [heq, htrack] <;> exact ⟨le_rfl, le_rfl⟩
  | @counted m' t ht hphase =>
    obtain ⟨-, -, -, hclock, hid⟩ := incrementAckCount_frame m' s
    exact ⟨hid.ge, hclock.ge⟩
  | @acked code =>
    obtain ⟨-, -, hclock, hid⟩ := ack_frame code s
    exact ⟨hid.ge, hclock.ge⟩
  | @incremented m' hm' =>
    obtain ⟨-, -, -, hclock, hid⟩ :=
      incrementAckCount_frame m' { s with acking := s.acking.erase m' }
    exact ⟨hid.ge, hclock.ge⟩
  | _ => exact ⟨le_rfl, le_rfl⟩

theorem lastId_mono (hstep : DmStep ev.pre ev.label ev.post) :
    ev.pre.lastId ≤ ev.post.lastId :=
  (counters_mono hstep).1

/-! ### Sends -/

/-- What a step can do to the send of a message. -/
inductive TaskChange (m : ℕ) (ev : DmEvent) : Prop
  | same (h : ev.post.tasks.get m = ev.pre.tasks.get m)
  | started (hid : ev.pre.lastId < m) (hrow : ev.post.rows.get m = some {})
      (h : ∃ t, ev.post.tasks.get m = some t ∧ t.ackCodes = [] ∧ t.phase = .first)
  | registered {code : String} {t t' : SendTask} (hreg : registration ev = some (m, code))
      (ht : ev.pre.tasks.get m = some t) (hphase : t.phase ≠ .counting ∧ t.phase ≠ .tracking)
      (h : ev.post.tasks.get m = some t')
      (hcodes : t.phase = .first ∧ t'.ackCodes = [code] ∨ t'.ackCodes = t.ackCodes ++ [code])
      (hphase' : ((∃ b, ev.pre.tables.buffered.get code = some b) ∧ t'.phase = .counting) ∨
        (ev.pre.tables.buffered.get code = none ∧ Quiet t'.phase))
  | moved {t t' : SendTask} (ht : ev.pre.tasks.get m = some t) (hphase : Quiet t.phase)
      (h : ev.post.tasks.get m = some t') (hcodes : t'.ackCodes = t.ackCodes)
      (hphase' : Quiet t'.phase ∨ (t'.phase = .tracking ∧ MarksFailed m ev))
  | ended {t : SendTask} (ht : ev.pre.tasks.get m = some t) (h : ev.post.tasks.get m = none)
      (hwhy : (Quiet t.phase ∧ (ev.pre.isMessageAcked m = true ∨ ev.pre.rows.get m = none ∨
          ev.pre.tables.isMessageDeleted m = true)) ∨ t.phase = .first ∨
        (t.phase = .counting ∧ ev.post.rows.get m =
          (ev.pre.rows.get m).map (fun row => ⟨row.acked + 1, none⟩)) ∨
        (t.phase = .tracking ∧
          ev.post.tables = ev.pre.tables.trackFailedAcks t.ackCodes m ev.pre.clock))

theorem task_change (hstep : DmStep ev.pre ev.label ev.post) (m : ℕ) :
    TaskChange m ev := by
  obtain ⟨s, op, s'⟩ := ev
  dsimp only at hstep
  cases step_cases hstep with
  | @create m' hid =>
    by_cases hm : m = m'
    · subst hm
      exact .started hid (Table.get_set_self ..) ⟨_, Table.get_set_self .., rfl, rfl⟩
    · exact .same (Table.get_set_of_ne _ _ hm)
  | @registered _ m' code timeoutMs t t' _ hreg ht hphase hcodes heq =>
    rcases applyAckTracking_cases m' code timeoutMs t' s with ⟨hb, htrack⟩ | ⟨hb, htrack⟩
    · rw [htrack] at heq
      by_cases hm : m = m'
      · subst hm
        have hpost : s'.tasks.get m = some { t' with phase := .counting } := by
          rw [heq]
          exact Table.get_set_self ..
        exact .registered hreg ht hphase hpost hcodes (Or.inl ⟨hb, rfl⟩)
      · refine .same ?_
        dsimp only
        rw [heq]
        exact Table.get_set_of_ne _ _ hm
    · rw [htrack] at heq
      by_cases hm : m = m'
      · subst hm
        have hpost : s'.tasks.get m = some (t'.sleep s.clock) := by
          rw [heq]
          exact Table.get_set_self ..
        exact .registered hreg ht hphase hpost hcodes (Or.inr ⟨hb, trivial⟩)
      · refine .same ?_
        dsimp only
        rw [heq]
        exact Table.get_set_of_ne _ _ hm
  | @moved _ m' t t' hop hack ht hphase hphase' hcodes =>
    by_cases hm : m = m'
    · subst hm
      exact .moved ht hphase (Table.get_set_self ..) hcodes (Or.inl hphase')
    · exact .same (Table.get_set_of_ne _ _ hm)
  | @ackedEnd _ m' t hop hack ht hphase hacked =>
    by_cases hm : m = m'
    · subst hm
      exact .ended ht (Table.get_erase_self ..) (Or.inl ⟨hphase, Or.inl hacked⟩)
    · exact .same (Table.get_erase_of_ne _ hm)
  | @deletedEnd m' t ht hphase hdeleted =>
    by_cases hm : m = m'
    · subst hm
      exact .ended ht (Table.get_erase_self ..) (Or.inl ⟨hphase, Or.inr (Or.inr hdeleted)⟩)
    · exact .same (Table.get_erase_of_ne _ hm)
  | @untracked m' suggested t ht hphase | @firstFailed m' keepRow t ht hphase =>
    by_cases hm : m = m'
    · subst hm
      exact .ended ht (Table.get_erase_self ..) (Or.inr (Or.inl hphase))
    · exact .same (Table.get_erase_of_ne _ hm)
  | @counted m' t ht hphase =>
    have htasks := (incrementAckCount_frame m' s).1
    by_cases hm : m = m'
    · subst hm
      have hrows := rows_incrementAckCount m m s
      rw [if_pos rfl] at hrows
      exact .ended ht (Table.get_erase_self ..) (Or.inr (Or.inr (Or.inl ⟨hphase, hrows⟩)))
    · refine .same ((Table.get_erase_of_ne _ hm).trans ?_)
      rw [htasks]
  | @marked m' t row ht hphase hrow hacked =>
    by_cases hm : m = m'
    · subst hm
      have hquiet : Quiet t.phase := by rw [hphase]; trivial
      refine .moved ht hquiet (Table.get_set_self ..) rfl (Or.inr ⟨rfl, rfl, ?_⟩)
      exact ⟨_, Table.get_set_self .., rfl⟩
    · exact .same (Table.get_set_of_ne _ _ hm)
  | @markEnd m' t ht hphase hrow =>
    by_cases hm : m = m'
    · subst hm
      refine .ended ht (Table.get_erase_self ..) (Or.inl ⟨by rw [hphase]; trivial, ?_⟩)
      cases hr : s.rows.get m with
      | none => exact Or.inr (Or.inl rfl)
      | some row =>
        refine Or.inl ?_
        simp only [isMessageAcked, hr]
        exact decide_eq_true (Nat.pos_of_ne_zero (hrow row hr))
    · exact .same (Table.get_erase_of_ne _ hm)
  | @tracked m' t ht hphase =>
    by_cases hm : m = m'
    · subst hm
      exact .ended ht (Table.get_erase_self ..) (Or.inr (Or.inr (Or.inr ⟨hphase, rfl⟩)))
    · exact .same (Table.get_erase_of_ne _ hm)
  | @acked code =>
    refine .same ?_
    dsimp only
    rw [(ack_frame code s).2.1]
  | @incremented m' hm' =>
    refine .same ?_
    dsimp only
    rw [(incrementAckCount_frame m' { s with acking := s.acking.erase m' }).1]
  | _ => exact .same rfl

theorem Sound.step (h : ev.pre.Sound) (hstep : DmStep ev.pre ev.label ev.post) :
    ev.post.Sound where
  ids := by
    intro m row hrow
    have hid := lastId_mono hstep
    cases row_change hstep m with
    | same hs => exact (h.ids (hs ▸ hrow)).trans hid
    | counted hs =>
      rw [hs] at hrow
      obtain ⟨row', hrow', _⟩ := Option.map_eq_some_iff.mp hrow
      exact (h.ids hrow').trans hid
    | failed hrow' _ _ => exact (h.ids hrow').trans hid
    | created _ hlast _ => exact Nat.le_of_eq hlast.symm
    | removed _ hs =>
      rw [hs] at hrow
      cases hrow
  unfailed := by
    intro m row hrow hacked
    cases row_change hstep m with
    | same hs => exact h.unfailed (hs ▸ hrow) hacked
    | counted hs =>
      rw [hs] at hrow
      obtain ⟨row', _, rfl⟩ := Option.map_eq_some_iff.mp hrow
      rfl
    | failed _ hzero hs =>
      rw [hs] at hrow
      cases hrow
      exact absurd hzero (Nat.pos_iff_ne_zero.mp hacked)
    | created _ _ hs =>
      rw [hs] at hrow
      cases hrow
      rfl
    | removed _ hs =>
      rw [hs] at hrow
      cases hrow
  first := by
    intro m t ht hphase
    cases task_change hstep m with
    | same hs => exact h.first (hs ▸ ht) hphase
    | started _ _ hs =>
      obtain ⟨t', ht', hcodes, _⟩ := hs
      rw [ht] at ht'
      rw [Option.some.inj ht']
      exact hcodes
    | registered _ _ _ hs _ hphase' =>
      rw [hs] at ht
      cases ht
      rcases hphase' with ⟨_, hc⟩ | ⟨_, hq⟩
      · rw [hphase] at hc
        cases hc
      · rw [hphase] at hq
        exact absurd hq id
    | moved _ _ hs _ hphase' =>
      rw [hs] at ht
      cases ht
      rcases hphase' with hq | ⟨hc, _⟩
      · rw [hphase] at hq
        exact absurd hq id
      · rw [hphase] at hc
        cases hc
    | ended _ hs _ =>
      rw [hs] at ht
      cases ht

theorem sound_init : Sound {} := ⟨by simp, by simp, by simp⟩

/-! ### A message that is not removed -/

/-- The message has its row, or nothing refers to it yet. -/
structure Kept (m : ℕ) (s : DmState) : Prop where
  row : (∃ row, s.rows.get m = some row) ∨
    (s.tasks.get m = none ∧ m ∉ s.acking ∧ Owned (fun m' _ => m' ≠ m) s)
  deleted : s.tables.deleted.get m = none

theorem kept_init (m : ℕ) : Kept m {} := ⟨Or.inr ⟨rfl, by simp, owned_init⟩, rfl⟩

theorem row_step (hstep : DmStep ev.pre ev.label ev.post) {m : ℕ}
    (hremoves : ¬ ev.label.Removes m) (h : ∃ row, ev.pre.rows.get m = some row) :
    ∃ row, ev.post.rows.get m = some row := by
  obtain ⟨row, hrow⟩ := h
  cases row_change hstep m with
  | same hs => exact ⟨row, hs.trans hrow⟩
  | counted hs => exact ⟨_, hs.trans (by rw [hrow]; rfl)⟩
  | failed _ _ hs => exact ⟨_, hs⟩
  | created _ _ hs => exact ⟨_, hs⟩
  | removed hop _ => exact absurd hop hremoves

theorem task_of_registration (hstep : DmStep ev.pre ev.label ev.post) {m : ℕ}
    {code : String} (hreg : registration ev = some (m, code)) :
    ∃ t, ev.pre.tasks.get m = some t := by
  obtain ⟨s, op, s'⟩ := ev
  dsimp only at hstep ⊢
  cases step_cases hstep with
  | registered hreg' ht hphase hcodes heq =>
    rw [hreg] at hreg'
    cases hreg'
    exact ⟨_, ht⟩
  | moved hop _ _ _ _ _ =>
    rw [hop] at hreg
    cases hreg
  | ackedEnd hop _ _ _ _ =>
    rw [hop] at hreg
    cases hreg
  | _ => cases hreg

/-- A message with an increment that starts is one of a credit. -/
theorem acking_step (hstep : DmStep ev.pre ev.label ev.post) {m : ℕ}
    (hm : m ∈ ev.post.acking) :
    m ∈ ev.pre.acking ∨ ∃ code, ev.label = .ack code ∧
      (ev.pre.tables.applyDmAckCode code ev.pre.clock).1 = some m := by
  obtain ⟨s, op, s'⟩ := ev
  dsimp only at hstep hm ⊢
  cases step_cases hstep with
  | @registered _ m' code timeoutMs t t' _ hreg ht hphase hcodes heq =>
    rcases applyAckTracking_cases m' code timeoutMs t' s with ⟨_, htrack⟩ | ⟨_, htrack⟩ <;>
      rw [heq, htrack] at hm <;> exact Or.inl hm
  | @counted m' t ht hphase =>
    have hacking := (incrementAckCount_frame m' s).2.1
    exact Or.inl (hacking ▸ hm)
  | @acked code =>
    rw [acking_ack] at hm
    rcases List.mem_append.mp hm with hm | hm
    · exact Or.inl hm
    · exact Or.inr ⟨code, rfl, Option.mem_toList.mp hm⟩
  | @incremented m' hm' =>
    have hacking := (incrementAckCount_frame m' { s with acking := s.acking.erase m' }).2.1
    rw [hacking] at hm
    exact Or.inl (List.mem_of_mem_erase hm)
  | _ => exact Or.inl hm

theorem deleted_step (hstep : DmStep ev.pre ev.label ev.post) {m : ℕ}
    (hremoves : ¬ ev.label.Removes m) (h : ev.pre.tables.deleted.get m = none) :
    ev.post.tables.deleted.get m = none := by
  obtain ⟨s, op, s'⟩ := ev
  dsimp only at hstep hremoves h ⊢
  cases step_cases hstep with
  | @registered _ m' code timeoutMs t t' _ hreg ht hphase hcodes heq =>
    rcases applyAckTracking_cases m' code timeoutMs t' s with ⟨_, htrack⟩ | ⟨_, htrack⟩ <;>
      rw [heq, htrack] <;> exact h
  | @counted m' t ht hphase =>
    have htables := (incrementAckCount_frame m' s).2.2.1
    change (s.incrementAckCount m').tables.deleted.get m = none
    rw [htables]
    exact h
  | @acked code =>
    have hspec := AckTables.applyDmAckCode_spec code s.clock s.tables
    rw [tables_ack, Option.eq_none_iff_forall_ne_some]
    intro t ht
    rw [hspec.deleted ht] at h
    cases h
  | @incremented m' hm' =>
    have htables := (incrementAckCount_frame m' { s with acking := s.acking.erase m' }).2.2.1
    rw [htables]
    exact h
  | @requestDelete m' =>
    have hm : m ≠ m' := fun heq => hremoves heq.symm
    exact (Table.get_set_of_ne _ _ hm).trans h
  | _ => exact h

theorem Kept.step (h : Kept m ev.pre)
    (hstep : DmStep ev.pre ev.label ev.post) (hremoves : ¬ ev.label.Removes m) :
    Kept m ev.post := by
  refine ⟨?_, deleted_step hstep hremoves h.deleted⟩
  rcases h.row with hrow | ⟨htask, hacking, howned⟩
  · exact Or.inl (row_step hstep hremoves hrow)
  have hnew : ∀ {t}, ev.pre.tasks.get m ≠ some t := by
    intro t ht
    rw [htask] at ht
    cases ht
  -- nothing refers to the message, so only its creation can concern it
  cases task_change hstep m with
  | same hs =>
    refine Or.inr ⟨hs.trans htask, ?_, howned.step hstep ?_⟩
    · intro hm
      rcases acking_step hstep hm with hm | ⟨code, _, hmatch⟩
      · exact hacking hm
      · have hspec := AckTables.applyDmAckCode_spec code ev.pre.clock ev.pre.tables
        rcases hspec.matched_of hmatch with ⟨e, he, rfl⟩ | ⟨e, he, rfl⟩
        · exact howned.pending he rfl
        · exact howned.failed he rfl
    · rintro m' code hreg rfl
      obtain ⟨t, ht⟩ := task_of_registration hstep hreg
      exact hnew ht
  | started _ hrow _ => exact Or.inl ⟨_, hrow⟩
  | registered _ ht _ _ _ _ => exact absurd ht hnew
  | moved ht _ _ _ _ => exact absurd ht hnew
  | ended ht _ _ => exact absurd ht hnew

/-! ### Counted messages stay counted -/

theorem recorded_of_counted_row {s s' : DmState}
    (hrow : ∃ row, s.rows.get m = some row) (h : s'.rows.get m =
      (s.rows.get m).map (fun row => ⟨row.acked + 1, none⟩)) : s'.Recorded m := by
  obtain ⟨row, hrow⟩ := hrow
  rw [hrow] at h
  exact ⟨_, h, Nat.succ_pos _, rfl⟩

theorem Recorded.step (h : ev.pre.Recorded m)
    (hstep : DmStep ev.pre ev.label ev.post) (hsound : ev.pre.Sound)
    (hremoves : ¬ ev.label.Removes m) : ev.post.Recorded m := by
  obtain ⟨row, hrow, hacked, hfailed⟩ := h
  cases row_change hstep m with
  | same hs => exact ⟨row, hs.trans hrow, hacked, hfailed⟩
  | counted hs => exact recorded_of_counted_row ⟨row, hrow⟩ hs
  | failed hrow' hzero _ =>
    rw [hrow] at hrow'
    cases hrow'
    omega
  | created hid _ _ => exact absurd (hsound.ids hrow) (by omega)
  | removed hop _ => exact absurd hop hremoves

/-- An increment that starts is under way until the row is counted. -/
theorem Counted.step (h : ev.pre.Counted m)
    (hstep : DmStep ev.pre ev.label ev.post) (hsound : ev.pre.Sound)
    (hrow : ∃ row, ev.pre.rows.get m = some row) (hremoves : ¬ ev.label.Removes m) :
    ev.post.Counted m := by
  rcases h with h | h | ⟨t, ht, hphase⟩
  · exact Or.inl (h.step hstep hsound hremoves)
  · -- an ACK that arrived
    obtain ⟨s, op, s'⟩ := ev
    dsimp only at hstep hrow hremoves h ⊢
    cases step_cases hstep with
    | @registered _ m' code timeoutMs t t' _ hreg ht hphase hcodes heq =>
      rcases applyAckTracking_cases m' code timeoutMs t' s with ⟨_, htrack⟩ | ⟨_, htrack⟩ <;>
        rw [heq, htrack] <;> exact Or.inr (Or.inl h)
    | @counted m' t ht hphase =>
      have hacking := (incrementAckCount_frame m' s).2.1
      exact Or.inr (Or.inl (hacking.symm ▸ h))
    | @acked code =>
      refine Or.inr (Or.inl ?_)
      rw [acking_ack]
      exact List.mem_append_left _ h
    | @incremented m' hm' =>
      by_cases hm : m = m'
      · subst hm
        have hrows := rows_incrementAckCount m m { s with acking := s.acking.erase m }
        rw [if_pos rfl] at hrows
        exact Or.inl (recorded_of_counted_row hrow hrows)
      · have hacking :=
          (incrementAckCount_frame m' { s with acking := s.acking.erase m' }).2.1
        refine Or.inr (Or.inl ?_)
        rw [hacking]
        exact (List.mem_erase_of_ne hm).mpr h
    | _ => exact Or.inr (Or.inl h)
  · -- an ACK that was there before its registration
    cases task_change hstep m with
    | same hs => exact Or.inr (Or.inr ⟨t, hs.trans ht, hphase⟩)
    | started hid _ _ =>
      obtain ⟨row, hrow⟩ := hrow
      exact absurd (hsound.ids hrow) (by omega)
    | registered _ ht' hphase' _ _ _ =>
      rw [ht] at ht'
      cases ht'
      exact absurd hphase hphase'.1
    | moved ht' hphase' _ _ _ =>
      rw [ht] at ht'
      cases ht'
      rw [hphase] at hphase'
      exact absurd hphase' id
    | ended ht' _ hwhy =>
      rw [ht] at ht'
      cases ht'
      rcases hwhy with ⟨hquiet, _⟩ | hfirst | ⟨_, hrows⟩ | ⟨htracking, _⟩
      · rw [hphase] at hquiet
        exact absurd hquiet id
      · rw [hphase] at hfirst
        cases hfirst
      · exact Or.inl (recorded_of_counted_row hrow hrows)
      · rw [hphase] at htracking
        cases htracking

theorem clock_mono (hstep : DmStep ev.pre ev.label ev.post) :
    ev.pre.clock ≤ ev.post.clock :=
  (counters_mono hstep).2

/-! ### Codes that an ACK still finds -/

section Codes

variable {m : ℕ} {code : String} {R : ℕ → String → Prop} {ev : DmEvent} {h : List DmEvent}
  {s : DmState}

/-- The message was marked failed, and its code is held for late ACKs or the
grace time is over. -/
def Held (m : ℕ) (code : String) (h : List DmEvent) (s : DmState) : Prop :=
  ∃ ev ∈ h, MarksFailed m ev ∧
    ((∃ e, s.tables.failed.get code = some e ∧ e.messageId = m ∧ ev.pre.clock ≤ e.failedAt) ∨
      ev.pre.clock + failedAckGraceSeconds < s.clock)

/-- The message is counted, goes on with its code, or holds it as failed. -/
def Matchable (m : ℕ) (code : String) (h : List DmEvent) (s : DmState) : Prop :=
  s.Counted m ∨ s.Retrying m code ∨ Held m code h s

/-- A held code stays with its message, unless its time is over or the message is
counted. -/
theorem failed_step (hstep : DmStep ev.pre ev.label ev.post)
    (howned : Owned R ev.pre) (huniq : ∀ m', R m' code → m' = m)
    (hremoves : ¬ ev.label.Removes m) {e : FailedAck}
    (he : ev.pre.tables.failed.get code = some e) (hm : e.messageId = m) :
    (∃ e', ev.post.tables.failed.get code = some e' ∧ e'.messageId = m ∧
        (e' = e ∨ e'.failedAt = ev.pre.clock)) ∨
      e.expired ev.pre.clock = true ∨ ev.post.Counted m := by
  have hkept : ev.post.tables.failed.get code = some e →
      ∃ e', ev.post.tables.failed.get code = some e' ∧ e'.messageId = m ∧
        (e' = e ∨ e'.failedAt = ev.pre.clock) := fun h => ⟨e, h, hm, Or.inl rfl⟩
  obtain ⟨s, op, s'⟩ := ev
  dsimp only at hstep howned hremoves he hkept ⊢
  cases step_cases hstep with
  | @registered _ m' code' timeoutMs t t' _ hreg ht hphase hcodes heq =>
    rcases applyAckTracking_cases m' code' timeoutMs t' s with ⟨_, htrack⟩ | ⟨_, htrack⟩
    · by_cases hmm : m' = m
      · subst hmm
        have hcounting : s'.tasks.get m' = some { t' with phase := .counting } := by
          rw [heq, htrack]
          exact Table.get_set_self ..
        exact Or.inr (Or.inr (Or.inr (Or.inr ⟨_, hcounting, rfl⟩)))
      · refine Or.inl (hkept ?_)
        rw [heq, htrack]
        exact AckTables.failed_clearPendingAcksForMessage he (fun h => hmm (h.symm.trans hm))
    · refine Or.inl (hkept ?_)
      rw [heq, htrack]
      exact he
  | @counted m' t ht hphase =>
    refine Or.inl (hkept ?_)
    change (s.incrementAckCount m').tables.failed.get code = some e
    rw [(incrementAckCount_frame m' s).2.2.1]
    exact he
  | @tracked m' t ht hphase =>
    left
    by_cases hc : code ∈ t.ackCodes
    · obtain rfl := huniq m' (howned.codes ht code hc)
      refine ⟨⟨m', s.clock⟩, ?_, rfl, Or.inr rfl⟩
      exact (Table.get_setAll ..).trans (if_pos hc)
    · refine hkept ?_
      exact ((Table.get_setAll ..).trans (if_neg hc)).trans he
  | @acked code' =>
    have hspec := AckTables.applyDmAckCode_spec code' s.clock s.tables
    rcases hspec.failed_kept he with h | h | h
    · refine Or.inl (hkept ?_)
      rw [tables_ack]
      exact h
    · exact Or.inr (Or.inl h)
    · refine Or.inr (Or.inr (Or.inr (Or.inl ?_)))
      rw [acking_ack, h, hm]
      exact List.mem_append_right _ (List.mem_singleton_self m)
  | @incremented m' hm' =>
    refine Or.inl (hkept ?_)
    rw [(incrementAckCount_frame m' { s with acking := s.acking.erase m' }).2.2.1]
    exact he
  | @requestDelete m' | @dropCodes m' =>
    have hmm : e.messageId ≠ m' := fun h => hremoves (h.symm.trans hm)
    exact Or.inl (hkept (AckTables.failed_clearPendingAcksForMessage he hmm))
  | _ => exact Or.inl (hkept he)

theorem Held.step (hheld : Held m code h ev.pre)
    (hstep : DmStep ev.pre ev.label ev.post) (howned : Owned R ev.pre)
    (huniq : ∀ m', R m' code → m' = m) (hremoves : ¬ ev.label.Removes m)
    (hclocks : ∀ ev' ∈ h, ev'.pre.clock ≤ ev.pre.clock) :
    ev.post.Counted m ∨ Held m code (h ++ [ev]) ev.post := by
  obtain ⟨evf, hevf, hmarks, hwhere⟩ := hheld
  have hmono := clock_mono hstep
  have hmem : evf ∈ h ++ [ev] := List.mem_append_left _ hevf
  rcases hwhere with ⟨e, he, hm, hle⟩ | hover
  · rcases failed_step hstep howned huniq hremoves he hm with ⟨e', he', hm', hwhen⟩ | hexp | hc
    · refine Or.inr ⟨evf, hmem, hmarks, Or.inl ⟨e', he', hm', ?_⟩⟩
      rcases hwhen with rfl | hnow
      · exact hle
      · rw [hnow]
        exact hclocks evf hevf
    · refine Or.inr ⟨evf, hmem, hmarks, Or.inr ?_⟩
      have hage : ev.pre.clock - e.failedAt > failedAckGraceSeconds := of_decide_eq_true hexp
      linarith
    · exact Or.inl hc
  · exact Or.inr ⟨evf, hmem, hmarks, Or.inr (lt_of_lt_of_le hover hmono)⟩

/-- A message whose send is about to track its codes was marked failed. -/
def Marked (m : ℕ) (h : List DmEvent) (s : DmState) : Prop :=
  ∀ t, s.tasks.get m = some t → t.phase = .tracking → ∃ ev ∈ h, MarksFailed m ev

theorem Marked.step (hpre : Marked m h ev.pre)
    (hstep : DmStep ev.pre ev.label ev.post) : Marked m (h ++ [ev]) ev.post := by
  intro t ht hphase
  have hlast : ev ∈ h ++ [ev] := List.mem_append_right _ (List.mem_singleton_self ev)
  cases task_change hstep m with
  | same hs =>
    obtain ⟨ev', hev', hmarks⟩ := hpre t (hs ▸ ht) hphase
    exact ⟨ev', List.mem_append_left _ hev', hmarks⟩
  | started _ _ hs =>
    obtain ⟨t', ht', _, hfirst⟩ := hs
    rw [ht] at ht'
    cases ht'
    rw [hphase] at hfirst
    cases hfirst
  | registered _ _ _ hs _ hphase' =>
    rw [hs] at ht
    cases ht
    rw [hphase] at hphase'
    rcases hphase' with ⟨_, hc⟩ | ⟨_, hq⟩
    · cases hc
    · exact absurd hq id
  | moved _ _ hs _ hphase' =>
    rw [hs] at ht
    cases ht
    rcases hphase' with hq | ⟨_, hmarks⟩
    · rw [hphase] at hq
      exact absurd hq id
    · exact ⟨ev, hlast, hmarks⟩
  | ended _ hs _ =>
    rw [hs] at ht
    cases ht

/-- A send with the code goes on with it, or ends counted or held as failed. -/
theorem Retrying.step (hretry : ev.pre.Retrying m code)
    (hstep : DmStep ev.pre ev.label ev.post) (hsound : ev.pre.Sound) (hkept : Kept m ev.pre)
    (hmarked : Marked m h ev.pre) (hclocks : ∀ ev' ∈ h, ev'.pre.clock ≤ ev.pre.clock)
    (hremoves : ¬ ev.label.Removes m) : Matchable m code (h ++ [ev]) ev.post := by
  obtain ⟨t, ht, hcode⟩ := hretry
  have hrow : ∃ row, ev.pre.rows.get m = some row := by
    rcases hkept.row with hrow | ⟨hnone, _, _⟩
    · exact hrow
    · rw [ht] at hnone
      cases hnone
  have hfirst : t.phase ≠ .first := by
    intro hphase
    rw [hsound.first ht hphase] at hcode
    cases hcode
  cases task_change hstep m with
  | same hs => exact Or.inr (Or.inl ⟨t, hs.trans ht, hcode⟩)
  | started hid _ _ =>
    obtain ⟨row, hrow⟩ := hrow
    exact absurd (hsound.ids hrow) (by omega)
  | registered _ ht' _ hs hcodes _ =>
    rw [ht] at ht'
    cases ht'
    refine Or.inr (Or.inl ⟨_, hs, ?_⟩)
    rcases hcodes with ⟨hphase, _⟩ | hcodes
    · exact absurd hphase hfirst
    · rw [hcodes]
      exact List.mem_append_left _ hcode
  | moved ht' _ hs hcodes _ =>
    rw [ht] at ht'
    cases ht'
    exact Or.inr (Or.inl ⟨_, hs, hcodes ▸ hcode⟩)
  | ended ht' _ hwhy =>
    rw [ht] at ht'
    cases ht'
    rcases hwhy with ⟨_, hacked | hgone | hdeleted⟩ | hphase | ⟨_, hrows⟩ | ⟨hphase, htables⟩
    · -- the send has read an ACK count
      obtain ⟨row, hrow⟩ := hrow
      have hpos : 0 < row.acked := by
        simp only [isMessageAcked, hrow] at hacked
        exact of_decide_eq_true hacked
      have hrec : ev.pre.Recorded m := ⟨row, hrow, hpos, hsound.unfailed hrow hpos⟩
      exact Or.inl (Or.inl (hrec.step hstep hsound hremoves))
    · obtain ⟨row, hrow⟩ := hrow
      rw [hrow] at hgone
      cases hgone
    · rw [AckTables.isMessageDeleted, hkept.deleted] at hdeleted
      cases hdeleted
    · exact absurd hphase hfirst
    · exact Or.inl (Or.inl (recorded_of_counted_row hrow hrows))
    · -- the codes of the failed message are held from now on
      obtain ⟨evf, hevf, hmarks⟩ := hmarked t ht hphase
      refine Or.inr (Or.inr ⟨evf, List.mem_append_left _ hevf, hmarks, Or.inl ?_⟩)
      refine ⟨⟨m, ev.pre.clock⟩, ?_, rfl, hclocks evf hevf⟩
      rw [htables]
      exact (Table.get_setAll ..).trans (if_pos hcode)

theorem Kept.row_of_counted (hkept : Kept m s) (h : s.Counted m) :
    ∃ row, s.rows.get m = some row := by
  rcases hkept.row with hrow | ⟨htask, hacking, _⟩
  · exact hrow
  rcases h with ⟨row, hrow, _⟩ | hm | ⟨t, ht, _⟩
  · exact ⟨row, hrow⟩
  · exact absurd hm hacking
  · rw [htask] at ht
    cases ht

theorem matched_eq (howned : Owned R s) (huniq : ∀ m', R m' code → m' = m)
    {m' : ℕ} (h : (s.tables.applyDmAckCode code s.clock).1 = some m') : m' = m := by
  have hspec := AckTables.applyDmAckCode_spec code s.clock s.tables
  rcases hspec.matched_of h with ⟨e, he, rfl⟩ | ⟨e, he, rfl⟩
  · exact huniq _ (howned.pending he)
  · exact huniq _ (howned.failed he)

theorem counted_of_matched
    (h : (s.tables.applyDmAckCode code s.clock).1 = some m) : (s.ack code).Counted m := by
  refine Or.inr (Or.inl ?_)
  rw [acking_ack, h]
  exact List.mem_append_right _ (List.mem_singleton_self m)

/-- **An ACK in time.** An ACK counts a message that can be matched, unless it
finds the code expired or the grace time over. -/
theorem counted_of_ack (hmatch : Matchable m code h s)
    (hsound : s.Sound) (hkept : Kept m s) (howned : Owned R s)
    (huniq : ∀ m', R m' code → m' = m) (hexpired : ¬ s.Expired m code)
    (hgrace : ∀ ev ∈ h, MarksFailed m ev → s.clock ≤ ev.pre.clock + failedAckGraceSeconds) :
    (s.ack code).Counted m := by
  by_cases hcounted : s.Counted m
  · let ev : DmEvent := ⟨s, .ack code, s.ack code⟩
    have hpre : ev.pre.Counted m := hcounted
    exact hpre.step rfl hsound (hkept.row_of_counted hcounted) id
  have hspec := AckTables.applyDmAckCode_spec code s.clock s.tables
  -- an entry of the code that has not expired is matched
  have hfresh : (s.tables.applyDmAckCode code s.clock).1 ≠ none := by
    intro hnone
    rcases hmatch with h | hretry | ⟨ev, hev, hmarks, hwhere⟩
    · exact hcounted h
    · exact hexpired ⟨hretry, hcounted, fun e he _ => hspec.pending_expired hnone he⟩
    · have hage := hgrace ev hev hmarks
      rcases hwhere with ⟨e, he, _, hle⟩ | hover
      · have hold : s.clock - e.failedAt > failedAckGraceSeconds :=
          of_decide_eq_true (hspec.failed_expired hnone he)
        linarith
      · exact absurd hage (not_le.mpr hover)
  obtain ⟨m', hm'⟩ := Option.ne_none_iff_exists'.mp hfresh
  obtain rfl := matched_eq howned huniq hm'
  exact counted_of_matched hm'

/-- A registration leaves its code to the send that goes on, or counts the
message at once. -/
theorem registered_step (hstep : DmStep ev.pre ev.label ev.post)
    (hreg : registration ev = some (m, code)) :
    ev.post.Retrying m code ∧
      ((∃ b, ev.pre.tables.buffered.get code = some b) → ev.post.Counted m) := by
  obtain ⟨s, op, s'⟩ := ev
  dsimp only at hstep ⊢
  cases step_cases hstep with
  | @registered _ m' code' timeoutMs t t' _ hreg' ht hphase hcodes heq =>
    rw [hreg] at hreg'
    cases hreg'
    have hmem : code ∈ t'.ackCodes := by
      rcases hcodes with ⟨_, hcodes⟩ | hcodes
      · rw [hcodes]
        exact List.mem_singleton_self code
      · rw [hcodes]
        exact List.mem_append_right _ (List.mem_singleton_self code)
    rcases applyAckTracking_cases m code timeoutMs t' s with ⟨_, htrack⟩ | ⟨hb, htrack⟩
    · have hpost : s'.tasks.get m = some { t' with phase := .counting } := by
        rw [heq, htrack]
        exact Table.get_set_self ..
      exact ⟨⟨_, hpost, hmem⟩, fun _ => Or.inr (Or.inr ⟨_, hpost, rfl⟩)⟩
    · have hpost : s'.tasks.get m = some (t'.sleep s.clock) := by
        rw [heq, htrack]
        exact Table.get_set_self ..
      refine ⟨⟨_, hpost, hmem⟩, ?_⟩
      rintro ⟨b, hb'⟩
      rw [hb] at hb'
      cases hb'
  | moved hop _ _ _ _ _ =>
    rw [hop] at hreg
    cases hreg
  | ackedEnd hop _ _ _ _ =>
    rw [hop] at hreg
    cases hreg
  | _ => cases hreg

/-- An ACK that arrived at a time has counted the message, waits for the
registration of its code, or is too old. -/
def Waiting (m : ℕ) (code : String) (arrival : ℚ) (s : DmState) : Prop :=
  s.Counted m ∨ (∃ b, s.tables.buffered.get code = some b ∧ arrival ≤ b) ∨
    arrival + bufferedAckTtlSeconds < s.clock

/-- A buffered code stays until it is registered, matched or too old. -/
theorem buffered_step (hstep : DmStep ev.pre ev.label ev.post)
    (howned : Owned R ev.pre) (huniq : ∀ m', R m' code → m' = m)
    (hreg : ∀ m', registration ev = some (m', code) → m' = m) {b arrival : ℚ}
    (hb : ev.pre.tables.buffered.get code = some b) (hle : arrival ≤ b)
    (hnow : arrival ≤ ev.pre.clock) : Waiting m code arrival ev.post := by
  have hkept : ev.post.tables.buffered.get code = some b → Waiting m code arrival ev.post :=
    fun h => Or.inr (Or.inl ⟨b, h, hle⟩)
  have hregistered : registration ev = some (m, code) →
      (∃ b, ev.pre.tables.buffered.get code = some b) → ev.post.Counted m :=
    fun h => (registered_step hstep h).2
  obtain ⟨s, op, s'⟩ := ev
  dsimp only at hstep howned hb hnow hkept hregistered ⊢
  cases step_cases hstep with
  | @registered _ m' code' timeoutMs t t' _ hreg' ht hphase hcodes heq =>
    by_cases hc : code = code'
    · subst hc
      obtain rfl := hreg m' hreg'
      exact Or.inl (hregistered hreg' ⟨b, hb⟩)
    · refine hkept ?_
      rcases applyAckTracking_cases m' code' timeoutMs t' s with ⟨_, htrack⟩ | ⟨_, htrack⟩
      · rw [heq, htrack]
        exact (Table.get_erase_of_ne _ hc).trans hb
      · rw [heq, htrack]
        exact hb
  | @counted m' t ht hphase =>
    refine hkept ?_
    change (s.incrementAckCount m').tables.buffered.get code = some b
    rw [(incrementAckCount_frame m' s).2.2.1]
    exact hb
  | @acked code' =>
    have hspec := AckTables.applyDmAckCode_spec code' s.clock s.tables
    rcases hspec.buffered_kept hb with ⟨b', hb', hwhen⟩ | hold
    · refine Or.inr (Or.inl ⟨b', ?_, ?_⟩)
      · rw [tables_ack]
        exact hb'
      · rcases hwhen with rfl | rfl
        · exact hle
        · exact hnow
    · refine Or.inr (Or.inr ?_)
      rw [(ack_frame code' s).2.2.1]
      linarith
  | @incremented m' hm' =>
    refine hkept ?_
    rw [(incrementAckCount_frame m' { s with acking := s.acking.erase m' }).2.2.1]
    exact hb
  | _ => exact hkept hb

theorem Waiting.step {arrival : ℚ} (h : Waiting m code arrival ev.pre)
    (hstep : DmStep ev.pre ev.label ev.post) (hsound : ev.pre.Sound) (hkept : Kept m ev.pre)
    (howned : Owned R ev.pre) (huniq : ∀ m', R m' code → m' = m)
    (hreg : ∀ m', registration ev = some (m', code) → m' = m)
    (hremoves : ¬ ev.label.Removes m) (hnow : arrival ≤ ev.pre.clock) :
    Waiting m code arrival ev.post := by
  rcases h with h | ⟨b, hb, hle⟩ | h
  · exact Or.inl (h.step hstep hsound (hkept.row_of_counted h) hremoves)
  · exact buffered_step hstep howned huniq hreg hb hle hnow
  · exact Or.inr (Or.inr (lt_of_lt_of_le h (clock_mono hstep)))

theorem waiting_of_ack (howned : Owned R s) (huniq : ∀ m', R m' code → m' = m) :
    Waiting m code s.clock (s.ack code) := by
  have hspec := AckTables.applyDmAckCode_spec code s.clock s.tables
  cases hmatched : (s.tables.applyDmAckCode code s.clock).1 with
  | none =>
    refine Or.inr (Or.inl ⟨s.clock, ?_, le_refl _⟩)
    rw [tables_ack]
    exact hspec.buffered_of_unmatched hmatched
  | some m' =>
    obtain rfl := matched_eq howned huniq hmatched
    exact Or.inl (counted_of_matched hmatched)

end Codes

/-! ### Runs -/

/-- An ACK arrives for a message whose send goes on without it, after the code
has expired. -/
def LateArrival (ev : DmEvent) : Prop := ∃ m code, ev.label = .ack code ∧ ev.pre.Expired m code

/-- An ACK of an attempt of the message arrives in time: after the code was
registered and not later than the grace time after the message was marked failed,
or a short time before the registration. -/
def InTime (m : ℕ) (code : String) (h : List DmEvent) : Prop :=
  ∃ g ev, g ++ [ev] <+: h ∧
    ((ev.label = .ack code ∧ (∃ r ∈ g, registration r = some (m, code)) ∧
        ∀ f ∈ g, MarksFailed m f → ev.pre.clock ≤ f.pre.clock + failedAckGraceSeconds) ∨
      (registration ev = some (m, code) ∧
        ∃ a ∈ g, a.label = .ack code ∧ ev.pre.clock ≤ a.pre.clock + bufferedAckTtlSeconds))

section Runs

variable {m : ℕ} {code : String} {R : ℕ → String → Prop} {ev : DmEvent} {h : List DmEvent}

/-- What the events so far say about the message and the code. -/
structure Delivering (m : ℕ) (code : String) (R : ℕ → String → Prop) (h : List DmEvent)
    (s : DmState) : Prop where
  sound : s.Sound
  kept : Kept m s
  owned : Owned R s
  marked : Marked m h s
  clocks : ∀ ev ∈ h, ev.pre.clock ≤ s.clock
  matchable : (∃ r ∈ h, registration r = some (m, code)) → Matchable m code h s
  waiting : ∀ a ∈ h, a.label = .ack code → Waiting m code a.pre.clock s
  inTime : InTime m code h → s.Counted m

theorem delivering_init : Delivering m code R [] {} where
  sound := sound_init
  kept := kept_init m
  owned := owned_init
  marked := by
    intro t ht
    cases ht
  clocks := by simp
  matchable := by simp
  waiting := by simp
  inTime := by
    rintro ⟨g, ev, hprefix, _⟩
    simp at hprefix

theorem Matchable.step (hpre : Delivering m code R h ev.pre)
    (hmatch : Matchable m code h ev.pre) (hstep : DmStep ev.pre ev.label ev.post)
    (huniq : ∀ m', R m' code → m' = m) (hremoves : ¬ ev.label.Removes m) :
    Matchable m code (h ++ [ev]) ev.post := by
  rcases hmatch with hcounted | hretry | hheld
  · have hrow := hpre.kept.row_of_counted hcounted
    exact Or.inl (hcounted.step hstep hpre.sound hrow hremoves)
  · exact hretry.step hstep hpre.sound hpre.kept hpre.marked hpre.clocks hremoves
  · rcases hheld.step hstep hpre.owned huniq hremoves hpre.clocks with h | h
    · exact Or.inl h
    · exact Or.inr (Or.inr h)

/-- An ACK in time, or a registration in time after an ACK, counts the message. -/
theorem Delivering.inTime_step
    (hpre : Delivering m code R h ev.pre) (hstep : DmStep ev.pre ev.label ev.post)
    (huniq : ∀ m', R m' code → m' = m) (hremoves : ¬ ev.label.Removes m)
    (hlate : ¬ LateArrival ev) (hin : InTime m code (h ++ [ev])) : ev.post.Counted m := by
  obtain ⟨g, ev', hprefix, hwhy⟩ := hin
  rcases List.prefix_concat_iff.mp hprefix with heq | hprefix
  · obtain ⟨rfl, hlast⟩ := List.append_inj' heq rfl
    obtain rfl := List.singleton_inj.mp hlast
    rcases hwhy with ⟨hop, hreg, hgrace⟩ | ⟨hreg, a, ha, hop, hclock⟩
    · have hexpired : ¬ ev'.pre.Expired m code := fun h => hlate ⟨m, code, hop, h⟩
      have hack : ev'.post = ev'.pre.ack code := by
        rw [hop] at hstep
        exact (Option.some.inj hstep).symm
      rw [hack]
      exact counted_of_ack (hpre.matchable hreg) hpre.sound hpre.kept hpre.owned huniq hexpired
        hgrace
    · rcases hpre.waiting a ha hop with hcounted | ⟨b, hb, _⟩ | hold
      · exact hcounted.step hstep hpre.sound (hpre.kept.row_of_counted hcounted) hremoves
      · exact (registered_step hstep hreg).2 ⟨b, hb⟩
      · exact absurd hclock (not_le.mpr hold)
  · have hcounted := hpre.inTime ⟨g, ev', hprefix, hwhy⟩
    exact hcounted.step hstep hpre.sound (hpre.kept.row_of_counted hcounted) hremoves

theorem Delivering.step
    (hpre : Delivering m code R h ev.pre) (hstep : DmStep ev.pre ev.label ev.post)
    (huniq : ∀ m', R m' code → m' = m)
    (hreg : ∀ m' c, registration ev = some (m', c) → R m' c)
    (hremoves : ¬ ev.label.Removes m) (hlate : ¬ LateArrival ev) :
    Delivering m code R (h ++ [ev]) ev.post where
  sound := hpre.sound.step hstep
  kept := hpre.kept.step hstep hremoves
  owned := hpre.owned.step hstep hreg
  marked := hpre.marked.step hstep
  clocks := by
    intro ev' hev'
    have hmono := clock_mono hstep
    rcases List.mem_append.mp hev' with hev' | hev'
    · exact (hpre.clocks ev' hev').trans hmono
    · rw [List.mem_singleton.mp hev']
      exact hmono
  matchable := by
    rintro ⟨r, hr, hregr⟩
    rcases List.mem_append.mp hr with hr | hr
    · exact (hpre.matchable ⟨r, hr, hregr⟩).step hpre hstep huniq hremoves
    · obtain rfl := List.mem_singleton.mp hr
      exact Or.inr (Or.inl (registered_step hstep hregr).1)
  waiting := by
    intro a ha hop
    rcases List.mem_append.mp ha with ha | ha
    · exact (hpre.waiting a ha hop).step hstep hpre.sound hpre.kept hpre.owned huniq
        (fun m' hr => huniq m' (hreg m' code hr)) hremoves (hpre.clocks a ha)
    · obtain rfl := List.mem_singleton.mp ha
      have hack : a.post = a.pre.ack code := by
        rw [hop] at hstep
        exact (Option.some.inj hstep).symm
      rw [hack]
      exact waiting_of_ack hpre.owned huniq
  inTime := hpre.inTime_step hstep huniq hremoves hlate

end Runs

/-- No two messages register the same code. -/
def CodesUnique (h : List DmEvent) : Prop :=
  ∀ r ∈ h, ∀ r' ∈ h, ∀ m m' code, registration r = some (m, code) →
    registration r' = some (m', code) → m = m'

/-- **Delivery.** Every ACK counts for one message at most, which has registered
its code. When no ACK finds its code expired in a send that goes on and no two
messages share a code, every ACK in time counts its message. -/
theorem ack_delivered {h : List DmEvent} {s : DmState} (r : Run DmStep {} h s) :
    ((∀ code, creditsOf code h ≤ arrivalsOf code h) ∧
      (∀ ev ∈ h, ∀ m code, credit ev = some (m, code) →
        ∃ r ∈ h, registration r = some (m, code)) ∧
      ∀ m, s.ackCount m ≤ creditsFor m h) ∧
    ((∀ ev ∈ h, ¬ LateArrival ev) → CodesUnique h →
      ∀ m code, (∀ ev ∈ h, ¬ ev.label.Removes m) → InTime m code h → s.Counted m) := by
  refine ⟨⟨?_, ?_, ?_⟩, ?_⟩
  · intro code
    exact (Nat.le_add_right _ _).trans (creditsOf_le_arrivalsOf r code)
  · intro ev hev m code hcredit
    obtain ⟨h₁, h₂, rfl⟩ := List.append_of_mem hev
    rcases (owned_of_run r.at_event.1).credit hcredit with hreg | ⟨ev', hev', hreg⟩
    · exact ⟨ev, hev, hreg⟩
    · exact ⟨ev', List.mem_append_left _ hev', hreg⟩
  · intro m
    have hle := credited_le_creditsFor r m
    unfold credited at hle
    omega
  · intro hlate hcodes m code hremoves hin
    have huniq : ∀ m', (∃ r ∈ h, registration r = some (m', code)) → m' = m := by
      rintro m' ⟨r', hr', hreg'⟩
      obtain ⟨g, ev, ⟨tail, rfl⟩, hwhy⟩ := hin
      rcases hwhy with ⟨_, ⟨r'', hr'', hreg''⟩, _⟩ | ⟨hreg'', _⟩
      · exact hcodes r' hr' r'' (by simp [hr'']) m' m code hreg' hreg''
      · exact hcodes r' hr' ev (by simp) m' m code hreg' hreg''
    refine (r.history
      (P := Delivering m code (fun m' c => ∃ r ∈ h, registration r = some (m', c)))
      (C := fun ev => ev ∈ h) (fun ev hev => hev) delivering_init ?_).inTime hin
    intro g ev hstep hev hpre
    exact hpre.step hstep huniq (fun m' c hreg => ⟨ev, hev, hreg⟩) (hremoves ev hev) (hlate ev hev)

/-! ### The delivery state -/

variable {row : MessageRow} {s₁ s₂ : DmState} {h₁ h₂ : List DmEvent}

/-- The message has a row that is not behind the given one: no ACK is taken back,
and a failed message is failed still or has been counted. -/
def NotBehind (m : ℕ) (row : MessageRow) (s : DmState) : Prop :=
  ∃ row', s.rows.get m = some row' ∧ row.acked ≤ row'.acked ∧
    (row.failedAt.isSome = true → row'.failedAt.isSome = true ∨ 0 < row'.acked)

theorem NotBehind.step (h : NotBehind m row ev.pre) (hstep : DmStep ev.pre ev.label ev.post)
    (hsound : ev.pre.Sound) (hremoves : ¬ ev.label.Removes m) : NotBehind m row ev.post := by
  obtain ⟨row', hrow', hacked, hfailed⟩ := h
  cases row_change hstep m with
  | same hs => exact ⟨row', hs.trans hrow', hacked, hfailed⟩
  | counted hs =>
    rw [hrow'] at hs
    exact ⟨_, hs, hacked.trans (Nat.le_succ _), fun _ => Or.inr (Nat.succ_pos _)⟩
  | failed hrow'' _ hs =>
    obtain rfl := Option.some.inj (hrow'.symm.trans hrow'')
    exact ⟨_, hs, hacked, fun _ => Or.inl rfl⟩
  | created hid _ _ => exact absurd (hsound.ids hrow') (Nat.not_le.mpr hid)
  | removed hop _ => exact absurd hop hremoves

/-- **The delivery state never goes back.** From any reachable state on, whatever
comes in and in whatever order, a message that is not removed keeps its ACKs; it
stays failed until counted, and what is counted is not failed. -/
theorem delivery_never_goes_back (r₁ : Run DmStep {} h₁ s₁) (r₂ : Run DmStep s₁ h₂ s₂)
    (hrow : s₁.rows.get m = some row) (hremoves : ∀ ev ∈ h₂, ¬ ev.label.Removes m) :
    NotBehind m row s₂ ∧
      ∀ row', s₂.rows.get m = some row' → 0 < row'.acked → row'.failedAt = none := by
  have hsound : s₁.Sound :=
    r₁.invariant (fun _ _ => trivial) (fun _ hstep _ hpre => hpre.step hstep) sound_init
  have hboth : s₂.Sound ∧ NotBehind m row s₂ := by
    refine r₂.invariant (P := fun s => s.Sound ∧ NotBehind m row s) hremoves ?_
      ⟨hsound, row, hrow, le_rfl, Or.inl⟩
    intro ev hstep hkeep hpre
    exact ⟨hpre.1.step hstep, hpre.2.step hstep hpre.1 hkeep⟩
  exact ⟨hboth.2, fun _ hrow' => hboth.1.unfailed hrow'⟩

/-- A new message, and an ACK of something else. -/
theorem delivery_never_goes_back_strayAck : ∃ s, NotBehind 1 {} s ∧
    ∀ row', s.rows.get 1 = some row' → 0 < row'.acked → row'.failedAt = none := by
  have r₁ : Run DmStep {} [⟨{}, .create 1, _⟩] _ := Run.single rfl
  have hstep : ∀ s : DmState, DmStep s (.ack "aa") (s.ack "aa") := fun _ => rfl
  exact ⟨_, delivery_never_goes_back r₁ (Run.single (hstep _)) rfl (by simp [DmOp.Removes])⟩

/-! ### A late and an early ACK -/

variable {h : List DmEvent}

theorem map_label_of_mem {ls : List DmOp} (hl : h.map Event.label = ls)
    {op : DmOp} (hop : op ∈ ls) : ∃ ev ∈ h, ev.label = op := by
  rw [← hl] at hop
  exact List.mem_map.mp hop

/-- The ACK of a first attempt is in time when the message was not yet marked. -/
theorem inTime_of_labels {l₁ l₂ : List DmOp} {code : String}
    {suggested : Option ℤ} (hl : h.map Event.label = l₁ ++ .ack code :: l₂)
    (hfirst : .firstSent m (some code) suggested ∈ l₁) (hmark : DmOp.mark m ∉ l₁) :
    InTime m code h := by
  obtain ⟨g, rest, rfl, hg, hrest⟩ := List.map_eq_append_iff.mp hl
  obtain ⟨ev, tail, rfl, hev, _⟩ := List.map_eq_cons_iff.mp hrest
  refine ⟨g, ev, ⟨tail, by simp⟩, Or.inl ⟨hev, ?_, ?_⟩⟩
  · obtain ⟨r, hr, hop⟩ := map_label_of_mem hg hfirst
    refine ⟨r, hr, ?_⟩
    simp only [registration, hop]
  · rintro f hf ⟨hop, _⟩
    have hmem := List.mem_map_of_mem (f := Event.label) hf
    rw [hg, hop] at hmem
    exact absurd hmem hmark

theorem not_removes_of_labels {ls : List DmOp}
    (hl : h.map Event.label = ls) (hls : ∀ op ∈ ls, ¬ op.Removes m) :
    ∀ ev ∈ h, ¬ ev.label.Removes m := by
  intro ev hev
  have hmem := List.mem_map_of_mem (f := Event.label) hev
  rw [hl] at hmem
  exact hls ev.label hmem

theorem codesUnique_of_single
    (hone : ∀ ev ∈ h, (registration ev).all (fun reg => reg.1 == m) = true) :
    (∀ ev ∈ h, ∀ m' code, registration ev = some (m', code) → m' = m) ∧ CodesUnique h := by
  have heq : ∀ ev ∈ h, ∀ m' code, registration ev = some (m', code) → m' = m := by
    intro ev hev m' code hreg
    have hall := hone ev hev
    rw [hreg] at hall
    exact beq_iff_eq.mp hall
  refine ⟨heq, ?_⟩
  intro ev hev ev' hev' m₁ m₂ code hreg hreg'
  exact (heq ev hev m₁ code hreg).trans (heq ev' hev' m₂ code hreg').symm

/-- A message whose first timeout is a second is sent three times, and the ACK of
the first attempt comes 2.4 seconds after it. -/
def lateAck : List DmOp :=
  [.create 1, .firstSent 1 (some "aa") (some 1000), .advance (6 / 5), .wake 1, .check 1,
    .attempted 1 (.sent (some "bb") (some 1000)), .recheck 1, .register 1, .advance (12 / 5),
    .ack "aa", .wake 1, .check 1, .attempted 1 (.sent (some "cc") (some 1000)), .recheck 1,
    .register 1, .advance (18 / 5), .wake 1, .check 1, .mark 1, .track 1]

/-- The message of the late ACK ends failed and without a count. -/
theorem not_forall_ack_delivered :
    ¬ ∀ (h : List DmEvent) (s : DmState), Run DmStep {} h s → CodesUnique h →
      ∀ m code, (∀ ev ∈ h, ¬ ev.label.Removes m) → InTime m code h →
        ∃ row, s.rows.get m = some row ∧ 0 < row.acked ∧ row.failedAt = none := by
  intro hall
  obtain ⟨h, s, r, hl, hp⟩ := Run.exists_of_trace DmOp.apply {} lateAck
    (fun x => x.1.all (fun ev => (registration ev).all (fun reg => reg.1 == 1)) &&
      x.2.rows.get 1 == some ⟨0, some 3⟩) (by decide +kernel)
  rw [Bool.and_eq_true, List.all_eq_true, beq_iff_eq] at hp
  obtain ⟨_, hcodes⟩ := codesUnique_of_single hp.1
  have hremoves := not_removes_of_labels (m := 1) hl (by decide)
  have hsplit : h.map Event.label = lateAck.take 9 ++ .ack "aa" :: lateAck.drop 10 := hl
  have hfirst : .firstSent 1 (some "aa") (some 1000) ∈ lateAck.take 9 := by decide
  have hin : InTime 1 "aa" h := inTime_of_labels hsplit hfirst (by decide)
  obtain ⟨row, hrow, hacked, _⟩ := hall h s r hcodes 1 "aa" hremoves hin
  rw [hp.2] at hrow
  cases hrow
  exact absurd hacked (Nat.lt_irrefl 0)

/-- The same message with an ACK right after its first attempt. -/
theorem ack_delivered_promptAck :
    ∃ h s, Run DmStep {} h s ∧ InTime 1 "aa" h ∧ s.Counted 1 ∧
      creditsOf "aa" h ≤ arrivalsOf "aa" h := by
  obtain ⟨h, s, r, hl, hp⟩ := Run.exists_of_trace DmOp.apply {}
    [.create 1, .firstSent 1 (some "aa") (some 1000), .ack "aa", .increment 1]
    (fun x => x.1.all (fun ev => (registration ev).all (fun reg => reg.1 == 1)) &&
      x.1.all (fun ev => ev.label != .ack "aa" ||
        (ev.pre.tables.pending.get "aa").any
          (fun e => e.messageId == 1 && !e.expired ev.pre.clock))) (by decide +kernel)
  rw [Bool.and_eq_true, List.all_eq_true, List.all_eq_true] at hp
  obtain ⟨hreg, hfresh⟩ := hp
  obtain ⟨hone, hcodes⟩ := codesUnique_of_single hreg
  have hlate : ∀ ev ∈ h, ¬ LateArrival ev := by
    rintro ev hev ⟨m, code, hop, ⟨t, ht, hcode⟩, _, hexpired⟩
    have hmem := List.mem_map_of_mem (f := Event.label) hev
    rw [hl, hop] at hmem
    obtain rfl : code = "aa" := by simpa using hmem
    -- the send that goes on is the one of the message
    obtain rfl : m = 1 := by
      obtain ⟨h₁, h₂, rfl⟩ := List.append_of_mem hev
      obtain ⟨ev', hev', hr⟩ := (owned_of_run r.at_event.1).codes ht "aa" hcode
      exact hone ev' (List.mem_append_left _ hev') m "aa" hr
    have hany := hfresh ev hev
    rw [hop] at hany
    have hany : (ev.pre.tables.pending.get "aa").any
        (fun e => e.messageId == 1 && !e.expired ev.pre.clock) = true := by simpa using hany
    obtain ⟨e, he, hpass⟩ := (Option.any_eq_true ..).mp hany
    simp only [Bool.and_eq_true, beq_iff_eq, Bool.not_eq_true'] at hpass
    have hold := hexpired e he hpass.1
    rw [hpass.2] at hold
    cases hold
  have hremoves := not_removes_of_labels (m := 1) hl (by decide)
  have hsplit : h.map Event.label = [.create 1, .firstSent 1 (some "aa") (some 1000)] ++
      .ack "aa" :: [.increment 1] := hl
  have hin : InTime 1 "aa" h :=
    inTime_of_labels hsplit (List.mem_cons_of_mem _ List.mem_cons_self) (by decide)
  have hresult := ack_delivered r
  exact ⟨h, s, r, hin, hresult.2 hlate hcodes 1 "aa" hremoves hin, hresult.1.1 "aa"⟩

end DmState

end RtfmEv.DirectMessage
