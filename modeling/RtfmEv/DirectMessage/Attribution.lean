import RtfmEv.DirectMessage.Send

/-!
# What one step of a send does

The operations are read as the few things they can do to the tables, the rows
and the sends (`Stepped`). `Owned` says that every entry of a code belongs to a
message that the code is allowed for, which holds from what is registered.
-/

namespace RtfmEv.DirectMessage

open RtfmEv.Lib

/-- The message and the code that a step registers. -/
def registration (ev : DmEvent) : Option (ℕ × String) :=
  match ev.label with
  | .firstSent m (some code) _ => some (m, code)
  | .register m =>
    match ev.pre.tasks.get m with
    | some ⟨_, _, _, .registering code _⟩ => some (m, code)
    | _ => none
  | _ => none

namespace DmState

/-- The task goes on between two awaits that touch neither the tables nor the
row. -/
def Quiet : SendPhase → Prop
  | .counting => False
  | .tracking => False
  | .first => False
  | _ => True

/-- How an operation can go. -/
inductive Stepped (s : DmState) : DmOp → DmState → Prop
  | advance {now : ℚ} (h : s.clock ≤ now) : Stepped s (.advance now) { s with clock := now }
  | create {m : ℕ} (h : s.lastId < m) : Stepped s (.create m)
      ({ s with
        lastId := m
        rows := s.rows.set m {} }.goOn m ⟨[], defaultDmAckTimeoutMs, 0, .first⟩)
  | registered {op : DmOp} {m : ℕ} {code : String} {timeoutMs : ℤ} {t t' : SendTask}
      {s' : DmState} (hreg : registration ⟨s, op, s'⟩ = some (m, code))
      (ht : s.tasks.get m = some t) (hphase : t.phase ≠ .counting ∧ t.phase ≠ .tracking)
      (hcodes : t.phase = .first ∧ t'.ackCodes = [code] ∨ t'.ackCodes = t.ackCodes ++ [code])
      (h : s' = s.applyAckTracking m code timeoutMs t') : Stepped s op s'
  | moved {op : DmOp} {m : ℕ} {t t' : SendTask} (hop : ∀ s', registration ⟨s, op, s'⟩ = none)
      (hack : ∀ code, op ≠ .ack code)
      (ht : s.tasks.get m = some t) (hphase : Quiet t.phase) (hphase' : Quiet t'.phase)
      (hcodes : t'.ackCodes = t.ackCodes) : Stepped s op (s.goOn m t')
  | ackedEnd {op : DmOp} {m : ℕ} {t : SendTask} (hop : ∀ s', registration ⟨s, op, s'⟩ = none)
      (hack : ∀ code, op ≠ .ack code) (ht : s.tasks.get m = some t) (hphase : Quiet t.phase)
      (h : s.isMessageAcked m = true) : Stepped s op (s.endSend m)
  | deletedEnd {m : ℕ} {t : SendTask} (ht : s.tasks.get m = some t) (hphase : Quiet t.phase)
      (h : s.tables.isMessageDeleted m = true) : Stepped s (.wake m) (s.endSend m)
  | untracked {m : ℕ} {suggested : Option ℤ} {t : SendTask} (ht : s.tasks.get m = some t)
      (hphase : t.phase = .first) : Stepped s (.firstSent m none suggested) (s.endSend m)
  | firstFailed {m : ℕ} {keepRow : Bool} {t : SendTask} (ht : s.tasks.get m = some t)
      (hphase : t.phase = .first) : Stepped s (.firstFailed m keepRow)
      ({ s with rows := if keepRow then s.rows else s.rows.erase m }.endSend m)
  | counted {m : ℕ} {t : SendTask} (ht : s.tasks.get m = some t) (hphase : t.phase = .counting) :
      Stepped s (.count m) ((s.incrementAckCount m).endSend m)
  | marked {m : ℕ} {t : SendTask} {row : MessageRow} (ht : s.tasks.get m = some t)
      (hphase : t.phase = .marking) (hrow : s.rows.get m = some row) (hacked : row.acked = 0) :
      Stepped s (.mark m) ({ s with
        rows := s.rows.set m { row with failedAt := some ⌊s.clock⌋ } }.goOn m
          { t with phase := .tracking })
  | markEnd {m : ℕ} {t : SendTask} (ht : s.tasks.get m = some t) (hphase : t.phase = .marking)
      (h : ∀ row, s.rows.get m = some row → row.acked ≠ 0) : Stepped s (.mark m) (s.endSend m)
  | tracked {m : ℕ} {t : SendTask} (ht : s.tasks.get m = some t) (hphase : t.phase = .tracking) :
      Stepped s (.track m)
        ({ s with tables := s.tables.trackFailedAcks t.ackCodes m s.clock }.endSend m)
  | acked {code : String} : Stepped s (.ack code) (s.ack code)
  | incremented {m : ℕ} (h : m ∈ s.acking) : Stepped s (.increment m)
      ({ s with acking := s.acking.erase m }.incrementAckCount m)
  | requestDelete {m : ℕ} : Stepped s (.requestDelete m)
      { s with tables := (s.tables.markMessageDeleted m s.clock).clearPendingAcksForMessage m }
  | dropCodes {m : ℕ} : Stepped s (.dropCodes m)
      { s with tables := s.tables.clearPendingAcksForMessage m }
  | deleteRow {m : ℕ} : Stepped s (.deleteRow m) { s with rows := s.rows.erase m }

variable {s s' : DmState} {m : ℕ} {t : SendTask} {R : ℕ → String → Prop}

theorem stepped_firstSent {ackCode : Option String}
    {suggested : Option ℤ} (ht : s.tasks.get m = some t)
    (h : s.firstSent m ackCode suggested t = some s') :
    Stepped s (.firstSent m ackCode suggested) s' := by
  unfold firstSent at h
  split at h
  · rename_i hphase
    cases h
    exact .untracked ht hphase
  · rename_i hphase
    cases h
    exact .registered rfl ht (by rw [hphase]; simp) (Or.inl ⟨hphase, rfl⟩) rfl
  · cases h

theorem stepped_wake (ht : s.tasks.get m = some t)
    (h : s.wake m t = some s') : Stepped s (.wake m) s' := by
  unfold wake at h
  split at h
  · rename_i wakeAt hphase
    split at h
    · cases h
    split at h
    · rename_i hdeleted
      cases h
      exact .deletedEnd ht (by rw [hphase]; trivial) hdeleted.2
    · cases h
      exact .moved (fun _ => rfl) (by simp) ht (by rw [hphase]; trivial) trivial rfl
  · cases h

theorem stepped_check (ht : s.tasks.get m = some t)
    (h : s.check m t = some s') : Stepped s (.check m) s' := by
  unfold check at h
  split at h
  · rename_i hphase
    have hquiet : Quiet t.phase := by rw [hphase]; trivial
    split at h
    · rename_i hacked
      cases h
      exact .ackedEnd (fun _ => rfl) (by simp) ht hquiet hacked
    split at h
    · cases h
      exact .moved (fun _ => rfl) (by simp) ht hquiet trivial rfl
    · cases h
      exact .moved (fun _ => rfl) (by simp) ht hquiet trivial rfl
  · cases h

theorem stepped_attempted {outcome : AttemptOutcome}
    (ht : s.tasks.get m = some t) (h : s.attempted m outcome t = some s') :
    Stepped s (.attempted m outcome) s' := by
  unfold attempted at h
  split at h
  · rename_i hphase
    cases h
    exact .moved (fun _ => rfl) (by simp) ht (by rw [hphase]; trivial) trivial rfl
  · rename_i hphase
    cases h
    exact .moved (fun _ => rfl) (by simp) ht (by rw [hphase]; trivial) trivial rfl
  · rename_i hphase
    cases h
    exact .moved (fun _ => rfl) (by simp) ht (by rw [hphase]; trivial) trivial rfl
  · cases h

theorem stepped_recheck (ht : s.tasks.get m = some t)
    (h : s.recheck m t = some s') : Stepped s (.recheck m) s' := by
  unfold recheck at h
  split at h
  · rename_i code suggested hphase
    have hquiet : Quiet t.phase := by rw [hphase]; trivial
    split at h
    · rename_i hacked
      cases h
      exact .ackedEnd (fun _ => rfl) (by simp) ht hquiet hacked
    split at h
    · cases h
      exact .moved (fun _ => rfl) (by simp) ht hquiet trivial rfl
    · cases h
      exact .moved (fun _ => rfl) (by simp) ht hquiet trivial rfl
  · cases h

theorem step_cases {op : DmOp} (h : DmStep s op s') : Stepped s op s' := by
  unfold DmStep DmOp.apply at h
  split at h
  · split at h
    · rename_i hclock
      cases h
      exact .advance hclock
    · cases h
  · unfold create at h
    split at h
    · rename_i hid
      cases h
      exact .create hid
    · cases h
  · obtain ⟨t, ht, h⟩ := Option.bind_eq_some_iff.mp h
    exact stepped_firstSent ht h
  · obtain ⟨t, ht, h⟩ := Option.bind_eq_some_iff.mp h
    unfold DmState.firstFailed at h
    split at h
    · rename_i hphase
      cases h
      exact .firstFailed ht hphase
    · cases h
  · obtain ⟨t, ht, h⟩ := Option.bind_eq_some_iff.mp h
    exact stepped_wake ht h
  · obtain ⟨t, ht, h⟩ := Option.bind_eq_some_iff.mp h
    exact stepped_check ht h
  · obtain ⟨t, ht, h⟩ := Option.bind_eq_some_iff.mp h
    exact stepped_attempted ht h
  · obtain ⟨t, ht, h⟩ := Option.bind_eq_some_iff.mp h
    exact stepped_recheck ht h
  · obtain ⟨t, ht, h⟩ := Option.bind_eq_some_iff.mp h
    unfold register at h
    split at h
    · rename_i code timeoutMs hphase
      cases h
      obtain ⟨codes, wait, attempt, phase⟩ := t
      dsimp only at hphase
      subst hphase
      refine .registered ?_ ht (by simp) (Or.inr rfl) rfl
      simp only [registration, ht]
    · cases h
  · obtain ⟨t, ht, h⟩ := Option.bind_eq_some_iff.mp h
    unfold count at h
    split at h
    · rename_i hphase
      cases h
      exact .counted ht hphase
    · cases h
  · obtain ⟨t, ht, h⟩ := Option.bind_eq_some_iff.mp h
    unfold mark at h
    split at h
    · rename_i hphase
      split at h
      · rename_i hrow
        cases h
        exact .markEnd ht hphase (fun row hr => by rw [hrow] at hr; cases hr)
      rename_i row hrow
      split at h
      · rename_i hacked
        cases h
        exact .marked ht hphase hrow hacked
      · rename_i hacked
        cases h
        refine .markEnd ht hphase (fun row' hr => ?_)
        rw [hrow] at hr
        rw [← Option.some.inj hr]
        exact hacked
    · cases h
  · obtain ⟨t, ht, h⟩ := Option.bind_eq_some_iff.mp h
    unfold track at h
    split at h
    · rename_i hphase
      cases h
      exact .tracked ht hphase
    · cases h
  · cases h
    exact .acked
  · unfold increment at h
    split at h
    · rename_i hmem
      cases h
      exact .incremented hmem
    · cases h
  · cases h
    exact .requestDelete
  · cases h
    exact .dropCodes
  · cases h
    exact .deleteRow

/-! ### Registering a code -/

/-- The code was buffered and its message is counted next, or it is pending. -/
theorem applyAckTracking_cases (m : ℕ) (code : String) (timeoutMs : ℤ) (t : SendTask)
    (s : DmState) :
    ((∃ b, s.tables.buffered.get code = some b) ∧ s.applyAckTracking m code timeoutMs t =
      { s with tables := AckTables.clearPendingAcksForMessage m { s.tables with
          buffered := s.tables.buffered.erase code } }.goOn m { t with phase := .counting }) ∨
    (s.tables.buffered.get code = none ∧ s.applyAckTracking m code timeoutMs t =
      { s with tables := { s.tables with
          pending := s.tables.pending.set code ⟨m, s.clock, timeoutMs⟩ } }.goOn m
            (t.sleep s.clock)) := by
  unfold applyAckTracking AckTables.trackPendingAck
  cases hb : s.tables.buffered.get code with
  | some b => exact Or.inl ⟨⟨b, rfl⟩, rfl⟩
  | none => exact Or.inr ⟨rfl, rfl⟩

/-! ### An ACK that arrives -/

theorem tables_ack (code : String) (s : DmState) :
    (s.ack code).tables = (s.tables.applyDmAckCode code s.clock).2 := by
  unfold ack
  split <;> rename_i h <;> rw [h]

theorem acking_ack (code : String) (s : DmState) :
    (s.ack code).acking = s.acking ++ (s.tables.applyDmAckCode code s.clock).1.toList := by
  unfold ack
  split <;> rename_i h <;> rw [h]
  · rfl
  · exact (List.append_nil _).symm

theorem ack_frame (code : String) (s : DmState) :
    (s.ack code).rows = s.rows ∧ (s.ack code).tasks = s.tasks ∧ (s.ack code).clock = s.clock ∧
      (s.ack code).lastId = s.lastId := by
  unfold ack
  split <;> exact ⟨rfl, rfl, rfl, rfl⟩

/-! ### Whose codes these are -/

/-- Every code that is pending, failed or listed in a send is allowed for its
message. -/
structure Owned (R : ℕ → String → Prop) (s : DmState) : Prop where
  pending : ∀ {code e}, s.tables.pending.get code = some e → R e.messageId code
  failed : ∀ {code e}, s.tables.failed.get code = some e → R e.messageId code
  codes : ∀ {m t}, s.tasks.get m = some t → ∀ code ∈ t.ackCodes, R m code

theorem owned_init : Owned R {} := ⟨by simp, by simp, by simp⟩

theorem Owned.mono {R' : ℕ → String → Prop} (h : Owned R s)
    (hR : ∀ m code, R m code → R' m code) : Owned R' s :=
  ⟨fun he => hR _ _ (h.pending he), fun he => hR _ _ (h.failed he),
    fun ht code hcode => hR _ _ (h.codes ht code hcode)⟩

theorem Owned.congr (h : Owned R s) (htables : s'.tables = s.tables)
    (htasks : s'.tasks = s.tasks) : Owned R s' := by
  refine ⟨?_, ?_, ?_⟩
  · rw [htables]
    exact h.pending
  · rw [htables]
    exact h.failed
  · rw [htasks]
    exact h.codes

theorem Owned.withTables (h : Owned R s) {T : AckTables} (hT : T.Within s.tables) :
    Owned R { s with tables := T } :=
  ⟨fun he => h.pending (hT.pending he), fun he => h.failed (hT.failed he), h.codes⟩

theorem Owned.goOn (h : Owned R s) {m : ℕ} {t : SendTask}
    (ht : ∀ code ∈ t.ackCodes, R m code) : Owned R (s.goOn m t) := by
  refine ⟨h.pending, h.failed, ?_⟩
  intro m' t' h'
  rcases Table.get_set_eq_some h' with ⟨rfl, rfl⟩ | ⟨_, h'⟩
  · exact ht
  · exact h.codes h'

theorem Owned.endSend (h : Owned R s) (m : ℕ) : Owned R (s.endSend m) :=
  ⟨h.pending, h.failed, fun h' => h.codes (Table.get_erase_eq_some h').2⟩

theorem Owned.incrementAckCount (h : Owned R s) (m : ℕ) : Owned R (s.incrementAckCount m) := by
  unfold DmState.incrementAckCount
  split
  · exact h.congr rfl rfl
  · exact h

theorem Owned.applyAckTracking (h : Owned R s) {m : ℕ} {code : String}
    {timeoutMs : ℤ} {t : SendTask} (hcode : R m code) (ht : ∀ c ∈ t.ackCodes, R m c) :
    Owned R (s.applyAckTracking m code timeoutMs t) := by
  rcases applyAckTracking_cases m code timeoutMs t s with ⟨_, heq⟩ | ⟨_, heq⟩
  · rw [heq]
    have hwithin := AckTables.within_clearPendingAcksForMessage m { s.tables with
      buffered := s.tables.buffered.erase code }
    exact (h.withTables ⟨hwithin.pending, hwithin.failed⟩).goOn ht
  · rw [heq]
    apply Owned.goOn
    · refine ⟨?_, h.failed, h.codes⟩
      intro c e he
      rcases Table.get_set_eq_some he with ⟨rfl, rfl⟩ | ⟨_, he⟩
      · exact hcode
      · exact h.pending he
    · exact ht

/-- **Ownership.** A step that registers only allowed codes keeps all codes
allowed. -/
theorem Owned.step {ev : DmEvent} (h : Owned R ev.pre) (hstep : DmStep ev.pre ev.label ev.post)
    (hreg : ∀ m code, registration ev = some (m, code) → R m code) : Owned R ev.post := by
  obtain ⟨s, op, s'⟩ := ev
  dsimp only at h hstep hreg ⊢
  cases step_cases hstep with
  | advance hclock => exact h.congr rfl rfl
  | create hid =>
    apply Owned.goOn
    · exact h.congr rfl rfl
    · simp
  | @registered _ m code timeoutMs t t' _ hr ht hphase hcodes heq =>
    subst heq
    have hcode := hreg m code hr
    refine h.applyAckTracking hcode ?_
    rcases hcodes with ⟨_, hcodes⟩ | hcodes
    · rw [hcodes]
      simpa using hcode
    · rw [hcodes]
      intro c hc
      rcases List.mem_append.mp hc with hc | hc
      · exact h.codes ht c hc
      · rw [List.mem_singleton.mp hc]
        exact hcode
  | moved _ _ ht hphase hphase' hcodes =>
    refine h.goOn ?_
    rw [hcodes]
    exact h.codes ht
  | ackedEnd _ _ ht hphase hacked => exact h.endSend _
  | deletedEnd ht hphase hdeleted => exact h.endSend _
  | untracked ht hphase => exact h.endSend _
  | firstFailed ht hphase =>
    apply Owned.endSend
    exact h.congr rfl rfl
  | counted ht hphase => exact (h.incrementAckCount _).endSend _
  | marked ht hphase hrow hacked =>
    apply Owned.goOn
    · exact h.congr rfl rfl
    · exact fun code hcode => h.codes ht code hcode
  | markEnd ht hphase hrow => exact h.endSend _
  | tracked ht hphase =>
    apply Owned.endSend
    refine ⟨?_, ?_, h.codes⟩
    · exact fun he => h.pending (Table.get_keep_eq_some.mp he).1
    intro c e he
    change (Table.setAll _ _ _).get c = some e at he
    rw [Table.get_setAll] at he
    split at he
    · rename_i hc
      obtain rfl := Option.some.inj he
      exact h.codes ht c hc
    · exact h.failed he
  | @acked code =>
    have hspec := AckTables.applyDmAckCode_spec code s.clock s.tables
    exact (h.withTables hspec.within).congr (tables_ack code s) (ack_frame code s).2.1
  | incremented hm =>
    apply Owned.incrementAckCount
    exact h.congr rfl rfl
  | @requestDelete m =>
    have hwithin := AckTables.within_clearPendingAcksForMessage m
      (s.tables.markMessageDeleted m s.clock)
    exact h.withTables ⟨hwithin.pending, hwithin.failed⟩
  | dropCodes => exact h.withTables (AckTables.within_clearPendingAcksForMessage _ s.tables)
  | deleteRow => exact h.congr rfl rfl

end DmState

/-!
## Which ACK counts for which message

A step credits a message when it starts an increment of its ACK count: the
arrival of a code that is matched, or the registration of a code that is
buffered. Every credit uses up one arrival of its code and goes to a message
that has registered it, and no count is larger than the credits of its message.
-/

/-- The message whose ACK count the step starts to increment, and for which
code. -/
def credit (ev : DmEvent) : Option (ℕ × String) :=
  match ev.label with
  | .ack code => (ev.pre.tables.applyDmAckCode code ev.pre.clock).1.map (fun m => (m, code))
  | _ => (registration ev).filter (fun r => (ev.pre.tables.buffered.get r.2).isSome)

def creditsFor (m : ℕ) (h : List DmEvent) : ℕ :=
  h.countP (fun ev => decide ((credit ev).map Prod.fst = some m))

def creditsOf (code : String) (h : List DmEvent) : ℕ :=
  h.countP (fun ev => decide ((credit ev).map Prod.snd = some code))

def arrivalsOf (code : String) (h : List DmEvent) : ℕ :=
  h.countP (fun ev => decide (ev.label = .ack code))

variable {ev : DmEvent}

theorem credit_of_registration (hack : ∀ code, ev.label ≠ .ack code) :
    credit ev = (registration ev).filter (fun r => (ev.pre.tables.buffered.get r.2).isSome) := by
  unfold credit
  split
  · rename_i code hop
    exact absurd hop (hack code)
  · rfl

theorem credit_eq_none (hack : ∀ code, ev.label ≠ .ack code)
    (hreg : registration ev = none) : credit ev = none := by
  rw [credit_of_registration hack, hreg]
  rfl

theorem not_ack_of_registration {r : ℕ × String} (h : registration ev = some r)
    (code : String) : ev.label ≠ .ack code := by
  intro hop
  unfold registration at h
  rw [hop] at h
  cases h

namespace DmState

/-! #### One credit for one arrival -/

/-- One while an ACK of the code is buffered. -/
def bufferedCount (code : String) (s : DmState) : ℕ := (s.tables.buffered.get code).isSome.toNat

variable {ev : DmEvent} {h : List DmEvent} {s : DmState} {m m' : ℕ}

/-- What a step adds to the credits of a code and to its buffered ACK comes from
an arrival. -/
theorem credit_step (hstep : DmStep ev.pre ev.label ev.post) (code : String) :
    (if (credit ev).map Prod.snd = some code then 1 else 0) + ev.post.bufferedCount code ≤
      ev.pre.bufferedCount code + if ev.label = .ack code then 1 else 0 := by
  have hquiet : (∀ code, ev.label ≠ .ack code) → registration ev = none →
      ev.post.tables.buffered = ev.pre.tables.buffered →
      (if (credit ev).map Prod.snd = some code then 1 else 0) + ev.post.bufferedCount code ≤
        ev.pre.bufferedCount code + if ev.label = .ack code then 1 else 0 := by
    intro hack hreg hbuffered
    rw [credit_eq_none hack hreg, Option.map_none, if_neg (by simp), bufferedCount, hbuffered]
    exact Nat.le_add_right_of_le (Nat.le_of_eq (Nat.zero_add _))
  obtain ⟨s, op, s'⟩ := ev
  dsimp only at hstep hquiet ⊢
  cases step_cases hstep with
  | advance hclock | create hid | deletedEnd ht hphase hdeleted | untracked ht hphase
  | firstFailed ht hphase | marked ht hphase hrow hacked | markEnd ht hphase hrow
  | tracked ht hphase | requestDelete | dropCodes | deleteRow => exact hquiet (by simp) rfl rfl
  | @registered _ m code' timeoutMs t t' _ hreg ht hphase hcodes heq =>
    have hack := not_ack_of_registration hreg
    rw [credit_of_registration hack, hreg, if_neg (hack code)]
    rcases applyAckTracking_cases m code' timeoutMs t' s with ⟨⟨b, hb⟩, htrack⟩ | ⟨hb, htrack⟩
    · have hpost : s'.tables.buffered = s.tables.buffered.erase code' := by rw [heq, htrack]; rfl
      by_cases hc : code' = code
      · subst hc
        simp [bufferedCount, hpost, hb, Option.filter]
      · have hne : code ≠ code' := fun h => hc h.symm
        simp [bufferedCount, hpost, hb, Option.filter, hc, Table.get_erase_of_ne _ hne]
    · have hpost : s'.tables.buffered = s.tables.buffered := by rw [heq, htrack]; rfl
      simp [bufferedCount, hpost, hb, Option.filter]
  | moved hop hack ht hphase hphase' hcodes
  | ackedEnd hop hack ht hphase hacked => exact hquiet hack (hop _) rfl
  | @counted m t ht hphase | @incremented m hm =>
    refine hquiet (by simp) rfl ?_
    unfold incrementAckCount
    split <;> rfl
  | @acked code' =>
    have hspec := AckTables.applyDmAckCode_spec code' s.clock s.tables
    have hcredit : credit ⟨s, .ack code', s.ack code'⟩ =
      (s.tables.applyDmAckCode code' s.clock).1.map (fun m => (m, code')) := rfl
    have hpost : (s.ack code').bufferedCount code =
        ((s.tables.applyDmAckCode code' s.clock).2.buffered.get code).isSome.toNat := by
      rw [bufferedCount, tables_ack]
    rw [hcredit, hpost]
    generalize s.tables.applyDmAckCode code' s.clock = r at hspec ⊢
    obtain ⟨matched, T⟩ := r
    dsimp only at hspec ⊢
    -- a new buffer entry is an arrival that credits nobody
    have hkept : matched ≠ none ∨ code ≠ code' →
        (T.buffered.get code).isSome.toNat ≤ s.bufferedCount code := by
      intro h
      unfold bufferedCount
      cases hb : T.buffered.get code with
      | none => exact Nat.zero_le _
      | some b =>
        rcases hspec.buffered hb with hold | ⟨hnone, hc⟩
        · rw [hold]
        · rcases h with h | h
          · exact absurd hnone h
          · exact absurd hc h
    by_cases hc : code' = code
    · subst hc
      rw [if_pos rfl]
      cases matched with
      | none =>
        have hle := Bool.toNat_le (T.buffered.get code').isSome
        rw [Option.map_none, Option.map_none, if_neg (by simp)]
        omega
      | some m =>
        have hle := hkept (Or.inl (by simp))
        rw [Option.map_some, Option.map_some, if_pos rfl]
        omega
    · have hle := hkept (Or.inr (fun h => hc h.symm))
      have hother : (Option.map (fun m => (m, code')) matched).map Prod.snd ≠ some code := by
        cases matched with
        | none => simp
        | some m => simpa using hc
      rw [if_neg hother, if_neg (by simpa using hc)]
      omega

theorem creditsOf_le_arrivalsOf (r : Run DmStep {} h s)
    (code : String) : creditsOf code h + s.bufferedCount code ≤ arrivalsOf code h := by
  refine r.history (P := fun h s => creditsOf code h + s.bufferedCount code ≤ arrivalsOf code h)
    (C := fun _ => True) (fun _ _ => trivial) (Nat.le_refl _) ?_
  intro h ev hstep _ hpre
  have hone := credit_step hstep code
  unfold creditsOf arrivalsOf at *
  rw [List.countP_append, List.countP_append, List.countP_singleton, List.countP_singleton]
  simp only [decide_eq_true_eq]
  omega

/-! #### Credits go to registered messages -/

/-- A credited message registers the code in this step, or holds it. -/
theorem Owned.credit {R : ℕ → String → Prop} (h : Owned R ev.pre)
    {code : String} (hcredit : credit ev = some (m, code)) :
    registration ev = some (m, code) ∨ R m code := by
  unfold DirectMessage.credit at hcredit
  split at hcredit
  · obtain ⟨m', hm, heq⟩ := Option.map_eq_some_iff.mp hcredit
    cases heq
    rename_i hop
    have hspec := AckTables.applyDmAckCode_spec code ev.pre.clock ev.pre.tables
    rcases hspec.matched_of hm with ⟨e, he, rfl⟩ | ⟨e, he, rfl⟩
    · exact Or.inr (h.pending he)
    · exact Or.inr (h.failed he)
  · exact Or.inl (Option.filter_eq_some_iff.mp hcredit).1

theorem owned_of_run (r : Run DmStep {} h s) :
    Owned (fun m code => ∃ ev ∈ h, registration ev = some (m, code)) s := by
  refine r.history
    (P := fun h s => Owned (fun m code => ∃ ev ∈ h, registration ev = some (m, code)) s)
    (C := fun _ => True) (fun _ _ => trivial) owned_init ?_
  intro h ev hstep _ hpre
  have hmono : Owned (fun m code => ∃ ev' ∈ h ++ [ev], registration ev' = some (m, code))
      ev.pre := hpre.mono (fun m code ⟨ev', hev', hreg⟩ =>
        ⟨ev', List.mem_append_left _ hev', hreg⟩)
  exact hmono.step hstep (fun m code hreg =>
    ⟨ev, List.mem_append_right _ (List.mem_singleton_self ev), hreg⟩)

/-! #### Counts and credits -/

def ackCount (m : ℕ) (s : DmState) : ℕ := (s.rows.get m).elim 0 MessageRow.acked

/-- One while the send of the message counts an ACK that was buffered. -/
def countingCount (m : ℕ) (s : DmState) : ℕ :=
  (s.tasks.get m).elim 0 (fun t => if t.phase = .counting then 1 else 0)

/-- What the message has been credited with: its count and the increments under
way. -/
def credited (m : ℕ) (s : DmState) : ℕ := s.ackCount m + s.acking.count m + s.countingCount m

theorem ackCount_incrementAckCount_le (m m' : ℕ) (s : DmState) :
    (s.incrementAckCount m').ackCount m ≤ s.ackCount m + if m = m' then 1 else 0 := by
  unfold incrementAckCount
  cases hrow : s.rows.get m' with
  | none => exact Nat.le_add_right _ _
  | some row =>
    by_cases hm : m = m'
    · subst hm
      simp [ackCount, hrow]
    · simp [ackCount, Table.get_set_of_ne _ _ hm]

theorem incrementAckCount_frame (m : ℕ) (s : DmState) :
    (s.incrementAckCount m).tasks = s.tasks ∧ (s.incrementAckCount m).acking = s.acking ∧
      (s.incrementAckCount m).tables = s.tables ∧ (s.incrementAckCount m).clock = s.clock ∧
      (s.incrementAckCount m).lastId = s.lastId := by
  unfold incrementAckCount
  split <;> exact ⟨rfl, rfl, rfl, rfl, rfl⟩

theorem countingCount_goOn (m m' : ℕ) (t : SendTask) (s : DmState) :
    (s.goOn m' t).countingCount m =
      if m = m' then (if t.phase = .counting then 1 else 0) else s.countingCount m := by
  unfold countingCount goOn
  by_cases hm : m = m'
  · subst hm
    simp
  · simp [hm, Table.get_set_of_ne _ _ hm]

theorem countingCount_endSend (m m' : ℕ) (s : DmState) :
    (s.endSend m').countingCount m = if m = m' then 0 else s.countingCount m := by
  unfold countingCount endSend
  by_cases hm : m = m'
  · subst hm
    simp
  · simp [hm, Table.get_erase_of_ne _ hm]

theorem countingCount_of_phase {t : SendTask} (ht : s.tasks.get m = some t) :
    s.countingCount m = if t.phase = .counting then 1 else 0 := by
  rw [countingCount, ht]
  rfl

/-- A send goes on outside its count, with the rows as they are. -/
theorem credited_goOn_le {t : SendTask} (ht : t.phase ≠ .counting) :
    (s.goOn m' t).credited m ≤ s.credited m := by
  unfold credited
  rw [countingCount_goOn, if_neg ht]
  change s.ackCount m + s.acking.count m + _ ≤ _
  split <;> omega

theorem credited_endSend_le (m m' : ℕ) (s : DmState) :
    (s.endSend m').credited m ≤ s.credited m := by
  unfold credited
  rw [countingCount_endSend]
  change s.ackCount m + s.acking.count m + _ ≤ _
  split <;> omega

theorem credited_le_of_rows {s s' : DmState} (hrows : s'.ackCount m ≤ s.ackCount m)
    (htasks : s'.tasks = s.tasks) (hacking : s'.acking = s.acking) :
    s'.credited m ≤ s.credited m := by
  unfold credited countingCount
  rw [htasks, hacking]
  omega

theorem ackCount_set_le {row : MessageRow} (h : row.acked ≤ s.ackCount m') :
    DmState.ackCount m { s with rows := s.rows.set m' row } ≤ s.ackCount m := by
  by_cases hm : m = m'
  · subst hm
    simpa [ackCount] using h
  · simp [ackCount, Table.get_set_of_ne _ _ hm]

theorem ackCount_erase_le (m m' : ℕ) (s : DmState) :
    DmState.ackCount m { s with rows := s.rows.erase m' } ≤ s.ackCount m := by
  by_cases hm : m = m'
  · subst hm
    simp [ackCount]
  · simp [ackCount, Table.get_erase_of_ne _ hm]

/-- A step raises the count of a message and its increments under way by one at
most, when it credits the message. -/
theorem credited_step (hstep : DmStep ev.pre ev.label ev.post) (m : ℕ) : ev.post.credited m ≤
      ev.pre.credited m + if (credit ev).map Prod.fst = some m then 1 else 0 := by
  obtain ⟨s, op, s'⟩ := ev
  dsimp only at hstep ⊢
  cases step_cases hstep with
  | advance hclock | requestDelete | dropCodes => exact Nat.le_add_right_of_le (Nat.le_refl _)
  | @create m' hid =>
    refine Nat.le_add_right_of_le ((credited_goOn_le (by simp)).trans ?_)
    exact credited_le_of_rows (ackCount_set_le (Nat.zero_le _)) rfl rfl
  | @registered _ m' code timeoutMs t t' _ hreg ht hphase hcodes heq =>
    have hfilter := credit_of_registration (not_ack_of_registration hreg)
    rw [hreg] at hfilter
    rcases applyAckTracking_cases m' code timeoutMs t' s with ⟨⟨b, hb⟩, htrack⟩ | ⟨hb, htrack⟩
    · have hcredit : credit ⟨s, op, s'⟩ = some (m', code) := by
        rw [hfilter]
        simp [Option.filter, hb]
      rw [hcredit, heq, htrack, Option.map_some]
      unfold credited
      rw [countingCount_goOn]
      change s.ackCount m + s.acking.count m + (if m = m' then 1 else s.countingCount m) ≤ _
      by_cases hm : m = m'
      · subst hm
        simp only [if_true]
        omega
      · rw [if_neg hm]
        exact Nat.le_add_right _ _
    · rw [heq, htrack]
      refine Nat.le_add_right_of_le ((credited_goOn_le (by simp [SendTask.sleep])).trans ?_)
      exact credited_le_of_rows (Nat.le_refl _) rfl rfl
  | @moved _ m' t t' hop hack ht hphase hphase' hcodes =>
    refine Nat.le_add_right_of_le (credited_goOn_le ?_)
    intro hcounting
    rw [hcounting] at hphase'
    exact hphase'
  | ackedEnd hop hack ht hphase hacked | deletedEnd ht hphase hdeleted | untracked ht hphase
  | markEnd ht hphase hrow => exact Nat.le_add_right_of_le (credited_endSend_le m _ s)
  | @firstFailed m' keepRow t ht hphase =>
    refine Nat.le_add_right_of_le ((credited_endSend_le m m' _).trans ?_)
    refine credited_le_of_rows ?_ rfl rfl
    cases keepRow with
    | true => exact Nat.le_refl _
    | false => exact ackCount_erase_le m m' s
  | @counted m' t ht hphase =>
    -- the count under way becomes a count of the row
    have hinc := ackCount_incrementAckCount_le m m' s
    obtain ⟨htasks, hacking, _⟩ := incrementAckCount_frame m' s
    refine Nat.le_add_right_of_le ?_
    unfold credited
    rw [countingCount_endSend]
    change (s.incrementAckCount m').ackCount m + (s.incrementAckCount m').acking.count m + _ ≤ _
    rw [hacking]
    by_cases hm : m = m'
    · subst hm
      rw [countingCount_of_phase ht, if_pos hphase]
      rw [if_pos rfl] at hinc ⊢
      omega
    · rw [if_neg hm] at hinc ⊢
      unfold countingCount
      rw [htasks]
      omega
  | @marked m' t row ht hphase hrow hacked =>
    refine Nat.le_add_right_of_le ((credited_goOn_le (by simp)).trans ?_)
    refine credited_le_of_rows (ackCount_set_le ?_) rfl rfl
    rw [hacked]
    exact Nat.zero_le _
  | @tracked m' t ht hphase =>
    refine Nat.le_add_right_of_le ((credited_endSend_le m m' _).trans ?_)
    exact credited_le_of_rows (Nat.le_refl _) rfl rfl
  | @acked code =>
    obtain ⟨hrows, htasks, _⟩ := ack_frame code s
    have hcredit : credit ⟨s, .ack code, s.ack code⟩ =
      (s.tables.applyDmAckCode code s.clock).1.map (fun m => (m, code)) := rfl
    rw [hcredit]
    unfold credited ackCount countingCount
    rw [hrows, htasks, acking_ack, List.count_append]
    cases (s.tables.applyDmAckCode code s.clock).1 with
    | none => simp
    | some m' =>
      rw [Option.toList_some, List.count_singleton]
      by_cases hm : m' = m
      · subst hm
        simp only [beq_self_eq_true, if_true, Option.map_some]
        omega
      · simp [hm]
  | @incremented m' hm' =>
    have hinc := ackCount_incrementAckCount_le m m' { s with acking := s.acking.erase m' }
    obtain ⟨htasks, hacking, _⟩ := incrementAckCount_frame m' { s with acking := s.acking.erase m' }
    refine Nat.le_add_right_of_le ?_
    unfold credited countingCount
    rw [htasks, hacking]
    change _ ≤ s.ackCount m + if m = m' then 1 else 0 at hinc
    change _ + (s.acking.erase m').count m + s.countingCount m ≤ s.ackCount m +
      s.acking.count m + s.countingCount m
    by_cases hm : m = m'
    · subst hm
      have hpos := List.count_pos_iff.mpr hm'
      rw [if_pos rfl] at hinc
      rw [List.count_erase_self]
      omega
    · rw [if_neg hm] at hinc
      rw [List.count_erase_of_ne hm]
      omega
  | deleteRow =>
    exact Nat.le_add_right_of_le (credited_le_of_rows (ackCount_erase_le m _ s) rfl rfl)

theorem credited_le_creditsFor (r : Run DmStep {} h s) (m : ℕ) : s.credited m ≤ creditsFor m h := by
  refine r.history (P := fun h s => s.credited m ≤ creditsFor m h) (C := fun _ => True)
    (fun _ _ => trivial) (Nat.le_refl _) ?_
  intro h ev hstep _ hpre
  have hone := credited_step hstep m
  unfold creditsFor at *
  rw [List.countP_append, List.countP_singleton]
  simp only [decide_eq_true_eq]
  omega

end DmState

end RtfmEv.DirectMessage
