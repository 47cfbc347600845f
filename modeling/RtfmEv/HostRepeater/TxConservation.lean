import RtfmEv.HostRepeater.TxSpec

/-!
# Where the accepted jobs are

Every job that `enqueue` accepts is counted, queued or inside `_send`, except
for three exits of `_send` that no counter sees: the radio turns out to be gone,
the task is cancelled while it sends, and a lock sleep that ends disarmed. Each
of them loses the job in hand, so the books balance in a run exactly when none
of them is taken.
-/

namespace RtfmEv.HostRepeater

open RtfmEv.Lib

/-- One for a task inside `_send`. -/
def TaskPhase.inHand (phase : TaskPhase) : ℕ := phase.sendingWith.isSome.toNat

/-- The radio is gone when the command is sent or answers. -/
def SendOutcome.Gone (o : SendOutcome) : Prop := o = .disconnected ∨ o = .answered .disconnected

instance (o : SendOutcome) : Decidable o.Gone := inferInstanceAs (Decidable (_ ∨ _))

theorem CommandResult.lost_eq_zero_iff (r : CommandResult) : r.lost = 0 ↔ r ≠ .disconnected := by
  cases r <;> simp [CommandResult.lost]

theorem SendOutcome.lost_eq_zero_iff (o : SendOutcome) : o.lost = 0 ↔ ¬ o.Gone := by
  cases o with
  | answered r => simp [SendOutcome.lost, SendOutcome.Gone, CommandResult.lost_eq_zero_iff]
  | busy | disconnected | pending => simp [SendOutcome.lost, SendOutcome.Gone]

theorem lostAttempts_eq_zero_iff (attempts : List SendAttempt) :
    lostAttempts attempts = 0 ↔ ¬ ∃ a ∈ attempts, a.outcome.Gone := by
  rw [lostAttempts, List.sum_eq_zero_iff]
  simp [SendOutcome.lost_eq_zero_iff]

/-- `stop` is called or ends. -/
def TxOp.Stops : TxOp → Prop
  | .stopBegin => True
  | .stopEnd _ => True
  | _ => False

namespace HostRepeaterTx

/-- How many jobs are inside `_send`. -/
def inSend (s : HostRepeaterTx) : ℕ := s.loop.weight TaskPhase.inHand

/-- Task `i` is inside `_send`. -/
def Sending (s : HostRepeaterTx) (i : ℕ) : Prop :=
  ∃ t ∈ s.loop.tasks[i]?, ∃ phase ∈ t.phase, phase.sendingWith.isSome = true

/-- One for an `enqueue` that accepts its decision. -/
def acceptedBy (ev : TxEvent) : ℕ :=
  match ev.label with
  | .enqueue _ d _ _ => if ev.pre.Accepts d then 1 else 0
  | _ => 0

/-- How many decisions `enqueue` accepted. -/
def accepted (h : List TxEvent) : ℕ := (h.map acceptedBy).sum

/-- The step leaves `_send` through an exit that counts nothing: an attempt or an
answer finds the radio gone, a cancellation arrives inside `_send`, or a lock
sleep ends after a disarm. -/
def Loses (ev : TxEvent) : Prop :=
  match ev.label with
  | .tick _ _ _ _ attempts => ∃ a ∈ attempts, a.outcome.Gone
  | .resume i .cancelled => ev.pre.Sending i
  | .resume _ (.answer _ result _ _ _ attempts) =>
    result = .disconnected ∨ ∃ a ∈ attempts, a.outcome.Gone
  | .resume _ (.slept _ _ attempts) => ev.pre.armed = false ∨ ∃ a ∈ attempts, a.outcome.Gone
  | .resume _ (.loop _ _ _ _ attempts) => ∃ a ∈ attempts, a.outcome.Gone
  | _ => False

/-! ### Tasks through a stretch -/

variable {i : ℕ} {s s' : HostRepeaterTx} {rearm : Bool} {t : LoopTask TaskPhase}
  {snap : RadioSnapshot} {phase : TaskPhase} {rt : Runtime} {ev : TxEvent}
  {attempts : List SendAttempt} {susp : Option Suspension}

theorem Disarmed.at (h : Disarmed rearm s s') (ht : s.loop.At i t) :
    ∃ t', s'.loop.At i t' ∧ t'.phase = t.phase := by
  rw [h.loop]
  cases rearm with
  | true => exact ⟨t, ht.ensure .start, rfl⟩
  | false => exact ht.cancel

theorem Disarmed.inSend (h : Disarmed rearm s s') :
    s'.inSend = s.inSend := by
  unfold HostRepeaterTx.inSend
  rw [h.loop]
  cases rearm with
  | true => exact TaskTable.weight_ensure _ s.loop rfl
  | false => exact TaskTable.weight_cancel _ s.loop

theorem Stretch.at (h : Stretch snap s s') (ht : s.loop.At i t) :
    ∃ t', s'.loop.At i t' ∧ t'.phase = t.phase := by
  rcases h.arming with hsame | ⟨rearm, hd⟩
  · rw [hsame.loop]
    exact ⟨t, ht, rfl⟩
  · exact hd.at ht

theorem Stretch.inSend (h : Stretch snap s s') :
    s'.inSend = s.inSend := by
  rcases h.arming with hsame | ⟨rearm, hd⟩
  · unfold HostRepeaterTx.inSend
    rw [hsame.loop]
  · exact hd.inSend

theorem inSend_yieldAt
    (ht : s.loop.At i t) (p : Option TaskPhase) :
    (s.yieldAt i p).inSend + t.phase.elim 0 TaskPhase.inHand =
      s.inSend + p.elim 0 TaskPhase.inHand := TaskTable.weight_setPhase TaskPhase.inHand ht p

theorem suspension_inHand (snap : RadioSnapshot) (susp : Option Suspension) :
    (susp.elim TaskPhase.waiting (Suspension.phase snap)).inHand = susp.isSome.toNat := by
  cases susp with
  | none => rfl
  | some susp => cases susp <;> rfl

theorem settled_yieldAt (s : HostRepeaterTx) (i : ℕ) (p : Option TaskPhase) :
    (s.yieldAt i p).settled = s.settled := rfl

/-- A stretch of task `i` with the jobs it had in hand. -/
theorem LoopSpec.park {inHand lost : ℕ} {r : HostRepeaterTx × Option Suspension}
    (h : LoopSpec snap inHand lost s r.1 r.2) (ht : s.loop.At i ⟨some phase, false⟩)
    (hphase : phase.inHand = inHand) :
    (park i snap r).settled + (park i snap r).inSend + lost = s.settled + s.inSend := by
  obtain ⟨t, ht', hp⟩ := h.stretch.at ht
  have hpark := inSend_yieldAt ht' (some (r.2.elim .waiting (Suspension.phase snap)))
  rw [hp, Option.elim_some, Option.elim_some, suspension_inHand, h.stretch.inSend, hphase] at hpark
  have hsettled := h.settled
  unfold HostRepeaterTx.park
  rw [settled_yieldAt]
  omega

/-! ### One step -/

/-- A tick without a job in hand loses one job for each attempt that meets a
radio that is gone. -/
theorem tick_spec {now wall : ℚ}
    (h : s.tick rt now wall snap attempts = some (s', susp)) :
    s'.settled + susp.isSome.toNat + lostAttempts attempts = s.settled ∧
      s'.inSend = s.inSend ∧
      ∀ i t, s.loop.At i t → ∃ t', s'.loop.At i t' ∧ t'.phase = t.phase := by
  rcases tick_cases h with ⟨_, harmed, rfl, rfl⟩ | ⟨_, rfl, rfl, rfl⟩ |
    ⟨_, ⟨reason, rearm, rfl⟩, rfl, rfl⟩ | ⟨_, _, hloop⟩
  · refine ⟨?_, ?_, fun i t ht => ⟨t, ?_, rfl⟩⟩
    · unfold settled
      rw [harmed.stats, harmed.queue]
      rfl
    · unfold inSend
      rw [harmed.loop]
      exact TaskTable.weight_ensure _ s.loop rfl
    · rw [harmed.loop]
      exact ht.ensure .start
  · exact ⟨rfl, rfl, fun i t ht => ⟨t, ht, rfl⟩⟩
  · have hd := disarm_disarmed reason rearm s
    exact ⟨disarm_settled reason rearm s, hd.inSend, fun i t ht => hd.at ht⟩
  · have hspec := tickLoop_spec hloop
    exact ⟨hspec.settled, hspec.stretch.inSend, fun i t ht => hspec.stretch.at ht⟩

/-- The jobs in the books. -/
def booked (s : HostRepeaterTx) : ℕ := s.settled + s.inSend

/-- The books after a step that accepts and loses jobs. -/
def Balances (ev : TxEvent) : Prop :=
  ∃ lost, ev.post.booked + lost = ev.pre.booked + acceptedBy ev ∧ (lost = 0 ↔ ¬ Loses ev)

theorem Balances.of_eq (h : ev.post.booked = ev.pre.booked + acceptedBy ev)
    (hl : ¬ Loses ev) : Balances ev := ⟨0, h, iff_of_true rfl hl⟩

theorem inHand_of_loop (h : phase = .start ∨ phase = .waiting) :
    phase.inHand = 0 := by
  rcases h with rfl | rfl <;> rfl

theorem balances_resumed {r : Resume} (h : Resumed s i r s') :
    Balances ⟨s, .resume i r, s'⟩ := by
  cases h with
  | @cancelled t ht hp hc =>
    obtain ⟨phase, hphase⟩ := Option.isSome_iff_exists.mp hp
    have hend := inSend_yieldAt ht none
    rw [hphase, Option.elim_some, Option.elim_none] at hend
    refine ⟨phase.inHand, ?_, ?_⟩
    · simp only [booked, settled_yieldAt, acceptedBy]
      omega
    · have hsend : s.Sending i ↔ phase.sendingWith.isSome = true := by
        unfold Sending
        rw [show s.loop.tasks[i]? = some t from ht]
        simp [hphase]
      simp only [Loses, hsend, TaskPhase.inHand]
      cases phase.sendingWith.isSome <;> simp
  | answer ht h =>
    have hspec := (answer_spec h).park ht rfl
    refine ⟨_, hspec, ?_⟩
    simp only [Loses, Nat.add_eq_zero_iff, CommandResult.lost_eq_zero_iff,
      lostAttempts_eq_zero_iff, not_or, ne_eq]
  | slept ht h =>
    have hspec := (retrySend_spec h).park ht rfl
    refine ⟨_, hspec, ?_⟩
    simp only [Loses, Nat.add_eq_zero_iff, lostAttempts_eq_zero_iff, not_or]
    cases s.armed <;> simp
  | @tick phase rt now wall snap attempts x ht hphase hon h =>
    obtain ⟨hsettled, hinSend, hat⟩ := tick_spec h
    obtain ⟨t, ht', hp⟩ := hat i _ ht
    have hpark := inSend_yieldAt ht' (some (x.2.elim .waiting (Suspension.phase snap)))
    rw [hp, Option.elim_some, Option.elim_some, suspension_inHand, inHand_of_loop hphase] at hpark
    refine ⟨lostAttempts attempts, ?_, by simp only [Loses, lostAttempts_eq_zero_iff]⟩
    simp only [booked, park, settled_yieldAt, acceptedBy]
    omega
  | ended ht hphase hoff =>
    have hend := inSend_yieldAt ht none
    rw [Option.elim_some, Option.elim_none, inHand_of_loop hphase] at hend
    exact Balances.of_eq (congrArg (s.settled + ·) hend) (by simp [Loses])
  | crash ht hphase hon =>
    have hd := disarm_disarmed .sendErrors false s
    obtain ⟨t, ht', hp⟩ := hd.at ht
    have hend := inSend_yieldAt ht' none
    rw [hp, Option.elim_some, Option.elim_none, inHand_of_loop hphase, hd.inSend] at hend
    refine Balances.of_eq ?_ id
    simp only [booked, settled_yieldAt, disarm_settled, acceptedBy]
    omega

/-- **One operation.** What a step accepts is in the books afterwards, unless the
step loses a job. -/
theorem balances_step (hstep : TxStep ev.pre ev.label ev.post)
    (hreset : ev.label ≠ .resetStats) : Balances ev := by
  obtain ⟨s, op, s'⟩ := ev
  dsimp only at hstep hreset
  cases step_cases hstep with
  | armed h =>
    refine Balances.of_eq ?_ id
    simp only [booked, settled, inSend, h.stats, h.queue, h.loop, acceptedBy]
    rw [TaskTable.weight_ensure _ s.loop rfl]
    rfl
  | notArmed | underAirtime | stopEnded hi | snapshot => exact Balances.of_eq rfl id
  | @disarmed reason rearm =>
    refine Balances.of_eq ?_ id
    simp only [booked, disarm_settled, (disarm_disarmed reason rearm s).inSend, acceptedBy]
    rfl
  | @enqueued rt d arrival now =>
    obtain ⟨hsame, _, _, hsettled⟩ := enqueue_spec rt d arrival now s
    refine Balances.of_eq ?_ id
    simp only [booked, inSend, hsame.loop, hsettled, acceptedBy]
    omega
  | overAirtime =>
    have hd := disarm_disarmed .dutyCycleExceeded false s
    refine Balances.of_eq ?_ id
    simp only [booked, disarm_settled, hd.inSend, acceptedBy]
    rfl
  | stopBegun =>
    have hstop := stopBegin_spec s
    refine Balances.of_eq ?_ id
    simp only [booked, inSend, hstop.settled, hstop.weight, acceptedBy]
    rfl
  | reset => exact absurd rfl hreset
  | @ticked rt now wall snap attempts t htick =>
    obtain ⟨hsettled, hinSend, _⟩ := tick_spec htick
    refine ⟨lostAttempts attempts, ?_, lostAttempts_eq_zero_iff attempts⟩
    simp only [booked, hinSend, acceptedBy, ← hsettled, Option.isSome_none, Bool.toNat_false]
    omega
  | resumed h => exact balances_resumed h

/-! ### At most one job is inside `_send` -/

theorem Disarmed.moves (h : Disarmed rearm s s') :
    TaskTable.Moves .start s.loop s'.loop := by
  rw [h.loop]
  cases rearm with
  | true => exact .ensure .refl
  | false => exact .cancel .refl

theorem Stretch.moves (h : Stretch snap s s') :
    TaskTable.Moves .start s.loop s'.loop := by
  rcases h.arming with hsame | ⟨rearm, hd⟩
  · rw [hsame.loop]
    exact .refl
  · exact hd.moves

theorem ArmedBy.moves
    (h : ArmedBy rt snap s s') : TaskTable.Moves .start s.loop s'.loop := by
  rw [h.loop]
  exact .ensure .refl

theorem tick_moves {now wall : ℚ}
    (h : s.tick rt now wall snap attempts = some (s', susp)) :
    TaskTable.Moves .start s.loop s'.loop := by
  rcases tick_cases h with ⟨_, harmed, _⟩ | ⟨_, rfl, _⟩ | ⟨_, ⟨reason, rearm, rfl⟩, _⟩ |
    ⟨_, _, hloop⟩
  · exact harmed.moves
  · exact .refl
  · exact (disarm_disarmed reason rearm s).moves
  · exact (tickLoop_spec hloop).stretch.moves

/-- Only a task that has not finished is moved on. -/
theorem moves_yieldAt
    (hm : TaskTable.Moves .start s.loop s'.loop)
    (hat : ∃ t, s'.loop.At i t ∧ t.phase = some phase) (p : Option TaskPhase) :
    TaskTable.Moves .start s.loop (s'.yieldAt i p).loop := by
  obtain ⟨t, ht, hphase⟩ := hat
  exact .setPhase hm ht (fun _ => by rw [hphase]; rfl)

theorem moves_resumed {r : Resume} (h : Resumed s i r s') :
    TaskTable.Moves .start s.loop s'.loop := by
  cases h with
  | cancelled ht hp hc =>
    obtain ⟨phase, hphase⟩ := Option.isSome_iff_exists.mp hp
    exact moves_yieldAt .refl ⟨_, ht, hphase⟩ none
  | answer ht h =>
    have hstretch := (answer_spec h).stretch
    exact moves_yieldAt hstretch.moves (hstretch.at ht) _
  | slept ht h =>
    have hstretch := (retrySend_spec h).stretch
    exact moves_yieldAt hstretch.moves (hstretch.at ht) _
  | tick ht hphase hon h => exact moves_yieldAt (tick_moves h) ((tick_spec h).2.2 i _ ht) _
  | ended ht hphase hoff => exact moves_yieldAt .refl ⟨_, ht, rfl⟩ none
  | crash ht hphase hon =>
    have hd := disarm_disarmed .sendErrors false s
    exact moves_yieldAt hd.moves (hd.at ht) none

/-- Every operation but `stop` keeps the handle of the task. -/
theorem moves_step (hstep : TxStep ev.pre ev.label ev.post)
    (hstop : ¬ ev.label.Stops) : TaskTable.Moves .start ev.pre.loop ev.post.loop := by
  obtain ⟨s, op, s'⟩ := ev
  dsimp only at hstep hstop ⊢
  cases step_cases hstep with
  | armed h => exact h.moves
  | notArmed => exact .refl
  | underAirtime => exact .refl
  | snapshot => exact .refl
  | reset => exact .refl
  | disarmed | overAirtime => exact (disarm_disarmed _ _ s).moves
  | @enqueued rt d arrival now =>
    rw [(enqueue_spec rt d arrival now s).1.loop]
    exact .refl
  | stopBegun | stopEnded hi => exact absurd trivial hstop
  | ticked h => exact tick_moves h
  | resumed h => exact moves_resumed h

theorem inSend_le_one {h : List TxEvent} (r : Run TxStep {} h s)
    (hstop : ∀ ev ∈ h, ¬ ev.label.Stops) : s.inSend ≤ 1 := by
  have hsingle : s.loop.Single := by
    refine r.invariant (P := fun s => s.loop.Single) hstop ?_ ?_
    · exact fun ev hstep hok hpre => hpre.moves (moves_step hstep hok)
    · intro i t ht
      cases ht
  exact hsingle.weight_le_one (fun phase => Bool.toNat_le phase.sendingWith.isSome)

/-! ### Runs -/

theorem accepted_append (h : List TxEvent) (ev : TxEvent) :
    accepted (h ++ [ev]) = accepted h + acceptedBy ev := by
  simp [accepted]

/-- **No job is lost without a counter**, exactly when no step of the run takes
one of the exits of `_send` that count nothing. -/
theorem accepted_eq_iff {h : List TxEvent} {s : HostRepeaterTx} (r : Run TxStep {} h s)
    (hreset : ∀ ev ∈ h, ev.label ≠ .resetStats) :
    (accepted h = s.stats.counted + s.queue.length + s.inSend ↔ ∀ ev ∈ h, ¬ Loses ev) ∧
      ((∀ ev ∈ h, ¬ ev.label.Stops) → s.inSend ≤ 1) := by
  refine ⟨?_, inSend_le_one r⟩
  have hbooks : ∃ lost, s.booked + lost = accepted h ∧ (lost = 0 ↔ ∀ ev ∈ h, ¬ Loses ev) := by
    refine r.history (P := fun h s => ∃ lost, s.booked + lost = accepted h ∧
      (lost = 0 ↔ ∀ ev ∈ h, ¬ Loses ev)) hreset ?_ ?_
    · exact ⟨0, rfl, by simp⟩
    · rintro h ev hstep hok ⟨lost, hbooked, hnone⟩
      obtain ⟨lost', hbooked', hnone'⟩ := balances_step hstep hok
      refine ⟨lost + lost', ?_, ?_⟩
      · rw [accepted_append]
        omega
      · rw [Nat.add_eq_zero_iff, hnone, hnone']
        simp only [List.mem_append, List.mem_singleton, or_imp, forall_and, forall_eq]
  obtain ⟨lost, hbooked, hnone⟩ := hbooks
  rw [← hnone]
  simp only [booked, settled] at hbooked
  omega

/-- A job is queued and the tick of the task meets an outcome. -/
def armAndSend (outcome : SendOutcome) : List TxOp :=
  [.arm readyRuntime true readySnapshot 0, .enqueue readyRuntime (oneByteDecision 0) 0 0,
    .resume 0 (.loop readyRuntime 0 0 readySnapshot [⟨outcome, 0, 0, 0⟩])]

theorem ne_resetStats_of_armAndSend {outcome : SendOutcome} {h : List TxEvent}
    (hl : h.map Event.label = armAndSend outcome) : ∀ ev ∈ h, ev.label ≠ .resetStats := by
  intro ev hev heq
  have hmem := List.mem_map_of_mem (f := Event.label) hev
  rw [hl, heq] at hmem
  simp [armAndSend] at hmem

theorem accepted_eq_iff_armAndSend :
    ∃ h s, Run TxStep {} h s ∧
      (accepted h = s.stats.counted + s.queue.length + s.inSend ↔ ∀ ev ∈ h, ¬ Loses ev) ∧
      ((∀ ev ∈ h, ¬ ev.label.Stops) → s.inSend ≤ 1) := by
  obtain ⟨h, s, r, hl, _⟩ := Run.exists_of_trace TxOp.apply {}
    (armAndSend (.answered .ok)) (fun _ => true) (by decide +kernel)
  exact ⟨h, s, r, accepted_eq_iff r (ne_resetStats_of_armAndSend hl)⟩

/-- A job that finds the radio gone is in no counter. -/
theorem not_forall_accepted_eq :
    ¬ ∀ (h : List TxEvent) (s : HostRepeaterTx), Run TxStep {} h s →
      (∀ ev ∈ h, ev.label ≠ .resetStats) →
      accepted h = s.stats.counted + s.queue.length + s.inSend := by
  intro hall
  obtain ⟨h, s, r, hl, hs⟩ := Run.exists_of_trace TxOp.apply {} (armAndSend .disconnected)
    (fun x => accepted x.1 != x.2.stats.counted + x.2.queue.length + x.2.inSend)
    (by decide +kernel)
  rw [bne_iff_ne] at hs
  exact hs (hall h s r (ne_resetStats_of_armAndSend hl))

end HostRepeaterTx

end RtfmEv.HostRepeater
