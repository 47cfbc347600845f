import RtfmEv.HostRepeater.TxSpec

/-!
# The supervisor of an armed repeater

While the repeater is armed or waits to re-arm, some scheduler task has to be
running and not asked to stop, since only such a task evaluates the guards.

`_ensure_task` asks whether the current task has finished, while a cancelled
task goes on until it is resumed. So an `arm` that falls between the two finds
an unfinished task and creates none: the repeater is armed, the task unwinds,
and nothing evaluates the guards. Without such a call every state of a run is
supervised.
-/

namespace RtfmEv.HostRepeater

open RtfmEv.Lib

namespace HostRepeaterTx

/-- An armed or re-arming repeater has a live task. -/
def Supervised (s : HostRepeaterTx) : Prop :=
  s.armed = true ∨ s.pendingRearm = true → s.loop.HasLive

instance (s : HostRepeaterTx) : Decidable s.Supervised :=
  inferInstanceAs (Decidable (_ ∨ _ → _))

/-- The current task has been asked to stop and has not finished yet, and no
other task is live. -/
def Unwinding (s : HostRepeaterTx) : Prop := s.loop.unfinished.isSome = true ∧ ¬ s.loop.HasLive

/-- The call arms the repeater, or leaves it waiting to re-arm. -/
def TurnsOn (s : HostRepeaterTx) : TxOp → Prop
  | .arm rt confirm snap _ => s.armed = false ∧ blockers rt snap = [] ∧ confirm = true
  | .disarm _ rearm => rearm = true
  | _ => False

/-- The call turns the repeater on while its task unwinds. -/
def TurnsOnUnwinding (ev : TxEvent) : Prop := ev.pre.TurnsOn ev.label ∧ ev.pre.Unwinding

/-! ### One stretch -/

variable {s : HostRepeaterTx} {s' : HostRepeaterTx} {snap : RadioSnapshot}

theorem supervised_of_off (ha : s.armed = false)
    (hp : s.pendingRearm = false) : s.Supervised := by
  intro hon
  rw [ha, hp] at hon
  simp at hon

theorem Disarmed.supervised {rearm : Bool} (h : Disarmed rearm s s')
    (hlive : s.loop.HasLive) : s'.Supervised := by
  intro hon
  rw [h.armed, h.pendingRearm] at hon
  have hr : rearm = true := by simpa using hon
  rw [h.loop, if_pos hr, TaskTable.hasLive_ensure_iff]
  exact Or.inl hlive

/-- A stretch of a live task keeps it supervised: it only stops its own task
when it also turns the repeater off. -/
theorem Stretch.supervised (h : Stretch snap s s')
    (hlive : s.loop.HasLive) : s'.Supervised := by
  rcases h.arming with hsame | ⟨rearm, hd⟩
  · intro _
    rw [hsame.loop]
    exact hlive
  · exact hd.supervised hlive

theorem ArmedBy.supervised {rt : Runtime}
    (h : ArmedBy rt snap s s') (hlive : s.loop.HasLive ∨ s.loop.unfinished = none) :
    s'.Supervised := by
  intro _
  rw [h.loop, TaskTable.hasLive_ensure_iff]
  exact hlive

theorem Supervised.yieldAt (h : s.Supervised) (i : ℕ) (phase : TaskPhase) :
    (s.yieldAt i (some phase)).Supervised := fun hon => (h hon).setPhase_some i phase

theorem hasLive_of_at {i : ℕ} {phase : TaskPhase}
    (h : s.loop.At i ⟨some phase, false⟩) : s.loop.HasLive := ⟨i, _, h, rfl⟩

theorem Supervised.tick {rt : Runtime} {now wall : ℚ}
    {attempts : List SendAttempt} {susp : Option Suspension}
    (hpre : s.Supervised) (h : s.tick rt now wall snap attempts = some (s', susp)) :
    s'.Supervised := by
  rcases tick_cases h with ⟨hp, harmed, _⟩ | ⟨_, hsame, _⟩ | ⟨ha, ⟨reason, rearm, hd⟩, _⟩ |
    ⟨ha, _, hloop⟩
  · exact harmed.supervised (Or.inl (hpre (Or.inr hp)))
  · rw [hsame]
    exact hpre
  · rw [hd]
    exact (disarm_disarmed reason rearm s).supervised (hpre (Or.inl ha))
  · exact (tickLoop_spec hloop).stretch.supervised (hpre (Or.inl ha))

theorem Supervised.resumed {i : ℕ} {r : Resume} (hpre : s.Supervised)
    (h : Resumed s i r s') : s'.Supervised := by
  cases h with
  | cancelled ht hp hc =>
    intro hon
    refine (hpre hon).setPhase_of_not_live ht ?_ none
    rw [LoopTask.live, hc]
    exact Bool.and_false _
  | answer ht h =>
    exact ((answer_spec h).stretch.supervised (hasLive_of_at ht)).yieldAt i _
  | slept ht h =>
    exact ((retrySend_spec h).stretch.supervised (hasLive_of_at ht)).yieldAt i _
  | tick ht hphase hon h => exact (hpre.tick h).yieldAt i _
  | ended ht hphase hoff => exact fun hon => absurd hon hoff
  | crash ht hphase hon =>
    have hd := disarm_disarmed .sendErrors false s
    exact supervised_of_off hd.armed hd.pendingRearm

/-- **One operation.** Every call keeps a supervised state supervised, unless it
turns the repeater on while its task unwinds. -/
theorem supervised_step {ev : TxEvent} (hstep : TxStep ev.pre ev.label ev.post)
    (hok : ¬ TurnsOnUnwinding ev) (hpre : ev.pre.Supervised) : ev.post.Supervised := by
  obtain ⟨s, op, s'⟩ := ev
  have hready : s.TurnsOn op → s.loop.HasLive ∨ s.loop.unfinished = none := by
    intro hon
    by_contra hno
    rw [not_or] at hno
    exact hok ⟨hon, Option.isSome_iff_ne_none.mpr hno.2, hno.1⟩
  dsimp only at hstep hpre ⊢
  cases step_cases hstep with
  | armed h => exact h.supervised (hready ⟨h.was_disarmed, h.unblocked, rfl⟩)
  | notArmed => exact hpre
  | @disarmed reason rearm =>
    have hd := disarm_disarmed reason rearm s
    intro hon
    rw [hd.armed, hd.pendingRearm] at hon
    have hr : rearm = true := by simpa using hon
    rw [hd.loop, if_pos hr, TaskTable.hasLive_ensure_iff]
    exact hready hr
  | @enqueued rt d arrival now =>
    have hsame := (enqueue_spec rt d arrival now s).1
    intro hon
    rw [hsame.armed, hsame.pendingRearm] at hon
    rw [hsame.loop]
    exact hpre hon
  | overAirtime =>
    have hd := disarm_disarmed .dutyCycleExceeded false s
    exact supervised_of_off hd.armed hd.pendingRearm
  | underAirtime => exact hpre
  | stopBegun => exact supervised_of_off (stopBegin_spec s).armed (stopBegin_spec s).pendingRearm
  | stopEnded hi => exact hpre
  | snapshot => exact hpre
  | reset => exact hpre
  | ticked h => exact hpre.tick h
  | resumed h => exact hpre.resumed h

/-- A call that turns the repeater on while its task unwinds leaves it without
a live task. -/
theorem not_supervised_of_turnsOnUnwinding {ev : TxEvent}
    (hstep : TxStep ev.pre ev.label ev.post) (hbad : TurnsOnUnwinding ev) :
    ¬ ev.post.Supervised := by
  obtain ⟨s, op, s'⟩ := ev
  obtain ⟨hon, hunfinished, hdead⟩ := hbad
  dsimp only [TxStep] at hstep hon hunfinished hdead ⊢
  have hnone : ¬ (s.loop.ensure .start).HasLive := by
    rw [TaskTable.hasLive_ensure_iff, not_or]
    exact ⟨hdead, Option.isSome_iff_ne_none.mp hunfinished⟩
  cases op with
  | arm rt confirm snap wall =>
    obtain ⟨hd, hb, rfl⟩ := hon
    obtain ⟨t, harm, harmed⟩ := exists_arm_eq_ok hd hb wall
    simp only [TxOp.apply, harm, Option.some.injEq] at hstep
    intro hs
    rw [← hstep] at hs
    have hlive := hs (Or.inl harmed.armed)
    rw [harmed.loop] at hlive
    exact hnone hlive
  | disarm reason rearm =>
    obtain rfl := Option.some.inj hstep
    have hr : rearm = true := hon
    have hd := disarm_disarmed reason rearm s
    intro hs
    have hlive := hs (Or.inr (hd.pendingRearm.trans hr))
    rw [hd.loop, if_pos hr] at hlive
    exact hnone hlive
  | enqueue rt d arrival now => cases hon
  | onStatsSample ownTx freq => cases hon
  | stopBegin => cases hon
  | stopEnd i => cases hon
  | snapshot now => cases hon
  | resetStats => cases hon
  | tick rt now wall snap attempts => cases hon
  | resume i r => cases hon

/-- **An armed repeater has a live supervisor** in every state of a run, exactly
when no call of the run turns it on while its task unwinds. -/
theorem supervised_iff {h : List TxEvent} {s : HostRepeaterTx} (r : Run TxStep {} h s) :
    (∀ ev ∈ h, ev.post.Supervised) ↔ ∀ ev ∈ h, ¬ TurnsOnUnwinding ev := by
  constructor
  · intro hall ev hev hbad
    obtain ⟨h₁, h₂, rfl⟩ := List.append_of_mem hev
    exact not_supervised_of_turnsOnUnwinding r.at_event.2.1 hbad (hall ev hev)
  · intro hok ev hev
    obtain ⟨h₁, h₂, rfl⟩ := List.append_of_mem hev
    obtain ⟨r₁, hstep, _⟩ := r.at_event
    have hpre : ev.pre.Supervised :=
      r₁.invariant (C := fun ev => ¬ TurnsOnUnwinding ev)
        (fun ev' hev' => hok ev' (List.mem_append_left _ hev'))
        (fun _ hstep' hok' hpre' => supervised_step hstep' hok' hpre')
        (supervised_of_off rfl rfl)
    exact supervised_step hstep (hok ev hev) hpre

/-- Arm, disarm and arm again before the task has been resumed. -/
def quickRearm : List TxOp :=
  [.arm readyRuntime true readySnapshot 0, .disarm .user false,
    .arm readyRuntime true readySnapshot 1]

theorem supervised_iff_quickRearm :
    ∃ h s, Run TxStep {} h s ∧
      ((∀ ev ∈ h, ev.post.Supervised) ↔ ∀ ev ∈ h, ¬ TurnsOnUnwinding ev) := by
  obtain ⟨h, s, r, _, _⟩ := Run.exists_of_trace TxOp.apply {} quickRearm (fun _ => true)
    (by decide +kernel)
  exact ⟨h, s, r, supervised_iff r⟩

/-- Not every state of every run is supervised. -/
theorem not_forall_supervised :
    ¬ ∀ (h : List TxEvent) (s : HostRepeaterTx), Run TxStep {} h s → s.Supervised := by
  intro hall
  obtain ⟨h, s, r, _, hs⟩ := Run.exists_of_trace TxOp.apply {} quickRearm
    (fun x => !Decidable.decide x.2.Supervised) (by decide +kernel)
  simp only [Bool.not_eq_true', decide_eq_false_iff_not] at hs
  exact hs (hall h s r)

end HostRepeaterTx

end RtfmEv.HostRepeater
