import Mathlib.Data.List.DropRight
import RtfmEv.HostRepeater.TxSpec

/-!
# Which due jobs a tick serves

Jobs are queued in the order of their arrival and each has its own delay, but a
tick looks at the first one only and stops when it is not due. So a tick serves
a prefix of the queue. It serves all due jobs exactly when no job that is not
due yet stands in front of one that is.
-/

namespace RtfmEv.HostRepeater

open RtfmEv.Lib

/-- The radio takes the job at once. -/
structure SendAttempt.Instant (now : ℚ) (a : SendAttempt) : Prop where
  outcome : a.outcome = .answered .ok
  next : a.next = now

namespace HostRepeaterTx

/-- No job that is not due stands in front of one that is. -/
def DueFirst (now : ℚ) (queue : List ForwardJob) : Prop :=
  queue.Pairwise (fun a b => b.sendAt ≤ now → a.sendAt ≤ now)

/-- The tick stopped at the in-flight cap: its next job is due, and the firmware
is assumed to hold as many forwards as it may. -/
def StoppedByCap (rt : Runtime) (now : ℚ) (s : HostRepeaterTx) : Prop :=
  ∃ job, s.queue.head? = some job ∧ job.sendAt ≤ now ∧
    rt.settings.maxInFlight ≤ (inFlightAt s.inFlight now).length

/-- The job can still be sent. -/
def onTime (now : ℚ) (job : ForwardJob) : Bool := Decidable.decide (now ≤ job.deadline)

/-- The jobs of a list were taken from the queue: what can still be sent was
sent, and the rest was counted as too late. -/
structure Serves (now : ℚ) (jobs : List ForwardJob) (s s' : HostRepeaterTx) : Prop where
  handed : s'.handed.map Handover.job = s.handed.map Handover.job ++ jobs.filter (onTime now)
  sent : s'.stats.sent = s.stats.sent + jobs.countP (onTime now)
  droppedTooLate : s'.stats.droppedTooLate =
    s.stats.droppedTooLate + jobs.countP (fun job => !onTime now job)

/-- The jobs that are due. -/
def dueJobs (now : ℚ) (queue : List ForwardJob) : List ForwardJob :=
  queue.filter (fun job => Decidable.decide (job.sendAt ≤ now))

theorem Serves.refl (now : ℚ) (s : HostRepeaterTx) : Serves now [] s s :=
  ⟨(List.append_nil _).symm, rfl, rfl⟩

variable {s t s' : HostRepeaterTx} {jobs rest : List ForwardJob} {now : ℚ} {job : ForwardJob}
  {snap : RadioSnapshot} {rt : Runtime}

theorem Serves.trans {jobs' : List ForwardJob} {u : HostRepeaterTx}
    (h : Serves now jobs s t) (h' : Serves now jobs' t u) : Serves now (jobs ++ jobs') s u where
  handed := by rw [h'.handed, h.handed, List.filter_append, List.append_assoc]
  sent := by rw [h'.sent, h.sent, List.countP_append, Nat.add_assoc]
  droppedTooLate := by
    rw [h'.droppedTooLate, h.droppedTooLate, List.countP_append, Nat.add_assoc]

theorem serves_tooLate
    (hlate : now > job.deadline) (s : HostRepeaterTx) :
    Serves now [job] s { s with
      queue := rest
      queueFullSince := none
      stats := { s.stats with droppedTooLate := s.stats.droppedTooLate + 1 } } := by
  have hno : onTime now job = false := decide_eq_false (not_le.mpr hlate)
  constructor <;> simp [hno]

/-- What the loop of a tick leaves behind once a job has been taken at once. -/
def sendNow (snap : RadioSnapshot) (now : ℚ) (job : ForwardJob) (a : SendAttempt)
    (rest : List ForwardJob) (s : HostRepeaterTx) : HostRepeaterTx :=
  HostRepeaterTx.recordSendOk job a.clock a.wall (HostRepeaterTx.hand snap job
    { s with queue := rest, queueFullSince := none, inFlight := inFlightAt s.inFlight now })

theorem serves_sendNow
    (htime : ¬ now > job.deadline) (a : SendAttempt) (rest : List ForwardJob)
    (s : HostRepeaterTx) : Serves now [job] s (s.sendNow snap now job a rest) := by
  have hyes : onTime now job = true := decide_eq_true (not_lt.mp htime)
  constructor <;> simp [sendNow, recordSendOk, hand, hyes]

/-- A prefix of the queue was served, up to a job that is not due or the cap. -/
def ServesPrefix (rt : Runtime) (now : ℚ) (s s' : HostRepeaterTx) : Prop :=
  ∃ jobs, s.queue = jobs ++ s'.queue ∧ (∀ job ∈ jobs, job.sendAt ≤ now) ∧ Serves now jobs s s' ∧
    ∀ job, s'.queue.head? = some job → now < job.sendAt ∨ StoppedByCap rt now s'

theorem ServesPrefix.refl
    (h : ∀ job, s.queue.head? = some job → now < job.sendAt ∨ StoppedByCap rt now s) :
    ServesPrefix rt now s s := ⟨[], rfl, by simp, Serves.refl now s, h⟩

theorem ServesPrefix.cons
    (hqueue : s.queue = job :: t.queue) (hdue : job.sendAt ≤ now) (hserves : Serves now [job] s t)
    (h : ServesPrefix rt now t s') : ServesPrefix rt now s s' := by
  obtain ⟨jobs, hjobs, hall, hrest, hend⟩ := h
  refine ⟨job :: jobs, ?_, ?_, hserves.trans hrest, hend⟩
  · rw [hqueue, hjobs, List.cons_append]
  · intro job' hjob'
    rcases List.mem_cons.mp hjob' with rfl | hjob'
    · exact hdue
    · exact hall job' hjob'

theorem sendPass_instant {a : SendAttempt}
    (ha : a.Instant now) (job : ForwardJob) (rest : List ForwardJob) (s : HostRepeaterTx) :
    sendPass rt snap a job { s with
      queue := rest
      queueFullSince := none
      inFlight := inFlightAt s.inFlight now } = (s.sendNow snap now job a rest, none) := by
  unfold sendPass
  rw [ha.outcome]
  rfl

/-- A tick with instant sends does not suspend and serves a prefix of the queue. -/
theorem tickLoop_prefix {fuel : ℕ}
    {attempts : List SendAttempt} {susp : Option Suspension}
    (harmed : s.armed = true) (hfuel : s.queue.length ≤ fuel)
    (hinstant : ∀ a ∈ attempts, a.Instant now)
    (h : tickLoop rt snap fuel now attempts s = some (s', susp)) :
    susp = none ∧ ServesPrefix rt now s s' := by
  induction fuel generalizing attempts s with
  | zero =>
    obtain ⟨_, rfl, rfl⟩ := endStretch_eq_some h
    have hnil : s'.queue = [] := List.eq_nil_of_length_eq_zero (Nat.le_zero.mp hfuel)
    exact ⟨rfl, .refl (by simp [hnil])⟩
  | succ fuel ih =>
    unfold tickLoop at h
    split at h
    · rename_i hnil
      obtain ⟨_, rfl, rfl⟩ := endStretch_eq_some h
      exact ⟨rfl, .refl (by simp [hnil])⟩
    rename_i job rest hqueue
    rw [hqueue, List.length_cons, Nat.add_le_add_iff_right] at hfuel
    split at h
    swap
    · rename_i hwait
      obtain ⟨_, rfl, rfl⟩ := endStretch_eq_some h
      refine ⟨rfl, .refl ?_⟩
      intro job' hjob'
      rw [hqueue] at hjob'
      obtain rfl := Option.some.inj hjob'
      exact Or.inl (not_le.mp (fun hle => hwait ⟨harmed, hle⟩))
    rename_i hdue
    dsimp only at h
    split at h
    · -- too late
      rename_i hlate
      obtain ⟨hsusp, hrest⟩ := ih (by exact harmed) (by exact hfuel) hinstant h
      exact ⟨hsusp, .cons hqueue hdue.2 (serves_tooLate hlate s) hrest⟩
    rename_i htime
    split at h
    · -- the firmware still holds the previous forwards
      rename_i hcap
      obtain ⟨_, rfl, rfl⟩ := endStretch_eq_some h
      refine ⟨rfl, [], hqueue, by simp, ⟨(List.append_nil _).symm, rfl, rfl⟩, ?_⟩
      intro job' hjob'
      refine Or.inr ⟨job, rfl, hdue.2, ?_⟩
      rw [inFlightAt, inFlightAt, List.dropWhile_idempotent]
      exact hcap
    split at h
    · cases h
    rename_i a attempts
    have ha := hinstant a List.mem_cons_self
    rw [sendPass_instant ha] at h
    dsimp only at h
    rw [ha.next] at h
    have hattempts : ∀ b ∈ attempts, b.Instant now :=
      fun b hb => hinstant b (List.mem_cons_of_mem a hb)
    obtain ⟨hsusp, hrest⟩ := ih (by exact harmed) (by exact hfuel) hattempts h
    exact ⟨hsusp, .cons hqueue hdue.2 (serves_sendNow htime a rest s) hrest⟩

/-- Some list of instant sends is what the loop meets. -/
theorem exists_instant_tickLoop (rt : Runtime) (snap : RadioSnapshot) (fuel : ℕ) (now : ℚ)
    (s : HostRepeaterTx) : ∃ attempts s', (∀ a ∈ attempts, SendAttempt.Instant now a) ∧
      tickLoop rt snap fuel now attempts s = some (s', none) := by
  induction fuel generalizing s with
  | zero => exact ⟨[], s, by simp, rfl⟩
  | succ fuel ih =>
    unfold tickLoop
    split
    · exact ⟨[], s, by simp, rfl⟩
    rename_i job rest _
    dsimp only
    split
    swap
    · exact ⟨[], s, by simp, rfl⟩
    split
    · exact ih _
    split
    · exact ⟨[], _, by simp, rfl⟩
    · -- the first send is taken at once, the rest of the loop gives the others
      have hinstant : SendAttempt.Instant now ⟨.answered .ok, now, 0, now⟩ := ⟨rfl, rfl⟩
      obtain ⟨attempts, s', hall, h⟩ :=
        ih (s.sendNow snap now job ⟨.answered .ok, now, 0, now⟩ rest)
      refine ⟨⟨.answered .ok, now, 0, now⟩ :: attempts, s', ?_, ?_⟩
      · intro a ha
        rcases List.mem_cons.mp ha with rfl | ha
        · exact hinstant
        · exact hall a ha
      · dsimp only
        rw [sendPass_instant hinstant]
        exact h

/-- Behind a job that is not due, no job is due when the due ones come first. -/
theorem dueFirst_append_iff
    (hdue : ∀ job ∈ jobs, job.sendAt ≤ now)
    (hhead : ∀ job, rest.head? = some job → now < job.sendAt) :
    DueFirst now (jobs ++ rest) ↔ ∀ job ∈ rest, now < job.sendAt := by
  constructor
  · intro h
    have hrest := (List.pairwise_append.mp h).2.1
    cases rest with
    | nil => simp
    | cons first rest =>
      have hfirst := hhead first rfl
      intro job hjob
      rcases List.mem_cons.mp hjob with rfl | hjob
      · exact hfirst
      · by_contra hle
        exact absurd ((List.pairwise_cons.mp hrest).1 job hjob (not_lt.mp hle)) (not_le.mpr hfirst)
  · intro h
    refine List.pairwise_append.mpr ⟨?_, ?_, ?_⟩
    · exact List.pairwise_of_forall_mem_list (fun a ha _ _ _ => hdue a ha)
    · exact List.pairwise_of_forall_mem_list
        (fun _ _ b hb hle => absurd hle (not_le.mpr (h b hb)))
    · exact fun a ha _ _ _ => hdue a ha

theorem dueJobs_append
    (hdue : ∀ job ∈ jobs, job.sendAt ≤ now) (hrest : ∀ job ∈ rest, now < job.sendAt) :
    dueJobs now (jobs ++ rest) = jobs := by
  have hjobs : dueJobs now jobs = jobs :=
    List.filter_eq_self.mpr (fun job hjob => decide_eq_true (hdue job hjob))
  have hnone : dueJobs now rest = [] :=
    List.filter_eq_nil_iff.mpr (fun job hjob => by simpa using hrest job hjob)
  unfold dueJobs at *
  rw [List.filter_append, hjobs, hnone, List.append_nil]

/-- **Due jobs of one tick.** An armed repeater whose guard finds nothing has a
tick whose sends are all instant. No such tick suspends, and one that does not
stop at the in-flight cap leaves no due job and serves them all, exactly when no
job that is not due stands in front of one that is. -/
theorem tick_serves_due_iff {rt : Runtime} {now wall : ℚ} {snap : RadioSnapshot}
    {s : HostRepeaterTx} (harmed : s.armed = true) (hguard : s.guard now snap = none) :
    (∃ attempts s', (∀ a ∈ attempts, SendAttempt.Instant now a) ∧
      s.tick rt now wall snap attempts = some (s', none)) ∧
    ∀ attempts s' susp, (∀ a ∈ attempts, SendAttempt.Instant now a) →
      s.tick rt now wall snap attempts = some (s', susp) → ¬ StoppedByCap rt now s' →
      susp = none ∧
        (((∀ job ∈ s'.queue, now < job.sendAt) ∧ Serves now (dueJobs now s.queue) s s') ↔
          DueFirst now s.queue) := by
  have htick : ∀ attempts, s.tick rt now wall snap attempts = s.runTickLoop rt snap now attempts := by
    intro attempts
    simp only [tick, harmed, hguard]
    simp
  constructor
  · obtain ⟨attempts, s', hinstant, h⟩ := exists_instant_tickLoop rt snap s.queue.length now s
    exact ⟨attempts, s', hinstant, (htick attempts).trans h⟩
  · intro attempts s' susp hinstant h hcap
    rw [htick] at h
    obtain ⟨hsusp, jobs, hqueue, hdue, hserves, hend⟩ :=
      tickLoop_prefix harmed (Nat.le_refl _) hinstant h
    have hhead : ∀ job, s'.queue.head? = some job → now < job.sendAt :=
      fun job hjob => (hend job hjob).resolve_right hcap
    refine ⟨hsusp, ?_⟩
    rw [hqueue, dueFirst_append_iff hdue hhead]
    constructor
    · exact And.left
    · intro hrest
      rw [dueJobs_append hdue hrest]
      exact ⟨hrest, hserves⟩

/-- An armed repeater with a job of each delay, queued at time zero. -/
def armAndEnqueue (delaysMs : List ℚ) : List TxOp :=
  .arm readyRuntime true readySnapshot 0 ::
    delaysMs.map (fun delayMs => .enqueue readyRuntime (oneByteDecision delayMs) 0 0)

theorem tick_serves_due_iff_armAndEnqueue :
    ∃ s : HostRepeaterTx, (s.armed = true ∧ s.guard 0 readySnapshot = none ∧ s.queue ≠ []) ∧
      (∃ attempts s', (∀ a ∈ attempts, SendAttempt.Instant 0 a) ∧
        s.tick readyRuntime 0 0 readySnapshot attempts = some (s', none)) ∧
      ∀ attempts s' susp, (∀ a ∈ attempts, SendAttempt.Instant 0 a) →
        s.tick readyRuntime 0 0 readySnapshot attempts = some (s', susp) →
        ¬ StoppedByCap readyRuntime 0 s' →
        susp = none ∧
          (((∀ job ∈ s'.queue, 0 < job.sendAt) ∧ Serves 0 (dueJobs 0 s.queue) s s') ↔
            DueFirst 0 s.queue) := by
  obtain ⟨_, s, _, _, hs⟩ := Run.exists_of_trace TxOp.apply {} (armAndEnqueue [0])
    (fun x => x.2.armed && Decidable.decide (x.2.guard 0 readySnapshot = none) && !x.2.queue.isEmpty)
    (by decide +kernel)
  simp only [Bool.and_eq_true, decide_eq_true_eq, Bool.not_eq_true',
    List.isEmpty_eq_false_iff] at hs
  obtain ⟨⟨harmed, hguard⟩, hne⟩ := hs
  exact ⟨s, ⟨harmed, hguard, hne⟩, tick_serves_due_iff harmed hguard⟩

/-- A job that is due stays behind one that is not. -/
theorem not_forall_tick_serves_due :
    ¬ ∀ (h : List TxEvent) (s s' : HostRepeaterTx) (rt : Runtime) (now wall : ℚ)
      (snap : RadioSnapshot) (attempts : List SendAttempt) (susp : Option Suspension),
      Run TxStep {} h s → s.armed = true → s.guard now snap = none →
      (∀ a ∈ attempts, a.Instant now) → s.tick rt now wall snap attempts = some (s', susp) →
      ¬ StoppedByCap rt now s' → ∀ job ∈ s'.queue, now < job.sendAt := by
  intro hall
  obtain ⟨h, s, r, _, hs⟩ := Run.exists_of_trace TxOp.apply {} (armAndEnqueue [1000, 0])
    (fun x => x.2.armed && Decidable.decide (x.2.guard (1 / 2) readySnapshot = none) &&
      (x.2.tick readyRuntime (1 / 2) 0 readySnapshot []).any (fun r =>
        Decidable.decide
          ((inFlightAt r.1.inFlight (1 / 2)).length < readyRuntime.settings.maxInFlight) &&
          r.1.queue.any (fun job => Decidable.decide (job.sendAt ≤ 1 / 2))))
    (by decide +kernel)
  simp only [Bool.and_eq_true, decide_eq_true_eq, Option.any_eq_true, List.any_eq_true] at hs
  obtain ⟨⟨harmed, hguard⟩, ⟨s', susp⟩, htick, hcap, job, hjob, hdue⟩ := hs
  have hlate := hall h s s' readyRuntime (1 / 2) 0 readySnapshot [] susp r harmed hguard (by simp)
    htick (fun ⟨_, _, _, hle⟩ => absurd hle (Nat.not_le.mpr hcap)) job hjob
  exact absurd hdue (not_le.mpr hlate)

end HostRepeaterTx

/-!
## The sends in flight

A send that went well is in flight until its airtime and a margin have passed. The deque of these
times is cut at its head only, and they are not in order: a short send is over before a long one
that was made earlier. It is still counted then.
-/

open RtfmEv.Lib HostRepeaterTx

/-- What the deque is used for, and anything that leaves it alone. -/
inductive FlightCall
  | sent (job : ForwardJob) (wall : ℚ)
  | inFlight
  | other

inductive FlightStep : Timed ℚ HostRepeaterTx → ℚ × FlightCall → Timed ℚ HostRepeaterTx → Prop
  | sent {s : Timed ℚ HostRepeaterTx} {now : ℚ} (job : ForwardJob) (wall : ℚ) : s.clock ≤ now →
      FlightStep s (now, .sent job wall) ⟨now, s.state.recordSendOk job now wall⟩
  | inFlight {s : Timed ℚ HostRepeaterTx} {now : ℚ} : s.clock ≤ now →
      FlightStep s (now, .inFlight)
        ⟨now, { s.state with inFlight := inFlightAt s.state.inFlight now }⟩
  | other {s : Timed ℚ HostRepeaterTx} {now : ℚ} {t : HostRepeaterTx} : s.clock ≤ now →
      t.inFlight = s.state.inFlight → FlightStep s (now, .other) ⟨now, t⟩

abbrev FlightEvent := Event (Timed ℚ HostRepeaterTx) (ℚ × FlightCall)

/-- When a send is assumed to be gone. -/
def doneAt (sent : ℚ) (job : ForwardJob) : ℚ := sent + (job.airtimeMs + inFlightMarginMs) / 1000

/-- The completion times of the recorded sends, in the order of the sends. -/
def doneTimes (calls : List FlightEvent) : List ℚ :=
  calls.filterMap (fun e =>
    match e.label.2 with
    | .sent job _ => some (doneAt e.label.1 job)
    | _ => none)

/-- Sends that are not gone yet. -/
def stillOut (now : ℚ) (times : List ℚ) : ℕ := times.countP (fun t => Decidable.decide (now < t))

/-- No send is gone while one before it is not. -/
def OverInOrder (now : ℚ) (times : List ℚ) : Prop := times.Pairwise (fun a b => now < a → now < b)

/-! #### A cut at the head -/

variable {times gone : List ℚ}

theorem stillOut_append_over {now : ℚ} (h : ∀ t ∈ gone, t ≤ now) :
    stillOut now (gone ++ times) = stillOut now times := by
  have hzero : gone.countP (fun t => Decidable.decide (now < t)) = 0 :=
    List.countP_eq_zero.mpr (fun t ht hlt => absurd (of_decide_eq_true hlt) (not_lt.mpr (h t ht)))
  unfold stillOut
  rw [List.countP_append, hzero, zero_add]

theorem overInOrder_append_over {now : ℚ} (h : ∀ t ∈ gone, t ≤ now) :
    OverInOrder now (gone ++ times) ↔ OverInOrder now times := by
  unfold OverInOrder
  rw [List.pairwise_append]
  constructor
  · exact fun hall => hall.2.1
  · intro hrest
    refine ⟨?_, hrest, fun a ha b _ hlt => absurd hlt (not_lt.mpr (h a ha))⟩
    exact List.pairwise_of_forall_mem_list
      (fun a ha b _ hlt => absurd hlt (not_lt.mpr (h a ha)))

/-- **The cut leaves exactly what is out where the sends are gone in order.** -/
theorem length_inFlightAt_iff (now : ℚ) (times : List ℚ) :
    (inFlightAt times now).length = stillOut now times ↔ OverInOrder now times := by
  induction times with
  | nil => exact ⟨fun _ => List.Pairwise.nil, fun _ => rfl⟩
  | cons t times ih =>
    by_cases hgone : t ≤ now
    · have hcut : inFlightAt (t :: times) now = inFlightAt times now :=
        List.dropWhile_cons_of_pos (decide_eq_true hgone)
      have hsingle : ∀ u ∈ [t], u ≤ now := fun u hu => by rw [List.mem_singleton.mp hu]; exact hgone
      rw [hcut, ← List.singleton_append, stillOut_append_over hsingle, ih,
        overInOrder_append_over hsingle]
    · have hout : now < t := not_le.mp hgone
      have hcut : inFlightAt (t :: times) now = t :: times :=
        List.dropWhile_cons_of_neg (by rw [decide_eq_true_eq]; exact hgone)
      have hcount : stillOut now (t :: times) = stillOut now times + 1 :=
        List.countP_cons_of_pos (decide_eq_true hout)
      rw [hcut, hcount, List.length_cons, Nat.add_right_cancel_iff]
      unfold OverInOrder stillOut
      rw [List.pairwise_cons, eq_comm, List.countP_eq_length]
      constructor
      · intro hall
        have hlt : ∀ u ∈ times, now < u := fun u hu => of_decide_eq_true (hall u hu)
        exact ⟨fun u hu _ => hlt u hu,
          List.pairwise_of_forall_mem_list (fun _ _ u hu _ => hlt u hu)⟩
      · intro hpairs u hu
        exact decide_eq_true (hpairs.1 u hu hout)

/-! #### Runs -/

/-- What the deque has lost was gone. -/
theorem doneTimes_eq {start : ℚ} {s : HostRepeaterTx} {calls : List FlightEvent}
    {x : Timed ℚ HostRepeaterTx} (hnew : s.inFlight = [])
    (hrun : Run FlightStep ⟨start, s⟩ calls x) :
    ∃ gone, doneTimes calls = gone ++ x.state.inFlight ∧ ∀ t ∈ gone, t ≤ x.clock := by
  refine hrun.history (P := fun calls x => ∃ gone, doneTimes calls = gone ++ x.state.inFlight ∧
    ∀ t ∈ gone, t ≤ x.clock) (C := fun _ => True) (fun _ _ => trivial) ⟨[], ?_, ?_⟩ ?_
  · rw [hnew]
    rfl
  · exact fun t ht => absurd ht List.not_mem_nil
  · intro calls e hstep _ ⟨gone, heq, hgone⟩
    have hlast : doneTimes (calls ++ [e]) = doneTimes calls ++ doneTimes [e] :=
      List.filterMap_append
    rw [hlast, heq]
    obtain ⟨pre, label, post⟩ := e
    have hcall : FlightStep pre label post := hstep
    clear hstep
    cases hcall with
    | sent job wall hnow =>
      refine ⟨gone, List.append_assoc _ _ _, fun t ht => (hgone t ht).trans hnow⟩
    | @inFlight now hnow =>
      have hsplit : (pre.state.inFlight.takeWhile (fun t => Decidable.decide (t ≤ now))) ++
          inFlightAt pre.state.inFlight now = pre.state.inFlight :=
        List.takeWhile_append_dropWhile
      refine ⟨gone ++ pre.state.inFlight.takeWhile (fun t => Decidable.decide (t ≤ now)), ?_, ?_⟩
      · show (gone ++ pre.state.inFlight) ++ [] = (gone ++ _) ++ inFlightAt pre.state.inFlight now
        rw [List.append_nil, List.append_assoc, hsplit]
      · intro t ht
        rcases List.mem_append.mp ht with ht | ht
        · exact (hgone t ht).trans hnow
        · have hgone' := List.mem_takeWhile_imp ht
          exact of_decide_eq_true hgone'
    | @other now t hnow hsame =>
      refine ⟨gone, ?_, fun t ht => (hgone t ht).trans hnow⟩
      show (gone ++ pre.state.inFlight) ++ [] = gone ++ t.inFlight
      rw [hsame, List.append_nil]

/-- **The count of sends in flight** after any run is the number of sends that are not gone, exactly
where no send is over while one before it is not. -/
theorem inFlight_iff {start now : ℚ} {s : HostRepeaterTx} {calls : List FlightEvent}
    {x : Timed ℚ HostRepeaterTx} (hnew : s.inFlight = [])
    (hrun : Run FlightStep ⟨start, s⟩ calls x) (hnow : x.clock ≤ now) :
    (inFlightAt x.state.inFlight now).length = stillOut now (doneTimes calls) ↔
      OverInOrder now (doneTimes calls) := by
  obtain ⟨gone, heq, hgone⟩ := doneTimes_eq hnew hrun
  have hgone' : ∀ t ∈ gone, t ≤ now := fun t ht => (hgone t ht).trans hnow
  rw [heq, stillOut_append_over hgone', overInOrder_append_over hgone']
  exact length_inFlightAt_iff now x.state.inFlight

/-! #### A long send and a short one -/

/-- A forward of one byte. -/
def oneByteJob (airtimeMs : ℚ) : ForwardJob where
  forwarded := [0]
  priority := 0
  arrival := 0
  sendAt := 0
  deadline := 10
  packetHash := ""
  payloadType := "ACK"
  airtimeMs := airtimeMs

/-- Two sends, the second a second after the first. -/
def twoSends (first second : ℚ) : List FlightEvent :=
  [⟨⟨0, {}⟩, (0, .sent (oneByteJob first) 0), ⟨0, recordSendOk (oneByteJob first) 0 0 {}⟩⟩,
    ⟨⟨0, recordSendOk (oneByteJob first) 0 0 {}⟩, (1, .sent (oneByteJob second) 1),
      ⟨1, recordSendOk (oneByteJob second) 1 1 (recordSendOk (oneByteJob first) 0 0 {})⟩⟩]

theorem twoSends_run (first second : ℚ) : Run FlightStep ⟨0, {}⟩ (twoSends first second)
    ⟨1, recordSendOk (oneByteJob second) 1 1 (recordSendOk (oneByteJob first) 0 0 {})⟩ :=
  ((Run.nil _).snoc (FlightStep.sent _ 0 le_rfl)).snoc
    (FlightStep.sent _ 1 (show (0 : ℚ) ≤ 1 by norm_num))

/-- Of two short sends none is counted for longer than it takes. -/
theorem inFlight_iff_short : (inFlightAt (recordSendOk (oneByteJob 100) 1 1
    (recordSendOk (oneByteJob 200) 0 0 {})).inFlight (11 / 10)).length = 1 :=
  ((inFlight_iff rfl (twoSends_run 200 100)
    (show (1 : ℚ) ≤ 11 / 10 by norm_num)).mpr (by unfold OverInOrder; decide +kernel)).trans
      (by decide +kernel)

/-- **A short send behind a long one** is counted until the long one is gone. -/
theorem not_forall_inFlight : ¬ ∀ (start now : ℚ) (s : HostRepeaterTx) (calls : List FlightEvent)
    (x : Timed ℚ HostRepeaterTx), s.inFlight = [] → Run FlightStep ⟨start, s⟩ calls x →
      x.clock ≤ now →
      (inFlightAt x.state.inFlight now).length = stillOut now (doneTimes calls) := by
  intro h
  have hcount := h 0 2 {} _ _ rfl (twoSends_run 5000 100) (show (1 : ℚ) ≤ 2 by norm_num)
  revert hcount
  decide +kernel

end RtfmEv.HostRepeater
