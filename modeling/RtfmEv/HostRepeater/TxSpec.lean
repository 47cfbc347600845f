import RtfmEv.HostRepeater.TxLoop

/-!
# What one stretch of the scheduler does

Between two awaits the arming state and the task table are kept, or the
repeater is disarmed once and nothing else is done (`Stretch`). The jobs are
accounted for: what leaves the queue is counted, in hand at the next await, or
met a radio that was gone.
-/

namespace RtfmEv.HostRepeater

open RtfmEv.Lib

/-- The snapshot of the tick that a task is inside `_send` for. -/
def TaskPhase.sendingWith : TaskPhase → Option RadioSnapshot
  | .command snap _ => some snap
  | .lockSleep snap _ => some snap
  | _ => none

/-! ### Accounting -/

/-- The jobs that left through a counter. -/
def TxStats.counted (st : TxStats) : ℕ :=
  st.sent + st.sendErrors + st.droppedQueueFull + st.droppedTooLate + st.droppedLockBusy +
    st.droppedDisarmed

/-- One for an answer that says that the radio is gone. -/
def CommandResult.lost : CommandResult → ℕ
  | .disconnected => 1
  | _ => 0

/-- One for an attempt that met a radio that is gone. -/
def SendOutcome.lost : SendOutcome → ℕ
  | .disconnected => 1
  | .answered result => result.lost
  | _ => 0

/-- How many attempts met a radio that is gone. -/
def lostAttempts (attempts : List SendAttempt) : ℕ :=
  (attempts.map (fun a => a.outcome.lost)).sum

namespace HostRepeaterTx

/-- The jobs that are counted or queued. -/
def settled (s : HostRepeaterTx) : ℕ := s.stats.counted + s.queue.length

/-! ### Arming state -/

/-- The arming state, the task table and the stop calls are the same. -/
structure SameArming (s s' : HostRepeaterTx) : Prop where
  armed : s'.armed = s.armed
  pendingRearm : s'.pendingRearm = s.pendingRearm
  armedKey : s'.armedKey = s.armedKey
  armedRadio : s'.armedRadio = s.armedRadio
  loop : s'.loop = s.loop
  stopping : s'.stopping = s.stopping

/-- The repeater was disarmed. -/
structure Disarmed (rearm : Bool) (s s' : HostRepeaterTx) : Prop where
  armed : s'.armed = false
  pendingRearm : s'.pendingRearm = rearm
  queue : s'.queue = []
  loop : s'.loop = if rearm then s.loop.ensure .start else s.loop.cancel
  stopping : s'.stopping = s.stopping

theorem SameArming.refl (s : HostRepeaterTx) : SameArming s s := ⟨rfl, rfl, rfl, rfl, rfl, rfl⟩

variable {s u t : HostRepeaterTx} {s' : HostRepeaterTx} {snap : RadioSnapshot}
  (reason : DisarmReason) (rearm : Bool) {susp : Option Suspension} {attempts : List SendAttempt}
  {now : ℚ} {fuel : ℕ} {rt : Runtime} {wall : ℚ} {i : ℕ}

theorem SameArming.trans (h : SameArming s t) (h' : SameArming t u) :
    SameArming s u where
  armed := h'.armed.trans h.armed
  pendingRearm := h'.pendingRearm.trans h.pendingRearm
  armedKey := h'.armedKey.trans h.armedKey
  armedRadio := h'.armedRadio.trans h.armedRadio
  loop := h'.loop.trans h.loop
  stopping := h'.stopping.trans h.stopping

theorem Disarmed.of_sameArming {rearm : Bool} (h : SameArming s t)
    (h' : Disarmed rearm t u) : Disarmed rearm s u :=
  ⟨h'.armed, h'.pendingRearm, h'.queue, by rw [h'.loop, h.loop], h'.stopping.trans h.stopping⟩

/-- An unarmed repeater holds no jobs. -/
def QueueIdle (s : HostRepeaterTx) : Prop := s.armed = false → s.queue = []

/-- A stretch of a tick with a snapshot: the arming state is kept or the
repeater is disarmed, and whatever is handed out is handed out as armed. -/
structure Stretch (snap : RadioSnapshot) (s s' : HostRepeaterTx) : Prop where
  arming : SameArming s s' ∨ ∃ rearm, Disarmed rearm s s'
  idle : QueueIdle s → QueueIdle s'
  handed : ∀ x ∈ s'.handed, x ∈ s.handed ∨ (s.armed = true ∧ x.snap = snap ∧
    x.armedKey = s.armedKey ∧ x.armedRadio = s.armedRadio)

/-- Nothing of the arming state, the queue or the handed jobs changes. -/
theorem Stretch.of_same (h : SameArming s s')
    (hq : s'.queue = s.queue) (hh : s'.handed = s.handed) : Stretch snap s s' where
  arming := Or.inl h
  idle := by
    intro hi ha
    rw [hq]
    exact hi (h.armed ▸ ha)
  handed := by
    rw [hh]
    exact fun _ hx => Or.inl hx

theorem Stretch.trans (h : Stretch snap s t)
    (hs : SameArming s t) (h' : Stretch snap t u) : Stretch snap s u where
  arming := by
    rcases h'.arming with hsame | ⟨rearm, hd⟩
    · exact Or.inl (hs.trans hsame)
    · exact Or.inr ⟨rearm, hd.of_sameArming hs⟩
  idle := fun hi => h'.idle (h.idle hi)
  handed := by
    intro x hx
    rcases h'.handed x hx with hx | ⟨ha, hsnap, hkey, hradio⟩
    · exact h.handed x hx
    · exact Or.inr ⟨hs.armed ▸ ha, hsnap, hkey.trans hs.armedKey, hradio.trans hs.armedRadio⟩

/-! ### Disarming and send results -/

theorem disarm_disarmed (s : HostRepeaterTx) :
    Disarmed rearm s (s.disarm reason rearm) := by
  unfold disarm
  cases rearm
  · exact ⟨rfl, rfl, rfl, rfl, rfl⟩
  · exact ⟨rfl, rfl, rfl, rfl, rfl⟩

theorem disarm_handed (s : HostRepeaterTx) :
    (s.disarm reason rearm).handed = s.handed := by
  unfold disarm
  cases rearm <;> rfl

theorem disarm_settled (s : HostRepeaterTx) :
    (s.disarm reason rearm).settled = s.settled := by
  unfold disarm
  cases rearm <;>
    simp only [settled, TxStats.counted, ensureTask, stopTask, if_true, Bool.false_eq_true,
      if_false, List.length_nil] <;> omega

theorem Stretch.of_disarm (snap : RadioSnapshot) (reason : DisarmReason) (rearm : Bool)
    (s : HostRepeaterTx) : Stretch snap s (s.disarm reason rearm) where
  arming := Or.inr ⟨rearm, disarm_disarmed reason rearm s⟩
  idle := fun _ _ => (disarm_disarmed reason rearm s).queue
  handed := by
    rw [disarm_handed]
    exact fun _ hx => Or.inl hx

theorem recordSendError_spec (snap : RadioSnapshot) (detail : String) (tableFull : Bool)
    (s : HostRepeaterTx) :
    Stretch snap s (s.recordSendError detail tableFull) ∧
      (s.recordSendError detail tableFull).settled = s.settled + 1 := by
  have hsame : SameArming s (s.countSendError detail tableFull) := ⟨rfl, rfl, rfl, rfl, rfl, rfl⟩
  have hstretch : Stretch snap s (s.countSendError detail tableFull) :=
    Stretch.of_same hsame rfl rfl
  have hsettled : (s.countSendError detail tableFull).settled = s.settled + 1 := by
    simp only [countSendError, settled, TxStats.counted]
    omega
  unfold recordSendError
  generalize s.countSendError detail tableFull = s₁ at hsame hstretch hsettled ⊢
  have hdisarm := And.intro (hstretch.trans hsame (Stretch.of_disarm snap .sendErrors false s₁))
    ((disarm_settled .sendErrors false s₁).trans hsettled)
  dsimp only
  split
  · exact hdisarm
  split
  · exact hdisarm
  · exact ⟨hstretch, hsettled⟩

/-- An answered job is counted, unless the radio is gone. -/
theorem commandDone_spec (snap : RadioSnapshot) (rt : Runtime) (result : CommandResult)
    (job : ForwardJob) (clock wall : ℚ) (s : HostRepeaterTx) :
    Stretch snap s (s.commandDone rt result job clock wall) ∧
      (s.commandDone rt result job clock wall).settled + result.lost = s.settled + 1 := by
  unfold commandDone
  cases result with
  | ok =>
    refine ⟨Stretch.of_same ⟨rfl, rfl, rfl, rfl, rfl, rfl⟩ rfl rfl, ?_⟩
    simp only [recordSendOk, settled, TxStats.counted, CommandResult.lost]
    omega
  | error code =>
    cases code with
    | none => exact recordSendError_spec snap _ _ s
    | some code => exact recordSendError_spec snap _ _ s
  | raised detail => exact recordSendError_spec snap _ _ s
  | disconnected =>
    exact ⟨Stretch.of_disarm snap _ _ s, congrArg (· + 1) (disarm_settled _ _ s)⟩

theorem hand_stretch (snap : RadioSnapshot) (job : ForwardJob)
    (ha : s.armed = true) : Stretch snap s (s.hand snap job) where
  arming := Or.inl ⟨rfl, rfl, rfl, rfl, rfl, rfl⟩
  idle := fun hi h => hi h
  handed := by
    intro x hx
    rcases List.mem_append.mp hx with hx | hx
    · exact Or.inl hx
    · rw [List.mem_singleton.mp hx]
      exact Or.inr ⟨ha, rfl, rfl, rfl⟩

/-- The job of a pass is in hand, counted, or met a radio that is gone. -/
theorem sendPass_spec (rt : Runtime) (snap : RadioSnapshot) (a : SendAttempt) (job : ForwardJob)
    (ha : s.armed = true)
    (h : s.sendPass rt snap a job = (s', susp)) :
    Stretch snap s s' ∧ (susp.isSome → SameArming s s') ∧
      s'.settled + susp.isSome.toNat + a.outcome.lost = s.settled + 1 := by
  unfold sendPass at h
  have hhand := hand_stretch snap job ha
  have hsame : SameArming s (s.hand snap job) := ⟨rfl, rfl, rfl, rfl, rfl, rfl⟩
  cases ho : a.outcome with
  | busy =>
    rw [ho] at h
    dsimp only at h
    split at h
    · cases h
      refine ⟨Stretch.of_same ⟨rfl, rfl, rfl, rfl, rfl, rfl⟩ rfl rfl, by simp, ?_⟩
      simp only [settled, TxStats.counted, SendOutcome.lost, Option.isSome_none, Bool.toNat_false]
      omega
    · cases h
      exact ⟨Stretch.of_same ⟨rfl, rfl, rfl, rfl, rfl, rfl⟩ rfl rfl,
        fun _ => ⟨rfl, rfl, rfl, rfl, rfl, rfl⟩, rfl⟩
  | disconnected =>
    rw [ho] at h
    cases h
    exact ⟨Stretch.of_disarm snap _ _ s, by simp, congrArg (· + 1) (disarm_settled _ _ s)⟩
  | answered result =>
    rw [ho] at h
    cases h
    obtain ⟨hstretch, hsettled⟩ :=
      commandDone_spec snap rt result job a.clock a.wall (s.hand snap job)
    exact ⟨hhand.trans hsame hstretch, by simp, hsettled⟩
  | pending =>
    rw [ho] at h
    cases h
    exact ⟨hhand, fun _ => hsame, rfl⟩

/-! ### Ticks -/

theorem endStretch_eq_some
    {susp' : Option Suspension} (h : endStretch attempts s susp = some (s', susp')) :
    attempts = [] ∧ s' = s ∧ susp' = susp := by
  unfold endStretch at h
  split at h
  · rename_i he
    cases h
    exact ⟨List.isEmpty_iff.mp he, rfl, rfl⟩
  · cases h

/-- What a stretch that starts with `inHand` jobs in hand does to the arming
state and the jobs. -/
structure LoopSpec (snap : RadioSnapshot) (inHand lost : ℕ) (s s' : HostRepeaterTx)
    (susp : Option Suspension) : Prop where
  stretch : Stretch snap s s'
  armed_of_suspended : susp.isSome → SameArming s s' ∧ s.armed = true
  settled : s'.settled + susp.isSome.toNat + lost = s.settled + inHand

theorem LoopSpec.of_endStretch
    (h : endStretch attempts s none = some (s', susp)) :
    LoopSpec snap 0 (lostAttempts attempts) s s' susp := by
  obtain ⟨rfl, rfl, rfl⟩ := endStretch_eq_some h
  exact ⟨Stretch.of_same (SameArming.refl _) rfl rfl, by simp, rfl⟩

/-- First a part that keeps the arming state, then the rest. -/
theorem LoopSpec.cons {inHand inHand' lost : ℕ} (h : Stretch snap s t) (hs : SameArming s t)
    (hsettled : t.settled + inHand' = s.settled + inHand)
    (h' : LoopSpec snap inHand' lost t s' susp) : LoopSpec snap inHand lost s s' susp where
  stretch := h.trans hs h'.stretch
  armed_of_suspended := by
    intro hsusp
    obtain ⟨hsame, harmed⟩ := h'.armed_of_suspended hsusp
    exact ⟨hs.trans hsame, hs.armed ▸ harmed⟩
  settled := h'.settled.trans hsettled

theorem tickLoop_of_idle (hq : s.queue = []) :
    tickLoop rt snap fuel now attempts s = endStretch attempts s none := by
  cases fuel with
  | zero => rfl
  | succ fuel => simp only [tickLoop, hq]

/-- The loop after a part that may have disarmed the repeater. -/
theorem LoopSpec.after {inHand lost : ℕ}
    (h : Stretch snap s t) (hsettled : t.settled + lost = s.settled + inHand)
    (hloop : tickLoop rt snap fuel now attempts t = some (s', susp))
    (h' : LoopSpec snap 0 (lostAttempts attempts) t s' susp) :
    LoopSpec snap inHand (lost + lostAttempts attempts) s s' susp := by
  have hcount := h'.settled
  rcases h.arming with hsame | ⟨rearm, hd⟩
  · refine ⟨h.trans hsame h'.stretch, ?_, by omega⟩
    intro hsusp
    obtain ⟨hsame', harmed⟩ := h'.armed_of_suspended hsusp
    exact ⟨hsame.trans hsame', hsame.armed ▸ harmed⟩
  · rw [tickLoop_of_idle hd.queue] at hloop
    obtain ⟨_, rfl, rfl⟩ := endStretch_eq_some hloop
    exact ⟨h, by simp, by omega⟩

theorem stretch_of_armed (h : SameArming s s')
    (harmed : s.armed = true) (hh : s'.handed = s.handed) : Stretch snap s s' where
  arming := Or.inl h
  idle := by
    intro _ ha
    rw [h.armed, harmed] at ha
    cases ha
  handed := by
    rw [hh]
    exact fun _ hx => Or.inl hx

theorem tickLoop_spec
    (h : tickLoop rt snap fuel now attempts s = some (s', susp)) :
    LoopSpec snap 0 (lostAttempts attempts) s s' susp := by
  induction fuel generalizing now attempts s with
  | zero => exact LoopSpec.of_endStretch h
  | succ fuel ih =>
    unfold tickLoop at h
    split at h
    · exact LoopSpec.of_endStretch h
    rename_i job rest hqueue
    split at h
    swap
    · exact LoopSpec.of_endStretch h
    rename_i hdue
    obtain ⟨harmed, _⟩ := hdue
    dsimp only at h
    split at h
    · -- too late
      refine LoopSpec.cons (t := _) (stretch_of_armed ?_ harmed ?_) ?_ ?_ (ih h)
      · exact ⟨rfl, rfl, rfl, rfl, rfl, rfl⟩
      · rfl
      · exact ⟨rfl, rfl, rfl, rfl, rfl, rfl⟩
      · simp only [HostRepeaterTx.settled, TxStats.counted, hqueue, List.length_cons]
        omega
    split at h
    · -- the firmware still holds the previous forwards
      refine LoopSpec.cons (t := _) (stretch_of_armed ?_ harmed ?_) ?_ ?_
        (LoopSpec.of_endStretch h)
      · exact ⟨rfl, rfl, rfl, rfl, rfl, rfl⟩
      · rfl
      · exact ⟨rfl, rfl, rfl, rfl, rfl, rfl⟩
      · simp only [HostRepeaterTx.settled, hqueue]
    split at h
    · cases h
    rename_i a attempts
    set t : HostRepeaterTx := { s with
      queue := rest
      queueFullSince := none
      inFlight := inFlightAt s.inFlight now }
    have hsame : SameArming s t := ⟨rfl, rfl, rfl, rfl, rfl, rfl⟩
    have hsettled : t.settled + 1 = s.settled + 0 := by
      simp only [t, HostRepeaterTx.settled, hqueue, List.length_cons]
      omega
    have harmed' : t.armed = true := harmed
    refine LoopSpec.cons (stretch_of_armed hsame harmed rfl) hsame hsettled ?_
    split at h
    · rename_i t' susp₀ hpass
      obtain ⟨hstretch, hsusp, hcount⟩ := sendPass_spec rt snap a job harmed' hpass
      obtain ⟨rfl, rfl, rfl⟩ := endStretch_eq_some h
      exact ⟨hstretch, fun _ => ⟨hsusp rfl, harmed'⟩, hcount⟩
    · rename_i t' hpass
      obtain ⟨hstretch, _, hcount⟩ := sendPass_spec rt snap a job harmed' hpass
      exact LoopSpec.after hstretch hcount h (ih h)

/-- The stretch that starts with the answer to a command. -/
theorem answer_spec {result : CommandResult}
    {job : ForwardJob} {clock next : ℚ}
    (h : (s.commandDone rt result job clock wall).runTickLoop rt snap next attempts =
      some (s', susp)) :
    LoopSpec snap 1 (result.lost + lostAttempts attempts) s s' susp := by
  obtain ⟨hstretch, hcount⟩ := commandDone_spec snap rt result job clock wall s
  exact LoopSpec.after hstretch hcount h (tickLoop_spec h)

/-- The stretch that starts after a lock sleep. A disarmed repeater gives the
job up without counting it. -/
theorem retrySend_spec {job : ForwardJob} {next : ℚ}
    (h : s.retrySend rt snap job next attempts = some (s', susp)) :
    LoopSpec snap 1 ((!s.armed).toNat + lostAttempts attempts) s s' susp := by
  unfold retrySend at h
  split at h
  · rename_i hdisarmed
    have hspec := tickLoop_spec h
    refine ⟨hspec.stretch, hspec.armed_of_suspended, ?_⟩
    have hcount := hspec.settled
    rw [hdisarmed, Bool.toNat_true]
    omega
  · rename_i harmed
    have harmed' : s.armed = true := by simpa using harmed
    have hzero : (!s.armed).toNat = 0 := by rw [harmed']; rfl
    rw [hzero, Nat.zero_add]
    split at h
    · cases h
    rename_i a attempts
    split at h
    · rename_i t susp₀ hpass
      obtain ⟨hstretch, hsusp, hcount⟩ := sendPass_spec rt snap a job harmed' hpass
      obtain ⟨rfl, rfl, rfl⟩ := endStretch_eq_some h
      exact ⟨hstretch, fun _ => ⟨hsusp rfl, harmed'⟩, hcount⟩
    · rename_i t hpass
      obtain ⟨hstretch, _, hcount⟩ := sendPass_spec rt snap a job harmed' hpass
      exact LoopSpec.after hstretch hcount h (tickLoop_spec h)

/-! ### Arming -/

/-- The repeater was armed by an unblocked snapshot. -/
structure ArmedBy (rt : Runtime) (snap : RadioSnapshot) (s s' : HostRepeaterTx) : Prop where
  was_disarmed : s.armed = false
  unblocked : blockers rt snap = []
  armed : s'.armed = true
  pendingRearm : s'.pendingRearm = false
  armedKey : s'.armedKey = snap.publicKey
  armedRadio : s'.armedRadio = snap.radio
  loop : s'.loop = s.loop.ensure .start
  stopping : s'.stopping = s.stopping
  queue : s'.queue = s.queue
  stats : s'.stats = s.stats
  handed : s'.handed = s.handed

theorem arm_eq_ok {confirm : Bool} (h : s.arm rt confirm snap wall = .ok s') :
    s' = s ∨ (confirm = true ∧ ArmedBy rt snap s s') := by
  unfold arm at h
  split at h
  · cases h
  rename_i hunblocked
  split at h
  · cases h
  rename_i hconfirm
  split at h
  · cases h
    exact Or.inl rfl
  · rename_i hdisarmed
    cases h
    exact Or.inr ⟨by simpa using hconfirm, Bool.not_eq_true _ |>.mp hdisarmed,
      not_not.mp hunblocked, rfl, rfl, rfl, rfl, rfl, rfl, rfl, rfl, rfl⟩

theorem exists_arm_eq_ok
    (hd : s.armed = false) (hb : blockers rt snap = []) (wall : ℚ) :
    ∃ s', s.arm rt true snap wall = .ok s' ∧ ArmedBy rt snap s s' := by
  unfold arm
  rw [if_neg (not_not.mpr hb), hd]
  exact ⟨_, rfl, hd, hb, rfl, rfl, rfl, rfl, rfl, rfl, rfl, rfl, rfl⟩

/-- The snapshot of a tick agrees with what the repeater was armed with. -/
structure Matches (snap : RadioSnapshot) (key : Option Bytes) (radio : Option RadioParams) :
    Prop where
  connected : snap.connected = true
  clientRepeat : snap.clientRepeat ≠ some true
  publicKey : snap.publicKey.isSome → snap.publicKey = key
  radio : snap.radio.isSome → snap.radio = radio

theorem matches_of_guard
    (h : s.guard now snap = none) : Matches snap s.armedKey s.armedRadio := by
  unfold guard at h
  split at h
  · cases h
  rename_i hconn
  split at h
  · cases h
  rename_i hrepeat
  split at h
  · cases h
  rename_i hkey
  split at h
  · cases h
  rename_i hradio
  refine ⟨by simpa using hconn, hrepeat, ?_, ?_⟩
  · intro hs
    by_contra hne
    exact hkey ⟨hs, hne⟩
  · intro hs
    by_contra hne
    exact hradio ⟨hs, hne⟩

/-- How a tick goes: a re-arm, nothing, a disarm by the guard, or the loop over
the due jobs under a guard that found nothing. -/
theorem tick_cases
    (h : s.tick rt now wall snap attempts = some (s', susp)) :
    (s.pendingRearm = true ∧ ArmedBy rt snap s s' ∧ susp = none ∧ attempts = []) ∨
      (s.armed = false ∧ s' = s ∧ susp = none ∧ attempts = []) ∨
      (s.armed = true ∧ (∃ reason rearm, s' = s.disarm reason rearm) ∧ susp = none ∧
        attempts = []) ∨
      (s.armed = true ∧ s.guard now snap = none ∧
        s.runTickLoop rt snap now attempts = some (s', susp)) := by
  unfold tick at h
  split at h
  · rename_i hpending
    obtain ⟨hp, hd⟩ := hpending
    have hdisarmed : s.armed = false := by simpa using hd
    split at h
    · rename_i t harm
      obtain ⟨rfl, rfl, rfl⟩ := endStretch_eq_some h
      rcases arm_eq_ok harm with rfl | ⟨_, harmed⟩
      · exact Or.inr (Or.inl ⟨hdisarmed, rfl, rfl, rfl⟩)
      · exact Or.inl ⟨hp, harmed, rfl, rfl⟩
    · obtain ⟨rfl, rfl, rfl⟩ := endStretch_eq_some h
      exact Or.inr (Or.inl ⟨hdisarmed, rfl, rfl, rfl⟩)
  split at h
  · rename_i hd
    obtain ⟨rfl, rfl, rfl⟩ := endStretch_eq_some h
    exact Or.inr (Or.inl ⟨by simpa using hd, rfl, rfl, rfl⟩)
  rename_i ha
  have harmed : s.armed = true := by simpa using ha
  split at h
  · obtain ⟨rfl, rfl, rfl⟩ := endStretch_eq_some h
    exact Or.inr (Or.inr (Or.inl ⟨harmed, ⟨_, _, rfl⟩, rfl, rfl⟩))
  · rename_i hguard
    exact Or.inr (Or.inr (Or.inr ⟨harmed, hguard, h⟩))

/-! ### Resuming -/

/-- How a task can go on. A task that was asked to stop only gets its
cancellation; a live one goes on with the send or the loop it waits in. -/
inductive Resumed (s : HostRepeaterTx) (i : ℕ) : Resume → HostRepeaterTx → Prop
  | cancelled {t : LoopTask TaskPhase} (ht : s.loop.At i t) (hp : t.phase.isSome)
      (hc : t.cancelRequested = true) : Resumed s i .cancelled (s.yieldAt i none)
  | answer {snap : RadioSnapshot} {job : ForwardJob} {rt : Runtime} {result : CommandResult}
      {clock wall next : ℚ} {attempts : List SendAttempt}
      {r : HostRepeaterTx × Option Suspension}
      (ht : s.loop.At i ⟨some (.command snap job), false⟩)
      (h : (s.commandDone rt result job clock wall).runTickLoop rt snap next attempts = some r) :
      Resumed s i (.answer rt result clock wall next attempts) (park i snap r)
  | slept {snap : RadioSnapshot} {job : ForwardJob} {rt : Runtime} {next : ℚ}
      {attempts : List SendAttempt} {r : HostRepeaterTx × Option Suspension}
      (ht : s.loop.At i ⟨some (.lockSleep snap job), false⟩)
      (h : s.retrySend rt snap job next attempts = some r) :
      Resumed s i (.slept rt next attempts) (park i snap r)
  | tick {phase : TaskPhase} {rt : Runtime} {now wall : ℚ} {snap : RadioSnapshot}
      {attempts : List SendAttempt} {r : HostRepeaterTx × Option Suspension}
      (ht : s.loop.At i ⟨some phase, false⟩) (hphase : phase = .start ∨ phase = .waiting)
      (hon : s.armed = true ∨ s.pendingRearm = true)
      (h : s.tick rt now wall snap attempts = some r) :
      Resumed s i (.loop rt now wall snap attempts) (park i snap r)
  | ended {phase : TaskPhase} {rt : Runtime} {now wall : ℚ} {snap : RadioSnapshot}
      (ht : s.loop.At i ⟨some phase, false⟩) (hphase : phase = .start ∨ phase = .waiting)
      (hoff : ¬ (s.armed = true ∨ s.pendingRearm = true)) :
      Resumed s i (.loop rt now wall snap []) (s.yieldAt i none)
  | crash {phase : TaskPhase} (ht : s.loop.At i ⟨some phase, false⟩)
      (hphase : phase = .start ∨ phase = .waiting)
      (hon : s.armed = true ∨ s.pendingRearm = true) :
      Resumed s i .crash ((s.disarm .sendErrors false).yieldAt i none)

theorem resumed_of_loop {r : Resume} {phase : TaskPhase}
    (ht : s.loop.At i ⟨some phase, false⟩) (hphase : phase = .start ∨ phase = .waiting)
    (h : s.resumeLoop i r = some s') : Resumed s i r s' := by
  unfold resumeLoop at h
  split at h
  · split at h
    · rename_i hon
      obtain ⟨x, hx, rfl⟩ := Option.map_eq_some_iff.mp h
      exact Resumed.tick ht hphase hon hx
    · rename_i hoff
      split at h
      · rename_i hempty
        cases h
        rw [List.isEmpty_iff.mp hempty]
        exact Resumed.ended ht hphase hoff
      · cases h
  · split at h
    · rename_i hon
      cases h
      exact Resumed.crash ht hphase hon
    · cases h
  · cases h

theorem resume_cases {r : Resume}
    (h : s.resume i r = some s') : Resumed s i r s' := by
  unfold resume at h
  split at h
  · cases h
  rename_i t ht
  split at h
  · cases h
  rename_i phase hphase
  have hsome : t.phase.isSome := by rw [hphase]; rfl
  split at h
  · rename_i hc
    split at h
    · cases h
      exact Resumed.cancelled ht hsome hc
    · cases h
  rename_i hc
  have hat : s.loop.At i ⟨some phase, false⟩ := by
    rw [← hphase, ← Bool.not_eq_true _ |>.mp hc]
    exact ht
  split at h
  · obtain ⟨x, hx, rfl⟩ := Option.map_eq_some_iff.mp h
    exact Resumed.answer hat hx
  · cases h
  · obtain ⟨x, hx, rfl⟩ := Option.map_eq_some_iff.mp h
    exact Resumed.slept hat hx
  · cases h
  · exact resumed_of_loop hat (Or.inl rfl) h
  · exact resumed_of_loop hat (Or.inr rfl) h

/-- A sample of the measured airtime does nothing or disarms. -/
theorem onStatsSample_cases (ownTx : ℚ) (freq : Option ℚ) (s : HostRepeaterTx) :
    s.onStatsSample ownTx freq = s ∨
      s.onStatsSample ownTx freq = s.disarm .dutyCycleExceeded false := by
  unfold onStatsSample
  split
  · exact Or.inl rfl
  split
  · exact Or.inl rfl
  split
  · exact Or.inr rfl
  · exact Or.inl rfl

/-! ### Stopping -/

/-- The state in which `stop` waits or returns: disarmed, and the current task
was asked to stop. -/
structure StopBegun (s s' : HostRepeaterTx) : Prop where
  armed : s'.armed = false
  pendingRearm : s'.pendingRearm = false
  queue : QueueIdle s → s'.queue = []
  settled : s'.settled = s.settled
  handed : s'.handed = s.handed
  weight : ∀ w : TaskPhase → ℕ, s'.loop.weight w = s.loop.weight w
  notLive : s.loop.OnlyCurrent → ¬ s'.loop.HasLive

theorem stopBegin_spec (s : HostRepeaterTx) : StopBegun s s.stopBegin := by
  set s₁ : HostRepeaterTx := { s with pendingRearm := false }
  -- a disarm asks the current task to stop, and `stop` asks it once more
  obtain ⟨s₂, hs₂, hcore⟩ : ∃ s₂, (if s₁.armed then s₁.disarm .shutdown false else s₁) = s₂ ∧
      StopBegun s s₂.stopTask := by
    refine ⟨_, rfl, ?_⟩
    split
    · have hd := disarm_disarmed .shutdown false s₁
      have hloop : (s₁.disarm .shutdown false).loop = s.loop.cancel := hd.loop
      refine ⟨hd.armed, hd.pendingRearm, fun _ => hd.queue, disarm_settled _ _ s₁,
        disarm_handed _ _ s₁, fun w => ?_, fun hcur hlive => ?_⟩
      · rw [stopTask, TaskTable.weight_cancel, hloop, TaskTable.weight_cancel]
      · rw [stopTask, hloop] at hlive
        exact hcur.not_hasLive_cancel hlive.of_cancel
    · rename_i hdisarmed
      have ha : s.armed = false := Bool.not_eq_true _ |>.mp hdisarmed
      exact ⟨ha, rfl, fun hi => hi ha, rfl, rfl, fun w => TaskTable.weight_cancel w s.loop,
        fun hcur => hcur.not_hasLive_cancel⟩
  unfold stopBegin
  dsimp only
  rw [hs₂]
  split
  · exact ⟨hcore.armed, hcore.pendingRearm, hcore.queue, hcore.settled, hcore.handed, hcore.weight,
      hcore.notLive⟩
  · exact ⟨hcore.armed, hcore.pendingRearm, hcore.queue, hcore.settled, hcore.handed, hcore.weight,
      hcore.notLive⟩

theorem stopEnd_eq_some (h : s.stopEnd i = some s') :
    i ∈ s.stopping ∧ (∃ t, s.loop.At i t ∧ t.phase = none) ∧
      s' = { s with stopping := s.stopping.erase i, loop := s.loop.forget } := by
  unfold stopEnd at h
  split at h
  · rename_i hdone
    obtain ⟨hi, hd⟩ := hdone
    cases ht : s.loop.tasks[i]? with
    | none =>
      rw [ht] at hd
      cases hd
    | some t =>
      rw [ht] at hd
      exact ⟨hi, ⟨t, ht, Option.isNone_iff_eq_none.mp hd⟩, (Option.some.inj h).symm⟩
  · cases h

/-! ### The queue -/

/-- The decision is queued. -/
def Accepts (s : HostRepeaterTx) (d : Decision) : Prop :=
  s.armed = true ∧ d.forward = true ∧ d.forwarded.isSome = true

instance (s : HostRepeaterTx) (d : Decision) : Decidable (s.Accepts d) :=
  inferInstanceAs (Decidable (_ ∧ _ ∧ _))

/-- An accepted job joins the queue, and the jobs that make room are counted. -/
theorem enqueue_spec (rt : Runtime) (d : Decision) (arrival now : ℚ) (s : HostRepeaterTx) :
    SameArming s (s.enqueue rt d arrival now) ∧
      (s.enqueue rt d arrival now).handed = s.handed ∧
      (s.armed = false → s.enqueue rt d arrival now = s) ∧
      (s.enqueue rt d arrival now).settled = s.settled + if s.Accepts d then 1 else 0 := by
  unfold enqueue
  split
  · rename_i hnone
    have hnot : ¬ s.Accepts d := by
      rintro ⟨_, _, h⟩
      rw [hnone] at h
      cases h
    exact ⟨SameArming.refl s, rfl, fun _ => rfl, by rw [if_neg hnot, Nat.add_zero]⟩
  · rename_i forwarded hsome
    split
    · rename_i hrefused
      have hnot : ¬ s.Accepts d := by
        rintro ⟨ha, hf, _⟩
        rw [ha, hf] at hrefused
        simp at hrefused
      exact ⟨SameArming.refl s, rfl, fun _ => rfl, by rw [if_neg hnot, Nat.add_zero]⟩
    · rename_i haccept
      have hacc : s.Accepts d := by
        rw [not_or] at haccept
        exact ⟨by simpa using haccept.1, by simpa using haccept.2, by rw [hsome]; rfl⟩
      refine ⟨⟨rfl, rfl, rfl, rfl, rfl, rfl⟩, rfl, ?_, ?_⟩
      · intro ha
        rw [hacc.1] at ha
        cases ha
      · rw [if_pos hacc]
        have hcap := rt.settings.maxPendingForwards_ge
        simp only [settled, TxStats.counted, List.length_append, List.length_drop,
          List.length_singleton]
        omega

/-! ### Operations -/

/-- How an operation can go. -/
inductive Stepped (s : HostRepeaterTx) : TxOp → HostRepeaterTx → Prop
  | armed {rt : Runtime} {snap : RadioSnapshot} {wall : ℚ} {s' : HostRepeaterTx}
      (h : ArmedBy rt snap s s') : Stepped s (.arm rt true snap wall) s'
  | notArmed {rt : Runtime} {confirm : Bool} {snap : RadioSnapshot} {wall : ℚ} :
      Stepped s (.arm rt confirm snap wall) s
  | disarmed {reason : DisarmReason} {rearm : Bool} :
      Stepped s (.disarm reason rearm) (s.disarm reason rearm)
  | enqueued {rt : Runtime} {d : Decision} {arrival now : ℚ} :
      Stepped s (.enqueue rt d arrival now) (s.enqueue rt d arrival now)
  | overAirtime {ownTx : ℚ} {freq : Option ℚ} :
      Stepped s (.onStatsSample ownTx freq) (s.disarm .dutyCycleExceeded false)
  | underAirtime {ownTx : ℚ} {freq : Option ℚ} : Stepped s (.onStatsSample ownTx freq) s
  | stopBegun : Stepped s .stopBegin s.stopBegin
  | stopEnded {i : ℕ} (hi : i ∈ s.stopping) : Stepped s (.stopEnd i)
      { s with stopping := s.stopping.erase i, loop := s.loop.forget }
  | snapshot {now : ℚ} : Stepped s (.snapshot now) { s with inFlight := inFlightAt s.inFlight now }
  | reset : Stepped s .resetStats { s with stats := {} }
  | ticked {rt : Runtime} {now wall : ℚ} {snap : RadioSnapshot} {attempts : List SendAttempt}
      {s' : HostRepeaterTx} (h : s.tick rt now wall snap attempts = some (s', none)) :
      Stepped s (.tick rt now wall snap attempts) s'
  | resumed {i : ℕ} {r : Resume} {s' : HostRepeaterTx} (h : Resumed s i r s') :
      Stepped s (.resume i r) s'

theorem step_cases {op : TxOp} (h : TxStep s op s') :
    Stepped s op s' := by
  unfold TxStep TxOp.apply at h
  split at h
  · split at h
    · rename_i harm
      obtain rfl := Option.some.inj h
      rcases arm_eq_ok harm with rfl | ⟨rfl, harmed⟩
      · exact .notArmed
      · exact .armed harmed
    · obtain rfl := Option.some.inj h
      exact .notArmed
  · obtain rfl := Option.some.inj h
    exact .disarmed
  · obtain rfl := Option.some.inj h
    exact .enqueued
  · obtain rfl := Option.some.inj h
    rename_i ownTx freq
    rcases onStatsSample_cases ownTx freq s with hs | hs
    · rw [hs]
      exact .underAirtime
    · rw [hs]
      exact .overAirtime
  · obtain rfl := Option.some.inj h
    exact .stopBegun
  · obtain ⟨hi, _, rfl⟩ := stopEnd_eq_some h
    exact .stopEnded hi
  · obtain rfl := Option.some.inj h
    exact .snapshot
  · obtain rfl := Option.some.inj h
    exact .reset
  · split at h
    · rename_i htick
      obtain rfl := Option.some.inj h
      exact .ticked htick
    · cases h
  · exact .resumed (resume_cases h)

end HostRepeaterTx

end RtfmEv.HostRepeater
