import RtfmEv.HostRepeater.TxConservation

/-!
# What an armed repeater may send

An armed repeater was armed by the last snapshot that passed the checks, does
not wait to re-arm, and an unarmed one holds no jobs. This holds over every
interleaving.

A job is handed to the radio by a tick whose snapshot agrees with the armed
identity and modulation. The snapshot of a tick is as old as its sends, so this
needs that nothing re-arms the repeater behind a task that is inside `_send`:
`_tick` runs in the task itself, which is the only one to disarm with a re-arm,
and nothing is armed while `stop` waits for the task.
-/

namespace RtfmEv.HostRepeater

open RtfmEv.Lib

/-- The operation looks at the arming checks with a runtime and a snapshot. -/
def TxOp.Shows (rt : Runtime) (snap : RadioSnapshot) : TxOp → Prop
  | .arm rt' _ snap' _ => rt' = rt ∧ snap' = snap
  | .tick rt' _ _ snap' _ => rt' = rt ∧ snap' = snap
  | .resume _ (.loop rt' _ _ snap' _) => rt' = rt ∧ snap' = snap
  | _ => False

namespace HostRepeaterTx

/-! ### The arming state -/

/-- The step arms the repeater with a snapshot that nothing blocks. -/
structure Arms (rt : Runtime) (snap : RadioSnapshot) (ev : TxEvent) : Prop where
  shows : ev.label.Shows rt snap
  was_disarmed : ev.pre.armed = false
  armed : ev.post.armed = true
  unblocked : blockers rt snap = []
  pendingRearm : ev.post.pendingRearm = false
  armedKey : ev.post.armedKey = snap.publicKey
  armedRadio : ev.post.armedRadio = snap.radio

/-- The last step that armed the repeater did so with a snapshot that nothing
blocked, and the armed key and radio are those of this snapshot. -/
def ArmedFrom (h : List TxEvent) (s : HostRepeaterTx) : Prop :=
  ∃ h₁ ev h₂ rt snap, h = h₁ ++ ev :: h₂ ∧ Arms rt snap ev ∧
    (∀ ev' ∈ h₂, ev'.post.armed = true) ∧
    s.armedKey = snap.publicKey ∧ s.armedRadio = snap.radio

variable {rt : Runtime} {snap : RadioSnapshot} {ev : TxEvent} {s' s : HostRepeaterTx} {op : TxOp}
  {now : ℚ} {susp : Option Suspension} {attempts : List SendAttempt} {wall : ℚ} {i : ℕ}

theorem isSome_of_unblocked (h : blockers rt snap = []) :
    snap.publicKey.isSome = true ∧ snap.radio.isSome = true := by
  unfold blockers at h
  simp only [List.append_eq_nil_iff] at h
  obtain ⟨⟨⟨⟨⟨⟨⟨⟨_, _⟩, _⟩, hkey⟩, _⟩, _⟩, _⟩, hradio⟩, _⟩ := h
  constructor
  · cases hk : snap.publicKey with
    | none => simp [hk] at hkey
    | some key => rfl
  · cases hr : snap.radio with
    | none => simp [hr] at hradio
    | some radio => rfl

/-- A step leaves the repeater disarmed, keeps what it is armed with, or arms it. -/
def Rearming (ev : TxEvent) : Prop :=
  ev.post.armed = false ∨
    (ev.post.armed = ev.pre.armed ∧ ev.post.pendingRearm = ev.pre.pendingRearm ∧
      ev.post.armedKey = ev.pre.armedKey ∧ ev.post.armedRadio = ev.pre.armedRadio) ∨
    ∃ rt snap, Arms rt snap ev

theorem Rearming.of_sameArming (h : SameArming ev.pre ev.post) : Rearming ev :=
  Or.inr (Or.inl ⟨h.armed, h.pendingRearm, h.armedKey, h.armedRadio⟩)

theorem Rearming.of_stretch
    (h : Stretch snap s s') : Rearming ⟨s, op, s'⟩ := by
  rcases h.arming with hsame | ⟨rearm, hd⟩
  · exact .of_sameArming hsame
  · exact Or.inl hd.armed

theorem ArmedBy.arms
    (h : ArmedBy rt snap s s') (hop : op.Shows rt snap) : Arms rt snap ⟨s, op, s'⟩ :=
  ⟨hop, h.was_disarmed, h.armed, h.unblocked, h.pendingRearm, h.armedKey, h.armedRadio⟩

theorem rearming_tick
    (h : s.tick rt now wall snap attempts = some (s', susp)) (hop : op.Shows rt snap) :
    Rearming ⟨s, op, s'⟩ := by
  rcases tick_cases h with ⟨_, harmed, _⟩ | ⟨_, rfl, _⟩ | ⟨_, ⟨reason, rearm, rfl⟩, _⟩ |
    ⟨_, _, hloop⟩
  · exact Or.inr (Or.inr ⟨rt, snap, harmed.arms hop⟩)
  · exact .of_sameArming (SameArming.refl _)
  · exact Or.inl (disarm_disarmed reason rearm s).armed
  · exact .of_stretch (tickLoop_spec hloop).stretch

theorem Rearming.yieldAt (h : Rearming ⟨s, op, s'⟩) (i : ℕ)
    (p : Option TaskPhase) : Rearming ⟨s, op, s'.yieldAt i p⟩ := by
  rcases h with h | h | ⟨rt, snap, h⟩
  · exact Or.inl h
  · exact Or.inr (Or.inl h)
  · exact Or.inr (Or.inr ⟨rt, snap, h.shows, h.was_disarmed, h.armed, h.unblocked, h.pendingRearm,
      h.armedKey, h.armedRadio⟩)

theorem rearming_step (hstep : TxStep ev.pre ev.label ev.post) :
    Rearming ev := by
  obtain ⟨s, op, s'⟩ := ev
  dsimp only at hstep
  cases step_cases hstep with
  | @armed rt snap wall s' h => exact Or.inr (Or.inr ⟨rt, snap, h.arms ⟨rfl, rfl⟩⟩)
  | notArmed | underAirtime => exact .of_sameArming (SameArming.refl _)
  | disarmed | overAirtime => exact Or.inl (disarm_disarmed _ _ s).armed
  | @enqueued rt d arrival now => exact .of_sameArming (enqueue_spec rt d arrival now s).1
  | stopBegun => exact Or.inl (stopBegin_spec s).armed
  | stopEnded hi => exact Or.inr (Or.inl ⟨rfl, rfl, rfl, rfl⟩)
  | snapshot | reset => exact .of_sameArming ⟨rfl, rfl, rfl, rfl, rfl, rfl⟩
  | ticked h => exact rearming_tick h ⟨rfl, rfl⟩
  | resumed h =>
    cases h with
    | cancelled ht hp hc
    | ended ht hphase hoff => exact (Rearming.of_sameArming (SameArming.refl s)).yieldAt _ none
    | answer ht h => exact (Rearming.of_stretch (answer_spec h).stretch).yieldAt _ _
    | slept ht h => exact (Rearming.of_stretch (retrySend_spec h).stretch).yieldAt _ _
    | @tick _ rt now wall snap attempts x ht hphase hon h =>
      rename_i i _
      have htick : Rearming ⟨s, .resume i (.loop rt now wall snap attempts), x.1⟩ :=
        rearming_tick h ⟨rfl, rfl⟩
      exact htick.yieldAt _ _
    | crash ht hphase hon => exact Or.inl (disarm_disarmed _ _ s).armed

theorem ArmedFrom.snoc {h : List TxEvent} (hpre : ArmedFrom h ev.pre)
    (ha : ev.post.armed = true) (hkey : ev.post.armedKey = ev.pre.armedKey)
    (hradio : ev.post.armedRadio = ev.pre.armedRadio) : ArmedFrom (h ++ [ev]) ev.post := by
  obtain ⟨h₁, ev₀, h₂, rt, snap, rfl, harms, hsince, hk, hr⟩ := hpre
  refine ⟨h₁, ev₀, h₂ ++ [ev], rt, snap, by simp, harms, ?_, hkey.trans hk, hradio.trans hr⟩
  intro ev' hev'
  rcases List.mem_append.mp hev' with hev' | hev'
  · exact hsince ev' hev'
  · rw [List.mem_singleton.mp hev']
    exact ha

theorem armedFrom_of_armed {h : List TxEvent} (r : Run TxStep {} h s)
    (ha : s.armed = true) : s.pendingRearm = false ∧ ArmedFrom h s := by
  have hrun : s.armed = true → s.pendingRearm = false ∧ ArmedFrom h s := by
    refine r.history (P := fun h s => s.armed = true → s.pendingRearm = false ∧ ArmedFrom h s)
      (C := fun _ => True) (fun _ _ => trivial) ?_ ?_
    · intro h
      cases h
    · intro h ev hstep _ hpre ha
      rcases rearming_step hstep with hoff | ⟨harmed, hpending, hkey, hradio⟩ | ⟨rt, snap, harms⟩
      · rw [hoff] at ha
        cases ha
      · obtain ⟨hp, hfrom⟩ := hpre (harmed ▸ ha)
        exact ⟨hpending.trans hp, hfrom.snoc ha hkey hradio⟩
      · exact ⟨harms.pendingRearm, h, ev, [], rt, snap, rfl, harms, by simp, harms.armedKey,
          harms.armedRadio⟩
  exact hrun ha

/-! ### The queue of an unarmed repeater -/

theorem QueueIdle.of_armed (h : s.armed = true) : s.QueueIdle := by
  intro ha
  rw [h] at ha
  cases ha

theorem queueIdle_tick
    (hpre : s.QueueIdle) (h : s.tick rt now wall snap attempts = some (s', susp)) :
    s'.QueueIdle := by
  rcases tick_cases h with ⟨_, harmed, _⟩ | ⟨_, rfl, _⟩ | ⟨_, ⟨reason, rearm, rfl⟩, _⟩ |
    ⟨_, _, hloop⟩
  · exact .of_armed harmed.armed
  · exact hpre
  · exact fun _ => (disarm_disarmed reason rearm s).queue
  · exact (tickLoop_spec hloop).stretch.idle hpre

theorem queueIdle_step (hstep : TxStep ev.pre ev.label ev.post)
    (hpre : ev.pre.QueueIdle) : ev.post.QueueIdle := by
  obtain ⟨s, op, s'⟩ := ev
  dsimp only at hstep hpre ⊢
  cases step_cases hstep with
  | armed h => exact .of_armed h.armed
  | notArmed => exact hpre
  | underAirtime => exact hpre
  | stopEnded hi => exact hpre
  | snapshot => exact hpre
  | reset => exact hpre
  | disarmed | overAirtime => exact fun _ => (disarm_disarmed _ _ s).queue
  | @enqueued rt d arrival now =>
    obtain ⟨hsame, _, hnot, _⟩ := enqueue_spec rt d arrival now s
    intro ha
    have hs : s.armed = false := hsame.armed ▸ ha
    rw [hnot hs]
    exact hpre hs
  | stopBegun => exact fun _ => (stopBegin_spec s).queue hpre
  | ticked h => exact queueIdle_tick hpre h
  | resumed h =>
    cases h with
    | cancelled ht hp hc => exact hpre
    | answer ht h => exact (answer_spec h).stretch.idle hpre
    | slept ht h => exact (retrySend_spec h).stretch.idle hpre
    | @tick _ rt now wall snap attempts x ht hphase hon h =>
      have htick : x.1.QueueIdle := queueIdle_tick hpre h
      exact htick
    | ended ht hphase hoff => exact hpre
    | crash ht hphase hon => exact fun _ => (disarm_disarmed _ _ s).queue

/-! ### What is handed to the radio -/

/-- Task `i` goes on inside `_send`, in a tick with this snapshot. -/
def SendsWith (s : HostRepeaterTx) (i : ℕ) (snap : RadioSnapshot) : Prop :=
  ∃ phase : TaskPhase, s.loop.At i ⟨some phase, false⟩ ∧ phase.sendingWith = some snap

/-- Some task goes on inside `_send`. -/
def MidSend (s : HostRepeaterTx) : Prop :=
  ∃ t ∈ s.loop.tasks, t.live = true ∧ (t.phase.bind TaskPhase.sendingWith).isSome = true

instance (s : HostRepeaterTx) : Decidable s.MidSend := by
  unfold MidSend
  infer_instance

theorem SendsWith.midSend
    (h : s.SendsWith i snap) : s.MidSend := by
  obtain ⟨phase, ht, hsnap⟩ := h
  refine ⟨_, List.mem_of_getElem? ht, rfl, ?_⟩
  rw [Option.bind_some, hsnap]
  rfl

/-- The calls of the program, and any calls that come one after another: what
re-arms the repeater does not cut into a send and does not come while `stop`
waits. -/
def InSequence (ev : TxEvent) : Prop :=
  match ev.label with
  | .arm _ _ _ _ => ev.pre.stopping = []
  | .disarm _ true => ev.pre.stopping = [] ∧ ¬ ev.pre.MidSend
  | .tick _ _ _ _ _ => ¬ ev.pre.MidSend
  | _ => True

/-- What holds between two steps: a task inside `_send` belongs to a tick that
agrees with the arming, and a `stop` that waits has turned everything off. -/
structure Safe (s : HostRepeaterTx) : Prop where
  onlyCurrent : s.loop.OnlyCurrent
  sends : ∀ i snap, s.SendsWith i snap → s.armed = true ∧ Matches snap s.armedKey s.armedRadio
  stopped : s.stopping ≠ [] → s.armed = false ∧ s.pendingRearm = false ∧ ¬ s.loop.HasLive
  handed : ∀ x ∈ s.handed, Matches x.snap x.armedKey x.armedRadio

theorem Safe.not_stopping_of_live (h : s.Safe) (hlive : s.loop.HasLive) :
    s.stopping = [] := by
  by_contra hne
  exact (h.stopped hne).2.2 hlive

theorem Safe.not_stopping_of_on (h : s.Safe)
    (hon : s.armed = true ∨ s.pendingRearm = true) : s.stopping = [] := by
  by_contra hne
  obtain ⟨ha, hp, _⟩ := h.stopped hne
  rw [ha, hp] at hon
  simp at hon

theorem Safe.of_same (h : s.Safe) (hs : SameArming s s')
    (hh : s'.handed = s.handed) : s'.Safe where
  onlyCurrent := by
    rw [hs.loop]
    exact h.onlyCurrent
  sends := by
    intro i snap hsends
    unfold SendsWith at hsends
    rw [hs.loop] at hsends
    rw [hs.armed, hs.armedKey, hs.armedRadio]
    exact h.sends i snap hsends
  stopped := by
    rw [hs.stopping, hs.armed, hs.pendingRearm, hs.loop]
    exact h.stopped
  handed := by
    rw [hh]
    exact h.handed

theorem not_sendsWith_of_not_hasLive (h : ¬ s.loop.HasLive) : ¬ s.SendsWith i snap := by
  rintro ⟨phase, ht, _⟩
  exact h ⟨i, _, ht, rfl⟩

theorem Safe.of_off (h : s.Safe) (hlive : ¬ s'.loop.HasLive)
    (ha : s'.armed = false) (hp : s'.pendingRearm = false) (hh : s'.handed = s.handed) :
    s'.Safe where
  onlyCurrent := TaskTable.onlyCurrent_of_not_hasLive hlive
  sends := fun _ _ hsends => absurd hsends (not_sendsWith_of_not_hasLive hlive)
  stopped := fun _ => ⟨ha, hp, hlive⟩
  handed := by
    rw [hh]
    exact h.handed

theorem sendsWith_ensure
    (h : s'.SendsWith i snap) (hl : s'.loop = s.loop.ensure .start) : s.SendsWith i snap := by
  obtain ⟨phase, ht, hsnap⟩ := h
  rw [hl] at ht
  rcases TaskTable.at_ensure ht with ht | ⟨_, _, heq⟩
  · exact ⟨phase, ht, hsnap⟩
  · cases heq
    cases hsnap

theorem Safe.armedBy (h : s.Safe)
    (harmed : ArmedBy rt snap s s') (hstop : s.stopping = []) : s'.Safe where
  onlyCurrent := by
    rw [harmed.loop]
    exact h.onlyCurrent.ensure .start
  sends := by
    intro i snap' hsends
    obtain ⟨ha, _⟩ := h.sends i snap' (sendsWith_ensure hsends harmed.loop)
    rw [harmed.was_disarmed] at ha
    cases ha
  stopped := by
    intro hne
    rw [harmed.stopping] at hne
    exact absurd hstop hne
  handed := by
    rw [harmed.handed]
    exact h.handed

theorem Safe.disarmed {rearm : Bool} (h : s.Safe)
    (hd : Disarmed rearm s s') (hh : s'.handed = s.handed)
    (hrearm : rearm = true → s.stopping = [] ∧ ¬ s.MidSend) : s'.Safe := by
  cases rearm with
  | false =>
    refine h.of_off ?_ hd.armed hd.pendingRearm hh
    rw [hd.loop]
    exact h.onlyCurrent.not_hasLive_cancel
  | true =>
    obtain ⟨hstop, hmid⟩ := hrearm rfl
    constructor
    · rw [hd.loop]
      exact h.onlyCurrent.ensure .start
    · intro i snap hsends
      exact absurd (sendsWith_ensure hsends hd.loop).midSend hmid
    · intro hne
      rw [hd.stopping] at hne
      exact absurd hstop hne
    · rw [hh]
      exact h.handed

/-- What a tick hands out agrees with the arming its guard has looked at. -/
theorem Stretch.handed_matches
    (h : Stretch snap s s') (hs : s.Safe) (hmatch : Matches snap s.armedKey s.armedRadio) :
    ∀ x ∈ s'.handed, Matches x.snap x.armedKey x.armedRadio := by
  intro x hx
  rcases h.handed x hx with hx | ⟨_, hsnap, hkey, hradio⟩
  · exact hs.handed x hx
  · rw [hsnap, hkey, hradio]
    exact hmatch

/-- A task that goes on inside `_send` after a stretch did so before. -/
theorem Stretch.sendsWith {snap' : RadioSnapshot}
    (h : Stretch snap s s') (hs : s'.SendsWith i snap') : s.SendsWith i snap' := by
  rcases h.arming with hsame | ⟨rearm, hd⟩
  · unfold SendsWith at hs ⊢
    rwa [hsame.loop] at hs
  · cases rearm with
    | true => exact sendsWith_ensure hs hd.loop
    | false =>
      obtain ⟨phase, ht, hsnap⟩ := hs
      rw [hd.loop] at ht
      obtain ⟨t₀, h₀, _, hlive⟩ := TaskTable.at_cancel ht
      obtain ⟨rfl, _⟩ := hlive rfl
      exact ⟨phase, h₀, hsnap⟩

theorem Stretch.onlyCurrent
    (h : Stretch snap s s') (hs : s.loop.OnlyCurrent) : s'.loop.OnlyCurrent := by
  rcases h.arming with hsame | ⟨rearm, hd⟩
  · rw [hsame.loop]
    exact hs
  · rw [hd.loop]
    cases rearm with
    | true => exact hs.ensure .start
    | false => exact hs.cancel

theorem Stretch.stopping
    (h : Stretch snap s s') : s'.stopping = s.stopping := by
  rcases h.arming with hsame | ⟨rearm, hd⟩
  · exact hsame.stopping
  · exact hd.stopping

/-- A stretch with no send under way. -/
theorem Safe.stretch (h : s.Safe)
    (hstretch : Stretch snap s s') (hmid : ¬ s.MidSend) (ha : s.armed = true)
    (hmatch : Matches snap s.armedKey s.armedRadio) : s'.Safe where
  onlyCurrent := hstretch.onlyCurrent h.onlyCurrent
  sends := fun _ _ hsends => absurd (hstretch.sendsWith hsends).midSend hmid
  stopped := by
    intro hne
    exact absurd (hstretch.stopping.trans (h.not_stopping_of_on (Or.inl ha))) hne
  handed := hstretch.handed_matches h hmatch

/-- A stretch of task `i`, and where it gives the event loop back. -/
theorem Safe.park {inHand lost : ℕ}
    {phase : TaskPhase} {r : HostRepeaterTx × Option Suspension} (h : s.Safe)
    (hspec : LoopSpec snap inHand lost s r.1 r.2) (ht : s.loop.At i ⟨some phase, false⟩)
    (hmatch : Matches snap s.armedKey s.armedRadio) : (park i snap r).Safe where
  onlyCurrent := by
    obtain ⟨t, ht', hp⟩ := hspec.stretch.at ht
    exact (hspec.stretch.onlyCurrent h.onlyCurrent).setPhase ht' (fun _ => by rw [hp]; rfl)
  sends := by
    rintro j snap' ⟨phase', ht', hsnap⟩
    obtain ⟨t₀, h₀, heq⟩ := TaskTable.at_setPhase.mp ht'
    by_cases hij : i = j
    · -- the task itself: it has suspended, so the arming state is as before
      rw [if_pos hij] at heq
      have hp := Option.some.inj (congrArg LoopTask.phase heq)
      rw [hp] at hsnap
      cases hsusp : r.2 with
      | none =>
        rw [hsusp] at hsnap
        cases hsnap
      | some susp =>
        obtain ⟨hsame, ha⟩ := hspec.armed_of_suspended (by rw [hsusp]; rfl)
        have hsnap' : snap' = snap := by
          rw [hsusp] at hsnap
          cases susp <;> exact (Option.some.inj hsnap).symm
        refine ⟨hsame.armed.trans ha, ?_⟩
        change Matches snap' r.1.armedKey r.1.armedRadio
        rw [hsnap', hsame.armedKey, hsame.armedRadio]
        exact hmatch
    · -- another live task would have to be the current one
      rw [if_neg hij] at heq
      subst heq
      obtain ⟨phase₀, hold, _⟩ := hspec.stretch.sendsWith ⟨phase', h₀, hsnap⟩
      have hi := h.onlyCurrent i _ ht rfl
      have hj := h.onlyCurrent j _ hold rfl
      exact absurd (Option.some.inj (hi.symm.trans hj)) hij
  stopped := by
    intro hne
    have hstop := h.not_stopping_of_live ⟨i, _, ht, rfl⟩
    exact absurd (hspec.stretch.stopping.trans hstop) hne
  handed := hspec.stretch.handed_matches h hmatch

/-- A task waits outside `_send`, or ends. -/
theorem Safe.yieldAt {t : LoopTask TaskPhase} (h : s.Safe)
    (ht : s.loop.At i t) (hphase : t.phase.isSome = true) {p : Option TaskPhase}
    (hp : p.bind TaskPhase.sendingWith = none) : (s.yieldAt i p).Safe where
  onlyCurrent := h.onlyCurrent.setPhase ht (fun _ => hphase)
  sends := by
    rintro j snap ⟨phase, ht', hsnap⟩
    obtain ⟨t₀, h₀, heq⟩ := TaskTable.at_setPhase.mp ht'
    by_cases hij : i = j
    · rw [if_pos hij] at heq
      have hpeq : p = some phase := (congrArg LoopTask.phase heq).symm
      rw [hpeq, Option.bind_some, hsnap] at hp
      cases hp
    · rw [if_neg hij] at heq
      subst heq
      exact h.sends j snap ⟨phase, h₀, hsnap⟩
  stopped := by
    intro hne
    obtain ⟨ha, hpending, hlive⟩ := h.stopped hne
    exact ⟨ha, hpending, fun hl => hlive (hl.of_setPhase ht (fun _ => hphase))⟩
  handed := h.handed

/-! ### Runs of calls in sequence -/

/-- A tick with no send under way, up to its first suspension. Only the loop over
the due jobs is left. -/
theorem Safe.tick
    (h : s.Safe) (hmid : ¬ s.MidSend) (htick : s.tick rt now wall snap attempts = some (s', susp)) :
    (s'.Safe ∧ susp = none ∧ ∀ i t, s.loop.At i t → ∃ t', s'.loop.At i t' ∧ t'.phase = t.phase) ∨
      (s.armed = true ∧ Matches snap s.armedKey s.armedRadio ∧
        LoopSpec snap 0 (lostAttempts attempts) s s' susp) := by
  rcases tick_cases htick with ⟨hp, harmed, rfl, _⟩ | ⟨_, rfl, rfl, _⟩ |
    ⟨ha, ⟨reason, rearm, rfl⟩, rfl, _⟩ | ⟨ha, hguard, hloop⟩
  · refine Or.inl ⟨h.armedBy harmed (h.not_stopping_of_on (Or.inr hp)), rfl, ?_⟩
    intro i t ht
    rw [harmed.loop]
    exact ⟨t, ht.ensure .start, rfl⟩
  · exact Or.inl ⟨h, rfl, fun i t ht => ⟨t, ht, rfl⟩⟩
  · have hd := disarm_disarmed reason rearm s
    refine Or.inl ⟨h.disarmed hd (disarm_handed reason rearm s) ?_, rfl, fun i t ht => hd.at ht⟩
    exact fun _ => ⟨h.not_stopping_of_on (Or.inl ha), hmid⟩
  · exact Or.inr ⟨ha, matches_of_guard hguard, tickLoop_spec hloop⟩

/-- A task in its loop is the only one that goes on, so no send is under way. -/
theorem Safe.not_midSend {phase : TaskPhase} (h : s.Safe)
    (ht : s.loop.At i ⟨some phase, false⟩) (hphase : phase = .start ∨ phase = .waiting) :
    ¬ s.MidSend := by
  rintro ⟨t, hmem, hlive, hsend⟩
  obtain ⟨j, hj⟩ := List.mem_iff_getElem?.mp hmem
  have hi := h.onlyCurrent i _ ht rfl
  obtain rfl : i = j := Option.some.inj (hi.symm.trans (h.onlyCurrent j t hj hlive))
  rw [← ht.unique hj] at hsend
  rcases hphase with rfl | rfl <;> cases hsend

theorem Safe.resumed {r : Resume} (h : s.Safe)
    (hr : Resumed s i r s') : s'.Safe := by
  cases hr with
  | cancelled ht hp hc => exact h.yieldAt ht hp rfl
  | answer ht hstretch => exact h.park (answer_spec hstretch) ht (h.sends i _ ⟨_, ht, rfl⟩).2
  | slept ht hstretch => exact h.park (retrySend_spec hstretch) ht (h.sends i _ ⟨_, ht, rfl⟩).2
  | @tick _ rt now wall snap attempts x ht hphase hon htick =>
    rcases h.tick (h.not_midSend ht hphase) htick with ⟨hsafe, hsusp, hat⟩ | ⟨_, hmatch, hspec⟩
    · obtain ⟨t, ht', hp⟩ := hat i _ ht
      have hpark : HostRepeaterTx.park i snap x = HostRepeaterTx.yieldAt i (some .waiting) x.1 := by
        unfold HostRepeaterTx.park
        rw [hsusp]
        rfl
      rw [hpark]
      exact hsafe.yieldAt ht' (by rw [hp]; rfl) rfl
    · exact h.park hspec ht hmatch
  | ended ht hphase hoff => exact h.yieldAt ht rfl rfl
  | crash ht hphase hon =>
    have hd := disarm_disarmed .sendErrors false s
    obtain ⟨t, ht', hp⟩ := hd.at ht
    have hsafe := h.disarmed hd (disarm_handed _ _ s) (fun hf => by cases hf)
    exact hsafe.yieldAt ht' (by rw [hp]; rfl) rfl

/-- **One operation** in sequence keeps what is handed out in agreement with the
arming. -/
theorem safe_step (hstep : TxStep ev.pre ev.label ev.post)
    (hseq : InSequence ev) (hpre : ev.pre.Safe) : ev.post.Safe := by
  obtain ⟨s, op, s'⟩ := ev
  dsimp only at hstep hpre ⊢
  cases step_cases hstep with
  | armed h => exact hpre.armedBy h hseq
  | notArmed => exact hpre
  | underAirtime => exact hpre
  | @disarmed reason rearm =>
    refine hpre.disarmed (disarm_disarmed reason rearm s) (disarm_handed reason rearm s) ?_
    rintro rfl
    exact hseq
  | @enqueued rt d arrival now =>
    obtain ⟨hsame, hhanded, _⟩ := enqueue_spec rt d arrival now s
    exact hpre.of_same hsame hhanded
  | overAirtime =>
    exact hpre.disarmed (disarm_disarmed _ false s) (disarm_handed _ false s)
      (fun hf => by cases hf)
  | stopBegun =>
    have hstop := stopBegin_spec s
    exact hpre.of_off (hstop.notLive hpre.onlyCurrent) hstop.armed hstop.pendingRearm hstop.handed
  | @stopEnded i hi =>
    obtain ⟨ha, hp, hlive⟩ := hpre.stopped (List.ne_nil_of_mem hi)
    exact hpre.of_off hlive ha hp rfl
  | snapshot | reset => exact hpre.of_same ⟨rfl, rfl, rfl, rfl, rfl, rfl⟩ rfl
  | @ticked rt now wall snap attempts t htick =>
    rcases hpre.tick hseq htick with ⟨hsafe, _, _⟩ | ⟨ha, hmatch, hspec⟩
    · exact hsafe
    · exact hpre.stretch hspec.stretch hseq ha hmatch
  | resumed h => exact hpre.resumed h

instance (ev : TxEvent) : Decidable (InSequence ev) := by
  unfold InSequence
  split <;> infer_instance

end HostRepeaterTx

end RtfmEv.HostRepeater
