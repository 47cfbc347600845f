import Mathlib.Tactic.Linarith
import RtfmEv.Lib.AsyncLock
import RtfmEv.Lib.Run

/-!
# The send slot (`app/services/send_pacer.py`)

A use of `send_slot` waits for the lock, reads the gap, runs the two loops of
`_wait_for_turn` and is inside its block until it leaves. A number names one use.
Between two awaits nothing else runs, so an operation is what a task does from one
await to the next, with the clock readings it takes on the way. A task that is
cancelled, or whose block raises, leaves. A send is marked by the use that is inside,
and a message may be bound to it at any later time.

The count of waiting sends, which only `is_busy` reads, is left out.
-/

namespace RtfmEv.SendPacer

open RtfmEv.Lib

def defaultSendGapSeconds : ℕ := 5
def echoReleaseSeconds : ℚ := 1
def quietAirSeconds : ℚ := 2
def quietAirMaxWaitSeconds : ℚ := 3
def pollSeconds : ℚ := 1 / 4

/-- The pacing fields of `_State`. -/
structure State where
  lastSendAt : Option ℚ := none
  lastMessageId : Option ℤ := none
  firstEchoAt : Option ℚ := none
  lastRxAt : Option ℚ := none
  deriving DecidableEq

/-- The handle for the holder of the slot. -/
structure SendSlot where
  paced : Bool := true
  sentAt : Option ℚ := none
  deriving DecidableEq

/-- Where a use of `send_slot` is. A loop that sleeps keeps the time it sleeps to. -/
inductive Phase
  | idle
  | waiting
  | reading
  | turn (gap : ℕ) (wake : ℚ)
  | quiet (deadline wake : ℚ)
  | inside
  | done
  deriving DecidableEq

/-- The lock has been acquired and not been released. -/
def Phase.holds : Phase → Bool
  | idle => false
  | waiting => false
  | done => false
  | _ => true

/-- The first loop is over. -/
def Phase.passed : Phase → Bool
  | quiet _ _ => true
  | inside => true
  | _ => false

namespace State

def noteRx (s : State) (now : ℚ) : State := { s with lastRxAt := some now }

def noteEcho (s : State) (messageId : ℤ) (now : ℚ) : State :=
  if some messageId = s.lastMessageId ∧ s.firstEchoAt = none then
    { s with firstEchoAt := some now }
  else s

def readyAt (s : State) (gapSeconds : ℕ) : Option ℚ :=
  s.lastSendAt.map fun lastSendAt =>
    match s.firstEchoAt with
    | some firstEchoAt => min (lastSendAt + gapSeconds) (firstEchoAt + echoReleaseSeconds)
    | none => lastSendAt + gapSeconds

/-- A round of the second loop. -/
def waitForQuiet (s : State) (quietDeadline now : ℚ) : Phase :=
  match s.lastRxAt with
  | none => .inside
  | some lastRx =>
    if quietAirSeconds ≤ now - lastRx ∨ quietDeadline ≤ now then .inside
    else .quiet quietDeadline
      (now + min (min pollSeconds (quietAirSeconds - (now - lastRx))) (quietDeadline - now))

end State

/-- The readings of a round of the first loop and of what follows it when it ends. -/
structure Readings where
  now : ℚ
  start : ℚ
  quiet : ℚ

/-- The readings come after `clock`, in order. -/
def Readings.After (t : Readings) (clock : ℚ) : Prop :=
  clock ≤ t.now ∧ t.now ≤ t.start ∧ t.start ≤ t.quiet

instance (t : Readings) (clock : ℚ) : Decidable (t.After clock) := by
  unfold Readings.After
  exact inferInstance

/-- A round of the first loop of `_wait_for_turn`, with the first round of the second one
when it ends. -/
def State.waitForTurn (s : State) (gapSeconds : ℕ) (t : Readings) : Phase :=
  match s.readyAt gapSeconds with
  | none => s.waitForQuiet (t.start + quietAirMaxWaitSeconds) t.quiet
  | some ready =>
    if ready ≤ t.now then s.waitForQuiet (t.start + quietAirMaxWaitSeconds) t.quiet
    else .turn gapSeconds (t.now + min pollSeconds (ready - t.now))

namespace SendSlot

def markSent (slot : SendSlot) (s : State) (messageId : Option ℤ) (now : ℚ) : SendSlot × State :=
  if !slot.paced then (slot, s)
  else
    ({ slot with sentAt := some now },
      { s with lastSendAt := some now, lastMessageId := messageId, firstEchoAt := none })

def bindMessage (slot : SendSlot) (s : State) (messageId : ℤ) : State :=
  if slot.sentAt ≠ none ∧ s.lastSendAt = slot.sentAt then { s with lastMessageId := some messageId }
  else s

end SendSlot

/-- `_read_gap_seconds`, where `none` is a setting that cannot be read. -/
def readGapSeconds (sendGapSeconds : Option ℤ) : ℕ :=
  match sendGapSeconds with
  | some v => (max 0 (min 30 v)).toNat
  | none => defaultSendGapSeconds

structure World where
  lock : AsyncLock ℕ := {}
  state : State := {}
  clock : ℚ
  phase : ℕ → Phase := fun _ => .idle
  slot : ℕ → SendSlot := fun _ => {}

/-- What happens between two awaits. -/
inductive Op
  | enter (i : ℕ)
  | resume (i : ℕ)
  | cancel (i : ℕ)
  | readGap (i : ℕ) (sendGapSeconds : Option ℤ) (t : Readings)
  | turn (i : ℕ) (t : Readings)
  | quiet (i : ℕ) (now : ℚ)
  | leave (i : ℕ)
  | markSent (i : ℕ) (messageId : Option ℤ) (now : ℚ)
  | bindMessage (i : ℕ) (messageId : ℤ)
  | noteRx (now : ℚ)
  | noteEcho (messageId : ℤ) (now : ℚ)

namespace World

/-- After a `reset`. -/
def start (clock : ℚ) : World := { clock := clock }

/-- The use `i` goes on to a phase. -/
def goTo (w : World) (i : ℕ) (p : Phase) : World :=
  { w with phase := Function.update w.phase i p }

def step (w : World) : Op → Option World
  | .enter i =>
    if w.phase i = .idle then
      some ({ w with lock := (w.lock.acquire i).2 }.goTo i
        (if (w.lock.acquire i).1 then .reading else .waiting))
    else none
  | .resume i =>
    if w.phase i = .waiting then
      (w.lock.resume i).map fun r =>
        { w with lock := r.2 }.goTo i (if r.1 then .reading else .done)
    else none
  | .cancel i =>
    if w.phase i = .waiting then some { w with lock := w.lock.cancel i } else none
  | .readGap i sendGapSeconds t =>
    if w.phase i = .reading ∧ t.After w.clock then
      some ({ w with clock := t.quiet }.goTo i
        (if readGapSeconds sendGapSeconds = 0 then .inside
        else w.state.waitForTurn (readGapSeconds sendGapSeconds) t))
    else none
  | .turn i t =>
    match w.phase i with
    | .turn gapSeconds _ =>
      if t.After w.clock then
        some ({ w with clock := t.quiet }.goTo i (w.state.waitForTurn gapSeconds t))
      else none
    | _ => none
  | .quiet i now =>
    match w.phase i with
    | .quiet quietDeadline _ =>
      if w.clock ≤ now then
        some ({ w with clock := now }.goTo i (w.state.waitForQuiet quietDeadline now))
      else none
    | _ => none
  | .leave i =>
    if (w.phase i).holds then some ({ w with lock := w.lock.release }.goTo i .done) else none
  | .markSent i messageId now =>
    if w.phase i = .inside ∧ w.clock ≤ now then
      some { w with
        clock := now
        slot := Function.update w.slot i ((w.slot i).markSent w.state messageId now).1
        state := ((w.slot i).markSent w.state messageId now).2 }
    else none
  | .bindMessage i messageId =>
    some { w with state := (w.slot i).bindMessage w.state messageId }
  | .noteRx now =>
    if w.clock ≤ now then some { w with clock := now, state := w.state.noteRx now } else none
  | .noteEcho messageId now =>
    if w.clock ≤ now then some { w with clock := now, state := w.state.noteEcho messageId now }
    else none

/-- A run of the uses of `send_slot` and of what is heard on air. -/
abbrev Runs (w : World) (h : List (Event World Op)) (w' : World) : Prop :=
  Run (fun w op w' => w.step op = some w') w h w'

/-! ### One use at a time -/

/-- **The invariant of the lock.** A use that has acquired it and not released it is the only
one, and the lock is taken. -/
structure Exclusive (lock : AsyncLock ℕ) (phase : ℕ → Phase) : Prop where
  ordered : lock.Ordered
  taken : ∀ i, (phase i).holds = true → lock.locked = true
  one : ∀ i j, (phase i).holds = true → (phase j).holds = true → i = j

namespace Exclusive

variable {lock lock' : AsyncLock ℕ} {phase : ℕ → Phase} {i : ℕ} {p : Phase}

/-- A use goes on without a change of who holds the lock. -/
theorem goOn (h : Exclusive lock phase) (hord : lock'.Ordered)
    (hlocked : lock'.locked = lock.locked)
    (hp : p.holds = true → (phase i).holds = true) :
    Exclusive lock' (Function.update phase i p) := by
  have hback : ∀ j, (Function.update phase i p j).holds = true → (phase j).holds = true := by
    intro j hj
    by_cases hji : j = i
    · subst hji
      rw [Function.update_self] at hj
      exact hp hj
    · rwa [Function.update_of_ne hji] at hj
  refine ⟨hord, ?_, ?_⟩
  · intro j hj
    rw [hlocked]
    exact h.taken j (hback j hj)
  · intro j k hj hk
    exact h.one j k (hback j hj) (hback k hk)

theorem grant (h : Exclusive lock phase) (hord : lock'.Ordered) (hfree : lock.locked = false)
    (hlocked : lock'.locked = true) : Exclusive lock' (Function.update phase i p) := by
  have hnone : ∀ j, j ≠ i → (Function.update phase i p j).holds = true → False := by
    intro j hji hj
    rw [Function.update_of_ne hji] at hj
    rw [h.taken j hj] at hfree
    cases hfree
  refine ⟨hord, fun _ _ => hlocked, ?_⟩
  intro j k hj hk
  by_cases hji : j = i
  · by_cases hki : k = i
    · rw [hji, hki]
    · exact (hnone k hki hk).elim
  · exact (hnone j hji hj).elim

theorem leave (h : Exclusive lock phase) (hi : (phase i).holds = true) :
    Exclusive lock.release (Function.update phase i .done) := by
  have hnone : ∀ j, (Function.update phase i .done j).holds = false := by
    intro j
    by_cases hji : j = i
    · rw [hji, Function.update_self]
      rfl
    · rw [Function.update_of_ne hji]
      cases hj : (phase j).holds with
      | false => rfl
      | true => exact absurd (h.one j i hj hi) hji
  refine ⟨h.ordered.release, ?_, ?_⟩
  · intro j hj
    rw [hnone j] at hj
    cases hj
  · intro j k hj
    rw [hnone j] at hj
    cases hj

end Exclusive

theorem exclusive_step {w w' : World} {op : Op} (hs : w.step op = some w')
    (h : Exclusive w.lock w.phase) : Exclusive w'.lock w'.phase := by
  cases op with
  | enter i =>
    obtain ⟨hi, heq⟩ := Option.ite_none_right_eq_some.mp hs
    cases heq
    cases hgot : (w.lock.acquire i).1 with
    | true =>
      obtain ⟨hfree, -, heq⟩ := AsyncLock.acquire_true hgot
      refine h.grant (h.ordered.acquire i) hfree ?_
      show (w.lock.acquire i).2.locked = true
      rw [heq]
    | false =>
      refine h.goOn (h.ordered.acquire i) ?_ ?_
      · show (w.lock.acquire i).2.locked = w.lock.locked
        rw [AsyncLock.acquire_false hgot]
      · intro hp
        simp [Phase.holds] at hp
  | resume i =>
    obtain ⟨hi, heq⟩ := Option.ite_none_right_eq_some.mp hs
    obtain ⟨⟨got, L⟩, hr, rfl⟩ := Option.map_eq_some_iff.mp heq
    cases got with
    | true =>
      obtain ⟨hfree, hlocked, hord⟩ := h.ordered.resume_true hr
      exact h.grant hord hfree hlocked
    | false =>
      obtain ⟨hlocked, hord⟩ := h.ordered.resume_false hr
      refine h.goOn hord hlocked ?_
      intro hp
      simp [Phase.holds] at hp
  | cancel i =>
    obtain ⟨hi, heq⟩ := Option.ite_none_right_eq_some.mp hs
    cases heq
    exact ⟨h.ordered.cancel i, h.taken, h.one⟩
  | readGap i sendGapSeconds t =>
    obtain ⟨⟨hi, -⟩, heq⟩ := Option.ite_none_right_eq_some.mp hs
    cases heq
    refine h.goOn h.ordered rfl ?_
    intro _
    rw [hi]
    rfl
  | turn i t | quiet i now =>
    rw [step] at hs
    split at hs
    · rename_i hi
      obtain ⟨-, heq⟩ := Option.ite_none_right_eq_some.mp hs
      cases heq
      refine h.goOn h.ordered rfl ?_
      intro _
      rw [hi]
      rfl
    · cases hs
  | leave i =>
    obtain ⟨hi, heq⟩ := Option.ite_none_right_eq_some.mp hs
    cases heq
    exact h.leave hi
  | markSent i messageId now | noteRx now | noteEcho messageId now =>
    obtain ⟨-, heq⟩ := Option.ite_none_right_eq_some.mp hs
    cases heq
    exact h
  | bindMessage i messageId =>
    cases hs
    exact h

theorem exclusive_start (clock : ℚ) : Exclusive (start clock).lock (start clock).phase := by
  refine ⟨AsyncLock.ordered_start, ?_, ?_⟩
  · intro i hi
    cases hi
  · intro i j hi
    cases hi

end World

/-!
## What keeps two sends apart

A use past the first loop has seen the clock at the time its send was ready, which only
another send can move back, and no other use can send while it holds the slot. The use
whose send is the last one is known by its own time of sending, later than that of every
other use, so a message bound late is not taken for that of a later send.
-/

/-! #### One round of the loops -/

namespace State

theorem waitForQuiet_spec (s : State) (quietDeadline now : ℚ) :
    s.waitForQuiet quietDeadline now = .inside ∨
      now < quietDeadline ∧ ∃ wake, s.waitForQuiet quietDeadline now = .quiet quietDeadline wake ∧
        wake ≤ quietDeadline := by
  unfold waitForQuiet
  split
  · exact Or.inl rfl
  rename_i lastRx _
  split
  · exact Or.inl rfl
  · rename_i hloud
    rw [not_or, not_le, not_le] at hloud
    refine Or.inr ⟨hloud.2, _, rfl, ?_⟩
    have hmin := min_le_right (min pollSeconds (quietAirSeconds - (now - lastRx)))
      (quietDeadline - now)
    linarith

theorem passed_waitForQuiet (s : State) (quietDeadline now : ℚ) :
    (s.waitForQuiet quietDeadline now).passed = true := by
  rcases waitForQuiet_spec s quietDeadline now with h | ⟨-, wake, h, -⟩
  · rw [h]
    rfl
  · rw [h]
    rfl

/-- The second loop ends with a reading at its deadline. -/
theorem waitForQuiet_of_le (s : State) {quietDeadline now : ℚ} (h : quietDeadline ≤ now) :
    s.waitForQuiet quietDeadline now = .inside := by
  rcases waitForQuiet_spec s quietDeadline now with hin | ⟨hlt, -⟩
  · exact hin
  · exact absurd h (not_le.mpr hlt)

/-- The first loop goes on until the send is ready, and asks for no longer a sleep. -/
theorem waitForTurn_spec (s : State) (gapSeconds : ℕ) (t : Readings) :
    ((∀ ready, s.readyAt gapSeconds = some ready → ready ≤ t.now) ∧
      s.waitForTurn gapSeconds t = s.waitForQuiet (t.start + quietAirMaxWaitSeconds) t.quiet) ∨
    ∃ ready wake, s.readyAt gapSeconds = some ready ∧ t.now < ready ∧ wake ≤ ready ∧
      s.waitForTurn gapSeconds t = .turn gapSeconds wake := by
  unfold waitForTurn
  split
  · rename_i hnone
    refine Or.inl ⟨?_, rfl⟩
    intro ready hready
    rw [hnone] at hready
    cases hready
  rename_i ready hsome
  split
  · rename_i hle
    refine Or.inl ⟨?_, rfl⟩
    intro ready' hready
    rw [hsome] at hready
    cases hready
    exact hle
  · rename_i hlt
    have hmin := min_le_right pollSeconds (ready - t.now)
    exact Or.inr ⟨ready, _, hsome, not_le.mp hlt, by linarith, rfl⟩

variable {t ready : ℚ} {s : State}

theorem readyAt_of_none (hlast : s.lastSendAt = some t)
    (hecho : s.firstEchoAt = none) (g : ℕ) : s.readyAt g = some (t + g) := by
  rw [readyAt, hlast, hecho]
  rfl

theorem readyAt_of_some {e : ℚ} (hlast : s.lastSendAt = some t)
    (hecho : s.firstEchoAt = some e) (g : ℕ) :
    s.readyAt g = some (min (t + g) (e + echoReleaseSeconds)) := by
  rw [readyAt, hlast, hecho]
  rfl

theorem readyAt_le {g : ℕ} (h : s.readyAt g = some ready) :
    ∃ t, s.lastSendAt = some t ∧ ready ≤ t + g := by
  obtain ⟨t, ht, -⟩ := Option.map_eq_some_iff.mp h
  refine ⟨t, ht, ?_⟩
  cases hecho : s.firstEchoAt with
  | none =>
    rw [readyAt_of_none ht hecho] at h
    exact (Option.some.inj h).ge
  | some e =>
    rw [readyAt_of_some ht hecho] at h
    rw [← Option.some.inj h]
    exact min_le_left _ _

/-- A send is ready after the last one, whose echo comes no earlier than it. -/
theorem lt_readyAt {g : ℕ} (hg : 0 < g) (hlast : s.lastSendAt = some t)
    (hecho : ∀ e, s.firstEchoAt = some e → t ≤ e) (h : s.readyAt g = some ready) : t < ready := by
  have hpos : (0 : ℚ) < g := by exact_mod_cast hg
  cases he : s.firstEchoAt with
  | none =>
    rw [readyAt_of_none hlast he] at h
    rw [← Option.some.inj h]
    linarith
  | some e =>
    rw [readyAt_of_some hlast he] at h
    rw [← Option.some.inj h]
    have hle := hecho e he
    refine lt_min (by linarith) ?_
    unfold echoReleaseSeconds
    linarith

end State

/-! #### The invariant -/

/-- The gap that is read is `g`. -/
def Op.GapIs (g : ℕ) : Op → Prop
  | .readGap _ sendGapSeconds _ => readGapSeconds sendGapSeconds = g
  | _ => True

/-- The send of `i` at `t` is the last one: every other use sent before it, and one that is
past the first loop has seen the time at which its own send is ready. -/
structure World.LastSend (w : World) (g i : ℕ) (t : ℚ) : Prop where
  sent : (w.slot i).sentAt = some t
  others : ∀ j, j ≠ i → ∀ x, (w.slot j).sentAt = some x → x < t
  ready : ∀ j, j ≠ i → (w.phase j).passed = true → ∀ ready, w.state.readyAt g = some ready →
    ready ≤ w.clock

/-- **The invariant of the pacing**, for a constant gap. -/
structure World.Spaced (g : ℕ) (w : World) : Prop where
  exclusive : World.Exclusive w.lock w.phase
  paced : ∀ i, (w.slot i).paced = true
  unsent : w.state.lastSendAt = none → ∀ i, (w.slot i).sentAt = none
  sent : ∀ t, w.state.lastSendAt = some t → t ≤ w.clock ∧
    (∀ e, w.state.firstEchoAt = some e → t ≤ e) ∧ ∃ i, w.LastSend g i t
  turn : ∀ i gap wake, w.phase i = .turn gap wake →
    gap = g ∧ ∃ t, w.state.lastSendAt = some t ∧ wake ≤ t + g
  quiet : ∀ i quietDeadline wake, w.phase i = .quiet quietDeadline wake → wake ≤ quietDeadline

namespace World

theorem spaced_start (g : ℕ) (clock : ℚ) : (start clock).Spaced g where
  exclusive := exclusive_start clock
  paced _ := rfl
  unsent _ _ := rfl
  sent t ht := by cases ht
  turn i gap wake h := by cases h
  quiet i d wake h := by cases h

namespace Spaced

variable {g i : ℕ} {w : World} {lock : AsyncLock ℕ} {clock now : ℚ}

/-- A use goes on to a phase, and the pacing fields stay. -/
theorem goTo (h : w.Spaced g) {p : Phase}
    (hex : Exclusive lock (Function.update w.phase i p)) (hclock : w.clock ≤ clock)
    (hpassed : p.passed = true → (w.phase i).passed = true ∨
      ∀ ready, w.state.readyAt g = some ready → ready ≤ clock)
    (hturn : ∀ gap wake, p = .turn gap wake →
      gap = g ∧ ∃ t, w.state.lastSendAt = some t ∧ wake ≤ t + g)
    (hquiet : ∀ quietDeadline wake, p = .quiet quietDeadline wake → wake ≤ quietDeadline) :
    (({ w with lock := lock, clock := clock } : World).goTo i p).Spaced g where
  exclusive := hex
  paced := h.paced
  unsent := h.unsent
  sent := by
    intro t ht
    obtain ⟨hle, hecho, k, hk⟩ := h.sent t ht
    refine ⟨hle.trans hclock, hecho, k, hk.sent, hk.others, ?_⟩
    intro j hjk hj ready hready
    have hj' : (Function.update w.phase i p j).passed = true := hj
    by_cases hji : j = i
    · subst hji
      rw [Function.update_self] at hj'
      rcases hpassed hj' with hbefore | hnow
      · exact (hk.ready j hjk hbefore ready hready).trans hclock
      · exact hnow ready hready
    · rw [Function.update_of_ne hji] at hj'
      exact (hk.ready j hjk hj' ready hready).trans hclock
  turn := by
    intro j gap wake hj
    have hj' : Function.update w.phase i p j = .turn gap wake := hj
    by_cases hji : j = i
    · rw [hji, Function.update_self] at hj'
      exact hturn gap wake hj'
    · rw [Function.update_of_ne hji] at hj'
      exact h.turn j gap wake hj'
  quiet := by
    intro j d wake hj
    have hj' : Function.update w.phase i p j = .quiet d wake := hj
    by_cases hji : j = i
    · rw [hji, Function.update_self] at hj'
      exact hquiet d wake hj'
    · rw [Function.update_of_ne hji] at hj'
      exact h.quiet j d wake hj'

theorem goTo_idle (h : w.Spaced g) {p : Phase} (hex : Exclusive lock (Function.update w.phase i p))
    (hp : p = .reading ∨ p = .waiting ∨ p = .done) :
    (({ w with lock := lock } : World).goTo i p).Spaced g := by
  refine h.goTo hex le_rfl ?_ ?_ ?_
  · intro hpassed
    rcases hp with rfl | rfl | rfl
    · cases hpassed
    · cases hpassed
    · cases hpassed
  · intro gap wake heq
    rcases hp with rfl | rfl | rfl
    · cases heq
    · cases heq
    · cases heq
  · intro d wake heq
    rcases hp with rfl | rfl | rfl
    · cases heq
    · cases heq
    · cases heq

/-- A round of the second loop. -/
theorem goTo_quiet (h : w.Spaced g) {d : ℚ} (hclock : w.clock ≤ clock)
    (hex : Exclusive w.lock (Function.update w.phase i (w.state.waitForQuiet d now)))
    (hpassed : (w.phase i).passed = true ∨
      ∀ ready, w.state.readyAt g = some ready → ready ≤ clock) :
    (({ w with clock := clock } : World).goTo i (w.state.waitForQuiet d now)).Spaced g := by
  refine h.goTo hex hclock (fun _ => hpassed) ?_ ?_
  · intro gap wake heq
    rcases w.state.waitForQuiet_spec d now with hin | ⟨-, wake', hq, -⟩
    · rw [hin] at heq
      cases heq
    · rw [hq] at heq
      cases heq
  · intro d' wake heq
    rcases w.state.waitForQuiet_spec d now with hin | ⟨-, wake', hq, hle⟩
    · rw [hin] at heq
      cases heq
    · rw [hq] at heq
      cases heq
      exact hle

theorem goTo_turn (h : w.Spaced g) {t : Readings} (ht : t.After w.clock)
    (hex : Exclusive w.lock (Function.update w.phase i (w.state.waitForTurn g t))) :
    (({ w with clock := t.quiet } : World).goTo i (w.state.waitForTurn g t)).Spaced g := by
  have hclock : w.clock ≤ t.quiet := ht.1.trans (ht.2.1.trans ht.2.2)
  rcases w.state.waitForTurn_spec g t with ⟨hready, heq⟩ | ⟨ready, wake, hready, -, hwake, heq⟩
  · rw [heq] at hex ⊢
    refine h.goTo_quiet hclock hex (Or.inr ?_)
    intro ready hsome
    exact (hready ready hsome).trans (ht.2.1.trans ht.2.2)
  · rw [heq] at hex ⊢
    refine h.goTo hex hclock ?_ ?_ ?_
    · intro hpassed
      cases hpassed
    · intro gap wake' heq'
      cases heq'
      obtain ⟨sent, hsent, hle⟩ := State.readyAt_le hready
      exact ⟨rfl, sent, hsent, hwake.trans hle⟩
    · intro d wake' heq'
      cases heq'

/-- What is heard on air, and a message that is bound, leave the sends as they are, and make
no send ready later. -/
theorem heard (h : w.Spaced g) {s : State} (hclock : w.clock ≤ clock)
    (hlast : s.lastSendAt = w.state.lastSendAt)
    (hecho : s.firstEchoAt = w.state.firstEchoAt ∨
      w.state.firstEchoAt = none ∧ s.firstEchoAt = some clock) :
    ({ w with clock := clock, state := s } : World).Spaced g where
  exclusive := h.exclusive
  paced := h.paced
  unsent := by
    intro hnone
    exact h.unsent (hlast ▸ hnone)
  sent := by
    intro t ht
    have ht' : w.state.lastSendAt = some t := hlast ▸ ht
    obtain ⟨hle, hecho', k, hk⟩ := h.sent t ht'
    refine ⟨hle.trans hclock, ?_, k, hk.sent, hk.others, ?_⟩
    · intro e he
      rcases hecho with hsame | ⟨-, hnew⟩
      · exact hecho' e (hsame ▸ he)
      · have heq : s.firstEchoAt = some e := he
        rw [hnew] at heq
        rw [← Option.some.inj heq]
        exact hle.trans hclock
    · intro j hjk hj ready hready
      have hready' : s.readyAt g = some ready := hready
      rcases hecho with hsame | ⟨hnone, hnew⟩
      · have hsame' : s.readyAt g = w.state.readyAt g := by
          unfold State.readyAt
          rw [hlast, hsame]
        exact (hk.ready j hjk hj ready (hsame' ▸ hready')).trans hclock
      · have hold := hk.ready j hjk hj _ (State.readyAt_of_none ht' hnone g)
        obtain ⟨t', ht'', hle'⟩ := State.readyAt_le hready'
        rw [hlast, ht'] at ht''
        cases ht''
        exact hle'.trans (hold.trans hclock)
  turn := by
    intro i gap wake hi
    obtain ⟨hgap, t, ht, hle⟩ := h.turn i gap wake hi
    exact ⟨hgap, t, hlast.trans ht, hle⟩
  quiet := h.quiet

/-- A send by the use that is inside comes after every other one, and is the last one. -/
theorem markSent (h : w.Spaced g) (hg : 0 < g) (hi : w.phase i = .inside)
    (hnow : w.clock ≤ now) (messageId : Option ℤ) :
    World.LastSend { w with
      clock := now
      slot := Function.update w.slot i ((w.slot i).markSent w.state messageId now).1
      state := ((w.slot i).markSent w.state messageId now).2 } g i now ∧
    World.Spaced g { w with
      clock := now
      slot := Function.update w.slot i ((w.slot i).markSent w.state messageId now).1
      state := ((w.slot i).markSent w.state messageId now).2 } := by
  have hmark : (w.slot i).markSent w.state messageId now =
      ({ w.slot i with sentAt := some now },
        { w.state with lastSendAt := some now, lastMessageId := messageId, firstEchoAt := none }) := by
    simp [SendSlot.markSent, h.paced i]
  rw [hmark]
  have halone : ∀ j, j ≠ i → (w.phase j).holds = false := by
    intro j hji
    cases hj : (w.phase j).holds with
    | false => rfl
    | true => exact absurd (h.exclusive.one j i hj (by rw [hi]; rfl)) hji
  have hbefore : ∀ j, j ≠ i → ∀ x, (w.slot j).sentAt = some x → x < now := by
    intro j hji x hx
    cases hlast : w.state.lastSendAt with
    | none =>
      rw [h.unsent hlast j] at hx
      cases hx
    | some t =>
      obtain ⟨hle, hecho, k, hk⟩ := h.sent t hlast
      by_cases hki : k = i
      · subst hki
        exact (hk.others j hji x hx).trans_le (hle.trans hnow)
      · have hxt : x ≤ t := by
          by_cases hjk : j = k
          · subst hjk
            rw [hk.sent] at hx
            exact (Option.some.inj hx).ge
          · exact (hk.others j hjk x hx).le
        obtain ⟨ready, hready⟩ : ∃ ready, w.state.readyAt g = some ready := by
          rw [State.readyAt, hlast]
          exact ⟨_, rfl⟩
        have hlt := State.lt_readyAt hg hlast hecho hready
        have hseen := hk.ready i (Ne.symm hki) (by rw [hi]; rfl) ready hready
        linarith
  have hlast : World.LastSend { w with
      clock := now
      slot := Function.update w.slot i { w.slot i with sentAt := some now }
      state := { w.state with lastSendAt := some now, lastMessageId := messageId,
                              firstEchoAt := none } } g i now := by
    refine ⟨?_, ?_, ?_⟩
    · show (Function.update w.slot i _ i).sentAt = some now
      rw [Function.update_self]
    · intro j hji x hx
      have hx' : (Function.update w.slot i _ j).sentAt = some x := hx
      rw [Function.update_of_ne hji] at hx'
      exact hbefore j hji x hx'
    · intro j hji hj
      have hholds : (w.phase j).holds = true := by
        have hj' : (w.phase j).passed = true := hj
        cases hp : w.phase j with
        | quiet d wake => rfl
        | inside => rfl
        | idle | waiting | reading | turn gap wake | done => rw [hp] at hj'; cases hj'
      rw [halone j hji] at hholds
      cases hholds
  refine ⟨hlast, h.exclusive, ?_, ?_, ?_, ?_, h.quiet⟩
  · intro j
    show (Function.update w.slot i _ j).paced = true
    by_cases hji : j = i
    · subst hji
      rw [Function.update_self]
      exact h.paced j
    · rw [Function.update_of_ne hji]
      exact h.paced j
  · intro hnone
    cases hnone
  · intro t ht
    cases ht
    refine ⟨le_rfl, ?_, i, hlast⟩
    intro e he
    cases he
  · intro j gap wake hj
    have hj' : w.phase j = .turn gap wake := hj
    by_cases hji : j = i
    · rw [hji, hi] at hj'
      cases hj'
    · have hnot := halone j hji
      rw [hj'] at hnot
      cases hnot

end Spaced

end World

end RtfmEv.SendPacer
