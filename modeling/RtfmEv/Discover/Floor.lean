import Mathlib.Data.Rat.Floor
import RtfmEv.Lib.Run

/-!
# The cycles of Auto-discover and their airtime floor

Auto-discover fires a cycle of frames, and the next cycle waits until the silence is over that
the airtime of the frames buys. A frame waits in the chain of the companion until it is its
turn, a trace ping waits for its timer, and a directed ask first reads and overrides its
contact. A frame joins the airtime count when the radio took it.

What a cycle carries besides its Discover request is an input here. Times are milliseconds of
the page's clock.
-/

namespace RtfmEv.AutoDiscover

open RtfmEv.Lib

/-! ### Airtime -/

def defaultSf : ℕ := 8
def discoverBytes : ℕ := 8
def traceBytes : ℕ := 12

/-- The companion's own advert for a name of so many bytes. -/
def advertBytes (nameBytes : ℕ) : ℕ := 2 + 32 + 4 + 64 + min (1 + 8 + nameBytes) 32

def knownSf : Option ℕ → ℕ
  | some sf => if 5 ≤ sf ∧ sf ≤ 12 then sf else defaultSf
  | none => defaultSf

/-- The time on air of a frame, at 62.5 kHz. -/
def frameAirtimeMs (bytes : ℕ) (sf : Option ℕ) : ℕ :=
  let s := knownSf sf
  let symbolUs := 10000 * 2 ^ s / 625
  let coeff1x4 := if s ≤ 6 then 25 else 17
  let coeff2 := if s ≤ 6 then 0 else 8
  let divisor := if symbolUs ≥ 16000 then 4 * (s - 2) else 4 * s
  let bits := 8 * bytes + 16 + coeff2 + 20 - 4 * s
  let groups := (bits + divisor - 1) / divisor
  let preamble := if s ≤ 8 then 32 else 16
  let symbolsX4 := (preamble + 8) * 4 + coeff1x4 + groups * 5 * 4
  symbolUs * symbolsX4 / 4 / 1000

def cycleAirtimeMs (frameBytes : List ℕ) (sf : Option ℕ) : ℕ :=
  (frameBytes.map (frameAirtimeMs · sf)).sum

/-- How long after a cycle the next may start: its airtime is a tenth of that. -/
def minPeriodMs (frameBytes : List ℕ) (sf : Option ℕ) : ℕ := cycleAirtimeMs frameBytes sf * 10

/-! ### The gate -/

def intervalMs : ℤ := 10000

variable {Pos : Type}

/-- Whether a cycle may fire. `moved` says that two positions are 50 m apart. -/
def shouldAutoFire (moved : Pos → Pos → Bool) (lastFireAt : Option ℤ) (lastPos : Option Pos)
    (now : ℤ) (pos : Option Pos) (pendingTargets minPeriod : ℕ) : Bool :=
  if pendingTargets > 0 then false
  else
    match lastFireAt with
    | none => true
    | some last =>
      if now - last < minPeriod then false
      else if now - last ≥ intervalMs then true
      else
        match pos, lastPos with
        | some pos, some lastPos => moved lastPos pos
        | _, _ => false

/-! ### The engine -/

inductive SentKind
  | discover
  | advert
  | trace
  | request
deriving DecidableEq

/-- A frame that `send` has under way. It is `gone` when it was its turn in the chain. -/
structure Sending where
  /-- The number of the cycle that it belongs to. -/
  cycle : ℕ
  bytes : ℕ
  kind : SentKind
  gone : Bool
deriving DecidableEq

/-- A directed ask: it waits for its contact, or it has come to its frame, or past it. -/
structure Asking where
  cycle : ℕ
  bytes : ℕ
  waiting : Bool
deriving DecidableEq

/-- A frame that the radio took. -/
structure Took where
  cycle : ℕ
  bytes : ℕ
  time : ℤ
deriving DecidableEq

/-- What happened, as far as the engine knows: a cycle fired while so many frames, pings and
asks were waiting, and the radio took a frame. -/
inductive Entry
  | fired (cycle : ℕ) (time : ℤ) (waiting : ℕ)
  | took (frame : Took)
deriving DecidableEq

structure State (Pos : Type) where
  enabled : Bool
  disposed : Bool
  lastFireAt : Option ℤ
  lastPos : Option Pos
  /-- The trace pings whose timers run, by their cycle. -/
  pending : List ℕ
  /-- The frames handed to the radio chain and not answered yet. -/
  inFlight : List Sending
  cycleFirstSentAt : Option ℤ
  sentBytes : List ℕ
  holdUntil : ℤ
  /-- The directed ask that is under way. -/
  asking : Option Asking
  /-- How many cycles have fired, and what happened. -/
  cycle : ℕ
  log : List Entry
  clock : ℤ

/-- A new engine, off. -/
def State.init : State Pos :=
  { enabled := false, disposed := false, lastFireAt := none, lastPos := none, pending := []
    inFlight := [], cycleFirstSentAt := none, sentBytes := [], holdUntil := 0, asking := none
    cycle := 0, log := [], clock := 0 }

/-- What is fixed for an engine. -/
structure Setup (Pos : Type) where
  sf : Option ℕ
  nameBytes : ℕ
  moved : Pos → Pos → Bool

/-- What a cycle carries: an advert or not, so many trace pings, and a directed ask. -/
structure Plan where
  advert : Bool
  pings : ℕ
  /-- The size of the directed ask's frame, where there is one. -/
  ask : Option ℕ

variable (E : Setup Pos)

def State.floorMs (s : State Pos) : ℕ := minPeriodMs s.sentBytes E.sf

/-- How many frames, pings and asks are waiting to go out. -/
def State.waiting (s : State Pos) : ℕ :=
  s.pending.length + s.inFlight.length + (s.asking.filter Asking.waiting).toList.length

/-- Whether a tick at `now` fires. -/
def State.fires (s : State Pos) (now : ℤ) (pos : Option Pos) : Bool :=
  if ¬ s.enabled then false
  else if s.lastFireAt = none ∧ now < s.holdUntil then false
  else
    match s.cycleFirstSentAt, s.lastFireAt with
    | some first, some last =>
      if first > last ∧ now - first < s.floorMs E then false
      else shouldAutoFire E.moved s.lastFireAt s.lastPos now pos
        (s.pending.length + s.inFlight.length) (s.floorMs E)
    | _, _ => shouldAutoFire E.moved s.lastFireAt s.lastPos now pos
        (s.pending.length + s.inFlight.length) (s.floorMs E)

/-- A frame is handed to the radio chain. -/
def State.send (s : State Pos) (cycle bytes : ℕ) (kind : SentKind) : State Pos :=
  { s with inFlight := s.inFlight ++ [⟨cycle, bytes, kind, false⟩] }

/-- The directed ask of a cycle: one at a time. -/
def State.askDirected (s : State Pos) : Option ℕ → State Pos
  | none => s
  | some bytes =>
    if s.asking.isSome then s else { s with asking := some ⟨s.cycle, bytes, true⟩ }

/-- The count of a new cycle begins. -/
def State.newCycle (s : State Pos) (now : ℤ) (pos : Option Pos) : State Pos :=
  { s with
    lastFireAt := some now
    lastPos := if pos.isSome then pos else s.lastPos
    sentBytes := []
    cycleFirstSentAt := none
    cycle := s.cycle + 1
    log := s.log ++ [Entry.fired (s.cycle + 1) now s.waiting] }

/-- A cycle fires. -/
def State.fire (s : State Pos) (now : ℤ) (pos : Option Pos) (plan : Plan) : State Pos :=
  let s := s.newCycle now pos
  let s := s.send s.cycle discoverBytes .discover
  let s := if plan.advert then s.send s.cycle (advertBytes E.nameBytes) .advert else s
  let s := { s with pending := s.pending ++ List.replicate plan.pings s.cycle }
  s.askDirected plan.ask

def State.tick (s : State Pos) (now : ℤ) (pos : Option Pos) (plan : Plan) : State Pos :=
  if s.fires E now pos then s.fire E now pos plan else s

/-- The switch goes on, up to the first tick. -/
def State.switchOn (s : State Pos) : State Pos :=
  { s with
    enabled := true
    holdUntil := match s.lastFireAt with
      | some last => last + s.floorMs E
      | none => s.holdUntil
    lastFireAt := none }

def State.start (s : State Pos) (now : ℤ) (pos : Option Pos) (plan : Plan) : State Pos :=
  if s.enabled ∨ s.disposed then s else (s.switchOn E).tick E now pos plan

def State.stop (s : State Pos) : State Pos := { s with enabled := false, pending := [] }

/-- It is the frame's turn in the chain: it goes to the radio if the switch is on. -/
def State.turn (s : State Pos) (i : ℕ) (f : Sending) : State Pos :=
  if s.enabled ∧ ¬ s.disposed then
    { s with inFlight := s.inFlight.set i { f with gone := true } }
  else { s with inFlight := s.inFlight.eraseIdx i }

/-- The frame's `transmit` is over. A frame that the radio did not answer may have gone out, and
counts as taken. -/
def State.answered (s : State Pos) (i : ℕ) (f : Sending) (now : ℤ) (sent : Bool) : State Pos :=
  let s := { s with inFlight := s.inFlight.eraseIdx i }
  if ¬ sent then s
  else
    { s with
      cycleFirstSentAt := some (s.cycleFirstSentAt.getD now)
      sentBytes := s.sentBytes ++ [f.bytes]
      log := s.log ++ [Entry.took ⟨f.cycle, f.bytes, now⟩] }

/-- The timer of a trace ping goes off. A target whose key is no key is not asked. -/
def State.ping (s : State Pos) (i cycle : ℕ) (valid : Bool) : State Pos :=
  let s := { s with pending := s.pending.eraseIdx i }
  if s.enabled ∧ valid then s.send cycle traceBytes .trace else s

/-- The directed ask has its contact at zero hops and comes to its frame. -/
def State.askNow (s : State Pos) (a : Asking) : State Pos :=
  let s := { s with asking := some { a with waiting := false } }
  if s.enabled then s.send a.cycle a.bytes .request else s

/-! ### Runs -/

inductive Label (Pos : Type)
  | tick (now : ℤ) (pos : Option Pos) (plan : Plan)
  | start (now : ℤ) (pos : Option Pos) (plan : Plan)
  | stop (now : ℤ)
  | dispose (now : ℤ)
  | turn (now : ℤ) (i : ℕ)
  | answered (now : ℤ) (i : ℕ) (sent : Bool)
  | ping (now : ℤ) (i : ℕ) (valid : Bool)
  | askNow (now : ℤ)
  | askDone (now : ℤ)

def Label.now : Label Pos → ℤ
  | .tick now _ _ | .start now _ _ | .stop now | .dispose now | .turn now _ | .answered now _ _
  | .ping now _ _ | .askNow now | .askDone now => now

/-- One step at the time of its label, where it is possible. -/
def act (s : State Pos) : Label Pos → Option (State Pos)
  | .tick now pos plan => some (s.tick E now pos plan)
  | .start now pos plan => some (s.start E now pos plan)
  | .stop _ => some s.stop
  | .dispose _ => some { s.stop with disposed := true }
  | .turn _ i =>
    match s.inFlight[i]? with
    | some f => if f.gone then none else some (s.turn i f)
    | none => none
  | .answered now i sent =>
    match s.inFlight[i]? with
    | some f => if f.gone then some (s.answered i f now sent) else none
    | none => none
  | .ping _ i valid => (s.pending[i]?).map (s.ping i · valid)
  | .askNow _ => (s.asking.filter Asking.waiting).map s.askNow
  | .askDone _ =>
    if s.asking.isSome ∧ s.inFlight.all (·.kind ≠ .request) then some { s with asking := none }
    else none

/-- The clock does not go back. -/
def step (s : State Pos) (l : Label Pos) : Option (State Pos) :=
  if l.now < s.clock then none else act E { s with clock := l.now } l

def Step (s : State Pos) (l : Label Pos) (t : State Pos) : Prop := step E s l = some t

/-!
## The airtime floor

Between two cycles the floor counts from the first frame that the radio took, and a tick waits
it out. Switching off and on again forgets the cycle and holds the next one until the floor from
the time the cycle fired, for the frames taken so far. That is too short where the first frame
was held up in the chain, and where a frame is taken after the switch went on. And a directed ask
that still waits for its contact holds up no tick.
-/

variable {Pos : Type} {c : ℕ}

/-! #### The claim on what happened -/

/-- **The floor is waited out**: between two cycles that fire one after the other, the later one
fires while nothing is waiting, and no earlier than the first frame of the earlier one and the
floor of all frames taken between. -/
def FloorWaited (sf : Option ℕ) (log : List Entry) : Prop :=
  ∀ before c₁ t₁ w₁ (mid : List Took) c₂ t₂ w₂ after,
    log = before ++ Entry.fired c₁ t₁ w₁ :: (mid.map Entry.took ++ Entry.fired c₂ t₂ w₂ :: after) →
    w₂ = 0 ∧ ∀ first, (mid.filter (·.cycle = c₁)).head? = some first →
      first.time + minPeriodMs (mid.map Took.bytes) sf ≤ t₂

theorem floorWaited_nil (sf : Option ℕ) : FloorWaited sf [] := by
  intro before c₁ t₁ w₁ mid c₂ t₂ w₂ after h
  cases before <;> cases h

/-- The last cycle of a log, and what was taken since, are determined. -/
theorem last_fired {before before' : List Entry} {c' : ℕ} {t t' : ℤ} {w w' : ℕ}
    {mid mid' : List Took} (h : before ++ Entry.fired c t w :: mid.map Entry.took =
      before' ++ Entry.fired c' t' w' :: mid'.map Entry.took) : c = c' ∧ mid = mid' := by
  induction mid using List.reverseRecOn generalizing mid' with
  | nil =>
    cases mid' using List.reverseRecOn with
    | nil =>
      obtain ⟨-, hlast⟩ := List.append_inj' h rfl
      cases hlast
      exact ⟨rfl, rfl⟩
    | append_singleton mid' x =>
      rw [List.map_append, ← List.cons_append, ← List.append_assoc] at h
      obtain ⟨-, hlast⟩ := List.append_inj' h rfl
      cases hlast
  | append_singleton mid x ih =>
    rw [List.map_append, ← List.cons_append, ← List.append_assoc] at h
    cases mid' using List.reverseRecOn with
    | nil =>
      obtain ⟨-, hlast⟩ := List.append_inj' h rfl
      cases hlast
    | append_singleton mid' x' =>
      rw [List.map_append, ← @List.cons_append _ _ (mid'.map Entry.took),
        ← List.append_assoc] at h
      obtain ⟨hinit, hlast⟩ := List.append_inj' h rfl
      cases hlast
      obtain ⟨hc, hmid⟩ := ih hinit
      exact ⟨hc, by rw [hmid]⟩

theorem FloorWaited.snoc_took {sf : Option ℕ} {log : List Entry} (h : FloorWaited sf log)
    (x : Took) : FloorWaited sf (log ++ [.took x]) := by
  intro before c₁ t₁ w₁ mid c₂ t₂ w₂ after heq
  cases after using List.reverseRecOn with
  | nil =>
    rw [← List.cons_append, ← List.append_assoc] at heq
    obtain ⟨-, hlast⟩ := List.append_inj' heq rfl
    cases hlast
  | append_singleton after e =>
    simp only [← List.append_assoc, ← List.cons_append] at heq
    exact h before c₁ t₁ w₁ mid c₂ t₂ w₂ after (by simpa using (List.append_inj' heq rfl).1)

/-- A cycle fires: it has to wait for the last one only. -/
theorem FloorWaited.snoc_fired {sf : Option ℕ} {log : List Entry} (h : FloorWaited sf log) {t : ℤ}
    {w : ℕ} (hlast : ∀ before c₁ t₁ w₁ (mid : List Took),
      log = before ++ Entry.fired c₁ t₁ w₁ :: mid.map Entry.took →
      w = 0 ∧ ∀ first, (mid.filter (·.cycle = c₁)).head? = some first →
        first.time + minPeriodMs (mid.map Took.bytes) sf ≤ t) :
    FloorWaited sf (log ++ [.fired c t w]) := by
  intro before c₁ t₁ w₁ mid c₂ t₂ w₂ after heq
  cases after using List.reverseRecOn with
  | nil =>
    rw [← List.cons_append, ← List.append_assoc] at heq
    obtain ⟨hlog, hend⟩ := List.append_inj' heq rfl
    cases hend
    exact hlast _ _ _ _ _ hlog
  | append_singleton after e =>
    simp only [← List.append_assoc, ← List.cons_append] at heq
    exact h before c₁ t₁ w₁ mid c₂ t₂ w₂ after (by simpa using (List.append_inj' heq rfl).1)

/-! #### When the floor is waited out -/

variable (E : Setup Pos)

/-- No directed ask waits for its contact. -/
def State.NoAskWaits (s : State Pos) : Prop := s.asking.filter Asking.waiting = none

/-- **When a step is covered.** The switch goes on with the first frame of the last cycle taken
when the cycle fired, or with its floor over; no frame is taken after the switch went on, but
within the hold; and no tick fires while a directed ask waits for its contact. -/
structure Covered (s : State Pos) (l : Label Pos) : Prop where
  switch : ∀ now pos plan, l = .start now pos plan → s.enabled = false → s.disposed = false →
    ∀ last first, s.lastFireAt = some last → s.cycleFirstSentAt = some first →
      first ≤ last ∨ first + s.floorMs E ≤ now
  taken : ∀ now i f, l = .answered now i true → s.inFlight[i]? = some f → s.lastFireAt = none →
    s.cycleFirstSentAt.getD now + minPeriodMs (s.sentBytes ++ [f.bytes]) E.sf ≤
      max s.holdUntil now
  tick : ∀ now pos plan, l = .tick now pos plan → s.fires E now pos = true → s.NoAskWaits
  start : ∀ now pos plan, l = .start now pos plan → s.enabled = false → s.disposed = false →
    (s.switchOn E).fires E now pos = true → s.NoAskWaits

/-! #### What holds along a run -/

/-- What happened since the last cycle fired is what the engine counts. -/
def Since (s : State Pos) : Prop :=
  (∃ before t w, ∃ mid : List Took, s.log = before ++ .fired s.cycle t w :: mid.map .took ∧
      (∀ x ∈ mid, x.cycle = s.cycle) ∧ mid.map Took.bytes = s.sentBytes ∧
      s.cycleFirstSentAt = mid.head?.map Took.time) ∨
    s.log = [] ∧ s.inFlight = [] ∧ s.pending = [] ∧ s.asking = none ∧ s.cycleFirstSentAt = none

structure Inv (s : State Pos) : Prop where
  floors : FloorWaited E.sf s.log
  frames : ∀ f ∈ s.inFlight, f.cycle = s.cycle
  pings : ∀ c ∈ s.pending, c = s.cycle
  ask : ∀ a, s.asking = some a → a.waiting = true → a.cycle = s.cycle
  since : Since s
  hold : s.lastFireAt = none → ∀ first, s.cycleFirstSentAt = some first →
    first + s.floorMs E ≤ max s.holdUntil s.clock

theorem inv_init : Inv E (State.init : State Pos) where
  floors := floorWaited_nil _
  frames := fun _ hf => (nomatch hf)
  pings := fun _ hc => (nomatch hc)
  ask := fun _ ha => (nomatch ha)
  since := Or.inr ⟨rfl, rfl, rfl, rfl, rfl⟩
  hold := fun _ _ hfirst => (nomatch hfirst)

variable {E}

/-- What a tick that fires has seen. -/
structure Fires (s : State Pos) (now : ℤ) : Prop where
  enabled : s.enabled = true
  pending : s.pending = []
  inFlight : s.inFlight = []
  hold : s.lastFireAt = none → s.holdUntil ≤ now
  floor : ∀ last first, s.lastFireAt = some last → s.cycleFirstSentAt = some first →
    first + s.floorMs E ≤ now

variable {pos : Option Pos} {now : ℤ} {s : State Pos} {i : ℕ}

theorem shouldAutoFire_spec {moved : Pos → Pos → Bool} {lastFireAt : Option ℤ}
    {lastPos : Option Pos} {pendingTargets minPeriod : ℕ}
    (h : shouldAutoFire moved lastFireAt lastPos now pos pendingTargets minPeriod = true) :
    pendingTargets = 0 ∧ ∀ last, lastFireAt = some last → last + minPeriod ≤ now := by
  unfold shouldAutoFire at h
  split_ifs at h with hpending
  refine ⟨by omega, fun last hlast => ?_⟩
  rw [hlast] at h
  dsimp only at h
  split_ifs at h with hshort
  all_goals omega

theorem fires_spec (h : s.fires E now pos = true) :
    Fires (E := E) s now := by
  unfold State.fires at h
  split_ifs at h with hon hheld
  have hhold : s.lastFireAt = none → s.holdUntil ≤ now := by
    intro hnone
    have hle : ¬ now < s.holdUntil := fun hlt => hheld ⟨hnone, hlt⟩
    omega
  have hgate : shouldAutoFire E.moved s.lastFireAt s.lastPos now pos
      (s.pending.length + s.inFlight.length) (s.floorMs E) = true := by
    split at h
    · split_ifs at h
      exact h
    · exact h
  obtain ⟨hnone, hfloor⟩ := shouldAutoFire_spec hgate
  refine ⟨hon, List.length_eq_zero_iff.mp (by omega), List.length_eq_zero_iff.mp (by omega),
    hhold, fun last first hlast hfirst => ?_⟩
  have hsince := hfloor last hlast
  rw [hlast, hfirst] at h
  dsimp only at h
  split_ifs at h with hlate
  by_cases hgt : first > last
  · have hge : ¬ now - first < s.floorMs E := fun hlt => hlate ⟨hgt, hlt⟩
    omega
  · omega

/-! #### The steps -/

theorem Inv.clock (h : Inv E s) (hnow : s.clock ≤ now) :
    Inv E { s with clock := now } where
  floors := h.floors
  frames := h.frames
  pings := h.pings
  ask := h.ask
  since := h.since
  hold := fun hnone first hfirst => by
    have hold := h.hold hnone first hfirst
    show first + s.floorMs E ≤ max s.holdUntil now
    omega

/-- The invariant speaks of what happened and of what is under way. -/
theorem Inv.of_eq {t : State Pos} (h : Inv E s) (hlog : t.log = s.log)
    (hcycle : t.cycle = s.cycle) (hfirst : t.cycleFirstSentAt = s.cycleFirstSentAt)
    (hbytes : t.sentBytes = s.sentBytes) (hlast : t.lastFireAt = s.lastFireAt)
    (hhold : t.holdUntil = s.holdUntil) (hclock : t.clock = s.clock)
    (hframes : ∀ f ∈ t.inFlight, f.cycle = s.cycle) (hpings : ∀ c ∈ t.pending, c = s.cycle)
    (hask : ∀ a, t.asking = some a → a.waiting = true → a.cycle = s.cycle)
    (hquiet : s.log = [] → s.inFlight = [] → s.pending = [] → s.asking = none →
      t.inFlight = [] ∧ t.pending = [] ∧ t.asking = none) : Inv E t where
  floors := by
    rw [hlog]
    exact h.floors
  frames := by
    rw [hcycle]
    exact hframes
  pings := by
    rw [hcycle]
    exact hpings
  ask := by
    rw [hcycle]
    exact hask
  since := by
    rcases h.since with ⟨before, t₀, w, mid, heq, hmid, hb, hf⟩ | ⟨hnil, hfl, hp, ha, hf⟩
    · refine Or.inl ⟨before, t₀, w, mid, ?_, ?_, ?_, ?_⟩
      · rw [hlog, hcycle]
        exact heq
      · rw [hcycle]
        exact hmid
      · rw [hbytes]
        exact hb
      · rw [hfirst]
        exact hf
    · obtain ⟨hfl', hp', ha'⟩ := hquiet hnil hfl hp ha
      exact Or.inr ⟨hlog.trans hnil, hfl', hp', ha', hfirst.trans hf⟩
  hold := by
    unfold State.floorMs
    rw [hlast, hfirst, hbytes, hhold, hclock]
    exact h.hold

theorem Inv.send (h : Inv E s) (hlog : s.log ≠ []) (hc : c = s.cycle)
    (bytes : ℕ) (kind : SentKind) : Inv E (s.send c bytes kind) := by
  refine h.of_eq rfl rfl rfl rfl rfl rfl rfl (fun f hf => ?_) h.pings h.ask
    (fun hnil => absurd hnil hlog)
  rcases List.mem_append.mp hf with hold | hnew
  · exact h.frames f hold
  · rw [List.mem_singleton.mp hnew]
    exact hc

/-- Something is under way only after a cycle fired. -/
theorem Inv.log_ne (h : Inv E s)
    (hbusy : s.inFlight ≠ [] ∨ s.pending ≠ [] ∨ s.asking ≠ none) : s.log ≠ [] := by
  rcases h.since with ⟨before, t, w, mid, heq, -⟩ | ⟨-, hfl, hp, ha, -⟩
  · rw [heq]
    cases before <;> exact nofun
  · rcases hbusy with hne | hne | hne
    · exact absurd hfl hne
    · exact absurd hp hne
    · exact absurd ha hne

/-- **A tick fires after the floor.** -/
theorem Inv.waited (h : Inv E s) (hclock : s.clock = now)
    (hfires : Fires (E := E) s now) (hask : s.NoAskWaits) (before : List Entry) (c₁ : ℕ) (t₁ : ℤ)
    (w₁ : ℕ) (mid : List Took)
    (hlog : s.log = before ++ Entry.fired c₁ t₁ w₁ :: mid.map Entry.took) :
    s.waiting = 0 ∧ ∀ first, (mid.filter (·.cycle = c₁)).head? = some first →
      first.time + minPeriodMs (mid.map Took.bytes) E.sf ≤ now := by
  constructor
  · unfold State.waiting
    rw [hfires.pending, hfires.inFlight, hask]
    rfl
  rcases h.since with ⟨before', t', w', mid', heq, hmid, hbytes, hfirst⟩ | ⟨hnil, -⟩
  · obtain ⟨hc, hmids⟩ := last_fired (hlog.symm.trans heq)
    rw [← hmids] at hmid hbytes hfirst
    intro first hhead
    -- all that was taken since belongs to the last cycle
    have hall : mid.filter (·.cycle = c₁) = mid := by
      refine List.filter_eq_self.mpr (fun x hx => ?_)
      rw [hmid x hx, hc]
      exact decide_eq_true rfl
    rw [hall] at hhead
    rw [hhead] at hfirst
    rw [hbytes]
    cases hlast : s.lastFireAt with
    | some last => exact hfires.floor last first.time hlast hfirst
    | none =>
      have hhold := h.hold hlast first.time hfirst
      have hpast := hfires.hold hlast
      unfold State.floorMs at hhold
      omega
  · rw [hnil] at hlog
    cases before <;> cases hlog

theorem Inv.addPings (h : Inv E s) (hlog : s.log ≠ []) (pings : ℕ) :
    Inv E { s with pending := s.pending ++ List.replicate pings s.cycle } := by
  refine h.of_eq rfl rfl rfl rfl rfl rfl rfl h.frames (fun c hc => ?_) h.ask
    (fun hnil => absurd hnil hlog)
  rcases List.mem_append.mp hc with hold | hnew
  · exact h.pings c hold
  · exact List.eq_of_mem_replicate hnew

theorem Inv.askDirected (h : Inv E s) (hlog : s.log ≠ []) (ask : Option ℕ) :
    Inv E (s.askDirected ask) := by
  cases ask with
  | none => exact h
  | some bytes =>
    rw [State.askDirected]
    split_ifs
    · exact h
    · refine h.of_eq rfl rfl rfl rfl rfl rfl rfl h.frames h.pings (fun a ha _ => ?_)
        (fun hnil => absurd hnil hlog)
      rw [← Option.some.inj ha]

theorem Inv.fire (h : Inv E s) (hclock : s.clock = now)
    (hfires : Fires (E := E) s now) (hask : s.NoAskWaits) (pos : Option Pos) (plan : Plan) :
    Inv E (s.fire E now pos plan) := by
  have hfloors := h.floors.snoc_fired (c := s.cycle + 1) (t := now) (w := s.waiting)
    (h.waited hclock hfires hask)
  have hnew : Inv E (s.newCycle now pos) := by
    refine ⟨hfloors, fun f hf => ?_, fun c hc => ?_, fun a ha hwaits => ?_,
      Or.inl ⟨s.log, now, s.waiting, [], rfl, fun _ hx => (nomatch hx), rfl, rfl⟩, nofun⟩
    · have hnil : f ∈ s.inFlight := hf
      rw [hfires.inFlight] at hnil
      cases hnil
    · have hnil : c ∈ s.pending := hc
      rw [hfires.pending] at hnil
      cases hnil
    · have hsome : s.asking = some a := ha
      have hnone : s.asking.filter Asking.waiting = none := hask
      rw [hsome, Option.filter_some, if_pos hwaits] at hnone
      cases hnone
  have hlog : (s.newCycle now pos).log ≠ [] := by
    show s.log ++ [_] ≠ []
    cases s.log <;> exact nofun
  have hdiscover := hnew.send hlog rfl discoverBytes .discover
  rw [State.fire]
  split_ifs
  · have hadvert := hdiscover.send hlog rfl (advertBytes E.nameBytes) .advert
    exact (hadvert.addPings hlog plan.pings).askDirected hlog plan.ask
  · exact (hdiscover.addPings hlog plan.pings).askDirected hlog plan.ask

theorem Inv.tick (h : Inv E s) (hclock : s.clock = now)
    (hask : s.fires E now pos = true → s.NoAskWaits) (plan : Plan) :
    Inv E (s.tick E now pos plan) := by
  rw [State.tick]
  split_ifs with hfires
  · exact h.fire hclock (fires_spec hfires) (hask hfires) pos plan
  · exact h

theorem Inv.switchOn (h : Inv E s)
    (hcov : ∀ last first, s.lastFireAt = some last → s.cycleFirstSentAt = some first →
      first ≤ last ∨ first + s.floorMs E ≤ s.clock) : Inv E (s.switchOn E) where
  floors := h.floors
  frames := h.frames
  pings := h.pings
  ask := h.ask
  since := h.since
  hold := fun _ first hfirst => by
    have hsent : s.cycleFirstSentAt = some first := hfirst
    show first + s.floorMs E ≤ max (s.switchOn E).holdUntil s.clock
    rw [State.switchOn]
    cases hlast : s.lastFireAt with
    | none => exact h.hold hlast first hsent
    | some last =>
      dsimp only
      rcases hcov last first hlast hsent with hle | hle <;> omega

theorem Inv.stop (h : Inv E s) : Inv E s.stop :=
  h.of_eq rfl rfl rfl rfl rfl rfl rfl h.frames (fun _ hc => (nomatch hc)) h.ask
    (fun _ hfl _ ha => ⟨hfl, rfl, ha⟩)

theorem Inv.turn (h : Inv E s) {f : Sending}
    (hf : s.inFlight[i]? = some f) : Inv E (s.turn i f) := by
  have hmem := List.mem_of_getElem? hf
  have hlog := h.log_ne (Or.inl (List.ne_nil_of_mem hmem))
  rw [State.turn]
  split_ifs
  · refine h.of_eq rfl rfl rfl rfl rfl rfl rfl (fun f' hf' => ?_) h.pings h.ask
      (fun hnil => absurd hnil hlog)
    rcases List.mem_or_eq_of_mem_set hf' with hold | rfl
    · exact h.frames f' hold
    · exact h.frames f hmem
  · exact h.of_eq rfl rfl rfl rfl rfl rfl rfl
      (fun f' hf' => h.frames f' ((List.eraseIdx_sublist _ i).subset hf')) h.pings h.ask
      (fun hnil => absurd hnil hlog)

/-- A frame that was taken joins the count of its own cycle. -/
theorem Inv.answered (h : Inv E s) (hclock : s.clock = now)
    {f : Sending} (hf : s.inFlight[i]? = some f) (sent : Bool)
    (hcov : sent = true → s.lastFireAt = none →
      s.cycleFirstSentAt.getD now + minPeriodMs (s.sentBytes ++ [f.bytes]) E.sf ≤
        max s.holdUntil now) : Inv E (s.answered i f now sent) := by
  have hmem := List.mem_of_getElem? hf
  have hlog := h.log_ne (Or.inl (List.ne_nil_of_mem hmem))
  have hframes : ∀ f' ∈ s.inFlight.eraseIdx i, f'.cycle = s.cycle :=
    fun f' hf' => h.frames f' ((List.eraseIdx_sublist _ i).subset hf')
  cases sent with
  | false =>
    exact h.of_eq rfl rfl rfl rfl rfl rfl rfl hframes h.pings h.ask
      (fun hnil => absurd hnil hlog)
  | true =>
    refine ⟨h.floors.snoc_took _, hframes, h.pings, h.ask, ?_, fun hnone first hfirst => ?_⟩
    · rcases h.since with ⟨before, t, w, mid, heq, hmid, hbytes, hfirst⟩ | ⟨hnil, -⟩
      · refine Or.inl ⟨before, t, w, mid ++ [⟨f.cycle, f.bytes, now⟩], ?_, fun x hx => ?_, ?_, ?_⟩
        · show s.log ++ [Entry.took ⟨f.cycle, f.bytes, now⟩] = _
          rw [heq, List.map_append, List.append_assoc, List.cons_append]
          rfl
        · rcases List.mem_append.mp hx with hold | hnew
          · exact hmid x hold
          · rw [List.mem_singleton.mp hnew]
            exact h.frames f hmem
        · show (mid ++ [Took.mk f.cycle f.bytes now]).map Took.bytes = s.sentBytes ++ [f.bytes]
          rw [List.map_append, hbytes]
          rfl
        · show some (s.cycleFirstSentAt.getD now) = _
          rw [hfirst]
          cases mid <;> rfl
      · exact absurd hnil hlog
    · have hcover := hcov rfl hnone
      have hfirst' : some (s.cycleFirstSentAt.getD now) = some first := hfirst
      rw [Option.some.inj hfirst'] at hcover
      show first + minPeriodMs (s.sentBytes ++ [f.bytes]) E.sf ≤ max s.holdUntil s.clock
      rw [hclock]
      exact hcover

theorem Inv.ping (h : Inv E s) (hc : s.pending[i]? = some c)
    (valid : Bool) : Inv E (s.ping i c valid) := by
  have hmem := List.mem_of_getElem? hc
  have hlog := h.log_ne (Or.inr (Or.inl (List.ne_nil_of_mem hmem)))
  have herase : Inv E { s with pending := s.pending.eraseIdx i } :=
    h.of_eq rfl rfl rfl rfl rfl rfl rfl h.frames
      (fun c' hc' => h.pings c' ((List.eraseIdx_sublist _ i).subset hc')) h.ask
      (fun hnil => absurd hnil hlog)
  rw [State.ping]
  dsimp only
  split_ifs
  · exact herase.send hlog (h.pings c hmem) _ _
  · exact herase

theorem Inv.askNow (h : Inv E s) {a : Asking} (ha : s.asking = some a)
    (hwaits : a.waiting = true) : Inv E (s.askNow a) := by
  have hlog := h.log_ne (Or.inr (Or.inr (by rw [ha]; exact Option.some_ne_none a)))
  have hasked : Inv E { s with asking := some { a with waiting := false } } := by
    refine h.of_eq rfl rfl rfl rfl rfl rfl rfl h.frames h.pings (fun a' ha' hw => ?_)
      (fun hnil => absurd hnil hlog)
    rw [← Option.some.inj ha'] at hw
    cases hw
  rw [State.askNow]
  dsimp only
  split_ifs
  · exact hasked.send hlog (h.ask a ha hwaits) _ _
  · exact hasked

/-- **Every covered step keeps the floor.** -/
theorem Inv.step {t : State Pos} {l : Label Pos} (h : Inv E s) (hcov : Covered E s l)
    (hstep : Step E s l t) : Inv E t := by
  unfold Step AutoDiscover.step at hstep
  split_ifs at hstep with hback
  have hnow : s.clock ≤ l.now := by omega
  have hc := h.clock hnow
  cases l with
  | tick now pos plan =>
    rw [← Option.some.inj hstep]
    exact hc.tick rfl (hcov.tick now pos plan rfl) plan
  | start now pos plan =>
    rw [← Option.some.inj hstep]
    rw [State.start]
    split_ifs with hoff
    · exact hc
    have hoff' := not_or.mp hoff
    have henabled : s.enabled = false := Bool.eq_false_iff.mpr hoff'.1
    have hdisposed : s.disposed = false := Bool.eq_false_iff.mpr hoff'.2
    have hon := hc.switchOn (hcov.switch now pos plan rfl henabled hdisposed)
    exact hon.tick rfl (hcov.start now pos plan rfl henabled hdisposed) plan
  | stop now =>
    rw [← Option.some.inj hstep]
    exact hc.stop
  | dispose now =>
    rw [← Option.some.inj hstep]
    have hstop := hc.stop
    exact hstop.of_eq rfl rfl rfl rfl rfl rfl rfl hstop.frames hstop.pings hstop.ask
      (fun _ hfl hp ha => ⟨hfl, hp, ha⟩)
  | turn now i =>
    rw [act] at hstep
    split at hstep
    · rename_i f hf
      split_ifs at hstep
      rw [← Option.some.inj hstep]
      exact hc.turn hf
    · cases hstep
  | answered now i sent =>
    rw [act] at hstep
    split at hstep
    · rename_i f hf
      split_ifs at hstep
      rw [← Option.some.inj hstep]
      refine hc.answered rfl hf sent (fun hsent hnone => ?_)
      rw [hsent] at hcov
      exact hcov.taken now i f rfl hf hnone
    · cases hstep
  | ping now i valid =>
    obtain ⟨c, hping, rfl⟩ := Option.map_eq_some_iff.mp hstep
    exact hc.ping hping valid
  | askNow now =>
    obtain ⟨a, ha, rfl⟩ := Option.map_eq_some_iff.mp hstep
    obtain ⟨ha, hwaits⟩ := Option.filter_eq_some_iff.mp ha
    exact hc.askNow ha hwaits
  | askDone now =>
    rw [act] at hstep
    split_ifs at hstep
    rw [← Option.some.inj hstep]
    exact hc.of_eq rfl rfl rfl rfl rfl rfl rfl hc.frames hc.pings (fun _ ha => (nomatch ha))
      (fun _ hfl hp _ => ⟨hfl, hp, rfl⟩)

/-- **In a run whose steps are all covered, the floor is waited out between any two cycles.** -/
theorem floor_waited {h : List (Event (State Pos) (Label Pos))} {s : State Pos}
    (hrun : Run (Step E) State.init h s) (hcov : ∀ e ∈ h, Covered E e.pre e.label) :
    FloorWaited E.sf s.log := by
  have hinv : Inv E s := by
    refine hrun.invariant (P := Inv E) (C := fun e => Covered E e.pre e.label) hcov ?_ (inv_init E)
    intro e hstep hcov hinv
    exact hinv.step hcov hstep
  exact hinv.floors

/-! #### Two runs -/

/-- An engine for a radio of spreading factor 8, whose positions tell nothing. -/
def quietSetup : Setup Unit := ⟨some 8, 4, fun _ _ => false⟩

def discoverOnly : Plan := ⟨false, 0, none⟩

/-- The Discover request is taken at once, and the next cycle fires after ten seconds. -/
def promptLabels : List (Label Unit) :=
  [.start 0 none discoverOnly, .turn 0 0, .answered 0 0 true, .tick 10000 none discoverOnly]

theorem floor_waited_prompt :
    ∃ h s, Run (Step quietSetup) State.init h s ∧ FloorWaited quietSetup.sf s.log ∧
      s.log = [.fired 1 0 0, .took ⟨1, 8, 0⟩, .fired 2 10000 0] := by
  have htrace : ∃ h s, Run.trace (step quietSetup) State.init promptLabels = some (h, s) ∧
      (∀ e ∈ h, Covered quietSetup e.pre e.label) ∧
      s.log = [.fired 1 0 0, .took ⟨1, 8, 0⟩, .fired 2 10000 0] := by
    refine ⟨_, _, rfl, ?_, rfl⟩
    refine List.forall_mem_cons.mpr ⟨⟨?_, nofun, nofun, fun _ _ _ _ _ _ _ => rfl⟩, ?_⟩
    · exact fun _ _ _ _ _ _ _ _ hlast => (nomatch hlast)
    refine List.forall_mem_cons.mpr ⟨⟨nofun, nofun, nofun, nofun⟩, ?_⟩
    refine List.forall_mem_cons.mpr ⟨⟨nofun, ?_, nofun, nofun⟩, ?_⟩
    · exact fun _ _ _ _ _ hlast => (nomatch hlast)
    refine List.forall_mem_cons.mpr ⟨⟨nofun, nofun, fun _ _ _ _ _ => rfl, nofun⟩, ?_⟩
    exact fun _ he => (nomatch he)
  obtain ⟨h, s, htr, hcov, hlog⟩ := htrace
  exact ⟨h, s, Run.of_trace htr, floor_waited (Run.of_trace htr) hcov, hlog⟩

/-- The Discover request waits five seconds in the chain, and the switch goes off and on. -/
def switchedLabels : List (Label Unit) :=
  [.start 0 none discoverOnly, .turn 5000 0, .answered 5000 0 true, .stop 6000,
    .start 6000 none discoverOnly]

/-- The second cycle fires a second after the radio took the first one's request, inside its
floor of more than two seconds. -/
theorem not_forall_floorWaited :
    ¬ ∀ (E : Setup Unit) (h : List (Event (State Unit) (Label Unit))) (s : State Unit),
      Run (Step E) State.init h s → FloorWaited E.sf s.log := by
  intro hall
  have htrace : ∃ h s, Run.trace (step quietSetup) State.init switchedLabels = some (h, s) ∧
      s.log = [.fired 1 0 0, .took ⟨1, 8, 5000⟩, .fired 2 6000 0] := ⟨_, _, rfl, rfl⟩
  obtain ⟨h, s, htr, hlog⟩ := htrace
  have hfloor := (hall quietSetup h s (Run.of_trace htr) [] 1 0 0 [⟨1, 8, 5000⟩] 2 6000 0 []
    hlog).2 ⟨1, 8, 5000⟩ rfl
  exact absurd hfloor (by decide)

end RtfmEv.AutoDiscover
