import RtfmEv.HostRepeater.Engine

/-!
# What one decision does

Each stage of `decide` gets one lemma that says what it can change and when it
lets a frame through, and `decide_forward` puts them together. Later proofs use
these lemmas and do not look into the stages again.

Settings, identity and radio are never changed by a decision. The seen table is
kept or gets one mark at the time of the call (`SeenStep`), and the duty window
is only touched at the end.
-/

namespace RtfmEv.HostRepeater

open RtfmEv.Lib RtfmEv.PathUtils

/-! ### The seen table -/

/-- One call keeps the seen table or marks one key at its own time. -/
inductive SeenStep (now : ℚ) (seen : OrderedDict String ℚ) : OrderedDict String ℚ → Prop
  | keep : SeenStep now seen seen
  | mark (key : String) : SeenStep now seen (markSeen seen key now)

variable {now : ℚ} {key : String} {e' : ForwardingEngine} (e : ForwardingEngine) {f : Forwarding}
  {P : Primitives} {c : RxCall} {env : ParsedPacketEnvelope}

theorem SeenStep.eq_or_mark {seen seen' : OrderedDict String ℚ}
    (h : SeenStep now seen seen') : seen' = seen ∨ ∃ key, seen' = markSeen seen key now := by
  cases h with
  | keep => exact Or.inl rfl
  | mark key => exact Or.inr ⟨key, rfl⟩

/-- A lookup leaves the table alone, or forgets an expired entry in such a way
that the mark which follows does not show it. -/
theorem wasSeen_cases (seen : OrderedDict String ℚ) (ttl : ℕ) (key : String) (now : ℚ) :
    wasSeen seen ttl key now = (seen, true) ∨ ∃ seen', wasSeen seen ttl key now = (seen', false) ∧
      markSeen seen' key now = markSeen seen key now := by
  unfold wasSeen
  split
  · exact Or.inr ⟨seen, rfl, rfl⟩
  · split
    · exact Or.inr ⟨seen.erase key, rfl,
        OrderedDict.ext (OrderedDict.touch_erase_entries seen key now seenTableMax)⟩
    · exact Or.inl rfl

/-- A key that does not count as seen is absent or older than the lifetime. -/
theorem ttl_lt_of_not_wasSeen {seen : OrderedDict String ℚ} {ttl : ℕ} {ts : ℚ}
    (h : (wasSeen seen ttl key now).2 = false) (hts : seen.get? key = some ts) :
    (ttl : ℚ) < now - ts := by
  by_contra hle
  have hseen : wasSeen seen ttl key now = (seen, true) := by
    simp only [wasSeen, hts, gt_iff_lt, if_neg hle]
  rw [hseen] at h
  cases h

/-! ### What stages keep -/

-- the lemmas above are all that is used about a mark from here on
attribute [local irreducible] markSeen

/-- Two engines that agree on configuration, seen table and duty window. -/
structure SameCore (e e' : ForwardingEngine) : Prop where
  settings : e'.settings = e.settings
  publicKey : e'.publicKey = e.publicKey
  radio : e'.radio = e.radio
  seen : e'.seen = e.seen
  duty : e'.duty = e.duty

namespace SameCore

theorem refl (e : ForwardingEngine) : SameCore e e := ⟨rfl, rfl, rfl, rfl, rfl⟩

theorem trans {e₁ e₂ e₃ : ForwardingEngine} (h : SameCore e₁ e₂) (h' : SameCore e₂ e₃) :
    SameCore e₁ e₃ where
  settings := h'.settings.trans h.settings
  publicKey := h'.publicKey.trans h.publicKey
  radio := h'.radio.trans h.radio
  seen := h'.seen.trans h.seen
  duty := h'.duty.trans h.duty

theorem ourHash {e e' : ForwardingEngine} (h : SameCore e e') (size : ℕ) :
    e'.ourHash size = e.ourHash size := by
  rw [ForwardingEngine.ourHash, ForwardingEngine.ourHash, h.publicKey]

end SameCore

/-- A stage that may mark one key and keeps the rest of the core. -/
structure Stage (now : ℚ) (e e' : ForwardingEngine) : Prop where
  settings : e'.settings = e.settings
  publicKey : e'.publicKey = e.publicKey
  radio : e'.radio = e.radio
  seen : SeenStep now e.seen e'.seen
  duty : e'.duty = e.duty

theorem Stage.of_sameCore {e : ForwardingEngine} (h : SameCore e e') :
    Stage now e e' :=
  ⟨h.settings, h.publicKey, h.radio, h.seen ▸ SeenStep.keep, h.duty⟩

theorem Stage.of_mark {e : ForwardingEngine}
    (h : SameCore { e with seen := markSeen e.seen key now } e') : Stage now e e' where
  settings := h.settings
  publicKey := h.publicKey
  radio := h.radio
  seen := by
    rw [h.seen]
    exact SeenStep.mark key
  duty := h.duty

theorem Stage.sandwich {e₁ e₂ e₃ e₄ : ForwardingEngine} (h₁ : SameCore e₁ e₂)
    (h : Stage now e₂ e₃) (h₂ : SameCore e₃ e₄) : Stage now e₁ e₄ where
  settings := h₂.settings.trans (h.settings.trans h₁.settings)
  publicKey := h₂.publicKey.trans (h.publicKey.trans h₁.publicKey)
  radio := h₂.radio.trans (h.radio.trans h₁.radio)
  seen := by
    rw [h₂.seen, ← h₁.seen]
    exact h.seen
  duty := h₂.duty.trans (h.duty.trans h₁.duty)

/-! ### Gate and counters -/

theorem gateLoop_sameCore (now : ℚ) (fuel : ℕ) (e : ForwardingEngine) (next : ℚ) :
    SameCore e (ForwardingEngine.gateLoop now fuel e next) := by
  induction fuel generalizing e next with
  | zero => exact ⟨rfl, rfl, rfl, rfl, rfl⟩
  | succ fuel ih =>
    have hloop : ∀ e' next', SameCore e e' →
        SameCore e (ForwardingEngine.gateLoop now fuel e' next') :=
      fun e' next' h => h.trans (ih e' next')
    rw [ForwardingEngine.gateLoop]
    split
    · exact ⟨rfl, rfl, rfl, rfl, rfl⟩
    -- a closer gate, a wider one, or the level as it was
    dsimp only
    repeat' split
    all_goals first
      | exact ⟨rfl, rfl, rfl, rfl, rfl⟩
      | exact hloop _ _ ⟨rfl, rfl, rfl, rfl, rfl⟩

theorem gateCatchUp_sameCore (now : ℚ) :
    SameCore e (e.gateCatchUp now) := by
  rw [ForwardingEngine.gateCatchUp]
  have hsync : SameCore e (e.syncBudget now) := ⟨rfl, rfl, rfl, rfl, rfl⟩
  dsimp only
  split
  · exact hsync.trans ⟨rfl, rfl, rfl, rfl, rfl⟩
  · exact hsync.trans (gateLoop_sameCore _ _ _ _)

theorem filterStage_sameCore (P : Primitives) (e : ForwardingEngine) (env : ParsedPacketEnvelope)
    (c : RxCall) : SameCore e (filterStage P e env c).1 := by
  rw [filterStage]
  dsimp only
  repeat' split
  all_goals exact ⟨rfl, rfl, rfl, rfl, rfl⟩

theorem advertStage_sameCore (env : ParsedPacketEnvelope) (now : ℚ) :
    SameCore e (advertStage e env now).1 := by
  rw [advertStage]
  dsimp only
  repeat' split
  all_goals exact ⟨rfl, rfl, rfl, rfl, rfl⟩

theorem dropDecision_sameCore (x : RxContext) (reason : DropReason) :
    SameCore e (dropDecision e x reason).1 := by
  rw [dropDecision]
  dsimp only
  split
  all_goals exact ⟨rfl, rfl, rfl, rfl, rfl⟩

theorem forwardDelay_sameCore (x : RxContext) (f : Forwarding)
    (airtime : ℚ) : SameCore e (forwardDelay e x f airtime).1 := by
  rw [forwardDelay]
  dsimp only
  split
  all_goals exact ⟨rfl, rfl, rfl, rfl, rfl⟩

/-! ### The direct rules -/

theorem decideTrace_stage (raw : Bytes) (env : ParsedPacketEnvelope)
    (facts : RxFacts) (key : String) (now : ℚ) :
    Stage now e (decideTrace e raw env facts key now).1 := by
  rw [decideTrace]
  dsimp only
  rcases wasSeen_cases e.seen e.settings.seenTtlSeconds key now with hw | ⟨seen, hw, hmark⟩
  · simp only [hw, if_true]
    repeat' split
    all_goals exact Stage.of_sameCore ⟨rfl, rfl, rfl, rfl, rfl⟩
  · simp only [hw, hmark, Bool.false_eq_true, if_false]
    repeat' split
    all_goals first
      | exact Stage.of_sameCore ⟨rfl, rfl, rfl, rfl, rfl⟩
      | exact Stage.of_mark ⟨rfl, rfl, rfl, rfl, rfl⟩

/-- A TRACE is let through with its path byte counted up and one byte appended. -/
theorem decideTrace_ok {e : ForwardingEngine} {raw : Bytes} {facts : RxFacts}
    (h : decideTrace e raw env facts key now = (e', .ok f)) :
    env.pathByte < maxPathSize ∧ f =
      ⟨headerAndCodes raw env ++ [UInt8.ofNat (env.pathByte + 1)] ++ env.path ++ [snrByte facts] ++
        env.payload, .trace, 5, none⟩ := by
  rw [decideTrace] at h
  dsimp only at h
  repeat' split at h
  all_goals simp only [Prod.mk.injEq, Except.ok.injEq, reduceCtorEq, and_false] at h
  rename_i hpath _ _ _ _
  exact ⟨Nat.not_le.mp hpath, h.2.symm⟩

theorem decideDirect_stage (P : Primitives) (e : ForwardingEngine) (raw : Bytes)
    (env : ParsedPacketEnvelope) (facts : RxFacts) (key : String) (now : ℚ) :
    Stage now e (decideDirect P e raw env facts key now).1 := by
  rw [decideDirect]
  dsimp only
  split
  · exact decideTrace_stage e raw env facts key now
  split
  · exact Stage.of_sameCore (SameCore.refl e)
  split
  · exact Stage.of_mark (SameCore.refl _)
  split
  · exact Stage.of_sameCore (SameCore.refl e)
  split
  · split
    · exact Stage.of_sameCore (SameCore.refl e)
    rcases wasSeen_cases e.seen e.settings.seenTtlSeconds
      (packetHash P ptMultipart (env.payload.drop 1)) now with hw | ⟨seen, hw, hmark⟩
    · simp only [hw, if_true]
      exact Stage.of_sameCore ⟨rfl, rfl, rfl, rfl, rfl⟩
    · simp only [hw, hmark, Bool.false_eq_true, if_false]
      exact Stage.of_mark ⟨rfl, rfl, rfl, rfl, rfl⟩
  · rcases wasSeen_cases e.seen e.settings.seenTtlSeconds key now with hw | ⟨seen, hw, hmark⟩
    · simp only [hw, if_true]
      exact Stage.of_sameCore ⟨rfl, rfl, rfl, rfl, rfl⟩
    · simp only [hw, hmark, Bool.false_eq_true, if_false]
      split
      all_goals exact Stage.of_mark ⟨rfl, rfl, rfl, rfl, rfl⟩

/-- The path byte of a direct frame after our hop is taken off. -/
def poppedPathByte (env : ParsedPacketEnvelope) : UInt8 :=
  UInt8.ofNat (encodePathByte env.hashSize (env.hopCount - 1))

/-- The header of a regenerated ACK. -/
def ackHeader : UInt8 := UInt8.ofNat (ptAck <<< 2 ||| routeDirect)

/-- How the three kinds of direct forward rebuild the frame. -/
inductive DirectRebuild (raw : Bytes) (env : ParsedPacketEnvelope) : Forwarding → Prop
  | multipartAck (delay : ℚ) (hlen : 5 ≤ env.payload.length) :
      DirectRebuild raw env
        ⟨[ackHeader, poppedPathByte env] ++ env.path.drop env.hashSize ++ env.payload.drop 1,
          .multipartAck, 0, some delay⟩
  | ack : DirectRebuild raw env
      ⟨[ackHeader, poppedPathByte env] ++ env.path.drop env.hashSize ++ env.payload, .ack, 0,
        some 0⟩
  | direct : DirectRebuild raw env
      ⟨headerAndCodes raw env ++ [poppedPathByte env] ++ env.path.drop env.hashSize ++ env.payload,
        .direct, 0, none⟩

/-- What the direct rules let through: a TRACE by its own rules, or a frame
whose next hop we are. -/
theorem decideDirect_ok {e : ForwardingEngine} {raw : Bytes} {facts : RxFacts}
    (h : decideDirect P e raw env facts key now = (e', .ok f)) :
    (env.payloadType = ptTrace ∧ decideTrace e raw env facts key now = (e', .ok f)) ∨
      (env.hopCount ≠ 0 ∧ env.path.take env.hashSize = e.ourHash env.hashSize ∧
        DirectRebuild raw env f) := by
  rw [decideDirect] at h
  dsimp only at h
  split at h
  · rename_i htrace
    exact Or.inl ⟨htrace, h⟩
  right
  split at h
  · cases h
  split at h
  · cases h
  rename_i hhops
  split at h
  · cases h
  rename_i hnext
  refine ⟨hhops, not_not.mp hnext, ?_⟩
  split at h
  · split at h
    · cases h
    rename_i hshort
    split at h
    · cases h
    cases h
    exact DirectRebuild.multipartAck _ (by omega)
  · split at h
    · cases h
    split at h
    · cases h
      exact DirectRebuild.ack
    · cases h
      exact DirectRebuild.direct

/-! ### The flood rules -/

theorem decideFlood_stage (P : Primitives) (e : ForwardingEngine) (env : ParsedPacketEnvelope)
    (key : String) (c : RxCall) : Stage c.now e (decideFlood P e env key c).1 := by
  rw [decideFlood]
  split
  · exact Stage.of_sameCore (SameCore.refl e)
  dsimp only
  rcases wasSeen_cases e.seen e.settings.seenTtlSeconds key c.now with hw | ⟨seen, hw, hmark⟩
  · simp only [hw, if_true]
    exact Stage.of_sameCore ⟨rfl, rfl, rfl, rfl, rfl⟩
  simp only [hw, hmark, Bool.false_eq_true, if_false]
  split
  · exact Stage.of_mark (SameCore.refl _)
  have hfilter := filterStage_sameCore P { e with seen := markSeen e.seen key c.now } env c
  split
  · rename_i e₁ _ hf
    rw [hf] at hfilter
    exact Stage.of_mark hfilter
  rename_i e₁ hf
  rw [hf] at hfilter
  have hadvert := advertStage_sameCore e₁ env c.now
  split
  all_goals
    rename_i ha
    rw [ha] at hadvert
    exact Stage.of_mark (hfilter.trans hadvert)

/-- What the flood rules let through: a flood that was not seen and passed the
gates. Its key is marked. -/
theorem decideFlood_ok {e : ForwardingEngine} (h : decideFlood P e env key c = (e', .ok f)) :
    floodPrecheck e env.payloadType env.payload = none ∧
      (wasSeen e.seen e.settings.seenTtlSeconds key c.now).2 = false ∧
      floodGates P { e with seen := markSeen e.seen key c.now } env c.facts = none ∧
      e'.seen = markSeen e.seen key c.now ∧
      f = ⟨floodFrame e c.raw env, .flood, env.hopCount + 1, none⟩ := by
  rw [decideFlood] at h
  split at h
  · cases h
  rename_i hpre
  dsimp only at h
  rcases wasSeen_cases e.seen e.settings.seenTtlSeconds key c.now with hw | ⟨seen, hw, hmark⟩
  · simp only [hw, if_true] at h
    cases h
  simp only [hw, hmark, Bool.false_eq_true, if_false] at h
  split at h
  · cases h
  rename_i hgates
  have hfilter := filterStage_sameCore P { e with seen := markSeen e.seen key c.now } env c
  split at h
  · cases h
  rename_i e₁ hf
  rw [hf] at hfilter
  have hadvert := advertStage_sameCore e₁ env c.now
  split at h
  · cases h
  rename_i e₂ ha
  rw [ha] at hadvert
  have hcore := hfilter.trans hadvert
  cases h
  refine ⟨hpre, by rw [hw], hgates, hcore.seen, ?_⟩
  rw [floodFrame, floodFrame, hcore.ourHash]
  rfl

/-! ### Both rules -/

theorem routeStage_stage (P : Primitives) (e : ForwardingEngine) (env : ParsedPacketEnvelope)
    (key : String) (c : RxCall) : Stage c.now e (routeStage P e env key c).1 := by
  rw [routeStage]
  split
  · exact decideDirect_stage P e c.raw env c.facts key c.now
  · exact decideFlood_stage P e env key c

theorem routeStage_flood {e : ForwardingEngine} (h : routeStage P e env key c = (e', .ok f))
    (hk : f.kind = .flood) : decideFlood P e env key c = (e', .ok f) := by
  rw [routeStage] at h
  split at h
  · rcases decideDirect_ok h with ⟨_, ht⟩ | ⟨_, _, hd⟩
    · obtain ⟨_, rfl⟩ := decideTrace_ok ht
      cases hk
    · cases hd <;> cases hk
  · exact h

/-- Every other kind leaves through the direct rules. -/
theorem routeStage_direct {e : ForwardingEngine} (h : routeStage P e env key c = (e', .ok f))
    (hk : f.kind ≠ .flood) :
    (env.routeType = routeDirect ∨ env.routeType = routeTransportDirect) ∧
      decideDirect P e c.raw env c.facts key c.now = (e', .ok f) := by
  rw [routeStage] at h
  split at h
  · rename_i hroute
    exact ⟨hroute, h⟩
  · obtain ⟨_, _, _, _, rfl⟩ := decideFlood_ok h
    exact absurd rfl hk

/-! ### The end of a decision -/

/-- The key under which a parsed frame is marked. -/
def envelopeHash (P : Primitives) (env : ParsedPacketEnvelope) : String :=
  packetHash P env.payloadType env.payload
    (if env.payloadType = ptTrace then some env.pathByte else none)

/-- How the judgement of a parsed frame can end: a drop before the routing
rules, a drop by them, or the transmit stage for what they let through. -/
theorem decideEnvelope_cases (P : Primitives) (e : ForwardingEngine) (env : ParsedPacketEnvelope)
    (c : RxCall) : ∃ e₁ x, SameCore e e₁ ∧ x.pktHash = envelopeHash P env ∧
      ((∃ reason, decideEnvelope P e env c = dropDecision e₁ x reason) ∨
        ∃ e₂ radio, e.radio = some radio ∧ 3 ≤ (e.publicKey.getD []).length ∧
          ((∃ reason, routeStage P e₁ env (envelopeHash P env) c = (e₂, .error reason) ∧
              decideEnvelope P e env c = dropDecision e₂ x reason) ∨
            ∃ f, routeStage P e₁ env (envelopeHash P env) c = (e₂, .ok f) ∧
              decideEnvelope P e env c = transmitStage e₂ radio x f c.now)) := by
  have hhash : packetHash P env.payloadType env.payload
      (if env.payloadType = ptTrace then some env.pathByte else none) = envelopeHash P env := rfl
  unfold decideEnvelope
  dsimp only
  rw [hhash]
  set e₀ : ForwardingEngine := { e with pendingDryrun := none }
  have h₀ : SameCore e e₀ := ⟨rfl, rfl, rfl, rfl, rfl⟩
  split
  · exact ⟨e₀, _, h₀, rfl, Or.inl ⟨_, rfl⟩⟩
  split
  · exact ⟨e₀, _, h₀, rfl, Or.inl ⟨_, rfl⟩⟩
  rename_i hkey
  split
  · exact ⟨e₀, _, h₀, rfl, Or.inl ⟨_, rfl⟩⟩
  rename_i radio hradio
  have hgate := h₀.trans (gateCatchUp_sameCore e₀ c.now)
  generalize e₀.gateCatchUp c.now = eg at hgate ⊢
  generalize evaluateLayers P _ _ _ _ _ _ _ = layers
  set e₁ : ForwardingEngine := { eg with policyState := layers.1 }
  have h₁ : SameCore e e₁ := hgate.trans ⟨rfl, rfl, rfl, rfl, rfl⟩
  split
  · exact ⟨e₁, _, h₁, rfl, Or.inl ⟨_, rfl⟩⟩
  split
  · rename_i e₂ reason hroute
    exact ⟨e₁, _, h₁, rfl, Or.inr ⟨e₂, radio, hradio, Nat.not_lt.mp hkey,
      Or.inl ⟨reason, hroute, rfl⟩⟩⟩
  · rename_i e₂ f hroute
    exact ⟨e₁, _, h₁, rfl, Or.inr ⟨e₂, radio, hradio, Nat.not_lt.mp hkey,
      Or.inr ⟨f, hroute, rfl⟩⟩⟩

/-- What the transmit stage lets out. -/
structure Transmitted (e : ForwardingEngine) (radio : RadioParams) (x : RxContext) (f : Forwarding)
    (now : ℚ) (e' : ForwardingEngine) (d : Decision) : Prop where
  core : SameCore { e with duty := e'.duty } e'
  length_le : f.forwarded.length ≤ maxRawSendLen
  forward : d.forward = true
  reason : d.reason = .kind f.kind
  packetHash : d.packetHash = x.pktHash
  forwarded : d.forwarded = some f.forwarded
  priority : d.priority = some f.priority
  airtimeMs : d.airtimeMs = some (loraAirtimeMs f.forwarded.length radio e.settings.preambleSymbols)
  duty : e'.duty = (if e.settings.dutyCycleEnforced then e.duty.pruned now else e.duty).append now
    (loraAirtimeMs f.forwarded.length radio e.settings.preambleSymbols)
    (loraAirtimeMs_nonneg _ _ _)
  cap : e.settings.dutyCycleEnforced →
    (e.duty.used now).2 + loraAirtimeMs f.forwarded.length radio e.settings.preambleSymbols ≤
      e.settings.maxAirtimePerMinuteMs

/-- The transmit stage drops a frame that is too large, drops one over the cap
with the window pruned, or lets it out. -/
theorem transmitStage_cases (radio : RadioParams) (x : RxContext)
    (f : Forwarding) (now : ℚ) :
    transmitStage e radio x f now = dropDecision e x .tooLarge ∨
      (∃ e', SameCore { e with duty := e.duty.pruned now } e' ∧
        transmitStage e radio x f now = dropDecision e' x .dutyCycle) ∨
      ∃ e' d, transmitStage e radio x f now = (e', d) ∧ Transmitted e radio x f now e' d := by
  rw [transmitStage]
  dsimp only
  split
  · exact Or.inl rfl
  rename_i hlen
  right
  have hdelay := forwardDelay_sameCore e x f
    (loraAirtimeMs f.forwarded.length radio e.settings.preambleSymbols)
  generalize forwardDelay e x f _ = ed at hdelay ⊢
  obtain ⟨e₁, delay⟩ := ed
  have hsent : ∀ duty budget, SameCore { e with duty := duty }
      { e₁ with settings := e.settings, duty := duty, budget := budget } := fun duty budget =>
    ⟨rfl, hdelay.publicKey, hdelay.radio, hdelay.seen, rfl⟩
  have hs : e₁.settings = e.settings := hdelay.settings
  have hd : e₁.duty = e.duty := hdelay.duty
  dsimp only
  rw [DutyWindow.used, hd]
  by_cases henf : e.settings.dutyCycleEnforced = true
  · simp only [hs, henf, if_true, true_and]
    split
    · exact Or.inl ⟨_, hsent _ _, rfl⟩
    rename_i hcap
    refine Or.inr ⟨_, _, rfl, ?_⟩
    exact
      { core := hsent _ _
        length_le := Nat.not_lt.mp hlen
        forward := rfl
        reason := rfl
        packetHash := rfl
        forwarded := rfl
        priority := rfl
        airtimeMs := rfl
        duty := by rw [if_pos henf]
        cap := fun _ => not_lt.mp hcap }
  · simp only [hs, henf, Bool.false_eq_true, if_false, false_and]
    refine Or.inr ⟨_, _, rfl, ?_⟩
    exact
      { core := hsent _ _
        length_le := Nat.not_lt.mp hlen
        forward := rfl
        reason := rfl
        packetHash := rfl
        forwarded := rfl
        priority := rfl
        airtimeMs := rfl
        duty := by rw [if_neg henf, hd]
        cap := fun h => absurd h henf }

/-! ### The whole decision -/

/-- **A forwarding decision.** The routing rules let the frame through from an
engine with the same core, and the transmit stage let it out. -/
theorem decide_forward {e : ForwardingEngine}
    (h : (decide P e c).2.forward = true) :
    ∃ env radio e₁ e₂ x f, parsePacketEnvelope c.raw = some env ∧ e.radio = some radio ∧
      3 ≤ (e.publicKey.getD []).length ∧ SameCore e e₁ ∧ x.pktHash = envelopeHash P env ∧
      routeStage P e₁ env (envelopeHash P env) c = (e₂, .ok f) ∧
      Transmitted e₂ radio x f c.now (decide P e c).1 (decide P e c).2 := by
  rw [decide] at h ⊢
  cases henv : parsePacketEnvelope c.raw with
  | none =>
    rw [henv] at h
    cases h
  | some env =>
    rw [henv] at h
    dsimp only at h ⊢
    obtain ⟨e₁, x, hcore, hx, ⟨reason, hd⟩ | ⟨e₂, radio, hradio, hkey, hcase⟩⟩ :=
      decideEnvelope_cases P e env c
    · rw [hd] at h
      cases h
    rcases hcase with ⟨reason, _, hd⟩ | ⟨f, hroute, hd⟩
    · rw [hd] at h
      cases h
    rcases transmitStage_cases e₂ radio x f c.now with ht | ⟨e₃, _, ht⟩ | ⟨e₃, d, ht, hsent⟩
    · rw [hd, ht] at h
      cases h
    · rw [hd, ht] at h
      cases h
    · refine ⟨env, radio, e₁, e₂, x, f, rfl, hradio, hkey, hcore, hx, hroute, ?_⟩
      rw [hd, ht]
      exact hsent

/-- What one call does to the duty window. -/
inductive DutyStep (s : HostRepeaterSettings) (now : ℚ) (duty : DutyWindow) (d : Decision) :
    DutyWindow → Prop
  | keep (hd : d.forward = false) : DutyStep s now duty d duty
  | prune (hd : d.forward = false) : DutyStep s now duty d (duty.pruned now)
  | append (airtime : ℚ) (hair : 0 ≤ airtime) (hd : d.forward = true)
      (hdair : d.airtimeMs = some airtime)
      (hcap : s.dutyCycleEnforced → (duty.used now).2 + airtime ≤ s.maxAirtimePerMinuteMs) :
      DutyStep s now duty d
        ((if s.dutyCycleEnforced then duty.pruned now else duty).append now airtime hair)

/-- **One call.** Configuration is kept, at most one key is marked, and the duty
window changes by a `DutyStep`. -/
structure DecideStep (now : ℚ) (e e' : ForwardingEngine) (d : Decision) : Prop where
  settings : e'.settings = e.settings
  publicKey : e'.publicKey = e.publicKey
  radio : e'.radio = e.radio
  seen : SeenStep now e.seen e'.seen
  duty : DutyStep e.settings now e.duty d e'.duty

theorem DecideStep.of_drop {e e₁ : ForwardingEngine} (h : Stage now e e₁)
    (x : RxContext) (reason : DropReason) :
    DecideStep now e (dropDecision e₁ x reason).1 (dropDecision e₁ x reason).2 := by
  have hdrop := h.sandwich (SameCore.refl e) (dropDecision_sameCore e₁ x reason)
  refine ⟨hdrop.settings, hdrop.publicKey, hdrop.radio, hdrop.seen, ?_⟩
  rw [hdrop.duty]
  exact DutyStep.keep rfl

theorem decide_step (P : Primitives) (e : ForwardingEngine) (c : RxCall) :
    DecideStep c.now e (decide P e c).1 (decide P e c).2 := by
  rw [decide]
  cases parsePacketEnvelope c.raw with
  | none => exact ⟨rfl, rfl, rfl, SeenStep.keep, DutyStep.keep rfl⟩
  | some env =>
    dsimp only
    obtain ⟨e₁, x, hcore, _, ⟨reason, hd⟩ | ⟨e₂, radio, _, _, hcase⟩⟩ :=
      decideEnvelope_cases P e env c
    · rw [hd]
      exact DecideStep.of_drop (Stage.of_sameCore hcore) x reason
    have hroute := routeStage_stage P e₁ env (envelopeHash P env) c
    rcases hcase with ⟨reason, hr, hd⟩ | ⟨f, hr, hd⟩
    · rw [hr] at hroute
      rw [hd]
      exact DecideStep.of_drop (hroute.sandwich hcore (SameCore.refl e₂)) x reason
    rw [hr] at hroute
    have hstage := hroute.sandwich hcore (SameCore.refl e₂)
    rw [hd]
    rcases transmitStage_cases e₂ radio x f c.now with ht | ⟨e₃, h₃, ht⟩ | ⟨e₃, d, ht, hsent⟩
    · rw [ht]
      exact DecideStep.of_drop hstage x _
    · rw [ht]
      have h₄ := h₃.trans (dropDecision_sameCore e₃ x .dutyCycle)
      refine ⟨h₄.settings.trans hstage.settings, h₄.publicKey.trans hstage.publicKey,
        h₄.radio.trans hstage.radio, ?_, ?_⟩
      · rw [h₄.seen]
        exact hstage.seen
      · rw [h₄.duty]
        dsimp only
        rw [hstage.duty]
        exact DutyStep.prune rfl
    · rw [ht]
      have h₄ := hsent.core
      refine ⟨h₄.settings.trans hstage.settings, h₄.publicKey.trans hstage.publicKey,
        h₄.radio.trans hstage.radio, ?_, ?_⟩
      · rw [h₄.seen]
        exact hstage.seen
      · rw [hsent.duty, hstage.settings, hstage.duty]
        have hcap := hsent.cap
        have hair := hsent.airtimeMs
        rw [hstage.settings] at hair
        rw [hstage.settings, hstage.duty] at hcap
        exact DutyStep.append _ _ hsent.forward hair hcap

/-- The hash in a decision about a frame depends on the frame alone. -/
theorem decide_packetHash {e : ForwardingEngine} (henv : parsePacketEnvelope c.raw = some env) :
    (decide P e c).2.packetHash = envelopeHash P env := by
  rw [decide, henv]
  dsimp only
  obtain ⟨e₁, x, _, hx, ⟨reason, hd⟩ | ⟨e₂, radio, _, _, ⟨reason, _, hd⟩ | ⟨f, _, hd⟩⟩⟩ :=
    decideEnvelope_cases P e env c
  · rw [hd]
    exact hx
  · rw [hd]
    exact hx
  · rw [hd]
    rcases transmitStage_cases e₂ radio x f c.now with ht | ⟨e₃, _, ht⟩ | ⟨e₃, d, ht, hsent⟩
    · rw [ht]
      exact hx
    · rw [ht]
      exact hx
    · rw [ht]
      exact hsent.packetHash.trans hx

end RtfmEv.HostRepeater
