import RtfmEv.HostRepeater.EngineRun

/-!
# The replay of the duty gate

`_gate_catch_up` makes up for the checks that the firmware runs every ten seconds, and
leaves the loop once the gate is open and the reading is not over the threshold. The
loop without that exit is the firmware's. Both leave the gate at the same level, as a
budget that nothing is taken from only fills up.
-/

namespace RtfmEv.HostRepeater

open RtfmEv.Lib RtfmEv.PathUtils ForwardingEngine

/-! ### The reading -/

theorem pyInt_mono {x y : ℚ} (h : x ≤ y) : pyInt x ≤ pyInt y := by
  unfold pyInt
  split_ifs with hx hy hy
  · exact Int.floor_le_floor h
  · exact absurd (hx.trans h) hy
  · have hx : ⌈x⌉ ≤ 0 := Int.ceil_le.mpr (by simpa using le_of_lt (not_le.mp hx))
    have hy : (0 : ℤ) ≤ ⌊y⌋ := Int.floor_nonneg.mpr hy
    omega
  · exact Int.ceil_le_ceil h

namespace AirtimeBudget

/-- The reading of a bucket of the size `size` with `tokens` in it. -/
def percent (size tokens : ℚ) : ℤ := max 0 (min 100 (pyInt ((1 - tokens / size) * 100 + 1 / 2)))

variable {b : AirtimeBudget}

theorem usedPercent_of_ne (h : b.maxMs ≠ 0) (now : ℚ) :
    b.usedPercent now = (b.refill now, some (percent (b.refill now).maxMs (b.refill now).tokensMs)) := by
  unfold usedPercent
  rw [if_neg h]
  rfl

theorem usedPercent_of_zero (h : b.maxMs = 0) (now : ℚ) :
    b.usedPercent now = (b, none) := by
  unfold usedPercent
  rw [if_pos h]

theorem percent_anti {size tokens tokens' : ℚ} (hsize : 0 < size) (h : tokens ≤ tokens') :
    percent size tokens' ≤ percent size tokens := by
  have hdiv : tokens / size ≤ tokens' / size := div_le_div_of_nonneg_right h hsize.le
  have hint := pyInt_mono (show (1 - tokens' / size) * 100 + 1 / 2 ≤
    (1 - tokens / size) * 100 + 1 / 2 by linarith)
  unfold percent
  exact max_le_max le_rfl (min_le_min le_rfl hint)

theorem percent_full {size tokens : ℚ} (hsize : 0 < size) (h : size ≤ tokens) :
    percent size tokens = 0 := by
  have hfull : percent size size = 0 := by
    unfold percent
    rw [div_self hsize.ne']
    decide +kernel
  have hle := percent_anti hsize h
  have hnonneg : 0 ≤ percent size tokens := le_max_left ..
  omega

/-- The duty is positive where there is one. -/
def Positive (b : AirtimeBudget) : Prop := ∀ duty, b.duty = some duty → 0 < duty

theorem refill_duty (b : AirtimeBudget) (now : ℚ) : (b.refill now).duty = b.duty := by
  unfold refill
  split
  · rfl
  split
  · rfl
  split_ifs <;> rfl

theorem refill_maxMs (b : AirtimeBudget) (now : ℚ) : (b.refill now).maxMs = b.maxMs := by
  unfold maxMs
  rw [refill_duty]

theorem Positive.maxMs_pos (h : b.Positive) (hne : b.maxMs ≠ 0) :
    0 < b.maxMs := by
  unfold maxMs at hne ⊢
  cases hduty : b.duty with
  | none =>
    rw [hduty] at hne
    exact absurd rfl hne
  | some duty =>
    have hpos := h duty hduty
    show 0 < budgetWindowMs * duty
    positivity

/-- A refill takes nothing out, but for what is over the top. -/
theorem Positive.refill_tokens (h : b.Positive) (now : ℚ) :
    b.tokensMs ≤ (b.refill now).tokensMs ∨ b.maxMs ≤ (b.refill now).tokensMs := by
  unfold refill
  split
  · exact Or.inl le_rfl
  rename_i last _
  split
  · exact Or.inl le_rfl
  rename_i duty hduty
  split_ifs with hlater
  · have hadd : b.tokensMs ≤ b.tokensMs + (now - last) * 1000 * duty := by
      have hpos := h duty hduty
      have hgap : 0 ≤ now - last := by linarith [hlater.1]
      have hprod : 0 ≤ (now - last) * 1000 * duty := by positivity
      linarith
    rcases le_total b.maxMs (b.tokensMs + (now - last) * 1000 * duty) with hfull | hroom
    · exact Or.inr (le_min le_rfl hfull)
    · exact Or.inl (le_min (hadd.trans hroom) hadd)
  · exact Or.inl le_rfl

theorem usedPercent_duty (b : AirtimeBudget) (now : ℚ) : (b.usedPercent now).1.duty = b.duty := by
  unfold usedPercent
  split_ifs
  · rfl
  · exact refill_duty b now

theorem Positive.usedPercent (h : b.Positive) (now : ℚ) :
    (b.usedPercent now).1.Positive := by
  intro duty hduty
  rw [usedPercent_duty] at hduty
  exact h duty hduty

/-- **Without new airtime the reading only falls.** -/
theorem Positive.reading_falls (h : b.Positive) (at₁ at₂ : ℚ) {d : ℤ}
    (hd : ((b.usedPercent at₁).1.usedPercent at₂).2 = some d) :
    ∃ d', (b.usedPercent at₁).2 = some d' ∧ d ≤ d' := by
  by_cases hzero : b.maxMs = 0
  · rw [usedPercent_of_zero hzero, usedPercent_of_zero hzero] at hd
    cases hd
  · have hrefill : (b.refill at₁).Positive := by
      intro duty hduty
      rw [refill_duty] at hduty
      exact h duty hduty
    have hmax : (b.refill at₁).maxMs = b.maxMs := refill_maxMs b at₁
    have hpos : 0 < b.maxMs := h.maxMs_pos hzero
    rw [usedPercent_of_ne hzero, usedPercent_of_ne (by rw [hmax]; exact hzero)] at hd
    rw [usedPercent_of_ne hzero]
    refine ⟨_, rfl, ?_⟩
    rw [← Option.some.inj hd, refill_maxMs, hmax]
    rcases hrefill.refill_tokens at₂ with hmore | hfull
    · exact percent_anti hpos hmore
    · rw [hmax] at hfull
      rw [percent_full hpos hfull]
      exact le_max_left ..

end AirtimeBudget

/-! ### One check -/

namespace ForwardingEngine

/-- The reading is over the threshold. -/
def overCap (e : ForwardingEngine) (at₁ : ℚ) : Bool :=
  (e.budget.usedPercent at₁).2.any (fun d => d > (e.settings.dcGateThreshold : ℤ))

/-- The reading is low enough for a layer to be opened again. -/
def recovered (e : ForwardingEngine) (at₁ : ℚ) : Bool :=
  (e.budget.usedPercent at₁).2.any (fun d =>
    d < ((e.settings.dcGateThreshold - e.settings.dcGateHysteresis : ℕ) : ℤ))

/-- One check of the gate, and the time to the next one. -/
def gateCheck (e : ForwardingEngine) (at₁ : ℚ) : ForwardingEngine × ℚ :=
  let checked := { e with budget := (e.budget.usedPercent at₁).1 }
  if e.overCap at₁ then
    ({ checked with gateLevel := if e.gateLevel < e.maxDepth then e.gateLevel + 1 else e.gateLevel },
      dcGateIntervalSeconds)
  else if e.recovered at₁ && e.gateLevel > 0 then
    let (jitter, rng) := e.filter.rng.uniform 0 dcGateRecoverJitterSeconds
    ({ checked with gateLevel := e.gateLevel - 1, filter := { e.filter with rng := rng } },
      dcGateIntervalSeconds + jitter)
  else (checked, dcGateIntervalSeconds)

/-- The firmware's loop: every check that is due, one by one. -/
def checkLoop (now : ℚ) : ℕ → ForwardingEngine → ℚ → ForwardingEngine
  | 0, e, next => { e with gateNext := some next }
  | fuel + 1, e, next =>
    if next > now then { e with gateNext := some next }
    else checkLoop now fuel (e.gateCheck next).1 (next + (e.gateCheck next).2)

/-- As many checks as there can be up to `now`. -/
def checksDue (now next : ℚ) : ℕ := (⌊(now - next) / dcGateIntervalSeconds⌋ + 1).toNat

/-- `_gate_catch_up` with the firmware's loop. -/
def checkAll (e : ForwardingEngine) (now : ℚ) : ForwardingEngine :=
  let e := e.syncBudget now
  if !e.settings.dcGateEnabled then { e with gateLevel := 0, gateNext := none }
  else
    let next := e.gateNext.getD now
    checkLoop now (checksDue now next) e next

/-- When the early exit has the next check made. -/
def skipTo (now later : ℚ) : ℚ := if later ≤ now then now + dcGateIntervalSeconds else later

theorem lt_skipTo (now later : ℚ) : now < skipTo now later := by
  unfold skipTo
  split_ifs with hlater
  · linarith
  · exact not_le.mp hlater

theorem gateLoop_succ (now : ℚ) (fuel : ℕ) (e : ForwardingEngine) (next : ℚ) :
    gateLoop now (fuel + 1) e next =
      if next > now then { e with gateNext := some next }
      else
        let after := (e.gateCheck next).1
        let later := next + (e.gateCheck next).2
        if after.gateLevel = 0 ∧ !e.overCap next then
          { after with gateNext := some (skipTo now later) }
        else gateLoop now fuel after later := by
  rw [gateLoop]
  split_ifs with hnext
  · rfl
  · unfold gateCheck overCap recovered skipTo
    rfl

theorem gateCheck_step (e : ForwardingEngine) (at₁ : ℚ) :
    dcGateIntervalSeconds ≤ (e.gateCheck at₁).2 := by
  unfold gateCheck
  dsimp only
  split_ifs
  · exact le_rfl
  · exact le_rfl
  · have hdraw := e.filter.rng.draw_nonneg 0
    show dcGateIntervalSeconds ≤ dcGateIntervalSeconds + (0 + (30 - 0) * e.filter.rng.draw 0)
    linarith
  · exact le_rfl

theorem gateCheck_keeps (e : ForwardingEngine) (at₁ : ℚ) :
    (e.gateCheck at₁).1.settings = e.settings ∧ (e.gateCheck at₁).1.maxDepth = e.maxDepth ∧
      (e.gateCheck at₁).1.budget = (e.budget.usedPercent at₁).1 := by
  unfold gateCheck
  dsimp only
  split_ifs <;> exact ⟨rfl, rfl, rfl⟩

variable {e : ForwardingEngine} {fuel : ℕ} {next now : ℚ}

theorem gateCheck_level_le (h : e.gateLevel ≤ e.maxDepth) (at₁ : ℚ) :
    (e.gateCheck at₁).1.gateLevel ≤ (e.gateCheck at₁).1.maxDepth := by
  rw [(gateCheck_keeps e at₁).2.1]
  unfold gateCheck
  dsimp only
  split_ifs with hover hroom
  · exact hroom
  · exact h
  · show e.gateLevel - 1 ≤ e.maxDepth
    omega
  · exact h

/-- An open gate with a reading that is not over the threshold stays open. -/
theorem gateCheck_level_zero (h : e.gateLevel = 0) {at₁ : ℚ}
    (hover : e.overCap at₁ = false) : (e.gateCheck at₁).1.gateLevel = 0 := by
  have hnot : (e.recovered at₁ && (e.gateLevel > 0 : Bool)) = false := by
    rw [h]
    simp
  unfold gateCheck
  rw [hover, hnot]
  exact h

/-! ### The two loops -/

/-- No later reading is over the threshold. -/
def Cool (e : ForwardingEngine) : Prop := e.budget.Positive ∧ ∀ at₁, e.overCap at₁ = false

theorem cool_of_check (hpos : e.budget.Positive) {at₁ : ℚ}
    (hover : e.overCap at₁ = false) : (e.gateCheck at₁).1.Cool := by
  obtain ⟨hsettings, _, hbudget⟩ := gateCheck_keeps e at₁
  refine ⟨by rw [hbudget]; exact hpos.usedPercent at₁, fun at₂ => ?_⟩
  unfold overCap at hover ⊢
  rw [hbudget, hsettings]
  cases hd : ((e.budget.usedPercent at₁).1.usedPercent at₂).2 with
  | none => rfl
  | some d =>
    obtain ⟨d', hd', hle⟩ := hpos.reading_falls at₁ at₂ hd
    rw [hd', Option.any_some, decide_eq_false_iff_not] at hover
    rw [Option.any_some, decide_eq_false_iff_not]
    omega

theorem checkLoop_level_zero
    (h : e.gateLevel = 0) (hcool : e.Cool) : (checkLoop now fuel e next).gateLevel = 0 := by
  induction fuel generalizing e next with
  | zero => exact h
  | succ fuel ih =>
    rw [checkLoop]
    split_ifs
    · exact h
    · exact ih (gateCheck_level_zero h (hcool.2 next)) (cool_of_check hcool.1 (hcool.2 next))

/-- **The early exit leaves the level where the firmware's loop would.** -/
theorem gateLoop_level
    (hpos : e.budget.Positive) :
    (gateLoop now fuel e next).gateLevel = (checkLoop now fuel e next).gateLevel := by
  induction fuel generalizing e next with
  | zero => rfl
  | succ fuel ih =>
    rw [gateLoop_succ, checkLoop]
    dsimp only
    split_ifs with hnext hopen
    · rfl
    · obtain ⟨hzero, hover⟩ := hopen
      have hcool := cool_of_check hpos (by simpa using hover)
      rw [checkLoop_level_zero hzero hcool]
      exact hzero
    · refine ih ?_
      rw [(gateCheck_keeps e next).2.2]
      exact hpos.usedPercent next

/-- The loop has come to its end: the next check is not due. -/
def Ended (e : ForwardingEngine) (now : ℚ) : Prop := ∃ next, e.gateNext = some next ∧ now < next

/-- There are at most as many checks as ten-second steps. -/
theorem due_step {step : ℚ} (hstep : dcGateIntervalSeconds ≤ step)
    (h : (now - next) / dcGateIntervalSeconds < (fuel + 1 : ℕ)) :
    (now - (next + step)) / dcGateIntervalSeconds < fuel := by
  have hten : (0 : ℚ) < dcGateIntervalSeconds := by norm_num
  rw [div_lt_iff₀ hten] at h ⊢
  push_cast at h
  linarith

theorem checkLoop_ended
    (h : (now - next) / dcGateIntervalSeconds < fuel) : (checkLoop now fuel e next).Ended now := by
  induction fuel generalizing e next with
  | zero =>
    refine ⟨next, rfl, ?_⟩
    rw [div_lt_iff₀ (by norm_num)] at h
    push_cast at h
    linarith
  | succ fuel ih =>
    rw [checkLoop]
    split_ifs with hnext
    · exact ⟨next, rfl, hnext⟩
    · exact ih (due_step (gateCheck_step e next) h)

theorem gateLoop_ended
    (h : (now - next) / dcGateIntervalSeconds < fuel) : (gateLoop now fuel e next).Ended now := by
  induction fuel generalizing e next with
  | zero =>
    refine ⟨next, rfl, ?_⟩
    rw [div_lt_iff₀ (by norm_num)] at h
    push_cast at h
    linarith
  | succ fuel ih =>
    rw [gateLoop_succ]
    dsimp only
    split_ifs with hnext hopen
    · exact ⟨next, rfl, hnext⟩
    · exact ⟨_, rfl, lt_skipTo now _⟩
    · exact ih (due_step (gateCheck_step e next) h)

theorem lt_checksDue (now next : ℚ) :
    (now - next) / dcGateIntervalSeconds < checksDue now next := by
  have hlt := Int.lt_floor_add_one ((now - next) / dcGateIntervalSeconds)
  have hle := Int.self_le_toNat (⌊(now - next) / dcGateIntervalSeconds⌋ + 1)
  have hcast : ((⌊(now - next) / dcGateIntervalSeconds⌋ : ℚ) + 1) ≤
      ((⌊(now - next) / dcGateIntervalSeconds⌋ + 1).toNat : ℤ) := by exact_mod_cast hle
  exact lt_of_lt_of_le hlt (by exact_mod_cast hcast)

theorem gateLoop_level_le
    (h : e.gateLevel ≤ e.maxDepth) :
    (gateLoop now fuel e next).gateLevel ≤ (gateLoop now fuel e next).maxDepth := by
  induction fuel generalizing e next with
  | zero => exact h
  | succ fuel ih =>
    rw [gateLoop_succ]
    dsimp only
    split_ifs
    · exact h
    · exact gateCheck_level_le h next
    · exact ih (gateCheck_level_le h next)

theorem checkLoop_level_le
    (h : e.gateLevel ≤ e.maxDepth) :
    (checkLoop now fuel e next).gateLevel ≤ (checkLoop now fuel e next).maxDepth := by
  induction fuel generalizing e next with
  | zero => exact h
  | succ fuel ih =>
    rw [checkLoop]
    split_ifs
    · exact h
    · exact ih (gateCheck_level_le h next)

/-- The level is one that the region tree has. -/
def LevelOk (e : ForwardingEngine) : Prop := e.gateLevel ≤ e.maxDepth

theorem LevelOk.gateCatchUp (h : e.LevelOk) (now : ℚ) :
    (e.gateCatchUp now).LevelOk := by
  unfold ForwardingEngine.gateCatchUp LevelOk
  dsimp only
  split_ifs
  · exact Nat.zero_le _
  · exact gateLoop_level_le h

theorem syncBudget_positive (e : ForwardingEngine) (now : ℚ) :
    (e.syncBudget now).budget.Positive := by
  intro duty hduty
  have hlimit : (subBandDutyLimit (e.radio.bind RadioParams.freqMhz)).map (· / 100) = some duty := by
    unfold ForwardingEngine.syncBudget AirtimeBudget.configure at hduty
    dsimp only at hduty
    split_ifs at hduty with hsame
    · exact hduty
    · rw [not_not.mp hsame]
      exact hduty
  obtain ⟨limit, hfound, hdiv⟩ := Option.map_eq_some_iff.mp hlimit
  have hpos := subBandDutyLimit_pos hfound
  rw [← hdiv]
  positivity

/-- A part of a decision that leaves the gate alone. -/
structure SameGate (e e' : ForwardingEngine) : Prop where
  level : e'.gateLevel = e.gateLevel
  depth : e'.maxDepth = e.maxDepth

theorem SameGate.trans {e₁ e₂ e₃ : ForwardingEngine} (h : e₁.SameGate e₂) (h' : e₂.SameGate e₃) :
    e₁.SameGate e₃ := ⟨h'.level.trans h.level, h'.depth.trans h.depth⟩

theorem LevelOk.of_gate {e' : ForwardingEngine} (h : e.LevelOk) (hgate : e.SameGate e') :
    e'.LevelOk := by
  unfold LevelOk at h ⊢
  rw [hgate.level, hgate.depth]
  exact h

end ForwardingEngine

/-! ### Decisions leave the level to the replay -/

variable (P : Primitives) (e : ForwardingEngine) (env : ParsedPacketEnvelope)

theorem dropDecision_gate (x : RxContext) (reason : DropReason) :
    e.SameGate (dropDecision e x reason).1 := by
  rw [dropDecision]
  dsimp only
  split_ifs <;> exact ⟨rfl, rfl⟩

theorem transmitStage_gate (radio : RadioParams) (x : RxContext)
    (f : Forwarding) (now : ℚ) : e.SameGate (transmitStage e radio x f now).1 := by
  have hdelay : ∀ airtime, e.SameGate (forwardDelay e x f airtime).1 := by
    intro airtime
    rw [forwardDelay]
    dsimp only
    split <;> exact ⟨rfl, rfl⟩
  rw [transmitStage]
  dsimp only
  split_ifs
  · exact dropDecision_gate e x _
  all_goals exact ⟨(hdelay _).level, (hdelay _).depth⟩

theorem decideTrace_gate (raw : Bytes) (env : ParsedPacketEnvelope)
    (facts : RxFacts) (key : String) (now : ℚ) :
    e.SameGate (decideTrace e raw env facts key now).1 := by
  rw [decideTrace]
  dsimp only
  repeat' split
  all_goals exact ⟨rfl, rfl⟩

theorem decideDirect_gate (raw : Bytes)
    (env : ParsedPacketEnvelope) (facts : RxFacts) (key : String) (now : ℚ) :
    e.SameGate (decideDirect P e raw env facts key now).1 := by
  rw [decideDirect]
  dsimp only
  split
  · exact decideTrace_gate e raw env facts key now
  repeat' split
  all_goals exact ⟨rfl, rfl⟩

theorem filterStage_gate
    (c : RxCall) : e.SameGate (filterStage P e env c).1 := by
  rw [filterStage]
  dsimp only
  repeat' split
  all_goals exact ⟨rfl, rfl⟩

theorem advertStage_gate (now : ℚ) :
    e.SameGate (advertStage e env now).1 := by
  rw [advertStage]
  dsimp only
  repeat' split
  all_goals exact ⟨rfl, rfl⟩

theorem decideFlood_gate
    (key : String) (c : RxCall) : e.SameGate (decideFlood P e env key c).1 := by
  rw [decideFlood]
  split
  · exact ⟨rfl, rfl⟩
  dsimp only
  split_ifs
  · exact ⟨rfl, rfl⟩
  split
  · exact ⟨rfl, rfl⟩
  generalize hmarked : ({ e with
    seen := markSeen (wasSeen e.seen e.settings.seenTtlSeconds key c.now).1 key c.now } :
      ForwardingEngine) = marked
  have hgate : e.SameGate marked := by
    rw [← hmarked]
    exact ⟨rfl, rfl⟩
  have hfilter := hgate.trans (filterStage_gate P marked env c)
  split
  · rename_i e₁ _ hf
    rw [hf] at hfilter
    exact hfilter
  rename_i e₁ hf
  rw [hf] at hfilter
  have hadvert := hfilter.trans (advertStage_gate e₁ env c.now)
  split
  all_goals
    rename_i ha
    rw [ha] at hadvert
    exact hadvert

theorem routeStage_gate
    (key : String) (c : RxCall) : e.SameGate (routeStage P e env key c).1 := by
  rw [routeStage]
  split_ifs
  · exact decideDirect_gate P e c.raw env c.facts key c.now
  · exact decideFlood_gate P e env key c

namespace ForwardingEngine

variable {e : ForwardingEngine}

theorem LevelOk.decide (h : e.LevelOk) (P : Primitives) (c : RxCall) :
    (HostRepeater.decide P e c).1.LevelOk := by
  rw [HostRepeater.decide]
  split
  · exact h
  rename_i env _
  unfold decideEnvelope
  dsimp only
  set cleared : ForwardingEngine := { e with pendingDryrun := none }
  have hcleared : cleared.LevelOk := h
  split
  · exact hcleared.of_gate (dropDecision_gate ..)
  split
  · exact hcleared.of_gate (dropDecision_gate ..)
  split
  · exact hcleared.of_gate (dropDecision_gate ..)
  generalize evaluateLayers P _ _ _ _ _ _ _ = layers
  have hpolicy : ({ cleared.gateCatchUp c.now with policyState := layers.1 } :
      ForwardingEngine).LevelOk := hcleared.gateCatchUp c.now
  split
  · exact hpolicy.of_gate (dropDecision_gate ..)
  have hroute := hpolicy.of_gate (routeStage_gate P _ env (envelopeHash P env) c)
  unfold envelopeHash at hroute
  generalize routeStage P _ env _ c = routed at hroute ⊢
  obtain ⟨e₂, outcome⟩ := routed
  cases outcome with
  | error reason => exact hroute.of_gate (dropDecision_gate ..)
  | ok f => exact hroute.of_gate (transmitStage_gate ..)

theorem buildRegionTree_levelOk (e : ForwardingEngine) : e.buildRegionTree.LevelOk :=
  Nat.min_le_right ..

theorem LevelOk.configure (h : e.LevelOk) (P : Primitives)
    (settings : Option HostRepeaterSettings) (publicKey : Option Bytes)
    (radio : Option RadioParams) : (e.configure P settings publicKey radio).LevelOk := by
  have hsettings : (settings.elim e (e.configureSettings P)).LevelOk := by
    cases settings with
    | none => exact h
    | some s => exact buildRegionTree_levelOk { e with settings := s }
  unfold ForwardingEngine.configure
  generalize settings.elim e (e.configureSettings P) = e₁ at hsettings ⊢
  have hkey : (publicKey.elim e₁ e₁.configurePublicKey).LevelOk := by
    cases publicKey with
    | none => exact hsettings
    | some key =>
      show (e₁.configurePublicKey key).LevelOk
      unfold configurePublicKey
      split_ifs <;> exact hsettings
  cases radio <;> exact hkey

/-- **The level stays one that the region tree has**, whatever is done with the engine. -/
theorem LevelOk.apply (h : e.LevelOk) (P : Primitives) (op : EngineOp) :
    (op.apply P e).LevelOk := by
  cases op with
  | decide c => exact h.decide P c
  | configure settings publicKey radio => exact h.configure P settings publicKey radio
  | setManagedRules before after => exact h
  | addOwnTx now airtimeMs =>
    show (e.addOwnTx now airtimeMs).LevelOk
    unfold addOwnTx
    dsimp only
    split_ifs <;> exact h.gateCatchUp now
  | airtimeUsedMs now => exact h
  | gateSnapshot now => exact h.gateCatchUp now
  | resetFilterCounters => exact h
  | resetState => exact h

end ForwardingEngine

/-! ### The replay -/

/-- The replay at `now` leaves the level that every check one by one leaves, and both loops
come to their end. -/
structure Replays (e : ForwardingEngine) (now : ℚ) : Prop where
  level : (e.gateCatchUp now).gateLevel = (e.checkAll now).gateLevel
  ended : e.settings.dcGateEnabled = true →
    (e.gateCatchUp now).Ended now ∧ (e.checkAll now).Ended now

/-- The level is within the region tree, before and after a replay at `now` and between any
two checks of either loop. -/
structure Bounded (e : ForwardingEngine) (now : ℚ) : Prop where
  before : e.LevelOk
  after : (e.gateCatchUp now).LevelOk
  between : ∀ fuel next, (gateLoop now fuel (e.syncBudget now) next).LevelOk ∧
    (checkLoop now fuel (e.syncBudget now) next).LevelOk

theorem replays (now : ℚ) : Replays e now := by
  refine ⟨?_, fun henabled => ?_⟩
  · unfold gateCatchUp checkAll
    dsimp only
    split_ifs
    · rfl
    · exact gateLoop_level (e.syncBudget_positive now)
  · have hnot : ¬ (!(e.syncBudget now).settings.dcGateEnabled) = true := by
      show ¬ (!e.settings.dcGateEnabled) = true
      rw [henabled]
      decide
    unfold gateCatchUp checkAll
    dsimp only
    rw [if_neg hnot, if_neg hnot]
    exact ⟨gateLoop_ended (lt_checksDue now _), checkLoop_ended (lt_checksDue now _)⟩

theorem bounded_of_levelOk {e : ForwardingEngine} (h : e.LevelOk) (now : ℚ) : Bounded e now :=
  ⟨h, h.gateCatchUp now, fun _ _ => ⟨gateLoop_level_le h, checkLoop_level_le h⟩⟩

/-- **The lazy replay is the firmware's loop** for any engine and any time, and in any run of
an engine the level stays within the region tree. -/
theorem gate_replays (P : Primitives) : (∀ e now, Replays e now) ∧
    ∀ settings publicKey radio rng e events,
      Run (EngineStep P) (ForwardingEngine.new P settings publicKey radio rng) events e →
        ∀ now, Bounded e now := by
  refine ⟨replays, fun settings publicKey radio rng e events hrun => bounded_of_levelOk ?_⟩
  have hnew : (ForwardingEngine.new P settings publicKey radio rng).LevelOk :=
    buildRegionTree_levelOk _
  refine hrun.invariant (C := fun _ => True) (fun _ _ => trivial) (fun ev hstep _ h => ?_) hnew
  rw [hstep]
  exact h.apply P ev.label

theorem gate_replays_stock : ∀ now,
    Replays (stockEngine (fixedPrimitives channelTextDigest)) now ∧
      Bounded (stockEngine (fixedPrimitives channelTextDigest)) now := by
  intro now
  obtain ⟨hreplays, hbounded⟩ := gate_replays (fixedPrimitives channelTextDigest)
  exact ⟨hreplays _ now, hbounded _ _ _ _ _ _ (Run.nil _) now⟩

/-!
## The duty gate on an idle radio

A check that reads zero closes nothing, and opens one layer where zero is under the recover
threshold. That threshold is zero where the hysteresis takes up the whole gate threshold: there
no reading is under it, and a closed layer stays closed.
-/

namespace ForwardingEngine

/-- The readings of the checks that are due up to `now`. -/
def checkReadings (now : ℚ) : ℕ → ForwardingEngine → ℚ → List (Option ℤ)
  | 0, _, _ => []
  | fuel + 1, e, next =>
    if next > now then []
    else
      (e.budget.usedPercent next).2 ::
        checkReadings now fuel (e.gateCheck next).1 (next + (e.gateCheck next).2)

/-- The readings of the checks that `_gate_catch_up` makes up for. -/
def dueReadings (e : ForwardingEngine) (now : ℚ) : List (Option ℤ) :=
  let e := e.syncBudget now
  let next := e.gateNext.getD now
  checkReadings now (checksDue now next) e next

/-- `k` checks in a row read zero, from one engine to another. Between two replays anything may
happen that leaves the settings and the level alone. -/
inductive IdleChecks : ℕ → ForwardingEngine → ForwardingEngine → Prop
  | nil (e : ForwardingEngine) : IdleChecks 0 e e
  | catchUp {k : ℕ} {e e' : ForwardingEngine} (now : ℚ) : IdleChecks k e e' →
      (∀ d ∈ e'.dueReadings now, d = some 0) →
      IdleChecks (k + (e'.dueReadings now).length) e (e'.gateCatchUp now)
  | other {k : ℕ} {e e' e'' : ForwardingEngine} : IdleChecks k e e' →
      e''.settings = e'.settings → e''.gateLevel = e'.gateLevel → IdleChecks k e e''

/-- Zero is under the recover threshold. -/
def Recovers (s : HostRepeaterSettings) : Prop := s.dcGateHysteresis < s.dcGateThreshold

instance (s : HostRepeaterSettings) : Decidable (Recovers s) :=
  inferInstanceAs (Decidable (_ < _))

/-- The layers that `k` idle checks open. -/
def opened (s : HostRepeaterSettings) (k : ℕ) : ℕ := if Recovers s then k else 0

variable {e : ForwardingEngine}

/-- **One idle check.** -/
theorem gateCheck_idle {at₁ : ℚ} (hread : (e.budget.usedPercent at₁).2 = some 0) :
    (e.gateCheck at₁).1.gateLevel = e.gateLevel - opened e.settings 1 := by
  have hover : e.overCap at₁ = false := by
    rw [overCap, hread, Option.any_some, decide_eq_false_iff_not]
    have hthreshold := e.settings.dcGateThreshold_ge
    omega
  have hrecovered : e.recovered at₁ = Decidable.decide (Recovers e.settings) := by
    unfold ForwardingEngine.recovered Recovers
    rw [hread, Option.any_some]
    have hiff : ((0 : ℤ) < ((e.settings.dcGateThreshold - e.settings.dcGateHysteresis : ℕ) : ℤ)) ↔
        e.settings.dcGateHysteresis < e.settings.dcGateThreshold := by omega
    exact decide_eq_decide.mpr hiff
  rw [gateCheck, hover, hrecovered, opened]
  by_cases hrec : Recovers e.settings
  · rw [if_pos hrec, decide_eq_true hrec]
    by_cases hlevel : e.gateLevel > 0
    · rw [decide_eq_true hlevel]
      rfl
    · rw [decide_eq_false hlevel]
      show e.gateLevel = e.gateLevel - 1
      omega
  · rw [if_neg hrec, decide_eq_false hrec]
    rfl

/-- **The firmware's loop over idle checks.** -/
theorem checkLoop_idle {now : ℚ} {fuel : ℕ} {next : ℚ}
    (hidle : ∀ d ∈ checkReadings now fuel e next, d = some 0) :
    (checkLoop now fuel e next).gateLevel =
      e.gateLevel - opened e.settings (checkReadings now fuel e next).length := by
  induction fuel generalizing e next with
  | zero =>
    show e.gateLevel = e.gateLevel - opened e.settings 0
    rw [opened, ite_self]
    rfl
  | succ fuel ih =>
    rw [checkReadings] at hidle
    rw [checkLoop, checkReadings]
    by_cases hnext : next > now
    · rw [if_pos hnext, if_pos hnext]
      show e.gateLevel = e.gateLevel - opened e.settings 0
      rw [opened, ite_self]
      rfl
    · rw [if_neg hnext] at hidle
      rw [if_neg hnext, if_neg hnext]
      have hread := hidle _ List.mem_cons_self
      have hrest := ih (fun d hd => hidle d (List.mem_cons_of_mem _ hd))
      rw [hrest, gateCheck_idle hread, (gateCheck_keeps e next).1, List.length_cons]
      unfold opened
      split_ifs <;> omega

/-- A replay of idle checks. -/
theorem gateCatchUp_idle {now : ℚ} (henabled : e.settings.dcGateEnabled = true)
    (hidle : ∀ d ∈ e.dueReadings now, d = some 0) :
    (e.gateCatchUp now).gateLevel =
      e.gateLevel - opened e.settings (e.dueReadings now).length := by
  have hnot : ¬ (!(e.syncBudget now).settings.dcGateEnabled) = true := by
    show ¬ (!e.settings.dcGateEnabled) = true
    rw [henabled]
    decide
  rw [(replays e now).level, checkAll]
  dsimp only
  rw [if_neg hnot]
  exact checkLoop_idle hidle

theorem gateLoop_settings (now : ℚ) (fuel : ℕ) (e : ForwardingEngine) (next : ℚ) :
    (gateLoop now fuel e next).settings = e.settings := by
  induction fuel generalizing e next with
  | zero => rfl
  | succ fuel ih =>
    rw [gateLoop_succ]
    dsimp only
    split_ifs
    · rfl
    · exact (gateCheck_keeps e next).1
    · rw [ih, (gateCheck_keeps e next).1]

theorem gateCatchUp_settings (e : ForwardingEngine) (now : ℚ) :
    (e.gateCatchUp now).settings = e.settings := by
  rw [gateCatchUp]
  dsimp only
  split_ifs
  · rfl
  · exact gateLoop_settings _ _ _ _

theorem IdleChecks.level {k : ℕ} {e e' : ForwardingEngine} (h : IdleChecks k e e')
    (henabled : e.settings.dcGateEnabled = true) :
    e'.settings = e.settings ∧ e'.gateLevel = e.gateLevel - opened e.settings k := by
  induction h with
  | nil e =>
    refine ⟨rfl, ?_⟩
    rw [opened, ite_self]
    rfl
  | @catchUp k e e' now _ hidle ih =>
    obtain ⟨hsettings, hlevel⟩ := ih henabled
    refine ⟨(gateCatchUp_settings e' now).trans hsettings, ?_⟩
    rw [gateCatchUp_idle (by rw [hsettings]; exact henabled) hidle, hlevel, hsettings]
    unfold opened
    split_ifs <;> omega
  | other _ hsettings hlevel ih =>
    obtain ⟨hsettings', hlevel'⟩ := ih henabled
    exact ⟨hsettings.trans hsettings', hlevel.trans hlevel'⟩

end ForwardingEngine

open ForwardingEngine

/-- **Idle checks open a layer each exactly where zero is under the recover threshold**, or where
there is nothing to open. -/
theorem gate_reopens_iff {k : ℕ} {e e' : ForwardingEngine} (hidle : IdleChecks k e e')
    (henabled : e.settings.dcGateEnabled = true) :
    e'.gateLevel = e.gateLevel - k ↔
      e.settings.dcGateHysteresis < e.settings.dcGateThreshold ∨ e.gateLevel = 0 ∨ k = 0 := by
  obtain ⟨-, hlevel⟩ := hidle.level henabled
  rw [hlevel, opened]
  by_cases hrec : Recovers e.settings
  · rw [if_pos hrec]
    exact ⟨fun _ => Or.inl hrec, fun _ => rfl⟩
  · rw [if_neg hrec]
    constructor
    · intro heq
      omega
    · intro h
      rcases h with h | h | h
      · exact absurd h hrec
      · omega
      · omega

/-! #### A gate above one percent -/

theorem lowestThreshold_ge : 1 ≤ 1 := Nat.le_refl 1
theorem lowestThreshold_le : 1 ≤ 100 := by decide

/-- One region under a gate that closes above one percent. -/
def gatedSettings (hysteresis : ℕ) (h : hysteresis ≤ 50) : HostRepeaterSettings :=
  { HostRepeaterSettings.default with
    regions := [{ name := "eu" }]
    regions_length := by decide
    regionTree := by decide
    dcGateEnabled := true
    dcGateThreshold := 1
    dcGateThreshold_ge := lowestThreshold_ge
    dcGateThreshold_le := lowestThreshold_le
    dcGateHysteresis := hysteresis
    dcGateHysteresis_le := h }

/-- Two percent of the budget go out, and the next check closes a layer. -/
def closedEngine (hysteresis : ℕ) (h : hysteresis ≤ 50) : ForwardingEngine :=
  ((ForwardingEngine.new (fixedPrimitives channelTextDigest) (gatedSettings hysteresis h)
    (some stockKey) (some stockRadio) Random.zero).addOwnTx 0 7200).gateCatchUp 50

/-- The budget is full again at the check after a minute. -/
theorem closedEngine_idle (hysteresis : ℕ) (h : hysteresis ≤ 50)
    (hread : ∀ d ∈ (closedEngine hysteresis h).dueReadings 60, d = some 0)
    (hlength : ((closedEngine hysteresis h).dueReadings 60).length = 1) :
    IdleChecks 1 (closedEngine hysteresis h) ((closedEngine hysteresis h).gateCatchUp 60) := by
  have hidle := IdleChecks.catchUp 60 (IdleChecks.nil (closedEngine hysteresis h)) hread
  rw [hlength] at hidle
  exact hidle

/-- Without a hysteresis the layer opens. -/
theorem gate_reopens_iff_no_hysteresis :
    ((closedEngine 0 (by decide)).gateCatchUp 60).gateLevel = 0 :=
  ((gate_reopens_iff
      (closedEngine_idle 0 (by decide) (by decide +kernel) (by decide +kernel))
      (by decide +kernel)).mpr (Or.inl (by decide +kernel))).trans (by decide +kernel)

/-- With the stock hysteresis it does not. -/
theorem not_forall_gate_reopens : ¬ ∀ (k : ℕ) (e e' : ForwardingEngine),
    IdleChecks k e e' → e.settings.dcGateEnabled = true →
      e'.gateLevel = e.gateLevel - k := by
  intro h
  have hlevel := h 1 _ _
    (closedEngine_idle 10 (by decide) (by decide +kernel)
      (by decide +kernel)) (by decide +kernel)
  revert hlevel
  decide +kernel

end RtfmEv.HostRepeater
