import RtfmEv.HostRepeater.GateReplay

/-!
# The transmit budget over its calls

The bucket is refilled lazily, at each call. It stays between empty and full, a reading in
between leaves nothing behind that a later refill would miss, and what is taken out in a span of
time is no more than a full bucket and what flows in.
-/

namespace RtfmEv.HostRepeater

open RtfmEv.Lib

/-- What is asked of the budget. -/
inductive BudgetCall
  | configure (duty : Option ℚ)
  | consume (airtimeMs : ℚ)
  | usedPercent

namespace BudgetCall

/-- The engine configures the share of a sub-band, and no airtime is negative. -/
def Ok : BudgetCall → Prop
  | configure duty => ∀ d ∈ duty, 0 ≤ d
  | consume airtimeMs => 0 ≤ airtimeMs
  | usedPercent => True

def apply (b : AirtimeBudget) (now : ℚ) : BudgetCall → AirtimeBudget
  | configure duty => b.configure duty now
  | consume airtimeMs => b.consume now airtimeMs
  | usedPercent => (b.usedPercent now).1

/-- The call leaves the duty as it is. -/
def KeepsDuty (b : AirtimeBudget) : BudgetCall → Prop
  | configure duty => duty = b.duty
  | _ => True

end BudgetCall

abbrev BudgetEvent := Event (Timed ℚ AirtimeBudget) (ℚ × BudgetCall)

abbrev BudgetStep : Timed ℚ AirtimeBudget → ℚ × BudgetCall → Timed ℚ AirtimeBudget → Prop :=
  Ticks BudgetCall.apply

/-- The airtime that a call takes out of a bucket that stays above empty. -/
def paidMs (e : BudgetEvent) : ℚ :=
  match e.label.2 with
  | .consume airtimeMs => if 0 < e.post.state.tokensMs then airtimeMs else 0
  | _ => 0

namespace AirtimeBudget

/-- Milliseconds that flow in each millisecond. -/
def rate (b : AirtimeBudget) : ℚ := b.duty.getD 0

theorem maxMs_eq (b : AirtimeBudget) : b.maxMs = budgetWindowMs * b.rate := by
  unfold maxMs rate
  cases b.duty with
  | none => rw [Option.getD_none, mul_zero]
  | some duty => rfl

/-- Between empty and full, with a clock once there is a duty. -/
structure Filled (b : AirtimeBudget) : Prop where
  nonneg : 0 ≤ b.tokensMs
  le_max : b.tokensMs ≤ b.maxMs
  rate_nonneg : 0 ≤ b.rate
  started : b.last = none → b.duty = none

theorem refill_rate (b : AirtimeBudget) (now : ℚ) : (b.refill now).rate = b.rate := by
  unfold rate
  rw [refill_duty]

variable {b : AirtimeBudget} {later now t : ℚ}

/-- **What a refill leaves in the bucket.** -/
theorem Filled.refill_tokens (h : b.Filled) {last : ℚ}
    (hlast : b.last = some last) (now : ℚ) :
    (b.refill now).tokensMs = min b.maxMs (b.tokensMs + max 0 (now - last) * 1000 * b.rate) := by
  have hmax := h.le_max
  unfold refill
  rw [hlast]
  dsimp only
  cases hduty : b.duty with
  | none =>
    have hrate : b.rate = 0 := by
      unfold rate
      rw [hduty, Option.getD_none]
    rw [hrate, mul_zero, add_zero]
    exact (min_eq_right hmax).symm
  | some duty =>
    have hrate : b.rate = duty := by
      unfold rate
      rw [hduty, Option.getD_some]
    dsimp only
    rw [hrate]
    split_ifs with hlater
    · rw [max_eq_right (by linarith [hlater.1])]
    · show b.tokensMs = _
      have hzero : max 0 (now - last) * 1000 * duty = 0 := by
        by_cases hd : duty = 0
        · rw [hd, mul_zero]
        · have hback : now ≤ last := not_lt.mp (fun hnow => hlater ⟨hnow, hd⟩)
          rw [max_eq_left (by linarith), zero_mul, zero_mul]
      rw [hzero, add_zero, min_eq_right hmax]

theorem Filled.refill_tokens_none (hlast : b.last = none) (now : ℚ) :
    (b.refill now).tokensMs = b.tokensMs := by
  unfold refill
  rw [hlast]

theorem Filled.refill (h : b.Filled) (now : ℚ) : (b.refill now).Filled := by
  have hflow : 0 ≤ (b.refill now).tokensMs ∧ (b.refill now).tokensMs ≤ b.maxMs := by
    cases hlast : b.last with
    | none =>
      rw [Filled.refill_tokens_none hlast]
      exact ⟨h.nonneg, h.le_max⟩
    | some last =>
      rw [h.refill_tokens hlast]
      have hin : 0 ≤ max 0 (now - last) * 1000 * b.rate :=
        mul_nonneg (mul_nonneg (le_max_left _ _) (by norm_num)) h.rate_nonneg
      exact ⟨le_min (h.nonneg.trans h.le_max) (add_nonneg h.nonneg hin), min_le_left _ _⟩
  refine ⟨hflow.1, ?_, ?_, ?_⟩
  · rw [refill_maxMs]
    exact hflow.2
  · rw [refill_rate]
    exact h.rate_nonneg
  · intro hnone
    rw [refill_duty]
    refine h.started ?_
    unfold AirtimeBudget.refill at hnone
    split at hnone
    · cases hnone
    · split at hnone
      · exact hnone
      · split_ifs at hnone
        exact hnone

/-- A second refill at the same time does nothing, whatever was taken out. -/
theorem refill_again (b : AirtimeBudget) (now tokens : ℚ) :
    ({ b.refill now with tokensMs := tokens } : AirtimeBudget).refill now =
      { b.refill now with tokensMs := tokens } := by
  cases hlast : b.last with
  | none =>
    have hrefill : b.refill now = { b with last := some now } := by
      unfold AirtimeBudget.refill
      rw [hlast]
    rw [hrefill]
    unfold AirtimeBudget.refill
    dsimp only
    cases b.duty with
    | none => rfl
    | some duty => exact if_neg (fun hlater => lt_irrefl _ hlater.1)
  | some last =>
    unfold AirtimeBudget.refill
    rw [hlast]
    cases hduty : b.duty with
    | none =>
      dsimp only
      rw [hlast, hduty]
    | some duty =>
      dsimp only
      split_ifs with hlater
      · exact if_neg (fun h => lt_irrefl _ h.1)
      · rw [hlast, hduty]
        exact if_neg hlater

/-- **A refill in two parts** leaves what a refill in one leaves. -/
theorem Filled.refill_refill (h : b.Filled) (hle : now ≤ later) :
    ((b.refill now).refill later).tokensMs = (b.refill later).tokensMs := by
  cases hlast : b.last with
  | none =>
    have hrefill : b.refill now = { b with last := some now } := by
      unfold AirtimeBudget.refill
      rw [hlast]
    have hduty : b.duty = none := h.started hlast
    rw [Filled.refill_tokens_none hlast, hrefill]
    unfold AirtimeBudget.refill
    dsimp only
    rw [hduty]
  | some last =>
    by_cases hmoved : now > last ∧ b.rate ≠ 0
    · have hrefill : (b.refill now).last = some now := by
        unfold AirtimeBudget.refill
        rw [hlast]
        dsimp only
        cases hduty : b.duty with
        | none =>
          refine absurd ?_ hmoved.2
          unfold rate
          rw [hduty, Option.getD_none]
        | some duty =>
          have hne : duty ≠ 0 := by
            have hrate := hmoved.2
            unfold rate at hrate
            rw [hduty, Option.getD_some] at hrate
            exact hrate
          dsimp only
          rw [if_pos ⟨hmoved.1, hne⟩]
      rw [(h.refill now).refill_tokens hrefill, refill_maxMs, refill_rate,
        h.refill_tokens hlast, h.refill_tokens hlast]
      have hnow := hmoved.1
      rw [max_eq_right (by linarith : 0 ≤ later - now),
        max_eq_right (by linarith : 0 ≤ now - last),
        max_eq_right (by linarith : 0 ≤ later - last)]
      have hin : 0 ≤ (later - now) * 1000 * b.rate :=
        mul_nonneg (mul_nonneg (by linarith) (by norm_num)) h.rate_nonneg
      rw [← min_add_add_right, ← min_assoc, min_eq_left (by linarith : b.maxMs ≤ b.maxMs +
        (later - now) * 1000 * b.rate)]
      congr 1
      ring
    · have hsame : b.refill now = b := by
        unfold AirtimeBudget.refill
        rw [hlast]
        dsimp only
        cases hduty : b.duty with
        | none => rfl
        | some duty =>
          dsimp only
          refine if_neg (fun hlater => hmoved ⟨hlater.1, ?_⟩)
          unfold rate
          rw [hduty, Option.getD_some]
          exact hlater.2
      rw [hsame]

theorem Filled.refill_le (h : b.Filled) (hle : now ≤ later) :
    (b.refill later).tokensMs ≤ (b.refill now).tokensMs + (later - now) * 1000 * b.rate := by
  have hin : 0 ≤ (later - now) * 1000 * b.rate :=
    mul_nonneg (mul_nonneg (by linarith) (by norm_num)) h.rate_nonneg
  cases hlast : b.last with
  | none =>
    rw [Filled.refill_tokens_none hlast, Filled.refill_tokens_none hlast]
    linarith
  | some last =>
    rw [h.refill_tokens hlast, h.refill_tokens hlast, ← min_add_add_right]
    refine min_le_min (by linarith) ?_
    have hgap : max 0 (later - last) ≤ max 0 (now - last) + (later - now) := by
      refine max_le ?_ ?_
      · have := le_max_left 0 (now - last)
        linarith
      · have := le_max_right 0 (now - last)
        linarith
    have hscaled := mul_le_mul_of_nonneg_right
      (mul_le_mul_of_nonneg_right hgap (by norm_num : (0 : ℚ) ≤ 1000)) h.rate_nonneg
    linarith

/-! ### The calls -/

theorem usedPercent_tokens (b : AirtimeBudget) (now : ℚ) :
    (b.usedPercent now).1.tokensMs = (b.refill now).tokensMs := by
  by_cases hzero : b.maxMs = 0
  · rw [usedPercent_of_zero hzero]
    unfold AirtimeBudget.refill
    split
    · rfl
    split
    · rfl
    · rename_i duty hduty
      rw [if_neg]
      intro hlater
      rw [maxMs, hduty] at hzero
      exact (mul_ne_zero (by norm_num) hlater.2) hzero
  · rw [usedPercent_of_ne hzero]

theorem Filled.usedPercent (h : b.Filled) (now : ℚ) :
    (b.usedPercent now).1.Filled := by
  by_cases hzero : b.maxMs = 0
  · rw [usedPercent_of_zero hzero]
    exact h
  · rw [usedPercent_of_ne hzero]
    exact h.refill now

theorem Filled.consume (h : b.Filled) (now : ℚ) {airtimeMs : ℚ}
    (hpos : 0 ≤ airtimeMs) : (b.consume now airtimeMs).Filled := by
  have hrefill := h.refill now
  refine ⟨le_max_left _ _, ?_, hrefill.rate_nonneg, hrefill.started⟩
  show max 0 ((b.refill now).tokensMs - airtimeMs) ≤ (b.refill now).maxMs
  refine max_le (hrefill.nonneg.trans hrefill.le_max) ?_
  have hmax := hrefill.le_max
  linarith

theorem Filled.configure (h : b.Filled) (now : ℚ) {duty : Option ℚ}
    (hduty : ∀ d ∈ duty, 0 ≤ d) : (b.configure duty now).Filled := by
  unfold AirtimeBudget.configure
  split_ifs
  · have hrate : 0 ≤ duty.getD 0 := by
      cases duty with
      | none => exact le_rfl
      | some d => exact hduty d rfl
    refine ⟨?_, le_rfl, hrate, fun hlast => (nomatch hlast)⟩
    show 0 ≤ ({ b with duty := duty } : AirtimeBudget).maxMs
    rw [maxMs_eq]
    exact mul_nonneg (by norm_num) hrate
  · exact h

theorem Filled.apply (h : b.Filled) (now : ℚ) {c : BudgetCall} (hc : c.Ok) :
    (c.apply b now).Filled := by
  cases c with
  | configure duty => exact h.configure now hc
  | consume airtimeMs => exact h.consume now hc
  | usedPercent => exact h.usedPercent now

theorem filled_new : ({} : AirtimeBudget).Filled :=
  ⟨le_rfl, le_rfl, le_rfl, fun _ => rfl⟩

/-! ### Readings in between -/

theorem usedPercent_rate (b : AirtimeBudget) (now : ℚ) : (b.usedPercent now).1.rate = b.rate := by
  unfold rate
  rw [usedPercent_duty]

theorem Filled.usedPercent_refill (h : b.Filled) (hle : now ≤ later) :
    ((b.usedPercent now).1.refill later).tokensMs = (b.refill later).tokensMs := by
  by_cases hzero : b.maxMs = 0
  · rw [usedPercent_of_zero hzero]
  · rw [usedPercent_of_ne hzero]
    exact h.refill_refill hle

/-- **Readings leave nothing behind**, in whatever order they were made. -/
theorem Filled.reads (h : b.Filled) {reads : List ℚ} (hreads : ∀ r ∈ reads, r ≤ t) :
    ((reads.foldl (fun b r => (b.usedPercent r).1) b).refill t).tokensMs =
      (b.refill t).tokensMs := by
  induction reads generalizing b with
  | nil => rfl
  | cons r reads ih =>
    rw [List.foldl_cons, ih (h.usedPercent r) (fun r' hr' => hreads r' (List.mem_cons_of_mem _ hr'))]
    exact h.usedPercent_refill (hreads r List.mem_cons_self)

/-! ### Spans without a new duty -/

theorem configure_same {duty : Option ℚ} (h : duty = b.duty) (now : ℚ) :
    b.configure duty now = b := by
  unfold AirtimeBudget.configure
  exact if_neg (fun hne => hne h)

/-- A bucket with what can flow in up to `t`, seen from `now`. -/
def outlook (t : ℚ) (b : AirtimeBudget) (now : ℚ) : ℚ :=
  (b.refill now).tokensMs + (t - now) * 1000 * b.rate

theorem Filled.outlook_le (h : b.Filled) (t : ℚ)
    (hle : now ≤ later) : outlook t b later ≤ outlook t b now := by
  have hflow := h.refill_le hle
  unfold outlook
  linarith

theorem consume_rate (b : AirtimeBudget) (now airtimeMs : ℚ) :
    (b.consume now airtimeMs).rate = b.rate :=
  refill_rate b now

/-- A call that takes airtime out pays for it with the outlook. -/
theorem Filled.outlook_apply (h : b.Filled) (t now : ℚ) {c : BudgetCall}
    (hc : c.Ok) (hkeeps : c.KeepsDuty b) :
    paidMs ⟨⟨now, b⟩, (now, c), ⟨now, c.apply b now⟩⟩ + outlook t (c.apply b now) now ≤
      outlook t b now := by
  cases c with
  | configure duty =>
    show 0 + outlook t (b.configure duty now) now ≤ outlook t b now
    rw [configure_same hkeeps, zero_add]
  | consume airtimeMs =>
    have hpos : 0 ≤ airtimeMs := hc
    have hagain : ((b.consume now airtimeMs).refill now).tokensMs =
        max 0 ((b.refill now).tokensMs - airtimeMs) :=
      congrArg AirtimeBudget.tokensMs (refill_again b now _)
    show (if 0 < max 0 ((b.refill now).tokensMs - airtimeMs) then airtimeMs else 0) +
      outlook t (b.consume now airtimeMs) now ≤ outlook t b now
    unfold outlook
    rw [hagain, consume_rate]
    split_ifs with hleft
    · have hroom : 0 ≤ (b.refill now).tokensMs - airtimeMs :=
        le_of_lt ((lt_max_iff.mp hleft).resolve_left (lt_irrefl _))
      rw [max_eq_right hroom]
      linarith
    · have hempty : max 0 ((b.refill now).tokensMs - airtimeMs) ≤ 0 := not_lt.mp hleft
      have hnonneg := (h.refill now).nonneg
      linarith
  | usedPercent =>
    show 0 + outlook t (b.usedPercent now).1 now ≤ outlook t b now
    unfold outlook
    rw [h.usedPercent_refill le_rfl, usedPercent_rate, zero_add]

/-- **A span pays out no more than a full bucket and what flows in.** -/
theorem Filled.span_le {b b' : Timed ℚ AirtimeBudget} {span : List BudgetEvent} {s : ℚ}
    (h : b.state.Filled) (hrun : Run BudgetStep b span b')
    (hspan : ∀ e ∈ span, e.label.2.Ok ∧ e.label.2.KeepsDuty e.pre.state ∧
      s ≤ e.label.1 ∧ e.label.1 ≤ t) (hst : s ≤ t) :
    (span.map paidMs).sum ≤ b.state.maxMs + (t - s) * 1000 * b.state.rate := by
  have hflow : 0 ≤ (t - s) * 1000 * b.state.rate :=
    mul_nonneg (mul_nonneg (by linarith) (by norm_num)) h.rate_nonneg
  by_cases hlate : b.clock ≤ t
  · -- the outlook from the last call, or from the start of the span
    have hpaid := hrun.paid_le (P := fun x => x.state.Filled ∧ x.clock ≤ t) (w := paidMs)
      (Φ := fun x => outlook t x.state (max s x.clock)) hspan ⟨h, hlate⟩ (fun e hstep he hpre => by
        obtain ⟨hok, hkeeps, hs, ht⟩ := he
        obtain ⟨pre, ⟨now, c⟩, post⟩ := e
        have hpost : post = ⟨now, c.apply pre.state now⟩ := hstep.2
        subst hpost
        refine ⟨⟨hpre.1.apply now hok, ht⟩, ?_⟩
        show paidMs ⟨⟨now, pre.state⟩, (now, c), ⟨now, c.apply pre.state now⟩⟩ +
          outlook t (c.apply pre.state now) (max s now) ≤ outlook t pre.state (max s pre.clock)
        rw [max_eq_right hs]
        exact (hpre.1.outlook_apply t now hok hkeeps).trans
          (hpre.1.outlook_le t (max_le hs hstep.1)))
    have hend : b'.state.Filled ∧ b'.clock ≤ t := by
      refine hrun.invariant (P := fun x => x.state.Filled ∧ x.clock ≤ t) hspan
        (fun e hstep he hpre => ?_) ⟨h, hlate⟩
      rw [hstep.2]
      exact ⟨hpre.1.apply _ he.1, he.2.2.2⟩
    have hleft : 0 ≤ outlook t b'.state (max s b'.clock) := by
      have hgap : 0 ≤ t - max s b'.clock := by
        have := max_le hst hend.2
        linarith
      exact add_nonneg (hend.1.refill _).nonneg
        (mul_nonneg (mul_nonneg hgap (by norm_num)) hend.1.rate_nonneg)
    have hstart : outlook t b.state (max s b.clock) ≤ outlook t b.state s :=
      h.outlook_le t (le_max_left _ _)
    have hfull := (h.refill s).le_max
    rw [refill_maxMs] at hfull
    unfold outlook at hstart
    unfold outlook at hpaid hleft
    linarith
  · have hnone : span = [] := by
      refine List.eq_nil_iff_forall_not_mem.mpr (fun e he => hlate ?_)
      exact (hrun.clock_le.2 e he).1.trans (hspan e he).2.2.2
    rw [hnone, List.map_nil, List.sum_nil]
    have hmax := h.nonneg.trans h.le_max
    linarith

end AirtimeBudget

open AirtimeBudget

/-- **The bucket over any run of calls.** -/
theorem airtime_budget {start : ℚ} {calls : List BudgetEvent} {b : Timed ℚ AirtimeBudget}
    (hrun : Run BudgetStep ⟨start, {}⟩ calls b) (hok : ∀ e ∈ calls, e.label.2.Ok) :
    (0 ≤ b.state.tokensMs ∧ b.state.tokensMs ≤ b.state.maxMs) ∧
    (∀ now, ∀ percent ∈ (b.state.usedPercent now).2, 0 ≤ percent ∧ percent ≤ 100) ∧
    (∀ span b' s t, Run BudgetStep b span b' →
      (∀ e ∈ span, e.label.2.Ok ∧ e.label.2.KeepsDuty e.pre.state ∧
        s ≤ e.label.1 ∧ e.label.1 ≤ t) → s ≤ t →
      (span.map paidMs).sum ≤ b.state.maxMs + (t - s) * 1000 * b.state.rate) ∧
    (∀ (reads : List ℚ) (t : ℚ), (∀ r ∈ reads, r ≤ t) →
      ((reads.foldl (fun b r => (b.usedPercent r).1) b.state).usedPercent t).1.tokensMs =
        (b.state.usedPercent t).1.tokensMs) := by
  have h : b.state.Filled := by
    refine hrun.invariant (P := fun x => x.state.Filled) hok (fun e hstep he hpre => ?_)
      filled_new
    rw [hstep.2]
    exact hpre.apply _ he
  refine ⟨⟨h.nonneg, h.le_max⟩, ?_, fun span b' s t hspan he hst => h.span_le hspan he hst, ?_⟩
  · intro now percent hpercent
    unfold AirtimeBudget.usedPercent at hpercent
    split_ifs at hpercent
    · cases hpercent
    · obtain rfl := Option.some.inj hpercent
      exact ⟨le_max_left _ _, max_le (by decide) (min_le_left _ _)⟩
  · intro reads t hreads
    rw [usedPercent_tokens, usedPercent_tokens]
    exact h.reads hreads

/-- Ten percent from the start, and five seconds of airtime after ten. -/
theorem airtime_budget_tenth :
    let b := ((({} : AirtimeBudget).configure (some (1 / 10)) 0).consume 10 5000)
    b.tokensMs = 355000 ∧ (0 ≤ b.tokensMs ∧ b.tokensMs ≤ b.maxMs) := by
  intro b
  have hrun : Run BudgetStep ⟨0, {}⟩ _ ⟨10, b⟩ :=
    ((Run.nil _).snoc (l := ((0 : ℚ), BudgetCall.configure (some (1 / 10)))) ⟨le_rfl, rfl⟩).snoc
      (l := ((10 : ℚ), BudgetCall.consume 5000)) ⟨by norm_num, rfl⟩
  refine ⟨by decide +kernel, (airtime_budget hrun ?_).1⟩
  intro e he
  rcases List.mem_append.mp he with he | he
  · rcases List.mem_append.mp he with he | he
    · exact absurd he List.not_mem_nil
    · obtain rfl := List.mem_singleton.mp he
      show ∀ d ∈ some (1 / 10 : ℚ), 0 ≤ d
      simp
  · obtain rfl := List.mem_singleton.mp he
    show (0 : ℚ) ≤ 5000
    norm_num

end RtfmEv.HostRepeater
