import RtfmEv.HostRepeater.Filter
import RtfmEv.Lib.Run

/-!
# The fixed-window limiter over its calls

A call counts into the window it falls in, or opens a new one. Nothing above the limit is let
through in a window, and no interval as long as a window meets more than two of them.
-/

namespace RtfmEv.HostRepeater

open RtfmEv.Lib

/-! ### One call -/

namespace DmcLimiter

/-- The call is not in the window of the limiter and opens a new one. -/
def Opens (l : DmcLimiter) (now : ℚ) : Prop := ¬ now < l.start + l.secs

instance (l : DmcLimiter) (now : ℚ) : Decidable (l.Opens now) :=
  inferInstanceAs (Decidable (¬ _))

/-- The limiter with the call in its window. -/
def counted (l : DmcLimiter) (now : ℚ) : DmcLimiter :=
  if now < l.start + l.secs then { l with count := l.count + 1 }
  else { l with start := now, count := 1 }

/-- The answer for a window with the call in it. -/
def answer (l : DmcLimiter) (rnd : ℕ) : Bool :=
  if l.soft = 0 ∨ l.soft ≥ l.limit then Decidable.decide (l.count ≤ l.limit)
  else if l.count ≤ l.soft then true
  else if l.count > l.limit then false
  else Decidable.decide (rnd < 256 * (l.limit - l.count) / (l.limit - l.soft))

variable {l : DmcLimiter} {now : ℚ} {rnd : ℕ}

theorem allow_eq (h : 0 < l.limit) (now : ℚ) (rnd : ℕ) :
    l.allow now rnd = (l.counted now, (l.counted now).answer rnd) := by
  unfold allow counted answer
  rw [if_neg h.ne']
  dsimp only
  split_ifs <;> rfl

theorem counted_limit (l : DmcLimiter) (now : ℚ) :
    (l.counted now).limit = l.limit ∧ (l.counted now).secs = l.secs ∧
      (l.counted now).soft = l.soft := by
  unfold counted
  split_ifs <;> exact ⟨rfl, rfl, rfl⟩

theorem counted_of_opens (h : l.Opens now) :
    (l.counted now).start = now ∧ (l.counted now).count = 1 := by
  unfold counted
  rw [if_neg h]
  exact ⟨rfl, rfl⟩

theorem counted_of_not_opens (h : ¬ l.Opens now) :
    (l.counted now).start = l.start ∧ (l.counted now).count = l.count + 1 := by
  unfold counted
  rw [if_pos (not_not.mp h)]
  exact ⟨rfl, rfl⟩

theorem count_pos (l : DmcLimiter) (now : ℚ) : 1 ≤ (l.counted now).count := by
  by_cases h : l.Opens now
  · exact (counted_of_opens h).2.ge
  · rw [(counted_of_not_opens h).2]
    exact Nat.le_add_left 1 _

theorem count_le_of_answer (h : l.answer rnd = true) :
    l.count ≤ l.limit := by
  unfold answer at h
  split_ifs at h with hhard hsoft hover
  · exact of_decide_eq_true h
  · push Not at hhard
    omega
  · omega

theorem answer_of_soft (hsoft : 0 < l.soft) (hlimit : l.soft < l.limit)
    (h : l.count ≤ l.soft) (rnd : ℕ) : l.answer rnd = true := by
  unfold answer
  rw [if_neg (by omega), if_pos h]

theorem answer_anti {rnd' : ℕ} (hle : rnd ≤ rnd')
    (h : l.answer rnd' = true) : l.answer rnd = true := by
  unfold answer at h ⊢
  split_ifs at h ⊢
  · exact h
  · rfl
  · exact decide_eq_true (hle.trans_lt (of_decide_eq_true h))

theorem allow_anti {rnd' : ℕ} (hle : rnd ≤ rnd')
    (h : (l.allow now rnd').2 = true) : (l.allow now rnd).2 = true := by
  rcases Nat.eq_zero_or_pos l.limit with hzero | hpos
  · unfold allow
    rw [if_pos hzero]
  · rw [allow_eq hpos] at h ⊢
    exact answer_anti hle h

/-- `allow` over the integers, with nothing where the division raises an error. -/
def allowChecked (l : DmcLimiter) (now : ℚ) (rnd : ℕ) : Option (DmcLimiter × Bool) :=
  if l.limit = 0 then some (l, true)
  else
    let l := l.counted now
    if l.soft = 0 ∨ l.soft ≥ l.limit then some (l, Decidable.decide (l.count ≤ l.limit))
    else if l.count ≤ l.soft then some (l, true)
    else if l.count > l.limit then some (l, false)
    else if (l.limit : ℤ) - l.soft = 0 then none
    else
      some (l, Decidable.decide
        ((rnd : ℤ) < 256 * ((l.limit : ℤ) - l.count) / ((l.limit : ℤ) - l.soft)))

/-- **The division never fails.** -/
theorem allowChecked_eq (l : DmcLimiter) (now : ℚ) (rnd : ℕ) :
    l.allowChecked now rnd = some (l.allow now rnd) := by
  rcases Nat.eq_zero_or_pos l.limit with hzero | hpos
  · unfold allowChecked allow
    rw [if_pos hzero, if_pos hzero]
  · rw [allow_eq hpos]
    unfold allowChecked answer
    rw [if_neg hpos.ne']
    dsimp only
    generalize l.counted now = c
    split_ifs with hhard hsoft hover hdiv
    · rfl
    · rfl
    · rfl
    · push Not at hhard
      omega
    · push Not at hhard
      have hcount : ((c.limit - c.count : ℕ) : ℤ) = (c.limit : ℤ) - c.count := by omega
      have hgap : ((c.limit - c.soft : ℕ) : ℤ) = (c.limit : ℤ) - c.soft := by omega
      rw [← hcount, ← hgap]
      have hiff : ((rnd : ℤ) < 256 * ((c.limit - c.count : ℕ) : ℤ) / ((c.limit - c.soft : ℕ) : ℤ)) ↔
          rnd < 256 * (c.limit - c.count) / (c.limit - c.soft) := by
        exact_mod_cast Iff.rfl
      rw [decide_eq_decide.mpr hiff]

end DmcLimiter

/-! ### Runs -/

abbrev DmcEvent := Event (Timed ℚ DmcLimiter) (ℚ × ℕ)

abbrev DmcStep : Timed ℚ DmcLimiter → ℚ × ℕ → Timed ℚ DmcLimiter → Prop :=
  Ticks (fun l now rnd => (l.allow now rnd).1)

/-- The call opens a window. -/
def OpensWindow (e : DmcEvent) : Prop := e.pre.state.Opens e.label.1

/-- The answer of the call. -/
def letThrough (e : DmcEvent) : Bool := (e.pre.state.allow e.label.1 e.label.2).2

/-- The call is let through at a time in `I`. -/
def letThroughIn (I : Set ℚ) [DecidablePred (· ∈ I)] (e : DmcEvent) : Bool :=
  letThrough e && Decidable.decide (e.label.1 ∈ I)

/-- One call and what is left of the limit. -/
def paidCalls (p : DmcEvent → Bool) (e : DmcEvent) : ℕ := if p e then 1 else 0

theorem sum_paidCalls (p : DmcEvent → Bool) (h : List DmcEvent) :
    (h.map (paidCalls p)).sum = h.countP p :=
  Run.sum_indicator p h

/-- The limiter of the run: its three settings never change. -/
structure Keeps (limit secs soft : ℕ) (l : DmcLimiter) : Prop where
  limit : l.limit = limit
  secs : l.secs = secs
  soft : l.soft = soft

variable {limit secs soft : ℕ} {e : DmcEvent} {s t : Timed ℚ DmcLimiter} {h w : List DmcEvent}

theorem Keeps.counted {l : DmcLimiter} (h : Keeps limit secs soft l) (now : ℚ) :
    Keeps limit secs soft (l.counted now) := by
  obtain ⟨h1, h2, h3⟩ := l.counted_limit now
  exact ⟨h1.trans h.limit, h2.trans h.secs, h3.trans h.soft⟩

theorem dmcStep_eq {l : DmcLimiter} (hpos : 0 < l.limit) (hl : e.pre.state = l)
    (hstep : DmcStep e.pre e.label e.post) :
    e.post.state = l.counted e.label.1 ∧ letThrough e = (l.counted e.label.1).answer e.label.2 := by
  subst hl
  have hstate := hstep.state_eq
  unfold letThrough
  rw [DmcLimiter.allow_eq hpos] at hstate ⊢
  exact ⟨hstate, rfl⟩

theorem keeps_of_run (hlimit : 0 < limit)
    (hrun : Run DmcStep s h t) (hs : Keeps limit secs soft s.state) :
    Keeps limit secs soft t.state := by
  refine hrun.invariant (P := fun x => Keeps limit secs soft x.state) (C := fun _ => True)
    (fun _ _ => trivial) (fun e hstep _ hpre => ?_) hs
  rw [(dmcStep_eq (hpre.limit.symm ▸ hlimit) rfl hstep).1]
  exact hpre.counted _

/-- **A stretch of calls of which only the first may open a window** lets no more through than
the limit. -/
theorem countP_window_le (hlimit : 0 < limit)
    (hs : Keeps limit secs soft s.state) (hrun : Run DmcStep s w t)
    (htail : ∀ e ∈ w.tail, ¬ OpensWindow e) : w.countP letThrough ≤ limit := by
  cases w with
  | nil => exact Nat.zero_le _
  | cons e w =>
    obtain ⟨hnil, hstep, hrest⟩ := Run.at_event (f := []) hrun
    have hpre : e.pre = s := hnil.eq_of_nil
    have hkeeps : Keeps limit secs soft e.pre.state := hpre ▸ hs
    obtain ⟨hpost, hanswer⟩ := dmcStep_eq (hkeeps.limit.symm ▸ hlimit) rfl hstep
    have hfirst : Keeps limit secs soft e.post.state := by
      rw [hpost]
      exact hkeeps.counted _
    have hpaid := hrest.paid_le (P := fun x => Keeps limit secs soft x.state)
      (w := paidCalls letThrough) (Φ := fun x => limit - x.state.count)
      (C := fun e => ¬ OpensWindow e) htail hfirst (fun e' hstep' hnot hkeeps' => by
        obtain ⟨hpost', hanswer'⟩ := dmcStep_eq (hkeeps'.limit.symm ▸ hlimit) rfl hstep'
        have hcount := (DmcLimiter.counted_of_not_opens hnot).2
        refine ⟨by rw [hpost']; exact hkeeps'.counted _, ?_⟩
        rw [hpost', hcount]
        unfold paidCalls
        split_ifs with hyes
        · rw [hanswer'] at hyes
          have hle := DmcLimiter.count_le_of_answer hyes
          rw [hcount, (hkeeps'.counted _).limit] at hle
          omega
        · omega)
    rw [sum_paidCalls] at hpaid
    rw [List.countP_cons]
    have hcount := e.pre.state.count_pos e.label.1
    rw [← hpost] at hcount
    split_ifs with hyes
    · rw [hanswer] at hyes
      have hle := DmcLimiter.count_le_of_answer hyes
      rw [← hpost, hfirst.limit] at hle
      omega
    · omega

/-- A window has counted all its calls. -/
theorem count_window (hlimit : 0 < limit)
    (hs : Keeps limit secs soft s.state) (hrun : Run DmcStep s w t)
    (hfirst : s.state.count = 0 ∨ ∀ e ∈ w.head?, OpensWindow e)
    (htail : ∀ e ∈ w.tail, ¬ OpensWindow e) (hne : w ≠ []) : t.state.count = w.length := by
  induction hrun with
  | nil => exact absurd rfl hne
  | @snoc t u l w hrun hstep ih =>
    have hkeeps := keeps_of_run hlimit hrun hs
    have hpost : u.state = t.state.counted l.1 :=
      (dmcStep_eq (e := ⟨t, l, u⟩) (hkeeps.limit.symm ▸ hlimit) rfl hstep).1
    cases w with
    | nil =>
      have hst : t = s := hrun.eq_of_nil
      rw [hpost]
      by_cases hopens : t.state.Opens l.1
      · exact (DmcLimiter.counted_of_opens hopens).2
      · rw [(DmcLimiter.counted_of_not_opens hopens).2]
        rcases hfirst with hzero | hhead
        · rw [hst, hzero]
          rfl
        · exact absurd (hhead ⟨t, l, u⟩ rfl) hopens
    | cons e w =>
      have hopens : ¬ t.state.Opens l.1 :=
        htail ⟨t, l, u⟩ (List.mem_append_right w (List.mem_singleton_self _))
      rw [hpost, (DmcLimiter.counted_of_not_opens hopens).2,
        ih hfirst (fun e' he' => htail e' (List.mem_append_left _ he'))
          (List.cons_ne_nil _ _), List.length_append]
      rfl

/-! ### Intervals -/

/-- After a call the clock is within the window that the call fell in. -/
def InWindow (x : Timed ℚ DmcLimiter) : Prop :=
  x.state.count = 0 ∨ x.clock < x.state.start + x.state.secs

theorem inWindow_step (hlimit : 0 < e.pre.state.limit) (hsecs : 0 < e.pre.state.secs)
    (hstep : DmcStep e.pre e.label e.post) : InWindow e.post := by
  have hpost := (dmcStep_eq hlimit rfl hstep).1
  refine Or.inr ?_
  rw [hpost, hstep.clock_eq, (e.pre.state.counted_limit e.label.1).2.1]
  by_cases hopens : e.pre.state.Opens e.label.1
  · rw [(DmcLimiter.counted_of_opens hopens).1]
    have hpos : (0 : ℚ) < e.pre.state.secs := by exact_mod_cast hsecs
    linarith
  · rw [(DmcLimiter.counted_of_not_opens hopens).1]
    exact not_not.mp hopens

/-- What may still be let through in the interval from `t` on: the rest of this window, and one
more where the window was open before. -/
def leftIn (limit secs : ℕ) (t : ℚ) (x : Timed ℚ DmcLimiter) : ℕ :=
  if x.clock < t then 2 * limit
  else if t + secs < x.clock then 0
  else (limit - x.state.count) + if x.state.start ≤ t then limit else 0

/-- One call is paid for by what is left. -/
theorem leftIn_step {t : ℚ} (hlimit : 0 < limit)
    (hkeeps : Keeps limit secs soft e.pre.state) (hin : InWindow e.pre)
    (hstep : DmcStep e.pre e.label e.post) :
    paidCalls (letThroughIn (Set.Icc t (t + secs))) e + leftIn limit secs t e.post ≤
      leftIn limit secs t e.pre := by
  obtain ⟨hpost, hanswer⟩ := dmcStep_eq (hkeeps.limit.symm ▸ hlimit) rfl hstep
  have hclock : e.pre.clock ≤ e.label.1 := hstep.1
  have hsecs : (0 : ℚ) ≤ secs := Nat.cast_nonneg _
  by_cases hin' : e.label.1 ∈ Set.Icc t (t + secs)
  · obtain ⟨hfrom, hto⟩ := hin'
    have hleft : leftIn limit secs t e.post = (limit - e.post.state.count) +
        if e.post.state.start ≤ t then limit else 0 := by
      unfold leftIn
      rw [hstep.clock_eq, if_neg (not_lt.mpr hfrom), if_neg (not_lt.mpr hto)]
    have hcount : 1 ≤ e.post.state.count := by
      rw [hpost]
      exact e.pre.state.count_pos _
    have hpaid : paidCalls (letThroughIn (Set.Icc t (t + secs))) e + (limit - e.post.state.count) ≤
        limit - (e.post.state.count - 1) := by
      unfold paidCalls letThroughIn
      split_ifs with hyes
      · rw [hanswer] at hyes
        have hle := DmcLimiter.count_le_of_answer (Bool.and_eq_true_iff.mp hyes).1
        rw [← hpost, (hpost ▸ hkeeps.counted _ : Keeps limit secs soft e.post.state).limit] at hle
        omega
      · omega
    rw [hleft]
    by_cases hbefore : e.pre.clock < t
    · have hpre : leftIn limit secs t e.pre = 2 * limit := if_pos hbefore
      rw [hpre]
      split_ifs <;> omega
    · have hpre : leftIn limit secs t e.pre = (limit - e.pre.state.count) +
          if e.pre.state.start ≤ t then limit else 0 := by
        unfold leftIn
        rw [if_neg hbefore, if_neg (not_lt.mpr (hclock.trans hto))]
      rw [hpre]
      by_cases hopens : e.pre.state.Opens e.label.1
      · obtain ⟨hstart, hone⟩ := DmcLimiter.counted_of_opens hopens
        rw [← hpost] at hstart hone
        have hover : e.pre.state.start + secs ≤ e.label.1 := by
          rw [← hkeeps.secs]
          exact not_lt.mp hopens
        rw [if_pos (by linarith : e.pre.state.start ≤ t)]
        rw [hone] at hpaid ⊢
        rw [hstart]
        split_ifs with hnow
        · -- the interval starts with this call, so no call was counted yet
          have hzero : e.pre.state.count = 0 := by
            refine hin.resolve_right (fun hlt => ?_)
            rw [hkeeps.secs] at hlt
            have hge := not_lt.mp hbefore
            linarith
          rw [hzero]
          omega
        · omega
      · obtain ⟨hstart, hnext⟩ := DmcLimiter.counted_of_not_opens hopens
        rw [← hpost] at hstart hnext
        rw [hstart]
        rw [hnext] at hpaid ⊢
        split_ifs <;> omega
  · have hnot : paidCalls (letThroughIn (Set.Icc t (t + secs))) e = 0 := by
      unfold paidCalls letThroughIn
      rw [decide_eq_false hin', Bool.and_false]
      rfl
    rw [hnot, zero_add]
    unfold leftIn
    rw [hstep.clock_eq]
    by_cases hnow : e.label.1 < t
    · rw [if_pos hnow, if_pos (hclock.trans_lt hnow)]
    · have hlate : t + secs < e.label.1 := by
        refine not_le.mp (fun hto => hin' ⟨not_lt.mp hnow, hto⟩)
      rw [if_neg hnow, if_pos hlate]
      exact Nat.zero_le _

theorem countP_interval_le {x : Timed ℚ DmcLimiter} (hlimit : 0 < limit)
    (hsecs : 0 < secs) (hs : Keeps limit secs soft s.state) (hin : InWindow s)
    (hrun : Run DmcStep s h x) (t : ℚ) :
    h.countP (letThroughIn (Set.Icc t (t + secs))) ≤ 2 * limit := by
  have hpaid := hrun.paid_le (P := fun x => Keeps limit secs soft x.state ∧ InWindow x)
    (w := paidCalls (letThroughIn (Set.Icc t (t + secs)))) (Φ := leftIn limit secs t)
    (C := fun _ => True) (fun _ _ => trivial) ⟨hs, hin⟩ (fun e hstep _ hpre => by
      have hl : 0 < e.pre.state.limit := hpre.1.limit.symm ▸ hlimit
      refine ⟨⟨?_, inWindow_step hl (hpre.1.secs.symm ▸ hsecs) hstep⟩,
        leftIn_step hlimit hpre.1 hpre.2 hstep⟩
      rw [(dmcStep_eq hl rfl hstep).1]
      exact hpre.1.counted _)
  rw [sum_paidCalls] at hpaid
  have hstart : leftIn limit secs t s ≤ 2 * limit := by
    unfold leftIn
    split_ifs <;> omega
  omega

/-- **The limiter over any run of calls**: at most the limit in a window, at most twice the limit
in an interval as long as a window, and the soft limit for the first calls of a window. -/
theorem dmc_limiter {start : ℚ} {calls : List DmcEvent} {x : Timed ℚ DmcLimiter}
    (hlimit : 0 < limit) (hrun : Run DmcStep ⟨start, { limit, secs, soft }⟩ calls x) :
    (∀ before w after, calls = before ++ w ++ after → (∀ e ∈ w.tail, ¬ OpensWindow e) →
      w.countP letThrough ≤ limit ∧
      ((before = [] ∨ ∀ e ∈ w.head?, OpensWindow e) → 0 < soft → soft < limit →
        ∀ e ∈ w.take soft, letThrough e = true)) ∧
    (∀ t, calls.countP (letThroughIn (Set.Ico t (t + secs))) ≤ 2 * limit) ∧
    (0 < secs → ∀ t, calls.countP (letThroughIn (Set.Icc t (t + secs))) ≤ 2 * limit) ∧
    (∀ now rnd rnd', rnd ≤ rnd' → (x.state.allow now rnd').2 = true →
      (x.state.allow now rnd).2 = true) ∧
    ∀ now rnd, x.state.allowChecked now rnd = some (x.state.allow now rnd) := by
  have hnew : Keeps limit secs soft ({ limit, secs, soft } : DmcLimiter) := ⟨rfl, rfl, rfl⟩
  have hclosed : 0 < secs →
      ∀ t, calls.countP (letThroughIn (Set.Icc t (t + secs))) ≤ 2 * limit :=
    fun hsecs t => countP_interval_le hlimit hsecs hnew (Or.inl rfl) hrun t
  refine ⟨?_, ?_, hclosed, fun now rnd rnd' hle h => DmcLimiter.allow_anti hle h,
    fun now rnd => DmcLimiter.allowChecked_eq _ now rnd⟩
  · intro before w after hcalls htail
    rw [hcalls] at hrun
    obtain ⟨y, hleft, -⟩ := hrun.split
    obtain ⟨s, hbefore, hw⟩ := hleft.split
    have hs : Keeps limit secs soft s.state := keeps_of_run hlimit hbefore hnew
    refine ⟨countP_window_le hlimit hs hw htail, fun hfirst hsoft hlt e he => ?_⟩
    obtain ⟨i, hi, hget⟩ := List.mem_iff_getElem.mp he
    -- the calls of the window up to this one
    have hlen : i < w.length ∧ i < soft := by
      rw [List.length_take] at hi
      omega
    have hcut : w = w.take i ++ e :: w.drop (i + 1) := by
      rw [← hget, List.getElem_take, List.cons_getElem_drop_succ, List.take_append_drop]
    have hfirst' : s.state.count = 0 ∨ ∀ e ∈ w.head?, OpensWindow e := by
      rcases hfirst with hnone | hopens
      · rw [hnone] at hbefore
        rw [hbefore.eq_of_nil]
        exact Or.inl rfl
      · exact Or.inr hopens
    have hwi : w = (w.take i ++ [e]) ++ w.drop (i + 1) := by
      rw [List.append_assoc]
      exact hcut
    have hupto : ∃ z, Run DmcStep s (w.take i ++ [e]) z := by
      rw [hwi] at hw
      obtain ⟨z, hz, -⟩ := hw.split
      exact ⟨z, hz⟩
    obtain ⟨z, hz⟩ := hupto
    have hne : w.take i ++ [e] ≠ [] := by
      intro hnil
      exact absurd (List.append_eq_nil_iff.mp hnil).2 (List.cons_ne_nil _ _)
    have hcount := count_window hlimit hs hz (hfirst'.imp id (fun hopens e' he' => hopens e' (by
        rw [hwi, List.head?_append_of_ne_nil _ hne]
        exact he')))
      (fun e' he' => htail e' (by
        rw [hwi, List.tail_append_of_ne_nil hne]
        exact List.mem_append_left _ he')) hne
    have hlast := hz.at_event (g := [])
    have hkeeps : Keeps limit secs soft e.pre.state := keeps_of_run hlimit hlast.1 hs
    obtain ⟨hpost, hanswer⟩ := dmcStep_eq (hkeeps.limit.symm ▸ hlimit) rfl hlast.2.1
    have hend : e.post = z := hz.post_of_getLast List.getLast?_concat
    have hkeeps' := hkeeps.counted e.label.1
    rw [hanswer]
    refine DmcLimiter.answer_of_soft ?_ ?_ ?_ _
    · rw [hkeeps'.soft]
      exact hsoft
    · rw [hkeeps'.soft, hkeeps'.limit]
      exact hlt
    · rw [hkeeps'.soft, ← hpost, hend, hcount, List.length_append, List.length_take]
      show min i w.length + 1 ≤ soft
      omega
  · intro t
    rcases Nat.eq_zero_or_pos secs with hzero | hpos
    · have hnone : calls.countP (letThroughIn (Set.Ico t (t + secs))) = 0 := by
        refine List.countP_eq_zero.mpr (fun e _ hyes => ?_)
        have hmem := of_decide_eq_true (Bool.and_eq_true_iff.mp hyes).2
        rw [hzero, Nat.cast_zero, add_zero, Set.Ico_self] at hmem
        exact hmem
      rw [hnone]
      exact Nat.zero_le _
    · refine le_trans (List.countP_mono_left (fun e _ hyes => ?_)) (hclosed hpos t)
      obtain ⟨hlet, hmem⟩ := Bool.and_eq_true_iff.mp hyes
      have hmem' := of_decide_eq_true hmem
      exact Bool.and_eq_true_iff.mpr ⟨hlet, decide_eq_true ⟨hmem'.1, hmem'.2.le⟩⟩

/-- Two calls a minute, the first of them whatever the draw. -/
theorem dmc_limiter_minute :
    (({ limit := 2, secs := 60, soft := 1 } : DmcLimiter).allow 100 255).2 = true := by
  have hrun : Run DmcStep ⟨0, { limit := 2, secs := 60, soft := 1 }⟩ _ _ :=
    (Run.nil _).snoc (l := ((100 : ℚ), 255)) ⟨by norm_num, rfl⟩
  have hwindow := (dmc_limiter (by decide) hrun).1 [] _ [] (List.append_nil _).symm
    (fun e he => absurd he List.not_mem_nil)
  exact hwindow.2 (Or.inl rfl) (by decide) (by decide) _ (List.mem_singleton_self _)

end RtfmEv.HostRepeater
