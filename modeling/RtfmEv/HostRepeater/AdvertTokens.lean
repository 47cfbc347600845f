import RtfmEv.HostRepeater.Engine
import RtfmEv.Lib.Run

/-!
# The advert token bucket over its calls

A call touches the bucket of its own key and leaves the others as they are, but for those that are
cleaned up or pushed out. The bucket of a key is refilled in whole steps from its last refill.
-/

namespace RtfmEv.HostRepeater

open RtfmEv.Lib

namespace AdvertLimiter

/-- The four settings of a limiter. -/
structure Configured (capacity refillTokens refillSeconds minInterval : ℚ) (l : AdvertLimiter) :
    Prop where
  capacity : l.capacity = capacity
  refillTokens : l.refillTokens = refillTokens
  refillSeconds : l.refillSeconds = refillSeconds
  minInterval : l.minInterval = minInterval

/-- A bucket after its refill. -/
def refilled (l : AdvertLimiter) (b : AdvertBucket) (now : ℚ) : AdvertBucket :=
  if now - b.lastRefill ≥ l.refillSeconds then
    { b with tokens := min l.capacity
               (b.tokens + ⌊(now - b.lastRefill) / l.refillSeconds⌋ * l.refillTokens)
             lastRefill := b.lastRefill +
               ⌊(now - b.lastRefill) / l.refillSeconds⌋ * l.refillSeconds }
  else b

/-- The bucket that a call of the key meets. -/
def touched (l : AdvertLimiter) (key : Bytes) (now : ℚ) : AdvertBucket :=
  match (l.cleanup now).state.get? key with
  | none => ⟨l.capacity, now, -1⟩
  | some b => l.refilled b now

/-- The answer for a bucket. -/
def grants (l : AdvertLimiter) (b : AdvertBucket) (now : ℚ) : Bool :=
  Decidable.decide (¬ (l.minInterval > 0 ∧ b.lastSeen ≥ 0 ∧ now - b.lastSeen < l.minInterval) ∧
    ¬ b.tokens < 1)

/-- The bucket without the token of an allowed advert. -/
def spent (b : AdvertBucket) (now : ℚ) : AdvertBucket :=
  { b with tokens := b.tokens - 1, lastSeen := now }

variable {capacity refillTokens refillSeconds minInterval : ℚ} {l : AdvertLimiter} {key : Bytes}
  {b : AdvertBucket} {now : ℚ} {limit : ℚ}

theorem cleanup_settings (l : AdvertLimiter) (now : ℚ) :
    (l.cleanup now).capacity = l.capacity ∧ (l.cleanup now).refillTokens = l.refillTokens ∧
      (l.cleanup now).refillSeconds = l.refillSeconds ∧
      (l.cleanup now).minInterval = l.minInterval := by
  unfold cleanup
  split_ifs <;> exact ⟨rfl, rfl, rfl, rfl⟩

theorem cleanup_get? (l : AdvertLimiter) (now : ℚ) (key : Bytes) :
    (l.cleanup now).state.get? key = none ∨
      (l.cleanup now).state.get? key = l.state.get? key := by
  unfold cleanup
  split_ifs
  · exact Or.inr rfl
  · show (l.state.eraseIf _).get? key = none ∨ (l.state.eraseIf _).get? key = l.state.get? key
    rw [OrderedDict.get?_eraseIf]
    cases l.state.get? key with
    | none => exact Or.inl rfl
    | some b =>
      rw [Option.filter_some]
      split_ifs
      · exact Or.inr rfl
      · exact Or.inl rfl

theorem trim_get? {α β : Type*} [DecidableEq α] (d : OrderedDict α β) (n : ℕ) (k : α) :
    (d.trim n).get? k = none ∨ (d.trim n).get? k = d.get? k := by
  cases hget : (d.trim n).get? k with
  | none => exact Or.inl rfl
  | some v =>
    have hmem : (k, v) ∈ d.entries :=
      List.mem_of_mem_drop (OrderedDict.get?_eq_some_iff.mp hget)
    exact Or.inr (OrderedDict.get?_eq_some_iff.mpr hmem).symm

theorem trim_set_get? {α β : Type*} [DecidableEq α] {d : OrderedDict α β} {n : ℕ} {k : α} (v : β)
    (hnew : d.get? k = none) (hn : 0 < n) : ((d.set k v).trim n).get? k = some v := by
  have habsent : k ∉ d.keys := OrderedDict.get?_eq_none_iff.mp hnew
  refine OrderedDict.get?_eq_some_iff.mpr ?_
  unfold OrderedDict.trim OrderedDict.set
  rw [if_neg habsent]
  show (k, v) ∈ ((d.erase k).entries ++ [(k, v)]).drop
    (((d.erase k).entries ++ [(k, v)]).length - n)
  rw [List.drop_append_of_le_length (by rw [List.length_append, List.length_singleton]; omega)]
  exact List.mem_concat_self

/-! ### One call -/

theorem bucketOf_self (l : AdvertLimiter) (key : Bytes) (now : ℚ) :
    ((l.cleanup now).bucketOf key now).2 = l.touched key now ∧
      ((l.cleanup now).bucketOf key now).1.state.get? key = some (l.touched key now) := by
  obtain ⟨hcap, htokens, hsecs, -⟩ := l.cleanup_settings now
  unfold bucketOf touched
  cases hget : (l.cleanup now).state.get? key with
  | none =>
    dsimp only
    rw [hcap]
    exact ⟨rfl, trim_set_get? _ hget (by decide)⟩
  | some b =>
    have hsame : (if now - b.lastRefill ≥ (l.cleanup now).refillSeconds then
        { b with tokens := min (l.cleanup now).capacity (b.tokens +
                   ⌊(now - b.lastRefill) / (l.cleanup now).refillSeconds⌋ *
                     (l.cleanup now).refillTokens)
                 lastRefill := b.lastRefill +
                   ⌊(now - b.lastRefill) / (l.cleanup now).refillSeconds⌋ *
                     (l.cleanup now).refillSeconds }
        else b) = l.refilled b now := by
      rw [hcap, htokens, hsecs]
      rfl
    dsimp only
    rw [hsame]
    exact ⟨rfl, OrderedDict.get?_set_self _ _ _⟩

theorem bucketOf_other (l : AdvertLimiter) {key key' : Bytes} (hne : key' ≠ key) (now : ℚ) :
    (l.bucketOf key now).1.state.get? key' = none ∨
      (l.bucketOf key now).1.state.get? key' = l.state.get? key' := by
  unfold bucketOf
  cases hget : l.state.get? key with
  | none =>
    dsimp only
    rcases trim_get? (l.state.set key ⟨l.capacity, now, -1⟩) advertLimiterMaxKeys key' with
      hnone | hsame
    · exact Or.inl hnone
    · exact Or.inr (hsame.trans (OrderedDict.get?_set_of_ne hne))
  | some b =>
    dsimp only
    refine Or.inr ?_
    rw [OrderedDict.get?_set_of_ne hne, OrderedDict.get?_moveToEnd]

theorem bucketOf_fst (l : AdvertLimiter) (key : Bytes) (now : ℚ) :
    ∃ state, (l.bucketOf key now).1 = { l with state := state } := by
  unfold bucketOf
  split
  · exact ⟨_, rfl⟩
  · exact ⟨_, rfl⟩

theorem bucketOf_settings (l : AdvertLimiter) (key : Bytes) (now : ℚ) :
    (l.bucketOf key now).1.capacity = l.capacity ∧
      (l.bucketOf key now).1.refillTokens = l.refillTokens ∧
      (l.bucketOf key now).1.refillSeconds = l.refillSeconds ∧
      (l.bucketOf key now).1.minInterval = l.minInterval := by
  obtain ⟨state, hstate⟩ := l.bucketOf_fst key now
  rw [hstate]
  exact ⟨rfl, rfl, rfl, rfl⟩

/-- **A call and the bucket of its key.** -/
theorem allow_self (l : AdvertLimiter) (key : Bytes) (now : ℚ) :
    (l.allow key now).2 = l.grants (l.touched key now) now ∧
      (l.allow key now).1.state.get? key =
        some (if l.grants (l.touched key now) now then spent (l.touched key now) now
          else l.touched key now) := by
  obtain ⟨htouched, hget⟩ := l.bucketOf_self key now
  have hmin : ((l.cleanup now).bucketOf key now).1.minInterval = l.minInterval :=
    (bucketOf_settings _ _ _).2.2.2.trans (l.cleanup_settings now).2.2.2
  unfold allow grants
  generalize (l.cleanup now).bucketOf key now = r at htouched hget hmin ⊢
  obtain ⟨l', b⟩ := r
  dsimp only at htouched hget hmin ⊢
  rw [htouched, hmin]
  by_cases hsoon : l.minInterval > 0 ∧ (l.touched key now).lastSeen ≥ 0 ∧
      now - (l.touched key now).lastSeen < l.minInterval
  · rw [if_pos hsoon, decide_eq_false (fun h => h.1 hsoon)]
    exact ⟨rfl, hget⟩
  · rw [if_neg hsoon]
    by_cases hempty : (l.touched key now).tokens < 1
    · rw [if_pos hempty, decide_eq_false (fun h => h.2 hempty)]
      exact ⟨rfl, hget⟩
    · rw [if_neg hempty, decide_eq_true ⟨hsoon, hempty⟩]
      exact ⟨rfl, OrderedDict.get?_set_self _ _ _⟩

/-- **A call and the bucket of another key.** -/
theorem allow_other (l : AdvertLimiter) {key key' : Bytes} (hne : key' ≠ key) (now : ℚ) :
    (l.allow key now).1.state.get? key' = none ∨
      (l.allow key now).1.state.get? key' = l.state.get? key' := by
  have hcalled : (l.allow key now).1.state.get? key' =
      ((l.cleanup now).bucketOf key now).1.state.get? key' := by
    unfold allow
    dsimp only
    split_ifs
    · rfl
    · rfl
    · exact OrderedDict.get?_set_of_ne hne
  rw [hcalled]
  rcases (l.cleanup now).bucketOf_other hne now with hnone | hsame
  · exact Or.inl hnone
  · rw [hsame]
    exact l.cleanup_get? now key'

theorem Configured.allow (h : Configured capacity refillTokens refillSeconds minInterval l)
    (key : Bytes) (now : ℚ) :
    Configured capacity refillTokens refillSeconds minInterval (l.allow key now).1 := by
  obtain ⟨h1, h2, h3, h4⟩ := bucketOf_settings (l.cleanup now) key now
  obtain ⟨g1, g2, g3, g4⟩ := l.cleanup_settings now
  unfold AdvertLimiter.allow
  dsimp only
  split_ifs <;> exact ⟨h1.trans (g1.trans h.capacity), h2.trans (g2.trans h.refillTokens),
    h3.trans (g3.trans h.refillSeconds), h4.trans (g4.trans h.minInterval)⟩

/-! ### The refill -/

/-- A bucket between empty and full that was refilled in the past. -/
structure BucketOk (capacity : ℚ) (b : AdvertBucket) (clock : ℚ) : Prop where
  nonneg : 0 ≤ b.tokens
  le_capacity : b.tokens ≤ capacity
  lastRefill_le : b.lastRefill ≤ clock

/-- **The steps of a refill**: as many as have passed whole. -/
theorem refilled_eq (h : Configured capacity refillTokens refillSeconds minInterval l)
    (hsecs : 0 < refillSeconds) (hb : BucketOk capacity b now) :
    l.refilled b now =
      ⟨min capacity (b.tokens + ⌊(now - b.lastRefill) / refillSeconds⌋ * refillTokens),
        b.lastRefill + ⌊(now - b.lastRefill) / refillSeconds⌋ * refillSeconds, b.lastSeen⟩ := by
  have hsome : 0 ≤ (now - b.lastRefill) / refillSeconds :=
    div_nonneg (by linarith [hb.lastRefill_le]) hsecs.le
  unfold refilled
  rw [h.capacity, h.refillTokens, h.refillSeconds]
  split_ifs with hstep
  · rfl
  · have hzero : ⌊(now - b.lastRefill) / refillSeconds⌋ = 0 := by
      rw [Int.floor_eq_zero_iff]
      refine ⟨hsome, ?_⟩
      rw [div_lt_one hsecs]
      exact not_le.mp hstep
    rw [hzero, Int.cast_zero, zero_mul, zero_mul, add_zero, add_zero, min_eq_right hb.le_capacity]

/-- What a bucket can give up to `limit`, when it is refilled at `now`. -/
def outlook (capacity refillTokens refillSeconds limit : ℚ) (b : AdvertBucket) (now : ℚ) : ℚ :=
  min capacity (b.tokens + ⌊(now - b.lastRefill) / refillSeconds⌋ * refillTokens) +
    ⌊(limit - (b.lastRefill + ⌊(now - b.lastRefill) / refillSeconds⌋ * refillSeconds)) /
      refillSeconds⌋ * refillTokens

/-- The steps that are left after some were taken. -/
theorem floor_sub_steps {x y d : ℚ} (hd : 0 < d) (n : ℤ) :
    ⌊(x - (y + n * d)) / d⌋ = ⌊(x - y) / d⌋ - n := by
  have hsplit : (x - (y + n * d)) / d = (x - y) / d - n := by
    field_simp
    ring
  rw [hsplit, Int.floor_sub_intCast]

/-- **The outlook only falls with time.** -/
theorem outlook_le (hsecs : 0 < refillSeconds) (htokens : 0 ≤ refillTokens)
    (b : AdvertBucket) {later : ℚ} (hle : now ≤ later) :
    outlook capacity refillTokens refillSeconds limit b later ≤
      outlook capacity refillTokens refillSeconds limit b now := by
  have hfloor : ⌊(now - b.lastRefill) / refillSeconds⌋ ≤
      ⌊(later - b.lastRefill) / refillSeconds⌋ :=
    Int.floor_le_floor (div_le_div_of_nonneg_right (by linarith) hsecs.le)
  unfold outlook
  rw [floor_sub_steps hsecs, floor_sub_steps hsecs]
  generalize ⌊(now - b.lastRefill) / refillSeconds⌋ = m at hfloor ⊢
  generalize ⌊(later - b.lastRefill) / refillSeconds⌋ = n at hfloor ⊢
  generalize ⌊(limit - b.lastRefill) / refillSeconds⌋ = k
  have hcast : (m : ℚ) ≤ n := by exact_mod_cast hfloor
  have hmore := mul_le_mul_of_nonneg_right hcast htokens
  have hmin : min capacity (b.tokens + n * refillTokens) ≤
      min capacity (b.tokens + m * refillTokens) + (n * refillTokens - m * refillTokens) := by
    rw [← min_add_add_right]
    exact min_le_min (by linarith) (by linarith)
  rw [Int.cast_sub, Int.cast_sub, sub_mul, sub_mul]
  linarith

/-- A bucket that was refilled at `now` takes no step there. -/
theorem outlook_refilled (h : Configured capacity refillTokens refillSeconds minInterval l)
    (hsecs : 0 < refillSeconds)
    (hb : BucketOk capacity b now) (tokens lastSeen : ℚ) (hle : tokens ≤ capacity) :
    outlook capacity refillTokens refillSeconds limit
        ⟨tokens, (l.refilled b now).lastRefill, lastSeen⟩ now =
      tokens + ⌊(limit - (l.refilled b now).lastRefill) / refillSeconds⌋ * refillTokens := by
  rw [refilled_eq h hsecs hb]
  unfold outlook
  dsimp only
  have hnone : ⌊(now - (b.lastRefill + ⌊(now - b.lastRefill) / refillSeconds⌋ * refillSeconds)) /
      refillSeconds⌋ = 0 := by
    rw [floor_sub_steps hsecs, sub_self]
  rw [hnone, Int.cast_zero, zero_mul, zero_mul, add_zero, add_zero, min_eq_right hle]

theorem BucketOk.refilled (h : Configured capacity refillTokens refillSeconds minInterval l)
    (hsecs : 0 < refillSeconds) (htokens : 0 ≤ refillTokens)
    (hb : BucketOk capacity b now) : BucketOk capacity (l.refilled b now) now := by
  have hsteps : 0 ≤ ⌊(now - b.lastRefill) / refillSeconds⌋ :=
    Int.floor_nonneg.mpr (div_nonneg (by linarith [hb.lastRefill_le]) hsecs.le)
  have hcast : (0 : ℚ) ≤ ⌊(now - b.lastRefill) / refillSeconds⌋ := by exact_mod_cast hsteps
  rw [refilled_eq h hsecs hb]
  refine ⟨?_, min_le_left _ _, ?_⟩
  · exact le_min (hb.nonneg.trans hb.le_capacity) (add_nonneg hb.nonneg (mul_nonneg hcast htokens))
  · have hfloor := Int.floor_le ((now - b.lastRefill) / refillSeconds)
    have hscaled := mul_le_mul_of_nonneg_right hfloor hsecs.le
    rw [div_mul_cancel₀ _ hsecs.ne'] at hscaled
    show b.lastRefill + _ ≤ now
    linarith

/-- A bucket between empty and full can give no less than nothing. -/
theorem outlook_nonneg (hsecs : 0 < refillSeconds) (htokens : 0 ≤ refillTokens)
    (hb : BucketOk capacity b now) (hnow : now ≤ limit) :
    0 ≤ outlook capacity refillTokens refillSeconds limit b now := by
  have hgap : 0 ≤ now - b.lastRefill := by linarith [hb.lastRefill_le]
  have hsteps : 0 ≤ ⌊(now - b.lastRefill) / refillSeconds⌋ :=
    Int.floor_nonneg.mpr (div_nonneg hgap hsecs.le)
  have hmore : ⌊(now - b.lastRefill) / refillSeconds⌋ ≤ ⌊(limit - b.lastRefill) / refillSeconds⌋ :=
    Int.floor_le_floor (div_le_div_of_nonneg_right (by linarith) hsecs.le)
  unfold outlook
  rw [floor_sub_steps hsecs]
  have hcast : (0 : ℚ) ≤ ⌊(now - b.lastRefill) / refillSeconds⌋ := by exact_mod_cast hsteps
  have hleft : (0 : ℚ) ≤ ((⌊(limit - b.lastRefill) / refillSeconds⌋ -
      ⌊(now - b.lastRefill) / refillSeconds⌋ : ℤ) : ℚ) := by exact_mod_cast sub_nonneg.mpr hmore
  exact add_nonneg (le_min (hb.nonneg.trans hb.le_capacity)
    (add_nonneg hb.nonneg (mul_nonneg hcast htokens))) (mul_nonneg hleft htokens)

/-- No bucket can give more in an interval than it holds and what flows in. -/
theorem outlook_le_bound {t T : ℚ} (hsecs : 0 < refillSeconds) (htokens : 0 ≤ refillTokens)
    (b : AdvertBucket) (hnow : t ≤ now) :
    outlook capacity refillTokens refillSeconds (t + T) b now ≤
      capacity + refillTokens * (⌊T / refillSeconds⌋ + 1) := by
  have hlast : now - refillSeconds <
      b.lastRefill + ⌊(now - b.lastRefill) / refillSeconds⌋ * refillSeconds := by
    have hfloor := Int.lt_floor_add_one ((now - b.lastRefill) / refillSeconds)
    have hscaled := mul_lt_mul_of_pos_right hfloor hsecs
    rw [div_mul_cancel₀ _ hsecs.ne', add_mul, one_mul] at hscaled
    linarith
  have hsteps : ⌊(t + T - (b.lastRefill + ⌊(now - b.lastRefill) / refillSeconds⌋ *
      refillSeconds)) / refillSeconds⌋ ≤ ⌊T / refillSeconds⌋ + 1 := by
    rw [← Int.floor_add_one]
    refine Int.floor_le_floor ?_
    rw [div_add_one hsecs.ne']
    exact div_le_div_of_nonneg_right (by linarith) hsecs.le
  have hcast : ((⌊(t + T - (b.lastRefill + ⌊(now - b.lastRefill) / refillSeconds⌋ *
      refillSeconds)) / refillSeconds⌋ : ℤ) : ℚ) ≤ ⌊T / refillSeconds⌋ + 1 := by
    exact_mod_cast hsteps
  unfold outlook
  have hflow := mul_le_mul_of_nonneg_right hcast htokens
  have hcap : min capacity (b.tokens + ⌊(now - b.lastRefill) / refillSeconds⌋ * refillTokens) ≤
      capacity := min_le_left _ _
  linarith

/-- The bucket that a call leaves. -/
def left (l : AdvertLimiter) (b : AdvertBucket) (now : ℚ) : AdvertBucket :=
  if l.grants b now then spent b now else b

theorem one_le_of_grants (h : l.grants b now = true) :
    1 ≤ b.tokens :=
  not_lt.mp (of_decide_eq_true h).2

/-- **A call is paid for by the outlook.** -/
theorem outlook_left (h : Configured capacity refillTokens refillSeconds minInterval l)
    (hsecs : 0 < refillSeconds) (htokens : 0 ≤ refillTokens)
    (limit : ℚ) (hb : BucketOk capacity b now) :
    (if l.grants (l.refilled b now) now then (1 : ℚ) else 0) +
        outlook capacity refillTokens refillSeconds limit (l.left (l.refilled b now) now) now =
      outlook capacity refillTokens refillSeconds limit b now := by
  have hle := (hb.refilled h hsecs htokens).le_capacity
  have hstart : outlook capacity refillTokens refillSeconds limit b now =
      (l.refilled b now).tokens +
        ⌊(limit - (l.refilled b now).lastRefill) / refillSeconds⌋ * refillTokens := by
    rw [refilled_eq h hsecs hb]
    rfl
  unfold left
  by_cases hgrants : l.grants (l.refilled b now) now = true
  · rw [if_pos hgrants, if_pos hgrants, hstart]
    unfold spent
    rw [outlook_refilled h hsecs hb ((l.refilled b now).tokens - 1) now (by linarith)]
    ring
  · rw [if_neg hgrants, if_neg hgrants, hstart, zero_add]
    exact outlook_refilled h hsecs hb _ (l.refilled b now).lastSeen hle

theorem BucketOk.left (l : AdvertLimiter)
    (hb : BucketOk capacity b now) : BucketOk capacity (l.left b now) now := by
  unfold AdvertLimiter.left
  split_ifs with hgrants
  · have hone := one_le_of_grants hgrants
    refine ⟨?_, ?_, hb.lastRefill_le⟩
    · show 0 ≤ b.tokens - 1
      linarith
    · show b.tokens - 1 ≤ capacity
      linarith [hb.le_capacity]
  · exact hb

end AdvertLimiter

open AdvertLimiter

/-! ### Runs -/

abbrev TokenEvent := Event (Timed ℚ AdvertLimiter) (ℚ × Bytes)

abbrev TokenStep : Timed ℚ AdvertLimiter → ℚ × Bytes → Timed ℚ AdvertLimiter → Prop :=
  Ticks (fun l now key => (l.allow key now).1)

/-- The bucket of the key, as long as there is one. -/
def bucket (x : Timed ℚ AdvertLimiter) (key : Bytes) : Option AdvertBucket := x.state.state.get? key

/-- The call neither cleans the key up nor pushes it out. -/
def KeepsKey (key : Bytes) (e : TokenEvent) : Prop :=
  (bucket e.pre key).isSome → ((e.pre.state.cleanup e.label.1).state.get? key).isSome ∧
    (bucket e.post key).isSome

/-- The call lets an advert of the key through. -/
def allowed (key : Bytes) (e : TokenEvent) : Bool :=
  Decidable.decide (e.label.2 = key) && (e.pre.state.allow e.label.2 e.label.1).2

/-- It does so from `t` to `t + T`. -/
def allowedIn (key : Bytes) (t T : ℚ) (e : TokenEvent) : Bool :=
  allowed key e && Decidable.decide (t ≤ e.label.1 ∧ e.label.1 ≤ t + T)

variable {capacity refillTokens refillSeconds minInterval : ℚ} {key : Bytes} {e : TokenEvent}
  {x : Timed ℚ AdvertLimiter}

/-- The limiter of the run, with the bucket of the key in order. -/
structure TokensOk (capacity refillTokens refillSeconds minInterval : ℚ) (key : Bytes)
    (x : Timed ℚ AdvertLimiter) : Prop where
  configured : Configured capacity refillTokens refillSeconds minInterval x.state
  bucketOk : ∀ b, bucket x key = some b → BucketOk capacity b x.clock

theorem bucket_other (hstep : TokenStep e.pre e.label e.post)
    (hkeeps : KeepsKey key e) (hne : e.label.2 ≠ key) : bucket e.post key = bucket e.pre key := by
  have hpost : bucket e.post key =
      (e.pre.state.allow e.label.2 e.label.1).1.state.get? key := by
    unfold bucket
    rw [hstep.state_eq]
  have hor := e.pre.state.allow_other hne.symm e.label.1
  rw [← hpost] at hor
  rcases hor with hnone | hsame
  · cases hpre : bucket e.pre key with
    | none => exact hnone
    | some b =>
      have hsome := (hkeeps (by rw [hpre]; rfl)).2
      rw [hnone] at hsome
      cases hsome
  · exact hsame

/-- The bucket that the refill of a call starts from. -/
def basis (x : Timed ℚ AdvertLimiter) (now : ℚ) (key : Bytes) : AdvertBucket :=
  ((x.state.cleanup now).state.get? key).getD ⟨x.state.capacity, now, -1⟩

theorem refilled_basis {now : ℚ}
    (h : Configured capacity refillTokens refillSeconds minInterval x.state)
    (hsecs : 0 < refillSeconds) :
    x.state.refilled (basis x now key) now = x.state.touched key now := by
  unfold touched basis
  cases (x.state.cleanup now).state.get? key with
  | none =>
    rw [Option.getD_none]
    unfold refilled
    rw [sub_self, h.refillSeconds, if_neg (not_le.mpr hsecs)]
  | some b => rfl

theorem basis_ok {now : ℚ}
    (h : TokensOk capacity refillTokens refillSeconds minInterval key x) (hcap : 0 ≤ capacity)
    (hnow : x.clock ≤ now) : BucketOk capacity (basis x now key) now := by
  unfold basis
  cases hget : (x.state.cleanup now).state.get? key with
  | none =>
    rw [Option.getD_none, h.configured.capacity]
    exact ⟨hcap, le_rfl, le_rfl⟩
  | some b =>
    rw [Option.getD_some]
    have hb : bucket x key = some b := by
      rcases x.state.cleanup_get? now key with hnone | hsame
      · rw [hnone] at hget
        cases hget
      · exact hsame.symm.trans hget
    obtain ⟨h1, h2, h3⟩ := h.bucketOk b hb
    exact ⟨h1, h2, h3.trans hnow⟩

theorem basis_of_keeps {b : AdvertBucket} (hkeeps : KeepsKey key e)
    (hb : bucket e.pre key = some b) : basis e.pre e.label.1 key = b := by
  have hsome := (hkeeps (by rw [hb]; rfl)).1
  unfold basis
  rcases e.pre.state.cleanup_get? e.label.1 key with hnone | hsame
  · rw [hnone] at hsome
    cases hsome
  · rw [hsame, show e.pre.state.state.get? key = some b from hb, Option.getD_some]

/-- What a call of the key answers and leaves. -/
theorem tokenStep_self
    (h : Configured capacity refillTokens refillSeconds minInterval e.pre.state)
    (hsecs : 0 < refillSeconds) (hstep : TokenStep e.pre e.label e.post)
    (hkey : e.label.2 = key) :
    allowed key e = e.pre.state.grants (e.pre.state.refilled (basis e.pre e.label.1 key) e.label.1)
        e.label.1 ∧
      bucket e.post key = some (e.pre.state.left
        (e.pre.state.refilled (basis e.pre e.label.1 key) e.label.1) e.label.1) := by
  obtain ⟨hanswer, hleft⟩ := e.pre.state.allow_self key e.label.1
  rw [refilled_basis h hsecs]
  unfold allowed bucket
  rw [decide_eq_true hkey, Bool.true_and, hstep.state_eq, hkey]
  exact ⟨hanswer, hleft⟩

/-- **The limiter stays in order**, whatever is cleaned up. -/
theorem TokensOk.step
    (h : TokensOk capacity refillTokens refillSeconds minInterval key e.pre) (hcap : 0 ≤ capacity)
    (hsecs : 0 < refillSeconds) (htokens : 0 ≤ refillTokens)
    (hstep : TokenStep e.pre e.label e.post) :
    TokensOk capacity refillTokens refillSeconds minInterval key e.post := by
  refine ⟨?_, fun b hb => ?_⟩
  · rw [hstep.state_eq]
    exact h.configured.allow _ _
  · rw [hstep.clock_eq]
    by_cases hkey : e.label.2 = key
    · rw [(tokenStep_self h.configured hsecs hstep hkey).2] at hb
      rw [← Option.some.inj hb]
      exact ((basis_ok h hcap hstep.1).refilled h.configured hsecs htokens).left _
    · have hor := e.pre.state.allow_other (Ne.symm hkey) e.label.1
      unfold bucket at hb
      rw [hstep.state_eq] at hb
      rcases hor with hnone | hsame
      · rw [hnone] at hb
        cases hb
      · obtain ⟨h1, h2, h3⟩ := h.bucketOk b (hsame.symm.trans hb)
        exact ⟨h1, h2, h3.trans hstep.1⟩

/-! ### Intervals -/

/-- The most that an interval of the length `T` lets through. -/
def mostIn (capacity refillTokens refillSeconds T : ℚ) : ℚ :=
  capacity + refillTokens * (⌊T / refillSeconds⌋ + 1)

/-- What may still be let through from `t` to `t + T`. -/
def leftFor (capacity refillTokens refillSeconds : ℚ) (key : Bytes) (t T : ℚ)
    (x : Timed ℚ AdvertLimiter) : ℚ :=
  if x.clock < t then mostIn capacity refillTokens refillSeconds T
  else if t + T < x.clock then 0
  else (bucket x key).elim (mostIn capacity refillTokens refillSeconds T)
    (fun b => outlook capacity refillTokens refillSeconds (t + T) b x.clock)

section Interval

variable {t T : ℚ}

theorem mostIn_nonneg (hcap : 0 ≤ capacity) (hsecs : 0 < refillSeconds) (htokens : 0 ≤ refillTokens)
    (hT : 0 ≤ T) : 0 ≤ mostIn capacity refillTokens refillSeconds T := by
  have hsteps : 0 ≤ ⌊T / refillSeconds⌋ := Int.floor_nonneg.mpr (div_nonneg hT hsecs.le)
  have hcast : (0 : ℚ) ≤ ⌊T / refillSeconds⌋ := by exact_mod_cast hsteps
  exact add_nonneg hcap (mul_nonneg htokens (by linarith))

variable {x : Timed ℚ AdvertLimiter}

theorem leftFor_nonneg
    (h : TokensOk capacity refillTokens refillSeconds minInterval key x) (hcap : 0 ≤ capacity)
    (hsecs : 0 < refillSeconds) (htokens : 0 ≤ refillTokens) (hT : 0 ≤ T) :
    0 ≤ leftFor capacity refillTokens refillSeconds key t T x := by
  have hmost := mostIn_nonneg hcap hsecs htokens hT
  unfold leftFor
  split_ifs with hbefore hafter
  · exact hmost
  · exact le_rfl
  · cases hb : bucket x key with
    | none => exact hmost
    | some b => exact outlook_nonneg hsecs htokens (h.bucketOk b hb) (not_lt.mp hafter)

/-- What a bucket of the key can give at a call in the interval was left for it before. -/
theorem outlook_le_leftFor {b : AdvertBucket} {now : ℚ}
    (hsecs : 0 < refillSeconds) (htokens : 0 ≤ refillTokens)
    (hb : ∀ b', bucket x key = some b' → b = b') (hclock : x.clock ≤ now) (hfrom : t ≤ now)
    (hto : now ≤ t + T) :
    outlook capacity refillTokens refillSeconds (t + T) b now ≤
      leftFor capacity refillTokens refillSeconds key t T x := by
  have hbound : outlook capacity refillTokens refillSeconds (t + T) b now ≤
      mostIn capacity refillTokens refillSeconds T := outlook_le_bound hsecs htokens b hfrom
  unfold leftFor
  split_ifs with hbefore hafter
  · exact hbound
  · exact absurd (hclock.trans hto) (not_le.mpr hafter)
  · cases hget : bucket x key with
    | none => exact hbound
    | some b' =>
      rw [hb b' hget]
      exact outlook_le hsecs htokens b' hclock

/-- **One call is paid for by what is left.** -/
theorem leftFor_step {e : TokenEvent}
    (h : TokensOk capacity refillTokens refillSeconds minInterval key e.pre) (hcap : 0 ≤ capacity)
    (hsecs : 0 < refillSeconds) (htokens : 0 ≤ refillTokens) (hT : 0 ≤ T)
    (hkeeps : KeepsKey key e) (hstep : TokenStep e.pre e.label e.post) :
    (if allowedIn key t T e then (1 : ℚ) else 0) +
        leftFor capacity refillTokens refillSeconds key t T e.post ≤
      leftFor capacity refillTokens refillSeconds key t T e.pre := by
  have hpre := leftFor_nonneg (t := t) h hcap hsecs htokens hT
  by_cases hin : t ≤ e.label.1 ∧ e.label.1 ≤ t + T
  · have hpaid : allowedIn key t T e = allowed key e := by
      unfold allowedIn
      rw [decide_eq_true hin, Bool.and_true]
    have hpost : leftFor capacity refillTokens refillSeconds key t T e.post =
        (bucket e.post key).elim (mostIn capacity refillTokens refillSeconds T)
          (fun b => outlook capacity refillTokens refillSeconds (t + T) b e.label.1) := by
      unfold leftFor
      rw [hstep.clock_eq, if_neg (not_lt.mpr hin.1), if_neg (not_lt.mpr hin.2)]
    rw [hpaid, hpost]
    by_cases hkey : e.label.2 = key
    · obtain ⟨hanswer, hleft⟩ := tokenStep_self h.configured hsecs hstep hkey
      rw [hanswer, hleft, Option.elim_some,
        outlook_left h.configured hsecs htokens (t + T) (basis_ok h hcap hstep.1)]
      refine outlook_le_leftFor hsecs htokens (fun b hb => ?_) hstep.1 hin.1 hin.2
      exact basis_of_keeps hkeeps hb
    · have hnot : allowed key e = false := by
        unfold allowed
        rw [decide_eq_false hkey, Bool.false_and]
      rw [hnot, bucket_other hstep hkeeps hkey, if_neg (by decide), zero_add]
      cases hb : bucket e.pre key with
      | none =>
        unfold leftFor
        rw [hb, if_neg (not_lt.mpr (hstep.1.trans hin.2))]
        split_ifs <;> exact le_rfl
      | some b =>
        rw [Option.elim_some]
        exact outlook_le_leftFor hsecs htokens
          (fun b' hb' => Option.some.inj (hb.symm.trans hb')) hstep.1 hin.1 hin.2
  · have hpaid : allowedIn key t T e = false := by
      unfold allowedIn
      rw [decide_eq_false hin, Bool.and_false]
    rw [hpaid, if_neg (by decide), zero_add]
    by_cases hbefore : e.label.1 < t
    · unfold leftFor
      rw [hstep.clock_eq, if_pos hbefore, if_pos (hstep.1.trans_lt hbefore)]
    · have hafter : t + T < e.label.1 :=
        not_le.mp (fun hto => hin ⟨not_lt.mp hbefore, hto⟩)
      have hpost : leftFor capacity refillTokens refillSeconds key t T e.post = 0 := by
        unfold leftFor
        rw [hstep.clock_eq, if_neg hbefore, if_pos hafter]
      rw [hpost]
      exact hpre

/-- **The adverts of a key in an interval.** -/
theorem countP_allowedIn_le {y : Timed ℚ AdvertLimiter} {calls : List TokenEvent}
    (h : TokensOk capacity refillTokens refillSeconds minInterval key y) (hcap : 0 ≤ capacity)
    (hsecs : 0 < refillSeconds) (htokens : 0 ≤ refillTokens) (hrun : Run TokenStep y calls x)
    (hkeeps : ∀ e ∈ calls, KeepsKey key e) (hT : 0 ≤ T) :
    (calls.countP (allowedIn key t T) : ℚ) ≤ mostIn capacity refillTokens refillSeconds T := by
  have hpaid := hrun.paid_le
    (P := TokensOk capacity refillTokens refillSeconds minInterval key)
    (w := fun e => if allowedIn key t T e then (1 : ℚ) else 0)
    (Φ := leftFor capacity refillTokens refillSeconds key t T) hkeeps h
    (fun e hstep hkept hpre => ⟨hpre.step hcap hsecs htokens hstep,
      leftFor_step hpre hcap hsecs htokens hT hkept hstep⟩)
  rw [Run.sum_indicator] at hpaid
  have hend : TokensOk capacity refillTokens refillSeconds minInterval key x :=
    hrun.invariant (C := fun _ => True) (fun _ _ => trivial)
      (fun e hstep _ hpre => hpre.step hcap hsecs htokens hstep) h
  have hleft := leftFor_nonneg (t := t) hend hcap hsecs htokens hT
  have hstart : leftFor capacity refillTokens refillSeconds key t T y ≤
      mostIn capacity refillTokens refillSeconds T := by
    have hmost := mostIn_nonneg hcap hsecs htokens hT
    unfold leftFor
    split_ifs with hbefore hafter
    · exact le_rfl
    · exact hmost
    · cases bucket y key with
      | none => exact le_rfl
      | some b => exact outlook_le_bound hsecs htokens b (not_lt.mp hbefore)
  linarith

end Interval

/-! ### The minimum interval -/

/-- The bucket of the key has let an advert through at `since` or later. -/
def LetThroughSince (key : Bytes) (since : ℚ) (x : Timed ℚ AdvertLimiter) : Prop :=
  ∃ b, bucket x key = some b ∧ since ≤ b.lastSeen

theorem refilled_lastSeen (l : AdvertLimiter) (b : AdvertBucket) (now : ℚ) :
    (l.refilled b now).lastSeen = b.lastSeen := by
  unfold refilled
  split_ifs <;> rfl

theorem LetThroughSince.step {since : ℚ}
    (h : LetThroughSince key since e.pre)
    (hok : Configured capacity refillTokens refillSeconds minInterval e.pre.state)
    (hsecs : 0 < refillSeconds) (hsince : since ≤ e.pre.clock) (hkeeps : KeepsKey key e)
    (hstep : TokenStep e.pre e.label e.post) : LetThroughSince key since e.post := by
  obtain ⟨b, hb, hseen⟩ := h
  by_cases hkey : e.label.2 = key
  · refine ⟨_, (tokenStep_self hok hsecs hstep hkey).2, ?_⟩
    rw [basis_of_keeps hkeeps hb]
    unfold left
    split_ifs
    · exact hsince.trans hstep.1
    · rw [refilled_lastSeen]
      exact hseen
  · exact ⟨b, (bucket_other hstep hkeeps hkey).trans hb, hseen⟩

/-- **Two adverts of a key are a minimum interval apart.** -/
theorem apart_of_allowed {y z : Timed ℚ AdvertLimiter} {e₁ e₂ : TokenEvent}
    {mid : List TokenEvent} (hcap : 0 ≤ capacity) (hsecs : 0 < refillSeconds)
    (htokens : 0 ≤ refillTokens)
    (h : TokensOk capacity refillTokens refillSeconds minInterval key y)
    (hrun : Run TokenStep y (e₁ :: (mid ++ [e₂])) z)
    (hkeeps : ∀ e ∈ mid ++ [e₂], KeepsKey key e) (h₁ : allowed key e₁ = true)
    (h₂ : allowed key e₂ = true) (hnonneg : 0 ≤ e₁.label.1) (hmin : 0 < minInterval) :
    minInterval ≤ e₂.label.1 - e₁.label.1 := by
  obtain ⟨hnil, hstep₁, hrest⟩ := Run.at_event (f := []) hrun
  obtain ⟨hmid, hstep₂, -⟩ := hrest.at_event
  have hok₁ : TokensOk capacity refillTokens refillSeconds minInterval key e₁.pre := by
    rw [hnil.eq_of_nil]
    exact h
  have hok₁' := hok₁.step hcap hsecs htokens hstep₁
  have hkey₁ : e₁.label.2 = key := of_decide_eq_true (Bool.and_eq_true_iff.mp h₁).1
  have hkey₂ : e₂.label.2 = key := of_decide_eq_true (Bool.and_eq_true_iff.mp h₂).1
  have hfirst : LetThroughSince key e₁.label.1 e₁.post := by
    obtain ⟨hanswer, hleft⟩ := tokenStep_self hok₁.configured hsecs hstep₁ hkey₁
    refine ⟨_, hleft, ?_⟩
    rw [h₁] at hanswer
    unfold left
    rw [if_pos hanswer.symm]
    exact le_rfl
  have hbefore : TokensOk capacity refillTokens refillSeconds minInterval key e₂.pre ∧
      e₁.label.1 ≤ e₂.pre.clock ∧ LetThroughSince key e₁.label.1 e₂.pre := by
    refine hmid.invariant (P := fun x =>
      TokensOk capacity refillTokens refillSeconds minInterval key x ∧
        e₁.label.1 ≤ x.clock ∧ LetThroughSince key e₁.label.1 x)
      (fun e he => hkeeps e (List.mem_append_left _ he)) (fun e hstep hkept hpre => ?_)
      ⟨hok₁', hstep₁.clock_eq.ge, hfirst⟩
    obtain ⟨hok, hclock, hseen⟩ := hpre
    exact ⟨hok.step hcap hsecs htokens hstep,
      (hclock.trans hstep.1).trans_eq hstep.clock_eq.symm,
      hseen.step hok.configured hsecs hclock hkept hstep⟩
  obtain ⟨hok₂, -, b, hb, hseen⟩ := hbefore
  have hgrants := (tokenStep_self hok₂.configured hsecs hstep₂ hkey₂).1
  rw [basis_of_keeps (hkeeps e₂ List.mem_concat_self) hb, h₂]
    at hgrants
  have hnot := (of_decide_eq_true hgrants.symm).1
  rw [refilled_lastSeen, hok₂.configured.minInterval] at hnot
  by_contra hsoon
  exact hnot ⟨hmin, hnonneg.trans hseen, by linarith [not_le.mp hsoon]⟩

/-- **The advert limiter over any run of calls** in which the key is neither cleaned up nor pushed
out: what an interval lets through, the time between two adverts, and the calls of other keys. -/
theorem advert_limiter {s : HostRepeaterSettings} {start : ℚ} {before calls : List TokenEvent}
    {x y : Timed ℚ AdvertLimiter} {key : Bytes}
    (hbefore : Run TokenStep ⟨start, buildAdvertLimiter s⟩ before y)
    (hrun : Run TokenStep y calls x) (hkeeps : ∀ e ∈ calls, KeepsKey key e) :
    (∀ t T, 0 ≤ T → (calls.countP (allowedIn key t T) : ℚ) ≤ s.advertBucketCapacity +
      s.advertRefillTokens * (⌊T / s.advertRefillIntervalSeconds⌋ + 1)) ∧
    (∀ h₁ e₁ mid e₂ h₂, calls = h₁ ++ e₁ :: (mid ++ e₂ :: h₂) → allowed key e₁ = true →
      allowed key e₂ = true → 0 ≤ e₁.label.1 → 0 < s.advertMinIntervalSeconds →
      s.advertMinIntervalSeconds ≤ e₂.label.1 - e₁.label.1) ∧
    (∀ e ∈ calls, e.label.2 ≠ key → bucket e.post key = bucket e.pre key) := by
  have hcap : (0 : ℚ) ≤ s.advertBucketCapacity := Nat.cast_nonneg _
  have htokens : (0 : ℚ) ≤ s.advertRefillTokens := Nat.cast_nonneg _
  have hsecs : (0 : ℚ) < s.advertRefillIntervalSeconds := by
    have hge := s.advertRefillIntervalSeconds_ge
    exact_mod_cast (by omega : 0 < s.advertRefillIntervalSeconds)
  have hnew : TokensOk s.advertBucketCapacity s.advertRefillTokens s.advertRefillIntervalSeconds
      s.advertMinIntervalSeconds key ⟨start, buildAdvertLimiter s⟩ :=
    ⟨⟨rfl, rfl, rfl, rfl⟩, fun b hb => (nomatch hb)⟩
  have hsteps : ∀ {u v : Timed ℚ AdvertLimiter} {h : List TokenEvent}, Run TokenStep u h v →
      TokensOk s.advertBucketCapacity s.advertRefillTokens s.advertRefillIntervalSeconds
        s.advertMinIntervalSeconds key u →
      TokensOk s.advertBucketCapacity s.advertRefillTokens s.advertRefillIntervalSeconds
        s.advertMinIntervalSeconds key v :=
    fun hr hu => hr.invariant (C := fun _ => True) (fun _ _ => trivial)
      (fun e hstep _ hpre => hpre.step hcap hsecs htokens hstep) hu
  have hy := hsteps hbefore hnew
  refine ⟨fun t T hT => countP_allowedIn_le hy hcap hsecs htokens hrun hkeeps hT, ?_, ?_⟩
  · intro h₁ e₁ mid e₂ h₂ hcalls hallowed₁ hallowed₂ hnonneg hmin
    have hsplit : calls = h₁ ++ ((e₁ :: (mid ++ [e₂])) ++ h₂) := by
      rw [hcalls, List.cons_append, List.append_assoc]
      rfl
    rw [hsplit] at hrun hkeeps
    obtain ⟨u, hfirst, hrest⟩ := hrun.split
    obtain ⟨v, hpair, -⟩ := hrest.split
    refine apart_of_allowed hcap hsecs htokens (hsteps hfirst hy) hpair (fun e he => ?_) hallowed₁
      hallowed₂ hnonneg (by exact_mod_cast hmin)
    exact hkeeps e (List.mem_append_right _
      (List.mem_append_left _ (List.mem_cons_of_mem _ he)))
  · intro e he hne
    obtain ⟨h₁, h₂, rfl⟩ := List.append_of_mem he
    exact bucket_other hrun.at_event.2.1 (hkeeps e he) hne

/-- One advert to a new limiter with the stock settings. -/
theorem advert_limiter_stock :
    (Run.timeline (fun (l : AdvertLimiter) now key => (l.allow key now).1)
    ⟨0, buildAdvertLimiter HostRepeaterSettings.default⟩ [((5 : ℚ), [1])]).countP
      (allowedIn [1] 0 60) ≤ (3 : ℚ) := by
  have hrun := Run.of_timeline (fun (l : AdvertLimiter) (now : ℚ) key => (l.allow key now).1)
    ⟨0, buildAdvertLimiter HostRepeaterSettings.default⟩ [((5 : ℚ), ([1] : Bytes))]
    (by decide +kernel)
  have hkeeps : ∀ e ∈ Run.timeline (fun (l : AdvertLimiter) (now : ℚ) key => (l.allow key now).1)
      ⟨0, buildAdvertLimiter HostRepeaterSettings.default⟩ [((5 : ℚ), ([1] : Bytes))],
      KeepsKey [1] e := by
    intro e he
    obtain rfl := List.mem_singleton.mp he
    exact fun hsome => (nomatch hsome)
  refine ((advert_limiter (Run.nil _) hrun hkeeps).1 0 60 (by norm_num)).trans ?_
  decide +kernel

end RtfmEv.HostRepeater
