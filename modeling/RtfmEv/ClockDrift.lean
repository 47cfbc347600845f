import Mathlib.Data.List.GetD
import Mathlib.Data.List.Sort
import Mathlib.Tactic.Linarith

/-!
# Setting a repeater's clock

The firmware moves a clock forward only, so a wrong host time that was sent cannot be taken
back. The host is believed when the median offset of the other nodes is small. A median lies
between any bounds that more than half of the values keep, whatever the rest are.
-/

namespace RtfmEv.ClockDrift

/-! ### Medians -/

/-- `statistics.median`, which has no value for an empty list. -/
def median (data : List ℤ) : ℚ :=
  let sorted := data.insertionSort (· ≤ ·)
  let n := sorted.length
  if n % 2 = 1 then sorted.getD (n / 2) 0
  else ((sorted.getD (n / 2 - 1) 0 : ℚ) + sorted.getD (n / 2) 0) / 2

section Sorted

variable {l : List ℤ} {p : ℤ → Bool}

/-- If the entry at a place has a property that goes down, so have all before it. -/
theorem lt_countP_of_down (hl : l.Pairwise (· ≤ ·)) (hdown : ∀ a b, a ≤ b → p b = true → p a = true)
    {k : ℕ} (hk : k < l.length) (hp : p l[k] = true) : k < l.countP p := by
  have hall : (l.take (k + 1)).countP p = (l.take (k + 1)).length := by
    rw [List.countP_eq_length]
    intro a ha
    obtain ⟨i, hi, rfl⟩ := List.mem_take_iff_getElem.mp ha
    rcases (show i ≤ k by omega).eq_or_lt with rfl | hlt
    · exact hp
    · exact hdown _ _ (List.pairwise_iff_getElem.mp hl i k _ hk hlt) hp
  have hle := (List.take_sublist (k + 1) l).countP_le (p := p)
  rw [hall, List.length_take] at hle
  omega

/-- If the entry at a place has a property that goes up, so have all after it. -/
theorem length_le_countP_of_up (hl : l.Pairwise (· ≤ ·))
    (hup : ∀ a b, a ≤ b → p a = true → p b = true)
    {k : ℕ} (hk : k < l.length) (hp : p l[k] = true) : l.length ≤ k + l.countP p := by
  have hall : (l.drop k).countP p = (l.drop k).length := by
    rw [List.countP_eq_length]
    intro a ha
    obtain ⟨i, hi, rfl⟩ := List.mem_drop_iff_getElem.mp ha
    rcases i.eq_zero_or_pos with rfl | hpos
    · exact hp
    · exact hup _ _ (List.pairwise_iff_getElem.mp hl k (k + i) hk _ (by omega)) hp
  have hle := (List.drop_sublist k l).countP_le (p := p)
  rw [hall, List.length_drop] at hle
  omega

end Sorted

/-- **A median is between any bounds that more than half of the values keep.** -/
theorem median_mem_of_majority (data : List ℤ) (lo hi : ℚ)
    (hmajor : data.length < 2 * data.countP (fun v : ℤ => decide (lo ≤ v ∧ (v : ℚ) ≤ hi))) :
    lo ≤ median data ∧ median data ≤ hi := by
  have hperm := List.perm_insertionSort (· ≤ ·) data
  have hsorted := List.pairwise_insertionSort (· ≤ ·) data
  rw [median]
  rw [← hperm.length_eq, ← hperm.countP_eq] at hmajor
  generalize data.insertionSort (· ≤ ·) = l at hmajor hsorted
  have hlength := List.length_eq_countP_add_countP
    (fun v : ℤ => decide (lo ≤ v ∧ (v : ℚ) ≤ hi)) (l := l)
  have hout : ∀ p : ℤ → Bool, (∀ v, p v = true → ¬ (lo ≤ v ∧ (v : ℚ) ≤ hi)) →
      2 * l.countP p < l.length := fun p hp => by
    have hle : l.countP p ≤ l.countP (fun v : ℤ => ¬ decide (lo ≤ v ∧ (v : ℚ) ≤ hi)) :=
      List.countP_mono_left (fun v _ hv => by simp only [hp v hv, decide_false,
        decide_true, Bool.false_eq_true, not_false_eq_true])
    omega
  have hlow : ∀ k, l.length ≤ 2 * (k + 1) → ∀ hk : k < l.length, lo ≤ (l[k] : ℚ) := by
    intro k hmid hk
    by_contra hlt
    have hcount := lt_countP_of_down (p := fun v => decide ((v : ℚ) < lo)) hsorted
      (fun a b hab hb => by
        have hcast : (a : ℚ) ≤ b := by exact_mod_cast hab
        simpa using hcast.trans_lt (by simpa using hb)) hk (by simpa using hlt)
    have hfew := hout (fun v => decide ((v : ℚ) < lo))
      (fun v hv hin => (not_le.mpr (by simpa using hv)) hin.1)
    omega
  have hhigh : ∀ k, 2 * k ≤ l.length → ∀ hk : k < l.length, (l[k] : ℚ) ≤ hi := by
    intro k hmid hk
    by_contra hlt
    have hcount := length_le_countP_of_up (p := fun v => decide (hi < (v : ℚ))) hsorted
      (fun a b hab ha => by
        have hcast : (a : ℚ) ≤ b := by exact_mod_cast hab
        have ha' : hi < (a : ℚ) := by simpa using ha
        simpa using ha'.trans_le hcast) hk (by simpa using hlt)
    have hfew := hout (fun v => decide (hi < (v : ℚ)))
      (fun v hv hin => (not_le.mpr (by simpa using hv)) hin.2)
    omega
  have hpos : 0 < l.length := by
    have hle := List.countP_le_length (p := fun v : ℤ => decide (lo ≤ v ∧ (v : ℚ) ≤ hi)) (l := l)
    omega
  split_ifs with hodd
  · rw [List.getD_eq_getElem _ _ (by omega)]
    exact ⟨hlow _ (by omega) _, hhigh _ (by omega) _⟩
  · rw [List.getD_eq_getElem _ _ (by omega), List.getD_eq_getElem _ _ (by omega)]
    have h₁ := hlow (l.length / 2 - 1) (by omega) (by omega)
    have h₂ := hlow (l.length / 2) (by omega) (by omega)
    have h₃ := hhigh (l.length / 2 - 1) (by omega) (by omega)
    have h₄ := hhigh (l.length / 2) (by omega) (by omega)
    constructor <;> linarith

theorem median_perm {data data' : List ℤ} (h : data.Perm data') : median data = median data' := by
  rw [median, median, List.Perm.eq_of_pairwise (fun a b _ _ => le_antisymm)
    (List.pairwise_insertionSort _ _) (List.pairwise_insertionSort _ _)
    ((List.perm_insertionSort _ data).trans (h.trans (List.perm_insertionSort _ data').symm))]

/-! ### The vote of the mesh -/

/-- An advert of a node: its clock, and the host's clock as it was heard. -/
structure Reading where
  publicKey : String
  senderTimestamp : ℤ
  firstSeen : ℤ
deriving DecidableEq

def Reading.offset (r : Reading) : ℤ := r.senderTimestamp - r.firstSeen

/-- By how much the node's clock is off, where the host's is off by `h`. -/
def Reading.trueError (h : ℚ) (r : Reading) : ℚ := r.offset + h

def syncMinBehindSeconds : ℤ := 120
def inSyncSeconds : ℤ := 120
def consensusMinNodes : ℕ := 5
def consensusMaxMedianSeconds : ℚ := 300

inductive SyncDecision
  | sync | noReading | alreadySynced | notBehind | ahead | hostClockUnverified | hostClockDisagrees
deriving DecidableEq

variable (lower : String → String)

/-- The readings of other nodes. -/
def others (readings : List Reading) (exclude : String) : List Reading :=
  readings.filter (fun r => lower r.publicKey ≠ lower exclude)

def meshMedianOffset (readings : List Reading) (exclude : String) : Option ℚ :=
  let offsets := (others lower readings exclude).map Reading.offset
  if offsets.length < consensusMinNodes then none else some (median offsets)

/-- `plan_clock_sync`, with the clock and the time of the repeater's newest reading. -/
def planClockSync (reading : Option (ℤ × ℤ)) (lastSyncAt : Option ℚ)
    (meshReadings : List Reading) (publicKey : String) : SyncDecision :=
  match reading with
  | none => .noReading
  | some (senderTimestamp, firstSeen) =>
    if lastSyncAt.any (fun at_ => (firstSeen : ℚ) ≤ at_) then .alreadySynced
    else
      let offset := senderTimestamp - firstSeen
      if offset > inSyncSeconds then .ahead
      else if offset ≥ -syncMinBehindSeconds then .notBehind
      else
        match meshMedianOffset lower meshReadings publicKey with
        | none => .hostClockUnverified
        | some meshOffset =>
          if |meshOffset| > consensusMaxMedianSeconds then .hostClockDisagrees else .sync

variable {lower} {reading : Option (ℤ × ℤ)} {lastSyncAt : Option ℚ} {readings : List Reading}
  {publicKey : String}

/-- What the repeater and the mesh have shown when a clock is set. -/
theorem planClockSync_eq_sync (h : planClockSync lower reading lastSyncAt readings publicKey = .sync) :
    (∃ r, reading = some r ∧ r.1 - r.2 < -120) ∧
      |median ((others lower readings publicKey).map Reading.offset)| ≤ 300 := by
  unfold planClockSync at h
  split at h
  · cases h
  · simp only [gt_iff_lt, ge_iff_le] at h
    split_ifs at h with hafter hahead hbehind
    cases hmesh : meshMedianOffset lower readings publicKey with
    | none =>
      rw [hmesh] at h
      cases h
    | some meshOffset =>
      simp only [hmesh] at h
      split_ifs at h with hfar
      simp only [meshMedianOffset] at hmesh
      split_ifs at hmesh
      rw [Option.some.inj hmesh]
      exact ⟨⟨_, rfl, lt_of_not_ge hbehind⟩, le_of_not_gt hfar⟩

/-- The host's clock is off by no more than the most of the others, and the five minutes that
their median may be off. -/
theorem abs_le_of_sync {h e : ℚ}
    (hmajor : (others lower readings publicKey).length <
      2 * (others lower readings publicKey).countP (fun r => decide (|r.trueError h| ≤ e)))
    (hsync : planClockSync lower reading lastSyncAt readings publicKey = .sync) :
    |h| ≤ 300 + e := by
  obtain ⟨-, hmedian⟩ := planClockSync_eq_sync hsync
  obtain ⟨hlo, hhi⟩ := median_mem_of_majority
    ((others lower readings publicKey).map Reading.offset) (-e - h) (e - h) (by
      rw [List.length_map, List.countP_map]
      refine hmajor.trans_le (Nat.mul_le_mul_left 2 (List.countP_mono_left ?_))
      intro r _ hr
      have hr := abs_le.mp (of_decide_eq_true hr)
      simp only [Function.comp_apply, decide_eq_true_eq]
      simp only [Reading.trueError] at hr
      constructor <;> linarith [hr.1, hr.2])
  rw [abs_le] at hmedian ⊢
  constructor <;> linarith [hmedian.1, hmedian.2]

theorem meshMedianOffset_perm {readings' : List Reading} (h : readings.Perm readings') :
    meshMedianOffset lower readings publicKey = meshMedianOffset lower readings' publicKey := by
  have hothers : (others lower readings publicKey).Perm (others lower readings' publicKey) :=
    h.filter _
  have hperm := hothers.map Reading.offset
  simp only [meshMedianOffset]
  rw [hperm.length_eq, median_perm hperm]

/-- **A wrong host clock never sets a repeater's clock.** A clock is set only if the repeater is
behind, and the host is no further off than most other nodes and five minutes, whatever the
rest of them say; and the order of the readings and the repeater's own have no vote. -/
theorem wrong_host_never_sets (lower : String → String) (reading : Option (ℤ × ℤ))
    (lastSyncAt : Option ℚ) (readings : List Reading) (publicKey : String) (h e : ℚ)
    (hmajor : (others lower readings publicKey).length <
      2 * (others lower readings publicKey).countP (fun r => decide (|r.trueError h| ≤ e))) :
    (planClockSync lower reading lastSyncAt readings publicKey = .sync →
      |h| ≤ 300 + e ∧ ∃ r, reading = some r ∧ r.1 - r.2 < -120) ∧
    (∀ readings', readings.Perm readings' →
      planClockSync lower reading lastSyncAt readings' publicKey =
        planClockSync lower reading lastSyncAt readings publicKey) ∧
    ∀ own, (∀ r ∈ own, lower r.publicKey = lower publicKey) →
      meshMedianOffset lower (own ++ readings) publicKey =
        meshMedianOffset lower readings publicKey := by
  refine ⟨fun hsync => ⟨abs_le_of_sync hmajor hsync, (planClockSync_eq_sync hsync).1⟩, ?_, ?_⟩
  · intro readings' hperm
    simp only [planClockSync, meshMedianOffset_perm hperm]
  · intro own hown
    have hnil : others lower own publicKey = [] := by
      rw [others, List.filter_eq_nil_iff]
      intro r hr
      simpa using hown r hr
    have hsame : others lower (own ++ readings) publicKey = others lower readings publicKey := by
      rw [others, List.filter_append]
      show others lower own publicKey ++ others lower readings publicKey = _
      rw [hnil, List.nil_append]
    rw [meshMedianOffset, meshMedianOffset, hsame]

/-- Five nodes, two of them wrong by a day, and a host that is right. -/
def fiveNodes : List Reading :=
  [⟨"a", 86400, 0⟩, ⟨"b", -86400, 0⟩, ⟨"c", 1, 0⟩, ⟨"d", 2, 0⟩, ⟨"e", 3, 0⟩]

theorem wrong_host_never_sets_fiveNodes :
    planClockSync id (some (-600, 0)) none fiveNodes "r" = .sync ∧
      (planClockSync id (some (-600, 0)) none fiveNodes "r" = .sync →
        |(0 : ℚ)| ≤ 300 + 3 ∧ ∃ r, some ((-600 : ℤ), (0 : ℤ)) = some r ∧ r.1 - r.2 < -120) :=
  ⟨by decide +kernel,
    (wrong_host_never_sets id (some (-600, 0)) none fiveNodes "r" 0 3 (by decide +kernel)).1⟩

end RtfmEv.ClockDrift
