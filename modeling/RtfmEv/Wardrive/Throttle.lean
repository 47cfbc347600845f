import Mathlib.Data.List.MinMax
import Mathlib.Data.List.Pairwise
import Mathlib.Data.List.TakeWhile
import Mathlib.Tactic.NormNum
import RtfmEv.Lib.OrderedDict
import RtfmEv.Lib.Run

/-!
# Login lockouts

The throttle keeps the times of the failures of each name, and forgets those outside the window
whenever it reads or writes the name. A name that is not read keeps them, and they count when a
full table looks for the name with the fewest failures.
-/

namespace RtfmEv.LoginThrottle

open RtfmEv.Lib

abbrev Failures := OrderedDict String (List ℚ)

structure Setup where
  /-- `username.strip().lower()` -/
  normalize : String → String
  maxFailures : ℕ
  windowS : ℚ

def maxTracked : ℕ := 10000

variable (S : Setup)

/-- The failures inside the window. -/
def inWindow (now : ℚ) (times : List ℚ) : List ℚ :=
  times.filter (fun t => decide (now - t < S.windowS))

def stored (failures : Failures) (key : String) : List ℚ := (failures.get? key).getD []

/-- `_recent`, of a name that is normal, and what it leaves. -/
def recent (failures : Failures) (key : String) (now : ℚ) : List ℚ × Failures :=
  let recent := inWindow S now (stored failures key)
  (recent, if recent ≠ [] then failures.set key recent else failures.erase key)

/-- The latest failure of a name is inside the window. -/
def live (now : ℚ) (times : List ℚ) : Bool :=
  times.getLast?.any (fun t => decide (now - t < S.windowS))

/-- The names that have expired go, from the front up to the first that has not. -/
def dropExpired (failures : Failures) (now : ℚ) : Failures :=
  ⟨failures.entries.dropWhile (fun e => !live S now e.2),
    failures.nodup.sublist ((List.dropWhile_sublist _).map _)⟩

/-- The other names that are left when a failure is written. -/
def others (failures : Failures) (username : String) (now : ℚ) : Failures :=
  dropExpired S ((recent S failures (S.normalize username) now).2.erase (S.normalize username)) now

/-- The first of the names with the fewest stored failures, where the table is full. -/
def evicted (failures : Failures) (username : String) (now : ℚ) : Option String :=
  if maxTracked ≤ (others S failures username now).size then
    ((others S failures username now).entries.argmin (fun e => e.2.length)).map Prod.fst
  else none

def recordFailure (failures : Failures) (username : String) (now : ℚ) : Failures :=
  let kept :=
    match evicted S failures username now with
    | some name => (others S failures username now).erase name
    | none => others S failures username now
  kept.set (S.normalize username)
    ((recent S failures (S.normalize username) now).1 ++ [now])

/-- `blocked`, and what it leaves. -/
def blocked (failures : Failures) (username : String) (now : ℚ) : Bool × Failures :=
  (decide (S.maxFailures ≤ (recent S failures (S.normalize username) now).1.length),
    (recent S failures (S.normalize username) now).2)

def reset (failures : Failures) (username : String) : Failures :=
  failures.erase (S.normalize username)

/-! ### Calls -/

structure State where
  failures : Failures
  clock : ℚ

inductive Label
  | recordFailure (username : String) (now : ℚ)
  | blocked (username : String) (now : ℚ)
  | reset (username : String)
deriving DecidableEq

/-- A call, at a time that is not before the last one. -/
def step (s : State) : Label → Option State
  | .recordFailure username now =>
    if s.clock ≤ now then some ⟨LoginThrottle.recordFailure S s.failures username now, now⟩
    else none
  | .blocked username now =>
    if s.clock ≤ now then some ⟨(LoginThrottle.blocked S s.failures username now).2, now⟩
    else none
  | .reset username => some { s with failures := LoginThrottle.reset S s.failures username }

def Step (s : State) (l : Label) (s' : State) : Prop := step S s l = some s'

/-- The time of a failure of the name. -/
def Label.failureOf (key : String) : Label → Option ℚ
  | recordFailure username now => if S.normalize username = key then some now else none
  | _ => none

/-- The failures of a name in some calls. -/
def failuresOf (key : String) (h : List (Event State Label)) : List ℚ :=
  h.filterMap (fun e => e.label.failureOf S key)

/-- The call resets the name or evicts it. -/
def Forgets (key : String) (e : Event State Label) : Prop :=
  match e.label with
  | .recordFailure username now => evicted S e.pre.failures username now = some key
  | .blocked _ _ => False
  | .reset username => S.normalize username = key

/-- No name that a failure leaves in the table, but its own, has fewer failures inside the window
than a name that it evicts. -/
def FewestGoes (e : Event State Label) : Prop :=
  match e.label with
  | .recordFailure username now => ∀ name, evicted S e.pre.failures username now = some name →
      inWindow S now (stored e.pre.failures name) ≠ [] →
        ∀ key ∈ e.post.failures.keys, key ≠ S.normalize username →
          (inWindow S now (stored e.pre.failures name)).length ≤
            (inWindow S now (stored e.pre.failures key)).length
  | _ => True

/-- What the throttle is for. -/
structure LockoutsHold (h : List (Event State Label)) (s : State) : Prop where
  /-- Enough failures inside the window block a name that was not reset nor evicted since. -/
  blocks : ∀ f g, h = f ++ g → ∀ username, (∀ e ∈ g, ¬ Forgets S (S.normalize username) e) →
    ∀ now, s.clock ≤ now →
      S.maxFailures ≤ (inWindow S now (failuresOf S (S.normalize username) g)).length →
        (blocked S s.failures username now).1 = true
  size : s.failures.size ≤ maxTracked
  fewest : ∀ e ∈ h, FewestGoes S e

/-- **No name with stale failures has fewer than the shortest one**: where a failure finds the
table full, and the first name with the fewest stored failures has one inside the window, every
name that still stores one outside it has at least as many inside. -/
def StaleNotFewer (e : Event State Label) : Prop :=
  match e.label with
  | .recordFailure username now => maxTracked ≤ (others S e.pre.failures username now).size →
      ∀ least ∈ (others S e.pre.failures username now).entries.argmin (fun e => e.2.length),
        inWindow S now least.2 ≠ [] →
          ∀ e' ∈ (others S e.pre.failures username now).entries, inWindow S now e'.2 ≠ e'.2 →
            (inWindow S now least.2).length ≤ (inWindow S now e'.2).length
  | _ => True

/-! ### The window -/

variable {S} {failures : Failures} {current now : ℚ} {key username name : String} {times : List ℚ}
  {e : String × List ℚ}

/-- What is inside a later window was inside the earlier one. -/
theorem inWindow_inWindow (h : current ≤ now) (times : List ℚ) :
    inWindow S now (inWindow S current times) = inWindow S now times := by
  rw [inWindow, inWindow, inWindow, List.filter_filter]
  refine List.filter_congr fun t _ => ?_
  rw [← Bool.decide_and]
  refine decide_eq_decide.mpr ⟨fun hin => hin.1, fun hin => ⟨hin, ?_⟩⟩
  exact (sub_le_sub_right h t).trans_lt hin

theorem stored_erase (key' : String) :
    stored (failures.erase key) key' = if key' = key then [] else stored failures key' := by
  rw [stored, OrderedDict.get?_erase]
  split_ifs <;> rfl

theorem stored_set (key' : String) :
    stored (failures.set key times) key' = if key' = key then times else stored failures key' := by
  rw [stored, OrderedDict.get?_set]
  split_ifs <;> rfl

theorem erase_of_not_mem (h : key ∉ failures.keys) : failures.erase key = failures :=
  OrderedDict.ext (List.filter_eq_self.mpr fun e he => by
    simpa using fun heq : e.1 = key => h (heq ▸ List.mem_map_of_mem he))

theorem stored_of_mem (h : (key, times) ∈ failures.entries) : stored failures key = times := by
  rw [stored, OrderedDict.get?_eq_some_iff.mpr h, Option.getD_some]

/-- Reading a name forgets what has left the window, of that name only. -/
theorem stored_recent (key' : String) : stored (recent S failures key now).2 key' =
    if key' = key then inWindow S now (stored failures key) else stored failures key' := by
  rw [recent]
  split_ifs with hany hkey hkey
  · rw [stored_set, if_pos hkey]
  · rw [stored_set, if_neg hkey]
  · rw [stored_erase, if_pos hkey]
    exact (not_not.mp hany).symm
  · rw [stored_erase, if_neg hkey]

/-- The stored times of each name are in order, and none is ahead of the clock. -/
def InOrder (failures : Failures) (clock : ℚ) : Prop :=
  ∀ e ∈ failures.entries, e.2.Pairwise (· ≤ ·) ∧ ∀ t ∈ e.2, t ≤ clock

theorem inWindow_of_not_live (hsorted : times.Pairwise (· ≤ ·)) (h : live S now times = false) :
    inWindow S now times = [] := by
  rw [inWindow, List.filter_eq_nil_iff]
  intro t ht hin
  have hne : times ≠ [] := List.ne_nil_of_mem ht
  have hlast : t ≤ times.getLast hne := hsorted.rel_getLast ht
  rw [live, List.getLast?_eq_some_getLast hne, Option.any_some, decide_eq_false_iff_not] at h
  exact h ((sub_le_sub_left hlast now).trans_lt (of_decide_eq_true hin))

theorem mem_dropExpired (h : e ∈ failures.entries) :
    e ∈ (dropExpired S failures now).entries ∨ live S now e.2 = false := by
  have hsplit := List.takeWhile_append_dropWhile (p := fun e : String × List ℚ => !live S now e.2)
    (l := failures.entries)
  rw [← hsplit] at h
  rcases List.mem_append.mp h with hgone | hkept
  · exact Or.inr (by simpa using List.mem_takeWhile_imp hgone)
  · exact Or.inl hkept

theorem inWindow_stored_dropExpired (horder : InOrder failures current) (key : String) :
    inWindow S now (stored (dropExpired S failures now) key) =
      inWindow S now (stored failures key) := by
  cases hget : failures.get? key with
  | none =>
    have hnone : (dropExpired S failures now).get? key = none := by
      rw [OrderedDict.get?_eq_none_iff] at hget ⊢
      exact fun hin => hget (((List.dropWhile_sublist _).map _).subset hin)
    rw [stored, stored, hget, hnone]
  | some times =>
    have hmem := OrderedDict.get?_eq_some_iff.mp hget
    rw [stored_of_mem hmem]
    have hsplit : (key, times) ∈ (dropExpired S failures now).entries ∨ live S now times = false :=
      mem_dropExpired hmem
    rcases hsplit with hkept | hexpired
    · rw [stored_of_mem hkept]
    · have hempty := inWindow_of_not_live (horder _ hmem).1 hexpired
      cases hgone : (dropExpired S failures now).get? key with
      | none =>
        rw [stored, hgone, hempty]
        rfl
      | some times' =>
        have hmem' := (List.dropWhile_sublist _).subset (OrderedDict.get?_eq_some_iff.mp hgone)
        rw [stored, hgone, ← stored_of_mem hmem', stored_of_mem hmem]
        rfl

theorem InOrder.mono (h : InOrder failures current) (hle : current ≤ now) :
    InOrder failures now := fun e he => ⟨(h e he).1, fun t ht => ((h e he).2 t ht).trans hle⟩

theorem InOrder.erase (h : InOrder failures now) (key : String) :
    InOrder (failures.erase key) now := fun e he => h e (OrderedDict.mem_erase_entries.mp he).1

theorem InOrder.set (h : InOrder failures now) (hsorted : times.Pairwise (· ≤ ·))
    (hle : ∀ t ∈ times, t ≤ now) (key : String) : InOrder (failures.set key times) now := by
  intro e he
  have hget := OrderedDict.get?_eq_some_iff.mpr he
  rw [OrderedDict.get?_set] at hget
  split_ifs at hget with hkey
  · rw [← Option.some.inj hget]
    exact ⟨hsorted, hle⟩
  · exact h e (OrderedDict.get?_eq_some_iff.mp hget)

theorem InOrder.inWindow (h : InOrder failures now) (key : String) :
    (inWindow S now (stored failures key)).Pairwise (· ≤ ·) ∧
      ∀ t ∈ LoginThrottle.inWindow S now (stored failures key), t ≤ now := by
  cases hget : failures.get? key with
  | none =>
    rw [stored, hget]
    exact ⟨List.Pairwise.nil, fun t ht => (nomatch ht)⟩
  | some times =>
    obtain ⟨hsorted, hle⟩ := h _ (OrderedDict.get?_eq_some_iff.mp hget)
    rw [stored, hget]
    exact ⟨hsorted.filter _, fun t ht => hle t (List.mem_filter.mp ht).1⟩

theorem InOrder.recent (h : InOrder failures now) (key : String) :
    InOrder (recent S failures key now).2 now := by
  rw [LoginThrottle.recent]
  split_ifs
  · exact h.set (h.inWindow key).1 (h.inWindow key).2 key
  · exact h.erase key

theorem InOrder.others (h : InOrder failures now) (username : String) :
    InOrder (others S failures username now) now :=
  fun e he => ((h.recent _).erase _) e ((List.dropWhile_sublist _).subset he)

theorem inWindow_stored_others (h : InOrder failures current) (hle : current ≤ now)
    (hkey : key ≠ S.normalize username) : inWindow S now (stored (others S failures username now)
      key) = inWindow S now (stored failures key) := by
  rw [others, inWindow_stored_dropExpired (((h.mono hle).recent _).erase _), stored_erase,
    if_neg hkey, stored_recent, if_neg hkey]

theorem others_keys (h : key ∈ (others S failures username now).keys) :
    key ≠ S.normalize username := by
  rintro rfl
  exact OrderedDict.not_mem_erase_keys _ _ (((List.dropWhile_sublist _).map _).subset h)

theorem stored_others (h : (key, times) ∈ (others S failures username now).entries) :
    stored failures key = times := by
  have hne := others_keys (List.mem_map_of_mem h : key ∈ _)
  have hmem := stored_of_mem ((List.dropWhile_sublist _).subset h)
  rwa [stored_erase, if_neg hne, stored_recent, if_neg hne] at hmem

theorem evicted_eq_some_iff : evicted S failures username now = some name ↔
    maxTracked ≤ (others S failures username now).size ∧
      ∃ least ∈ (others S failures username now).entries.argmin (fun e => e.2.length),
        least.1 = name := by
  rw [evicted, Option.ite_none_right_eq_some, Option.map_eq_some_iff]
  rfl

theorem evicted_spec (h : evicted S failures username now = some name) :
    ∃ times, (name, times) ∈ (others S failures username now).entries ∧
      ∀ e ∈ (others S failures username now).entries, times.length ≤ e.2.length := by
  obtain ⟨-, ⟨name', times⟩, hmin, rfl⟩ := evicted_eq_some_iff.mp h
  exact ⟨times, List.argmin_mem hmin, fun e he =>
    List.le_of_mem_argmin (f := fun e : String × List ℚ => e.2.length) he hmin⟩

theorem size_lt_of_not_evicted (h : evicted S failures username now = none) :
    (others S failures username now).size < maxTracked := by
  by_contra hfull
  rw [evicted, if_pos (not_lt.mp hfull), Option.map_eq_none_iff, List.argmin_eq_none] at h
  rw [OrderedDict.size, h] at hfull
  exact hfull (by decide)

/-! ### One call -/

/-- What a failure leaves of each name, inside a later window. -/
theorem inWindow_stored_recordFailure (h : InOrder failures current) (hle : current ≤ now)
    {later : ℚ} (hlater : now ≤ later)
    (hkept : evicted S failures username now ≠ some key) :
    inWindow S later (stored (recordFailure S failures username now) key) =
      inWindow S later (stored failures key) ++
        inWindow S later (if S.normalize username = key then [now] else []) := by
  rw [recordFailure, stored_set]
  by_cases hkey : key = S.normalize username
  · rw [if_pos hkey, if_pos hkey.symm, inWindow, List.filter_append]
    refine congrArg₂ _ ?_ rfl
    rw [hkey]
    exact inWindow_inWindow hlater _
  · rw [if_neg hkey, if_neg (Ne.symm hkey), ← inWindow_inWindow hlater (stored failures key),
      ← inWindow_stored_others h hle hkey, inWindow_inWindow hlater]
    refine Eq.trans (congrArg _ ?_) (List.append_nil _).symm
    cases hout : evicted S failures username now with
    | none => rfl
    | some name =>
      rw [hout] at hkept
      exact (stored_erase key).trans (if_neg (fun heq => hkept (congrArg some heq.symm)))

theorem InOrder.recordFailure (h : InOrder failures current) (hle : current ≤ now)
    (username : String) : InOrder (recordFailure S failures username now) now := by
  have hnow := h.mono hle
  obtain ⟨hsorted, hall⟩ := hnow.inWindow (S := S) (S.normalize username)
  refine InOrder.set ?_ ?_ ?_ _
  · cases LoginThrottle.evicted S failures username now with
    | none => exact hnow.others username
    | some name => exact (hnow.others username).erase name
  · refine List.pairwise_append.mpr ⟨hsorted, List.pairwise_singleton _ _, fun t ht t' ht' => ?_⟩
    rw [List.mem_singleton.mp ht']
    exact hall t ht
  · intro t ht
    rcases List.mem_append.mp ht with ht | ht
    · exact hall t ht
    · exact (List.mem_singleton.mp ht).le

theorem size_recent (S : Setup) (failures : Failures) (key : String) (now : ℚ) :
    (recent S failures key now).2.size ≤ failures.size := by
  rw [recent]
  split_ifs with hany
  · rw [OrderedDict.size_set_of_mem]
    by_contra hnone
    rw [stored, OrderedDict.get?_eq_none_iff.mpr hnone] at hany
    exact hany rfl
  · exact OrderedDict.size_eraseIf_le _ _

theorem size_recordFailure (hsize : failures.size ≤ maxTracked) (username : String) (now : ℚ) :
    (recordFailure S failures username now).size ≤ maxTracked := by
  have hothers : (others S failures username now).size ≤ maxTracked := by
    refine (List.dropWhile_sublist _).length_le.trans ?_
    refine (OrderedDict.size_eraseIf_le _ _).trans ?_
    exact (size_recent S failures _ now).trans hsize
  refine (OrderedDict.size_set_le _ _ _).trans ?_
  cases hout : evicted S failures username now with
  | none => exact Nat.succ_le_of_lt (size_lt_of_not_evicted hout)
  | some name =>
    obtain ⟨times, hmem, -⟩ := evicted_spec hout
    have hlt := OrderedDict.size_erase_lt (List.mem_map_of_mem hmem : name ∈ OrderedDict.keys _)
    exact Nat.succ_le_of_lt (hlt.trans_le hothers)

/-- **What one call keeps**: the order, the clock, and of every name that it does not forget what
is inside the window, with the failure that it records. -/
theorem step_spec {e : Event State Label} (hs : Step S e.pre e.label e.post)
    (h : InOrder e.pre.failures e.pre.clock) :
    InOrder e.post.failures e.post.clock ∧
      (e.pre.failures.size ≤ maxTracked → e.post.failures.size ≤ maxTracked) ∧
      e.pre.clock ≤ e.post.clock ∧
      ∀ key, ¬ Forgets S key e → ∀ now, e.post.clock ≤ now →
        inWindow S now (stored e.post.failures key) =
          inWindow S now (stored e.pre.failures key) ++ inWindow S now (failuresOf S key [e]) := by
  obtain ⟨s, l, s'⟩ := e
  cases l with
  | recordFailure username now =>
    simp only [Step, step, Option.ite_none_right_eq_some, Option.some.injEq] at hs
    obtain ⟨hle, rfl⟩ := hs
    refine ⟨h.recordFailure hle username, fun hsize => size_recordFailure hsize username now, hle,
      fun key hkept later hlater => ?_⟩
    refine (inWindow_stored_recordFailure h hle hlater hkept).trans (congrArg₂ _ rfl ?_)
    by_cases hkey : S.normalize username = key <;> simp [failuresOf, Label.failureOf, hkey]
  | blocked username now =>
    simp only [Step, step, Option.ite_none_right_eq_some, Option.some.injEq] at hs
    obtain ⟨hle, rfl⟩ := hs
    refine ⟨(h.mono hle).recent _, fun hsize => ?_, hle, fun key _ later hlater => ?_⟩
    · exact (size_recent S s.failures _ now).trans hsize
    · refine Eq.trans ?_ (List.append_nil _).symm
      show inWindow S later (stored (recent S s.failures _ now).2 key) = _
      rw [stored_recent]
      split_ifs with hkey
      · rw [hkey, inWindow_inWindow hlater]
      · rfl
  | reset username =>
    simp only [Step, step, Option.some.injEq] at hs
    subst hs
    refine ⟨h.erase _, fun hsize => (OrderedDict.size_eraseIf_le _ _).trans hsize, le_rfl,
      fun key hkept later _ => ?_⟩
    refine Eq.trans (congrArg _ ?_) (List.append_nil _).symm
    exact (stored_erase key).trans (if_neg (fun heq => hkept heq.symm))

theorem mem_keys_recordFailure (h : evicted S failures username now = some name)
    (hkey : key ≠ S.normalize username) : key ∈ (recordFailure S failures username now).keys ↔
      key ∈ (others S failures username now).keys ∧ key ≠ name := by
  rw [← not_iff_not, ← OrderedDict.get?_eq_none_iff, recordFailure, h, OrderedDict.get?_set,
    if_neg hkey]
  show ((others S failures username now).erase name).get? key = none ↔ _
  rw [OrderedDict.get?_erase]
  split_ifs with heq
  · simp [heq]
  · rw [OrderedDict.get?_eq_none_iff]
    simp [heq]

/-- **The evicted name has the fewest failures inside the window just when no stale name has
fewer.** -/
theorem fewestGoes_iff {e : Event State Label} (hs : Step S e.pre e.label e.post) :
    FewestGoes S e ↔ StaleNotFewer S e := by
  obtain ⟨s, l, s'⟩ := e
  cases l with
  | recordFailure username now =>
    simp only [Step, step, Option.ite_none_right_eq_some, Option.some.injEq] at hs
    obtain ⟨-, rfl⟩ := hs
    constructor
    · rintro hfew hfull ⟨name, times⟩ hleast hrecent ⟨key, times'⟩ hmem -
      have hout := evicted_eq_some_iff.mpr ⟨hfull, _, hleast, rfl⟩
      have hname := stored_others (List.argmin_mem hleast)
      have hin : key ∈ (others S s.failures username now).keys := List.mem_map_of_mem hmem
      show (inWindow S now times).length ≤ (inWindow S now times').length
      rw [← stored_others hmem, ← hname]
      by_cases heq : key = name
      · rw [heq]
      · exact hfew name hout (hname ▸ hrecent) key
          ((mem_keys_recordFailure hout (others_keys hin)).mpr ⟨hin, heq⟩) (others_keys hin)
    · intro hstale name hout hrecent key hkept hkey
      obtain ⟨hfull, ⟨name', times⟩, hleast, rfl⟩ := evicted_eq_some_iff.mp hout
      have hname := stored_others (List.argmin_mem hleast)
      obtain ⟨⟨key', times'⟩, hmem, rfl⟩ :=
        List.mem_map.mp ((mem_keys_recordFailure hout hkey).mp hkept).1
      show (inWindow S now (stored s.failures name')).length ≤
        (inWindow S now (stored s.failures key')).length
      rw [stored_others hmem, hname]
      by_cases hall : inWindow S now times' = times'
      · rw [hall]
        exact (List.length_filter_le _ _).trans
          (List.le_of_mem_argmin (f := fun e : String × List ℚ => e.2.length) hmem hleast)
      · exact hstale hfull _ hleast (hname ▸ hrecent) _ hmem hall
  | blocked _ _ => exact Iff.rfl
  | reset _ => exact Iff.rfl

/-! ### Runs -/

variable {h : List (Event State Label)} {s t : State}

/-- What some calls keep of a name that they do not forget. -/
theorem kept_of_run (r : Run (Step S) t h s) (ht : InOrder t.failures t.clock) :
    InOrder s.failures s.clock ∧ (t.failures.size ≤ maxTracked → s.failures.size ≤ maxTracked) ∧
      ∀ key, (∀ e ∈ h, ¬ Forgets S key e) → ∀ now, s.clock ≤ now →
        inWindow S now (stored s.failures key) =
          inWindow S now (stored t.failures key) ++ inWindow S now (failuresOf S key h) := by
  induction r with
  | nil => exact ⟨ht, id, fun key _ now _ => (List.append_nil _).symm⟩
  | snoc r hs ih =>
    obtain ⟨horder, hsize, hkept⟩ := ih
    obtain ⟨horder', hsize', hclock, hstep⟩ := step_spec (e := ⟨_, _, _⟩) hs horder
    refine ⟨horder', hsize' ∘ hsize, fun key hno now hnow => ?_⟩
    rw [hstep key (hno _ List.mem_concat_self) now hnow,
      hkept key (fun e he => hno e (List.mem_append_left _ he)) now (hclock.trans hnow),
      List.append_assoc, failuresOf, failuresOf, failuresOf, List.filterMap_append]
    exact congrArg (_ ++ ·) (List.filter_append ..).symm

def State.fresh (clock : ℚ) : State := ⟨OrderedDict.empty, clock⟩

/-- **Lockouts cannot be flushed, just when a stale name never has fewer failures than the one
that is evicted.** -/
theorem lockoutsHold_iff {clock : ℚ} (r : Run (Step S) (State.fresh clock) h s) :
    LockoutsHold S h s ↔ ∀ e ∈ h, StaleNotFewer S e := by
  have hfresh : InOrder (State.fresh clock).failures (State.fresh clock).clock :=
    fun e he => (nomatch he)
  have hevent : ∀ e ∈ h, FewestGoes S e ↔ StaleNotFewer S e := fun e he => by
    obtain ⟨f, g, rfl⟩ := List.append_of_mem he
    exact fewestGoes_iff r.at_event.2.1
  refine ⟨fun hold e he => (hevent e he).mp (hold.fewest e he),
    fun hstale => ⟨?_, (kept_of_run r hfresh).2.1 (Nat.zero_le _),
      fun e he => (hevent e he).mpr (hstale e he)⟩⟩
  rintro f g rfl username hno now hnow hmany
  obtain ⟨t, hf, hg⟩ := r.split
  have hkept := (kept_of_run hg (kept_of_run hf hfresh).1).2.2 _ hno now hnow
  refine decide_eq_true (hmany.trans ?_)
  show _ ≤ (inWindow S now (stored s.failures (S.normalize username))).length
  rw [hkept, List.length_append]
  exact Nat.le_add_left _ _

/-! ### A half-expired name -/

/-- The throttle as it is built, for names that are normal. -/
def stock : Setup := ⟨id, 5, 900⟩

theorem Step.recordFailure {clock : ℚ} (now : ℚ) (hle : clock ≤ now) (username : String) :
    Step S ⟨failures, clock⟩ (.recordFailure username now)
      ⟨LoginThrottle.recordFailure S failures username now, now⟩ := if_pos hle

/-- A failure of one name. -/
theorem lockoutsHold_one :
    ∃ h s, Run (Step stock) (State.fresh 0) h s ∧ LockoutsHold stock h s := by
  have hstep : Step stock (State.fresh 0) (.recordFailure "ann" 1)
      ⟨recordFailure stock OrderedDict.empty "ann" 1, 1⟩ :=
    Step.recordFailure 1 (zero_le_one' ℚ) "ann"
  have r := Run.single hstep
  refine ⟨_, _, r, (lockoutsHold_iff r).mpr fun e he => ?_⟩
  rw [List.mem_singleton.mp he]
  exact fun hfull => absurd hfull (by decide +kernel)

/-- A failure while no other name has expired and the table has room. -/
theorem entries_recordFailure
    (hlive : dropExpired stock (failures.erase username) now = failures.erase username)
    (hroom : (failures.erase username).size < maxTracked) :
    (recordFailure stock failures username now).entries = (failures.erase username).entries ++
      [(username, inWindow stock now (stored failures username) ++ [now])] := by
  have hothers : others stock failures username now = failures.erase username := by
    have herase : (recent stock failures username now).2.erase username =
        failures.erase username := by
      rw [recent]
      split_ifs
      · exact OrderedDict.ext (OrderedDict.erase_set failures username _)
      · exact erase_of_not_mem (OrderedDict.not_mem_erase_keys _ _)
    show dropExpired stock ((recent stock failures username now).2.erase username) now = _
    rw [herase, hlive]
  have hout : evicted stock failures username now = none := by
    rw [evicted, hothers, if_neg (not_le.mpr hroom)]
  rw [recordFailure, hout, hothers]
  show ((failures.erase username).set username _).entries = _
  rw [OrderedDict.set, if_neg (OrderedDict.not_mem_erase_keys _ _)]
  show ((failures.erase username).erase username).entries ++ _ = _
  rw [erase_of_not_mem (OrderedDict.not_mem_erase_keys _ _)]
  rfl

/-- A name with two failures that are about to leave the window, and one that is not. -/
def half : Failures :=
  recordFailure stock (recordFailure stock (recordFailure stock OrderedDict.empty "b" 0) "b" 1)
    "b" 899

def made (k : ℕ) : String := String.ofList (List.replicate k 'a')

/-- So many made-up names have failed twice since. -/
def crowd : ℕ → Failures
  | 0 => half
  | k + 1 => recordFailure stock (recordFailure stock (crowd k) (made k) 900) (made k) 900

theorem made_injective : Function.Injective made := fun k k' h => by
  have hlist := congrArg (fun s : String => s.toList.length) h
  simpa [made] using hlist

/-- Nothing has expired while the first name is live. -/
theorem dropExpired_eq {rest : List (String × List ℚ)}
    (h : failures.entries = e :: rest) (hlive : live stock now e.2 = true) :
    dropExpired stock failures now = failures := by
  refine OrderedDict.ext ?_
  show failures.entries.dropWhile _ = failures.entries
  rw [h, List.dropWhile_cons_of_neg (by simp [hlive])]

theorem entries_crowd {k : ℕ} (hk : k < maxTracked) : (crowd k).entries =
    ("b", [0, 1, 899]) :: (List.range k).map (fun i => (made i, [900, 900])) := by
  induction k with
  | zero => decide +kernel
  | succ k ih =>
    have hentries := ih (Nat.lt_of_succ_lt hk)
    have hnew : made k ∉ (crowd k).keys := by
      rw [OrderedDict.keys, hentries, List.map_cons, List.map_map, List.mem_cons, not_or]
      constructor
      · intro heq
        have hlist := congrArg String.toList heq
        simp only [made, String.toList_ofList] at hlist
        have hb : 'b' ∈ List.replicate k 'a' := by
          rw [hlist]
          decide
        exact absurd (List.eq_of_mem_replicate hb) (by decide)
      · intro hin
        obtain ⟨i, hi, heq⟩ := List.mem_map.mp hin
        exact (List.mem_range.mp hi).ne (made_injective heq)
    have hlive : dropExpired stock (crowd k) 900 = crowd k :=
      dropExpired_eq hentries (by decide +kernel)
    have hroom : (crowd k).size < maxTracked := by
      rw [OrderedDict.size, hentries, List.length_cons, List.length_map, List.length_range]
      exact hk
    have hfirst : (recordFailure stock (crowd k) (made k) 900).entries =
        (crowd k).entries ++ [(made k, [900])] := by
      have herase := erase_of_not_mem hnew
      rw [entries_recordFailure (by rw [herase, hlive]) (by rw [herase]; exact hroom), herase,
        stored, OrderedDict.get?_eq_none_iff.mpr hnew]
      rfl
    have herase : (recordFailure stock (crowd k) (made k) 900).erase (made k) = crowd k := by
      refine OrderedDict.ext ?_
      show (recordFailure stock (crowd k) (made k) 900).entries.filter _ = _
      rw [hfirst, List.filter_append, List.filter_cons_of_neg (by simp), List.filter_nil,
        List.append_nil]
      exact congrArg OrderedDict.entries (erase_of_not_mem hnew)
    have hstored : stored (recordFailure stock (crowd k) (made k) 900) (made k) = [900] :=
      stored_of_mem (hfirst ▸ List.mem_concat_self)
    rw [crowd, entries_recordFailure (by rw [herase, hlive]) (by rw [herase]; exact hroom), herase,
      hstored, hentries, List.range_succ, List.map_append]
    have hboth : inWindow stock 900 [900] ++ [900] = [900, 900] := by decide +kernel
    rw [hboth]
    rfl

theorem exists_run_crowd (k : ℕ) : ∃ h clock, clock ≤ 900 ∧
    Run (Step stock) (State.fresh 0) h ⟨crowd k, clock⟩ := by
  induction k with
  | zero =>
    exact ⟨_, 899, by norm_num, (((Run.nil _).snoc (Step.recordFailure 0 le_rfl "b")).snoc
      (Step.recordFailure 1 (by norm_num) "b")).snoc
        (Step.recordFailure 899 (by norm_num) "b")⟩
  | succ k ih =>
    obtain ⟨h, clock, hle, r⟩ := ih
    exact ⟨_, 900, le_rfl, (r.snoc (Step.recordFailure 900 hle (made k))).snoc
      (Step.recordFailure 900 le_rfl (made k))⟩

/-- **A fresh name pushes out one with two recent failures and leaves one that has a single
recent failure, for it still stores two that are stale.** -/
theorem not_forall_lockoutsHold : ¬ ∀ (S : Setup) (clock : ℚ) (h : List (Event State Label))
    (s : State), Run (Step S) (State.fresh clock) h s → LockoutsHold S h s := by
  intro hall
  obtain ⟨h, clock, hle, r⟩ := exists_run_crowd 9999
  have hentries := entries_crowd (k := 9999) (by decide)
  generalize crowd 9999 = full at r hentries
  have hlast : Step stock ⟨full, clock⟩ (.recordFailure "c" 905)
      ⟨recordFailure stock full "c" 905, 905⟩ :=
    Step.recordFailure 905 (hle.trans (by norm_num)) "c"
  have hfew := (hall stock 0 _ _ (r.snoc hlast)).fewest _
    List.mem_concat_self
  have hnew : "c" ∉ full.keys := by
    rw [OrderedDict.keys, hentries, List.map_cons, List.map_map, List.mem_cons, not_or]
    refine ⟨by decide, fun hin => ?_⟩
    obtain ⟨i, -, heq⟩ := List.mem_map.mp hin
    have hlist := congrArg String.toList heq
    simp only [Function.comp_apply, made, String.toList_ofList] at hlist
    have hc : 'c' ∈ List.replicate i 'a' := by
      rw [hlist]
      decide
    exact absurd (List.eq_of_mem_replicate hc) (by decide)
  have hothers : others stock full "c" 905 = full := by
    have hnone : (recent stock full "c" 905).2 = full := by
      rw [recent, stored, OrderedDict.get?_eq_none_iff.mpr hnew]
      exact erase_of_not_mem hnew
    show dropExpired stock ((recent stock full "c" 905).2.erase "c") 905 = _
    rw [hnone, erase_of_not_mem hnew, dropExpired_eq hentries (by decide +kernel)]
  obtain ⟨name, hout⟩ : ∃ name, evicted stock full "c" 905 = some name := by
    rw [← Option.ne_none_iff_exists']
    intro hnone
    have hlt := size_lt_of_not_evicted hnone
    rw [hothers, OrderedDict.size, hentries, List.length_cons, List.length_map,
      List.length_range] at hlt
    exact absurd hlt (by decide)
  obtain ⟨times, hmem, hmin⟩ := evicted_spec hout
  rw [hothers, hentries] at hmem hmin
  have hshort := hmin (made 0, [900, 900])
    (List.mem_cons_of_mem _ (List.mem_map.mpr ⟨0, List.mem_range.mpr (by decide), rfl⟩))
  have htwo : times = [900, 900] := by
    rcases List.mem_cons.mp hmem with heq | hin
    · cases heq
      exact absurd hshort (by decide)
    · obtain ⟨_, -, heq⟩ := List.mem_map.mp hin
      exact (congrArg Prod.snd heq).symm
  have hstored : stored full name = [900, 900] :=
    htwo ▸ stored_of_mem (hentries ▸ hmem)
  have hb : stored full "b" = [0, 1, 899] :=
    stored_of_mem (hentries ▸ List.mem_cons_self)
  have hkept : "b" ∈ (recordFailure stock full "c" 905).keys := by
    refine (mem_keys_recordFailure hout (by decide)).mpr ⟨?_, ?_⟩
    · rw [hothers, OrderedDict.keys, hentries]
      exact List.mem_cons_self
    · rintro rfl
      rw [hb] at hstored
      exact absurd hstored (by decide +kernel)
  have hle := hfew name hout (by rw [hstored]; decide +kernel) "b" hkept (by decide)
  rw [hstored, hb] at hle
  exact absurd hle (by decide +kernel)

end RtfmEv.LoginThrottle
