import Mathlib.Algebra.BigOperators.Group.List.Basic
import Mathlib.Algebra.GroupWithZero.Nat
import Mathlib.Data.List.GetD

/-!
# Tasks of a cooperative event loop

A task table holds every task that was ever created and the handle of the
current one. A task is at a phase until it has finished. Cancelling only asks a
task to stop: it learns of it when it runs next. `ensure` creates a task unless
the current one is unfinished, whether or not that one was asked to stop.

`HasLive` says that some task is neither finished nor asked to stop,
`OnlyCurrent` that no other task than the current one is. `weight` adds up a
weight of the phases.
-/

namespace RtfmEv.Lib

/-- A task at a phase, `none` once it has finished. -/
structure LoopTask (φ : Type*) where
  phase : Option φ
  cancelRequested : Bool := false
  deriving DecidableEq

/-- Neither finished nor asked to stop. -/
def LoopTask.live {φ : Type*} (t : LoopTask φ) : Bool := t.phase.isSome && !t.cancelRequested

structure TaskTable (φ : Type*) where
  current : Option ℕ := none
  tasks : List (LoopTask φ) := []
  deriving DecidableEq

namespace TaskTable

variable {φ : Type*} {T : TaskTable φ} {i j : ℕ} {t : LoopTask φ} {start : φ} {p : Option φ}

/-- The current task, unless it has finished. -/
def unfinished (T : TaskTable φ) : Option ℕ :=
  match T.current with
  | none => none
  | some i =>
    match T.tasks[i]? with
    | none => none
    | some t => if t.phase.isSome then some i else none

/-- Create a task unless the current one is unfinished. -/
def ensure (T : TaskTable φ) (start : φ) : TaskTable φ :=
  match T.unfinished with
  | some _ => T
  | none => { current := some T.tasks.length, tasks := T.tasks ++ [⟨some start, false⟩] }

/-- Ask the current task to stop. -/
def cancel (T : TaskTable φ) : TaskTable φ :=
  match T.unfinished with
  | some i => { T with tasks := T.tasks.modify i (fun t => { t with cancelRequested := true }) }
  | none => T

def setPhase (T : TaskTable φ) (i : ℕ) (phase : Option φ) : TaskTable φ :=
  { T with tasks := T.tasks.modify i (fun t => { t with phase := phase }) }

/-- Drop the handle of the current task. -/
def forget (T : TaskTable φ) : TaskTable φ := { T with current := none }

/-- LoopTask `i` of the table. -/
def At (T : TaskTable φ) (i : ℕ) (t : LoopTask φ) : Prop := T.tasks[i]? = some t

/-! ### Looking up -/

theorem At.unique {t' : LoopTask φ} (h : T.At i t) (h' : T.At i t') :
    t = t' := Option.some.inj (h.symm.trans h')

theorem unfinished_eq_some_iff :
    T.unfinished = some i ↔ T.current = some i ∧ ∃ t, T.At i t ∧ t.phase.isSome := by
  unfold unfinished At
  constructor
  · intro h
    split at h
    · cases h
    rename_i j hj
    split at h
    · cases h
    rename_i t ht
    split at h
    · rename_i hp
      obtain rfl := Option.some.inj h
      exact ⟨hj, t, ht, hp⟩
    · cases h
  · rintro ⟨hi, t, ht, hp⟩
    simp only [hi, ht, hp, if_true]

theorem at_modify {f : LoopTask φ → LoopTask φ} :
    ({ T with tasks := T.tasks.modify i f } : TaskTable φ).At j t ↔
      ∃ t₀, T.At j t₀ ∧ t = if i = j then f t₀ else t₀ := by
  unfold At
  rw [List.getElem?_modify]
  cases T.tasks[j]? with
  | none => simp
  | some t₀ => simp [eq_comm]

/-- A task that `ensure` meets stays as it is. -/
theorem At.ensure (h : T.At i t) (start : φ) : (T.ensure start).At i t := by
  unfold TaskTable.ensure
  split
  · exact h
  · have hlt : i < T.tasks.length := (List.getElem?_eq_some_iff.mp h).1
    unfold At
    rw [List.getElem?_append_left hlt]
    exact h

/-- A task after `ensure` was there before, or is the new one. -/
theorem at_ensure (h : (T.ensure start).At i t) :
    T.At i t ∨ (T.unfinished = none ∧ (T.ensure start).current = some i ∧
      t = ⟨some start, false⟩) := by
  unfold TaskTable.ensure at h ⊢
  split at h
  · exact Or.inl h
  · rename_i hnone
    unfold At at h
    by_cases hlt : i < T.tasks.length
    · rw [List.getElem?_append_left hlt] at h
      exact Or.inl h
    · right
      have hlen : i < (T.tasks ++ [(⟨some start, false⟩ : LoopTask φ)]).length :=
        (List.getElem?_eq_some_iff.mp h).1
      have hi : i = T.tasks.length := by
        rw [List.length_append, List.length_singleton] at hlen
        omega
      rw [hi, List.getElem?_concat_length] at h
      exact ⟨hnone, by rw [hi], (Option.some.inj h).symm⟩

theorem at_setPhase :
    (T.setPhase i p).At j t ↔ ∃ t₀, T.At j t₀ ∧ t = if i = j then { t₀ with phase := p } else t₀ :=
  at_modify

/-- A task after `cancel` was there before at the same phase. One that is still
live was not touched and is not the current one. -/
theorem at_cancel (h : T.cancel.At j t) :
    ∃ t₀, T.At j t₀ ∧ t.phase = t₀.phase ∧ (t.live → t = t₀ ∧ T.current ≠ some j) := by
  unfold TaskTable.cancel at h
  split at h
  · rename_i i hi
    obtain ⟨t₀, h₀, rfl⟩ := at_modify.mp h
    refine ⟨t₀, h₀, by split <;> rfl, ?_⟩
    by_cases hij : i = j
    · intro hl
      rw [if_pos hij] at hl
      simp [LoopTask.live] at hl
    · intro _
      rw [if_neg hij, (unfinished_eq_some_iff.mp hi).1]
      exact ⟨rfl, fun hc => hij (Option.some.inj hc)⟩
  · rename_i hnone
    refine ⟨t, h, rfl, fun hl => ⟨rfl, ?_⟩⟩
    intro hc
    have hp : t.phase.isSome := by
      rw [LoopTask.live, Bool.and_eq_true] at hl
      exact hl.1
    rw [unfinished_eq_some_iff.mpr ⟨hc, t, h, hp⟩] at hnone
    cases hnone

theorem current_cancel (T : TaskTable φ) : T.cancel.current = T.current := by
  unfold TaskTable.cancel
  split <;> rfl

theorem At.cancel (h : T.At i t) : ∃ t', T.cancel.At i t' ∧ t'.phase = t.phase := by
  unfold TaskTable.cancel
  split
  · exact ⟨_, at_modify.mpr ⟨t, h, rfl⟩, by split <;> rfl⟩
  · exact ⟨t, h, rfl⟩

/-- What a program that keeps its handle does to the table: no finished task
comes back. -/
inductive Moves (start : φ) (T : TaskTable φ) : TaskTable φ → Prop
  | refl : Moves start T T
  | ensure {T' : TaskTable φ} (h : Moves start T T') : Moves start T (T'.ensure start)
  | cancel {T' : TaskTable φ} (h : Moves start T T') : Moves start T T'.cancel
  | setPhase {T' : TaskTable φ} {i : ℕ} {t : LoopTask φ} {p : Option φ} (h : Moves start T T')
      (ht : T'.At i t) (hp : p.isSome → t.phase.isSome) : Moves start T (T'.setPhase i p)

/-! ### Live tasks -/

/-- Some task is neither finished nor asked to stop. -/
def HasLive (T : TaskTable φ) : Prop := ∃ i t, T.At i t ∧ t.live

theorem hasLive_iff : T.HasLive ↔ ∃ t ∈ T.tasks, t.live = true := by
  constructor
  · rintro ⟨i, t, ht, hl⟩
    exact ⟨t, List.mem_of_getElem? ht, hl⟩
  · rintro ⟨t, ht, hl⟩
    obtain ⟨i, hi⟩ := List.mem_iff_getElem?.mp ht
    exact ⟨i, t, hi, hl⟩

instance (T : TaskTable φ) : Decidable T.HasLive := decidable_of_iff _ hasLive_iff.symm

/-- **Supervision.** `ensure` leaves a live task unless the current one is
unfinished and no task is live. -/
theorem hasLive_ensure_iff : (T.ensure start).HasLive ↔ T.HasLive ∨ T.unfinished = none := by
  constructor
  · rintro ⟨i, t, ht, hl⟩
    rcases at_ensure ht with h | ⟨hnone, _, _⟩
    · exact Or.inl ⟨i, t, h, hl⟩
    · exact Or.inr hnone
  · rintro (⟨i, t, ht, hl⟩ | hnone)
    · exact ⟨i, t, ht.ensure start, hl⟩
    · refine ⟨T.tasks.length, ⟨some start, false⟩, ?_, rfl⟩
      unfold TaskTable.ensure At
      rw [hnone]
      exact List.getElem?_concat_length

theorem HasLive.setPhase_some (h : T.HasLive) (i : ℕ) (p : φ) :
    (T.setPhase i (some p)).HasLive := by
  obtain ⟨j, t, ht, hl⟩ := h
  refine ⟨j, _, at_setPhase.mpr ⟨t, ht, rfl⟩, ?_⟩
  split
  · rw [LoopTask.live, Bool.and_eq_true] at hl ⊢
    exact ⟨rfl, hl.2⟩
  · exact hl

/-- The end of a task that was asked to stop does not concern the live ones. -/
theorem HasLive.setPhase_of_not_live (h : T.HasLive)
    (ht : T.At i t) (hd : t.live = false) (p : Option φ) : (T.setPhase i p).HasLive := by
  obtain ⟨j, t', ht', hl⟩ := h
  refine ⟨j, _, at_setPhase.mpr ⟨t', ht', rfl⟩, ?_⟩
  rw [if_neg]
  · exact hl
  · rintro rfl
    rw [ht.unique ht'] at hd
    rw [hd] at hl
    cases hl

theorem HasLive.of_setPhase
    (h : (T.setPhase i p).HasLive) (ht : T.At i t) (hp : p.isSome → t.phase.isSome) :
    T.HasLive := by
  obtain ⟨j, t', ht', hl⟩ := h
  obtain ⟨t₀, h₀, rfl⟩ := at_setPhase.mp ht'
  refine ⟨j, t₀, h₀, ?_⟩
  split at hl
  · rename_i hij
    subst hij
    obtain rfl := ht.unique h₀
    rw [LoopTask.live, Bool.and_eq_true] at hl ⊢
    exact ⟨hp hl.1, hl.2⟩
  · exact hl

/-- No task but the current one is live. -/
def OnlyCurrent (T : TaskTable φ) : Prop := ∀ i t, T.At i t → t.live → T.current = some i

theorem OnlyCurrent.ensure (h : T.OnlyCurrent) (start : φ) : (T.ensure start).OnlyCurrent := by
  intro i t ht hl
  rcases at_ensure ht with h' | ⟨_, hc, _⟩
  · have hi := h i t h' hl
    have hp : t.phase.isSome := by
      rw [LoopTask.live, Bool.and_eq_true] at hl
      exact hl.1
    unfold TaskTable.ensure
    rw [unfinished_eq_some_iff.mpr ⟨hi, t, h', hp⟩]
    exact hi
  · exact hc

theorem OnlyCurrent.not_hasLive_cancel (h : T.OnlyCurrent) : ¬ T.cancel.HasLive := by
  rintro ⟨i, t, ht, hl⟩
  obtain ⟨t₀, h₀, _, hlive⟩ := at_cancel ht
  obtain ⟨rfl, hne⟩ := hlive hl
  exact hne (h i t h₀ hl)

theorem OnlyCurrent.cancel (h : T.OnlyCurrent) : T.cancel.OnlyCurrent :=
  fun i t ht hl => absurd ⟨i, t, ht, hl⟩ h.not_hasLive_cancel

theorem HasLive.of_cancel (h : T.cancel.HasLive) : T.HasLive := by
  obtain ⟨i, t, ht, hl⟩ := h
  obtain ⟨t₀, h₀, _, hlive⟩ := at_cancel ht
  obtain ⟨rfl, _⟩ := hlive hl
  exact ⟨i, t, h₀, hl⟩

theorem onlyCurrent_of_not_hasLive (h : ¬ T.HasLive) : T.OnlyCurrent :=
  fun i t ht hl => absurd ⟨i, t, ht, hl⟩ h

theorem OnlyCurrent.setPhase (h : T.OnlyCurrent) (ht : T.At i t) (hp : p.isSome → t.phase.isSome) :
    (T.setPhase i p).OnlyCurrent := by
  intro j t' ht' hl
  obtain ⟨t₀, h₀, rfl⟩ := at_setPhase.mp ht'
  refine h j t₀ h₀ ?_
  split at hl
  · rename_i hij
    subst hij
    obtain rfl := ht.unique h₀
    rw [LoopTask.live, Bool.and_eq_true] at hl ⊢
    exact ⟨hp hl.1, hl.2⟩
  · exact hl

/-- No task but the current one is unfinished. -/
def Single (T : TaskTable φ) : Prop :=
  ∀ i t, T.At i t → t.phase.isSome = true → T.current = some i

theorem Single.moves {T T' : TaskTable φ} (h : T.Single) (hm : Moves start T T') : T'.Single := by
  induction hm with
  | refl => exact h
  | @ensure T' _ ih =>
    intro i t ht hp
    rcases at_ensure ht with h' | ⟨_, hc, _⟩
    · have hi := ih i t h' hp
      unfold TaskTable.ensure
      rw [unfinished_eq_some_iff.mpr ⟨hi, t, h', hp⟩]
      exact hi
    · exact hc
  | cancel _ ih =>
    intro i t ht hp
    obtain ⟨t₀, h₀, hphase, _⟩ := at_cancel ht
    rw [current_cancel]
    exact ih i t₀ h₀ (hphase ▸ hp)
  | setPhase _ ht hp ih =>
    intro j t' ht' hp'
    obtain ⟨t₀, h₀, rfl⟩ := at_setPhase.mp ht'
    refine ih j t₀ h₀ ?_
    split at hp'
    · rename_i hij
      subst hij
      obtain rfl := ht.unique h₀
      exact hp hp'
    · exact hp'

/-! ### Weights -/

/-- The sum of a weight over the phases of all tasks. -/
def weight (w : φ → ℕ) (T : TaskTable φ) : ℕ := (T.tasks.map (fun t => t.phase.elim 0 w)).sum

theorem weight_ensure (w : φ → ℕ) (T : TaskTable φ) (hw : w start = 0) :
    (T.ensure start).weight w = T.weight w := by
  unfold TaskTable.ensure
  split
  · rfl
  · simp [weight, hw]

theorem sum_map_modify {α : Type*} (f : α → ℕ) (g : α → α) {l : List α} {a : α}
    (h : l[i]? = some a) :
    ((l.modify i g).map f).sum + f a = (l.map f).sum + f (g a) := by
  induction l generalizing i with
  | nil => simp at h
  | cons b l ih =>
    cases i with
    | zero =>
      obtain rfl := Option.some.inj h
      simp only [List.modify_zero_cons, List.map_cons, List.sum_cons]
      omega
    | succ i =>
      have := ih (show l[i]? = some a from h)
      simp only [List.modify_succ_cons, List.map_cons, List.sum_cons]
      omega

theorem weight_setPhase (w : φ → ℕ) {T : TaskTable φ} (h : T.At i t) (p : Option φ) :
    (T.setPhase i p).weight w + t.phase.elim 0 w = T.weight w + p.elim 0 w :=
  sum_map_modify (fun t => t.phase.elim 0 w) (fun t => { t with phase := p }) h

theorem weight_cancel (w : φ → ℕ) (T : TaskTable φ) : T.cancel.weight w = T.weight w := by
  unfold TaskTable.cancel
  split
  · rename_i i hi
    obtain ⟨_, t, ht, _⟩ := unfinished_eq_some_iff.mp hi
    exact Nat.add_right_cancel (sum_map_modify (fun t => t.phase.elim 0 w)
      (fun t => { t with cancelRequested := true }) ht)
  · rfl

theorem sum_le_one {l : List ℕ} (hle : ∀ x ∈ l, x ≤ 1)
    (huniq : ∀ i j : ℕ, l[i]? = some 1 → l[j]? = some 1 → i = j) : l.sum ≤ 1 := by
  induction l with
  | nil => simp
  | cons a l ih =>
    have ha := hle a List.mem_cons_self
    have hl : ∀ x ∈ l, x ≤ 1 := fun x hx => hle x (List.mem_cons_of_mem a hx)
    rw [List.sum_cons]
    rcases Nat.le_one_iff_eq_zero_or_eq_one.mp ha with rfl | rfl
    · rw [Nat.zero_add]
      exact ih hl (fun i j hi hj => Nat.succ.inj (huniq (i + 1) (j + 1) hi hj))
    · have hzero : l.sum = 0 := by
        apply List.sum_eq_zero
        intro x hx
        rcases Nat.le_one_iff_eq_zero_or_eq_one.mp (hl x hx) with h | h
        · exact h
        · subst h
          obtain ⟨j, hj⟩ := List.mem_iff_getElem?.mp hx
          exact absurd (huniq 0 (j + 1) rfl hj) (by omega)
      omega

theorem Single.weight_le_one (h : T.Single) {w : φ → ℕ} (hw : ∀ p, w p ≤ 1) : T.weight w ≤ 1 := by
  have hone : ∀ i, (T.tasks.map (fun t => t.phase.elim 0 w))[i]? = some 1 →
      T.current = some i := by
    intro i hi
    rw [List.getElem?_map, Option.map_eq_some_iff] at hi
    obtain ⟨t, ht, hp⟩ := hi
    refine h i t ht ?_
    cases hphase : t.phase with
    | none =>
      rw [hphase] at hp
      cases hp
    | some p => rfl
  apply sum_le_one
  · intro x hx
    obtain ⟨t, _, rfl⟩ := List.mem_map.mp hx
    cases t.phase with
    | none => exact Nat.zero_le 1
    | some p => exact hw p
  · intro i j hi hj
    exact Option.some.inj ((hone i hi).symm.trans (hone j hj))

end TaskTable

end RtfmEv.Lib
