import Mathlib.Data.List.Basic

/-!
# The lock of an event loop

A task that finds the lock taken queues a future and is resumed by it. A release
frees the lock and wakes the first waiter, which takes the lock only when it runs
again. A waiter whose task is cancelled leaves the queue when it runs, and passes
the wake-up on if the lock is free. A task may pass the queue if every waiter in it
has been cancelled.

`Ordered` is the invariant: only the first waiter is ever woken, and none while the
lock is taken. From it a task is given the lock only while it is free.
-/

namespace RtfmEv.Lib

/-- Where a waiter is. `cancelled` is a cancelled future, `stopped` one that was woken
before its task was cancelled. -/
inductive Waiter
  | pending
  | woken
  | cancelled
  | stopped
  deriving DecidableEq

/-- The future has a result. -/
def Waiter.hasResult : Waiter → Bool
  | woken => true
  | stopped => true
  | _ => false

structure AsyncLock (ι : Type*) where
  locked : Bool := false
  waiters : List (ι × Waiter) := []

namespace AsyncLock

variable {ι : Type*}

def wakeUpFirst (L : AsyncLock ι) : AsyncLock ι :=
  match L.waiters with
  | (i, .pending) :: rest => { L with waiters := (i, .woken) :: rest }
  | _ => L

def release (L : AsyncLock ι) : AsyncLock ι :=
  wakeUpFirst { L with locked := false }

/-- A call of `acquire` up to its first wait, and whether it has the lock. -/
def acquire (L : AsyncLock ι) (i : ι) : Bool × AsyncLock ι :=
  if !L.locked && L.waiters.all (fun w => w.2 = .cancelled) then (true, { L with locked := true })
  else (false, { L with waiters := L.waiters ++ [(i, .pending)] })

section

variable [DecidableEq ι]

/-- Where the waiter of a task is. -/
def waiter? (L : AsyncLock ι) (i : ι) : Option Waiter :=
  (L.waiters.find? (fun w => w.1 = i)).map Prod.snd

def remove (L : AsyncLock ι) (i : ι) : AsyncLock ι :=
  { L with waiters := L.waiters.eraseP (fun w => w.1 = i) }

/-- A waiter that is done runs again, and has the lock or was cancelled. -/
def resume (L : AsyncLock ι) (i : ι) : Option (Bool × AsyncLock ι) :=
  match L.waiter? i with
  | some .woken => some (true, { L.remove i with locked := true })
  | some .cancelled => some (false, if L.locked then L.remove i else (L.remove i).wakeUpFirst)
  | some .stopped => some (false, if L.locked then L.remove i else (L.remove i).wakeUpFirst)
  | _ => none

def Waiter.cancel : Waiter → Waiter
  | .pending => .cancelled
  | .woken => .stopped
  | w => w

/-- The task of a waiter is cancelled. -/
def cancel (L : AsyncLock ι) (i : ι) : AsyncLock ι :=
  { L with waiters := L.waiters.map (fun w => if w.1 = i then (w.1, Waiter.cancel w.2) else w) }

end

/-! ### Only the first waiter is woken -/

/-- **The invariant.** Only the first waiter may have a result, and only while the lock is
free. -/
structure Ordered (L : AsyncLock ι) : Prop where
  tail : ∀ w ∈ L.waiters.tail, w.2.hasResult = false
  taken : L.locked = true → ∀ w ∈ L.waiters, w.2.hasResult = false

theorem ordered_start : Ordered ({} : AsyncLock ι) := by
  constructor
  · intro w hw
    cases hw
  · intro h
    cases h

@[simp] theorem locked_wakeUpFirst (L : AsyncLock ι) : L.wakeUpFirst.locked = L.locked := by
  unfold wakeUpFirst
  split
  · rfl
  · rfl

theorem tail_wakeUpFirst (L : AsyncLock ι) : L.wakeUpFirst.waiters.tail = L.waiters.tail := by
  unfold wakeUpFirst
  split
  · rename_i heq
    rw [heq]
    rfl
  · rfl

variable {L : AsyncLock ι}

theorem Ordered.wakeUpFirst (h : ∀ w ∈ L.waiters.tail, w.2.hasResult = false)
    (hfree : L.locked = false) : Ordered L.wakeUpFirst := by
  constructor
  · intro w hw
    rw [tail_wakeUpFirst] at hw
    exact h w hw
  · intro hlocked
    rw [locked_wakeUpFirst, hfree] at hlocked
    cases hlocked

theorem Ordered.release (h : Ordered L) : Ordered L.release :=
  Ordered.wakeUpFirst h.tail rfl

/-- A task that has the lock at once found it free and no waiter with a result. -/
theorem acquire_true {i : ι} (h : (L.acquire i).1 = true) :
    L.locked = false ∧ (∀ w ∈ L.waiters, w.2 = .cancelled) ∧
      (L.acquire i).2 = { L with locked := true } := by
  unfold acquire at h ⊢
  split at h
  · rename_i hfree
    rw [if_pos hfree]
    simp only [Bool.and_eq_true, Bool.not_eq_true', List.all_eq_true, decide_eq_true_eq] at hfree
    exact ⟨hfree.1, hfree.2, rfl⟩
  · cases h

theorem acquire_false {i : ι} (h : (L.acquire i).1 = false) :
    (L.acquire i).2 = { L with waiters := L.waiters ++ [(i, .pending)] } := by
  unfold acquire at h ⊢
  split at h
  · cases h
  · rename_i htaken
    rw [if_neg htaken]

theorem Ordered.acquire (h : Ordered L) (i : ι) : Ordered (L.acquire i).2 := by
  cases hgot : (L.acquire i).1 with
  | true =>
    obtain ⟨-, hall, heq⟩ := acquire_true hgot
    rw [heq]
    refine ⟨h.tail, ?_⟩
    intro _ w hw
    rw [hall w hw]
    rfl
  | false =>
    rw [acquire_false hgot]
    have hlast : ∀ w ∈ [(i, Waiter.pending)], w.2.hasResult = false := by
      intro w hw
      rw [List.mem_singleton.mp hw]
      rfl
    constructor
    · intro w hw
      cases hws : L.waiters with
      | nil =>
        rw [hws] at hw
        cases hw
      | cons w₀ rest =>
        rw [hws, List.cons_append, List.tail_cons] at hw
        rcases List.mem_append.mp hw with hin | hin
        · exact h.tail w (by rwa [hws])
        · exact hlast w hin
    · intro hlocked w hw
      rcases List.mem_append.mp hw with hin | hin
      · exact h.taken hlocked w hin
      · exact hlast w hin

section

variable [DecidableEq ι] {L L' : AsyncLock ι}

@[simp] theorem locked_remove (L : AsyncLock ι) (i : ι) : (L.remove i).locked = L.locked := rfl

theorem hasResult_cancel (w : Waiter) : (Waiter.cancel w).hasResult = w.hasResult := by
  cases w with
  | pending => rfl
  | woken => rfl
  | cancelled => rfl
  | stopped => rfl

theorem Ordered.cancel (h : Ordered L) (i : ι) : Ordered (L.cancel i) := by
  have hkeeps : ∀ w : ι × Waiter,
      (if w.1 = i then (w.1, Waiter.cancel w.2) else w).2.hasResult = w.2.hasResult := by
    intro w
    split
    · exact hasResult_cancel w.2
    · rfl
  constructor
  · intro w hw
    rw [AsyncLock.cancel, ← List.map_tail, List.mem_map] at hw
    obtain ⟨w₀, hw₀, rfl⟩ := hw
    rw [hkeeps]
    exact h.tail w₀ hw₀
  · intro hlocked w hw
    obtain ⟨w₀, hw₀, rfl⟩ := List.mem_map.mp hw
    rw [hkeeps]
    exact h.taken hlocked w₀ hw₀

/-- A waiter with a result is the first one, and the lock is free. -/
theorem Ordered.first (h : Ordered L) {i : ι} {w : Waiter}
    (hw : L.waiter? i = some w) (hresult : w.hasResult = true) :
    L.locked = false ∧ L.waiters = (i, w) :: L.waiters.tail := by
  obtain ⟨⟨j, w'⟩, hfind, rfl⟩ := Option.map_eq_some_iff.mp hw
  have hmem := List.mem_of_find?_eq_some hfind
  have hkey : j = i := by simpa using List.find?_some hfind
  subst hkey
  constructor
  · cases hlocked : L.locked with
    | false => rfl
    | true => exact absurd hresult (by rw [h.taken hlocked _ hmem]; decide)
  · cases hws : L.waiters with
    | nil =>
      rw [hws] at hmem
      cases hmem
    | cons w₀ rest =>
      rw [hws] at hmem
      rcases List.mem_cons.mp hmem with heq | hin
      · rw [heq, List.tail_cons]
      · exact absurd hresult (by rw [h.tail _ (by rwa [hws])]; decide)

theorem Ordered.remove (h : Ordered L) (i : ι) : Ordered (L.remove i) := by
  constructor
  · intro w hw
    have hw' : w ∈ (L.waiters.eraseP (fun w => w.1 = i)).tail := hw
    cases hws : L.waiters with
    | nil =>
      rw [hws] at hw'
      cases hw'
    | cons w₀ rest =>
      have htail : ∀ w ∈ rest, w.2.hasResult = false := by
        intro w hw
        exact h.tail w (by rwa [hws])
      rw [hws, List.eraseP_cons, Bool.cond_eq_ite] at hw'
      split at hw'
      · exact htail w (List.mem_of_mem_tail hw')
      · exact htail w (List.mem_of_mem_eraseP hw')
  · intro hlocked w hw
    exact h.taken hlocked w (List.mem_of_mem_eraseP hw)

/-- **Who resumes with the lock** was the first waiter of a free lock. -/
theorem Ordered.resume_true (h : Ordered L) {i : ι} (hr : L.resume i = some (true, L')) :
    L.locked = false ∧ L'.locked = true ∧ Ordered L' := by
  unfold AsyncLock.resume at hr
  split at hr
  · rename_i hw
    obtain ⟨hfree, hws⟩ := h.first hw rfl
    cases hr
    refine ⟨hfree, rfl, (h.remove i).tail, ?_⟩
    intro _ w hin
    have hin' : w ∈ L.waiters.eraseP (fun w => w.1 = i) := hin
    rw [hws, List.eraseP_cons_of_pos (by simp)] at hin'
    exact h.tail w hin'
  · cases hr
  · cases hr
  · cases hr

theorem Ordered.resume_false (h : Ordered L) {i : ι}
    (hr : L.resume i = some (false, L')) : L'.locked = L.locked ∧ Ordered L' := by
  have hleave : (if L.locked then L.remove i else (L.remove i).wakeUpFirst).locked = L.locked ∧
      Ordered (if L.locked then L.remove i else (L.remove i).wakeUpFirst) := by
    split
    · exact ⟨rfl, h.remove i⟩
    · rename_i hfree
      exact ⟨locked_wakeUpFirst _, Ordered.wakeUpFirst (h.remove i).tail (by simpa using hfree)⟩
  unfold AsyncLock.resume at hr
  split at hr
  · cases hr
  · cases hr
    exact hleave
  · cases hr
    exact hleave
  · cases hr

end

end AsyncLock

end RtfmEv.Lib
