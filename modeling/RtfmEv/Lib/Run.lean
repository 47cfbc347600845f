import Mathlib.Data.List.Induction
import Mathlib.Algebra.Order.Monoid.Defs
import Mathlib.Data.Nat.Cast.Defs

/-!
# Runs of a labelled transition system

A run is a start state, the events it went through and the state it ended in.
An event keeps the states on both sides of its step, so a property of the run
can speak about each step's input and effect. Runs grow at the end, which is
the direction an invariant is carried in.
-/

namespace RtfmEv.Lib

/-- One step of a run. -/
structure Event (σ ι : Type*) where
  pre : σ
  label : ι
  post : σ

/-- `Run step s h t`: the events `h` lead from `s` to `t`. -/
inductive Run {σ ι : Type*} (step : σ → ι → σ → Prop) : σ → List (Event σ ι) → σ → Prop
  | nil (s : σ) : Run step s [] s
  | snoc {s t u : σ} {l : ι} {h : List (Event σ ι)} :
      Run step s h t → step t l u → Run step s (h ++ [⟨t, l, u⟩]) u

namespace Run

variable {σ ι : Type*} {step : σ → ι → σ → Prop} {t u s : σ} {h h₁ h₂ : List (Event σ ι)}
  {C : Event σ ι → Prop} {f : σ → ι → Option σ}

theorem single {l : ι} (h : step s l t) : Run step s [⟨s, l, t⟩] t :=
  Run.snoc (Run.nil s) h

theorem append (r₁ : Run step s h₁ t) (r₂ : Run step t h₂ u) : Run step s (h₁ ++ h₂) u := by
  induction r₂ with
  | nil => simpa using r₁
  | snoc _ hs ih =>
    rw [← List.append_assoc]
    exact Run.snoc ih hs

theorem split (r : Run step s (h₁ ++ h₂) u) : ∃ t, Run step s h₁ t ∧ Run step t h₂ u := by
  induction h₂ using List.reverseRecOn generalizing u with
  | nil => exact ⟨u, by simpa using r, Run.nil u⟩
  | append_singleton h₂ e ih =>
    rw [← List.append_assoc] at r
    generalize hh : (h₁ ++ h₂) ++ [e] = h at r
    cases r with
    | nil => simp at hh
    | snoc r' hs =>
      obtain ⟨rfl, hlast⟩ := List.append_inj' hh rfl
      obtain ⟨t, ht, htu⟩ := ih r'
      rw [List.singleton_inj.mp hlast]
      exact ⟨t, ht, Run.snoc htu hs⟩

/-- The step an event of the run stands for, with the runs around it. -/
theorem at_event {f g : List (Event σ ι)} {e : Event σ ι} (r : Run step s (f ++ e :: g) u) :
    Run step s f e.pre ∧ step e.pre e.label e.post ∧ Run step e.post g u := by
  have hsplit : f ++ e :: g = (f ++ [e]) ++ g := by simp
  rw [hsplit] at r
  obtain ⟨t, r₁, r₂⟩ := r.split
  generalize hh : f ++ [e] = h at r₁
  cases r₁ with
  | nil => simp at hh
  | snoc r' hs =>
    obtain ⟨rfl, hlast⟩ := List.append_inj' hh rfl
    rw [List.singleton_inj.mp hlast]
    exact ⟨r', hs, r₂⟩

theorem post_of_getLast {e : Event σ ι} (r : Run step s h t)
    (hlast : h.getLast? = some e) : e.post = t := by
  cases r with
  | nil => cases hlast
  | snoc _ _ =>
    rw [List.getLast?_concat] at hlast
    rw [← Option.some.inj hlast]

/-- **Invariant rule.** What every allowed step preserves holds at the end. -/
theorem invariant {P : σ → Prop} (r : Run step s h t) (hC : ∀ e ∈ h, C e)
    (hstep : ∀ e : Event σ ι, step e.pre e.label e.post → C e → P e.pre → P e.post)
    (hs : P s) : P t := by
  induction r with
  | nil => exact hs
  | snoc _ hstep' ih =>
    exact hstep _ hstep' (hC _ List.mem_concat_self)
      (ih (fun e he => hC e (List.mem_append_left _ he)))

/-- **History rule.** The same for a relation between the events so far and the
state they led to. -/
theorem history {P : List (Event σ ι) → σ → Prop}
    (r : Run step s h t) (hC : ∀ e ∈ h, C e) (hs : P [] s)
    (hstep : ∀ (h : List (Event σ ι)) (e : Event σ ι), step e.pre e.label e.post → C e →
      P h e.pre → P (h ++ [e]) e.post) : P h t := by
  induction r with
  | nil => exact hs
  | snoc _ hstep' ih =>
    exact hstep _ _ hstep' (hC _ List.mem_concat_self)
      (ih (fun e he => hC e (List.mem_append_left _ he)))

/-- The events of a list of labels under a partial step function. -/
def trace (f : σ → ι → Option σ) : σ → List ι → Option (List (Event σ ι) × σ)
  | s, [] => some ([], s)
  | s, l :: ls =>
    match f s l with
    | none => none
    | some t => (trace f t ls).map (fun r => (⟨s, l, t⟩ :: r.1, r.2))

theorem of_trace {ls : List ι}
    (ht : trace f s ls = some (h, t)) : Run (fun s l s' => f s l = some s') s h t := by
  induction ls generalizing s h with
  | nil =>
    cases ht
    exact Run.nil _
  | cons l ls ih =>
    rw [trace] at ht
    split at ht
    · cases ht
    rename_i u hu
    obtain ⟨r, hr, heq⟩ := Option.map_eq_some_iff.mp ht
    cases heq
    have hstep : Run (fun s l s' => f s l = some s') s [⟨s, l, u⟩] u := Run.single hu
    exact hstep.append (ih hr)

theorem labels_of_trace {ls : List ι}
    (ht : trace f s ls = some (h, t)) : h.map Event.label = ls := by
  induction ls generalizing s h with
  | nil =>
    cases ht
    rfl
  | cons l ls ih =>
    rw [trace] at ht
    split at ht
    · cases ht
    obtain ⟨r, hr, heq⟩ := Option.map_eq_some_iff.mp ht
    cases heq
    rw [List.map_cons, ih hr]

/-- A run of the labels in a list exists when each of them is possible. -/
theorem exists_of_trace (f : σ → ι → Option σ) (s : σ) (ls : List ι)
    (p : List (Event σ ι) × σ → Bool) (ht : (trace f s ls).any p = true) :
    ∃ h t, Run (fun s l s' => f s l = some s') s h t ∧ h.map Event.label = ls ∧
      p (h, t) = true := by
  cases hr : trace f s ls with
  | none =>
    rw [hr] at ht
    cases ht
  | some r =>
    rw [hr] at ht
    exact ⟨r.1, r.2, of_trace hr, labels_of_trace hr, ht⟩

end Run

/-!
## Runs under a clock

A component that is told the time at each call. No call is earlier than the one before it. What
the calls of a run pay out is bounded by a potential that each of them pays for.
-/

variable {σ τ ι : Type*}

/-- A state with the time of the last call. -/
structure Timed (τ σ : Type*) where
  clock : τ
  state : σ

/-- One call, at a time that is not before the last one. -/
def Ticks [LE τ] (f : σ → τ → ι → σ) (s : Timed τ σ) (l : τ × ι) (s' : Timed τ σ) : Prop :=
  s.clock ≤ l.1 ∧ s' = ⟨l.1, f s.state l.1 l.2⟩

namespace Ticks

variable [LE τ] {f : σ → τ → ι → σ} {s s' : Timed τ σ} {l : τ × ι}

theorem clock_eq (h : Ticks f s l s') : s'.clock = l.1 := by
  rw [h.2]

theorem state_eq (h : Ticks f s l s') : s'.state = f s.state l.1 l.2 := by
  rw [h.2]

end Ticks

namespace Run

variable {step : σ → ι → σ → Prop}

theorem eq_of_nil {s t : σ} (r : Run step s [] t) : t = s := by
  generalize hh : ([] : List (Event σ ι)) = h at r
  cases r with
  | nil => rfl
  | snoc _ _ => exact absurd hh (by simp)

/-- The calls of a run lie between its start and its end. -/
theorem clock_le [Preorder τ] {f : σ → τ → ι → σ} {s t : Timed τ σ}
    {h : List (Event (Timed τ σ) (τ × ι))} (r : Run (Ticks f) s h t) :
    s.clock ≤ t.clock ∧ ∀ e ∈ h, s.clock ≤ e.label.1 ∧ e.label.1 ≤ t.clock := by
  induction r with
  | nil => exact ⟨le_rfl, fun e he => absurd he List.not_mem_nil⟩
  | @snoc t u l h _ hstep ih =>
    obtain ⟨hst, hall⟩ := ih
    have htu : t.clock ≤ u.clock := hstep.1.trans_eq hstep.clock_eq.symm
    refine ⟨hst.trans htu, fun e he => ?_⟩
    rcases List.mem_append.mp he with he | he
    · exact ⟨(hall e he).1, (hall e he).2.trans htu⟩
    · obtain rfl := List.mem_singleton.mp he
      exact ⟨hst.trans hstep.1, hstep.clock_eq.ge⟩

/-- **Potential rule.** Where each step pays out of the potential, a run pays out no more than
the potential it starts with. -/
theorem paid_le {M : Type*} [AddCommMonoid M] [PartialOrder M] [IsOrderedAddMonoid M] {P : σ → Prop} {C : Event σ ι → Prop} {w : Event σ ι → M}
    {Φ : σ → M} {s t : σ} {h : List (Event σ ι)} (r : Run step s h t) (hC : ∀ e ∈ h, C e)
    (hs : P s)
    (hstep : ∀ e : Event σ ι, step e.pre e.label e.post → C e → P e.pre →
      P e.post ∧ w e + Φ e.post ≤ Φ e.pre) :
    (h.map w).sum + Φ t ≤ Φ s := by
  have hall : P t ∧ (h.map w).sum + Φ t ≤ Φ s := by
    induction r with
    | nil => exact ⟨hs, (zero_add _).le⟩
    | @snoc t u l h _ hlast ih =>
      obtain ⟨hP, hsum⟩ := ih (fun e he => hC e (List.mem_append_left _ he))
      obtain ⟨hP', hpaid⟩ := hstep ⟨t, l, u⟩ hlast
        (hC _ List.mem_concat_self) hP
      refine ⟨hP', ?_⟩
      rw [List.map_append, List.sum_append, List.map_singleton, List.sum_singleton, add_assoc]
      exact (add_le_add_right hpaid _).trans hsum
  exact hall.2

theorem sum_indicator {M : Type*} [AddCommMonoidWithOne M] (p : Event σ ι → Bool)
    (h : List (Event σ ι)) :
    (h.map (fun e => if p e then (1 : M) else 0)).sum = (h.countP p : ℕ) := by
  induction h with
  | nil => exact Nat.cast_zero.symm
  | cons e h ih =>
    rw [List.map_cons, List.sum_cons, ih, List.countP_cons, Nat.cast_add, add_comm]
    congr 1
    split_ifs
    · exact Nat.cast_one.symm
    · exact Nat.cast_zero.symm

/-- The state after calls at given times. -/
def play (f : σ → τ → ι → σ) (s : Timed τ σ) (ls : List (τ × ι)) : Timed τ σ :=
  ls.foldl (fun s l => ⟨l.1, f s.state l.1 l.2⟩) s

/-- The events of calls at given times. -/
def timeline (f : σ → τ → ι → σ) : Timed τ σ → List (τ × ι) → List (Event (Timed τ σ) (τ × ι))
  | _, [] => []
  | s, l :: ls =>
    ⟨s, l, ⟨l.1, f s.state l.1 l.2⟩⟩ :: timeline f ⟨l.1, f s.state l.1 l.2⟩ ls

theorem of_timeline [LE τ] (f : σ → τ → ι → σ) (s : Timed τ σ) (ls : List (τ × ι))
    (h : (s.clock :: ls.map Prod.fst).IsChain (· ≤ ·)) :
    Run (Ticks f) s (timeline f s ls) (play f s ls) := by
  induction ls generalizing s with
  | nil => exact Run.nil s
  | cons l ls ih =>
    rw [List.map_cons, List.isChain_cons_cons] at h
    have hfirst : Run (Ticks f) s [⟨s, l, ⟨l.1, f s.state l.1 l.2⟩⟩] _ :=
      Run.single ⟨h.1, rfl⟩
    exact hfirst.append (ih ⟨l.1, f s.state l.1 l.2⟩ h.2)

end Run

end RtfmEv.Lib
