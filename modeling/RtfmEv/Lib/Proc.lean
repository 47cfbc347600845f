import Mathlib.Order.Notation

/-!
# Programs with exceptions

A program runs from a state to a result or an exception and the state it leaves,
so that an exception keeps what was done before it. `handle` is `try … except`
and `ensuring` is `try … finally`: its cleanup runs on both ways out, and an
exception of the cleanup replaces the one it was run for.

`Meets P x Q E` says that from a state with `P` the program returns with `Q` or
raises with `E`. There is one rule for each way to build a program.
-/

namespace RtfmEv.Lib

/-- A program over a state `σ` with exceptions `ε`. -/
def Proc (σ ε α : Type) := σ → Except ε α × σ

namespace Proc

variable {σ ε α β : Type} {P P' : σ → Prop} {Q Q' : α → σ → Prop} {R : β → σ → Prop}
  {E E' : ε → σ → Prop} {x : Proc σ ε α} {h : ε → Proc σ ε α} {cleanup : Proc σ ε Unit}

def bind (x : Proc σ ε α) (f : α → Proc σ ε β) : Proc σ ε β := fun s =>
  match x s with
  | (.ok a, s) => f a s
  | (.error e, s) => (.error e, s)

instance : Monad (Proc σ ε) where
  pure a := fun s => (.ok a, s)
  bind := bind

def raise (e : ε) : Proc σ ε α := fun s => (.error e, s)

/-- Change the state. -/
def update (f : σ → σ) : Proc σ ε Unit := fun s => (.ok (), f s)

/-- Read from the state. -/
def ask (f : σ → α) : Proc σ ε α := fun s => (.ok (f s), s)

def handle (x : Proc σ ε α) (h : ε → Proc σ ε α) : Proc σ ε α := fun s =>
  match x s with
  | (.ok a, s) => (.ok a, s)
  | (.error e, s) => h e s

/-- The result of a program, unless its cleanup raised. -/
def after (r : Except ε α) : Except ε Unit × σ → Except ε α × σ
  | (.ok _, s) => (r, s)
  | (.error e, s) => (.error e, s)

def ensuring (x : Proc σ ε α) (cleanup : Proc σ ε Unit) : Proc σ ε α := fun s =>
  after (x s).1 (cleanup (x s).2)

/-! ### Pre- and postconditions -/

/-- A program has returned with `Q` or raised with `E`. -/
def Leaves (Q : α → σ → Prop) (E : ε → σ → Prop) : Except ε α × σ → Prop
  | (.ok a, s) => Q a s
  | (.error e, s) => E e s

/-- From a state with `P` the program returns with `Q` or raises with `E`. -/
def Meets (P : σ → Prop) (x : Proc σ ε α) (Q : α → σ → Prop) (E : ε → σ → Prop) : Prop :=
  ∀ s, P s → Leaves Q E (x s)

theorem Leaves.mono {out : Except ε α × σ} (h : Leaves Q E out)
    (hQ : ∀ a s, Q a s → Q' a s) (hE : ∀ e s, E e s → E' e s) : Leaves Q' E' out := by
  obtain ⟨r, s⟩ := out
  cases r with
  | ok a => exact hQ a s h
  | error e => exact hE e s h

theorem Meets.mono (h : Meets P x Q E) (hP : ∀ s, P' s → P s)
    (hQ : ∀ a s, Q a s → Q' a s) (hE : ∀ e s, E e s → E' e s) : Meets P' x Q' E' := by
  intro s hs
  exact (h s (hP s hs)).mono hQ hE

theorem Meets.and (h : Meets P x Q E) (h' : Meets P' x Q' E') :
    Meets (fun s => P s ∧ P' s) x (fun a s => Q a s ∧ Q' a s) (fun e s => E e s ∧ E' e s) := by
  intro s hs
  have hout := h s hs.1
  have hout' := h' s hs.2
  generalize x s = out at hout hout' ⊢
  obtain ⟨r, s'⟩ := out
  cases r with
  | ok a => exact ⟨hout, hout'⟩
  | error e => exact ⟨hout, hout'⟩

theorem meets_pure {a : α} (h : ∀ s, P s → Q a s) : Meets P (pure a : Proc σ ε α) Q E := h

theorem meets_raise {e : ε} (h : ∀ s, P s → E e s) : Meets P (raise e : Proc σ ε α) Q E := h

theorem meets_update {f : σ → σ} {Q : Unit → σ → Prop} (h : ∀ s, P s → Q () (f s)) :
    Meets P (update f : Proc σ ε Unit) Q E := h

theorem meets_ask {f : σ → α} (h : ∀ s, P s → Q (f s) s) :
    Meets P (ask f : Proc σ ε α) Q E := h

theorem meets_bind {f : α → Proc σ ε β} (hx : Meets P x Q E)
    (hf : ∀ a, Meets (Q a) (f a) R E) : Meets P (x >>= f) R E := by
  intro s hs
  have h := hx s hs
  show Leaves R E (bind x f s)
  unfold bind
  generalize x s = out at h
  obtain ⟨r, s'⟩ := out
  cases r with
  | ok a => exact hf a s' h
  | error e => exact h

theorem meets_handle (hx : Meets P x Q E)
    (hh : ∀ e, Meets (E e) (h e) Q E') : Meets P (handle x h) Q E' := by
  intro s hs
  have hout := hx s hs
  unfold handle
  generalize x s = out at hout
  obtain ⟨r, s'⟩ := out
  cases r with
  | ok a => exact hout
  | error e => exact hh e s' hout

/-- The cleanup starts from either way out and keeps it, or raises itself. -/
theorem meets_ensuring (hx : Meets P x Q E) (hok : ∀ a, Meets (Q a) cleanup (fun _ => Q' a) E')
    (herr : ∀ e, Meets (E e) cleanup (fun _ => E' e) E') :
    Meets P (ensuring x cleanup) Q' E' := by
  intro s hs
  have hout := hx s hs
  unfold ensuring
  generalize x s = out at hout
  obtain ⟨r, s'⟩ := out
  cases r with
  | ok a =>
    have hclean := hok a s' hout
    show Leaves Q' E' (after (.ok a) (cleanup s'))
    generalize cleanup s' = out at hclean
    obtain ⟨u, s''⟩ := out
    cases u <;> exact hclean
  | error e =>
    have hclean := herr e s' hout
    show Leaves Q' E' (after (.error e) (cleanup s'))
    generalize cleanup s' = out at hclean
    obtain ⟨u, s''⟩ := out
    cases u <;> exact hclean

theorem Meets.state {Q : σ → Prop} (h : Meets P x (fun _ => Q) (fun _ => Q))
    {s : σ} (hs : P s) : Q (x s).2 := by
  have hout := h s hs
  generalize x s = out at hout ⊢
  obtain ⟨r, s'⟩ := out
  cases r <;> exact hout

/-! ### Kept conditions -/

/-- A program keeps a condition, whether it returns or raises. -/
def Keeps (P : σ → Prop) (x : Proc σ ε α) : Prop := Meets P x (fun _ => P) (fun _ => P)

theorem keeps_pure (a : α) : Keeps P (pure a : Proc σ ε α) := fun _ h => h

theorem keeps_raise (e : ε) : Keeps P (raise e : Proc σ ε α) := fun _ h => h

theorem keeps_ask (f : σ → α) : Keeps P (ask f : Proc σ ε α) := fun _ h => h

theorem keeps_update {f : σ → σ} (h : ∀ s, P s → P (f s)) :
    Keeps P (update f : Proc σ ε Unit) := h

theorem keeps_bind {f : α → Proc σ ε β} (hx : Keeps P x)
    (hf : ∀ a, Keeps P (f a)) : Keeps P (x >>= f) := meets_bind hx hf

theorem keeps_handle (hx : Keeps P x)
    (hh : ∀ e, Keeps P (h e)) : Keeps P (handle x h) := meets_handle hx hh

theorem keeps_ensuring (hx : Keeps P x) (hc : Keeps P cleanup) : Keeps P (ensuring x cleanup) :=
  meets_ensuring hx (fun _ => hc) (fun _ => hc)

end Proc

end RtfmEv.Lib
