import Mathlib.Logic.Function.Basic

/-!
# Dictionaries by lookup

A dictionary of which only the lookup matters, as a partial function: writing a
key, deleting one, and keeping the entries that pass a test.
-/

namespace RtfmEv.Lib

def Table (α β : Type*) := α → Option β

namespace Table

variable {α β : Type*}

def empty : Table α β := fun _ => none

/-- The entry under a key. -/
def get (T : Table α β) (a : α) : Option β := T a

/-- Keep the entries whose value passes a test. -/
def keep (T : Table α β) (p : β → Bool) : Table α β := fun a => (T.get a).filter p

section

variable [DecidableEq α]

def set (T : Table α β) (a : α) (b : β) : Table α β := Function.update T a (some b)

def erase (T : Table α β) (a : α) : Table α β := Function.update T a none

/-- Write one value under each of several keys. -/
def setAll (T : Table α β) (keys : List α) (b : β) : Table α β := keys.foldl (fun T a => T.set a b) T

end

@[simp] theorem get_empty (a : α) : (empty : Table α β).get a = none := rfl

variable {a : α} {b : β} [DecidableEq α] (T : Table α β) {a' : α}

theorem get_keep_eq_some {T : Table α β} {p : β → Bool} :
    (T.keep p).get a = some b ↔ T.get a = some b ∧ p b = true := Option.filter_eq_some_iff

theorem get_keep_of_pass {T : Table α β} {p : β → Bool}
    (h : T.get a = some b) (hp : p b = true) : (T.keep p).get a = some b :=
  get_keep_eq_some.mpr ⟨h, hp⟩

@[simp] theorem get_set_self (a : α) (b : β) : (T.set a b).get a = some b :=
  Function.update_self ..

theorem get_set_of_ne (b : β) (h : a' ≠ a) :
    (T.set a b).get a' = T.get a' := Function.update_of_ne h ..

@[simp] theorem get_erase_self (a : α) : (T.erase a).get a = none :=
  Function.update_self ..

theorem get_erase_of_ne (h : a' ≠ a) :
    (T.erase a).get a' = T.get a' := Function.update_of_ne h ..

theorem get_set_eq_some {T : Table α β} {b' : β} (h : (T.set a b).get a' = some b') :
    (a' = a ∧ b' = b) ∨ (a' ≠ a ∧ T.get a' = some b') := by
  by_cases ha : a' = a
  · subst ha
    rw [get_set_self] at h
    exact Or.inl ⟨rfl, (Option.some.inj h).symm⟩
  · rw [get_set_of_ne T b ha] at h
    exact Or.inr ⟨ha, h⟩

theorem get_erase_eq_some {T : Table α β} (h : (T.erase a).get a' = some b) :
    a' ≠ a ∧ T.get a' = some b := by
  by_cases ha : a' = a
  · subst ha
    rw [get_erase_self] at h
    cases h
  · rw [get_erase_of_ne T ha] at h
    exact ⟨ha, h⟩

theorem get_setAll (keys : List α) (b : β) (a : α) :
    (T.setAll keys b).get a = if a ∈ keys then some b else T.get a := by
  unfold setAll
  induction keys generalizing T with
  | nil => rfl
  | cons k keys ih =>
    rw [List.foldl_cons, ih]
    by_cases hmem : a ∈ keys
    · rw [if_pos hmem, if_pos (List.mem_cons_of_mem k hmem)]
    · rw [if_neg hmem]
      by_cases hk : a = k
      · subst hk
        rw [get_set_self, if_pos List.mem_cons_self]
      · rw [get_set_of_ne T b hk, if_neg]
        intro h
        rcases List.mem_cons.mp h with h | h
        · exact hk h
        · exact hmem h

end Table

end RtfmEv.Lib
