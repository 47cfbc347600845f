import Mathlib.Data.List.Basic
import Mathlib.Order.MinMax

/-!
# Sequences recorded on two sides

Entries that come in one order are recorded on one of two sides each. What the
sides know apart is compared with what one record of all of them knows: the
largest of both sides is the largest of all, the least of the two first entries
is the first of all only when it came first, and the greater of the two last
entries is the last of all only when it came last.
-/

namespace RtfmEv.Lib

variable {α : Type*} {l : List (Side × α)}

inductive Side
  | left
  | right
  deriving DecidableEq

/-- The entries of one side. -/
def on (s : Side) (l : List (Side × α)) : List α :=
  (l.filter (fun e => e.1 = s)).map Prod.snd

@[simp] theorem on_nil (s : Side) : on s ([] : List (Side × α)) = [] := rfl

theorem on_cons_self (s : Side) (a : α) (l : List (Side × α)) :
    on s ((s, a) :: l) = a :: on s l := by
  simp [on]

theorem on_cons_of_ne {s t : Side} (h : t ≠ s) (a : α) (l : List (Side × α)) :
    on s ((t, a) :: l) = on s l := by
  simp [on, h]

theorem on_append (s : Side) (l l' : List (Side × α)) : on s (l ++ l') = on s l ++ on s l' := by
  simp [on]

theorem mem_map_snd_iff {x : α} : x ∈ l.map Prod.snd ↔ x ∈ on .left l ∨ x ∈ on .right l := by
  simp only [on, List.mem_map, List.mem_filter, decide_eq_true_eq]
  constructor
  · rintro ⟨⟨s, y⟩, he, rfl⟩
    cases s with
    | left => exact Or.inl ⟨_, ⟨he, rfl⟩, rfl⟩
    | right => exact Or.inr ⟨_, ⟨he, rfl⟩, rfl⟩
  · rintro (⟨e, ⟨he, -⟩, rfl⟩ | ⟨e, ⟨he, -⟩, rfl⟩)
    · exact ⟨e, he, rfl⟩
    · exact ⟨e, he, rfl⟩

theorem length_on_add (l : List (Side × α)) :
    (on .left l).length + (on .right l).length = (l.map Prod.snd).length := by
  induction l with
  | nil => rfl
  | cons e l ih =>
    obtain ⟨s, a⟩ := e
    cases s with
    | left | right =>
      rw [on_cons_self, on_cons_of_ne (by decide), List.map_cons, List.length_cons,
        List.length_cons, ← ih]
      omega

theorem map_snd_of_right_nil (h : on .right l = []) : l.map Prod.snd = on .left l := by
  induction l with
  | nil => rfl
  | cons e l ih =>
    obtain ⟨s, a⟩ := e
    cases s with
    | left =>
      rw [on_cons_of_ne (by decide)] at h
      rw [on_cons_self, List.map_cons, ih h]
    | right =>
      rw [on_cons_self] at h
      cases h

theorem map_snd_of_left_nil (h : on .left l = []) : l.map Prod.snd = on .right l := by
  induction l with
  | nil => rfl
  | cons e l ih =>
    obtain ⟨s, a⟩ := e
    cases s with
    | right =>
      rw [on_cons_of_ne (by decide)] at h
      rw [on_cons_self, List.map_cons, ih h]
    | left =>
      rw [on_cons_self] at h
      cases h

variable [LinearOrder α] {a : α} {o : Option α}

/-! ## The largest entry -/

theorem max?_eq_some {l : List α} : l.max? = some a ↔ a ∈ l ∧ ∀ b ∈ l, b ≤ a :=
  List.max?_eq_some_iff

theorem max?_congr {l l' : List α} (h : ∀ x, x ∈ l ↔ x ∈ l') : l.max? = l'.max? := by
  ext a
  rw [max?_eq_some, max?_eq_some]
  simp only [h]

theorem max?_append (l l' : List α) : (l ++ l').max? = Option.merge max l.max? l'.max? := by
  cases hl : l.max? with
  | none =>
    rw [List.max?_eq_none_iff.mp hl, List.nil_append]
    cases l'.max? <;> rfl
  | some a =>
    cases hl' : l'.max? with
    | none =>
      rw [List.max?_eq_none_iff.mp hl', List.append_nil, hl]
      rfl
    | some b =>
      obtain ⟨ha, hmax⟩ := max?_eq_some.mp hl
      obtain ⟨hb, hmax'⟩ := max?_eq_some.mp hl'
      apply max?_eq_some.mpr
      constructor
      · rcases max_choice a b with h | h
        · rw [h]
          exact List.mem_append_left _ ha
        · rw [h]
          exact List.mem_append_right _ hb
      · intro x hx
        rcases List.mem_append.mp hx with hx | hx
        · exact le_max_of_le_left (hmax x hx)
        · exact le_max_of_le_right (hmax' x hx)

/-- The largest of both sides is the largest of all. -/
theorem max?_map_snd (l : List (Side × α)) :
    (l.map Prod.snd).max? = Option.merge max (on .left l).max? (on .right l).max? := by
  rw [← max?_append]
  apply max?_congr
  intro x
  rw [List.mem_append]
  exact mem_map_snd_iff

/-- More entries do not raise the maximum exactly when each is at most one that
was there. -/
theorem merge_max?_eq_left_iff (l l' : List α) :
    Option.merge max l.max? l'.max? = l.max? ↔ ∀ x ∈ l', ∃ y ∈ l, x ≤ y := by
  rw [← max?_append]
  constructor
  · intro h x hx
    have hne : (l ++ l').max? ≠ none := by
      rw [ne_eq, List.max?_eq_none_iff]
      exact List.ne_nil_of_mem (List.mem_append_right l hx)
    obtain ⟨a, ha⟩ := Option.ne_none_iff_exists'.mp hne
    exact ⟨a, (max?_eq_some.mp (h ▸ ha)).1, (max?_eq_some.mp ha).2 x (List.mem_append_right l hx)⟩
  · intro h
    cases hl : l.max? with
    | none =>
      have hnil := List.max?_eq_none_iff.mp hl
      rw [List.max?_eq_none_iff, hnil, List.nil_append]
      cases l' with
      | nil => rfl
      | cons x l' =>
        obtain ⟨y, hy, -⟩ := h x List.mem_cons_self
        rw [hnil] at hy
        cases hy
    | some a =>
      obtain ⟨ha, hmax⟩ := max?_eq_some.mp hl
      apply max?_eq_some.mpr
      refine ⟨List.mem_append_left _ ha, ?_⟩
      intro x hx
      rcases List.mem_append.mp hx with hx | hx
      · exact hmax x hx
      · obtain ⟨y, hy, hxy⟩ := h x hx
        exact hxy.trans (hmax y hy)

/-! ## The first and the last entry -/

/-- The first entry of all is no later than the first of either side. -/
def FirstIsLeast (l : List (Side × α)) : Prop :=
  ∀ first ∈ (l.map Prod.snd).head?, ∀ s, ∀ e ∈ (on s l).head?, first ≤ e

/-- The last entry of all is no earlier than the last of either side. -/
def LastIsGreatest (l : List (Side × α)) : Prop :=
  ∀ last ∈ (l.map Prod.snd).getLast?, ∀ s, ∀ e ∈ (on s l).getLast?, e ≤ last

theorem forall_side {P : Side → Prop} : (∀ s, P s) ↔ P .left ∧ P .right := by
  constructor
  · intro h
    exact ⟨h .left, h .right⟩
  · rintro ⟨hleft, hright⟩ s
    cases s with
    | left => exact hleft
    | right => exact hright

theorem merge_min_some_left : Option.merge min (some a) o = some a ↔ ∀ b ∈ o, a ≤ b := by
  cases o with
  | none => simp
  | some b => simp [Option.merge]

theorem merge_min_some_right : Option.merge min o (some a) = some a ↔ ∀ b ∈ o, a ≤ b := by
  cases o with
  | none => simp
  | some b => simp [Option.merge]

theorem merge_max_some_left : Option.merge max (some a) o = some a ↔ ∀ b ∈ o, b ≤ a := by
  cases o with
  | none => simp
  | some b => simp [Option.merge]

theorem merge_max_some_right : Option.merge max o (some a) = some a ↔ ∀ b ∈ o, b ≤ a := by
  cases o with
  | none => simp
  | some b => simp [Option.merge]

/-- The lesser of the two first entries is the first of all only when that came
no later than either. -/
theorem merge_min_head?_iff (l : List (Side × α)) :
    Option.merge min (on .left l).head? (on .right l).head? = (l.map Prod.snd).head? ↔
      FirstIsLeast l := by
  unfold FirstIsLeast
  cases l with
  | nil => simp
  | cons e l =>
    obtain ⟨s, a⟩ := e
    simp only [List.map_cons, List.head?_cons, Option.mem_some_iff, forall_eq', forall_side]
    cases s with
    | left =>
      rw [on_cons_self, on_cons_of_ne (by decide), List.head?_cons, merge_min_some_left]
      simp
    | right =>
      rw [on_cons_self, on_cons_of_ne (by decide), List.head?_cons, merge_min_some_right]
      simp

/-- The greater of the two last entries is the last of all only when that came
no earlier than either. -/
theorem merge_max_getLast?_iff (l : List (Side × α)) :
    Option.merge max (on .left l).getLast? (on .right l).getLast? = (l.map Prod.snd).getLast? ↔
      LastIsGreatest l := by
  unfold LastIsGreatest
  rcases List.eq_nil_or_concat l with rfl | ⟨l, ⟨s, a⟩, rfl⟩
  · simp
  · simp only [List.concat_eq_append, List.map_append, List.map_cons, List.map_nil,
      List.getLast?_concat,
      Option.mem_some_iff, forall_eq', forall_side, on_append]
    cases s with
    | left =>
      rw [on_cons_self, on_cons_of_ne (by decide), on_nil, on_nil, List.append_nil,
        List.getLast?_concat, merge_max_some_left]
      simp
    | right =>
      rw [on_cons_self, on_cons_of_ne (by decide), on_nil, on_nil, List.append_nil,
        List.getLast?_concat, merge_max_some_right]
      simp

end RtfmEv.Lib
