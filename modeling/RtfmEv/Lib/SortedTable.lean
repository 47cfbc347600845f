import Mathlib.Data.List.Pairwise
import Mathlib.Data.Nat.Init
import Mathlib.Order.Basic
import Mathlib.Tactic.Common

/-!
# Tables sorted by key

A table lists its entries in strictly ascending order of their keys. The entries
above a key form a suffix, so a walk that always asks for the next entry goes through
that suffix, and binary search finds its start. A list that is cut to three quarters
until it fits ends at a prefix.
-/

namespace RtfmEv.Lib

/-! ### Binary search -/

section Bisect

variable {κ : Type*} [LT κ] [DecidableLT κ]

/-- The binary search of `bisect_right` between `lo` and `hi`. -/
def bisectRightFrom (keys : List κ) (key : κ) : ℕ → ℕ → ℕ → ℕ
  | 0, lo, _ => lo
  | fuel + 1, lo, hi =>
    if lo < hi then
      let mid := (lo + hi) / 2
      match keys[mid]? with
      | none => lo
      | some middle =>
        if key < middle then bisectRightFrom keys key fuel lo mid
        else bisectRightFrom keys key fuel (mid + 1) hi
    else lo

/-- `bisect_right`: the index behind the keys that are not greater. -/
def bisectRight (keys : List κ) (key : κ) : ℕ := bisectRightFrom keys key keys.length 0 keys.length

end Bisect

/-! ### The entries above a key -/

section Above

variable {κ β : Type*} [Preorder κ] [DecidableLT κ] {table : List (κ × β)} {key : κ}

/-- Strictly ascending keys. -/
def Ascending (table : List (κ × β)) : Prop := table.Pairwise (fun a b => a.1 < b.1)

/-- The entries above a key. -/
def above (table : List (κ × β)) (key : κ) : List (κ × β) := table.filter (fun e => key < e.1)

theorem mem_above {e : κ × β} :
    e ∈ above table key ↔ e ∈ table ∧ key < e.1 := by
  simp [above]

theorem ascending_above (h : Ascending table) (key : κ) :
    Ascending (above table key) := h.filter _

/-- **The entries above the next entry are the rest of those above the key.** -/
theorem above_next {rest : List (κ × β)} {e : κ × β} (h : Ascending table)
    (hnext : above table key = e :: rest) : above table e.1 = rest := by
  have hkey : key < e.1 := (mem_above.mp (hnext ▸ List.mem_cons_self)).2
  have hasc : Ascending (e :: rest) := hnext ▸ ascending_above h key
  have hnested : above table e.1 = above (above table key) e.1 := by
    rw [above, above, above, List.filter_filter]
    apply List.filter_congr
    intro x _
    rw [← Bool.decide_and, decide_eq_decide]
    exact ⟨fun hx => ⟨hx, lt_trans hkey hx⟩, fun hx => hx.1⟩
  rw [hnested, hnext, above, List.filter_cons_of_neg (by simp), List.filter_eq_self]
  intro x hx
  exact decide_eq_true (List.rel_of_pairwise_cons hasc hx)

theorem split_above (h : Ascending table) (key : κ) :
    ∃ front, table = front ++ above table key ∧ ∀ e ∈ front, ¬ key < e.1 := by
  induction table with
  | nil => exact ⟨[], rfl, by simp⟩
  | cons e rest ih =>
    have hrest : Ascending rest := List.Pairwise.of_cons h
    by_cases hlt : key < e.1
    · refine ⟨[], ?_, by simp⟩
      rw [List.nil_append, eq_comm, above, List.filter_eq_self]
      intro x hx
      rcases List.mem_cons.mp hx with rfl | hx
      · exact decide_eq_true hlt
      · exact decide_eq_true (lt_trans hlt (List.rel_of_pairwise_cons h hx))
    · obtain ⟨front, hsplit, hfront⟩ := ih hrest
      refine ⟨e :: front, ?_, ?_⟩
      · rw [above, List.filter_cons_of_neg (by simpa using hlt), List.cons_append]
        exact congrArg (e :: ·) hsplit
      · intro x hx
        rcases List.mem_cons.mp hx with rfl | hx
        · exact hlt
        · exact hfront x hx

omit [Preorder κ] [DecidableLT κ] in
/-- A key of an ascending table has one entry. -/
theorem lookup_eq_some_iff [BEq κ] [LawfulBEq κ]
    (h : table.Pairwise (fun a b => a.1 ≠ b.1)) {value : β} :
    table.lookup key = some value ↔ (key, value) ∈ table := by
  induction table with
  | nil => simp
  | cons e rest ih =>
    obtain ⟨first, v⟩ := e
    have hrest := ih (List.Pairwise.of_cons h)
    by_cases hkey : key = first
    · subst hkey
      rw [List.lookup_cons_self, List.mem_cons, Option.some.injEq]
      constructor
      · rintro rfl
        exact Or.inl rfl
      · rintro (heq | hmem)
        · exact (Prod.mk.inj heq).2.symm
        · have hne : key ≠ key := List.rel_of_pairwise_cons h hmem
          exact absurd rfl hne
    · rw [List.lookup_cons, show (key == first) = false by simpa using hkey]
      simp only [hrest, List.mem_cons, Prod.mk.injEq, hkey, false_and, false_or]

omit [DecidableLT κ] in
theorem lookup_reverse [BEq κ] [LawfulBEq κ] (h : Ascending table) (key : κ) :
    table.reverse.lookup key = table.lookup key := by
  have hne : table.Pairwise (fun a b => a.1 ≠ b.1) := h.imp (fun hlt => ne_of_lt hlt)
  have hne' : table.reverse.Pairwise (fun a b => a.1 ≠ b.1) :=
    List.pairwise_reverse.mpr (h.imp (fun hlt => (ne_of_lt hlt).symm))
  apply Option.ext
  intro value
  rw [lookup_eq_some_iff hne, lookup_eq_some_iff hne', List.mem_reverse]

/-- What the search keeps: everything before `lo` is not greater, everything from `hi`
on is. -/
theorem bisectRightFrom_eq {keys : List κ} {target : ℕ}
    (hbelow : ∀ i (hi : i < keys.length), i < target → ¬ key < keys[i])
    (habove : ∀ i (hi : i < keys.length), target ≤ i → key < keys[i])
    {fuel lo hi : ℕ} (hfuel : hi - lo ≤ fuel) (hlo : lo ≤ target) (hhi : target ≤ hi)
    (hlen : hi ≤ keys.length) : bisectRightFrom keys key fuel lo hi = target := by
  induction fuel generalizing lo hi with
  | zero =>
    show lo = target
    omega
  | succ fuel ih =>
    rw [bisectRightFrom]
    split_ifs with hlt
    · have hmid : (lo + hi) / 2 < keys.length := by omega
      simp only [List.getElem?_eq_getElem hmid]
      split_ifs with hkey
      · have hle : target ≤ (lo + hi) / 2 := by
          by_contra hgt
          exact hbelow _ hmid (by omega) hkey
        exact ih (by omega) hlo hle (by omega)
      · have hgt : (lo + hi) / 2 < target := by
          by_contra hle
          exact hkey (habove _ hmid (by omega))
        exact ih (by omega) hgt hhi hlen
    · omega

/-- **Binary search finds the next entry.** -/
theorem getElem?_bisectRight (h : Ascending table) (key : κ) :
    table[bisectRight (table.map Prod.fst) key]? = (above table key).head? := by
  obtain ⟨front, hsplit, hfront⟩ := split_above h key
  have hkeys : table.map Prod.fst = front.map Prod.fst ++ (above table key).map Prod.fst := by
    conv_lhs => rw [hsplit]
    exact List.map_append
  have hindex : bisectRight (table.map Prod.fst) key = front.length := by
    apply bisectRightFrom_eq
    · intro i hi hlt
      have hget : (table.map Prod.fst)[i] = front[i].1 := by
        simp only [hkeys, List.getElem_append_left (show i < (front.map Prod.fst).length by simpa),
          List.getElem_map]
      rw [hget]
      exact hfront _ (List.getElem_mem _)
    · intro i hi hle
      have hi' : i - front.length < (above table key).length := by
        rw [hkeys, List.length_append, List.length_map, List.length_map] at hi
        omega
      have hget : (table.map Prod.fst)[i] = ((above table key)[i - front.length]).1 := by
        simp only [hkeys, List.getElem_append_right (show (front.map Prod.fst).length ≤ i by simpa),
          List.getElem_map, List.length_map]
      rw [hget]
      exact (mem_above.mp (List.getElem_mem hi')).2
    · omega
    · omega
    · rw [hkeys]
      simp
    · exact Nat.le_refl _
  rw [hindex]
  conv_lhs => rw [hsplit]
  rw [List.getElem?_append_right (Nat.le_refl _), Nat.sub_self, List.head?_eq_getElem?]

end Above

/-! ### Cutting to three quarters -/

/-- Cut a length to three quarters until it fits. -/
def shrink (fits : ℕ → Bool) : ℕ → ℕ → ℕ
  | 0, n => n
  | fuel + 1, n => if n = 0 ∨ fits n then n else shrink fits fuel (n * 3 / 4)

def shrinkToFit (fits : ℕ → Bool) (n : ℕ) : ℕ := shrink fits n n

theorem shrink_fits (fits : ℕ → Bool) {fuel n : ℕ} (h : n ≤ fuel) :
    shrink fits fuel n = 0 ∨ fits (shrink fits fuel n) := by
  induction fuel generalizing n with
  | zero =>
    left
    show n = 0
    omega
  | succ fuel ih =>
    rw [shrink]
    split_ifs with hstop
    · exact hstop
    · push Not at hstop
      exact ih (by omega)

/-- **If a single entry fits, the cut keeps one.** -/
theorem shrink_pos {fits : ℕ → Bool} (hone : fits 1) {fuel n : ℕ} (h : 0 < n) :
    0 < shrink fits fuel n := by
  induction fuel generalizing n with
  | zero => exact h
  | succ fuel ih =>
    rw [shrink]
    split_ifs with hstop
    · exact h
    · push Not at hstop
      have hne : n ≠ 1 := by
        rintro rfl
        exact hstop.2 hone
      exact ih (by omega)

end RtfmEv.Lib
