import Mathlib.Data.Rat.Floor
import Mathlib.Data.List.Dedup

/-!
# Groups of rows

`groupsBy key l` is `GROUP BY`: one group for each key that occurs, with the rows of that
key. What is summed up over the rows of each group, and then over the groups, is the sum
over all rows, whatever the key is.
-/

namespace RtfmEv.Lib

variable {α κ : Type*} [DecidableEq κ] {l : List α} (key : α → κ) (p : α → Bool) (w : α → ℕ)

def groupsBy (key : α → κ) (l : List α) : List (κ × List α) :=
  (l.map key).dedup.map (fun k => (k, l.filter (fun a => key a = k)))

theorem mem_groupsBy {key : α → κ} {g : κ × List α} (h : g ∈ groupsBy key l) :
    g.2 = l.filter (fun a => key a = g.1) ∧ ∃ a ∈ l, key a = g.1 := by
  obtain ⟨k, hk, rfl⟩ := List.mem_map.mp h
  exact ⟨rfl, List.mem_map.mp (List.mem_dedup.mp hk)⟩

theorem exists_groupsBy {f : α → κ} {a : α} (h : a ∈ l) :
    (f a, l.filter (fun b => f b = f a)) ∈ groupsBy f l :=
  List.mem_map_of_mem (List.mem_dedup.mpr (List.mem_map_of_mem h))

theorem sum_ite_key {ks : List κ} (hks : ks.Nodup) {k : κ} (hk : k ∈ ks) (n : ℕ) :
    (ks.map (fun k' => if k = k' then n else 0)).sum = n := by
  induction ks with
  | nil => cases hk
  | cons k₀ ks ih =>
    obtain ⟨hk₀, hks⟩ := List.nodup_cons.mp hks
    rw [List.map_cons, List.sum_cons]
    rcases List.mem_cons.mp hk with rfl | hk
    · have hrest : (ks.map (fun k' => if k = k' then n else 0)).sum = 0 := by
        refine List.sum_eq_zero fun m hm => ?_
        obtain ⟨k', hk', rfl⟩ := List.mem_map.mp hm
        refine if_neg ?_
        rintro rfl
        exact hk₀ hk'
      rw [if_pos rfl, hrest, Nat.add_zero]
    · rw [ih hks hk, if_neg fun h : k = k₀ => hk₀ (h ▸ hk), Nat.zero_add]

theorem sum_filter_keys {ks : List κ} (hks : ks.Nodup)
    (hl : ∀ a ∈ l, key a ∈ ks) :
    (ks.map (fun k => ((l.filter (fun a => key a = k)).map w).sum)).sum = (l.map w).sum := by
  induction l with
  | nil =>
    refine List.sum_eq_zero fun n hn => ?_
    obtain ⟨k, _, rfl⟩ := List.mem_map.mp hn
    rfl
  | cons a l ih =>
    have hcons : ∀ k, (((a :: l).filter (fun a => key a = k)).map w).sum =
        (if key a = k then w a else 0) + ((l.filter (fun a => key a = k)).map w).sum := by
      intro k
      rw [List.filter_cons]
      by_cases hk : key a = k
      · rw [if_pos (by simpa using hk), if_pos hk, List.map_cons, List.sum_cons]
      · rw [if_neg (by simpa using hk), if_neg hk, Nat.zero_add]
    rw [List.map_congr_left fun k _ => hcons k, List.sum_map_add, List.map_cons, List.sum_cons,
      sum_ite_key hks (hl a List.mem_cons_self) (w a),
      ih fun b hb => hl b (List.mem_cons_of_mem a hb)]

/-- **What is summed up by groups is summed up.** -/
theorem sum_groupsBy (l : List α) :
    ((groupsBy key l).map (fun g => (g.2.map w).sum)).sum = (l.map w).sum := by
  unfold groupsBy
  rw [List.map_map]
  exact sum_filter_keys key w (List.nodup_dedup _)
    fun a ha => List.mem_dedup.mpr (List.mem_map_of_mem ha)

theorem countP_eq_sum (l : List α) :
    l.countP p = (l.map (fun a => if p a then 1 else 0)).sum := by
  induction l with
  | nil => rfl
  | cons a l ih =>
    rw [List.countP_cons, List.map_cons, List.sum_cons, ih, Nat.add_comm]

theorem countP_groupsBy (l : List α) :
    ((groupsBy key l).map (fun g => g.2.countP p)).sum = l.countP p := by
  simp only [countP_eq_sum]
  exact sum_groupsBy key _ l

theorem sum_map_filter (l : List α) :
    ((l.filter p).map w).sum = (l.map (fun a => if p a then w a else 0)).sum := by
  induction l with
  | nil => rfl
  | cons a l ih =>
    rw [List.filter_cons, List.map_cons, List.sum_cons, ← ih]
    cases p a with
    | true => rfl
    | false => simp

/-- What counts one of two kinds counts both. -/
theorem countP_add_countP {p q r : α → Bool}
    (h : ∀ a ∈ l, (if p a then 1 else 0) + (if q a then 1 else 0) = if r a then 1 else 0) :
    l.countP p + l.countP q = l.countP r := by
  rw [countP_eq_sum, countP_eq_sum, countP_eq_sum, ← List.sum_map_add]
  exact congrArg List.sum (List.map_congr_left h)

end RtfmEv.Lib
