import Mathlib.Algebra.Order.BigOperators.Group.List
import Mathlib.Algebra.Order.Group.Defs
import Mathlib.Data.List.TakeWhile

/-!
# Sliding windows over timed amounts

A log holds pairs of a time and an amount. `inWindow w t l` is the part of the
log whose time lies in the half-open window `(t - w, t]`. A pruned log drops
old entries from its front only, lazily, and still bounds every window sum: that
is `windowSum_le_of_suffix`.
-/

namespace RtfmEv.Lib

section Window

variable {T M : Type*} [AddCommGroup T] [LinearOrder T]

/-- The entries whose time lies in `(t - w, t]`. -/
def inWindow (w t : T) (l : List (T × M)) : List (T × M) :=
  l.filter (fun e => t - w < e.1 ∧ e.1 ≤ t)

/-- Drop entries that are at least `w` old from the front. -/
def prune (w now : T) (l : List (T × M)) : List (T × M) :=
  l.dropWhile (fun e => w ≤ now - e.1)

/-- The total amount in the window that ends at `t`. -/
def windowSum [AddCommMonoid M] (w t : T) (l : List (T × M)) : M :=
  ((inWindow w t l).map Prod.snd).sum

theorem inWindow_append (w t : T) (a b : List (T × M)) :
    inWindow w t (a ++ b) = inWindow w t a ++ inWindow w t b := List.filter_append ..

theorem windowSum_append [AddCommMonoid M] (w t : T) (a b : List (T × M)) :
    windowSum w t (a ++ b) = windowSum w t a + windowSum w t b := by
  rw [windowSum, inWindow_append, List.map_append, List.sum_append, windowSum, windowSum]

theorem inWindow_eq_nil {w t : T} {l : List (T × M)} (h : ∀ e ∈ l, e.1 ≤ t - w) :
    inWindow w t l = [] := by
  apply List.filter_eq_nil_iff.mpr
  intro e he hw
  have hin := of_decide_eq_true hw
  exact absurd hin.1 (not_lt.mpr (h e he))

end Window

theorem sum_filter_le {T M : Type*} [AddCommMonoid M] [PartialOrder M] [IsOrderedAddMonoid M]
    (p : T × M → Bool) {l : List (T × M)} (hl : ∀ e ∈ l, 0 ≤ e.2) :
    ((l.filter p).map Prod.snd).sum ≤ (l.map Prod.snd).sum := by
  apply List.Sublist.sum_le_sum (List.filter_sublist.map _)
  intro x hx
  obtain ⟨e, he, rfl⟩ := List.mem_map.mp hx
  exact hl e he

section Prune

variable {T M : Type*} [AddCommGroup T] [LinearOrder T] [IsOrderedAddMonoid T]

theorem prune_split (w now : T) (l : List (T × M)) :
    ∃ gone, l = gone ++ prune w now l ∧ ∀ e ∈ gone, e.1 ≤ now - w := by
  refine ⟨l.takeWhile (fun e => w ≤ now - e.1), List.takeWhile_append_dropWhile.symm, ?_⟩
  intro e he
  have h := List.mem_takeWhile_imp he
  exact le_sub_comm.mp (of_decide_eq_true h)

variable [AddCommMonoid M] [PartialOrder M] [IsOrderedAddMonoid M]

/-- A window sum of a log is at most the sum of what pruning left of it,
also when older entries stood in front of the log. -/
theorem windowSum_le_of_suffix {w now t : T} {start l kept gone : List (T × M)}
    (hsplit : start ++ l = gone ++ kept) (hgone : ∀ e ∈ gone, e.1 ≤ now - w) (ht : now ≤ t)
    (hstart : ∀ e ∈ start, 0 ≤ e.2) (hkept : ∀ e ∈ kept, 0 ≤ e.2) :
    windowSum w t l ≤ (kept.map Prod.snd).sum := by
  have hold : inWindow w t gone = [] :=
    inWindow_eq_nil (fun e he => (hgone e he).trans (sub_le_sub_right ht w))
  have hs : 0 ≤ windowSum w t start := by
    apply List.sum_nonneg
    intro x hx
    obtain ⟨e, he, rfl⟩ := List.mem_map.mp hx
    exact hstart e (List.mem_of_mem_filter he)
  calc windowSum w t l ≤ windowSum w t start + windowSum w t l := le_add_of_nonneg_left hs
    _ = windowSum w t (gone ++ kept) := by rw [← windowSum_append, hsplit]
    _ = windowSum w t kept := by rw [windowSum, inWindow_append, hold, List.nil_append, windowSum]
    _ ≤ (kept.map Prod.snd).sum := sum_filter_le _ hkept

end Prune

end RtfmEv.Lib
