import Mathlib.Data.List.Sort
import Mathlib.Data.List.Infix
import Mathlib.Data.List.TakeWhile

/-!
# Lists: chunks, prefixes and stable sorts

## Reading a stream in chunks

A reader cuts results off the front of its buffer and keeps the rest. When what it has kept,
together with more of the stream, is read as the whole would have been, it does not matter how
the stream is cut into chunks.
-/

namespace RtfmEv.Lib

variable {α β : Type*}

/-- Feed chunks one after the other: the results, and what is kept. -/
def readChunks (read : List α → List β × List α) : List α → List (List α) → List β × List α
  | kept, [] => ([], kept)
  | kept, chunk :: chunks =>
    let r := read (kept ++ chunk)
    let rs := readChunks read r.2 chunks
    (r.1 ++ rs.1, rs.2)

/-- Reading can stop anywhere and go on from what was kept. -/
def Resumable (read : List α → List β × List α) : Prop :=
  ∀ s more, read (s ++ more) = ((read s).1 ++ (read ((read s).2 ++ more)).1,
    (read ((read s).2 ++ more)).2)

/-- **The chunks of a stream are read as the stream.** -/
theorem readChunks_flatten {read : List α → List β × List α} (h : Resumable read)
    (hnil : read [] = ([], [])) (chunks : List (List α)) :
    readChunks read [] chunks = read chunks.flatten := by
  have hgen : ∀ (chunks : List (List α)) (s : List α),
      ((read s).1 ++ (readChunks read (read s).2 chunks).1,
        (readChunks read (read s).2 chunks).2) = read (s ++ chunks.flatten) := by
    intro chunks
    induction chunks with
    | nil =>
      intro s
      rw [List.flatten_nil, List.append_nil, readChunks, List.append_nil]
    | cons chunk chunks ih =>
      intro s
      rw [List.flatten_cons, ← List.append_assoc, ← ih (s ++ chunk), readChunks, h s chunk]
      simp only [List.append_assoc]
  have hstart := hgen chunks []
  rw [hnil] at hstart
  exact hstart

/-!
## The longest prefix that fits

A loop that takes elements in order until one does not fit any more takes the
longest prefix that fits, when a prefix of what fits fits too.
-/

variable {α : Type*} {Fits Fits' : List α → Prop} {x : α} {xs ys zs : List α}

/-- A prefix that fits, and no longer one does. -/
structure LongestPrefix (Fits : List α → Prop) (xs ys : List α) : Prop where
  isPrefix : ys <+: xs
  fits : Fits ys
  longest : ∀ zs, zs <+: xs → Fits zs → zs <+: ys

namespace LongestPrefix

theorem congr (hfits : ∀ zs, zs <+: xs → (Fits zs ↔ Fits' zs)) (h : LongestPrefix Fits xs ys) :
    LongestPrefix Fits' xs ys where
  isPrefix := h.isPrefix
  fits := (hfits ys h.isPrefix).mp h.fits
  longest := by
    intro zs hpre hzs
    exact h.longest zs hpre ((hfits zs hpre).mpr hzs)

/-! #### The steps of the loop -/

theorem nil (h : Fits []) : LongestPrefix Fits [] [] where
  isPrefix := List.prefix_rfl
  fits := h
  longest := by
    intro zs hpre _
    exact hpre

theorem stop (hclosed : ∀ zs, Fits (x :: zs) → Fits [x]) (h : Fits []) (hx : ¬ Fits [x]) :
    LongestPrefix Fits (x :: xs) [] where
  isPrefix := List.nil_prefix
  fits := h
  longest := by
    intro zs hpre hzs
    cases zs with
    | nil => exact List.prefix_rfl
    | cons z zs =>
      obtain ⟨rfl, -⟩ := List.cons_prefix_cons.mp hpre
      exact absurd (hclosed zs hzs) hx

/-- The first element is taken, and then the longest prefix of the others. -/
theorem cons (h : LongestPrefix (fun zs => Fits (x :: zs)) xs ys) :
    LongestPrefix Fits (x :: xs) (x :: ys) where
  isPrefix := List.cons_prefix_cons.mpr ⟨rfl, h.isPrefix⟩
  fits := h.fits
  longest := by
    intro zs hpre hzs
    cases zs with
    | nil => exact List.nil_prefix
    | cons z zs =>
      obtain ⟨rfl, htail⟩ := List.cons_prefix_cons.mp hpre
      exact List.cons_prefix_cons.mpr ⟨rfl, h.longest zs htail hzs⟩

theorem take (n : ℕ) (xs : List α) :
    LongestPrefix (fun zs => zs.length ≤ n) xs (xs.take n) where
  isPrefix := List.take_prefix n xs
  fits := List.length_take_le n xs
  longest := by
    intro zs hpre hzs
    exact List.prefix_take_iff.mpr ⟨hpre, hzs⟩

/-! #### A narrower sense of fitting -/

/-- **It is the longest prefix in the narrower sense if it fits in that sense.** -/
theorem narrow_iff (h : LongestPrefix Fits xs ys) (hnarrow : ∀ zs, Fits' zs → Fits zs) :
    LongestPrefix Fits' xs ys ↔ Fits' ys := by
  constructor
  · intro h'
    exact h'.fits
  · intro hys
    exact ⟨h.isPrefix, hys, fun zs hpre hzs => h.longest zs hpre (hnarrow zs hzs)⟩

theorem forall_iff (h : LongestPrefix Fits xs ys)
    (hclosed : ∀ zs zs', zs <+: zs' → Fits' zs' → Fits' zs) :
    (∀ zs, zs <+: xs → Fits zs → Fits' zs) ↔ Fits' ys := by
  constructor
  · intro hall
    exact hall ys h.isPrefix h.fits
  · intro hys zs hpre hzs
    exact hclosed zs ys (h.longest zs hpre hzs) hys

end LongestPrefix

theorem nodup_eraseDups [BEq α] [LawfulBEq α] (l : List α) : l.eraseDups.Nodup := by
  cases l with
  | nil => exact List.nodup_nil
  | cons a l =>
    rw [List.eraseDups_cons, List.nodup_cons, List.mem_eraseDups]
    exact ⟨by simp, nodup_eraseDups _⟩
termination_by l.length
decreasing_by
  have := List.length_filter_le (fun b => !b == a) l
  rw [List.length_cons]
  omega

/-!
## The first entries of a stable sort

Sorting by a numeric key with the largest first keeps entries of one key in their order. The
place of an entry in the result is the number of entries ahead of it, which is a fact about
the list as it was: so many have a larger key, so many the same one and stand earlier.
-/

variable {α : Type*}

/-- `xs.sort(key=key, reverse=True)`. -/
def sortLargestFirst (key : α → ℕ) (xs : List α) : List α :=
  xs.insertionSort (fun a b => key b ≤ key a)

variable (key : α → ℕ)

theorem pairwise_sortLargestFirst (xs : List α) :
    (sortLargestFirst key xs).Pairwise (fun a b => key b ≤ key a) := by
  have htotal : Std.Total (fun a b : α => key b ≤ key a) := ⟨fun a b => Nat.le_total _ _⟩
  have htrans : IsTrans α (fun a b : α => key b ≤ key a) := ⟨fun a b c h h' => h'.trans h⟩
  exact List.pairwise_insertionSort _ xs

theorem perm_sortLargestFirst (xs : List α) :
    (sortLargestFirst key xs).Perm xs := List.perm_insertionSort _ xs

/-- A new entry in front of the list goes behind the larger ones and ahead of the rest. -/
theorem sortLargestFirst_cons (x : α) (xs : List α) : sortLargestFirst key (x :: xs) =
      (sortLargestFirst key xs).takeWhile (fun b => ¬ key b ≤ key x) ++
        x :: (sortLargestFirst key xs).dropWhile (fun b => ¬ key b ≤ key x) :=
  List.insertionSort_cons_eq_take_drop _ x xs

theorem le_of_mem_dropWhile {key : α → ℕ} {bound : ℕ} {xs : List α}
    (h : xs.Pairwise (fun a b => key b ≤ key a)) {y : α}
    (hy : y ∈ xs.dropWhile (fun b => ¬ key b ≤ bound)) : key y ≤ bound := by
  induction xs with
  | nil => exact absurd hy List.not_mem_nil
  | cons b bs ih =>
    rw [List.pairwise_cons] at h
    by_cases hb : key b ≤ bound
    · rw [List.dropWhile_cons_of_neg (by simpa using hb)] at hy
      rcases List.mem_cons.mp hy with rfl | hmem
      · exact hb
      · exact (h.1 y hmem).trans hb
    · rw [List.dropWhile_cons_of_pos (by simpa using hb)] at hy
      exact ih h.2 hy

theorem length_takeWhile_sortLargestFirst (bound : ℕ) (xs : List α) :
    ((sortLargestFirst key xs).takeWhile (fun b => ¬ key b ≤ bound)).length =
      xs.countP (fun y => bound < key y) := by
  rw [← (perm_sortLargestFirst key xs).countP_eq]
  have hsplit := List.takeWhile_append_dropWhile (p := fun b => decide (¬ key b ≤ bound))
    (l := sortLargestFirst key xs)
  conv_rhs => rw [← hsplit]
  rw [List.countP_append]
  have htaken : ((sortLargestFirst key xs).takeWhile (fun b => ¬ key b ≤ bound)).countP
      (fun y => bound < key y) =
        ((sortLargestFirst key xs).takeWhile (fun b => ¬ key b ≤ bound)).length := by
    rw [List.countP_eq_length]
    intro y hy
    have hlarge := List.mem_takeWhile_imp hy
    simpa using hlarge
  have hdropped : ((sortLargestFirst key xs).dropWhile (fun b => ¬ key b ≤ bound)).countP
      (fun y => bound < key y) = 0 := by
    rw [List.countP_eq_zero]
    intro y hy
    have hle := le_of_mem_dropWhile (pairwise_sortLargestFirst key xs) hy
    simpa using hle
  rw [htaken, hdropped, Nat.add_zero]

/-- How many entries go ahead of `x`: those with a larger key, and earlier ones with its own. -/
def ahead [DecidableEq α] (key : α → ℕ) (xs : List α) (x : α) : ℕ :=
  xs.countP (fun y => key x < key y) + (xs.takeWhile (· ≠ x)).countP (fun y => key y = key x)

variable [DecidableEq α]

theorem ahead_cons_self (x : α) (xs : List α) :
    ahead key (x :: xs) x = xs.countP (fun y => key x < key y) := by
  rw [ahead, List.countP_cons_of_neg (by simp), List.takeWhile_cons_of_neg (by simp)]
  rfl

theorem ahead_cons_of_ne {key : α → ℕ} {x y : α} (h : x ≠ y) (xs : List α) :
    ahead key (x :: xs) y = ahead key xs y + if key y ≤ key x then 1 else 0 := by
  rw [ahead, ahead, List.takeWhile_cons_of_pos (by simpa using h), List.countP_cons,
    List.countP_cons]
  simp only [decide_eq_true_eq]
  split_ifs <;> omega

/-- **The place of an entry is the number of entries ahead of it.** -/
theorem ahead_of_getElem?_sortLargestFirst {key : α → ℕ} {xs : List α} (h : xs.Nodup) {i : ℕ}
    {y : α} (hy : (sortLargestFirst key xs)[i]? = some y) : ahead key xs y = i := by
  induction xs generalizing i y with
  | nil => exact absurd hy (by simp [sortLargestFirst])
  | cons x xs ih =>
    rw [List.nodup_cons] at h
    have hmem : ∀ {z : α} {j : ℕ}, (sortLargestFirst key xs)[j]? = some z → x ≠ z := by
      intro z j hz hxz
      subst hxz
      exact h.1 ((perm_sortLargestFirst key xs).mem_iff.mp (List.mem_of_getElem? hz))
    have hlen := length_takeWhile_sortLargestFirst key (key x) xs
    have hsplit := List.takeWhile_append_dropWhile
      (p := fun b => decide (¬ key b ≤ key x)) (l := sortLargestFirst key xs)
    rw [sortLargestFirst_cons] at hy
    rcases Nat.lt_trichotomy i
        ((sortLargestFirst key xs).takeWhile (fun b => ¬ key b ≤ key x)).length with
      hlt | heq | hgt
    · -- one of the larger ones: its place is as before
      rw [List.getElem?_append_left hlt] at hy
      have hold : (sortLargestFirst key xs)[i]? = some y := by
        rw [← hsplit, List.getElem?_append_left hlt]
        exact hy
      have hlarge := List.mem_takeWhile_imp (List.mem_of_getElem? hy)
      rw [ahead_cons_of_ne (hmem hold), ih h.2 hold, if_neg (by simpa using hlarge),
        Nat.add_zero]
    · rw [List.getElem?_append_right (Nat.le_of_eq heq.symm), heq, Nat.sub_self] at hy
      cases hy
      rw [ahead_cons_self, heq, hlen]
    · -- behind the new entry: one place further
      obtain ⟨j, rfl⟩ : ∃ j, i = j + 1 := ⟨i - 1, by omega⟩
      rw [List.getElem?_append_right (by omega), Nat.sub_add_comm (by omega),
        List.getElem?_cons_succ] at hy
      have hold : (sortLargestFirst key xs)[j]? = some y := by
        rw [← hsplit, List.getElem?_append_right (by omega)]
        exact hy
      have hle := le_of_mem_dropWhile (pairwise_sortLargestFirst key xs)
        (List.mem_of_getElem? hy)
      rw [ahead_cons_of_ne (hmem hold), ih h.2 hold, if_pos hle]

/-- **The first `k` of the sorted list are the entries with fewer than `k` ahead of them.** -/
theorem take_sortLargestFirst_perm {key : α → ℕ} {xs : List α} (h : xs.Nodup) (k : ℕ) :
    ((sortLargestFirst key xs).take k).Perm (xs.filter (fun x => ahead key xs x < k)) := by
  refine List.Perm.trans ?_ ((perm_sortLargestFirst key xs).filter _)
  have hplace := fun {i y} => @ahead_of_getElem?_sortLargestFirst α _ key xs h i y
  have htaken : ((sortLargestFirst key xs).take k).filter (fun x => ahead key xs x < k) =
      (sortLargestFirst key xs).take k := by
    rw [List.filter_eq_self]
    intro y hy
    obtain ⟨i, hi⟩ := List.mem_iff_getElem?.mp hy
    have hik : i < k := by
      by_contra hge
      rw [List.getElem?_eq_none (by rw [List.length_take]; omega)] at hi
      cases hi
    rw [List.getElem?_take_of_lt hik] at hi
    rw [hplace hi]
    simpa using hik
  have hdropped : ((sortLargestFirst key xs).drop k).filter (fun x => ahead key xs x < k) =
      [] := by
    rw [List.filter_eq_nil_iff]
    intro y hy
    obtain ⟨i, hi⟩ := List.mem_iff_getElem?.mp hy
    rw [List.getElem?_drop] at hi
    rw [hplace hi]
    simp
  conv_rhs => rw [← List.take_append_drop k (sortLargestFirst key xs)]
  rw [List.filter_append, htaken, hdropped, List.append_nil]

end RtfmEv.Lib
