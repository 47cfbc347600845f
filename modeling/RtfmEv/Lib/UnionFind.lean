import Mathlib.Data.Fintype.Card

/-!
# Classes and union-find

## Classes of a list

A list is cut into the classes of an equivalence, in the order in which their first members
come up. Two equivalences that agree on the members cut it in the same way.
-/

namespace RtfmEv.Lib.Classes

open scoped Classical

variable {α : Type} {y x : α} {R S : α → α → Prop} {xs : List α}

/-- The first member that is related to an element. -/
noncomputable def firstIn (R : α → α → Prop) (xs : List α) (x : α) : α :=
  (xs.find? (fun y => decide (R x y))).getD x

/-- The classes, in the order of their first members. -/
noncomputable def classes (R : α → α → Prop) (xs : List α) : List (List α) :=
  (xs.filter (fun x => decide (firstIn R xs x = x))).map
    (fun x => xs.filter (fun y => decide (R x y)))

/-! ### First members -/

theorem firstIn_of_split {before after : List α} (hxy : R x y)
    (hbefore : ∀ z ∈ before, ¬R x z) : firstIn R (before ++ y :: after) x = y := by
  have hfind : (before ++ y :: after).find? (fun z => decide (R x z)) = some y := by
    rw [List.find?_eq_some_iff_append]
    refine ⟨decide_eq_true hxy, before, after, rfl, ?_⟩
    intro z hz
    rw [Bool.not_eq_true', decide_eq_false_iff_not]
    exact hbefore z hz
  rw [firstIn, hfind]
  rfl

theorem firstIn_spec (hx : x ∈ xs) (hrefl : R x x) :
    firstIn R xs x ∈ xs ∧ R x (firstIn R xs x) := by
  rw [firstIn]
  cases hfind : xs.find? (fun y => decide (R x y)) with
  | none => exact absurd (decide_eq_true hrefl) (List.find?_eq_none.mp hfind x hx)
  | some y =>
    have hxy : decide (R x y) = true := List.find?_some (p := fun y => decide (R x y)) hfind
    exact ⟨List.mem_of_find?_eq_some hfind, of_decide_eq_true hxy⟩

theorem firstIn_congr (h : ∀ y ∈ xs, R x y ↔ S x y) : firstIn R xs x = firstIn S xs x := by
  rw [firstIn, firstIn]
  congr 1
  induction xs with
  | nil => rfl
  | cons y xs ih =>
    rw [List.find?_cons, List.find?_cons, ih (fun z hz => h z (List.mem_cons_of_mem _ hz)),
      decide_eq_decide.mpr (h y List.mem_cons_self)]

theorem firstIn_append {ys : List α} (hx : x ∈ xs)
    (hrefl : R x x) : firstIn R (xs ++ ys) x = firstIn R xs x := by
  rw [firstIn, firstIn, List.find?_append]
  cases hfind : xs.find? (fun y => decide (R x y)) with
  | none => exact absurd (decide_eq_true hrefl) (List.find?_eq_none.mp hfind x hx)
  | some y => rfl

theorem firstIn_eq_iff (hR : Equivalence R)
    (hx : x ∈ xs) (hy : y ∈ xs) : firstIn R xs x = firstIn R xs y ↔ R x y := by
  constructor
  · intro heq
    have hxfirst := (firstIn_spec hx (hR.refl x)).2
    have hyfirst := (firstIn_spec hy (hR.refl y)).2
    rw [← heq] at hyfirst
    exact hR.trans hxfirst (hR.symm hyfirst)
  · intro hxy
    have hsame : ∀ z, R x z ↔ R y z := by
      intro z
      constructor
      · exact hR.trans (hR.symm hxy)
      · exact hR.trans hxy
    have hfind : xs.find? (fun z => decide (R x z)) = xs.find? (fun z => decide (R y z)) := by
      congr 1
      funext z
      exact decide_eq_decide.mpr (hsame z)
    rw [firstIn, firstIn, ← hfind]
    cases hx' : xs.find? (fun z => decide (R x z)) with
    | none => exact absurd (decide_eq_true (hR.refl x)) (List.find?_eq_none.mp hx' x hx)
    | some z => rfl

/-- A new element is its own first member when no member is related to it. -/
theorem firstIn_append_self (hx : x ∉ xs)
    (hrefl : R x x) : firstIn R (xs ++ [x]) x = x ↔ ∀ y ∈ xs, ¬R x y := by
  constructor
  · intro heq y hy hxy
    rw [firstIn, List.find?_append] at heq
    cases hfind : xs.find? (fun z => decide (R x z)) with
    | none => exact absurd (decide_eq_true hxy) (List.find?_eq_none.mp hfind y hy)
    | some z =>
      rw [hfind] at heq
      have hz : z = x := heq
      exact hx (hz ▸ List.mem_of_find?_eq_some hfind)
  · intro hnone
    exact firstIn_of_split hrefl hnone

/-! ### Classes -/

/-- **Only how the members are related matters.** -/
theorem classes_congr (h : ∀ x ∈ xs, ∀ y ∈ xs, R x y ↔ S x y) : classes R xs = classes S xs := by
  rw [classes, classes]
  have hfirst : xs.filter (fun x => decide (firstIn R xs x = x)) =
      xs.filter (fun x => decide (firstIn S xs x = x)) := by
    apply List.filter_congr
    intro x hx
    rw [firstIn_congr (h x hx)]
  rw [hfirst]
  apply List.map_congr_left
  intro x hx
  apply List.filter_congr
  intro y hy
  exact decide_eq_decide.mpr (h x (List.mem_of_mem_filter hx) y hy)

theorem classes_singleton (hrefl : R x x) : classes R [x] = [[x]] := by
  have hfirst : firstIn R [x] x = x := by
    rw [← List.nil_append [x]]
    exact firstIn_of_split hrefl (fun y hy => absurd hy List.not_mem_nil)
  simp only [classes, List.filter_singleton, decide_eq_true hfirst, List.map_singleton, cond_true,
    decide_eq_true hrefl]

theorem mem_classes_iff (hR : Equivalence R)
    (hx : x ∈ xs) (hy : y ∈ xs) : (∃ part ∈ classes R xs, x ∈ part ∧ y ∈ part) ↔ R x y := by
  constructor
  · rintro ⟨part, hpart, hxpart, hypart⟩
    obtain ⟨z, -, rfl⟩ := List.mem_map.mp hpart
    have hzx : R z x := of_decide_eq_true (List.mem_filter.mp hxpart).2
    have hzy : R z y := of_decide_eq_true (List.mem_filter.mp hypart).2
    exact hR.trans (hR.symm hzx) hzy
  · intro hxy
    obtain ⟨hmem, hrel⟩ := firstIn_spec hx (hR.refl x)
    refine ⟨xs.filter (fun z => decide (R (firstIn R xs x) z)), ?_, ?_, ?_⟩
    · refine List.mem_map.mpr ⟨firstIn R xs x, ?_, rfl⟩
      rw [List.mem_filter, decide_eq_true_eq]
      exact ⟨hmem, (firstIn_eq_iff hR hmem hx).mpr (hR.symm hrel)⟩
    · rw [List.mem_filter, decide_eq_true_eq]
      exact ⟨hx, hR.symm hrel⟩
    · rw [List.mem_filter, decide_eq_true_eq]
      exact ⟨hy, hR.trans (hR.symm hrel) hxy⟩

end RtfmEv.Lib.Classes

/-!
## Union by parent lists, with path halving

Each element points at a parent, and a root at itself. Looking for a root halves the path on
the way, which no reader of roots can see. Joining two elements points the root of one at the
root of the other. The classes after some joins are those of the equivalence that the joined
pairs generate, in whatever order they were joined.
-/

namespace RtfmEv.Lib.UnionFind

/-- Where an element points. -/
def up (parent : List ℕ) (i : ℕ) : ℕ := parent.getD i i

/-- Follow the parents to the root, in so many steps at most. -/
def rootWithin : ℕ → List ℕ → ℕ → List ℕ × ℕ
  | 0, parent, i => (parent, i)
  | steps + 1, parent, i =>
    if up parent i = i then (parent, i)
    else
      let parent := parent.set i (up parent (up parent i))
      rootWithin steps parent (up parent i)

/-- The root of an element, and the parents afterwards. -/
def root (parent : List ℕ) (i : ℕ) : List ℕ × ℕ := rootWithin parent.length parent i

/-- `parent[root(a)] = root(b)`, where the right side is looked up first. -/
def join (parent : List ℕ) (a b : ℕ) : List ℕ :=
  let right := root parent b
  let left := root right.1 a
  left.1.set left.2 right.2

def joinAll (parent : List ℕ) (pairs : List (ℕ × ℕ)) : List ℕ :=
  pairs.foldl (fun parent pair => join parent pair.1 pair.2) parent

/-- The roots of some elements, one after the other. -/
def readRoots : List ℕ → List ℕ → List ℕ
  | _, [] => []
  | parent, i :: rest => (root parent i).2 :: readRoots (root parent i).1 rest

/-! #### Paths to a root -/

/-- An element leads to a root in at most so many steps. -/
inductive Within (parent : List ℕ) : ℕ → ℕ → ℕ → Prop
  | root {k r : ℕ} (h : up parent r = r) : Within parent k r r
  | step {k i r : ℕ} (h : Within parent k (up parent i) r) : Within parent (k + 1) i r

/-- An element leads to a root. -/
def Leads (parent : List ℕ) (i r : ℕ) : Prop := ∃ k, Within parent k i r

variable {i r j k b a : ℕ} {parent parent' : List ℕ}

theorem up_set (h : i < parent.length) (v j : ℕ) :
    up (parent.set i v) j = if j = i then v else up parent j := by
  rw [up, up, List.getD_eq_getElem?_getD, List.getD_eq_getElem?_getD]
  by_cases hj : j = i
  · subst hj
    rw [List.getElem?_set_self h, if_pos rfl]
    rfl
  · rw [List.getElem?_set_ne (fun heq => hj heq.symm), if_neg hj]

theorem up_of_length_le (h : parent.length ≤ i) : up parent i = i := by
  rw [up, List.getD_eq_getElem?_getD, List.getElem?_eq_none h]
  rfl

theorem lt_length_of_up_ne (h : up parent i ≠ i) : i < parent.length := by
  by_contra hle
  exact h (up_of_length_le (Nat.le_of_not_lt hle))

namespace Within

variable {parent : List ℕ} {k r i : ℕ}

theorem mono {k' : ℕ} (h : Within parent k i r) (hle : k ≤ k') : Within parent k' i r := by
  induction h generalizing k' with
  | root hroot => exact .root hroot
  | step _ ih =>
    obtain ⟨m, rfl⟩ : ∃ m, k' = m + 1 := ⟨k' - 1, by omega⟩
    exact .step (ih (by omega))

theorem isRoot (h : Within parent k i r) : up parent r = r := by
  induction h with
  | root hroot => exact hroot
  | step _ ih => exact ih

theorem next (h : Within parent k i r) : Within parent k (up parent i) r := by
  cases h with
  | root hroot =>
    rw [hroot]
    exact .root hroot
  | step h => exact h.mono (Nat.le_succ _)

theorem pred (h : Within parent (k + 1) i r) (hne : up parent i ≠ i) :
    Within parent k (up parent i) r := by
  cases h with
  | root hroot => exact absurd hroot hne
  | step h => exact h

theorem unique {k' r' : ℕ} (h : Within parent k i r) (h' : Within parent k' i r') :
    r = r' := by
  induction h generalizing k' with
  | @root _ r hroot =>
    induction h' with
    | root _ => rfl
    | step hnext ih =>
      rw [hroot] at hnext ih
      exact ih hroot
  | step _ ih => exact ih h'.next

theorem halve (hi : up parent i ≠ i) {j : ℕ} (h : Within parent k j r) :
    Within (parent.set i (up parent (up parent i))) k j r := by
  have hlt := lt_length_of_up_ne hi
  induction h with
  | @root k r hroot =>
    apply Within.root
    rw [up_set hlt, if_neg, hroot]
    rintro rfl
    exact hi hroot
  | @step k j r _ ih =>
    apply Within.step
    rw [up_set hlt]
    by_cases hj : j = i
    · subst hj
      have hnext := ih.next
      rw [up_set hlt, if_neg hi] at hnext
      rw [if_pos rfl]
      exact hnext
    · rw [if_neg hj]
      exact ih

theorem of_iterate {m : ℕ} (h : up parent ((up parent)^[m] i) = (up parent)^[m] i) :
    Within parent m i ((up parent)^[m] i) := by
  induction m generalizing i with
  | zero => exact .root h
  | succ m ih =>
    rw [Function.iterate_succ_apply] at h ⊢
    exact .step (ih h)

theorem exists_iterate (h : Within parent k i r) : ∃ m, (up parent)^[m] i = r := by
  induction h with
  | root _ => exact ⟨0, rfl⟩
  | step _ ih =>
    obtain ⟨m, hm⟩ := ih
    exact ⟨m + 1, hm⟩

end Within

/-- Every element inside leads to a root inside. -/
structure Forest (parent : List ℕ) : Prop where
  inside : ∀ i < parent.length, up parent i < parent.length
  rooted : ∀ i, ∃ r, Leads parent i r

theorem Leads.unique {r' : ℕ} (h : Leads parent i r) (h' : Leads parent i r') : r = r' := by
  obtain ⟨k, hk⟩ := h
  obtain ⟨k', hk'⟩ := h'
  exact hk.unique hk'

theorem Leads.isRoot (h : Leads parent i r) : up parent r = r := by
  obtain ⟨k, hk⟩ := h
  exact hk.isRoot

namespace Forest

variable {parent : List ℕ} {i r : ℕ}

theorem iterate_lt (h : Forest parent) (hi : i < parent.length) (m : ℕ) :
    (up parent)^[m] i < parent.length := by
  induction m generalizing i with
  | zero => exact hi
  | succ m ih => exact ih (h.inside i hi)

theorem root_lt (h : Forest parent) (hi : i < parent.length)
    (hr : Leads parent i r) : r < parent.length := by
  obtain ⟨k, hk⟩ := hr
  obtain ⟨m, rfl⟩ := hk.exists_iterate
  exact h.iterate_lt hi m

/-- **As many steps as there are elements reach the root**: the elements on a shortest way
are different. -/
theorem within_length (h : Forest parent) (hi : i < parent.length)
    (hr : Leads parent i r) : Within parent parent.length i r := by
  obtain ⟨k, hk⟩ := hr
  have hexists : ∃ m, up parent ((up parent)^[m] i) = (up parent)^[m] i := by
    obtain ⟨m, hm⟩ := hk.exists_iterate
    exact ⟨m, by rw [hm]; exact hk.isRoot⟩
  have hfound := Nat.find_spec hexists
  have hleast : Nat.find hexists ≤ parent.length := by
    have hinj : Set.InjOn (fun m => (up parent)^[m] i) (Finset.range (Nat.find hexists)) := by
      have hlt : ∀ a b, a < b → b < Nat.find hexists →
          (up parent)^[a] i ≠ (up parent)^[b] i := by
        intro a b hab hb heq
        -- the rest of the way would be reached earlier
        have hearlier : (up parent)^[Nat.find hexists - b + a] i =
            (up parent)^[Nat.find hexists] i := by
          rw [Function.iterate_add_apply, heq, ← Function.iterate_add_apply]
          congr 1
          omega
        refine Nat.find_min hexists (m := Nat.find hexists - b + a) (by omega) ?_
        rw [hearlier]
        exact hfound
      intro a ha b hb heq
      rcases Nat.lt_trichotomy a b with hlt' | heq' | hgt
      · exact absurd heq (hlt a b hlt' (Finset.mem_range.mp hb))
      · exact heq'
      · exact absurd heq.symm (hlt b a hgt (Finset.mem_range.mp ha))
    have hcard := Finset.card_le_card_of_injOn (s := Finset.range (Nat.find hexists))
      (t := Finset.range parent.length) _
      (fun m _ => Finset.mem_coe.mpr (Finset.mem_range.mpr (h.iterate_lt hi m))) hinj
    rwa [Finset.card_range, Finset.card_range] at hcard
  have hwithin := (Within.of_iterate hfound).mono hleast
  rwa [hwithin.unique hk] at hwithin

end Forest

/-! #### Looking up a root -/

/-- Another parent list with the same roots. -/
structure SameRoots (parent parent' : List ℕ) : Prop where
  length : parent'.length = parent.length
  within : ∀ k i r, Within parent k i r → Within parent' k i r
  inside : (∀ i < parent.length, up parent i < parent.length) →
    ∀ i < parent.length, up parent' i < parent.length

theorem SameRoots.refl (parent : List ℕ) : SameRoots parent parent :=
  ⟨rfl, fun _ _ _ h => h, fun h => h⟩

theorem SameRoots.trans {p p' p'' : List ℕ} (h : SameRoots p p') (h' : SameRoots p' p'') :
    SameRoots p p'' where
  length := h'.length.trans h.length
  within := fun k i r hw => h'.within k i r (h.within k i r hw)
  inside := by
    intro hin i hi
    have hnext := h'.inside (by rw [h.length]; exact h.inside hin) i (by rw [h.length]; exact hi)
    rwa [h.length] at hnext

theorem SameRoots.forest (h : SameRoots parent parent') (hf : Forest parent) : Forest parent' where
  inside := by
    rw [h.length]
    exact h.inside hf.inside
  rooted := by
    intro i
    obtain ⟨r, k, hk⟩ := hf.rooted i
    exact ⟨r, k, h.within k i r hk⟩

theorem SameRoots.leads (h : SameRoots parent parent')
    (hf : Forest parent) : Leads parent' i r ↔ Leads parent i r := by
  constructor
  · intro hr
    obtain ⟨r', k, hk⟩ := hf.rooted i
    have hsame : r' = r := Leads.unique ⟨k, h.within k i r' hk⟩ hr
    rw [← hsame]
    exact ⟨k, hk⟩
  · rintro ⟨k, hk⟩
    exact ⟨k, h.within k i r hk⟩

theorem sameRoots_halve (hi : up parent i ≠ i) :
    SameRoots parent (parent.set i (up parent (up parent i))) where
  length := List.length_set
  within := fun _ _ _ h => h.halve hi
  inside := by
    intro hin j hj
    have hlt := lt_length_of_up_ne hi
    rw [up_set hlt]
    split_ifs
    · exact hin _ (hin _ hlt)
    · exact hin j hj

theorem rootWithin_spec {steps : ℕ} (h : Within parent steps i r) :
    (rootWithin steps parent i).2 = r ∧ SameRoots parent (rootWithin steps parent i).1 := by
  induction steps generalizing parent i with
  | zero =>
    cases h with
    | root _ => exact ⟨rfl, SameRoots.refl parent⟩
  | succ steps ih =>
    rw [rootWithin]
    by_cases hi : up parent i = i
    · rw [if_pos hi]
      exact ⟨(Within.root (k := 0) hi).unique h, SameRoots.refl parent⟩
    · rw [if_neg hi]
      have hhalved := sameRoots_halve hi
      have hnext : up (parent.set i (up parent (up parent i))) i = up parent (up parent i) := by
        rw [up_set (lt_length_of_up_ne hi), if_pos rfl]
      have hrest : Within (parent.set i (up parent (up parent i))) steps
          (up (parent.set i (up parent (up parent i))) i) r := by
        rw [hnext]
        exact hhalved.within _ _ _ (h.pred hi).next
      obtain ⟨hroot, hsame⟩ := ih hrest
      exact ⟨hroot, hhalved.trans hsame⟩

/-- **The root that is found is the one an element leads to, and no root changes.** -/
theorem root_spec (hf : Forest parent) (hi : i < parent.length) (hr : Leads parent i r) :
    (root parent i).2 = r ∧ SameRoots parent (root parent i).1 :=
  rootWithin_spec (hf.within_length hi hr)

theorem readRoots_spec (hf : Forest parent) {is : List ℕ} (his : ∀ i ∈ is, i < parent.length) :
    List.Forall₂ (Leads parent) is (readRoots parent is) := by
  induction is generalizing parent with
  | nil => exact .nil
  | cons i rest ih =>
    obtain ⟨r, hr⟩ := hf.rooted i
    obtain ⟨hroot, hsame⟩ := root_spec hf (his i List.mem_cons_self) hr
    rw [readRoots, hroot]
    refine .cons hr ?_
    have hrest := ih (hsame.forest hf) (fun j hj => by
      rw [hsame.length]
      exact his j (List.mem_cons_of_mem _ hj))
    exact hrest.imp (fun j r hj => (hsame.leads hf).mp hj)

/-! #### Joining -/

/-- Two elements with one root. -/
def Same (parent : List ℕ) (i j : ℕ) : Prop := ∃ r, Leads parent i r ∧ Leads parent j r

theorem Same.symm (h : Same parent i j) : Same parent j i := by
  obtain ⟨r, hi, hj⟩ := h
  exact ⟨r, hj, hi⟩

theorem Same.trans (h : Same parent i j) (h' : Same parent j k) : Same parent i k := by
  obtain ⟨r, hi, hj⟩ := h
  obtain ⟨r', hj', hk⟩ := h'
  rw [hj.unique hj'] at hi
  exact ⟨r', hi, hk⟩

theorem Forest.same_refl (hf : Forest parent) (i : ℕ) : Same parent i i := by
  obtain ⟨r, hr⟩ := hf.rooted i
  exact ⟨r, hr, hr⟩

/-- A root that is pointed at another root leads its elements there. -/
theorem Within.redirect (ha : up parent a = a) (hb : up parent b = b)
    (hne : a ≠ b) (hlt : a < parent.length) (h : Within parent k i r) :
    Leads (parent.set a b) i (if r = a then b else r) := by
  have hroot : up (parent.set a b) b = b := by
    rw [up_set hlt, if_neg (fun heq => hne heq.symm), hb]
  induction h with
  | @root _ r hr =>
    by_cases heq : r = a
    · subst heq
      rw [if_pos rfl]
      refine ⟨1, .step ?_⟩
      rw [up_set hlt, if_pos rfl]
      exact .root hroot
    · rw [if_neg heq]
      refine ⟨0, .root ?_⟩
      rw [up_set hlt, if_neg heq, hr]
  | @step _ i r _ ih =>
    by_cases heq : i = a
    · subst heq
      rw [ha] at ih
      exact ih
    · obtain ⟨k', hk'⟩ := ih
      refine ⟨k' + 1, .step ?_⟩
      rw [up_set hlt, if_neg heq]
      exact hk'

/-- **Joining two elements joins their classes and no others.** -/
theorem join_spec (hf : Forest parent) (ha : a < parent.length) (hb : b < parent.length) :
    Forest (join parent a b) ∧ (join parent a b).length = parent.length ∧
      ∀ i j, Same (join parent a b) i j ↔
        Same parent i j ∨ (Same parent i a ∧ Same parent b j) ∨
          (Same parent i b ∧ Same parent a j) := by
  obtain ⟨ra, hra⟩ := hf.rooted a
  obtain ⟨rb, hrb⟩ := hf.rooted b
  obtain ⟨hright, hsame⟩ := root_spec hf hb hrb
  have hf₁ := hsame.forest hf
  obtain ⟨hleft, hsame'⟩ := root_spec hf₁ (by rw [hsame.length]; exact ha)
    ((hsame.leads hf).mpr hra)
  have hjoin : join parent a b = (root (root parent b).1 a).1.set ra rb := by
    rw [← hleft, ← hright]
    rfl
  have htwo := hsame.trans hsame'
  have hf₂ := htwo.forest hf
  have hlen := htwo.length
  set parent₂ := (root (root parent b).1 a).1 with hparent
  have hra₂ := (htwo.leads hf).mpr hra
  have hrb₂ := (htwo.leads hf).mpr hrb
  have hralt : ra < parent₂.length := by
    rw [hlen]
    exact hf.root_lt ha hra
  have hrblt : rb < parent₂.length := by
    rw [hlen]
    exact hf.root_lt hb hrb
  -- where the elements lead after the join
  have hleads : ∀ i r, Leads parent i r →
      Leads (parent₂.set ra rb) i (if r = ra then rb else r) := by
    intro i r hr
    obtain ⟨k, hk⟩ := (htwo.leads hf).mpr hr
    by_cases hne : ra = rb
    · have hself : parent₂.set ra rb = parent₂ := by
        rw [← hne]
        have hroot := hra₂.isRoot
        rw [up, List.getD_eq_getElem?_getD, List.getElem?_eq_getElem hralt] at hroot
        have hget : parent₂[ra] = ra := hroot
        have hput : parent₂.set ra parent₂[ra] = parent₂ := List.set_getElem_self hralt
        rwa [hget] at hput
      rw [hself, ← hne]
      split_ifs with heq
      · rw [← heq]
        exact ⟨k, hk⟩
      · exact ⟨k, hk⟩
    · exact hk.redirect hra₂.isRoot hrb₂.isRoot hne hralt
  rw [hjoin]
  refine ⟨⟨?_, ?_⟩, by rw [List.length_set, hlen], ?_⟩
  · intro i hi
    rw [List.length_set] at hi ⊢
    rw [up_set hralt]
    split_ifs
    · exact hrblt
    · exact hf₂.inside i hi
  · intro i
    obtain ⟨r, hr⟩ := hf.rooted i
    exact ⟨_, hleads i r hr⟩
  · intro i j
    obtain ⟨ri, hri⟩ := hf.rooted i
    obtain ⟨rj, hrj⟩ := hf.rooted j
    have hsameRoot : ∀ {x y rx ry : ℕ}, Leads parent x rx → Leads parent y ry →
        (Same parent x y ↔ rx = ry) := by
      intro x y rx ry hx hy
      constructor
      · rintro ⟨r, hx', hy'⟩
        rw [hx.unique hx', hy.unique hy']
      · rintro rfl
        exact ⟨rx, hx, hy⟩
    have hafter : Same (parent₂.set ra rb) i j ↔
        (if ri = ra then rb else ri) = (if rj = ra then rb else rj) := by
      constructor
      · rintro ⟨r, hi, hj⟩
        rw [(hleads i ri hri).unique hi, (hleads j rj hrj).unique hj]
      · intro heq
        have hj := hleads j rj hrj
        rw [← heq] at hj
        exact ⟨_, hleads i ri hri, hj⟩
    rw [hafter, hsameRoot hri hrj, hsameRoot hri hra, hsameRoot hrb hrj, hsameRoot hri hrb,
      hsameRoot hra hrj]
    split_ifs with hi hj hj <;> omega

/-- **The classes after some joins** are those of the equivalence that the pairs generate. -/
theorem joinAll_spec {n : ℕ} {pairs : List (ℕ × ℕ)}
    (hpairs : ∀ pair ∈ pairs, pair.1 < n ∧ pair.2 < n) :
    Forest (joinAll (List.range n) pairs) ∧ (joinAll (List.range n) pairs).length = n ∧
      ∀ i j, Same (joinAll (List.range n) pairs) i j ↔
        Relation.EqvGen (fun a b => (a, b) ∈ pairs) i j := by
  induction pairs using List.reverseRecOn with
  | nil =>
    have hself : ∀ i, up (List.range n) i = i := by
      intro i
      rw [up, List.getD_eq_getElem?_getD]
      by_cases hi : i < n
      · rw [List.getElem?_range hi]
        rfl
      · rw [List.getElem?_eq_none (by rw [List.length_range]; omega)]
        rfl
    have hleads : ∀ i r, Leads (List.range n) i r → r = i := by
      rintro i r ⟨k, hk⟩
      exact hk.unique (Within.root (k := 0) (hself i))
    refine ⟨⟨?_, ?_⟩, List.length_range, ?_⟩
    · intro i hi
      show up (List.range n) i < _
      rw [hself i]
      exact hi
    · exact fun i => ⟨i, 0, .root (hself i)⟩
    · intro i j
      constructor
      · rintro ⟨r, hi, hj⟩
        rw [← hleads i r hi, ← hleads j r hj]
        exact .refl _
      · intro h
        have heq : i = j := by
          induction h with
          | rel _ _ hin => exact absurd hin List.not_mem_nil
          | refl _ => rfl
          | symm _ _ _ ih => exact ih.symm
          | trans _ _ _ _ _ ih ih' => exact ih.trans ih'
        rw [heq]
        exact ⟨j, ⟨0, .root (hself j)⟩, ⟨0, .root (hself j)⟩⟩
  | append_singleton pairs pair ih =>
    obtain ⟨hf, hlen, hsame⟩ := ih (fun p hp => hpairs p (List.mem_append_left _ hp))
    obtain ⟨ha, hb⟩ := hpairs pair List.mem_concat_self
    have hjoin : joinAll (List.range n) (pairs ++ [pair]) =
        join (joinAll (List.range n) pairs) pair.1 pair.2 := by
      rw [joinAll, List.foldl_append]
      rfl
    obtain ⟨hf', hlen', hsame'⟩ := join_spec hf (a := pair.1) (b := pair.2)
      (by rw [hlen]; exact ha) (by rw [hlen]; exact hb)
    rw [hjoin]
    refine ⟨hf', hlen'.trans hlen, ?_⟩
    intro i j
    rw [hsame']
    have hmono : ∀ {x y}, Relation.EqvGen (fun a b => (a, b) ∈ pairs) x y →
        Relation.EqvGen (fun a b => (a, b) ∈ pairs ++ [pair]) x y :=
      fun h => h.mono (fun a b hin => List.mem_append_left _ hin)
    have hnew : Relation.EqvGen (fun a b => (a, b) ∈ pairs ++ [pair]) pair.1 pair.2 :=
      .rel _ _ List.mem_concat_self
    constructor
    · rintro (h | ⟨h, h'⟩ | ⟨h, h'⟩)
      · exact hmono ((hsame _ _).mp h)
      · exact .trans _ _ _ (.trans _ _ _ (hmono ((hsame _ _).mp h)) hnew)
          (hmono ((hsame _ _).mp h'))
      · exact .trans _ _ _ (.trans _ _ _ (hmono ((hsame _ _).mp h)) (.symm _ _ hnew))
          (hmono ((hsame _ _).mp h'))
    · intro h
      rw [← hsame']
      induction h with
      | rel x y hin =>
        rw [hsame']
        rcases List.mem_append.mp hin with hold | hlast
        · exact Or.inl ((hsame x y).mpr (.rel x y hold))
        · obtain rfl := List.mem_singleton.mp hlast
          exact Or.inr (Or.inl ⟨hf.same_refl x, hf.same_refl y⟩)
      | refl x => exact hf'.same_refl x
      | symm _ _ _ ih => exact ih.symm
      | trans _ _ _ _ _ ih ih' => exact ih.trans ih'

end RtfmEv.Lib.UnionFind
