import Mathlib.Data.List.Nodup
import Mathlib.Data.List.Perm.Subperm
import Mathlib.Algebra.BigOperators.Group.List.Basic
import Mathlib.Algebra.GroupWithZero.Nat

/-!
# Insertion-ordered dictionaries

The dictionary keeps its entries in the order in which their keys were first
inserted, each key once. Assigning to a present key keeps its place,
`moveToEnd` makes a key the youngest, and `trim` drops the oldest entries until
the dictionary fits.

`touch` is the write of a recency table: assign, move to the end, trim. Its
rule, `touch_after`, is what eviction proofs need: a key that is not written
itself stays in front of the keys that were written after it, or it is evicted
with a full table of such keys behind it.
-/

namespace RtfmEv.Lib

@[ext]
structure OrderedDict (α β : Type*) where
  entries : List (α × β)
  nodup : (entries.map Prod.fst).Nodup

namespace OrderedDict

variable {α β : Type*} [DecidableEq α] (d : OrderedDict α β) (k : α) {k' : α} (v : β) (cap : ℕ)

def empty : OrderedDict α β := ⟨[], List.nodup_nil⟩

def keys (d : OrderedDict α β) : List α := d.entries.map Prod.fst

def size (d : OrderedDict α β) : ℕ := d.entries.length

/-- Drop the oldest entries while there are more than `n`. -/
def trim (d : OrderedDict α β) (n : ℕ) : OrderedDict α β :=
  ⟨d.entries.drop (d.entries.length - n), by
    rw [List.map_drop]
    exact d.nodup.sublist (List.drop_sublist _ _)⟩

def get? (d : OrderedDict α β) (k : α) : Option β := d.entries.lookup k

/-- Remove every entry that `p` selects. -/
def eraseIf (d : OrderedDict α β) (p : α × β → Bool) : OrderedDict α β :=
  ⟨d.entries.filter (fun e => !p e), d.nodup.sublist (List.filter_sublist.map _)⟩

def erase (d : OrderedDict α β) (k : α) : OrderedDict α β := d.eraseIf (fun e => e.1 = k)

theorem mem_erase_entries {d : OrderedDict α β} {k : α} {e : α × β} :
    e ∈ (d.erase k).entries ↔ e ∈ d.entries ∧ e.1 ≠ k := by
  simp [erase, eraseIf]

theorem not_mem_erase_keys : k ∉ (d.erase k).keys := by
  intro h
  obtain ⟨e, he, rfl⟩ := List.mem_map.mp h
  exact (mem_erase_entries.mp he).2 rfl

/-- The entries behind which a key is put as the youngest. -/
def pushBack (d : OrderedDict α β) (k : α) (v : β) : OrderedDict α β :=
  ⟨(d.erase k).entries ++ [(k, v)], by
    rw [List.map_append, List.map_cons, List.map_nil]
    exact List.Nodup.append (d.erase k).nodup (List.nodup_singleton k)
      (List.disjoint_singleton.mpr (not_mem_erase_keys d k))⟩

/-- `d[k] = v`: a present key keeps its place, a new one goes to the end. -/
def set (d : OrderedDict α β) (k : α) (v : β) : OrderedDict α β :=
  if k ∈ d.keys then
    ⟨d.entries.map (fun e => if e.1 = k then (k, v) else e), by
      have h : (d.entries.map (fun e => if e.1 = k then (k, v) else e)).map Prod.fst
          = d.entries.map Prod.fst := by
        rw [List.map_map]
        apply List.map_congr_left
        intro e _
        by_cases he : e.1 = k <;> simp [he]
      rw [h]
      exact d.nodup⟩
  else d.pushBack k v

/-- `move_to_end(k)`. -/
def moveToEnd (d : OrderedDict α β) (k : α) : OrderedDict α β :=
  match d.get? k with
  | none => d
  | some v => d.pushBack k v

/-- `d[k] = v; d.move_to_end(k)`, then drop the oldest entries past `cap`. -/
def touch (d : OrderedDict α β) (k : α) (v : β) (cap : ℕ) : OrderedDict α β :=
  ((d.set k v).moveToEnd k).trim cap

/-! ### Reading -/

theorem get?_eq_some_iff {d : OrderedDict α β} {k : α} {v : β} :
    d.get? k = some v ↔ (k, v) ∈ d.entries := by
  obtain ⟨l, hl⟩ := d
  simp only [get?]
  induction l with
  | nil => simp
  | cons e l ih =>
    obtain ⟨a, b⟩ := e
    rw [List.map_cons, List.nodup_cons] at hl
    rw [List.lookup_cons]
    by_cases h : k = a
    · subst h
      have hna : (k, v) ∉ l := fun hm => hl.1 (List.mem_map.mpr ⟨_, hm, rfl⟩)
      simp [hna, eq_comm]
    · have hb : (k == a) = false := by simpa using h
      simp [hb, h, ih hl.2]

theorem get?_eq_none_iff {d : OrderedDict α β} {k : α} : d.get? k = none ↔ k ∉ d.keys := by
  rw [Option.eq_none_iff_forall_ne_some]
  simp only [ne_eq, get?_eq_some_iff, keys, List.mem_map, not_exists, not_and]
  constructor
  · rintro h ⟨a, b⟩ hm rfl
    exact h b hm
  · intro h v hm
    exact h (k, v) hm rfl

theorem mem_keys_of_get? {d : OrderedDict α β} {k : α} {v : β} (h : d.get? k = some v) :
    k ∈ d.keys := List.mem_map.mpr ⟨(k, v), get?_eq_some_iff.mp h, rfl⟩

theorem get?_erase_of_ne {d : OrderedDict α β} {k : α} (h : k' ≠ k) :
    (d.erase k).get? k' = d.get? k' := by
  ext v
  rw [get?_eq_some_iff, get?_eq_some_iff, mem_erase_entries]
  exact and_iff_left h

theorem get?_pushBack_self :
    (d.pushBack k v).get? k = some v := by
  rw [get?_eq_some_iff]
  simp [pushBack]

theorem get?_pushBack_of_ne {d : OrderedDict α β} {k : α} {v : β} (h : k' ≠ k) :
    (d.pushBack k v).get? k' = d.get? k' := by
  ext w
  rw [get?_eq_some_iff, get?_eq_some_iff]
  simp [pushBack, mem_erase_entries, h]

theorem get?_set_self : (d.set k v).get? k = some v := by
  unfold set
  split
  · rename_i hk
    obtain ⟨e, he, rfl⟩ := List.mem_map.mp hk
    rw [get?_eq_some_iff]
    exact List.mem_map.mpr ⟨e, he, if_pos rfl⟩
  · exact get?_pushBack_self d k v

theorem get?_set_of_ne {d : OrderedDict α β} {k : α} {v : β} (h : k' ≠ k) :
    (d.set k v).get? k' = d.get? k' := by
  unfold set
  split
  · ext w
    rw [get?_eq_some_iff, get?_eq_some_iff]
    simp only [List.mem_map]
    constructor
    · rintro ⟨e, he, hv⟩
      by_cases hk : e.1 = k
      · rw [if_pos hk] at hv
        exact absurd (congrArg Prod.fst hv).symm h
      · rw [if_neg hk] at hv
        exact hv ▸ he
    · intro hm
      exact ⟨(k', w), hm, if_neg h⟩
  · exact get?_pushBack_of_ne h

theorem get?_eraseIf (p : α × β → Bool) (k : α) :
    (d.eraseIf p).get? k = (d.get? k).filter (fun v => !p (k, v)) := by
  ext v
  rw [get?_eq_some_iff, Option.filter_eq_some_iff, get?_eq_some_iff]
  exact List.mem_filter

theorem get?_erase (k' : α) :
    (d.erase k).get? k' = if k' = k then none else d.get? k' := by
  split_ifs with h
  · rw [h]
    exact get?_eq_none_iff.mpr (not_mem_erase_keys d k)
  · exact get?_erase_of_ne h

theorem get?_set (k' : α) (v : β) :
    (d.set k v).get? k' = if k' = k then some v else d.get? k' := by
  split_ifs with h
  · rw [h]
    exact get?_set_self d k v
  · exact get?_set_of_ne h

theorem mem_keys_set {k : α} (h : k' = k ∨ k' ∈ d.keys) :
    k' ∈ (d.set k v).keys := by
  by_contra hnot
  have hnone := get?_eq_none_iff.mpr hnot
  rw [get?_set] at hnone
  split_ifs at hnone with hk
  exact get?_eq_none_iff.mp hnone (h.resolve_left hk)

theorem get?_moveToEnd (k' : α) : (d.moveToEnd k).get? k' = d.get? k' := by
  unfold moveToEnd
  cases hk : d.get? k with
  | none => rfl
  | some v =>
    show (d.pushBack k v).get? k' = d.get? k'
    by_cases h : k' = k
    · rw [h, get?_pushBack_self, hk]
    · exact get?_pushBack_of_ne h

/-- Different keys with different values below a bound are not more than the
bound. -/
theorem size_le_of_injective {d : OrderedDict α ℕ} {n : ℕ}
    (hlt : ∀ k v, d.get? k = some v → v < n)
    (hinj : ∀ k k' v, d.get? k = some v → d.get? k' = some v → k = k') : d.size ≤ n := by
  have hmem : ∀ e ∈ d.entries, d.get? e.1 = some e.2 := fun e he => get?_eq_some_iff.mpr he
  have hvalues : (d.entries.map Prod.snd).Nodup := by
    apply List.Nodup.map_on
    · intro e he e' he' h
      have hkey := hinj e.1 e'.1 e.2 (hmem e he) (h ▸ hmem e' he')
      exact Prod.ext hkey h
    · exact d.nodup.of_map Prod.fst
  have hsub : d.entries.map Prod.snd ⊆ List.range n := by
    intro v hv
    obtain ⟨e, he, rfl⟩ := List.mem_map.mp hv
    exact List.mem_range.mpr (hlt e.1 e.2 (hmem e he))
  have hlen := (hvalues.subperm hsub).length_le
  rw [List.length_map, List.length_range] at hlen
  exact hlen

/-! ### Size -/

omit [DecidableEq α] in
theorem size_eraseIf_le (p : α × β → Bool) : (d.eraseIf p).size ≤ d.size :=
  List.length_filter_le _ _

theorem size_erase_lt {d : OrderedDict α β} {k : α} (h : k ∈ d.keys) :
    (d.erase k).size < d.size := by
  obtain ⟨e, he, hk⟩ := List.mem_map.mp h
  exact List.length_filter_lt_length_iff_exists.mpr ⟨e, he, by simp [hk]⟩

theorem size_set_of_mem {d : OrderedDict α β} {k : α} (h : k ∈ d.keys) :
    (d.set k v).size = d.size := by
  unfold set
  rw [if_pos h]
  exact List.length_map _

theorem size_set_le : (d.set k v).size ≤ d.size + 1 := by
  by_cases h : k ∈ d.keys
  · rw [size_set_of_mem v h]
    omega
  · have herase := size_eraseIf_le d (fun e => e.1 = k)
    unfold set
    rw [if_neg h, size, pushBack, List.length_append, List.length_singleton]
    exact Nat.succ_le_succ herase

theorem size_eraseIf_contains {d : OrderedDict α β} {ks : List α} (hnodup : ks.Nodup)
    (hsub : ks ⊆ d.keys) : (d.eraseIf (fun e => ks.contains e.1)).size + ks.length = d.size := by
  have hperm : ((d.entries.filter (fun e => ks.contains e.1)).map Prod.fst).Perm ks := by
    apply (List.perm_ext_iff_of_nodup (d.nodup.sublist (List.filter_sublist.map _)) hnodup).mpr
    intro k
    constructor
    · intro hk
      obtain ⟨e, he, rfl⟩ := List.mem_map.mp hk
      exact List.contains_iff_mem.mp (List.mem_filter.mp he).2
    · intro hk
      obtain ⟨e, he, rfl⟩ := List.mem_map.mp (hsub hk)
      exact List.mem_map.mpr ⟨e, List.mem_filter.mpr ⟨he, List.contains_iff_mem.mpr hk⟩, rfl⟩
  have hlen := hperm.length_eq
  rw [List.length_map] at hlen
  have hsplit := List.length_eq_length_filter_add (l := d.entries) (fun e => ks.contains e.1)
  show (d.entries.filter (fun e => !ks.contains e.1)).length + ks.length = d.entries.length
  omega

omit [DecidableEq α] in
theorem length_le_size {d : OrderedDict α β} {ks : List α} (hnodup : ks.Nodup)
    (hsub : ks ⊆ d.keys) : ks.length ≤ d.size := by
  have h := (hnodup.subperm hsub).length_le
  rwa [keys, List.length_map] at h

/-! ### Touching -/

theorem erase_set :
    ((d.set k v).erase k).entries = (d.erase k).entries := by
  unfold set
  split
  · simp only [erase, eraseIf]
    rw [List.filter_map]
    have hf : ((fun e : α × β => !decide (e.1 = k)) ∘ fun e => if e.1 = k then (k, v) else e)
        = fun e => !decide (e.1 = k) := by
      funext e
      by_cases he : e.1 = k <;> simp [he]
    rw [hf]
    have hid : ∀ e ∈ d.entries.filter (fun e => !decide (e.1 = k)),
        (if e.1 = k then (k, v) else e) = id e := by
      intro e he
      have hne : e.1 ≠ k := by simpa using (List.mem_filter.mp he).2
      simp [hne]
    rw [List.map_congr_left hid, List.map_id]
  · simp only [pushBack, erase, eraseIf, List.filter_append, List.filter_filter, Bool.and_self]
    simp

theorem moveToEnd_set_entries :
    ((d.set k v).moveToEnd k).entries = (d.erase k).entries ++ [(k, v)] := by
  rw [moveToEnd, get?_set_self]
  simp only [pushBack, erase_set]

theorem touch_entries :
    (d.touch k v cap).entries =
      ((d.erase k).entries ++ [(k, v)]).drop ((d.erase k).entries.length + 1 - cap) := by
  rw [touch, trim]
  simp only [moveToEnd_set_entries, List.length_append, List.length_singleton]

/-- The touched key is the youngest, so it is there as soon as anything fits. -/
theorem touch_split_self (hcap : 0 < cap) :
    ∃ old, (d.touch k v cap).entries = old ++ [(k, v)] := by
  rw [touch_entries, List.drop_append_of_le_length (by omega)]
  exact ⟨_, rfl⟩

/-- **Recency.** After touching another key, a key is still there with its value
and only that other key has joined those behind it; or it has been evicted, and
`cap` different keys stood behind it, the touched one among them. -/
theorem touch_after {d : OrderedDict α β} {k : α} {w : β} (hne : k' ≠ k)
    {old young : List (α × β)} (hd : d.entries = old ++ (k, w) :: young) :
    (∃ old' young', (d.touch k' v cap).entries = old' ++ (k, w) :: young' ∧
        ∀ e ∈ young', e.1 = k' ∨ e ∈ young) ∨
      (k ∉ (d.touch k' v cap).keys ∧ ∃ young' : List (α × β), cap ≤ young'.length ∧
        (young'.map Prod.fst).Nodup ∧ ∀ e ∈ young', e.1 ≠ k ∧ (e.1 = k' ∨ e ∈ young)) := by
  have hk : (k, w).1 ≠ k' := fun h => hne h.symm
  -- the other entries keep their order, the touched one joins at the end
  set young' := young.filter (fun e => !decide (e.1 = k')) ++ [(k', v)] with hyoung
  set old' := old.filter (fun e => !decide (e.1 = k')) with hold
  have hent : (d.erase k').entries ++ [(k', v)] = old' ++ (k, w) :: young' := by
    simp only [erase, eraseIf, hd, List.filter_append, List.filter_cons, hyoung, hold]
    simp [hk]
  have hmem : ∀ e ∈ young', e.1 = k' ∨ e ∈ young := by
    intro e he
    rcases List.mem_append.mp he with h | h
    · exact Or.inr (List.mem_filter.mp h).1
    · exact Or.inl (congrArg Prod.fst (List.mem_singleton.mp h))
  have hlen : (d.erase k').entries.length + 1 = old'.length + (young'.length + 1) := by
    have h := congrArg List.length hent
    simpa using h
  have htouch := touch_entries d k' v cap
  rw [hent, hlen] at htouch
  have hnodup : ((old' ++ (k, w) :: young').map Prod.fst).Nodup := by
    have h := ((d.set k' v).moveToEnd k').nodup
    rwa [moveToEnd_set_entries, hent] at h
  rw [List.map_append, List.map_cons, List.nodup_append, List.nodup_cons] at hnodup
  obtain ⟨_, ⟨hknot, hyn⟩, _⟩ := hnodup
  by_cases hfit : young'.length + 1 ≤ cap
  · left
    refine ⟨old'.drop (old'.length + (young'.length + 1) - cap), young', ?_, hmem⟩
    rw [htouch, List.drop_append_of_le_length (by omega)]
  · right
    have hin : ∀ e ∈ (d.touch k' v cap).entries, e ∈ young' := by
      intro e he
      have hdrop : (old' ++ (k, w) :: young').drop (old'.length + (young'.length + 1) - cap)
          = young'.drop (young'.length - cap) := by
        have hsplit : old' ++ (k, w) :: young' = (old' ++ [(k, w)]) ++ young' := by simp
        have hl : (old' ++ [(k, w)]).length = old'.length + 1 := by simp
        rw [hsplit, List.drop_append, List.drop_eq_nil_of_le (by omega), List.nil_append, hl]
        congr 1
        omega
      rw [htouch, hdrop] at he
      exact List.mem_of_mem_drop he
    refine ⟨?_, young', by omega, hyn, ?_⟩
    · intro hmk
      obtain ⟨e, he, hek⟩ := List.mem_map.mp hmk
      exact hknot (List.mem_map.mpr ⟨e, hin e he, hek⟩)
    · intro e he
      refine ⟨?_, hmem e he⟩
      rintro rfl
      exact hknot (List.mem_map.mpr ⟨e, he, rfl⟩)

/-- Erasing a key before touching it makes no difference. -/
theorem touch_erase_entries :
    ((d.erase k).touch k v cap).entries = (d.touch k v cap).entries := by
  have h : ((d.erase k).erase k).entries = (d.erase k).entries := by
    simp only [erase, eraseIf, List.filter_filter, Bool.and_self]
  rw [touch_entries, touch_entries, h]

end OrderedDict

end RtfmEv.Lib

/-!
## Totals over a dictionary

The sum of a quantity over the values of a dictionary, and what an assignment does to it and
to the keys.
-/

namespace RtfmEv.Lib.OrderedDict

variable {α β : Type*}

def total (f : β → ℕ) (d : OrderedDict α β) : ℕ := (d.entries.map (fun e => f e.2)).sum

theorem keys_eraseIf (d : OrderedDict α β) (p : α → Bool) :
    (d.eraseIf (fun e => p e.1)).keys = d.keys.filter (fun k => !p k) := by
  show (d.entries.filter _).map Prod.fst = (d.entries.map Prod.fst).filter _
  rw [List.filter_map]
  rfl

variable [DecidableEq α]

theorem total_eq_erase (f : β → ℕ) (d : OrderedDict α β) (k : α) :
    d.total f = (d.erase k).total f + ((d.get? k).map f).getD 0 := by
  obtain ⟨entries, hnodup⟩ := d
  show (entries.map (fun e => f e.2)).sum =
    ((entries.filter (fun e => !decide (e.1 = k))).map (fun e => f e.2)).sum +
      ((entries.lookup k).map f).getD 0
  induction entries with
  | nil => rfl
  | cons e entries ih =>
    rw [List.map_cons, List.nodup_cons] at hnodup
    have hrest := ih hnodup.2
    obtain ⟨a, b⟩ := e
    rw [List.map_cons, List.sum_cons, List.lookup_cons]
    by_cases h : a = k
    · subst h
      have hkept : entries.filter (fun e => !decide (e.1 = a)) = entries := by
        rw [List.filter_eq_self]
        intro e he
        have hne : e.1 ≠ a := by
          rintro rfl
          exact hnodup.1 (List.mem_map.mpr ⟨e, he, rfl⟩)
        simpa using hne
      rw [List.filter_cons_of_neg (by simp), hkept, beq_self_eq_true, Nat.add_comm]
      rfl
    · have hb : (k == a) = false := by
        rw [beq_eq_false_iff_ne]
        exact fun heq => h heq.symm
      rw [List.filter_cons_of_pos (by simpa using h), List.map_cons, List.sum_cons, hb, hrest]
      exact (Nat.add_assoc _ _ _).symm

/-- **An assignment puts the new value in place of the old one.** -/
theorem total_set (f : β → ℕ) (d : OrderedDict α β) (k : α) (v : β) :
    (d.set k v).total f + ((d.get? k).map f).getD 0 = d.total f + f v := by
  have herase : ((d.set k v).erase k).total f = (d.erase k).total f := by
    rw [total, total, erase_set]
  rw [total_eq_erase f (d.set k v) k, total_eq_erase f d k, herase, get?_set_self]
  show _ + f v + _ = _ + _ + f v
  omega

theorem keys_set (d : OrderedDict α β) (k : α) (v : β) :
    (d.set k v).keys = if k ∈ d.keys then d.keys else d.keys ++ [k] := by
  unfold set
  by_cases h : k ∈ d.keys
  · rw [if_pos h, if_pos h]
    show (d.entries.map _).map Prod.fst = d.entries.map Prod.fst
    rw [List.map_map]
    apply List.map_congr_left
    intro e _
    by_cases he : e.1 = k <;> simp [he]
  · have hkept : (d.erase k).entries = d.entries := by
      show d.entries.filter (fun e => !decide (e.1 = k)) = d.entries
      rw [List.filter_eq_self]
      intro e he
      have hne : e.1 ≠ k := by
        rintro rfl
        exact h (List.mem_map_of_mem he)
      simpa using hne
    rw [if_neg h, if_neg h]
    show ((d.erase k).entries ++ [(k, v)]).map Prod.fst = _
    rw [hkept, List.map_append]
    rfl

/-!
## Moving the rows of one owner to another

A table keyed by an owner and a name within the owner. Its rows are copied to
another owner: a row that the other owner does not have is inserted, one that it
has is merged into, and the originals are deleted.
-/

variable {κ α ρ : Type*}

/-- The same keys with other rows. -/
def mapValues (d : OrderedDict κ ρ) (f : ρ → ρ) : OrderedDict κ ρ :=
  ⟨d.entries.map (fun e => (e.1, f e.2)), by
    rw [List.map_map]
    exact d.nodup⟩

variable [DecidableEq κ] [DecidableEq α]

/-- A row after another one has been inserted on conflict with it. -/
def joinRow (fresh : ρ → ρ) (merge : ρ → ρ → ρ) (kept : Option ρ) (moved : ρ) : ρ :=
  match kept with
  | none => fresh moved
  | some row => merge row moved

/-- `INSERT … SELECT … ON CONFLICT DO UPDATE` of the rows of `old` under `new`. -/
def copyRows (fresh : ρ → ρ) (merge : ρ → ρ → ρ) (old new : κ) (d : OrderedDict (κ × α) ρ) :
    OrderedDict (κ × α) ρ :=
  (d.entries.filter (fun e => e.1.1 = old)).foldl
    (fun t e => t.set (new, e.1.2) (joinRow fresh merge (t.get? (new, e.1.2)) e.2)) d

/-- Copy the rows of `old` to `new` and delete the originals. -/
def moveRows (fresh : ρ → ρ) (merge : ρ → ρ → ρ) (old new : κ) (d : OrderedDict (κ × α) ρ) :
    OrderedDict (κ × α) ρ :=
  (copyRows fresh merge old new d).eraseIf (fun e => e.1.1 = old)

section

variable {fresh : ρ → ρ} {merge : ρ → ρ → ρ} {old new : κ}

/-- Copying rows of other names does not touch this one. -/
theorem get?_foldl_of_not_mem {l : List ((κ × α) × ρ)} {a : α} (hnot : ∀ e ∈ l, e.1.2 ≠ a)
    (t : OrderedDict (κ × α) ρ) (k : κ) :
    (l.foldl (fun t e => t.set (new, e.1.2) (joinRow fresh merge (t.get? (new, e.1.2)) e.2))
        t).get? (k, a) = t.get? (k, a) := by
  induction l generalizing t with
  | nil => rfl
  | cons e l ih =>
    rw [List.foldl_cons, ih (fun e he => hnot e (List.mem_cons_of_mem _ he)), get?_set_of_ne]
    intro heq
    exact hnot e List.mem_cons_self (Prod.mk.inj heq).2.symm

/-- A row of a name that comes once is joined once. -/
theorem get?_foldl_of_mem {l : List ((κ × α) × ρ)} (hnodup : (l.map Prod.fst).Nodup)
    (hold : ∀ e ∈ l, e.1.1 = old) {a : α} {moved : ρ} (hmem : ((old, a), moved) ∈ l)
    (t : OrderedDict (κ × α) ρ) :
    (l.foldl (fun t e => t.set (new, e.1.2) (joinRow fresh merge (t.get? (new, e.1.2)) e.2))
        t).get? (new, a) = some (joinRow fresh merge (t.get? (new, a)) moved) := by
  induction l generalizing t with
  | nil => cases hmem
  | cons e l ih =>
    rw [List.map_cons, List.nodup_cons] at hnodup
    rw [List.foldl_cons]
    rcases List.mem_cons.mp hmem with rfl | hmem
    · rw [get?_foldl_of_not_mem, get?_set_self]
      -- the name comes once
      intro e he hea
      apply hnodup.1
      have hkey : e.1 = (old, a) := Prod.ext (hold e (List.mem_cons_of_mem _ he)) hea
      exact List.mem_map.mpr ⟨e, he, hkey⟩
    · have hne : (new, a) ≠ (new, e.1.2) := by
        intro heq
        have hkey : e.1 = (old, a) :=
          Prod.ext (hold e List.mem_cons_self) (Prod.mk.inj heq).2.symm
        exact hnodup.1 (List.mem_map.mpr ⟨_, hmem, hkey.symm⟩)
      rw [ih hnodup.2 (fun e he => hold e (List.mem_cons_of_mem _ he)) hmem, get?_set_of_ne hne]

theorem get?_copyRows (d : OrderedDict (κ × α) ρ) (a : α) :
    (copyRows fresh merge old new d).get? (new, a) =
      match d.get? (old, a) with
      | none => d.get? (new, a)
      | some moved => some (joinRow fresh merge (d.get? (new, a)) moved) := by
  have hold : ∀ e ∈ d.entries.filter (fun e => e.1.1 = old), e.1.1 = old :=
    fun e he => of_decide_eq_true (List.mem_filter.mp he).2
  cases hget : d.get? (old, a) with
  | none =>
    apply get?_foldl_of_not_mem
    intro e he hea
    have hkey : e.1 = (old, a) := Prod.ext (hold e he) hea
    exact get?_eq_none_iff.mp hget (List.mem_map.mpr ⟨e, (List.mem_filter.mp he).1, hkey⟩)
  | some moved =>
    apply get?_foldl_of_mem (d.nodup.sublist (List.filter_sublist.map _)) hold
    exact List.mem_filter.mpr ⟨get?_eq_some_iff.mp hget, decide_eq_true rfl⟩

theorem get?_moveRows_old (d : OrderedDict (κ × α) ρ) (a : α) :
    (moveRows fresh merge old new d).get? (old, a) = none := by
  rw [moveRows, get?_eraseIf]
  cases (copyRows fresh merge old new d).get? (old, a) with
  | none => rfl
  | some r => simp [Option.filter]

/-- The other owner has its own rows with the moved ones joined. -/
theorem get?_moveRows_new (hne : new ≠ old) (d : OrderedDict (κ × α) ρ) (a : α) :
    (moveRows fresh merge old new d).get? (new, a) =
      match d.get? (old, a) with
      | none => d.get? (new, a)
      | some moved => some (joinRow fresh merge (d.get? (new, a)) moved) := by
  rw [moveRows, get?_eraseIf, ← get?_copyRows]
  cases (copyRows fresh merge old new d).get? (new, a) with
  | none => rfl
  | some r => simp [Option.filter, hne]

end

end RtfmEv.Lib.OrderedDict
