import RtfmEv.Lib.UnionFind
import RtfmEv.Spam.Learning

/-!
# The similarity cache (`SpamDetector._find_campaigns`)

Which texts in the window are similar is kept from call to call. A text that left the window
is taken out with its links, and a text that is new is compared with those that are known.
Another threshold empties the cache. The links are then walked to join texts, a set in any
order.
-/

namespace RtfmEv.Spam

open RtfmEv.Lib RtfmEv.Lib.UnionFind

/-- The texts that are known with their shingles, and the similar texts of each. -/
structure SimilarityCache where
  /-- in percent -/
  threshold : ℕ := 0
  shingles : OrderedDict String (List (List Char)) := .empty
  links : OrderedDict String (List String) := .empty

/-- The order in which a set of texts is walked. -/
structure SetOrder where
  walk : List String → List String
  perm : ∀ s, (walk s).Perm s

/-! ### Links -/

/-- `links.get(norm, set())`. -/
def linksOf (links : OrderedDict String (List String)) (norm : String) : List String :=
  (links.get? norm).getD []

/-- `links.setdefault(norm, set()).add(other)`. -/
def addLink (links : OrderedDict String (List String)) (norm other : String) :
    OrderedDict String (List String) :=
  links.set norm (if other ∈ linksOf links norm then linksOf links norm
    else linksOf links norm ++ [other])

/-- `links.get(other, set()).discard(norm)`. -/
def discardLink (norm : String) (links : OrderedDict String (List String)) (other : String) :
    OrderedDict String (List String) :=
  match links.get? other with
  | none => links
  | some others => links.set other (others.filter (· ≠ norm))

namespace SimilarityCache

/-- Another threshold empties the cache. -/
def withThreshold (c : SimilarityCache) (threshold : ℕ) : SimilarityCache :=
  if threshold ≠ c.threshold then { threshold := threshold } else c

/-- A text left the window. -/
def forget (c : SimilarityCache) (norm : String) : SimilarityCache :=
  { c with
    shingles := c.shingles.erase norm
    links := (linksOf c.links norm).foldl (discardLink norm) (c.links.erase norm) }

/-- Link a new text with one that is known, if they are similar. -/
def linkWith (threshold : ℕ) (norm : String) (mine : List (List Char))
    (links : OrderedDict String (List String)) (known : String × List (List Char)) :
    OrderedDict String (List String) :=
  if similar mine known.2 threshold then addLink (addLink links norm known.1) known.1 norm
  else links

/-- A text is new in the window. -/
def learn (c : SimilarityCache) (norm : String) : SimilarityCache :=
  if norm ∈ c.shingles.keys then c
  else
    { c with
      links := c.shingles.entries.foldl (linkWith c.threshold norm (Spam.shingles norm)) c.links
      shingles := c.shingles.set norm (Spam.shingles norm) }

/-- The cache for the texts in the window. -/
def update (c : SimilarityCache) (threshold : ℕ) (norms : List String) : SimilarityCache :=
  let c := c.withThreshold threshold
  let c := (c.shingles.keys.filter (fun n => n ∉ norms)).foldl forget c
  norms.foldl learn c

/-- The places of the texts that are joined. -/
def pairs (c : SimilarityCache) (order : SetOrder) (norms : List String) : List (ℕ × ℕ) :=
  c.links.entries.flatMap (fun entry =>
    ((order.walk entry.2).filter (fun other => entry.1 ∈ norms ∧ other ∈ norms)).map
      (fun other => (norms.idxOf entry.1, norms.idxOf other)))

end SimilarityCache

/-- The messages that campaigns are looked for in, by their text. -/
def campaignGroups (events : List Event) : List (String × List Event) :=
  groupBy Event.norm ((events.drop (events.length - maxCampaignEvents)).filter (fun e =>
    !e.exempt && minCampaignChars ≤ e.norm.toList.length))

/-- `_find_campaigns`, with the cache. A campaign's number is the place of a root. -/
def Detector.findCampaignsCached (d : Detector) (order : SetOrder) (c : SimilarityCache)
    (events : List Event) : SimilarityCache × List Campaign :=
  let groups := campaignGroups events
  let norms := groups.map Prod.fst
  let c := c.update d.tunables.similarity norms
  let places := List.range groups.length
  let roots := readRoots (joinAll places (c.pairs order norms)) places
  let clusters := (groupBy Prod.snd (groups.zip roots)).map (fun cluster =>
    d.judgeCluster cluster.1 (cluster.2.flatMap (fun group => group.1.2)))
  (c, clusters.filter (fun campaign => 2 ≤ campaign.senders.length))

/-! ### Similar texts -/

theorem nodup_shingles (norm : String) : (shingles norm).Nodup := by
  rw [shingles]
  split_ifs
  · exact List.nodup_nil
  · exact List.nodup_singleton _
  · exact List.nodup_dedup _

theorem length_filter_contains {a b : List (List Char)} (ha : a.Nodup) (hb : b.Nodup) :
    (a.filter (fun s => b.contains s)).length = (b.filter (fun s => a.contains s)).length := by
  apply List.Perm.length_eq
  apply (List.perm_ext_iff_of_nodup (ha.filter _) (hb.filter _)).mpr
  intro s
  simp only [List.mem_filter, List.contains_iff_mem]
  exact and_comm

theorem similar_comm {a b : List (List Char)} (ha : a.Nodup) (hb : b.Nodup) (threshold : ℕ) :
    similar a b threshold = similar b a threshold := by
  rw [Bool.eq_iff_iff]
  simp only [similar, Bool.and_eq_true, decide_eq_true_eq, length_filter_contains ha hb,
    Nat.min_comm a.length, Nat.max_comm a.length, Nat.add_comm a.length]
  constructor
  · intro h
    exact ⟨⟨⟨⟨h.1.1.1.2, h.1.1.1.1⟩, h.1.1.2⟩, h.1.2⟩, h.2⟩
  · intro h
    exact ⟨⟨⟨⟨h.1.1.1.2, h.1.1.1.1⟩, h.1.1.2⟩, h.1.2⟩, h.2⟩

/-! ### The cache is what the texts say -/

/-- Two texts that are linked. -/
def Linked (threshold : ℕ) (known : String → Prop) (a b : String) : Prop :=
  known a ∧ known b ∧ a ≠ b ∧ similar (shingles a) (shingles b) threshold = true

theorem Linked.symm {threshold : ℕ} {known : String → Prop} {a b : String}
    (h : Linked threshold known a b) : Linked threshold known b a := by
  obtain ⟨ha, hb, hne, hsimilar⟩ := h
  refine ⟨hb, ha, fun heq => hne heq.symm, ?_⟩
  rw [similar_comm (nodup_shingles b) (nodup_shingles a)]
  exact hsimilar

theorem mem_linksOf_addLink (links : OrderedDict String (List String)) (norm other a b : String) :
    b ∈ linksOf (addLink links norm other) a ↔
      b ∈ linksOf links a ∨ (a = norm ∧ b = other) := by
  rw [addLink, linksOf, OrderedDict.get?_set]
  by_cases ha : a = norm
  · subst ha
    rw [if_pos rfl, Option.getD_some]
    split_ifs with hin
    · constructor
      · exact Or.inl
      · rintro (h | ⟨-, rfl⟩)
        · exact h
        · exact hin
    · rw [List.mem_append, List.mem_singleton]
      simp
  · rw [if_neg ha]
    simp [ha, linksOf]

theorem mem_linksOf_discardLink (norm : String) (links : OrderedDict String (List String))
    (other a b : String) :
    b ∈ linksOf (discardLink norm links other) a ↔
      b ∈ linksOf links a ∧ ¬(a = other ∧ b = norm) := by
  rw [discardLink]
  cases hget : links.get? other with
  | none =>
    by_cases ha : a = other
    · subst ha
      simp [linksOf, hget]
    · simp [ha]
  | some others =>
    show b ∈ linksOf (links.set other _) a ↔ _
    rw [linksOf, OrderedDict.get?_set]
    by_cases ha : a = other
    · subst ha
      rw [if_pos rfl, Option.getD_some, List.mem_filter]
      simp [linksOf, hget]
    · rw [if_neg ha]
      simp [ha, linksOf]

theorem mem_linksOf_foldl_discardLink (norm : String) (others : List String)
    (links : OrderedDict String (List String)) (a b : String) :
    b ∈ linksOf (others.foldl (discardLink norm) links) a ↔
      b ∈ linksOf links a ∧ ¬(a ∈ others ∧ b = norm) := by
  induction others generalizing links with
  | nil => simp
  | cons other others ih =>
    rw [List.foldl_cons, ih, mem_linksOf_discardLink, List.mem_cons]
    tauto

theorem mem_linksOf_foldl_linkWith (threshold : ℕ) (norm : String) (mine : List (List Char))
    (known : List (String × List (List Char))) (links : OrderedDict String (List String))
    (a b : String) :
    b ∈ linksOf (known.foldl (SimilarityCache.linkWith threshold norm mine) links) a ↔
      b ∈ linksOf links a ∨ ∃ entry ∈ known, similar mine entry.2 threshold = true ∧
        ((a = norm ∧ b = entry.1) ∨ (a = entry.1 ∧ b = norm)) := by
  induction known generalizing links with
  | nil => simp
  | cons entry known ih =>
    rw [List.foldl_cons, ih, SimilarityCache.linkWith]
    split_ifs with hsimilar
    · rw [mem_linksOf_addLink, mem_linksOf_addLink]
      simp only [List.exists_mem_cons_iff, hsimilar, true_and, or_assoc]
    · simp only [List.exists_mem_cons_iff, hsimilar, false_and, false_or, Bool.false_eq_true]

namespace SimilarityCache

/-- What the cache says is so. -/
structure Right (c : SimilarityCache) : Prop where
  shingles : ∀ norm s, c.shingles.get? norm = some s → s = Spam.shingles norm
  links : ∀ a b, b ∈ linksOf c.links a ↔ Linked c.threshold (· ∈ c.shingles.keys) a b

theorem Right.empty (threshold : ℕ) : Right { threshold := threshold } where
  shingles := fun _ _ h => nomatch h
  links := by
    intro a b
    constructor
    · intro h
      exact absurd h List.not_mem_nil
    · intro h
      exact absurd h.1 List.not_mem_nil

variable {c : SimilarityCache}

theorem Right.withThreshold (h : c.Right) (threshold : ℕ) :
    (c.withThreshold threshold).Right ∧ (c.withThreshold threshold).threshold = threshold := by
  rw [SimilarityCache.withThreshold]
  split_ifs with hne
  · exact ⟨Right.empty threshold, rfl⟩
  · exact ⟨h, (not_not.mp hne).symm⟩

theorem mem_keys_erase {β : Type} (d : OrderedDict String β) (k k' : String) :
    k' ∈ (d.erase k).keys ↔ k' ∈ d.keys ∧ k' ≠ k := by
  rw [← not_iff_not, ← OrderedDict.get?_eq_none_iff, OrderedDict.get?_erase]
  split_ifs with h
  · simp [h]
  · rw [OrderedDict.get?_eq_none_iff]
    simp [h]

/-- **A text is taken out with every link to it.** -/
theorem Right.forget (h : c.Right) (norm : String) :
    (c.forget norm).Right ∧ (c.forget norm).threshold = c.threshold ∧
      ∀ k, k ∈ (c.forget norm).shingles.keys ↔ k ∈ c.shingles.keys ∧ k ≠ norm := by
  refine ⟨⟨?_, ?_⟩, rfl, fun k => mem_keys_erase _ _ _⟩
  · intro k s hget
    have hold : (c.shingles.erase norm).get? k = some s := hget
    rw [OrderedDict.get?_erase] at hold
    split_ifs at hold
    exact h.shingles k s hold
  · intro a b
    show b ∈ linksOf ((linksOf c.links norm).foldl (discardLink norm) (c.links.erase norm)) a ↔
      Linked c.threshold (· ∈ (c.shingles.erase norm).keys) a b
    have herase : b ∈ linksOf (c.links.erase norm) a ↔ a ≠ norm ∧ b ∈ linksOf c.links a := by
      rw [linksOf, OrderedDict.get?_erase]
      split_ifs with ha
      · simp [ha]
      · simp [ha, linksOf]
    rw [mem_linksOf_foldl_discardLink, herase, h.links, h.links]
    simp only [Linked, mem_keys_erase]
    have hsymm : b = norm → Linked c.threshold (· ∈ c.shingles.keys) a b →
        Linked c.threshold (· ∈ c.shingles.keys) norm a := by
      rintro rfl hlinked
      exact hlinked.symm
    simp only [Linked] at hsymm
    tauto

/-- **A new text is linked both ways with every similar one.** -/
theorem Right.learn (h : c.Right) (norm : String) :
    (c.learn norm).Right ∧ (c.learn norm).threshold = c.threshold ∧
      ∀ k, k ∈ (c.learn norm).shingles.keys ↔ k ∈ c.shingles.keys ∨ k = norm := by
  rw [SimilarityCache.learn]
  split_ifs with hknown
  · refine ⟨h, rfl, fun k => ?_⟩
    constructor
    · exact Or.inl
    · rintro (hk | rfl)
      · exact hk
      · exact hknown
  · have hkeys : ∀ k, k ∈ (c.shingles.set norm (Spam.shingles norm)).keys ↔
        k ∈ c.shingles.keys ∨ k = norm := by
      intro k
      rw [← not_iff_not, ← OrderedDict.get?_eq_none_iff, OrderedDict.get?_set]
      split_ifs with hk
      · simp [hk]
      · rw [OrderedDict.get?_eq_none_iff]
        simp [hk]
    refine ⟨⟨?_, ?_⟩, rfl, hkeys⟩
    · intro k s hget
      have hset : (c.shingles.set norm (Spam.shingles norm)).get? k = some s := hget
      rw [OrderedDict.get?_set] at hset
      split_ifs at hset with hk
      · rw [hk]
        exact (Option.some.inj hset).symm
      · exact h.shingles k s hset
    · intro a b
      show b ∈ linksOf (c.shingles.entries.foldl _ c.links) a ↔
        Linked c.threshold (· ∈ (c.shingles.set norm (Spam.shingles norm)).keys) a b
      have hentries : ∀ other, (∃ entry ∈ c.shingles.entries,
          similar (Spam.shingles norm) entry.2 c.threshold = true ∧ other = entry.1) ↔
          other ∈ c.shingles.keys ∧
            similar (Spam.shingles norm) (Spam.shingles other) c.threshold = true := by
        intro other
        constructor
        · rintro ⟨entry, hentry, hsimilar, rfl⟩
          have hshingles := h.shingles entry.1 entry.2 (OrderedDict.get?_eq_some_iff.mpr hentry)
          rw [hshingles] at hsimilar
          exact ⟨List.mem_map_of_mem hentry, hsimilar⟩
        · rintro ⟨hother, hsimilar⟩
          obtain ⟨entry, hentry, rfl⟩ := List.mem_map.mp hother
          have hshingles := h.shingles entry.1 entry.2 (OrderedDict.get?_eq_some_iff.mpr hentry)
          exact ⟨entry, hentry, by rw [hshingles]; exact hsimilar, rfl⟩
      have hnew : (∃ entry ∈ c.shingles.entries,
          similar (Spam.shingles norm) entry.2 c.threshold = true ∧
            ((a = norm ∧ b = entry.1) ∨ (a = entry.1 ∧ b = norm))) ↔
          (a = norm ∧ b ∈ c.shingles.keys ∧
            similar (Spam.shingles norm) (Spam.shingles b) c.threshold = true) ∨
          (b = norm ∧ a ∈ c.shingles.keys ∧
            similar (Spam.shingles norm) (Spam.shingles a) c.threshold = true) := by
        rw [← hentries a, ← hentries b]
        constructor
        · rintro ⟨entry, hentry, hsimilar, ⟨ha, hb⟩ | ⟨ha, hb⟩⟩
          · exact Or.inl ⟨ha, entry, hentry, hsimilar, hb⟩
          · exact Or.inr ⟨hb, entry, hentry, hsimilar, ha⟩
        · rintro (⟨ha, entry, hentry, hsimilar, hb⟩ | ⟨hb, entry, hentry, hsimilar, ha⟩)
          · exact ⟨entry, hentry, hsimilar, Or.inl ⟨ha, hb⟩⟩
          · exact ⟨entry, hentry, hsimilar, Or.inr ⟨ha, hb⟩⟩
      rw [mem_linksOf_foldl_linkWith, hnew, h.links]
      simp only [Linked, hkeys]
      have hcomm := similar_comm (nodup_shingles a) (nodup_shingles norm) c.threshold
      constructor
      · rintro (⟨ha, hb, hne, hsimilar⟩ | ⟨rfl, hb, hsimilar⟩ | ⟨rfl, ha, hsimilar⟩)
        · exact ⟨Or.inl ha, Or.inl hb, hne, hsimilar⟩
        · refine ⟨Or.inr rfl, Or.inl hb, ?_, hsimilar⟩
          rintro rfl
          exact hknown hb
        · refine ⟨Or.inl ha, Or.inr rfl, ?_, hcomm.trans hsimilar⟩
          rintro rfl
          exact hknown ha
      · rintro ⟨ha | rfl, hb | rfl, hne, hsimilar⟩
        · exact Or.inl ⟨ha, hb, hne, hsimilar⟩
        · exact Or.inr (Or.inr ⟨rfl, ha, hcomm.symm.trans hsimilar⟩)
        · exact Or.inr (Or.inl ⟨rfl, hb, hsimilar⟩)
        · exact absurd rfl hne

theorem Right.forgetAll (h : c.Right) (gone : List String) :
    (gone.foldl SimilarityCache.forget c).Right ∧
      (gone.foldl SimilarityCache.forget c).threshold = c.threshold ∧
      ∀ k, k ∈ (gone.foldl SimilarityCache.forget c).shingles.keys ↔
        k ∈ c.shingles.keys ∧ k ∉ gone := by
  induction gone generalizing c with
  | nil => exact ⟨h, rfl, fun k => by simp⟩
  | cons norm gone ih =>
    obtain ⟨hright, hthreshold, hkeys⟩ := h.forget norm
    obtain ⟨hright', hthreshold', hkeys'⟩ := ih hright
    refine ⟨hright', hthreshold'.trans hthreshold, fun k => ?_⟩
    rw [List.foldl_cons, hkeys', hkeys, List.mem_cons]
    tauto

theorem Right.learnAll (h : c.Right) (norms : List String) :
    (norms.foldl SimilarityCache.learn c).Right ∧
      (norms.foldl SimilarityCache.learn c).threshold = c.threshold ∧
      ∀ k, k ∈ (norms.foldl SimilarityCache.learn c).shingles.keys ↔
        k ∈ c.shingles.keys ∨ k ∈ norms := by
  induction norms generalizing c with
  | nil => exact ⟨h, rfl, fun k => by simp⟩
  | cons norm norms ih =>
    obtain ⟨hright, hthreshold, hkeys⟩ := h.learn norm
    obtain ⟨hright', hthreshold', hkeys'⟩ := ih hright
    refine ⟨hright', hthreshold'.trans hthreshold, fun k => ?_⟩
    rw [List.foldl_cons, hkeys', hkeys, List.mem_cons]
    tauto

/-- **The cache after an update**: it knows the texts in the window and links the similar
ones, whatever it knew before. -/
theorem Right.update (h : c.Right) (threshold : ℕ) (norms : List String) :
    (c.update threshold norms).Right ∧
      ∀ a b, b ∈ linksOf (c.update threshold norms).links a ↔
        Linked threshold (· ∈ norms) a b := by
  obtain ⟨hright, hthreshold⟩ := h.withThreshold threshold
  obtain ⟨hright', hthreshold', hkeys'⟩ := hright.forgetAll
    ((c.withThreshold threshold).shingles.keys.filter (fun n => n ∉ norms))
  obtain ⟨hright'', hthreshold'', hkeys''⟩ := hright'.learnAll norms
  refine ⟨hright'', fun a b => ?_⟩
  have hknown : ∀ k, k ∈ (c.update threshold norms).shingles.keys ↔ k ∈ norms := by
    intro k
    rw [show c.update threshold norms = norms.foldl SimilarityCache.learn _ from rfl, hkeys'',
      hkeys', List.mem_filter]
    simp only [decide_eq_true_eq]
    tauto
  have hlinks := hright''.links a b
  rw [hthreshold'', hthreshold', hthreshold] at hlinks
  rw [show c.update threshold norms = norms.foldl SimilarityCache.learn _ from rfl, hlinks]
  rw [show c.update threshold norms = norms.foldl SimilarityCache.learn _ from rfl] at hknown
  simp only [Linked, hknown]

end SimilarityCache

end RtfmEv.Spam
