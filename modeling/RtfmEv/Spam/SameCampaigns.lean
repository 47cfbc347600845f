import RtfmEv.Spam.SimilarityCache

/-!
# Campaigns are connected components

The texts of a window are put into components one after the other, each component under its
first text. These are the classes of the equivalence that similarity generates, so the
campaigns of a window are those classes, whatever way they are found.
-/

namespace RtfmEv.Spam

open RtfmEv.Lib RtfmEv.Lib.Classes

/-- Two texts that a chain of similar texts connects. -/
abbrev Connected (threshold : ℕ) (texts : List String) : String → String → Prop :=
  Relation.EqvGen (Linked threshold (· ∈ texts))

/-- The groups of messages that are connected. -/
noncomputable def connectedParts (threshold : ℕ) (groups : List (String × List Event)) :
    List (List (String × List Event)) :=
  classes (fun a b => Connected threshold (groups.map Prod.fst) a.1 b.1) groups

/-- The campaigns among some groups: the connected components with two senders. -/
noncomputable def Detector.campaignsOf (d : Detector) (groups : List (String × List Event)) :
    List Campaign :=
  ((connectedParts d.tunables.similarity groups).map (fun part =>
    d.judgeCluster 0 (part.flatMap Prod.snd))).filter (fun c => 2 ≤ c.senders.length)

/-!
## The similarity cache changes nothing

Whatever calls came before, with other windows and other thresholds, a call finds the campaigns
that it would find with an empty cache: the connected components of the texts of the window.
-/

open RtfmEv.Lib RtfmEv.Lib.Classes RtfmEv.Lib.UnionFind

/-- A campaign without its number. -/
def Campaign.unnumbered (c : Campaign) : Campaign := { c with id := 0 }

/-! #### Groups -/

variable (d : Detector) {α κ : Type} (key : α → κ) (order : SetOrder) {norms : List String}
  {c : SimilarityCache} {threshold : ℕ} {groups : List (String × List Event)}

theorem nodup_keys_groupBy [DecidableEq κ] (xs : List α) :
    ((groupBy key xs).map Prod.fst).Nodup := by
  rw [groupBy, List.map_map, show (Prod.fst ∘ fun k => (k, xs.filter (fun x => key x = k))) = id
    from rfl, List.map_id, List.nodup_reverse]
  exact List.nodup_dedup _

open scoped Classical in
/-- The keys come in the order of the first elements that have them. -/
theorem dedup_keys_eq [DecidableEq κ] {xs : List α}
    (hnodup : xs.Nodup) :
    ((xs.map key).reverse.dedup).reverse =
      (xs.filter (fun x => decide (firstIn (fun x y => key x = key y) xs x = x))).map key := by
  induction xs using List.reverseRecOn with
  | nil => rfl
  | append_singleton xs x ih =>
    have hx : x ∉ xs := fun hmem =>
      (List.nodup_append.mp hnodup).2.2 x hmem x (List.mem_singleton_self x) rfl
    have hold : xs.filter (fun y => decide (firstIn (fun x y => key x = key y) (xs ++ [x]) y = y))
        = xs.filter (fun y => decide (firstIn (fun x y => key x = key y) xs y = y)) := by
      apply List.filter_congr
      intro y hy
      rw [firstIn_append (R := fun x y => key x = key y) hy rfl]
    have hself := firstIn_append_self (R := fun x y => key x = key y) hx rfl
    rw [List.map_append, List.reverse_append, List.map_singleton, List.reverse_singleton,
      List.singleton_append, List.filter_append, hold, List.map_append, ← ih
        (List.nodup_append.mp hnodup).1]
    by_cases hmem : key x ∈ (xs.map key).reverse
    · have hnot : ¬firstIn (fun x y => key x = key y) (xs ++ [x]) x = x := by
        rw [hself]
        intro hnone
        obtain ⟨y, hy, hkey⟩ := List.mem_map.mp (List.mem_reverse.mp hmem)
        exact hnone y hy hkey.symm
      rw [List.dedup_cons_of_mem hmem, List.filter_singleton, decide_eq_false hnot]
      exact (List.append_nil _).symm
    · have hfirst : firstIn (fun x y => key x = key y) (xs ++ [x]) x = x := by
        rw [hself]
        intro y hy hkey
        exact hmem (List.mem_reverse.mpr (List.mem_map.mpr ⟨y, hy, hkey.symm⟩))
      rw [List.dedup_cons_of_notMem hmem, List.filter_singleton, decide_eq_true hfirst,
        List.reverse_cons]
      rfl

theorem groupBy_eq_classes [DecidableEq κ] {xs : List α}
    (hnodup : xs.Nodup) :
    (groupBy key xs).map Prod.snd = classes (fun x y => key x = key y) xs := by
  rw [groupBy, dedup_keys_eq key hnodup, classes, List.map_map, List.map_map]
  apply List.map_congr_left
  intro x _
  apply List.filter_congr
  intro y _
  exact decide_eq_decide.mpr eq_comm

theorem groupBy_map {β : Type} [DecidableEq κ] (key : β → κ) (f : α → β) (xs : List α) :
    groupBy key (xs.map f) =
      (groupBy (fun x => key (f x)) xs).map (fun group => (group.1, group.2.map f)) := by
  rw [groupBy, groupBy, List.map_map, List.map_map]
  apply List.map_congr_left
  intro k _
  rw [Function.comp, List.filter_map]
  rfl

theorem nodup_campaignGroups (events : List Event) :
    ((campaignGroups events).map Prod.fst).Nodup := nodup_keys_groupBy _ _

/-! #### Without the cache -/

open scoped Classical in

theorem filter_senders_unnumbered (campaigns : List Campaign) :
    (campaigns.filter (fun c => 2 ≤ c.senders.length)).map Campaign.unnumbered =
      (campaigns.map Campaign.unnumbered).filter (fun c => 2 ≤ c.senders.length) := by
  rw [List.filter_map]
  rfl

/-! #### With the cache -/

/-- The places that are joined are those of linked texts, in whatever order sets are walked. -/
theorem mem_pairs_iff
    (hlinks : ∀ a b, b ∈ linksOf c.links a ↔ Linked threshold (· ∈ norms) a b) (i j : ℕ) :
    (i, j) ∈ c.pairs order norms ↔
      ∃ a b, Linked threshold (· ∈ norms) a b ∧ norms.idxOf a = i ∧ norms.idxOf b = j := by
  rw [SimilarityCache.pairs, List.mem_flatMap]
  constructor
  · rintro ⟨entry, hentry, hpair⟩
    obtain ⟨other, hother, heq⟩ := List.mem_map.mp hpair
    obtain ⟨hi, hj⟩ := Prod.mk.inj heq
    refine ⟨entry.1, other, (hlinks _ _).mp ?_, hi, hj⟩
    rw [linksOf, OrderedDict.get?_eq_some_iff.mpr hentry]
    exact (order.perm entry.2).mem_iff.mp (List.mem_of_mem_filter hother)
  · rintro ⟨a, b, hlinked, rfl, rfl⟩
    have hb := (hlinks a b).mpr hlinked
    rw [linksOf] at hb
    cases hget : c.links.get? a with
    | none =>
      rw [hget] at hb
      exact absurd hb List.not_mem_nil
    | some others =>
      rw [hget] at hb
      refine ⟨(a, others), OrderedDict.get?_eq_some_iff.mp hget, List.mem_map.mpr ⟨b, ?_, rfl⟩⟩
      rw [List.mem_filter, decide_eq_true_eq]
      exact ⟨(order.perm others).mem_iff.mpr hb, hlinked.1, hlinked.2.1⟩

/-- The places that some pairs connect are those of connected texts. -/
theorem eqvGen_pairs_iff
    (hlinks : ∀ a b, b ∈ linksOf c.links a ↔ Linked threshold (· ∈ norms) a b) {a b : String}
    (ha : a ∈ norms) (hb : b ∈ norms) :
    Relation.EqvGen (fun i j => (i, j) ∈ c.pairs order norms) (norms.idxOf a) (norms.idxOf b) ↔
      Connected threshold norms a b := by
  have hback : ∀ n ∈ norms, norms.getD (norms.idxOf n) "" = n := by
    intro n hn
    rw [List.getD_eq_getElem?_getD, List.getElem?_idxOf hn]
    rfl
  constructor
  · intro h
    have hall : ∀ i j, Relation.EqvGen (fun i j => (i, j) ∈ c.pairs order norms) i j →
        Connected threshold norms (norms.getD i "") (norms.getD j "") := by
      intro i j h
      induction h with
      | rel i j h =>
        obtain ⟨a, b, hlinked, rfl, rfl⟩ := (mem_pairs_iff order hlinks i j).mp h
        rw [hback a hlinked.1, hback b hlinked.2.1]
        exact .rel _ _ hlinked
      | refl i => exact .refl _
      | symm i j _ ih => exact .symm _ _ ih
      | trans i j k _ _ ih ih' => exact .trans _ _ _ ih ih'
    have hconnected := hall _ _ h
    rwa [hback a ha, hback b hb] at hconnected
  · intro h
    clear ha hb
    induction h with
    | rel a b h => exact .rel _ _ ((mem_pairs_iff order hlinks _ _).mpr ⟨a, b, h, rfl, rfl⟩)
    | refl a => exact .refl _
    | symm a b _ ih => exact .symm _ _ ih
    | trans a b c _ _ ih ih' => exact .trans _ _ _ ih ih'

/-- The root that is read for a text. -/
def rootOf (c : SimilarityCache) (order : SetOrder) (norms : List String) (n : String) : ℕ :=
  (readRoots (joinAll (List.range norms.length) (c.pairs order norms))
    (List.range norms.length)).getD (norms.idxOf n) 0

/-- **Two texts have one root when they are connected.** -/
theorem rootOf_eq_iff
    (hlinks : ∀ a b, b ∈ linksOf c.links a ↔ Linked threshold (· ∈ norms) a b) {a b : String}
    (ha : a ∈ norms) (hb : b ∈ norms) :
    rootOf c order norms a = rootOf c order norms b ↔ Connected threshold norms a b := by
  have hpairs : ∀ pair ∈ c.pairs order norms, pair.1 < norms.length ∧ pair.2 < norms.length := by
    rintro ⟨i, j⟩ hpair
    obtain ⟨a, b, hlinked, rfl, rfl⟩ := (mem_pairs_iff order hlinks i j).mp hpair
    exact ⟨List.idxOf_lt_length_of_mem hlinked.1, List.idxOf_lt_length_of_mem hlinked.2.1⟩
  obtain ⟨hforest, hlength, hsame⟩ := joinAll_spec hpairs
  have hrange : ∀ i ∈ List.range norms.length,
      i < (joinAll (List.range norms.length) (c.pairs order norms)).length := by
    intro i hi
    rw [hlength]
    exact List.mem_range.mp hi
  have hroots := readRoots_spec hforest hrange
  have hleads : ∀ n ∈ norms, Leads (joinAll (List.range norms.length) (c.pairs order norms))
      (norms.idxOf n) (rootOf c order norms n) := by
    intro n hn
    have hlt := List.idxOf_lt_length_of_mem hn
    have hlt' := hlt
    rw [← List.length_range (n := norms.length), hroots.length_eq] at hlt'
    have hget := hroots.get (i := norms.idxOf n) (by rw [List.length_range]; exact hlt) hlt'
    rw [rootOf, List.getD_eq_getElem?_getD, List.getElem?_eq_getElem hlt']
    simpa using hget
  rw [← eqvGen_pairs_iff order hlinks ha hb, ← hsame]
  constructor
  · intro heq
    refine ⟨rootOf c order norms a, hleads a ha, ?_⟩
    rw [heq]
    exact hleads b hb
  · rintro ⟨r, hra, hrb⟩
    rw [(hleads a ha).unique hra, (hleads b hb).unique hrb]

theorem zip_roots (c : SimilarityCache) (order : SetOrder) (hnodup : (groups.map Prod.fst).Nodup) :
    groups.zip (readRoots (joinAll (List.range groups.length)
        (c.pairs order (groups.map Prod.fst))) (List.range groups.length)) =
      groups.map (fun g => (g, rootOf c order (groups.map Prod.fst) g.1)) := by
  have hlength : ∀ (is parent : List ℕ), (readRoots parent is).length = is.length := by
    intro is
    induction is with
    | nil => exact fun _ => rfl
    | cons i is ih => exact fun parent => congrArg (· + 1) (ih _)
  apply List.ext_getElem
  · rw [List.length_zip, hlength, List.length_range, List.length_map, min_self]
  · intro i hi hi'
    rw [List.length_map] at hi'
    have hidx : (groups.map Prod.fst).idxOf groups[i].1 = i := by
      have hget := hnodup.idxOf_getElem i (by rw [List.length_map]; exact hi')
      rwa [List.getElem_map] at hget
    have hroot : rootOf c order (groups.map Prod.fst) groups[i].1 =
        (readRoots (joinAll (List.range groups.length) (c.pairs order (groups.map Prod.fst)))
          (List.range groups.length)).getD i 0 := by
      rw [rootOf, hidx, List.length_map]
    rw [List.getElem_zip, List.getElem_map, hroot, List.getD_eq_getElem?_getD,
      List.getElem?_eq_getElem (by rw [hlength, List.length_range]; exact hi'), Option.getD_some]

/-- The groups under one root are a connected component. -/
theorem map_clusters_roots (hnodup : (groups.map Prod.fst).Nodup)
    (hlinks : ∀ a b, b ∈ linksOf c.links a ↔
      Linked d.tunables.similarity (· ∈ groups.map Prod.fst) a b) :
    ((groupBy Prod.snd (groups.zip (readRoots (joinAll (List.range groups.length)
        (c.pairs order (groups.map Prod.fst))) (List.range groups.length)))).map (fun cluster =>
          d.judgeCluster cluster.1 (cluster.2.flatMap (fun group => group.1.2)))).map
            Campaign.unnumbered =
      (connectedParts d.tunables.similarity groups).map (fun part =>
        d.judgeCluster 0 (part.flatMap Prod.snd)) := by
  have hclasses := groupBy_eq_classes (fun g : String × List Event =>
    rootOf c order (groups.map Prod.fst) g.1) (List.Nodup.of_map _ hnodup)
  have hparts : classes (fun g g' : String × List Event =>
      rootOf c order (groups.map Prod.fst) g.1 = rootOf c order (groups.map Prod.fst) g'.1) groups =
        connectedParts d.tunables.similarity groups := by
    apply classes_congr
    intro g hg g' hg'
    exact rootOf_eq_iff order hlinks (List.mem_map_of_mem hg) (List.mem_map_of_mem hg')
  rw [zip_roots c order hnodup, groupBy_map, ← hparts, ← hclasses, List.map_map, List.map_map,
    List.map_map]
  apply List.map_congr_left
  intro cluster _
  simp only [Function.comp, List.flatMap_map]
  rfl

/-- **With the cache**: the campaigns are the same components. -/
theorem findCampaignsCached_eq
    (hright : c.Right) (events : List Event) :
    (d.findCampaignsCached order c events).1.Right ∧
      (d.findCampaignsCached order c events).2.map Campaign.unnumbered =
        d.campaignsOf (campaignGroups events) := by
  obtain ⟨hafter, hlinks⟩ := hright.update d.tunables.similarity
    ((campaignGroups events).map Prod.fst)
  have hclusters := map_clusters_roots d order (nodup_campaignGroups events) hlinks
  rw [Detector.findCampaignsCached, Detector.campaignsOf, ← hclusters]
  dsimp only
  constructor
  · exact hafter
  · exact filter_senders_unnumbered _

/-! #### Call after call -/

/-- A call: the detector as it is then set, the order of its sets, and its window. -/
structure CampaignCall where
  detector : Detector
  order : SetOrder
  events : List Event

/-- The cache after some calls. -/
def cacheAfter (calls : List CampaignCall) : SimilarityCache :=
  calls.foldl (fun c call => (call.detector.findCampaignsCached call.order c call.events).1) {}

theorem right_cacheAfter (calls : List CampaignCall) : (cacheAfter calls).Right := by
  induction calls using List.reverseRecOn with
  | nil => exact SimilarityCache.Right.empty 0
  | append_singleton calls call ih =>
    rw [cacheAfter, List.foldl_append]
    exact (findCampaignsCached_eq call.detector call.order ih call.events).1

/-- **The cache changes nothing**: after any calls, with other windows and other thresholds and
sets walked in any order, a call finds the campaigns of an empty cache. They are the classes of
connected texts with two senders. -/
theorem same_campaigns (calls : List CampaignCall) (order fresh : SetOrder) (d : Detector)
    (events : List Event) :
    (d.findCampaignsCached order (cacheAfter calls) events).2.map Campaign.unnumbered =
        (d.findCampaignsCached fresh {} events).2.map Campaign.unnumbered ∧
      (d.findCampaignsCached order (cacheAfter calls) events).2.map Campaign.unnumbered =
        d.campaignsOf (campaignGroups events) ∧
      ∀ g ∈ campaignGroups events, ∀ g' ∈ campaignGroups events,
        (∃ part ∈ connectedParts d.tunables.similarity (campaignGroups events),
          g ∈ part ∧ g' ∈ part) ↔
        Connected d.tunables.similarity ((campaignGroups events).map Prod.fst) g.1 g'.1 := by
  obtain ⟨-, hcached⟩ := findCampaignsCached_eq d order (right_cacheAfter calls) events
  obtain ⟨-, hfresh⟩ := findCampaignsCached_eq d fresh (SimilarityCache.Right.empty 0) events
  refine ⟨hcached.trans hfresh.symm, hcached, ?_⟩
  intro g hg g' hg'
  rw [connectedParts]
  refine mem_classes_iff ⟨?_, ?_, ?_⟩ hg hg'
  · exact fun g => .refl _
  · exact fun h => .symm _ _ h
  · exact fun h h' => .trans _ _ _ h h'

/-! #### Which messages are looked at -/

/-- The last usable messages, however many others came between them, by their text. -/
def lastUsableGroups (events : List Event) : List (String × List Event) :=
  let usable := events.filter (fun e => !e.exempt && minCampaignChars ≤ e.norm.toList.length)
  groupBy Event.norm (usable.drop (usable.length - maxCampaignEvents))

/-- A message of a campaign. -/
def copyFrom (sender : String) : Event where
  id := 0
  ts := 0
  path := []
  sender := sender
  text := "cheap radios for sale"
  channel := "Public"
  norm := "cheap radios for sale"

/-- A message too short for a campaign. -/
def shortMessage : Event := { copyFrom "c" with text := "ok", norm := "ok" }

/-- Two copies with many short messages between them. -/
def copiesApart : List Event :=
  copyFrom "a" :: (List.replicate 399 shortMessage ++ [copyFrom "b"])

theorem campaignGroups_copiesApart :
    campaignGroups copiesApart = [("cheap radios for sale", [copyFrom "b"])] := by
  have hlength : copiesApart.length = 401 := by
    rw [copiesApart, List.length_cons, List.length_append, List.length_replicate]
    rfl
  have hshort : (!shortMessage.exempt &&
      decide (minCampaignChars ≤ shortMessage.norm.toList.length)) = false := by decide
  rw [campaignGroups, hlength, copiesApart, show 401 - maxCampaignEvents = 1 from rfl,
    List.drop_succ_cons, List.drop_zero, List.filter_append, List.filter_replicate_of_neg]
  · rfl
  · rw [hshort]
    exact Bool.false_ne_true

theorem lastUsableGroups_copiesApart :
    lastUsableGroups copiesApart =
      [("cheap radios for sale", [copyFrom "a", copyFrom "b"])] := by
  have hshort : (!shortMessage.exempt &&
      decide (minCampaignChars ≤ shortMessage.norm.toList.length)) = false := by decide
  rw [lastUsableGroups, copiesApart, List.filter_cons, List.filter_append,
    List.filter_replicate_of_neg]
  · rfl
  · rw [hshort]
    exact Bool.false_ne_true

theorem campaignsOf_singleton (g : String × List Event) :
    d.campaignsOf [g] =
      [d.judgeCluster 0 g.2].filter (fun c => 2 ≤ c.senders.length) := by
  have hparts : connectedParts d.tunables.similarity [g] = [[g]] :=
    classes_singleton (.refl _)
  rw [Detector.campaignsOf, hparts, List.map_singleton, List.flatMap_singleton]

/-- Not the last usable messages of a window, but the usable ones among its last messages. -/
theorem not_forall_last_usable :
    ¬∀ (calls : List CampaignCall) (order : SetOrder) (d : Detector) (events : List Event),
      (d.findCampaignsCached order (cacheAfter calls) events).2.map Campaign.unnumbered =
        d.campaignsOf (lastUsableGroups events) := by
  intro h
  have hclaim := h [] ⟨id, fun s => .refl s⟩ { config := {}, clock := 0 } copiesApart
  rw [(findCampaignsCached_eq _ _ (right_cacheAfter []) _).2, campaignGroups_copiesApart,
    lastUsableGroups_copiesApart, campaignsOf_singleton, campaignsOf_singleton] at hclaim
  have hlength := congrArg List.length hclaim
  revert hlength
  decide

end RtfmEv.Spam
