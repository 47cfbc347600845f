import RtfmEv.HostRepeater.Engine

/-!
# The regions that the duty gate sheds

Valid settings list the regions as a forest. The depth that the engine counts for a region is the
length of its chain of parents, and the gate takes the forest from its roots: what lies above a
shed region is shed as well, unless it is the home region.
-/

namespace RtfmEv.HostRepeater

/-- The chain of parents from `parent` up to the wildcard. -/
inductive ParentChain (regions : List RegionConfig) : Option String → List RegionConfig → Prop
  | wildcard : ParentChain regions none []
  | region {r : RegionConfig} {chain : List RegionConfig} : r ∈ regions →
      ParentChain regions r.parent chain → ParentChain regions (some r.name) (r :: chain)

section Forest

variable {regions : List RegionConfig} {r : RegionConfig} {parent : Option String}
  {chain : List RegionConfig}

theorem find?_name (hnodup : (regions.map RegionConfig.name).Nodup)
    (hr : r ∈ regions) : regions.find? (fun r' => r'.name = r.name) = some r := by
  induction regions with
  | nil => exact absurd hr List.not_mem_nil
  | cons r' regions ih =>
    rw [List.map_cons, List.nodup_cons] at hnodup
    rcases List.mem_cons.mp hr with rfl | hr
    · exact List.find?_cons_of_pos (decide_eq_true rfl)
    · have hne : r'.name ≠ r.name :=
        fun heq => hnodup.1 (heq ▸ List.mem_map_of_mem hr)
      rw [List.find?_cons_of_neg (by rw [decide_eq_true_eq]; exact hne)]
      exact ih hnodup.2 hr

theorem lookup_name {β : Type*} (f : RegionConfig → β)
    (hnodup : (regions.map RegionConfig.name).Nodup) (hr : r ∈ regions) :
    (regions.map (fun r => (r.name, f r))).lookup r.name = some (f r) := by
  induction regions with
  | nil => exact absurd hr List.not_mem_nil
  | cons r' regions ih =>
    rw [List.map_cons, List.nodup_cons] at hnodup
    rw [List.map_cons]
    rcases List.mem_cons.mp hr with rfl | hr
    · rw [List.lookup_cons_self]
    · have hne : (r.name == r'.name) = false :=
        beq_false_of_ne (fun heq => hnodup.1 (heq ▸ List.mem_map_of_mem hr))
      rw [List.lookup_cons, hne]
      exact ih hnodup.2 hr

/-- A chain that the validator followed, without the names it had seen. -/
theorem chain_of_ok {fuel : ℕ} {seen : List String}
    (h : parentChainOk regions fuel seen parent = true) :
    ∃ chain, ParentChain regions parent chain ∧
      (chain.map RegionConfig.name).Nodup ∧ ∀ r ∈ chain, r.name ∉ seen := by
  induction fuel generalizing seen parent with
  | zero =>
    cases parent with
    | none =>
      exact ⟨[], ParentChain.wildcard, List.nodup_nil, fun r hr => absurd hr List.not_mem_nil⟩
    | some p => exact absurd h Bool.false_ne_true
  | succ fuel ih =>
    cases parent with
    | none =>
      exact ⟨[], ParentChain.wildcard, List.nodup_nil, fun r hr => absurd hr List.not_mem_nil⟩
    | some p =>
      rw [parentChainOk] at h
      cases hfind : regions.find? (fun r => r.name = p) with
      | none =>
        rw [hfind] at h
        exact absurd h Bool.false_ne_true
      | some r =>
        rw [hfind] at h
        obtain ⟨hnew, hrest⟩ := Bool.and_eq_true_iff.mp h
        obtain ⟨chain, hchain, hnodup, hseen⟩ := ih hrest
        have hr : r ∈ regions := List.mem_of_find?_eq_some hfind
        have hnamed := List.find?_some hfind
        have hname : r.name = p := of_decide_eq_true hnamed
        subst hname
        have hnot : r.name ∉ seen := by
          intro hmem
          rw [List.contains_iff_mem.mpr hmem] at hnew
          exact absurd hnew Bool.false_ne_true
        refine ⟨r :: chain, ParentChain.region hr hchain, ?_, ?_⟩
        · rw [List.map_cons, List.nodup_cons]
          refine ⟨fun hmem => ?_, hnodup⟩
          obtain ⟨r', hr', heq⟩ := List.mem_map.mp hmem
          exact hseen r' hr' (heq ▸ List.mem_cons_self)
        · intro r' hr'
          rcases List.mem_cons.mp hr' with rfl | hr'
          · exact hnot
          · exact fun hmem => hseen r' hr' (List.mem_cons_of_mem _ hmem)

theorem ParentChain.subset
    (h : ParentChain regions parent chain) : ∀ r ∈ chain, r ∈ regions := by
  induction h with
  | wildcard => exact fun r hr => absurd hr List.not_mem_nil
  | region hr _ ih =>
    intro r' hr'
    rcases List.mem_cons.mp hr' with rfl | hr'
    · exact hr
    · exact ih r' hr'

/-- There is one chain. -/
theorem ParentChain.unique (hnodup : (regions.map RegionConfig.name).Nodup)
    {chain' : List RegionConfig}
    (h : ParentChain regions parent chain) (h' : ParentChain regions parent chain') :
    chain = chain' := by
  induction h generalizing chain' with
  | wildcard =>
    cases h'
    rfl
  | @region r chain hr _ ih =>
    generalize hp : some r.name = p at h'
    cases h' with
    | wildcard => cases hp
    | @region r' chain' hr' hchain' =>
      have hname : r.name = r'.name := Option.some.inj hp
      have hsame : r = r' := by
        have hfind := find?_name hnodup hr'
        rw [← hname, find?_name hnodup hr] at hfind
        exact Option.some.inj hfind
      subst hsame
      rw [ih hchain']

/-- **The engine climbs the whole chain.** -/
theorem ParentChain.climb (hnodup : (regions.map RegionConfig.name).Nodup)
    (h : ParentChain regions parent chain)
    {fuel : ℕ} (hfuel : chain.length ≤ fuel) : climbParents regions fuel parent = chain.length := by
  induction h generalizing fuel with
  | wildcard =>
    rw [climbParents]
    rfl
  | @region r chain hr _ ih =>
    cases fuel with
    | zero => exact absurd hfuel (Nat.not_succ_le_zero _)
    | succ fuel =>
      rw [climbParents, find?_name hnodup hr]
      dsimp only
      rw [ih (Nat.le_of_succ_le_succ hfuel), List.length_cons, Nat.add_comm]

theorem chain_of_valid {home : Option String} (h : checkRegionTree regions home = true)
    (hr : r ∈ regions) :
    ∃ chain, ParentChain regions r.parent chain ∧ chain.length < regions.length := by
  obtain ⟨hboth, -⟩ := Bool.and_eq_true_iff.mp h
  obtain ⟨-, hchains⟩ := Bool.and_eq_true_iff.mp hboth
  obtain ⟨chain, hchain, hchainNodup, hseen⟩ := chain_of_ok (List.all_eq_true.mp hchains r hr)
  refine ⟨chain, hchain, ?_⟩
  have hwhole : ((r :: chain).map RegionConfig.name).Nodup := by
    rw [List.map_cons, List.nodup_cons]
    refine ⟨fun hmem => ?_, hchainNodup⟩
    obtain ⟨r', hr', heq⟩ := List.mem_map.mp hmem
    exact hseen r' hr' (heq ▸ List.mem_singleton_self _)
  have hsubset : (r :: chain).map RegionConfig.name ⊆ regions.map RegionConfig.name := by
    intro name hname
    obtain ⟨r', hr', rfl⟩ := List.mem_map.mp hname
    rcases List.mem_cons.mp hr' with rfl | hr'
    · exact List.mem_map_of_mem hr
    · exact List.mem_map_of_mem (hchain.subset r' hr')
  have hlength := (hwhole.subperm hsubset).length_le
  rw [List.length_map, List.length_map, List.length_cons] at hlength
  exact hlength

end Forest

namespace ForwardingEngine

/-- The depth that the engine has for a region. -/
def depthOf (e : ForwardingEngine) (r : RegionConfig) : ℕ := (e.depths.lookup r.name).getD 0

/-- The engine at another gate level. -/
def atLevel (e : ForwardingEngine) (level : ℕ) : ForwardingEngine := { e with gateLevel := level }

variable (e : ForwardingEngine) {chain : List RegionConfig}

theorem regions_nodup :
    (e.settings.regions.map RegionConfig.name).Nodup :=
  of_decide_eq_true (Bool.and_eq_true_iff.mp (Bool.and_eq_true_iff.mp e.settings.regionTree).1).1

/-- **The depth of a region is the length of its chain.** -/
theorem depth_eq {r : RegionConfig} (hr : r ∈ e.settings.regions) (hchain : ParentChain e.settings.regions r.parent chain) :
    e.buildRegionTree.depths.lookup r.name = some (1 + chain.length) := by
  have hnodup := e.regions_nodup
  obtain ⟨chain', hchain', hlength⟩ := chain_of_valid e.settings.regionTree hr
  obtain rfl := hchain.unique hnodup hchain'
  have hlookup := lookup_name
    (fun r => 1 + climbParents e.settings.regions e.settings.regions.length r.parent) hnodup hr
  rw [hchain.climb hnodup hlength.le] at hlookup
  exact hlookup

theorem depthOf_eq {r : RegionConfig} (hr : r ∈ e.settings.regions) (hchain : ParentChain e.settings.regions r.parent chain) :
    e.buildRegionTree.depthOf r = 1 + chain.length := by
  unfold depthOf
  rw [e.depth_eq hr hchain, Option.getD_some]

theorem regionGated_atLevel (level : ℕ) (r : RegionConfig) :
    (e.atLevel level).regionGated r.name = true ↔
      2 ≤ level ∧ e.depthOf r ≤ level - 1 ∧ e.depthOf r < e.maxDepth ∧
        some r.name ≠ e.settings.homeRegion := by
  unfold regionGated atLevel depthOf
  simp only [Bool.and_eq_true, decide_eq_true_eq, bne_iff_ne, and_assoc, ge_iff_le]

theorem maxDepth_le {bound : ℕ}
    (h : ∀ r ∈ e.settings.regions, e.buildRegionTree.depthOf r ≤ bound) :
    e.buildRegionTree.maxDepth ≤ bound := by
  have hall : ∀ d ∈ (regionDepths e.settings.regions).map Prod.snd, d ≤ bound := by
    intro d hd
    obtain ⟨p, hp, rfl⟩ := List.mem_map.mp hd
    obtain ⟨r, hr, rfl⟩ := List.mem_map.mp hp
    have hlookup := lookup_name
      (fun r => 1 + climbParents e.settings.regions e.settings.regions.length r.parent)
      e.regions_nodup hr
    have hdepth : e.buildRegionTree.depthOf r =
        1 + climbParents e.settings.regions e.settings.regions.length r.parent :=
      congrArg (Option.getD · 0) hlookup
    rw [← hdepth]
    exact h r hr
  have hfold : ∀ (l : List ℕ) (a : ℕ), a ≤ bound → (∀ d ∈ l, d ≤ bound) → l.foldl max a ≤ bound := by
    intro l
    induction l with
    | nil => exact fun a ha _ => ha
    | cons d l ih =>
      intro a ha hl
      exact ih (max a d) (max_le ha (hl d List.mem_cons_self))
        (fun d' hd' => hl d' (List.mem_cons_of_mem _ hd'))
  exact hfold _ 0 (Nat.zero_le _) hall

end ForwardingEngine

open ForwardingEngine

/-- What lies behind a region in a chain has a shorter chain. -/
theorem ParentChain.above {regions : List RegionConfig} {parent : Option String}
    {chain : List RegionConfig} (h : ParentChain regions parent chain) {a : RegionConfig}
    (ha : a ∈ chain) :
    ∃ chain', ParentChain regions a.parent chain' ∧ chain'.length < chain.length := by
  induction h with
  | wildcard => exact absurd ha List.not_mem_nil
  | @region r chain hr hchain ih =>
    rcases List.mem_cons.mp ha with rfl | ha
    · exact ⟨chain, hchain, Nat.lt_succ_self _⟩
    · obtain ⟨chain', hchain', hlt⟩ := ih ha
      exact ⟨chain', hchain', hlt.trans (Nat.lt_succ_self _)⟩

/-- **The shape of what is shed.** -/
theorem region_shedding (e : ForwardingEngine) :
    (∀ r ∈ e.settings.regions, ∃ chain, ParentChain e.settings.regions r.parent chain ∧
      e.buildRegionTree.depths.lookup r.name = some (chain.length + 1)) ∧
    (∀ level level' name, level ≤ level' → level' ≤ e.buildRegionTree.maxDepth →
      (e.buildRegionTree.atLevel level).regionGated name = true →
      (e.buildRegionTree.atLevel level').regionGated name = true) ∧
    (∀ level, ∀ r ∈ e.settings.regions, level ≤ e.buildRegionTree.maxDepth →
      (e.buildRegionTree.atLevel level).regionGated r.name = true →
      (∃ r' ∈ e.settings.regions, e.buildRegionTree.depthOf r < e.buildRegionTree.depthOf r') ∧
        e.settings.homeRegion ≠ some r.name) ∧
    (∀ level, ∀ r ∈ e.settings.regions, ∀ chain, level ≤ e.buildRegionTree.maxDepth →
      (e.buildRegionTree.atLevel level).regionGated r.name = true →
      ParentChain e.settings.regions r.parent chain → ∀ a ∈ chain,
        (e.buildRegionTree.atLevel level).regionGated a.name = true ∨
          e.settings.homeRegion = some a.name) := by
  refine ⟨fun r hr => ?_, ?_, fun level r hr _ hgated => ?_, ?_⟩
  · obtain ⟨chain, hchain, -⟩ := chain_of_valid e.settings.regionTree hr
    refine ⟨chain, hchain, ?_⟩
    rw [e.depth_eq hr hchain, Nat.add_comm]
  · intro level level' name hle _ hgated
    unfold regionGated atLevel at hgated ⊢
    simp only [Bool.and_eq_true, decide_eq_true_eq, ge_iff_le] at hgated ⊢
    obtain ⟨⟨⟨h1, h2⟩, h3⟩, h4⟩ := hgated
    exact ⟨⟨⟨h1.trans hle, h2.trans (Nat.sub_le_sub_right hle 1)⟩, h3⟩, h4⟩
  · obtain ⟨-, -, hdeep, hhome⟩ := (e.buildRegionTree.regionGated_atLevel level r).mp hgated
    refine ⟨?_, fun heq => hhome heq.symm⟩
    by_contra hnone
    push Not at hnone
    exact absurd (e.maxDepth_le hnone) (not_le.mpr hdeep)
  · intro level r hr chain _ hgated hchain a ha
    obtain ⟨hlevel, hdepth, hdeep, -⟩ := (e.buildRegionTree.regionGated_atLevel level r).mp hgated
    obtain ⟨chain', hchain', hshorter⟩ := hchain.above ha
    have hless : e.buildRegionTree.depthOf a < e.buildRegionTree.depthOf r := by
      rw [e.depthOf_eq (hchain.subset a ha) hchain', e.depthOf_eq hr hchain]
      exact Nat.add_lt_add_left hshorter 1
    by_cases hhome : e.settings.homeRegion = some a.name
    · exact Or.inr hhome
    · refine Or.inl ((e.buildRegionTree.regionGated_atLevel level a).mpr
        ⟨hlevel, hless.le.trans hdepth, hless.trans hdeep, fun heq => hhome heq.symm⟩)

end RtfmEv.HostRepeater
