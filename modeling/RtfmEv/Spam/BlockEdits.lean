import RtfmEv.Spam.Decide

/-!
# What a step can do to the blocks

Whatever the detector sees, its blocks change in three ways: an order is added, a
block is touched without a change to what it catches or how long it lasts, and
entries are dropped. `Edit` is one such change, with the orders that may be added
and the entries that may be dropped as parameters; each step of `ingest` and
`decide` is shown to be a chain of edits, so that a property of the blocks is
proved for an edit and holds over whole calls.
-/

namespace RtfmEv.Spam

open RtfmEv.Lib

/-- Two forms of one block, which catch the same messages for as long. -/
structure Block.Alike (b b' : Block) : Prop where
  body : b'.body = b.body
  channel : b'.channel = b.channel
  reason : b'.reason = b.reason
  source : b'.source = b.source
  expires : b'.expires = b.expires
  «match» : b'.match = b.match
  sender : b'.sender = b.sender
  senderOnly : b'.senderOnly = b.senderOnly

namespace Detector

variable {orders : BlockOrder → Prop} {drops : String → Block → Prop} (d : Detector) {d' : Detector}
  {o : BlockOrder} (now : ℚ) (e : Event) {P : Primitives} {window : List Event} {T : TextTools}

/-- One change to the blocks. -/
inductive Edit (orders : BlockOrder → Prop) (drops : String → Block → Prop) :
    Detector → Detector → Prop
  | other {d d' : Detector} (hblocks : d'.blocks = d.blocks) (hclock : d'.clock = d.clock)
      (hconfig : d'.config = d.config) : Edit orders drops d d'
  | add {d : Detector} {o : BlockOrder} (ho : orders o) : Edit orders drops d (d.addBlock o)
  | touch {d : Detector} {key : String} {b b' : Block} (hget : d.blocks.get? key = some b)
      (halike : b.Alike b') : Edit orders drops d (d.setBlock key b')
  | drop {d : Detector} {p : String × Block → Bool}
      (hdrop : ∀ key b, d.blocks.get? key = some b → p (key, b) = true → drops key b) :
      Edit orders drops d { d with blocks := d.blocks.eraseIf p }

/-- A chain of changes. -/
abbrev Edits (orders : BlockOrder → Prop) (drops : String → Block → Prop) :
    Detector → Detector → Prop :=
  Relation.ReflTransGen (Edit orders drops)

/-! ### Settings and clock -/

theorem addBlock_clock (o : BlockOrder) : (d.addBlock o).clock = d.clock := by
  unfold addBlock
  split_ifs
  · rfl
  · cases d.blocks.get? o.key with
    | none => rfl
    | some b =>
      show (if b.expires ≤ d.orderExpires o then d.setBlock o.key (d.renewedBlock o b)
        else d).clock = d.clock
      split_ifs <;> rfl

theorem addBlock_config (o : BlockOrder) : (d.addBlock o).config = d.config := by
  unfold addBlock
  split_ifs
  · rfl
  · cases d.blocks.get? o.key with
    | none => rfl
    | some b =>
      show (if b.expires ≤ d.orderExpires o then d.setBlock o.key (d.renewedBlock o b)
        else d).config = d.config
      split_ifs <;> rfl

theorem Edit.clock {d : Detector} (h : Edit orders drops d d') : d'.clock = d.clock := by
  cases h with
  | other _ hclock _ => exact hclock
  | add _ => exact addBlock_clock d _
  | touch _ _ => rfl
  | drop _ => rfl

theorem Edit.config {d : Detector} (h : Edit orders drops d d') : d'.config = d.config := by
  cases h with
  | other _ _ hconfig => exact hconfig
  | add _ => exact addBlock_config d _
  | touch _ _ => rfl
  | drop _ => rfl

theorem Edits.clock {d : Detector} (h : Edits orders drops d d') : d'.clock = d.clock := by
  induction h with
  | refl => rfl
  | tail _ hstep ih => rw [hstep.clock, ih]

theorem Edits.config {d : Detector} (h : Edits orders drops d d') : d'.config = d.config := by
  induction h with
  | refl => rfl
  | tail _ hstep ih => rw [hstep.config, ih]

/-! ### Building chains -/

theorem edits_other {d : Detector} (hblocks : d'.blocks = d.blocks)
    (hclock : d'.clock = d.clock) (hconfig : d'.config = d.config) : Edits orders drops d d' :=
  .single (.other hblocks hclock hconfig)

theorem edits_foldl {α : Type} {f : Detector → α → Detector} {xs : List α}
    (h : ∀ d, ∀ x ∈ xs, Edits orders drops d (f d x)) (d : Detector) :
    Edits orders drops d (xs.foldl f d) := by
  induction xs generalizing d with
  | nil => exact .refl
  | cons x xs ih =>
    exact (h d x List.mem_cons_self).trans (ih (fun d y hy => h d y (List.mem_cons_of_mem _ hy)) _)

theorem edits_stepIf {on : Bool} {f : Detector → Detector} {d : Detector}
    (h : Edits orders drops d (f d)) : Edits orders drops d (d.stepIf on f) := by
  cases on with
  | true => exact h
  | false => exact .refl

theorem edits_want (ho : orders o) :
    Edits orders drops d (d.want o) := by
  unfold want
  split_ifs
  · exact .refl
  · exact .single (.add ho)

theorem edits_wantAll {os : List BlockOrder} (hos : ∀ o ∈ os, orders o) :
    Edits orders drops d (d.wantAll os) :=
  edits_foldl (fun d o ho => edits_want d (hos o ho)) d

theorem edits_dropBlock {d : Detector} {key : String}
    (h : ∀ b, d.blocks.get? key = some b → drops key b) :
    Edits orders drops d (d.dropBlock key) := by
  refine .single (.drop ?_)
  intro k b hget hk
  obtain rfl := of_decide_eq_true hk
  exact h b hget

/-! ### Steps of `ingest` -/

theorem edits_hitBlock (b : Block) (ts : ℚ) :
    Edits orders drops d (d.hitBlock b ts) := by
  unfold hitBlock
  cases hfind : d.blocks.entries.find? (fun entry => entry.2 = b) with
  | none => exact .refl
  | some entry =>
    have hget : d.blocks.get? entry.1 = some entry.2 :=
      OrderedDict.get?_eq_some_iff.mpr (List.mem_of_find?_eq_some hfind)
    exact .single (.touch hget ⟨rfl, rfl, rfl, rfl, rfl, rfl, rfl, rfl⟩)

theorem edits_matchEvent : Edits orders drops d (d.matchEvent e) := by
  unfold matchEvent
  cases d.catching e with
  | none => exact .refl
  | some b =>
    have hupdate : Edits orders drops d (d.updateEvent e.id (d.caughtEvent b)) :=
      edits_other rfl rfl rfl
    exact hupdate.trans (edits_hitBlock _ b e.ts)

theorem edits_ingest (T : TextTools) (m : Detector.Message) :
    Edits orders drops d (d.ingest T m) := by
  let taken : Detector := { d with
    senders := d.countSender (d.eventOf T m)
    events := d.events ++ [d.eventOf T m]
    nextEvent := d.nextEvent + 1 }
  have htaken : Edits orders drops d taken := edits_other rfl rfl rfl
  have hmatch : Edits orders drops taken (taken.matchEvent (d.eventOf T m)) :=
    edits_matchEvent taken _
  have htrim : Edits orders drops (taken.matchEvent (d.eventOf T m)) (d.ingest T m) :=
    edits_other rfl rfl rfl
  exact (htaken.trans hmatch).trans htrim

/-! ### Steps of `decide` -/

theorem edits_learnPath : Edits orders drops d (d.learnPath e) := by
  unfold learnPath
  split_ifs
  · exact .refl
  · cases hget : d.blocks.get? ("hop:" ++ e.firstHop) with
    | none => exact .refl
    | some b =>
      show Edits orders drops d (if _ then d else d.setBlock _ _)
      split_ifs
      · exact .refl
      · exact .single (.touch hget ⟨rfl, rfl, rfl, rfl, rfl, rfl, rfl, rfl⟩)

theorem edits_learnPaths (events : List Event) :
    Edits orders drops d (d.learnPaths events) :=
  edits_foldl (fun d e _ => edits_learnPath d e) d

theorem edits_settleOne :
    Edits orders drops d (d.settleOne now e) := by
  have hhome : ∀ d : Detector, Edits orders drops d (d.recordHome e) := by
    intro d
    unfold recordHome
    split_ifs
    · exact .refl
    · exact edits_other rfl rfl rfl
  have hsender : ∀ d : Detector, Edits orders drops d (d.learnSender e) := by
    intro d
    unfold learnSender
    split_ifs
    · exact .refl
    · exact .refl
    · exact edits_other rfl rfl rfl
  have hroute : ∀ d : Detector, Edits orders drops d (d.learnRoute e) := by
    intro d
    unfold learnRoute
    split_ifs
    · exact .refl
    · exact edits_other rfl rfl rfl
  unfold settleOne
  split_ifs
  · exact .refl
  · have hsettled : Edits orders drops d
        (d.updateEvent e.id (fun e => { e with settled := true })) := edits_other rfl rfl rfl
    exact ((hsettled.trans (hhome _)).trans (hsender _)).trans (hroute _)

theorem edits_settle (events : List Event) (now : ℚ) :
    Edits orders drops d (d.settle events now) :=
  edits_foldl (fun d e _ => edits_settleOne d now e) d

theorem edits_allowOriginOf :
    Edits orders drops d (d.allowOriginOf e) := by
  unfold allowOriginOf
  split_ifs
  · exact .refl
  · cases hget : d.blocks.get? ("suffix:" ++ joinPath (e.path.drop 1)) with
    | none => simp only [hget]; exact .refl
    | some b =>
      simp only [hget]
      split_ifs
      · exact .refl
      · exact .single (.touch hget ⟨rfl, rfl, rfl, rfl, rfl, rfl, rfl, rfl⟩)

theorem edits_correctCampaigns (longWindow : List Event) (now : ℚ)
    (h : ∀ key b, drops key b) : Edits orders drops d (d.correctCampaigns longWindow now) := by
  refine edits_foldl (fun acc entry _ => ?_) d
  show Edits orders drops acc (if _ then _ else acc)
  split_ifs
  · exact (edits_dropBlock (fun b _ => h _ b)).trans (edits_other rfl rfl rfl)
  · exact .refl

theorem edits_expire (h : ∀ key b, b.expires ≤ now → drops key b) :
    Edits orders drops d (d.expire now) := by
  have hdrop : Edits orders drops d
      { d with blocks := d.blocks.eraseIf (fun entry => entry.2.expires ≤ now) } := by
    refine .single (.drop ?_)
    intro key b _ hb
    exact h key b (of_decide_eq_true hb)
  exact hdrop.trans (edits_other rfl rfl rfl)

theorem edits_forgetOld : Edits orders drops d (d.forgetOld now) :=
  edits_other rfl rfl rfl

theorem edits_rematch (e : Option Event) : Edits orders drops d (d.rematch e) := by
  unfold rematch
  cases e with
  | none => exact .refl
  | some e =>
    show Edits orders drops d (if _ then d else _)
    split_ifs
    · exact .refl
    · exact edits_matchEvent d _

/-! ### Whole calls of `decide` -/

/-- The reason is not one of those that a user's block on a text has. -/
def automatic (o : BlockOrder) : Prop := o.reason ∉ userTextReasons

theorem duplicateOrders_automatic {d : Detector}
    {recent : List Event} {judged : Option ℕ} {freshSeconds : ℚ}
    (h : o ∈ d.duplicateOrders P T recent judged freshSeconds) : automatic o := by
  have hhold : ∀ body reason copies, reason ∉ userTextReasons →
      d.holdOrder P body reason copies = some o → automatic o := by
    intro body reason copies hreason ho
    unfold holdOrder at ho
    cases copies with
    | nil => exact absurd ho (by simp)
    | cons first rest =>
      simp only at ho
      split_ifs at ho
      all_goals
        obtain rfl := Option.some.inj ho
        exact hreason
  unfold duplicateOrders at h
  rcases List.mem_append.mp h with h | h
  · obtain ⟨group, _, h⟩ := List.mem_flatMap.mp h
    unfold resentOrders at h
    simp only at h
    split_ifs at h
    · exact absurd h List.not_mem_nil
    · rcases List.mem_append.mp h with h | h
      · obtain ⟨s, _, ho⟩ := List.mem_filterMap.mp h
        exact hhold _ _ _ (by decide) ho
      · obtain ⟨ws, _, ho⟩ := List.mem_filterMap.mp h
        exact hhold _ _ _ (by decide) ho
  · obtain ⟨group, _, ho⟩ := List.mem_filterMap.mp h
    simp only at ho
    split_ifs at ho
    exact hhold _ _ _ (by decide) ho

theorem repeatOrders_automatic {d : Detector}
    {recent : List Event} (h : o ∈ d.repeatOrders P T recent) :
    automatic o := by
  obtain ⟨group, _, ho⟩ := List.mem_filterMap.mp h
  split_ifs at ho
  obtain ⟨last, _, rfl⟩ := Option.map_eq_some_iff.mp ho
  show "repeat" ∉ userTextReasons
  decide

theorem repeaterOrders_automatic {d : Detector} {longWindow : List Event} {now : ℚ}
    (h : o ∈ d.repeaterOrders window longWindow now) : automatic o := by
  obtain ⟨hop, _, ho⟩ := List.mem_filterMap.mp h
  split_ifs at ho
  obtain ⟨reason, hreason, rfl⟩ := Option.map_eq_some_iff.mp ho
  show reason ∉ userTextReasons
  unfold hopSignal at hreason
  simp only at hreason
  split_ifs at hreason
  all_goals
    obtain rfl := Option.some.inj hreason
    decide

theorem rotationOrders_automatic {d : Detector}
    (h : o ∈ d.rotationOrders window) : automatic o := by
  obtain ⟨group, _, ho⟩ := List.mem_filterMap.mp h
  simp only at ho
  split_ifs at ho
  · obtain rfl := Option.some.inj ho
    show "rotation_linked" ∉ userTextReasons
    decide
  · obtain rfl := Option.some.inj ho
    show "rotation" ∉ userTextReasons
    decide

theorem lockdownOrders_automatic {d : Detector} {now : ℚ}
    (h : o ∈ d.lockdownOrders window now) : automatic o := by
  unfold lockdownOrders at h
  simp only at h
  split_ifs at h
  · obtain rfl := List.mem_singleton.mp h
    show "auto_lockdown" ∉ userTextReasons
    decide
  · exact absurd h List.not_mem_nil

theorem linkOrders_automatic {d : Detector} {now : ℚ}
    (h : o ∈ d.linkOrders now) : automatic o := by
  unfold linkOrders at h
  cases hmode : d.tunables.holdLinks with
  | always =>
    rw [hmode] at h
    obtain rfl := List.mem_singleton.mp h
    show "links_always" ∉ userTextReasons
    decide
  | campaign =>
    rw [hmode] at h
    simp only at h
    split_ifs at h
    · obtain rfl := List.mem_singleton.mp h
      show "links_campaign" ∉ userTextReasons
      decide
    · exact absurd h List.not_mem_nil
  | off =>
    rw [hmode] at h
    exact absurd h List.not_mem_nil

/-- What campaigns ask for is automatic, is a campaign's and exempts no sender. -/
theorem mem_campaignOrders {d : Detector} {c : Campaign} (h : o ∈ d.campaignOrders P T c) :
    automatic o ∧ o.source = .campaign ∧ o.sender = none := by
  unfold campaignOrders at h
  cases hlast : newestCopy c with
  | none =>
    rw [hlast] at h
    exact absurd h List.not_mem_nil
  | some last =>
    rw [hlast] at h
    simp only at h
    rcases List.mem_append.mp h with h | h
    · rcases List.mem_append.mp h with h | h
      · obtain ⟨s, _, rfl⟩ := List.mem_map.mp h
        exact ⟨show "campaign" ∉ userTextReasons by decide, rfl, rfl⟩
      · obtain ⟨ws, _, rfl⟩ := List.mem_map.mp h
        exact ⟨show "campaign_changed" ∉ userTextReasons by decide, rfl, rfl⟩
    · split_ifs at h
      · obtain ⟨piece, _, rfl⟩ := List.mem_map.mp h
        exact ⟨show "campaign_variant" ∉ userTextReasons by decide, rfl, rfl⟩
      · exact absurd h List.not_mem_nil

theorem mem_allCampaignOrders {d : Detector}
    (h : o ∈ d.allCampaignOrders P T) : automatic o ∧ o.source = .campaign ∧ o.sender = none := by
  obtain ⟨c, _, ho⟩ := List.mem_flatMap.mp h
  exact mem_campaignOrders ho

variable (P : Primitives) (T : TextTools)

theorem edits_blockCampaigns : Edits automatic drops d (d.blockCampaigns P T) :=
  edits_wantAll d (fun _ ho => (mem_allCampaignOrders ho).1)

theorem edits_decideCampaigns (now : ℚ) : Edits automatic drops d (d.decideCampaigns P T now) := by
  have hfound : Edits automatic drops d (d.withCampaigns now) := edits_other rfl rfl rfl
  exact hfound.trans (edits_stepIf (edits_blockCampaigns _ P T))

theorem edits_blockRotation (window : List Event) :
    Edits automatic drops d (d.blockRotation window) := by
  have hwant : Edits automatic drops d (d.wantAll (d.rotationOrders window)) :=
    edits_wantAll d (fun _ ho => rotationOrders_automatic ho)
  exact hwant.trans (edits_foldl (fun d e _ => edits_allowOriginOf d e) _)

theorem edits_holdLinks (h : ∀ b, drops linksKey b) :
    Edits automatic drops d (d.holdLinks now) := by
  have hold : Edits automatic drops d d.dropOldLinks := by
    unfold dropOldLinks
    split_ifs
    · exact edits_dropBlock (fun b _ => h b)
    · exact .refl
  exact hold.trans (edits_wantAll _ (fun _ ho => linkOrders_automatic ho))

/-- After the campaigns only the links block is dropped, and automatic orders are added. -/
theorem edits_decideOthers
    (judged : Option Event) (freshSeconds now : ℚ) (h : ∀ b, drops linksKey b) :
    Edits automatic drops d (d.decideOthers P T judged freshSeconds now) := by
  unfold decideOthers
  refine (((((((Relation.ReflTransGen.refl.trans (edits_stepIf ?_)).trans
    (edits_stepIf ?_)).trans (edits_stepIf ?_)).trans (edits_learnPaths _ _)).trans
    (edits_settle _ _ _)).trans (edits_stepIf (edits_blockRotation _ _))).trans
    (edits_holdLinks _ _ h)).trans (edits_stepIf ?_)
  · exact edits_wantAll _ (fun _ ho => duplicateOrders_automatic ho)
  · exact edits_wantAll _ (fun _ ho => repeatOrders_automatic ho)
  · exact edits_wantAll _ (fun _ ho => repeaterOrders_automatic ho)
  · exact edits_wantAll _ (fun _ ho => lockdownOrders_automatic ho)

theorem edits_decide (judged : Option Event) (freshSeconds : ℚ) (h : ∀ key b, drops key b) :
    Edits automatic drops d (d.decide P T judged freshSeconds) := by
  refine (((((edits_decideCampaigns d P T d.clock).trans
    (edits_correctCampaigns _ _ _ h)).trans
    (edits_decideOthers _ P T judged freshSeconds d.clock (h linksKey))).trans
    (edits_expire _ _ (fun key b _ => h key b))).trans (edits_forgetOld _ _)).trans
    (edits_rematch _ judged)

end Detector

end RtfmEv.Spam
