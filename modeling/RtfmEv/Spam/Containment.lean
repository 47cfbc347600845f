import RtfmEv.Spam.HostRule
import RtfmEv.Spam.RenderSpec

/-!
# Which traffic the drop rules can touch

The bot list rules and the rules of the gated blocks name a protected channel.
The other blocks name the channel they were made for, which may not be protected
(any longer), or no channel; rotation blocks never name one. Whoever judges the
packets, the host repeater or a node, is a `Judge`.
-/

namespace RtfmEv.Spam

open RtfmEv.Lib RtfmEv.HostRepeater RtfmEv.PathUtils

/-- How the tests of rendered rules are judged on group text. The channel of a
packet is independent of what the other tests look at. -/
structure Judge (P : Primitives) (dialect : Dialect) where
  Packet : Type
  groupText : Packet → Prop
  onChannel : Packet → String → Prop
  holds : Packet → RuleTest → Prop
  holds_groupText : ∀ p, holds p isGroupText ↔ groupText p
  holds_channel : ∀ p key test, groupText p → channelTest P dialect key = some test →
    (holds p test ↔ onChannel p key)
  moved : ∀ p q, groupText p → groupText q → ∃ r, groupText r ∧
    (∀ key, onChannel r key ↔ onChannel q key) ∧
      ∀ t, t.field ≠ .channelHash → (holds r t ↔ holds p t)

namespace Judge

variable {P : Primitives} {dialect : Dialect} (J : Judge P dialect) (d : Detector)

/-- The channel of a packet is one of the protected ones. -/
def OnProtected (packet : J.Packet) : Prop :=
  ∃ c ∈ d.config.channels, J.onChannel packet c.key

/-- No drop rule catches group text of a channel that is not protected. -/
def Contained (rules : RuleSet) : Prop :=
  ∀ r ∈ rules.rules, r.action = .drop → ∀ packet, J.groupText packet →
    ¬ J.OnProtected d packet → ¬ ∀ t ∈ r.conditions, J.holds packet t

/-- Some group text meets every test of a draft. -/
def Meetable (draft : Draft) : Prop :=
  ∃ packet, J.groupText packet ∧ ∀ t ∈ dialect.conditions draft, J.holds packet t

/-- The rules that a block would get without its channel: those of a rotation block
never have one. -/
def looseDrafts (P : Primitives) (d : Detector) (dialect : Dialect) (b : Block) : List Draft :=
  match b.body with
  | .suffix suffix => [suffixDrop b suffix]
  | _ => plainDrafts P d dialect { b with channel := none }

/-- A block keeps to protected channels: it tests for a channel that is as good as
protected, or no message whatever could meet its text, sender and route tests. -/
def KeepsTo (b : Block) : Prop :=
  (b.body.isSuffix = false ∧ ∃ key, b.channel = some key ∧ key ≠ "" ∧
      ∀ packet, J.groupText packet → J.onChannel packet key → J.OnProtected d packet) ∨
    ∀ draft ∈ looseDrafts P d dialect b, ¬ J.Meetable draft

/-- The blocks with rules that are not made channel by channel. -/
def looseBlocks (blocks : Rendered) : List Block :=
  blocks.plains ++ blocks.gated.filter (fun b => b.body.isSuffix)

end Judge

/-! ### The rules of one block -/

section

variable {P : Primitives} {d : Detector} {dialect : Dialect} {J : Judge P dialect}

variable (dialect) in
theorem dialect_conditions (draft : Draft) :
    ∃ more, dialect.conditions draft = draft.conditions ++ more ∧
      ∀ t ∈ more, t.field ≠ .channelHash := by
  rw [Dialect.conditions]
  split_ifs
  · exact ⟨[notOwnSend], rfl, by simp [cond]⟩
  · exact ⟨[], (List.append_nil _).symm, by simp⟩

variable (dialect) in
/-- The same tests come after every scope. -/
theorem conditions_blockDraft (b : Block) (own : String × List RuleTest) :
    ∃ more, ∀ scope, dialect.conditions (blockDraft b own.1 (scope ++ own.2) .drop) =
      scope ++ (own.2 ++ more) := by
  by_cases hdialect : dialect = .openhop
  · refine ⟨[notOwnSend], fun scope => ?_⟩
    rw [Dialect.conditions, if_pos ⟨hdialect, rfl⟩]
    exact List.append_assoc _ _ _
  · refine ⟨[], fun scope => ?_⟩
    rw [Dialect.conditions, if_neg (fun h => hdialect h.1), List.append_nil]
    rfl

variable {b : Block} {draft : Draft} {packet free : J.Packet} {drafts : List Draft}
  {channels : Option (List String)} {botSenders : List String}

/-- The rules that a block would get without its channel. -/
theorem looseDrafts_eq (hbody : b.body.isSuffix = false) :
    Judge.looseDrafts P d dialect b =
      (ownTests d dialect b).map
        (fun own => blockDraft b own.1 ([isGroupText] ++ own.2) .drop) := by
  have hown : ownTests d dialect { b with channel := none } = ownTests d dialect b := rfl
  have hplain : plainDrafts P d dialect { b with channel := none } =
      (ownTests d dialect b).map
        (fun own => blockDraft b own.1 ([isGroupText] ++ own.2) .drop) := by
    rw [plainDrafts, plain_eq, hown]
    rfl
  rw [Judge.looseDrafts]
  split
  · rename_i suffix hb
    rw [hb] at hbody
    exact absurd hbody (by simp [BlockBody.isSuffix])
  · exact hplain

/-! ### A packet on another channel -/

/-- A packet that meets a draft without a channel can be moved to any channel. -/
theorem Judge.Meetable.moved {own : List RuleTest} {q : J.Packet}
    (h : J.Meetable draft) (hdraft : draft.conditions = isGroupText :: own)
    (hown : ∀ t ∈ own, t.field ≠ .channelHash) (hq : J.groupText q) :
    ∃ r, J.groupText r ∧ (∀ key, J.onChannel r key ↔ J.onChannel q key) ∧
      ∀ t ∈ dialect.conditions draft, J.holds r t := by
  obtain ⟨p, hp, hholds⟩ := h
  obtain ⟨r, hr, hchannel, hsame⟩ := J.moved p q hp hq
  obtain ⟨more, hmore, hfield⟩ := dialect_conditions dialect draft
  refine ⟨r, hr, hchannel, fun t ht => ?_⟩
  have hheld := hholds t ht
  rw [hmore, hdraft] at ht
  rcases List.mem_append.mp ht with hleft | hright
  · rcases List.mem_cons.mp hleft with rfl | htail
    · exact (J.holds_groupText r).mpr hr
    · exact (hsame t (hown t htail)).mpr hheld
  · exact (hsame t (hfield t hright)).mpr hheld

/-- The tests of a scope, as the judge sees them. -/
theorem holds_scopeTests {channel : Option String} {scope : List RuleTest}
    (h : scopeTests P dialect channel = some scope)
    (hgroup : J.groupText packet) :
    (∀ t ∈ scope, J.holds packet t) ↔
      ∀ key, channel = some key → key ≠ "" → J.onChannel packet key := by
  have hg := (J.holds_groupText packet).mpr hgroup
  cases channel with
  | none =>
    obtain rfl : [isGroupText] = scope := Option.some.inj h
    simp [hg]
  | some key =>
    rw [scopeTests] at h
    by_cases hkey : key = ""
    · rw [if_pos hkey] at h
      obtain rfl := Option.some.inj h
      simp [hg, hkey]
    · rw [if_neg hkey] at h
      obtain ⟨test, htest, rfl⟩ := Option.map_eq_some_iff.mp h
      have hiff := J.holds_channel packet key test hgroup htest
      simp only [List.forall_mem_cons, hg, List.not_mem_nil, false_implies, implies_true,
        and_true, true_and, hiff, Option.some.injEq]
      exact ⟨fun hon k hk _ => hk ▸ hon, fun hall => hall key rfl hkey⟩

/-- **What a block that keeps to protected channels drops is protected.** -/
theorem Judge.KeepsTo.plain (h : J.KeepsTo d b)
    (hplain : Spam.plain P d dialect b = some drafts) (hbody : b.body.isSuffix = false)
    (hdraft : draft ∈ drafts)
    (hgroup : J.groupText packet) (hholds : ∀ t ∈ dialect.conditions draft, J.holds packet t) :
    J.OnProtected d packet := by
  rw [plain_eq] at hplain
  obtain ⟨scope, hscope, rfl⟩ := Option.map_eq_some_iff.mp hplain
  obtain ⟨own, hown, rfl⟩ := List.mem_map.mp hdraft
  obtain ⟨more, hmore⟩ := conditions_blockDraft dialect b own
  rw [hmore] at hholds
  rcases h with ⟨-, key, hkey, hne, hprotected⟩ | hnone
  · refine hprotected packet hgroup ?_
    refine (holds_scopeTests hscope hgroup).mp (fun t ht => ?_) key hkey hne
    exact hholds t (List.mem_append_left _ ht)
  · have hloose : blockDraft b own.1 ([isGroupText] ++ own.2) .drop ∈
        Judge.looseDrafts P d dialect b := by
      rw [looseDrafts_eq hbody]
      exact List.mem_map_of_mem hown
    refine absurd ⟨packet, hgroup, ?_⟩ (hnone _ hloose)
    rw [hmore]
    intro t ht
    rcases List.mem_append.mp ht with hleft | hright
    · rw [List.mem_singleton.mp hleft]
      exact (J.holds_groupText packet).mpr hgroup
    · exact hholds t (List.mem_append_right _ hright)

/-- A block whose rules stay on protected channels keeps to them. -/
theorem Judge.KeepsTo.of_plain
    (hplain : Spam.plain P d dialect b = some drafts) (hbody : b.body.isSuffix = false)
    (hfree : J.groupText free) (hfreeNot : ¬ J.OnProtected d free)
    (h : ∀ draft ∈ drafts, ∀ packet, J.groupText packet →
      (∀ t ∈ dialect.conditions draft, J.holds packet t) → J.OnProtected d packet) :
    J.KeepsTo d b := by
  by_contra hnot
  rw [Judge.KeepsTo, not_or] at hnot
  obtain ⟨hchannel, hmeet⟩ := hnot
  push Not at hchannel hmeet
  obtain ⟨loose, hloose, hmeetable⟩ := hmeet
  rw [looseDrafts_eq hbody] at hloose
  obtain ⟨own, hown, rfl⟩ := List.mem_map.mp hloose
  rw [plain_eq] at hplain
  obtain ⟨scope, hscope, rfl⟩ := Option.map_eq_some_iff.mp hplain
  -- a packet off the protected channels, on the channel of the block if it has one
  have hspot : ∃ q, J.groupText q ∧ ¬ J.OnProtected d q ∧
      ∀ key, b.channel = some key → key ≠ "" → J.onChannel q key := by
    by_cases hnamed : ∃ key, b.channel = some key ∧ key ≠ ""
    · obtain ⟨key, hkey, hne⟩ := hnamed
      obtain ⟨q, hq, hon, hoff⟩ := hchannel hbody key hkey hne
      exact ⟨q, hq, hoff, fun k hk _ => by rwa [← Option.some.inj (hkey.symm.trans hk)]⟩
    · push Not at hnamed
      exact ⟨free, hfree, hfreeNot, fun key hkey hne => absurd (hnamed key hkey) hne⟩
  obtain ⟨q, hq, hoff, hon⟩ := hspot
  obtain ⟨r, hr, hsame, hholds⟩ := hmeetable.moved (show _ = isGroupText :: own.2 from rfl)
    (fun t ht => (ownTests_field hown ht).1) hq
  obtain ⟨more, hmore⟩ := conditions_blockDraft dialect b own
  rw [hmore] at hholds
  have hprotected := h _ (List.mem_map_of_mem hown) r hr (by
    rw [hmore]
    intro t ht
    rcases List.mem_append.mp ht with hleft | hright
    · refine (holds_scopeTests hscope hr).mpr (fun key hkey hne => ?_) t hleft
      exact (hsame key).mpr (hon key hkey hne)
    · exact hholds t (List.mem_append_right _ hright))
  obtain ⟨c, hc, hcon⟩ := hprotected
  exact hoff ⟨c, hc, (hsame c.key).mp hcon⟩

/-- The drop rule of a rotation block names no channel. -/
theorem Judge.KeepsTo.suffix_iff {suffix : List String}
    (hbody : b.body = .suffix suffix) (hfree : J.groupText free)
    (hfreeNot : ¬ J.OnProtected d free) :
    J.KeepsTo d b ↔ ∀ packet, J.groupText packet →
      (∀ t ∈ dialect.conditions (suffixDrop b suffix), J.holds packet t) →
        J.OnProtected d packet := by
  have hloose : Judge.looseDrafts P d dialect b = [suffixDrop b suffix] := by
    rw [Judge.looseDrafts, hbody]
  constructor
  · rintro (⟨hkind, -⟩ | hnone) packet hgroup hholds
    · rw [hbody] at hkind
      exact absurd hkind (by simp [BlockBody.isSuffix])
    · rw [hloose] at hnone
      exact absurd ⟨packet, hgroup, hholds⟩ (hnone _ List.mem_cons_self)
  · intro hall
    refine Or.inr (fun draft hdraft hmeet => ?_)
    rw [hloose, List.mem_singleton] at hdraft
    subst hdraft
    have hconditions : (suffixDrop b suffix).conditions = isGroupText ::
        (cond .hopCount .equals (.number (suffix.length + 1)) :: suffix.map pathContains) := rfl
    obtain ⟨r, hr, hsame, hholds⟩ := hmeet.moved hconditions (by
        intro t ht
        rcases List.mem_cons.mp ht with rfl | htail
        · simp [cond]
        · obtain ⟨hop, -, rfl⟩ := List.mem_map.mp htail
          simp [pathContains, cond]) hfree
    obtain ⟨c, hc, hon⟩ := hall r hr hholds
    exact hfreeNot ⟨c, hc, (hsame c.key).mp hon⟩

/-! ### The rule set -/

/-- The drop rules of a rule set are the drop drafts. -/
theorem Judge.contained_iff_drafts {drafts : Drafts} :
    J.Contained d (drafts.ruleSet P dialect) ↔
      ∀ draft ∈ drafts.before ++ drafts.after, draft.action = .drop →
        ∀ packet, J.groupText packet → (∀ t ∈ dialect.conditions draft, J.holds packet t) →
          J.OnProtected d packet := by
  have hmap := map_ruleSet P dialect drafts
  constructor
  · intro h draft hdraft haction packet hgroup hholds
    have hmem := List.mem_map_of_mem
      (f := fun draft => (dialect.conditions draft, draft.action)) hdraft
    rw [← hmap] at hmem
    obtain ⟨r, hr, heq⟩ := List.mem_map.mp hmem
    obtain ⟨hconditions, hract⟩ := Prod.mk.inj heq
    by_contra hoff
    refine h r hr (hract.trans haction) packet hgroup hoff ?_
    rw [hconditions]
    exact hholds
  · intro h r hr haction packet hgroup hoff hholds
    have hmem := List.mem_map_of_mem (f := fun r : SpamRule => (r.conditions, r.action)) hr
    rw [hmap] at hmem
    obtain ⟨draft, hdraft, heq⟩ := List.mem_map.mp hmem
    obtain ⟨hconditions, hract⟩ := Prod.mk.inj heq
    rw [← hconditions] at hholds
    exact hoff (h draft hdraft (hract.trans haction) packet hgroup hholds)

/-- A rule that tests for a protected channel stays on it. -/
theorem Judge.onProtected_of_channelTest {key : String}
    (hkey : key ∈ renderedChannels d channels) {test : RuleTest}
    (htest : channelTest P dialect key = some test)
    (hmem : test ∈ draft.conditions) (hgroup : J.groupText packet)
    (hholds : ∀ t ∈ dialect.conditions draft, J.holds packet t) : J.OnProtected d packet := by
  obtain ⟨c, hc, rfl⟩ := mem_renderedChannels hkey
  obtain ⟨more, hmore, -⟩ := dialect_conditions dialect draft
  refine ⟨c, hc, (J.holds_channel packet c.key test hgroup htest).mp (hholds test ?_)⟩
  rw [hmore]
  exact List.mem_append_left _ hmem

/-- **The rule set only touches protected channels exactly if every block whose rules
are not made channel by channel keeps to them.** -/
theorem Judge.contained_drafts_iff {drafts : Drafts} {blocks : Rendered} {bots : List Draft}
    (h : RenderParts P d dialect channels botSenders drafts blocks bots) (hfree : J.groupText free)
    (hfreeNot : ¬ J.OnProtected d free) :
    J.Contained d (drafts.ruleSet P dialect) ↔
      ∀ b ∈ Judge.looseBlocks blocks, J.KeepsTo d b := by
  have hplain : ∀ b ∈ blocks.plains, d.gated b = false ∧ (plain P d dialect b).isSome := by
    intro b hb
    have hblocks := h.rendered
    simp only [renderedBlocks, Option.bind_eq_bind, Option.bind_eq_some_iff, Option.pure_def,
      Option.some.injEq] at hblocks
    obtain ⟨_, _, _, _, _, _, rfl⟩ := hblocks
    exact (mem_keptPlain hb).2
  have hkind : ∀ b ∈ blocks.plains, b.body.isSuffix = false := by
    intro b hb
    have hgated := (hplain b hb).1
    cases hbody : b.body with
    | suffix suffix => simp [Detector.gated, hbody] at hgated
    | _ => rfl
  rw [Judge.contained_iff_drafts]
  constructor
  · intro hall b hb
    rcases List.mem_append.mp hb with hin | hin
    · obtain ⟨drafts', hdrafts⟩ := Option.isSome_iff_exists.mp (hplain b hin).2
      refine Judge.KeepsTo.of_plain hdrafts (hkind b hin) hfree hfreeNot ?_
      intro draft hdraft packet hgroup hholds
      refine hall draft ?_ ?_ packet hgroup hholds
      · rw [h.before]
        refine List.mem_append_left _ (List.mem_append_right _ ?_)
        exact List.mem_flatMap.mpr ⟨b, hin, by rwa [plainDrafts, hdrafts]⟩
      · rw [plain_eq] at hdrafts
        obtain ⟨scope, -, rfl⟩ := Option.map_eq_some_iff.mp hdrafts
        obtain ⟨own, -, rfl⟩ := List.mem_map.mp hdraft
        rfl
    · obtain ⟨hgated, hsuffix⟩ := List.mem_filter.mp hin
      cases hbody : b.body with
      | suffix suffix =>
        rw [Judge.KeepsTo.suffix_iff hbody hfree hfreeNot]
        intro packet hgroup hholds
        refine hall (suffixDrop b suffix) ?_ rfl packet hgroup hholds
        refine List.mem_append_right _ (mem_gatedDrafts_suffix h.after hgated hbody ?_)
        exact List.mem_concat_self
      | _ => rw [hbody] at hsuffix; exact absurd hsuffix (by simp [BlockBody.isSuffix])
  · intro hall draft hdraft haction packet hgroup hholds
    rcases List.mem_append.mp hdraft with hbefore | hafter
    · rw [h.before] at hbefore
      rcases List.mem_append.mp hbefore with hbot | hblock
      · -- a bot list rule
        obtain ⟨truncated, hlisted⟩ := h.listed
        obtain ⟨key, hkey, hmade⟩ := mem_botsBefore hlisted hbot
        obtain ⟨test, htest, rfl⟩ := Option.map_eq_some_iff.mp hmade
        exact Judge.onProtected_of_channelTest hkey htest (by simp) hgroup hholds
      · -- a block of its own
        obtain ⟨b, hb, hmem⟩ := List.mem_flatMap.mp hblock
        obtain ⟨drafts', hdrafts⟩ := Option.isSome_iff_exists.mp (hplain b hb).2
        rw [plainDrafts, hdrafts, Option.getD_some] at hmem
        exact (hall b (List.mem_append_left _ hb)).plain hdrafts (hkind b hb) hmem hgroup hholds
    · rcases mem_gatedDrafts h.after hafter with ⟨key, -, hknown⟩ | hgated | hsuffix
      · -- the known-people rules let pass
        obtain ⟨test, -, rfl⟩ := Option.map_eq_some_iff.mp hknown
        exact absurd haction (by simp)
      · obtain ⟨b, -, -, made, hmade, hmem⟩ := hgated
        obtain ⟨key, hkey, -, test, htest, variant, -, rfl⟩ := mem_gatedBlock hmade hmem
        exact Judge.onProtected_of_channelTest hkey htest (by simp [blockDraft]) hgroup hholds
      · obtain ⟨b, hb, suffix, hbody, hmem⟩ := hsuffix
        rcases List.mem_append.mp hmem with hallow | hdrop
        · obtain ⟨origin, -, rfl⟩ := List.mem_map.mp hallow
          exact absurd haction (by simp [blockDraft])
        · rw [List.mem_singleton.mp hdrop] at hholds
          have hin : b ∈ blocks.gated.filter (fun b => b.body.isSuffix) :=
            List.mem_filter.mpr ⟨hb, by rw [hbody]; rfl⟩
          exact (Judge.KeepsTo.suffix_iff hbody hfree hfreeNot).mp
            (hall b (List.mem_append_right _ hin)) packet hgroup hholds

/-- Nothing is enforced in Monitor mode or while paused. -/
def Idle (d : Detector) (preview : Bool) : Prop :=
  preview = false ∧ (d.config.paused = true ∨ d.config.mode ≠ .protect)

/-- What keeps the rules on protected channels: nothing is enforced, every channel is as
good as protected, or every block that is not rendered channel by channel keeps to them. -/
def Judge.AllKeepTo (J : Judge P dialect) (d : Detector) (preview : Bool)
    (channels : Option (List String)) (botSenders : List String) : Prop :=
  Idle d preview ∨ (∀ packet, J.groupText packet → J.OnProtected d packet) ∨
    ∃ blocks, renderedBlocks P d dialect channels botSenders = some blocks ∧
      ∀ b ∈ Judge.looseBlocks blocks, J.KeepsTo d b

theorem Judge.contained_render_iff (J : Judge P dialect) {preview : Bool} {rules : RuleSet}
    (h : render P d dialect preview channels botSenders = some rules) :
    J.Contained d rules ↔ J.AllKeepTo d preview channels botSenders := by
  rw [Judge.AllKeepTo]
  by_cases hidle : Idle d preview
  · rw [render, if_pos (by rw [Idle] at hidle; simpa using hidle)] at h
    obtain rfl := Option.some.inj h
    refine ⟨fun _ => Or.inl hidle, fun _ r hr => ?_⟩
    exact absurd hr List.not_mem_nil
  · rw [render, if_neg (by rw [Idle] at hidle; simpa using hidle)] at h
    obtain ⟨drafts, hdrafts, rfl⟩ := Option.map_eq_some_iff.mp h
    obtain ⟨blocks, bots, hparts⟩ := renderDrafts_parts hdrafts
    by_cases hevery : ∀ packet, J.groupText packet → J.OnProtected d packet
    · exact ⟨fun _ => Or.inr (Or.inl hevery),
        fun _ r _ _ packet hgroup hoff => absurd (hevery packet hgroup) hoff⟩
    · have hevery' := hevery
      push Not at hevery'
      obtain ⟨free, hfree, hfreeNot⟩ := hevery'
      rw [Judge.contained_drafts_iff hparts hfree hfreeNot]
      constructor
      · exact fun hall => Or.inr (Or.inr ⟨blocks, hparts.rendered, hall⟩)
      · rintro (hno | hno | ⟨blocks', hblocks', hall⟩)
        · exact absurd hno hidle
        · exact absurd hno hevery
        · rwa [Option.some.inj (hparts.rendered.symm.trans hblocks')]

end

/-! ### The two judges -/

section

variable {P : Primitives} {objects : PolicyObjects} {attributes : Attributes}

theorem checkedTest_congr
    {fields fields' : PolicyFields} {field : PolicyField} (h : fields field = fields' field)
    (op : PolicyOperator) (value : PyValue) :
    checkedTest P attributes objects fields field op value =
      checkedTest P attributes objects fields' field op value := by
  unfold checkedTest testMatches resolvedTest objectTest
  rw [h]

/-- The payload of group text only shows in its channel hash. -/
theorem checkedRuleTest_payload
    (env : ParsedPacketEnvelope) (facts : RxFacts) (payload : Bytes) {t : RuleTest}
    (ht : t.field ≠ .channelHash) :
    checkedRuleTest P attributes objects (policyFields { env with payload := payload } facts) t =
      checkedRuleTest P attributes objects (policyFields env facts) t := by
  rw [checkedRuleTest, checkedRuleTest]
  cases hfield : t.field with
  | channelHash => exact absurd hfield ht
  | localTransmission => rfl
  | _ =>
    simp only [RuleField.policyField, Option.bind_some]
    exact checkedTest_congr (by rfl) _ _

/-- The host repeater as a judge. -/
def hostJudge (P : Primitives) (attributes : Attributes) (objects : PolicyObjects)
    (hsha : ∀ data, P.sha256 data ≠ []) : Judge P .host where
  Packet := ParsedPacketEnvelope × RxFacts
  groupText := fun p => p.1.payloadType = payloadTypeGrpTxt
  onChannel := fun p key => hasChannelHash P p.1 key
  holds := fun p t =>
    checkedRuleTest P attributes objects (policyFields p.1 p.2) t = some true
  holds_groupText := by
    intro p
    rw [checkedRuleTest_groupText, Option.some_inj, decide_eq_true_iff]
  holds_channel := by
    intro p key test hgroup htest
    rw [(checkedRuleTest_channel attributes objects hsha htest p.1 p.2).2 hgroup,
      Option.some_inj, decide_eq_true_iff]
  moved := by
    intro p q hp hq
    refine ⟨({ p.1 with payload := q.1.payload }, p.2), hp, fun key => Iff.rfl, ?_⟩
    intro t ht
    rw [checkedRuleTest_payload p.1 p.2 q.1.payload ht]

end

/-- How a node judges group text. It is told the key of a channel in the rule itself and
reads what the other tests look at from the rest of the packet. -/
structure NodePolicy where
  Rest : Type
  groupText : Rest → Prop
  /-- the verdict of a test on a packet of the channel with a secret, in lower case -/
  test : String → Rest → RuleTest → Prop
  test_groupText : ∀ secret rest, test secret rest isGroupText ↔ groupText rest
  test_channel : ∀ secret rest key, groupText rest →
    (test secret rest (cond .channelHash .equals (.text key)) ↔ key = secret)
  test_other : ∀ secret secret' rest t, t.field ≠ .channelHash →
    (test secret rest t ↔ test secret' rest t)

/-- A node as a judge. -/
def nodeJudge (P : Primitives) (node : NodePolicy) : Judge P .openhop where
  Packet := String × node.Rest
  groupText := fun p => node.groupText p.2
  onChannel := fun p key => lowerAscii key = p.1
  holds := fun p t => node.test p.1 p.2 t
  holds_groupText := fun p => node.test_groupText p.1 p.2
  holds_channel := by
    intro p key test hgroup htest
    obtain rfl := Option.some.inj htest
    exact node.test_channel p.1 p.2 (lowerAscii key) hgroup
  moved := by
    intro p q hp hq
    exact ⟨(q.1, p.2), hp, fun key => Iff.rfl, fun t ht => node.test_other _ _ _ t ht⟩

abbrev publicKey : String := "8B3387E9C5CDEA6AC9E5EDBAA115CD72"

def publicChannel : ProtectedChannel where
  key := publicKey
  key_length := Or.inl (by decide)
  key_hex := by decide

/-- Protect mode on the public channel, with one block. -/
def guarding (b : Block) : Detector :=
  { config := { mode := .protect, channels := [publicChannel] }
    clock := 0
    blocks := ⟨[(b.key, b)], List.nodup_singleton _⟩ }

/-- The channel hash of the public channel is 11. -/
abbrev publicHash : Primitives := fixedPrimitives [0x11]

theorem publicHash_sha256 (data : Bytes) : publicHash.sha256 data ≠ [] := by
  simp [publicHash, fixedPrimitives]

/-- A campaign on the public channel. -/
def publicCampaign : Block :=
  { key := "text:1"
    body := .text "buy cheap coins now"
    channel := some publicKey
    reason := "campaign"
    source := .campaign
    created := 0
    expires := 100 }

/-- A repeater that the user blocked for everyone, on all channels. -/
def blockedRepeater : Block :=
  { key := "hop:27"
    body := .hop "27"
    channel := none
    reason := "manual"
    source := .manual
    created := 0
    expires := 100
    «match» := some .contains }

theorem channelHashByte_public : channelHashByte publicHash publicKey = some "11" := by
  decide +kernel

theorem renderedBlocks_publicCampaign :
    renderedBlocks publicHash (guarding publicCampaign) .host none [] =
      some ⟨[publicCampaign], []⟩ := by
  have hactive : activeBlocks (guarding publicCampaign) none = [publicCampaign] := rfl
  have hbots : botsBefore publicHash .host (botNames .host []) 300
      (botChannels (guarding publicCampaign) (renderedChannels (guarding publicCampaign) none)) =
        some ([], false) := rfl
  have hgated : (guarding publicCampaign).gated publicCampaign = false := by decide
  have hlimit : (guarding publicCampaign).tunables.maxTotalRules = 300 := rfl
  have hplain : ∃ drafts, plain publicHash (guarding publicCampaign) .host publicCampaign =
      some drafts ∧ drafts.length = 1 := by
    rw [plain_eq, show publicCampaign.channel = some publicKey from rfl, scopeTests,
      if_neg (by decide), channelTest, channelHashByte_public]
    exact ⟨_, rfl, rfl⟩
  obtain ⟨drafts, hdrafts, hlen⟩ := hplain
  simp [renderedBlocks, hactive, hbots, hlimit, plainLoop, keptPlain, hgated, hdrafts, hlen,
    fitGated, fitLoop]

/-- A packet of another channel through the blocked repeater. -/
def otherChannelPacket : ParsedPacketEnvelope where
  header := 0x15
  routeType := 1
  payloadType := payloadTypeGrpTxt
  payloadVersion := 0
  pathByte := 1
  hopCount := 1
  hashSize := 1
  pathByteLen := 1
  path := [0x27]
  payload := [0x42, 0, 0, 0]
  payloadOffset := 3
  transportCodes := none

end RtfmEv.Spam
