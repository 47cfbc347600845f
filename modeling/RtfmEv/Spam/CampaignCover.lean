import RtfmEv.Lib.Run
import RtfmEv.Spam.WeekCap

/-!
# Whether a running campaign is blocked where it runs

The key of a block on a text is a digest of the text alone, and renewing a block
moves neither its channel nor its text. So the channel that gets covered is that of
whoever held the key first: a block that was there, or else the first order that a
campaign makes for it. `Claimed` says when that is the right text on the channel of
the newest copy; then every copy of the campaign is caught there after the call, and
stays caught through all later steps of the call.
-/

namespace RtfmEv.Spam

open RtfmEv.Lib RtfmEv.HostRepeater

namespace Detector

variable {drops : String → Block → Prop} {P : Primitives} {T : TextTools} {d d' : Detector}
  {key channel s : String} {b : Block} {c : Campaign} {last : Event} {o : BlockOrder}

/-! ### Orders under one key -/

/-- The order creates the block under its key, or renews it. -/
def takes (d : Detector) (o : BlockOrder) : Bool :=
  Decidable.decide (d.clock < d.orderExpires o) &&
    (d.blocks.get? o.key).all (fun b => b.expires ≤ d.orderExpires o)

/-- What an order leaves under its key when it takes it. -/
def takenBlock (d : Detector) (o : BlockOrder) : Block :=
  match d.blocks.get? o.key with
  | none => d.newBlock o
  | some b => d.renewedBlock o b

theorem addBlock_eq (d : Detector) (o : BlockOrder) :
    d.addBlock o = if d.takes o then d.setBlock o.key (d.takenBlock o) else d := by
  unfold addBlock takes takenBlock
  by_cases hlate : d.orderExpires o ≤ d.clock
  · rw [if_pos hlate, decide_eq_false (not_lt.mpr hlate)]
    simp
  · rw [if_neg hlate, decide_eq_true (not_le.mp hlate)]
    cases d.blocks.get? o.key with
    | none => simp
    | some b => simp

theorem get?_addBlock (d : Detector) (o : BlockOrder) (key : String) :
    (d.addBlock o).blocks.get? key =
      if key = o.key ∧ d.takes o = true then some (d.takenBlock o) else d.blocks.get? key := by
  rw [addBlock_eq]
  by_cases htakes : d.takes o = true
  · rw [if_pos htakes]
    show (d.blocks.set o.key (d.takenBlock o)).get? key = _
    rw [OrderedDict.get?_set]
    simp [htakes]
  · rw [if_neg htakes]
    simp [htakes]

theorem addBlock_suppressed (d : Detector) (o : BlockOrder) :
    (d.addBlock o).suppressed = d.suppressed := by
  rw [addBlock_eq]
  split_ifs <;> rfl

theorem orderExpires_congr (hclock : d'.clock = d.clock)
    (hconfig : d'.config = d.config) (o : BlockOrder) : d'.orderExpires o = d.orderExpires o := by
  show o.fromTs.getD d'.clock + o.ttl.getD d'.config.tunables.blockTtlSeconds = _
  rw [hclock, hconfig]
  rfl

theorem cap_congr (hclock : d'.clock = d.clock)
    (hconfig : d'.config = d.config) (b : Block) : d'.cap b = d.cap b := by
  have hweek : d'.weekAtMost b = d.weekAtMost b := weekAtMost_congr hconfig rfl rfl
  unfold cap
  rw [hweek, hclock]

/-- Whether an order takes its key depends on the block under it alone. -/
theorem takes_congr (hclock : d'.clock = d.clock)
    (hconfig : d'.config = d.config) (hget : d'.blocks.get? o.key = d.blocks.get? o.key) :
    d'.takes o = d.takes o := by
  have hexpires : d'.orderExpires o = d.orderExpires o := orderExpires_congr hclock hconfig o
  unfold takes
  rw [hexpires, hclock, hget]

theorem newBlock_congr (hclock : d'.clock = d.clock)
    (hconfig : d'.config = d.config) (o : BlockOrder) : d'.newBlock o = d.newBlock o := by
  have hexpires : d'.orderExpires o = d.orderExpires o := orderExpires_congr hclock hconfig o
  unfold newBlock
  rw [hexpires, hclock, cap_congr hclock hconfig]

theorem renewedBlock_congr (hclock : d'.clock = d.clock)
    (hconfig : d'.config = d.config) (o : BlockOrder) (b : Block) :
    d'.renewedBlock o b = d.renewedBlock o b := by
  have hexpires : d'.orderExpires o = d.orderExpires o := orderExpires_congr hclock hconfig o
  unfold renewedBlock
  rw [hexpires, cap_congr hclock hconfig]

theorem want_eq_or (d : Detector) (o : BlockOrder) : d.want o = d ∨ d.want o = d.addBlock o := by
  unfold want
  split_ifs
  · exact Or.inl rfl
  · exact Or.inr rfl

theorem want_suppressed (d : Detector) (o : BlockOrder) : (d.want o).suppressed = d.suppressed := by
  rcases want_eq_or d o with h | h
  · rw [h]
  · rw [h, addBlock_suppressed]

theorem wantAll_suppressed (d : Detector) (os : List BlockOrder) :
    (d.wantAll os).suppressed = d.suppressed := by
  induction os generalizing d with
  | nil => rfl
  | cons o os ih =>
    show ((d.want o).wantAll os).suppressed = d.suppressed
    rw [ih, want_suppressed]

theorem wantAll_append (d : Detector) (os os' : List BlockOrder) :
    d.wantAll (os ++ os') = (d.wantAll os).wantAll os' := List.foldl_append

theorem edits_wantAll_any (d : Detector) (os : List BlockOrder) :
    Edits (fun _ => True) (fun _ _ => False) d (d.wantAll os) := edits_wantAll d (fun _ _ => trivial)

theorem get?_wantAll_of_not_takes {os : List BlockOrder}
    (h : ∀ o ∈ os, o.key = key → d.takes o = false) :
    (d.wantAll os).blocks.get? key = d.blocks.get? key := by
  induction os generalizing d with
  | nil => rfl
  | cons o os ih =>
    have hone : (d.want o).blocks.get? key = d.blocks.get? key := by
      rcases want_eq_or d o with hwant | hwant
      · rw [hwant]
      · rw [hwant, get?_addBlock]
        by_cases hkey : key = o.key
        · rw [if_neg (by simp [h o List.mem_cons_self hkey.symm])]
        · rw [if_neg (by simp [hkey])]
    show ((d.want o).wantAll os).blocks.get? key = d.blocks.get? key
    rw [ih, hone]
    intro o' ho' hkey
    have hedits : Edits (fun _ => True) (fun _ _ => False) d (d.want o) := edits_want d trivial
    rw [takes_congr hedits.clock hedits.config (by rw [hkey, hone])]
    exact h o' (List.mem_cons_of_mem _ ho') hkey

/-! ### A block that stops copies -/

/-- The block stops every copy of a text on a channel, whoever sends it. -/
structure StopsCopies (clock : ℚ) (s channel : String) (b : Block) : Prop where
  body : b.body = .text s
  channel : b.channel = some channel
  unexpired : clock < b.expires
  reason : b.reason ∉ userTextReasons
  sender : b.sender.getD "" = ""

theorem StopsCopies.blockMatches {clock : ℚ}
    (h : StopsCopies clock s channel b) {e : Event} (hchannel : e.channel = channel)
    (htext : textContains e.text s = true) : d.blockMatches b e = true := by
  have hgated : d.gated b = false := by
    unfold gated
    rw [h.body]
    simpa using h.reason
  have hsender : senderMatches b e = true := by
    have hnobody := h.sender
    unfold senderMatches
    cases hsender : b.sender with
    | none => rfl
    | some sender =>
      rw [hsender] at hnobody
      simp only [Option.getD_some] at hnobody
      simp [hnobody]
  have hbody : d.bodyMatches b e = true := by
    unfold bodyMatches
    rw [h.body]
    simp [hsender, htext]
  unfold Detector.blockMatches
  rw [h.channel, hgated, hbody]
  simp [hchannel]

/-- A block that has not ended is not ended by the cap. -/
theorem clock_lt_cap_expires (h : d.clock < b.expires) :
    d.clock < (d.cap b).expires := by
  have hweek : (0 : ℚ) < (maxPeopleBlockSeconds : ℕ) := by norm_num
  rw [cap_eq]
  show d.clock < if _ then _ else _
  split_ifs
  · exact lt_min h (by linarith)
  · exact h

theorem renewedBlock_eq (d : Detector) (o : BlockOrder) (b : Block) :
    d.renewedBlock o b = { b with
      expires := (d.cap { b with expires := d.orderExpires o }).expires
      reason := if b.source = .manual then b.reason else o.reason
      linksMode := if b.source = .manual then b.linksMode else o.linksMode
      source := if o.source = .campaign ∧ b.source = .dedupe then .campaign else b.source
      sender := if o.source = .campaign ∧ b.source = .dedupe then none else b.sender
      senderOnly := if o.source = .campaign ∧ b.source = .dedupe then false else b.senderOnly } := by
  unfold renewedBlock
  rw [cap_eq]
  by_cases hmanual : b.source = .manual
  · simp [hmanual]
  · by_cases hupgrade : o.source = .campaign ∧ b.source = .dedupe
    · simp [hupgrade]
    · simp [hmanual, hupgrade]

/-- An automatic order that takes the key of a block on the text and the channel makes it
one that stops copies, unless the user's reason or a sender stays. -/
theorem stopsCopies_renewedBlock
    (ho : automatic o) (hexpires : d.clock < d.orderExpires o) (hbody : b.body = .text s)
    (hchannel : b.channel = some channel)
    (hreason : b.reason ∉ userTextReasons ∨ b.source ≠ .manual)
    (hsender : b.sender.getD "" = "" ∨ (o.source = .campaign ∧ b.source = .dedupe)) :
    StopsCopies d.clock s channel (d.renewedBlock o b) := by
  rw [renewedBlock_eq]
  constructor
  · exact hbody
  · exact hchannel
  · exact clock_lt_cap_expires (b := { b with expires := d.orderExpires o }) hexpires
  · show (if b.source = .manual then b.reason else o.reason) ∉ userTextReasons
    split_ifs with hmanual
    · exact hreason.resolve_right (not_not.mpr hmanual)
    · exact ho
  · show (if o.source = .campaign ∧ b.source = .dedupe then none else b.sender).getD "" = ""
    split_ifs with hupgrade
    · rfl
    · exact hsender.resolve_right hupgrade

theorem stopsCopies_newBlock
    (ho : automatic o) (hexpires : d.clock < d.orderExpires o) (hbody : o.body = .text s)
    (hchannel : o.channel = some channel) (hsender : o.sender = none) :
    StopsCopies d.clock s channel (d.newBlock o) := by
  unfold newBlock
  constructor
  · rw [cap_eq]
    exact hbody
  · rw [cap_eq]
    exact hchannel
  · exact clock_lt_cap_expires hexpires
  · rw [cap_eq]
    exact ho
  · rw [cap_eq]
    show o.sender.getD "" = ""
    rw [hsender]
    rfl

/-- An edit keeps a block that stops copies, unless it may drop the block. -/
theorem Edit.stopsCopies (hedit : Edit automatic drops d d')
    (hdrops : ∀ b, drops key b → b.expires ≤ d.clock)
    (h : ∃ b, d.blocks.get? key = some b ∧ StopsCopies d.clock s channel b) :
    ∃ b, d'.blocks.get? key = some b ∧ StopsCopies d'.clock s channel b := by
  obtain ⟨b, hget, hb⟩ := h
  rw [hedit.clock]
  cases hedit with
  | other hblocks _ _ => exact ⟨b, by rw [hblocks, hget], hb⟩
  | add ho =>
    rename_i o
    rw [get?_addBlock]
    split_ifs with htaken
    · obtain ⟨rfl, htakes⟩ := htaken
      have hexpires : d.clock < d.orderExpires o :=
        of_decide_eq_true (Bool.and_eq_true_iff.mp htakes).1
      refine ⟨_, rfl, ?_⟩
      unfold takenBlock
      rw [hget]
      exact stopsCopies_renewedBlock ho hexpires hb.body hb.channel (Or.inl hb.reason)
        (Or.inl hb.sender)
    · exact ⟨b, hget, hb⟩
  | touch hget' halike =>
    rename_i key' b₀ b'
    show ∃ b, (d.blocks.set key' b').get? key = some b ∧ _
    rw [OrderedDict.get?_set]
    split_ifs with hkey
    · rw [hkey, hget'] at hget
      obtain rfl := Option.some.inj hget
      exact ⟨b', rfl, ⟨halike.body.trans hb.body, halike.channel.trans hb.channel,
        halike.expires ▸ hb.unexpired, halike.reason ▸ hb.reason, halike.sender ▸ hb.sender⟩⟩
    · exact ⟨b, hget, hb⟩
  | drop hdrop =>
    rename_i p
    refine ⟨b, ?_, hb⟩
    show (d.blocks.eraseIf p).get? key = some b
    rw [OrderedDict.get?_eq_some_iff]
    apply List.mem_filter.mpr
    refine ⟨OrderedDict.get?_eq_some_iff.mp hget, ?_⟩
    by_contra hp
    have hend := hdrops b (hdrop key b hget (by simpa using hp))
    exact absurd hb.unexpired (not_lt.mpr hend)

theorem Edits.stopsCopies (hedits : Edits automatic drops d d')
    (hdrops : ∀ b, drops key b → b.expires ≤ d.clock)
    (h : ∃ b, d.blocks.get? key = some b ∧ StopsCopies d.clock s channel b) :
    ∃ b, d'.blocks.get? key = some b ∧ StopsCopies d'.clock s channel b := by
  induction hedits with
  | refl => exact h
  | tail hbefore hedit ih =>
    exact hedit.stopsCopies (by rw [Edits.clock hbefore]; exact hdrops) ih

/-! ### Who holds the key -/

/-- The first order of the campaigns that creates or renews the block under a key. -/
def firstTaker (P : Primitives) (T : TextTools) (d : Detector) (key : String) :
    Option BlockOrder :=
  (d.allCampaignOrders P T).find? (fun o => Decidable.decide (o.key = key) && d.takes o)

theorem of_firstTaker (h : d.firstTaker P T key = some o) :
    o ∈ d.allCampaignOrders P T ∧ o.key = key ∧ d.takes o = true := by
  unfold firstTaker at h
  have hfound := List.find?_some h
  obtain ⟨hkey, htakes⟩ := Bool.and_eq_true_iff.mp hfound
  exact ⟨List.mem_of_find?_eq_some h, of_decide_eq_true hkey, htakes⟩

/-- The key of a text is held for that text on a channel: by the block that is there, which
lets nobody through or stops doing so when it is renewed, or else by the first order. -/
structure Claimed (P : Primitives) (T : TextTools) (d : Detector) (s channel : String) : Prop where
  held : ∀ b, d.blocks.get? (textKey P s) = some b →
    b.body = .text s ∧ b.channel = some channel ∧
      (b.reason ∉ userTextReasons ∨
        (b.source ≠ .manual ∧ (d.firstTaker P T (textKey P s)).isSome = true)) ∧
      (b.sender.getD "" = "" ∨
        (b.source = .dedupe ∧ (d.firstTaker P T (textKey P s)).isSome = true))
  asked : d.blocks.get? (textKey P s) = none → ∀ o, d.firstTaker P T (textKey P s) = some o →
    o.body = .text s ∧ o.channel = some channel

/-- A confirmed campaign whose copies share a text that is worth a block, in a state in which
campaigns have been looked for: not held off, with a newest copy that is young enough, and not
taken back as a correction. -/
structure Qualifies (P : Primitives) (T : TextTools) (d : Detector) (c : Campaign) (last : Event)
    (s : String) : Prop where
  running : c ∈ d.campaigns
  confirmed : c.confirmed = true
  newest : newestCopy c = some last
  shared : (d.shared T (distinctTexts c.events)).1 = some s
  allowed : (d.suppressed.get? (textKey P s)).getD 0 ≤ d.clock
  young : d.clock - last.ts < d.tunables.blockTtlSeconds
  kept : ((d.blockCampaigns P T).correctCampaigns ((d.blockCampaigns P T).longEvents d.clock)
    d.clock).blocks.get? (textKey P s) ≠ none

/-- The order of a campaign for the text that its copies share. -/
theorem Qualifies.order
    (h : Qualifies P T d c last s) : ∃ o ∈ d.allCampaignOrders P T,
      o.key = textKey P s ∧ o.body = .text s ∧ o.channel = some last.channel ∧
        d.clock < d.orderExpires o := by
  let own : BlockOrder :=
    { key := textKey P s
      body := .text s
      reason := "campaign"
      source := .campaign
      channel := some last.channel
      ttl := d.campaignTtl c
      fromTs := some last.ts }
  refine ⟨own, ?_, rfl, rfl, rfl, ?_⟩
  · apply List.mem_flatMap.mpr
    refine ⟨c, List.mem_filter.mpr ⟨h.running, h.confirmed⟩, ?_⟩
    unfold campaignOrders
    rw [h.newest]
    simp only [h.shared]
    apply List.mem_append_left
    apply List.mem_append_left
    exact List.mem_map.mpr ⟨s, List.mem_singleton_self s, rfl⟩
  · show d.clock < last.ts + (d.campaignTtl c).getD d.tunables.blockTtlSeconds
    have hyoung := h.young
    have httl : (d.tunables.blockTtlSeconds : ℚ) ≤
        (d.campaignTtl c).getD d.tunables.blockTtlSeconds := by
      unfold campaignTtl
      split_ifs
      · exact le_max_right _ _
      · exact le_rfl
    linarith

theorem want_eq_addBlock
    (h : (d.suppressed.get? o.key).getD 0 ≤ d.clock) : d.want o = d.addBlock o := by
  unfold want
  rw [if_neg (not_lt.mpr h)]

/-- What the campaigns leave under a key that is not held off: what was there, when no order
takes it, and else what the first order that takes it makes of it, changed by further orders. -/
theorem blockCampaigns_key
    (hallowed : (d.suppressed.get? key).getD 0 ≤ d.clock) :
    (d.firstTaker P T key = none ∧
        (d.blockCampaigns P T).blocks.get? key = d.blocks.get? key) ∨
      ∃ o d', d.firstTaker P T key = some o ∧ d'.blocks.get? key = some (d.takenBlock o) ∧
        d'.clock = d.clock ∧
        Edits automatic (fun _ _ => False) d' (d.blockCampaigns P T) := by
  cases hfirst : d.firstTaker P T key with
  | none =>
    left
    refine ⟨rfl, get?_wantAll_of_not_takes ?_⟩
    intro o ho hkey
    have hnot := List.find?_eq_none.mp hfirst o ho
    simpa [hkey] using hnot
  | some o =>
    right
    obtain ⟨htaker, before, after, horders, hbefore⟩ := List.find?_eq_some_iff_append.mp hfirst
    obtain ⟨hkey, htakes⟩ := Bool.and_eq_true_iff.mp htaker
    replace hkey : o.key = key := of_decide_eq_true hkey
    -- the orders before the first taker leave the key alone
    have hsame : (d.wantAll before).blocks.get? key = d.blocks.get? key := by
      apply get?_wantAll_of_not_takes
      intro o' ho' hkey'
      have hnot := hbefore o' ho'
      simpa [hkey'] using hnot
    have hedits := edits_wantAll_any d before
    have hclock := hedits.clock
    have htakes' : (d.wantAll before).takes o = true := by
      rw [takes_congr hclock hedits.config (by rw [hkey, hsame])]
      exact htakes
    have hwant : (d.wantAll before).want o = (d.wantAll before).addBlock o := by
      apply want_eq_addBlock
      rw [wantAll_suppressed, hclock, hkey]
      exact hallowed
    have htaken : (d.wantAll before).takenBlock o = d.takenBlock o := by
      unfold takenBlock
      rw [hkey, hsame]
      cases d.blocks.get? key with
      | none => exact newBlock_congr hclock hedits.config o
      | some b => exact renewedBlock_congr hclock hedits.config o b
    refine ⟨o, ((d.wantAll before).want o), rfl, ?_, ?_, ?_⟩
    · rw [hwant, get?_addBlock, if_pos ⟨hkey.symm, htakes'⟩, htaken]
    · rw [hwant, addBlock_clock, hclock]
    · have hall : d.blockCampaigns P T = ((d.wantAll before).want o).wantAll after := by
        show d.wantAll (d.allCampaignOrders P T) = _
        rw [horders, wantAll_append]
        rfl
      rw [hall]
      refine edits_wantAll _ (fun o' ho' => ?_)
      have hmem : o' ∈ d.allCampaignOrders P T := by
        rw [horders]
        exact List.mem_append_right _ (List.mem_cons_of_mem _ ho')
      exact (mem_allCampaignOrders hmem).1

/-- After the campaigns have asked for their blocks, the block of a qualifying campaign whose
key is claimed for it stops every copy. -/
theorem stopsCopies_blockCampaigns
    (hq : Qualifies P T d c last s) (hclaimed : Claimed P T d s last.channel) :
    ∃ b, (d.blockCampaigns P T).blocks.get? (textKey P s) = some b ∧
      StopsCopies (d.blockCampaigns P T).clock s last.channel b := by
  obtain ⟨own, hown, hkey, hbody, hchannel, hexpires⟩ := hq.order
  have hclock : (d.blockCampaigns P T).clock = d.clock :=
    (edits_wantAll_any d (d.allCampaignOrders P T)).clock
  rcases blockCampaigns_key (P := P) (T := T) hq.allowed with ⟨hnone, hsame⟩ | hsome
  · -- no order takes the key, so it holds a block that outlasts the campaign's own order
    have hnot := List.find?_eq_none.mp hnone own hown
    cases hget : d.blocks.get? (textKey P s) with
    | none => exact absurd hnot (by simp [takes, hkey, hexpires, hget])
    | some b =>
      have hlonger : d.orderExpires own < b.expires := by
        simpa [takes, hkey, hexpires, hget] using hnot
      obtain ⟨hb, hbc, hreason, hsender⟩ := hclaimed.held b hget
      rw [hnone] at hreason hsender
      rw [hsame, hget, hclock]
      exact ⟨b, rfl, hb, hbc, hexpires.trans hlonger, by simpa using hreason,
        by simpa using hsender⟩
  · obtain ⟨o, d', hfirst, hget', hclock', hedits⟩ := hsome
    obtain ⟨hmem, hokey, htakes⟩ := of_firstTaker hfirst
    have hoexpires : d.clock < d.orderExpires o :=
      of_decide_eq_true (Bool.and_eq_true_iff.mp htakes).1
    obtain ⟨hauto, hsource, hnobody⟩ := mem_allCampaignOrders hmem
    apply hedits.stopsCopies (fun b hfalse => hfalse.elim)
    rw [hclock']
    refine ⟨_, hget', ?_⟩
    unfold takenBlock
    rw [hokey]
    cases hget : d.blocks.get? (textKey P s) with
    | none =>
      obtain ⟨hob, hoc⟩ := hclaimed.asked hget o hfirst
      exact stopsCopies_newBlock hauto hoexpires hob hoc hnobody
    | some b =>
      obtain ⟨hb, hbc, hreason, hsender⟩ := hclaimed.held b hget
      exact stopsCopies_renewedBlock hauto hoexpires hb hbc (hreason.imp_right And.left)
        (hsender.imp_right (fun h => ⟨hsource, h.1⟩))

/-! ### The rest of the call -/

theorem textKey_ne_linksKey (P : Primitives) (s : String) : textKey P s ≠ linksKey := by
  intro h
  have hchars := congrArg String.toList h
  rw [textKey, String.toList_append] at hchars
  exact absurd (congrArg List.head? hchars) (by simp [linksKey])

/-- A correction drops the block under a key or leaves it alone. -/
theorem get?_correctCampaigns (d : Detector) (longWindow : List Event) (now : ℚ) (key : String) :
    (d.correctCampaigns longWindow now).blocks.get? key = none ∨
      (d.correctCampaigns longWindow now).blocks.get? key = d.blocks.get? key := by
  have hall : ∀ (entries : List (String × Block)) (acc : Detector),
      (entries.foldl (fun acc entry =>
        if d.wronglyBlocks longWindow entry.1 entry.2 then
          (acc.dropBlock entry.1).suppress entry.1 (now + suppressSeconds)
        else acc) acc).blocks.get? key = none ∨
      (entries.foldl (fun acc entry =>
        if d.wronglyBlocks longWindow entry.1 entry.2 then
          (acc.dropBlock entry.1).suppress entry.1 (now + suppressSeconds)
        else acc) acc).blocks.get? key = acc.blocks.get? key := by
    intro entries
    induction entries with
    | nil =>
      intro acc
      exact Or.inr rfl
    | cons entry entries ih =>
      intro acc
      rw [List.foldl_cons]
      split_ifs with hwrong
      · have hdrop : ((acc.dropBlock entry.1).suppress entry.1
            (now + suppressSeconds)).blocks.get? key =
            if key = entry.1 then none else acc.blocks.get? key :=
          OrderedDict.get?_erase acc.blocks entry.1 key
        rcases ih ((acc.dropBlock entry.1).suppress entry.1 (now + suppressSeconds)) with h | h
        · exact Or.inl h
        · rw [h, hdrop]
          split_ifs
          · exact Or.inl rfl
          · exact Or.inr rfl
      · exact ih acc
  exact hall d.blocks.entries d

/-- **One call.** A qualifying campaign whose key is claimed for it has, after the call, a
block under its key that stops every copy. -/
theorem stopsCopies_decide (htext : d.tunables.enableTextRules = true)
    (hq : Qualifies P T (d.withCampaigns d.clock) c last s)
    (hclaimed : Claimed P T (d.withCampaigns d.clock) s last.channel)
    (judged : Option Event) (freshSeconds : ℚ) :
    ∃ b, (d.decide P T judged freshSeconds).blocks.get? (textKey P s) = some b ∧
      StopsCopies (d.decide P T judged freshSeconds).clock s last.channel b := by
  have hcampaigns : d.decideCampaigns P T d.clock = (d.withCampaigns d.clock).blockCampaigns P T := by
    show (d.withCampaigns d.clock).stepIf d.tunables.enableTextRules _ = _
    rw [htext]
    rfl
  have hblocked := stopsCopies_blockCampaigns hq hclaimed
  -- the correction keeps the block, since the campaign qualifies
  have hcorrected : ∃ b, ((d.decideCampaigns P T d.clock).correctCampaigns
      ((d.decideCampaigns P T d.clock).longEvents d.clock) d.clock).blocks.get? (textKey P s) =
        some b ∧ StopsCopies d.clock s last.channel b := by
    rw [hcampaigns]
    obtain ⟨b, hget, hb⟩ := hblocked
    have hclock : ((d.withCampaigns d.clock).blockCampaigns P T).clock = d.clock :=
      (edits_wantAll_any (d.withCampaigns d.clock) _).clock
    rw [hclock] at hb
    have hkept := hq.kept
    rcases get?_correctCampaigns ((d.withCampaigns d.clock).blockCampaigns P T)
      (((d.withCampaigns d.clock).blockCampaigns P T).longEvents d.clock) d.clock
      (textKey P s) with h | h
    · exact absurd h hkept
    · exact ⟨b, h.trans hget, hb⟩
  let corrected := (d.decideCampaigns P T d.clock).correctCampaigns
    ((d.decideCampaigns P T d.clock).longEvents d.clock) d.clock
  have hbefore : Edits automatic (fun _ _ => True) d corrected :=
    (edits_decideCampaigns d P T d.clock).trans
      (edits_correctCampaigns _ _ _ (fun _ _ => trivial))
  have hafter : Edits automatic (fun key b => key = linksKey ∨ b.expires ≤ d.clock) corrected
      (d.decide P T judged freshSeconds) :=
    (((edits_decideOthers corrected P T judged freshSeconds d.clock (fun _ => Or.inl rfl)).trans
      (edits_expire _ d.clock (fun _ _ h => Or.inr h))).trans (edits_forgetOld _ d.clock)).trans
      (edits_rematch _ judged)
  have hclock : corrected.clock = d.clock := hbefore.clock
  apply hafter.stopsCopies
  · intro b hb
    rw [hclock]
    exact hb.resolve_left (textKey_ne_linksKey P s)
  · rw [hclock]
    exact hcorrected

/-! ### Copies -/

theorem textContains_of_shared {originals : List String}
    (h : (d.shared T originals).1 = some s) {text : String} (htext : text ∈ originals) :
    textContains text s = true := by
  have hpiece : onePiece T (T.sharedText (originals.map T.stripMentions) d.tunables.minRuleChars)
      originals d.tunables.minRuleChars = some s := (Option.filter_eq_some_iff.mp h).1
  unfold onePiece at hpiece
  split at hpiece
  · exact absurd hpiece (by simp)
  · simp only at hpiece
    split_ifs at hpiece with hshared
    obtain rfl := Option.some.inj hpiece
    exact List.all_eq_true.mp (Bool.and_eq_true_iff.mp hshared).2 text htext

theorem mem_distinctTexts {events : List Event} {e : Event} (h : e ∈ events) :
    e.text ∈ distinctTexts events := by
  unfold distinctTexts
  rw [List.mem_reverse, List.mem_dedup, List.mem_reverse]
  exact List.mem_map_of_mem h

/-- A block that lasts covers a channel for a text: it is a block on the text there, and
stops every further copy there. -/
def CoveredOn (d : Detector) (s channel : String) (copies : List Event) : Prop :=
  ∃ b ∈ d.blockList, b.body = .text s ∧ b.channel = some channel ∧ d.clock < b.expires ∧
    ∀ e : Event, e.channel = channel → (∃ copy ∈ copies, e.text = copy.text) →
      d.blockMatches b e = true

/-! ### Runs of calls -/

/-- A call with the time at which it is made. -/
structure TimedCall where
  now : ℚ
  call : Call

/-- A call, while the clock does not run backwards. -/
def callAt (P : Primitives) (T : TextTools) (d : Detector) (l : TimedCall) : Option Detector :=
  if d.clock ≤ l.now then some (d.call P T l.now l.call) else none

def CallStep (P : Primitives) (T : TextTools) (d : Detector) (l : TimedCall) (d' : Detector) :
    Prop := callAt P T d l = some d'

/-- A call in a run. -/
abbrev CallEvent := RtfmEv.Lib.Event Detector TimedCall

/-- The detector with the campaigns that a call finds. -/
def found (ev : CallEvent) : Detector :=
  ({ ev.pre with clock := ev.label.now } : Detector).withCampaigns ev.label.now

/-- A call of `decide`, with text rules on. -/
def Decides (ev : CallEvent) : Prop :=
  (∃ judged freshSeconds, ev.label.call = .decide judged freshSeconds) ∧
    ev.pre.tunables.enableTextRules = true

/-- After a call of `decide` every qualifying campaign is blocked on the channel of its newest
copy. -/
def BlockedWhereItRuns (P : Primitives) (T : TextTools) (ev : CallEvent) : Prop :=
  Decides ev → ∀ c last s, Qualifies P T (found ev) c last s →
    CoveredOn ev.post s last.channel c.events

/-- When `decide` is called, the key of every qualifying campaign is claimed for its text on
the channel of its newest copy. -/
def ClaimedFirst (P : Primitives) (T : TextTools) (ev : CallEvent) : Prop :=
  Decides ev → ∀ c last s, Qualifies P T (found ev) c last s →
    Claimed P T (found ev) s last.channel

variable {ev : CallEvent}

theorem blockedWhereItRuns_step (hstep : CallStep P T ev.pre ev.label ev.post)
    (hclaimed : ClaimedFirst P T ev) : BlockedWhereItRuns P T ev := by
  rintro hdecides c last s hq
  obtain ⟨⟨judged, freshSeconds, hcall⟩, htext⟩ := hdecides
  have hpost : ev.post = ({ ev.pre with clock := ev.label.now } : Detector).decide P T judged
      freshSeconds := by
    unfold CallStep callAt at hstep
    split_ifs at hstep
    rw [hcall] at hstep
    exact (Option.some.inj hstep).symm
  have hclaim := hclaimed ⟨⟨judged, freshSeconds, hcall⟩, htext⟩ c last s hq
  obtain ⟨b, hget, hb⟩ := stopsCopies_decide (d := { ev.pre with clock := ev.label.now })
    htext hq hclaim judged freshSeconds
  rw [← hpost] at hget hb
  have hmem : b ∈ ev.post.blockList :=
    List.mem_map.mpr ⟨_, OrderedDict.get?_eq_some_iff.mp hget, rfl⟩
  refine ⟨b, hmem, hb.body, hb.channel, hb.unexpired, ?_⟩
  rintro e hchannel ⟨copy, hcopy, htexts⟩
  apply hb.blockMatches hchannel
  rw [htexts]
  exact textContains_of_shared hq.shared (mem_distinctTexts hcopy)

/-- **Blocked where it runs.** In every run of calls from a new detector in which each call of
`decide` meets the claims of its campaigns, each such call leaves its campaigns blocked where
they run. -/
theorem blockedWhereItRuns_of_claimedFirst {config : SpamConfig} {now : ℚ}
    {h : List CallEvent} {d : Detector}
    (hrun : Run (CallStep P T) (start config now) h d)
    (hclaimed : ∀ ev ∈ h, ClaimedFirst P T ev) : ∀ ev ∈ h, BlockedWhereItRuns P T ev := by
  intro ev hev
  obtain ⟨before, after, rfl⟩ := List.append_of_mem hev
  exact blockedWhereItRuns_step hrun.at_event.2.1 (hclaimed ev hev)

/-! ### A text that moves on -/

def townSquare : String := "8B3387E9C5CDEA6AC9E5EDBAA115CD72"

def backRoom : String := "11111111111111111111111111111111"

/-- Two protected channels, and text rules only. -/
def textRulesOnly : SpamConfig where
  mode := .protect
  tunables :=
    { dedupeEnabled := false
      repeatGuard := false
      enableHopRules := false
      enableRotationGuard := false
      autoLockdown := false
      holdLinks := .off
      detectUnreadable := false }
  channels := [⟨townSquare, true, by decide, by decide⟩, ⟨backRoom, true, by decide, by decide⟩]

/-- One text under some name on some channel. -/
def offer (ts : ℚ) (sender channel : String) : Call :=
  .ingest { ts := ts, path := [], sender := sender, text := "free tokens for all",
            channel := channel }

/-- The text runs on one channel and is blocked there. -/
def townSquareCalls : List TimedCall :=
  [⟨1, offer 1 "ann" townSquare⟩, ⟨2, offer 2 "bob" townSquare⟩, ⟨3, offer 3 "cor" townSquare⟩,
    ⟨3, .decide none 0⟩]

/-- Then it comes up on another channel. -/
def movingCalls : List TimedCall :=
  townSquareCalls ++ [⟨10, offer 10 "ann" backRoom⟩, ⟨10, .decide none 0⟩]

/-- Nothing is blocked yet, and everything that the campaigns ask for is for the one text on
the one channel. -/
def firstRuns (ev : CallEvent) : Bool :=
  match ev.label.call with
  | .decide _ _ =>
    (found ev).blocks.entries.isEmpty &&
      ((found ev).allCampaignOrders (fixedPrimitives []) plainTools).all (fun o =>
        o.body = .text "free tokens for all" && o.channel = some townSquare) &&
      (found ev).campaigns.all (fun c =>
        ((found ev).shared plainTools (distinctTexts c.events)).1 = some "free tokens for all" &&
          (newestCopy c).all (fun last => last.channel = townSquare))
  | _ => true

theorem claimedFirst_of_firstRuns (h : firstRuns ev = true) :
    ClaimedFirst (fixedPrimitives []) plainTools ev := by
  rintro ⟨⟨judged, freshSeconds, hcall⟩, _⟩ c last s hq
  unfold firstRuns at h
  rw [hcall] at h
  simp only [Bool.and_eq_true, List.all_eq_true, List.isEmpty_iff, decide_eq_true_eq] at h
  obtain ⟨⟨hempty, horders⟩, hcampaigns⟩ := h
  obtain ⟨hshared, hchannel⟩ := hcampaigns c hq.running
  obtain rfl := Option.some.inj (hq.shared.symm.trans hshared)
  rw [hq.newest] at hchannel
  constructor
  · intro b hb
    have hmem := OrderedDict.get?_eq_some_iff.mp hb
    rw [hempty] at hmem
    exact absurd hmem List.not_mem_nil
  · intro _ o ho
    have hmem := (of_firstTaker ho).1
    obtain ⟨hbody, hon⟩ := horders o hmem
    have hlast : last.channel = townSquare := by simpa using hchannel
    rw [hlast]
    exact ⟨hbody, hon⟩

/-- The first run of the text is blocked where it runs. -/
theorem blockedWhereItRuns_townSquare :
    ∃ h d, Run (CallStep (fixedPrimitives []) plainTools) (start textRulesOnly 0) h d ∧
      h.map RtfmEv.Lib.Event.label = townSquareCalls ∧
      (∀ ev ∈ h, BlockedWhereItRuns (fixedPrimitives []) plainTools ev) ∧
      d.blockList.map Block.channel = [some townSquare] := by
  obtain ⟨h, d, hrun, hlabels, hcheck⟩ := Run.exists_of_trace
    (callAt (fixedPrimitives []) plainTools) (start textRulesOnly 0) townSquareCalls
    (fun r => r.1.all firstRuns &&
      Decidable.decide (r.2.blockList.map Block.channel = [some townSquare]))
    (by decide +kernel)
  obtain ⟨hfirst, hblocks⟩ := Bool.and_eq_true_iff.mp hcheck
  refine ⟨h, d, hrun, hlabels, ?_, of_decide_eq_true hblocks⟩
  exact blockedWhereItRuns_of_claimedFirst hrun (fun ev hev =>
    claimedFirst_of_firstRuns (List.all_eq_true.mp hfirst ev hev))

/-- The call finds the text running in the back room, and leaves no block there. -/
def missesBackRoom (ev : CallEvent) : Bool :=
  ev.pre.tunables.enableTextRules &&
    (found ev).campaigns.any (fun c =>
      c.confirmed && (newestCopy c).any (fun last =>
        last.channel = backRoom &&
          (found ev).clock - last.ts < (found ev).tunables.blockTtlSeconds &&
          ((found ev).shared plainTools (distinctTexts c.events)).1 =
            some "free tokens for all")) &&
    ((found ev).suppressed.get? (textKey (fixedPrimitives []) "free tokens for all")).getD 0 ≤
      (found ev).clock &&
    ((((found ev).blockCampaigns (fixedPrimitives []) plainTools).correctCampaigns
      (((found ev).blockCampaigns (fixedPrimitives []) plainTools).longEvents (found ev).clock)
      (found ev).clock).blocks.get?
        (textKey (fixedPrimitives []) "free tokens for all")).isSome &&
    ev.post.blockList.all (fun b => b.channel ≠ some backRoom)

theorem not_blockedWhereItRuns_of_misses {judged : Option Event}
    {freshSeconds : ℚ} (hcall : ev.label.call = .decide judged freshSeconds)
    (h : missesBackRoom ev = true) :
    ¬ BlockedWhereItRuns (fixedPrimitives []) plainTools ev := by
  intro hblocked
  unfold missesBackRoom at h
  simp only [Bool.and_eq_true, List.any_eq_true, List.all_eq_true, decide_eq_true_eq,
    Option.any_eq_true, Option.isSome_iff_ne_none] at h
  obtain ⟨⟨⟨⟨htext, c, hc, hconfirmed, last, hlast, ⟨hchannel, hyoung⟩, hshared⟩, hallowed⟩,
    hkept⟩, hnone⟩ := h
  obtain ⟨b, hb, _, hon, _⟩ := hblocked ⟨⟨judged, freshSeconds, hcall⟩, htext⟩ c last
    "free tokens for all" ⟨hc, hconfirmed, hlast, hshared, hallowed, hyoung, hkept⟩
  exact hnone b hb (hchannel ▸ hon)

/-- The text that moves on is blocked on the first channel only. -/
theorem not_forall_blockedWhereItRuns :
    ¬ ∀ (P : Primitives) (T : TextTools) (config : SpamConfig) (now : ℚ) (h : List CallEvent)
        (d : Detector), Run (CallStep P T) (start config now) h d →
      ∀ ev ∈ h, BlockedWhereItRuns P T ev := by
  intro hall
  obtain ⟨h, d, hrun, hlabels, hcheck⟩ := Run.exists_of_trace
    (callAt (fixedPrimitives []) plainTools) (start textRulesOnly 0) movingCalls
    (fun r => r.1.getLast?.any missesBackRoom) (by decide +kernel)
  obtain ⟨ev, hlast, hmisses⟩ := (Option.any_eq_true _ _).mp hcheck
  have hlabel : ev.label = ⟨10, .decide none 0⟩ := by
    have hmap := congrArg List.getLast? hlabels
    rw [List.getLast?_map, hlast] at hmap
    exact Option.some.inj hmap
  have hcall : ev.label.call = .decide none 0 := by rw [hlabel]
  exact not_blockedWhereItRuns_of_misses hcall hmisses
    (hall _ _ _ _ h d hrun ev (List.mem_of_getLast? hlast))

end Detector

end RtfmEv.Spam
