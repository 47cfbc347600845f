import RtfmEv.Spam.Containment

/-!
# The rule budget

The rules of a rule set are those of the longest runs that fit under
`max_total_rules`, whole blocks at a time: of the listed bot channels, of the
blocks before the user's rules, and of the gated blocks, newest first. A channel
that is listed twice gets two known-people rules, which the dry run counts as one.
-/

namespace RtfmEv.Spam

open RtfmEv.Lib

/-! ### What has a claim to a rule -/

section

variable (d : Detector) (dialect : Dialect) (channels : Option (List String))
  (botSenders : List String)

/-- The channels that get a bot list rule, if there are names to list. -/
def listedBots : List String :=
  if botNames dialect botSenders = [] then [] else botChannels d (renderedChannels d channels)

/-- The blocks with rules before the user's, in order. -/
def plainBlocks : List Block := (activeBlocks d channels).filter (fun b => !d.gated b)

/-- The gated blocks, newest first. -/
def gatedNewest : List Block :=
  ((activeBlocks d channels).filter d.gated).insertionSort (fun a b => b.created ≤ a.created)

/-- The order in which gated blocks are rendered. -/
def oldestFirst (bs : List Block) : List Block :=
  bs.insertionSort (fun a b => a.created ≤ b.created)

/-- The room that is left when what fits is taken in order, until something does not. -/
def roomAfter : ℕ → List ℕ → ℕ
  | room, [] => room
  | room, n :: rest => if n ≤ room then roomAfter (room - n) rest else room

/-- The room that bots and blocks before the user's rules leave for the gated blocks. -/
def gatedRoom : ℕ :=
  roomAfter (d.tunables.maxTotalRules - (listedBots d dialect channels botSenders).length)
    ((plainBlocks d channels).map (plainSize d dialect))

/-- Gated blocks that fit with each of their channels counted once also fit with a
channel counted as often as it is listed. -/
def FitsAsListed : Prop :=
  ∀ bs, bs <+: gatedNewest d channels →
    blockRules d (renderedChannels d channels) bs +
        (knownChannels (renderedChannels d channels) bs).dedup.length ≤
      gatedRoom d dialect channels botSenders →
    blockRules d (renderedChannels d channels) bs +
        (knownChannels (renderedChannels d channels) bs).length ≤
      gatedRoom d dialect channels botSenders

end

/-- It is so when no channel that may appear in a rule is listed twice. -/
theorem fitsAsListed_of_nodup {d : Detector} {dialect : Dialect}
    {channels : Option (List String)} {botSenders : List String}
    (h : (renderedChannels d channels).Nodup) : FitsAsListed d dialect channels botSenders := by
  intro bs _ hfits
  have hknown : (knownChannels (renderedChannels d channels) bs).Nodup := h.filter _
  rwa [hknown.dedup] at hfits

/-! ### What a rule set stands for -/

/-- A rule without its id. -/
def SpamRule.text (r : SpamRule) : String × List RuleTest × RuleAction :=
  (r.name, r.conditions, r.action)

section

variable (P : Primitives) (d : Detector) (dialect : Dialect)

def draftText (draft : Draft) : String × List RuleTest × RuleAction :=
  (dialect.rule P [] draft).text

/-- All rules of a gated block. -/
def gatedRules (channelKeys : List String) (b : Block) : Option (List Draft) :=
  match b.body with
  | .suffix suffix => some (suffixDrafts d b suffix)
  | _ => gatedBlock P dialect b channelKeys

/-- The channels and blocks that a rule set has the rules of. -/
structure Plan where
  bots : List String
  plains : List Block
  gated : List Block

/-- A rule set keeps to the budget with the channels and blocks of a plan. -/
structure Plan.Fills (plan : Plan) (channels : Option (List String)) (botSenders : List String)
    (out : RuleSet) : Prop where
  within : out.before.length + out.after.length ≤ d.tunables.maxTotalRules
  bots : LongestPrefix (fun keys => keys.length ≤ d.tunables.maxTotalRules)
    (listedBots d dialect channels botSenders) plan.bots
  plains : LongestPrefix (fun bs => plan.bots.length +
    (bs.flatMap (plainDrafts P d dialect)).length ≤ d.tunables.maxTotalRules)
    (plainBlocks d channels) plan.plains
  before : ∃ drafts, plan.bots.mapM (fun key =>
      botsDraft P dialect key (botNames dialect botSenders)) = some drafts ∧
    out.before.map SpamRule.text =
      (drafts ++ plan.plains.flatMap (plainDrafts P d dialect)).map (draftText P dialect)
  /-- the newest gated blocks that fit, by the rules that are made of them -/
  newest : LongestPrefix (fun bs => ∃ drafts,
      gatedDrafts P d dialect (renderedChannels d channels) (oldestFirst bs) = some drafts ∧
        out.before.length + drafts.length ≤ d.tunables.maxTotalRules)
    (gatedNewest d channels) plan.gated
  after : ∃ drafts, gatedDrafts P d dialect (renderedChannels d channels)
      (oldestFirst plan.gated) = some drafts ∧
    out.after.map SpamRule.text = drafts.map (draftText P dialect)
  /-- all rules of a block are there -/
  whole : ∀ b ∈ plan.gated, ∃ drafts,
    gatedRules P d dialect (renderedChannels d channels) b = some drafts ∧
      ∀ draft ∈ drafts, draftText P dialect draft ∈ out.after.map SpamRule.text
  /-- with the known-people rules of the channels that it covers -/
  people : ∀ b ∈ plan.gated, ∀ key ∈ neededChannels (renderedChannels d channels) b,
    ∃ draft, knownPeople P dialect d.knownNames key = some draft ∧
      draftText P dialect draft ∈ out.after.map SpamRule.text
  truncated : out.truncated = true ↔ plan.bots ≠ listedBots d dialect channels botSenders ∨
    plan.plains ≠ plainBlocks d channels ∨ plan.gated ≠ gatedNewest d channels

/-- Nothing is rendered in Monitor mode or while paused, else the rules fill the budget. -/
def KeepsBudget (preview : Bool) (channels : Option (List String)) (botSenders : List String)
    (out : RuleSet) : Prop :=
  (Idle d preview → out = {}) ∧
    (¬ Idle d preview → ∃ plan : Plan, plan.Fills P d dialect channels botSenders out)

end

section

variable {P : Primitives} {d : Detector} {dialect : Dialect} {channels : Option (List String)}
  {botSenders channelKeys names keys : List String} {limit : ℕ} {before drafts : List Draft}
  {bs blocks kept : List Block} {out : List Draft × Bool} {b : Block} {key : String}

/-! ### Rules and drafts -/

theorem map_text_number (used : List RuleId) (drafts : List Draft) :
    (dialect.number P used drafts).map SpamRule.text = drafts.map (draftText P dialect) := by
  induction drafts generalizing used with
  | nil => rfl
  | cons draft drafts ih =>
    show _ :: _ = _ :: _
    rw [ih]
    rfl

/-- The rules before the user's are those of the drafts before. -/
theorem before_ruleSet (drafts : Drafts) :
    (drafts.ruleSet P dialect).before.map SpamRule.text =
      drafts.before.map (draftText P dialect) := by
  show ((dialect.number P [] _).take _).map _ = _
  rw [List.map_take, map_text_number, List.append_assoc, List.map_append]
  exact List.take_left' (List.length_map _)

theorem after_ruleSet (drafts : Drafts) :
    (drafts.ruleSet P dialect).after.map SpamRule.text =
      drafts.after.map (draftText P dialect) := by
  show ((dialect.number P [] _).drop _).map _ = _
  rw [List.map_drop, map_text_number, List.map_append]
  exact List.drop_left' (by rw [List.length_map, List.length_append])

theorem length_before_ruleSet (drafts : Drafts) :
    (drafts.ruleSet P dialect).before.length = drafts.before.length := by
  rw [← List.length_map (f := SpamRule.text), before_ruleSet, List.length_map]

theorem length_after_ruleSet (drafts : Drafts) :
    (drafts.ruleSet P dialect).after.length = drafts.after.length := by
  rw [← List.length_map (f := SpamRule.text), after_ruleSet, List.length_map]

/-! ### Bots -/

/-- The bot list loop makes a rule for each channel, while there is room. -/
theorem botsLoop_eq
    (h : botsLoop P dialect names limit keys before = some out) (hroom : before.length ≤ limit) :
    (∃ drafts, (keys.take (limit - before.length)).mapM
        (fun key => botsDraft P dialect key names) = some drafts ∧ out.1 = before ++ drafts) ∧
      (out.2 = true ↔ limit - before.length < keys.length) := by
  induction keys generalizing before with
  | nil =>
    obtain rfl := Option.some.inj h
    exact ⟨⟨[], by simp, (List.append_nil before).symm⟩, by simp⟩
  | cons key rest ih =>
    rw [botsLoop] at h
    by_cases hfull : before.length ≥ limit
    · rw [if_pos hfull] at h
      obtain rfl := Option.some.inj h
      have hzero : limit - before.length = 0 := by omega
      rw [hzero]
      exact ⟨⟨[], by simp, (List.append_nil before).symm⟩, by simp⟩
    · rw [if_neg hfull] at h
      cases hbots : botsDraft P dialect key names with
      | none => rw [hbots] at h; exact absurd h (by simp)
      | some made =>
        rw [hbots] at h
        have hlength : (before ++ [made]).length = before.length + 1 := by simp
        obtain ⟨⟨drafts, hdrafts, hout⟩, hflag⟩ := ih h (by omega)
        have hsucc : limit - before.length = limit - (before ++ [made]).length + 1 := by omega
        rw [hsucc, List.take_succ_cons, List.mapM_cons, hbots, hdrafts, List.length_cons]
        refine ⟨⟨made :: drafts, rfl, by rw [hout, List.append_assoc]; rfl⟩, ?_⟩
        rw [hflag]
        omega

/-- **The bot list rules**: as many of the listed channels as there may be. -/
theorem botsBefore_eq (h : botsBefore P dialect (botNames dialect botSenders) limit
      (botChannels d (renderedChannels d channels)) = some out) :
    ((listedBots d dialect channels botSenders).take limit).mapM
        (fun key => botsDraft P dialect key (botNames dialect botSenders)) = some out.1 ∧
      (out.2 = true ↔ limit < (listedBots d dialect channels botSenders).length) := by
  rw [botsBefore] at h
  rw [listedBots]
  by_cases hnames : botNames dialect botSenders = []
  · rw [if_pos hnames] at h ⊢
    obtain rfl := Option.some.inj h
    exact ⟨by simp, by simp⟩
  · rw [if_neg hnames] at h ⊢
    obtain ⟨⟨drafts, hdrafts, hout⟩, hflag⟩ := botsLoop_eq h (Nat.zero_le _)
    rw [List.nil_append] at hout
    rw [hout]
    exact ⟨hdrafts, hflag⟩

/-! ### Blocks before the user's rules -/

theorem length_plainDrafts (h : plain P d dialect b = some drafts) :
    (plainDrafts P d dialect b).length = plainSize d dialect b := by
  rw [plainDrafts, h, Option.getD_some, length_plain h]

/-- **The loop over the blocks**: it takes the longest run of blocks whose rules fit,
leaves the room that the sizes of the blocks say, and knows whether a block was left. -/
theorem plainLoop_longest {out : List Draft × List Draft × Bool}
    (h : plainLoop P d dialect limit blocks before = some out) (hroom : before.length ≤ limit) :
    LongestPrefix (fun bs => before.length +
        (bs.flatMap (plainDrafts P d dialect)).length ≤ limit)
      (blocks.filter (fun b => !d.gated b)) (keptPlain P d dialect limit blocks before.length) ∧
    out.1.length ≤ limit ∧
    limit - out.1.length = roomAfter (limit - before.length)
      ((blocks.filter (fun b => !d.gated b)).map (plainSize d dialect)) ∧
    (out.2.2 = true ↔ keptPlain P d dialect limit blocks before.length ≠
      blocks.filter (fun b => !d.gated b)) := by
  induction blocks generalizing before with
  | nil =>
    obtain rfl := Option.some.inj h
    exact ⟨LongestPrefix.nil (by simpa using hroom), hroom, rfl, by simp [keptPlain]⟩
  | cons b rest ih =>
    rw [plainLoop] at h
    rw [keptPlain, List.filter_cons]
    by_cases hgated : d.gated b = true
    · rw [if_pos hgated] at h ⊢
      rw [if_neg (by simp [hgated])]
      exact ih h hroom
    · rw [if_neg hgated] at h ⊢
      rw [if_pos (by simp [hgated]), List.map_cons]
      cases hplain : plain P d dialect b with
      | none => rw [hplain] at h; exact absurd h (by simp)
      | some drafts =>
        rw [hplain] at h
        have hsize := length_plain hplain
        have hown := length_plainDrafts hplain
        dsimp only at h ⊢
        by_cases hfull : before.length + drafts.length > limit
        · rw [if_pos hfull] at h ⊢
          obtain rfl := Option.some.inj h
          refine ⟨LongestPrefix.stop ?_ (by simpa using hroom) ?_, hroom, ?_, by simp⟩
          · intro zs hzs
            simp only [List.flatMap_cons, List.length_append, List.flatMap_nil,
              List.length_nil] at hzs ⊢
            omega
          · simp only [List.flatMap_cons, List.length_append, List.flatMap_nil,
              List.length_nil]
            omega
          · rw [roomAfter, if_neg (by omega)]
        · rw [if_neg hfull] at h ⊢
          have hlength : (before ++ drafts).length = before.length + drafts.length :=
            List.length_append
          obtain ⟨hlongest, hout, hleft, hflag⟩ := ih h (by omega)
          rw [hlength] at hlongest hleft hflag
          refine ⟨LongestPrefix.cons (hlongest.congr ?_), hout, ?_, ?_⟩
          · intro zs _
            rw [List.flatMap_cons, List.length_append]
            omega
          · rw [hleft, roomAfter, if_pos (by omega), ← hsize, Nat.sub_sub]
          · rw [hflag, ne_eq, ne_eq, List.cons_inj_right]

/-! ### Gated blocks -/

theorem gatedBlock_eq_nil (h : neededChannels channelKeys b = []) :
    gatedBlock P dialect b channelKeys = some [] := by
  rw [gatedBlock]
  induction channelKeys with
  | nil => rfl
  | cons key keys ih =>
    rw [neededChannels, List.filter_cons] at h
    split_ifs at h with hcovers
    have hnone : gatedOn P dialect b key = some [] := by rw [gatedOn, if_neg hcovers]
    obtain ⟨lists, hlists, hflat⟩ := Option.map_eq_some_iff.mp (ih h)
    rw [List.mapM_cons, hnone, hlists]
    exact congrArg some hflat

/-- All rules of every gated block are among the drafts after the user's rules. -/
theorem gatedRules_subset
    (h : gatedDrafts P d dialect channelKeys bs = some drafts) (hb : b ∈ bs) :
    ∃ own, gatedRules P d dialect channelKeys b = some own ∧ ∀ draft ∈ own, draft ∈ drafts := by
  have hsuffix : ∀ suffix, b.body = .suffix suffix → ∀ draft ∈ suffixDrafts d b suffix,
      draft ∈ drafts := fun _ hbody _ => mem_gatedDrafts_suffix h hb hbody
  simp only [gatedDrafts, Option.pure_def, Option.bind_eq_bind, Option.bind_eq_some_iff,
    Option.some.injEq] at h
  obtain ⟨people, -, blocks, hblocks, rfl⟩ := h
  have hother : b.body.isSuffix = false →
      ∃ own, gatedBlock P dialect b channelKeys = some own ∧ ∀ draft ∈ own,
        draft ∈ people ++ blocks.flatten := by
    intro hkind
    rw [gatedBlocks] at hblocks
    by_cases hnone : knownChannels channelKeys bs = []
    · refine ⟨[], gatedBlock_eq_nil ?_, by simp⟩
      refine List.eq_nil_iff_forall_not_mem.mpr (fun key hkey => ?_)
      obtain ⟨hin, hcovers⟩ := mem_neededChannels.mp hkey
      exact (List.eq_nil_iff_forall_not_mem.mp hnone key)
        (mem_knownChannels.mpr ⟨hin, b, hb, hcovers⟩)
    · rw [if_neg hnone] at hblocks
      obtain ⟨own, hown, hmade⟩ := exists_mem_of_mapM hblocks
        (List.mem_filter.mpr ⟨hb, by simpa using hkind⟩)
      exact ⟨own, hmade, fun draft hdraft =>
        List.mem_append_right _ (List.mem_flatten.mpr ⟨own, hown, hdraft⟩)⟩
  rw [gatedRules]
  cases hbody : b.body with
  | suffix suffix => exact ⟨_, rfl, fun draft hdraft => hsuffix suffix hbody _ hdraft⟩
  | _ =>
    obtain ⟨own, hmade, hsub⟩ := hother (by rw [hbody]; rfl)
    exact ⟨own, hmade, fun draft hdraft => List.mem_append_left _ (hsub draft hdraft)⟩

theorem knownPeople_mem
    (h : gatedDrafts P d dialect channelKeys bs = some drafts) (hb : b ∈ bs) (hkey : key ∈ neededChannels channelKeys b) :
    ∃ draft, knownPeople P dialect d.knownNames key = some draft ∧ draft ∈ drafts := by
  simp only [gatedDrafts, Option.pure_def, Option.bind_eq_bind, Option.bind_eq_some_iff,
    Option.some.injEq] at h
  obtain ⟨people, hpeople, blocks, -, rfl⟩ := h
  obtain ⟨hin, hcovers⟩ := mem_neededChannels.mp hkey
  obtain ⟨draft, hdraft, hmade⟩ := exists_mem_of_mapM hpeople
    (mem_knownChannels.mpr ⟨hin, b, hb, hcovers⟩)
  exact ⟨draft, hmade, List.mem_append_left _ (List.mem_append_left _ hdraft)⟩

/-! ### The whole rule set -/

theorem ne_iff_length_lt {α : Type*} {xs ys : List α} (h : xs <+: ys) :
    xs ≠ ys ↔ xs.length < ys.length := by
  constructor
  · intro hne
    rcases h.length_le.lt_or_eq with hlt | heq
    · exact hlt
    · exact absurd (h.eq_of_length heq) hne
  · intro hlt heq
    rw [heq] at hlt
    exact lt_irrefl _ hlt

/-- The dry run, counted with every channel once. -/
theorem fitGated_longest {room : ℕ}
    (h : fitLoop P d dialect channelKeys (gatedNewest d channels) room [] = some kept) :
    LongestPrefix (fun bs => blockRules d channelKeys bs +
      (knownChannels channelKeys bs).dedup.length ≤ room) (gatedNewest d channels) kept := by
  refine (fitLoop_longest h).congr ?_
  intro bs _
  have hnew : newChannels channelKeys [] bs = (knownChannels channelKeys bs).dedup := by
    rw [newChannels, List.filter_eq_self.mpr (by simp)]
  rw [hnew]

/-- A run that the dry run takes fits as listed, or not all runs do. -/
theorem fitsAsListed_iff
    (h : LongestPrefix (fun bs => blockRules d (renderedChannels d channels) bs +
      (knownChannels (renderedChannels d channels) bs).dedup.length ≤
        gatedRoom d dialect channels botSenders) (gatedNewest d channels) kept) :
    FitsAsListed d dialect channels botSenders ↔
      blockRules d (renderedChannels d channels) kept +
        (knownChannels (renderedChannels d channels) kept).length ≤
          gatedRoom d dialect channels botSenders := by
  rw [FitsAsListed]
  refine h.forall_iff ?_
  intro bs bs' hpre hfits
  have hrules := blockRules_le d (renderedChannels d channels) hpre
  have hknown := knownChannels_length_le (renderedChannels d channels) hpre
  omega

/-- The order of the blocks does not change how many rules they make. -/
theorem length_gatedDrafts_oldestFirst
    (h : gatedDrafts P d dialect channelKeys (oldestFirst bs) = some drafts) :
    drafts.length = blockRules d channelKeys bs + (knownChannels channelKeys bs).length := by
  have hperm : (oldestFirst bs).Perm bs := bs.perm_insertionSort _
  rw [length_gatedDrafts h, blockRules_perm hperm, knownChannels_perm hperm]

/-- **Outside Monitor mode** the rules keep to the budget exactly when the gated blocks
that fit with each channel counted once fit as the channels are listed. -/
theorem fills_iff {drafts : Drafts}
    (h : renderDrafts P d dialect channels botSenders = some drafts) :
    (∃ plan : Plan, plan.Fills P d dialect channels botSenders (drafts.ruleSet P dialect)) ↔
      FitsAsListed d dialect channels botSenders := by
  simp only [renderDrafts, Option.pure_def, Option.bind_eq_bind, Option.bind_eq_some_iff,
    Option.some.injEq] at h
  obtain ⟨bots, hbots, plains, hplains, gated, hgated, after, hafter, rfl⟩ := h
  obtain ⟨kept, hkept, rfl⟩ := Option.map_eq_some_iff.mp hgated
  -- before the user's rules
  obtain ⟨hbotDrafts, hbotFlag⟩ := botsBefore_eq hbots
  have hbotLength := length_mapM hbotDrafts
  have hbotMin := hbotLength
  rw [List.length_take] at hbotMin
  obtain ⟨hplainLongest, hbefore, hleft, hplainFlag⟩ := plainLoop_longest hplains (by omega)
  have hroom : d.tunables.maxTotalRules - plains.1.length =
      gatedRoom d dialect channels botSenders := by
    rw [hleft, gatedRoom, plainBlocks]
    congr 1
    omega
  -- after them
  rw [hroom] at hkept
  have honce := fitGated_longest hkept
  have hafterLength := length_gatedDrafts_oldestFirst hafter
  rw [fitsAsListed_iff honce]
  constructor
  · intro hfills
    obtain ⟨plan, hplan⟩ := hfills
    have hwithin := hplan.within
    rw [length_before_ruleSet, length_after_ruleSet] at hwithin
    dsimp only at hwithin
    omega
  · intro hfits
    have hnewest : LongestPrefix (fun bs => ∃ drafts,
        gatedDrafts P d dialect (renderedChannels d channels) (oldestFirst bs) = some drafts ∧
          plains.1.length + drafts.length ≤ d.tunables.maxTotalRules)
        (gatedNewest d channels) kept := by
      refine (honce.narrow_iff ?_).mpr ⟨after, hafter, by omega⟩
      intro bs hbs
      obtain ⟨drafts, hdrafts, hle⟩ := hbs
      have hlength := length_gatedDrafts_oldestFirst hdrafts
      have hdedup := (knownChannels (renderedChannels d channels) bs).dedup_sublist.length_le
      omega
    refine ⟨⟨(listedBots d dialect channels botSenders).take d.tunables.maxTotalRules,
      keptPlain P d dialect d.tunables.maxTotalRules (activeBlocks d channels) bots.1.length,
      kept⟩, ?_⟩
    constructor
    case within =>
      rw [length_before_ruleSet, length_after_ruleSet]
      dsimp only
      omega
    case bots => exact LongestPrefix.take _ _
    case plains =>
      rw [← hbotLength]
      exact hplainLongest
    case before =>
      refine ⟨bots.1, hbotDrafts, ?_⟩
      rw [before_ruleSet, plainLoop_eq hplains]
    case newest =>
      rw [length_before_ruleSet]
      exact hnewest
    case after => exact ⟨after, hafter, after_ruleSet _⟩
    case whole =>
      intro b hb
      obtain ⟨own, hown, hsub⟩ := gatedRules_subset hafter
        ((kept.perm_insertionSort _).mem_iff.mpr hb)
      refine ⟨own, hown, fun draft hdraft => ?_⟩
      rw [after_ruleSet]
      exact List.mem_map_of_mem (hsub draft hdraft)
    case people =>
      intro b hb key hkey
      obtain ⟨draft, hmade, hmem⟩ := knownPeople_mem hafter
        ((kept.perm_insertionSort _).mem_iff.mpr hb) hkey
      refine ⟨draft, hmade, ?_⟩
      rw [after_ruleSet]
      exact List.mem_map_of_mem hmem
    case truncated =>
      have hgatedFlag : kept ≠ gatedNewest d channels ↔
          (oldestFirst kept).length < ((activeBlocks d channels).filter d.gated).length := by
        rw [ne_iff_length_lt honce.isPrefix, oldestFirst, List.length_insertionSort,
          gatedNewest, List.length_insertionSort]
      have hbotsFlag : (listedBots d dialect channels botSenders).take d.tunables.maxTotalRules ≠
          listedBots d dialect channels botSenders ↔ bots.2 = true := by
        rw [hbotFlag, ne_eq, List.take_eq_self_iff, not_le]
      rw [hgatedFlag, hbotsFlag, plainBlocks, ← hplainFlag]
      show (bots.2 || plains.2.2 || decide _) = true ↔ _
      rw [Bool.or_eq_true, Bool.or_eq_true, decide_eq_true_iff, or_assoc]
      rfl

/-! ### A rule set is rendered -/

theorem isSome_fromHex {s : List Char} (hdigits : s.all isUpperHexDigit = true) (n : ℕ)
    (hlength : s.length = 2 * n) : (fromHex s).isSome := by
  induction n generalizing s with
  | zero =>
    rw [List.length_eq_zero_iff.mp hlength]
    rfl
  | succ n ih =>
    obtain ⟨a, b, rest, rfl⟩ : ∃ a b rest, s = a :: b :: rest := by
      match s, hlength with
      | a :: b :: rest, _ => exact ⟨a, b, rest, rfl⟩
    rw [List.all_cons, List.all_cons, Bool.and_eq_true, Bool.and_eq_true] at hdigits
    obtain ⟨ha, hb, hrest⟩ := hdigits
    have hdigit : ∀ c : Char, isUpperHexDigit c = true →
        isAsciiSpace c = false ∧ (hexValue c).isSome := by
      intro c hc
      have hall : ("0123456789ABCDEF".toList.all (fun c =>
          !isAsciiSpace c && (hexValue c).isSome)) = true := by decide
      have hdigit := List.all_eq_true.mp hall c (List.contains_iff_mem.mp hc)
      rwa [Bool.and_eq_true, Bool.not_eq_true'] at hdigit
    have hlow := (hdigit b hb).2
    obtain ⟨hspace, hhigh⟩ := hdigit a ha
    obtain ⟨high, hhigh⟩ := Option.isSome_iff_exists.mp hhigh
    obtain ⟨low, hlow⟩ := Option.isSome_iff_exists.mp hlow
    obtain ⟨bytes, hbytes⟩ := Option.isSome_iff_exists.mp
      (ih hrest (by simp only [List.length_cons] at hlength; omega))
    rw [fromHex, if_neg (by rw [hspace]; simp), hhigh, hlow, hbytes]
    rfl

theorem isSome_mapM {α β : Type} {f : α → Option β} {xs : List α}
    (h : ∀ x ∈ xs, (f x).isSome) : (xs.mapM f).isSome := by
  induction xs with
  | nil => rfl
  | cons x xs ih =>
    obtain ⟨y, hy⟩ := Option.isSome_iff_exists.mp (h x List.mem_cons_self)
    obtain ⟨ys, hys⟩ := Option.isSome_iff_exists.mp
      (ih (fun z hz => h z (List.mem_cons_of_mem _ hz)))
    rw [List.mapM_cons, hy, hys]
    rfl

theorem isSome_channelTest_of_hex (h : (fromHex key.toList).isSome) :
    (channelTest P dialect key).isSome := by
  cases dialect with
  | host => rw [channelTest, channelHashByte, Option.isSome_map, Option.isSome_map, h]
  | openhop => rfl

theorem isSome_channelTest_rendered (h : key ∈ renderedChannels d channels) :
    (channelTest P dialect key).isSome := by
  obtain ⟨c, -, rfl⟩ := mem_renderedChannels h
  rcases c.key_length with hlength | hlength
  · exact isSome_channelTest_of_hex (isSome_fromHex c.key_hex 16 hlength)
  · exact isSome_channelTest_of_hex (isSome_fromHex c.key_hex 32 hlength)

theorem isSome_botsLoop (h : ∀ key ∈ keys, (channelTest P dialect key).isSome) :
    (botsLoop P dialect names limit keys before).isSome := by
  induction keys generalizing before with
  | nil => rfl
  | cons key rest ih =>
    rw [botsLoop]
    split_ifs with hfull
    · rfl
    · obtain ⟨test, htest⟩ := Option.isSome_iff_exists.mp (h key List.mem_cons_self)
      rw [botsDraft, htest]
      exact ih (fun k hk => h k (List.mem_cons_of_mem _ hk))

theorem isSome_plainLoop (d : Detector) (limit : ℕ)
    (before : List Draft) (h : ∀ b ∈ blocks, (scopeTests P dialect b.channel).isSome) :
    (plainLoop P d dialect limit blocks before).isSome := by
  induction blocks generalizing before with
  | nil => rfl
  | cons b rest ih =>
    have hrest := fun c hc => h c (List.mem_cons_of_mem _ hc)
    obtain ⟨scope, hscope⟩ := Option.isSome_iff_exists.mp (h b List.mem_cons_self)
    rw [plainLoop]
    split_ifs with hgated
    · exact ih before hrest
    · rw [plain_eq, hscope]
      dsimp only [Option.map_some]
      split_ifs with hfull
      · rfl
      · exact ih _ hrest

theorem isSome_gatedBlock (h : ∀ key ∈ channelKeys, (channelTest P dialect key).isSome) :
    (gatedBlock P dialect b channelKeys).isSome := by
  rw [gatedBlock, Option.isSome_map]
  refine isSome_mapM (fun key hkey => ?_)
  rw [gatedOn]
  split_ifs with hcovers
  · rw [Option.isSome_map, h key hkey]
  · rfl

theorem isSome_fitLoop {budget : ℕ} {known : List String}
    (h : ∀ key ∈ channelKeys, (channelTest P dialect key).isSome) :
    (fitLoop P d dialect channelKeys blocks budget known).isSome := by
  induction blocks generalizing budget known with
  | nil => rfl
  | cons b rest ih =>
    have hcost : (gatedCost P d dialect channelKeys b).isSome := by
      rw [gatedCost]
      cases b.body with
      | suffix suffix => rfl
      | _ => rw [Option.isSome_map, isSome_gatedBlock h]
    obtain ⟨cost, hcost⟩ := Option.isSome_iff_exists.mp hcost
    rw [fitLoop, hcost]
    show (if _ then _ else _ : Option (List Block)).isSome
    split_ifs with hover
    · rfl
    · rw [Option.isSome_map, ih]

theorem isSome_gatedDrafts (d : Detector) (bs : List Block)
    (h : ∀ key ∈ channelKeys, (channelTest P dialect key).isSome) :
    (gatedDrafts P d dialect channelKeys bs).isSome := by
  have hpeople : ((knownChannels channelKeys bs).mapM
      (knownPeople P dialect d.knownNames)).isSome := by
    refine isSome_mapM (fun key hkey => ?_)
    rw [knownPeople, Option.isSome_map, h key (mem_knownChannels.mp hkey).1]
  obtain ⟨people, hpeople⟩ := Option.isSome_iff_exists.mp hpeople
  have hblocks : (gatedBlocks P dialect channelKeys bs).isSome := by
    rw [gatedBlocks]
    split_ifs with hnone
    · rfl
    · exact isSome_mapM (fun b _ => isSome_gatedBlock h)
  obtain ⟨blocks, hblocks⟩ := Option.isSome_iff_exists.mp hblocks
  rw [gatedDrafts, hpeople, hblocks]
  rfl

/-- **Rendering does not fail** when the channels of the blocks are hexadecimal. -/
theorem isSome_renderDrafts
    (h : ∀ b ∈ activeBlocks d channels, (scopeTests P dialect b.channel).isSome) :
    (renderDrafts P d dialect channels botSenders).isSome := by
  have hkeys : ∀ key ∈ renderedChannels d channels, (channelTest P dialect key).isSome :=
    fun key hkey => isSome_channelTest_rendered hkey
  have hbots : (botsBefore P dialect (botNames dialect botSenders) d.tunables.maxTotalRules
      (botChannels d (renderedChannels d channels))).isSome := by
    rw [botsBefore]
    split_ifs with hnames
    · rfl
    · exact isSome_botsLoop (fun key hkey => hkeys key (List.mem_filter.mp hkey).1)
  obtain ⟨bots, hbots⟩ := Option.isSome_iff_exists.mp hbots
  obtain ⟨plains, hplains⟩ := Option.isSome_iff_exists.mp
    (isSome_plainLoop d d.tunables.maxTotalRules bots.1 h)
  obtain ⟨gated, hgated⟩ : ∃ gated, fitGated P d dialect
      ((activeBlocks d channels).filter d.gated) (renderedChannels d channels)
      (d.tunables.maxTotalRules - plains.1.length) = some gated := by
    refine Option.isSome_iff_exists.mp ?_
    rw [fitGated, Option.isSome_map, isSome_fitLoop hkeys]
  obtain ⟨after, hafter⟩ := Option.isSome_iff_exists.mp
    (isSome_gatedDrafts d gated hkeys)
  rw [renderDrafts]
  dsimp only
  rw [hbots]
  simp only [Option.bind_eq_bind, Option.bind_some, hplains, hgated, hafter]
  rfl

/-- The rule set of a mode in which nothing is enforced is empty, and there is a rule set
in the others as well. -/
theorem isSome_render {preview : Bool}
    (h : ∀ b ∈ activeBlocks d channels, (scopeTests P dialect b.channel).isSome) :
    (render P d dialect preview channels botSenders).isSome := by
  rw [render]
  split_ifs with hidle
  · rfl
  · rw [Option.isSome_map, isSome_renderDrafts h]

/-! ### The budget -/

variable (P d dialect channels botSenders) in
/-- **The rule budget.** The rules, whole blocks at a time, keep to `max_total_rules` in
every state exactly when no run of gated blocks fits only because the known-people rule
of a channel that is listed twice is counted once. -/
theorem keepsBudget_iff (preview : Bool) :
    ((∀ b ∈ activeBlocks d channels, (scopeTests P dialect b.channel).isSome) →
      (render P d dialect preview channels botSenders).isSome) ∧
    ∀ out, render P d dialect preview channels botSenders = some out →
      (KeepsBudget P d dialect preview channels botSenders out ↔
        Idle d preview ∨ FitsAsListed d dialect channels botSenders) := by
  refine ⟨isSome_render, fun out h => ?_⟩
  rw [KeepsBudget]
  by_cases hidle : Idle d preview
  · rw [render, if_pos (by rw [Idle] at hidle; simpa using hidle)] at h
    obtain rfl := Option.some.inj h
    exact ⟨fun _ => Or.inl hidle, fun _ => ⟨fun _ => rfl, fun hno => absurd hidle hno⟩⟩
  · rw [render, if_neg (by rw [Idle] at hidle; simpa using hidle)] at h
    obtain ⟨drafts, hdrafts, rfl⟩ := Option.map_eq_some_iff.mp h
    rw [← fills_iff hdrafts]
    constructor
    · intro hkeeps
      exact Or.inr (hkeeps.2 hidle)
    · intro hor
      refine ⟨fun hyes => absurd hyes hidle, fun _ => ?_⟩
      rcases hor with hyes | hfills
      · exact absurd hyes hidle
      · exact hfills

end

/-! ### A channel that is listed twice -/

/-- A repeater that is blocked on seventeen exact paths. -/
def blockedPaths : Block :=
  { key := "hop:27"
    body := .hop "27"
    channel := none
    reason := "manual"
    source := .manual
    created := 0
    expires := 100
    «match» := some .exactPaths
    paths := ["01>27", "02>27", "03>27", "04>27", "05>27", "06>27", "07>27", "08>27", "09>27",
      "0A>27", "0B>27", "0C>27", "0D>27", "0E>27", "0F>27", "10>27", "11>27"] }

/-- Unknown people are held on every protected channel. -/
def lockedDown : Block :=
  { key := lockdownKey
    body := .lockdown
    channel := none
    reason := "lockdown"
    source := .lockdown
    created := 1
    expires := 100 }

/-- Protect mode with room for twenty rules. -/
def crowded (protectedChannels : List ProtectedChannel) : Detector :=
  { config := { mode := .protect, tunables := { maxTotalRules := 20 },
                channels := protectedChannels }
    clock := 2
    blocks := ⟨[(blockedPaths.key, blockedPaths), (lockedDown.key, lockedDown)], by decide⟩ }

/-- With one channel that is listed once, the rules keep to the budget. -/
theorem keepsBudget_crowded :
    ∃ out, render publicHash (crowded [publicChannel]) .host false none [] = some out ∧
      KeepsBudget publicHash (crowded [publicChannel]) .host false none [] out := by
  have hactive : ∀ b ∈ activeBlocks (crowded [publicChannel]) none,
      (scopeTests publicHash .host b.channel).isSome := by
    decide +kernel
  obtain ⟨hsome, hiff⟩ := keepsBudget_iff publicHash (crowded [publicChannel]) .host none [] false
  obtain ⟨out, hout⟩ := Option.isSome_iff_exists.mp (hsome hactive)
  have honce : (renderedChannels (crowded [publicChannel]) none).Nodup := List.nodup_singleton _
  exact ⟨out, hout, (hiff out hout).mpr (Or.inr (fitsAsListed_of_nodup honce))⟩

theorem length_crowded :
    (render publicHash (crowded [publicChannel, publicChannel]) .host false none []).map
      (fun out => (out.before.length, out.after.length)) = some (17, 4) := by
  decide +kernel

/-- **More rules than the budget**: the dry run counts one known-people rule for the two
entries of the channel, and `render` makes two. -/
theorem not_forall_keepsBudget :
    ¬ ∀ (P : Primitives) (d : Detector) (dialect : Dialect) (preview : Bool)
      (channels : Option (List String)) (botSenders : List String) (out : RuleSet),
      render P d dialect preview channels botSenders = some out →
        KeepsBudget P d dialect preview channels botSenders out := by
  intro hall
  obtain ⟨out, hout, hlength⟩ := Option.map_eq_some_iff.mp length_crowded
  obtain ⟨plan, hplan⟩ := (hall _ _ _ _ _ _ out hout).2 (by simp [Idle, crowded])
  have hwithin := hplan.within
  obtain ⟨hbefore, hafter⟩ := Prod.mk.inj hlength
  rw [hbefore, hafter] at hwithin
  exact absurd hwithin (by decide)

end RtfmEv.Spam
