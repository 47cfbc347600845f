import RtfmEv.Spam.Render
import RtfmEv.Lib.Lists

/-!
# What is in a rendered rule set

The rules before the user's are the bot list rules and then the rules of the
blocks that do not let known people through, as many as there may be. The rules
after it are the known-people rules, the other blocks channel by channel and the
rotation blocks.
-/

namespace RtfmEv.Spam

open RtfmEv.Lib

/-! ### Lists of optional values -/

section

variable {α β : Type} {f : α → Option β}

theorem exists_of_mem_mapM {xs : List α} {ys : List β}
    (h : xs.mapM f = some ys) {y : β} (hy : y ∈ ys) : ∃ x ∈ xs, f x = some y := by
  induction xs generalizing ys with
  | nil =>
    obtain rfl : [] = ys := Option.some.inj h
    exact absurd hy List.not_mem_nil
  | cons x xs ih =>
    simp only [List.mapM_cons, Option.pure_def, Option.bind_eq_bind, Option.bind_eq_some_iff,
      Option.some.injEq] at h
    obtain ⟨z, hz, rest, hrest, rfl⟩ := h
    rcases List.mem_cons.mp hy with rfl | hmem
    · exact ⟨x, List.mem_cons_self, hz⟩
    · obtain ⟨u, hu, hfu⟩ := ih hrest hmem
      exact ⟨u, List.mem_cons_of_mem _ hu, hfu⟩

theorem exists_mem_of_mapM {xs : List α} {ys : List β}
    (h : xs.mapM f = some ys) {x : α} (hx : x ∈ xs) : ∃ y ∈ ys, f x = some y := by
  induction xs generalizing ys with
  | nil => exact absurd hx List.not_mem_nil
  | cons u xs ih =>
    simp only [List.mapM_cons, Option.pure_def, Option.bind_eq_bind, Option.bind_eq_some_iff,
      Option.some.injEq] at h
    obtain ⟨z, hz, rest, hrest, rfl⟩ := h
    rcases List.mem_cons.mp hx with rfl | hmem
    · exact ⟨z, List.mem_cons_self, hz⟩
    · obtain ⟨y, hy, hfy⟩ := ih hrest hmem
      exact ⟨y, List.mem_cons_of_mem _ hy, hfy⟩

end

section

variable {P : Primitives} {d : Detector} {dialect : Dialect}

/-! ### Ids -/

variable (P dialect) in
/-- Giving out ids keeps the tests and the actions. -/
theorem map_number (used : List RuleId) (drafts : List Draft) :
    (dialect.number P used drafts).map (fun r => (r.conditions, r.action)) =
      drafts.map (fun draft => (dialect.conditions draft, draft.action)) := by
  induction drafts generalizing used with
  | nil => rfl
  | cons draft drafts ih =>
    show _ :: _ = _ :: _
    rw [ih]
    rfl

variable (P dialect) in
/-- The rules of a rule set are those of its drafts before and after. -/
theorem map_ruleSet (drafts : Drafts) :
    ((drafts.ruleSet P dialect).rules).map (fun r => (r.conditions, r.action)) =
      (drafts.before ++ drafts.after).map
        (fun draft => (dialect.conditions draft, draft.action)) := by
  have hnumber := map_number P dialect []
    (drafts.before ++ drafts.discarded ++ drafts.after)
  rw [RuleSet.rules, List.map_append]
  show ((dialect.number P [] _).take _).map _ ++ ((dialect.number P [] _).drop _).map _ = _
  rw [List.map_take, List.map_drop, hnumber]
  simp only [List.map_append]
  congr 1
  · rw [List.append_assoc]
    exact List.take_left' (List.length_map _)
  · exact List.drop_left' (by rw [List.length_append, List.length_map, List.length_map])

/-! ### The rules of a block before the user's -/

/-- What the rules of a block test besides group text and the channel, with the keys
of the rules. -/
def ownTests (d : Detector) (dialect : Dialect) (b : Block) : List (String × List RuleTest) :=
  match b.body with
  | .hop h =>
    match d.hopMode b with
    | .exactPaths => b.paths.map (fun path =>
      (b.key ++ ":" ++ path, [cond .pathHashes .equals (.texts (splitRoute path))]))
    | .startsAt =>
      match dialect with
      | .host => [(b.key, [cond .pathFirst .equals (.text (lowerAscii h))])]
      | .openhop => []
    | _ => [(b.key, [pathContains h])]
  | body => [(b.key, body.pieces.map bodyContains ++ senderTests b)]

/-- **The rules of a block that does not let known people through.** -/
theorem plain_eq (b : Block) :
    plain P d dialect b = (scopeTests P dialect b.channel).map (fun scope =>
      (ownTests d dialect b).map (fun own => blockDraft b own.1 (scope ++ own.2) .drop)) := by
  rw [plain]
  congr 1
  funext scope
  unfold ownTests
  cases b.body with
  | hop h =>
    dsimp only
    unfold hopDrafts
    cases d.hopMode b with
    | exactPaths => simp only [List.map_map, Function.comp_def]
    | startsAt => cases dialect <;> rfl
    | contains => rfl
    | containsKnown => rfl
  | _ => simp only [List.map_cons, List.map_nil, List.append_assoc]

variable {b : Block} {limit : ℕ} {draft : Draft} {drafts before : List Draft}
  {blocks gated : List Block} {names channelKeys : List String}

theorem senderTests_field {t : RuleTest} (h : t ∈ senderTests b) :
    t.field = .channelSender := by
  rw [senderTests] at h
  cases hsender : b.sender with
  | none => rw [hsender] at h; exact absurd h List.not_mem_nil
  | some sender =>
    rw [hsender] at h
    dsimp only at h
    by_cases hempty : sender = ""
    · rw [if_pos hempty] at h
      exact absurd h List.not_mem_nil
    · rw [if_neg hempty] at h
      rw [List.mem_singleton.mp h]
      rfl

theorem ownTests_field {own : String × List RuleTest}
    (h : own ∈ ownTests d dialect b) {t : RuleTest} (ht : t ∈ own.2) :
    t.field ≠ .channelHash ∧ t.field ≠ .localTransmission := by
  have hopinion : ∀ body : BlockBody,
      t ∈ body.pieces.map bodyContains ++ senderTests b →
      t.field ≠ .channelHash ∧ t.field ≠ .localTransmission := by
    intro body hmem
    rcases List.mem_append.mp hmem with hpiece | hsender
    · obtain ⟨piece, -, rfl⟩ := List.mem_map.mp hpiece
      simp [bodyContains, cond]
    · simp [senderTests_field hsender]
  unfold ownTests at h
  cases hbody : b.body with
  | hop h' =>
    rw [hbody] at h
    dsimp only at h
    cases hmode : d.hopMode b with
    | exactPaths =>
      rw [hmode] at h
      obtain ⟨path, -, rfl⟩ := List.mem_map.mp h
      rw [List.mem_singleton.mp ht]
      simp [cond]
    | startsAt =>
      rw [hmode] at h
      cases dialect with
      | host =>
        rw [List.mem_singleton.mp h] at ht
        rw [List.mem_singleton.mp ht]
        simp [cond]
      | openhop => exact absurd h List.not_mem_nil
    | _ =>
      rw [hmode] at h
      rw [List.mem_singleton.mp h] at ht
      rw [List.mem_singleton.mp ht]
      simp [pathContains, cond]
  | _ =>
    rw [hbody] at h
    rw [List.mem_singleton.mp h] at ht
    exact hopinion _ ht

/-! ### Before the user's rules -/

/-- The blocks whose rules fit before the user's. -/
def keptPlain (P : Primitives) (d : Detector) (dialect : Dialect) (limit : ℕ) :
    List Block → ℕ → List Block
  | [], _ => []
  | b :: rest, n =>
    if d.gated b then keptPlain P d dialect limit rest n
    else
      match plain P d dialect b with
      | none => []
      | some drafts =>
        if n + drafts.length > limit then []
        else b :: keptPlain P d dialect limit rest (n + drafts.length)

/-- The rules of a block, none if it is not rendered. -/
def plainDrafts (P : Primitives) (d : Detector) (dialect : Dialect) (b : Block) : List Draft :=
  (plain P d dialect b).getD []

/-- The loop appends the rules of the blocks that fit. -/
theorem plainLoop_eq {out : List Draft × List Draft × Bool}
    (h : plainLoop P d dialect limit blocks before = some out) :
    out.1 = before ++
      (keptPlain P d dialect limit blocks before.length).flatMap (plainDrafts P d dialect) := by
  induction blocks generalizing before with
  | nil =>
    obtain rfl := Option.some.inj h
    exact (List.append_nil before).symm
  | cons b rest ih =>
    rw [plainLoop] at h
    rw [keptPlain]
    by_cases hgated : d.gated b = true
    · rw [if_pos hgated] at h ⊢
      exact ih h
    · rw [if_neg hgated] at h ⊢
      cases hplain : plain P d dialect b with
      | none => rw [hplain] at h; exact absurd h (by simp)
      | some drafts =>
        rw [hplain] at h
        dsimp only at h ⊢
        by_cases hfull : before.length + drafts.length > limit
        · rw [if_pos hfull] at h ⊢
          obtain rfl := Option.some.inj h
          exact (List.append_nil before).symm
        · rw [if_neg hfull] at h ⊢
          have hrest := ih h
          rw [List.length_append] at hrest
          rw [hrest, List.flatMap_cons, plainDrafts, hplain, Option.getD_some, List.append_assoc]

/-- A block that is kept does not let known people through and is rendered. -/
theorem mem_keptPlain {n : ℕ} (h : b ∈ keptPlain P d dialect limit blocks n) :
    b ∈ blocks ∧ d.gated b = false ∧ (plain P d dialect b).isSome := by
  induction blocks generalizing n with
  | nil => exact absurd h List.not_mem_nil
  | cons c rest ih =>
    rw [keptPlain] at h
    by_cases hgated : d.gated c = true
    · rw [if_pos hgated] at h
      obtain ⟨hmem, hb⟩ := ih h
      exact ⟨List.mem_cons_of_mem _ hmem, hb⟩
    · rw [if_neg hgated] at h
      cases hplain : plain P d dialect c with
      | none => rw [hplain] at h; exact absurd h List.not_mem_nil
      | some drafts =>
        rw [hplain] at h
        dsimp only at h
        split_ifs at h with hfull
        · exact absurd h List.not_mem_nil
        · rcases List.mem_cons.mp h with rfl | htail
          · exact ⟨List.mem_cons_self, by simpa using hgated, by rw [hplain]; rfl⟩
          · obtain ⟨hmem, hb⟩ := ih htail
            exact ⟨List.mem_cons_of_mem _ hmem, hb⟩

/-- The bot list loop appends rules for its channels. -/
theorem mem_botsLoop {keys : List String} {out : List Draft × Bool}
    (h : botsLoop P dialect names limit keys before = some out)
    (hdraft : draft ∈ out.1) :
    draft ∈ before ∨ ∃ key ∈ keys, botsDraft P dialect key names = some draft := by
  induction keys generalizing before with
  | nil =>
    obtain rfl := Option.some.inj h
    exact Or.inl hdraft
  | cons key rest ih =>
    rw [botsLoop] at h
    split_ifs at h with hfull
    · obtain rfl := Option.some.inj h
      exact Or.inl hdraft
    · cases hbots : botsDraft P dialect key names with
      | none => rw [hbots] at h; exact absurd h (by simp)
      | some made =>
        rw [hbots] at h
        rcases ih h with hbefore | ⟨k, hk, hmade⟩
        · rcases List.mem_append.mp hbefore with hold | hnew
          · exact Or.inl hold
          · rw [List.mem_singleton.mp hnew]
            exact Or.inr ⟨key, List.mem_cons_self, hbots⟩
        · exact Or.inr ⟨k, List.mem_cons_of_mem _ hk, hmade⟩

/-! ### After the user's rules -/

/-- A rule of a gated block names one of the channels. -/
theorem mem_gatedBlock (h : gatedBlock P dialect b channelKeys = some drafts)
    (hdraft : draft ∈ drafts) :
    ∃ key ∈ channelKeys, b.channel.all (fun c => c = key) = true ∧
      ∃ test, channelTest P dialect key = some test ∧ ∃ variant ∈ gatedVariants b.body,
        draft = blockDraft b (b.key ++ ":" ++ key ++ variant.1)
          ([isGroupText, test] ++ variant.2) .drop := by
  rw [gatedBlock, Option.map_eq_some_iff] at h
  obtain ⟨lists, hlists, rfl⟩ := h
  obtain ⟨made, hmade, hmem⟩ := List.mem_flatten.mp hdraft
  obtain ⟨key, hkey, hon⟩ := exists_of_mem_mapM hlists hmade
  refine ⟨key, hkey, ?_⟩
  rw [gatedOn] at hon
  split_ifs at hon with hchannel
  · obtain ⟨test, htest, rfl⟩ := Option.map_eq_some_iff.mp hon
    obtain ⟨variant, hvariant, rfl⟩ := List.mem_map.mp hmem
    exact ⟨hchannel, test, htest, variant, hvariant, rfl⟩
  · obtain rfl := Option.some.inj hon
    exact absurd hmem List.not_mem_nil

/-- What the rules after the user's are. -/
theorem mem_gatedDrafts
    (h : gatedDrafts P d dialect channelKeys gated = some drafts) (hdraft : draft ∈ drafts) :
    (∃ key ∈ channelKeys, knownPeople P dialect d.knownNames key = some draft) ∨
      (∃ b ∈ gated, b.body.isSuffix = false ∧ ∃ made,
        gatedBlock P dialect b channelKeys = some made ∧ draft ∈ made) ∨
      ∃ b ∈ gated, ∃ suffix, b.body = .suffix suffix ∧ draft ∈ suffixDrafts d b suffix := by
  simp only [gatedDrafts, Option.pure_def, Option.bind_eq_bind, Option.bind_eq_some_iff,
    Option.some.injEq] at h
  obtain ⟨people, hpeople, blocks, hblocks, rfl⟩ := h
  rcases List.mem_append.mp hdraft with hleft | hsuffix
  · rcases List.mem_append.mp hleft with hknown | hgated
    · obtain ⟨key, hkey, hmade⟩ := exists_of_mem_mapM hpeople hknown
      exact Or.inl ⟨key, (List.mem_filter.mp hkey).1, hmade⟩
    · obtain ⟨made, hmade, hmem⟩ := List.mem_flatten.mp hgated
      rw [gatedBlocks] at hblocks
      split_ifs at hblocks with hnone
      · obtain rfl := Option.some.inj hblocks
        exact absurd hmade List.not_mem_nil
      · obtain ⟨b, hb, hblock⟩ := exists_of_mem_mapM hblocks hmade
        obtain ⟨hin, hkind⟩ := List.mem_filter.mp hb
        exact Or.inr (Or.inl ⟨b, hin, by simpa using hkind, made, hblock, hmem⟩)
  · obtain ⟨b, hb, hmem⟩ := List.mem_flatMap.mp hsuffix
    cases hbody : b.body with
    | suffix suffix =>
      rw [hbody] at hmem
      exact Or.inr (Or.inr ⟨b, hb, suffix, hbody, hmem⟩)
    | _ => rw [hbody] at hmem; exact absurd hmem List.not_mem_nil

/-- The rules of every rotation block that fits are among them. -/
theorem mem_gatedDrafts_suffix
    (h : gatedDrafts P d dialect channelKeys gated = some drafts) (hb : b ∈ gated)
    {suffix : List String} (hbody : b.body = .suffix suffix)
    (hdraft : draft ∈ suffixDrafts d b suffix) : draft ∈ drafts := by
  simp only [gatedDrafts, Option.pure_def, Option.bind_eq_bind, Option.bind_eq_some_iff,
    Option.some.injEq] at h
  obtain ⟨people, -, blocks, -, rfl⟩ := h
  refine List.mem_append_right _ (List.mem_flatMap.mpr ⟨b, hb, ?_⟩)
  rw [hbody]
  exact hdraft

/-! ### The whole rule set -/

/-- The blocks that get a rule: those whose rules fit before the user's, and the
gated ones whose rules fit after it. -/
structure Rendered where
  plains : List Block
  gated : List Block

/-- Which blocks get a rule. -/
def renderedBlocks (P : Primitives) (d : Detector) (dialect : Dialect)
    (channels : Option (List String)) (botSenders : List String) : Option Rendered := do
  let limit := d.tunables.maxTotalRules
  let channelKeys := renderedChannels d channels
  let active := activeBlocks d channels
  let bots ← botsBefore P dialect (botNames dialect botSenders) limit (botChannels d channelKeys)
  let plains ← plainLoop P d dialect limit active bots.1
  let gated ← fitGated P d dialect (active.filter d.gated) channelKeys (limit - plains.1.length)
  pure ⟨keptPlain P d dialect limit active bots.1.length, gated⟩

/-- The parts of a rendered rule set. -/
structure RenderParts (P : Primitives) (d : Detector) (dialect : Dialect)
    (channels : Option (List String)) (botSenders : List String) (drafts : Drafts)
    (blocks : Rendered) (bots : List Draft) : Prop where
  rendered : renderedBlocks P d dialect channels botSenders = some blocks
  listed : ∃ truncated, botsBefore P dialect (botNames dialect botSenders)
    d.tunables.maxTotalRules (botChannels d (renderedChannels d channels)) =
      some (bots, truncated)
  before : drafts.before = bots ++ blocks.plains.flatMap (plainDrafts P d dialect)
  after : gatedDrafts P d dialect (renderedChannels d channels) blocks.gated =
    some drafts.after

variable {channels : Option (List String)}

theorem renderDrafts_parts {botSenders : List String}
    {drafts : Drafts} (h : renderDrafts P d dialect channels botSenders = some drafts) :
    ∃ blocks bots, RenderParts P d dialect channels botSenders drafts blocks bots := by
  simp only [renderDrafts, Option.pure_def, Option.bind_eq_bind, Option.bind_eq_some_iff,
    Option.some.injEq] at h
  obtain ⟨⟨bots, truncated⟩, hbots, plains, hplains, gated, hgated, after, hafter, rfl⟩ := h
  refine ⟨⟨keptPlain P d dialect d.tunables.maxTotalRules (activeBlocks d channels) bots.length,
    gated⟩, bots, ?_, ⟨truncated, hbots⟩, plainLoop_eq hplains, hafter⟩
  simp only [renderedBlocks, hbots, Option.bind_eq_bind, Option.bind_some, hplains, hgated,
    Option.pure_def]

theorem mem_renderedChannels {key : String}
    (h : key ∈ renderedChannels d channels) : ∃ c ∈ d.config.channels, c.key = key := by
  have hmem := (List.perm_insertionSort _ _).mem_iff.mp h
  obtain ⟨c, hc, hkey⟩ := List.mem_map.mp (List.mem_filter.mp hmem).1
  exact ⟨c, hc, hkey⟩

/-- A bot list rule names a protected channel. -/
theorem mem_botsBefore {bots : List Draft} {truncated : Bool}
    (h : botsBefore P dialect names limit (botChannels d (renderedChannels d channels)) =
      some (bots, truncated)) (hdraft : draft ∈ bots) :
    ∃ key ∈ renderedChannels d channels, botsDraft P dialect key names = some draft := by
  rw [botsBefore] at h
  split_ifs at h with hnames
  · obtain ⟨rfl, -⟩ := Prod.mk.inj (Option.some.inj h)
    exact absurd hdraft List.not_mem_nil
  · rcases mem_botsLoop h hdraft with hbefore | ⟨key, hkey, hmade⟩
    · exact absurd hbefore List.not_mem_nil
    · exact ⟨key, (List.mem_filter.mp hkey).1, hmade⟩

end

end RtfmEv.Spam

/-!
## How many rules a block makes

What the loops of `render` and `_fit_gated` count, as numbers of the blocks and
the protected channels. The dry run of `_fit_gated` predicts the rules of a block
exactly, and counts the known-people rule of a channel once, however often the
channel is listed.
-/

namespace RtfmEv.Spam

open RtfmEv.Lib

section

variable {α β : Type}

theorem length_mapM {f : α → Option β} {xs : List α} {ys : List β}
    (h : xs.mapM f = some ys) : ys.length = xs.length := by
  induction xs generalizing ys with
  | nil =>
    obtain rfl : [] = ys := Option.some.inj h
    rfl
  | cons x xs ih =>
    simp only [List.mapM_cons, Option.pure_def, Option.bind_eq_bind, Option.bind_eq_some_iff,
      Option.some.injEq] at h
    obtain ⟨z, -, rest, hrest, rfl⟩ := h
    rw [List.length_cons, List.length_cons, ih hrest]

theorem length_flatten_mapM {f : α → Option (List β)} {size : α → ℕ}
    (hf : ∀ x ys, f x = some ys → ys.length = size x) {xs : List α} {yss : List (List β)}
    (h : xs.mapM f = some yss) : yss.flatten.length = (xs.map size).sum := by
  induction xs generalizing yss with
  | nil =>
    obtain rfl : [] = yss := Option.some.inj h
    rfl
  | cons x xs ih =>
    simp only [List.mapM_cons, Option.pure_def, Option.bind_eq_bind, Option.bind_eq_some_iff,
      Option.some.injEq] at h
    obtain ⟨ys, hys, rest, hrest, rfl⟩ := h
    rw [List.flatten_cons, List.length_append, hf x ys hys, ih hrest, List.map_cons,
      List.sum_cons]

end

section

variable {P : Primitives} {d : Detector} {dialect : Dialect} {channelKeys : List String}
  {drafts : List Draft} {b : Block} {key : String} {bs bs' : List Block}

/-! #### The rules of a block -/

/-- A block that does not let known people through. -/
def plainSize (d : Detector) (dialect : Dialect) (b : Block) : ℕ := (ownTests d dialect b).length

/-- A gated block: a rule for each channel and variant, or those of a rotation. -/
def gatedSize (d : Detector) (channelKeys : List String) (b : Block) : ℕ :=
  match b.body with
  | .suffix suffix => (renderedOrigins d b suffix).length + 1
  | body => (neededChannels channelKeys b).length * (gatedVariants body).length

theorem length_plain (h : plain P d dialect b = some drafts) :
    drafts.length = plainSize d dialect b := by
  rw [plain_eq, Option.map_eq_some_iff] at h
  obtain ⟨scope, -, rfl⟩ := h
  rw [List.length_map, plainSize]

theorem length_suffixDrafts (b : Block) (suffix : List String) :
    (suffixDrafts d b suffix).length = (renderedOrigins d b suffix).length + 1 := by
  rw [suffixDrafts, List.length_append, List.length_map, List.length_singleton]

theorem length_gatedOn
    (h : gatedOn P dialect b key = some drafts) :
    drafts.length =
      if b.channel.all (fun c => c = key) then (gatedVariants b.body).length else 0 := by
  rw [gatedOn] at h
  by_cases hcovers : b.channel.all (fun c => c = key) = true
  · rw [if_pos hcovers] at h ⊢
    obtain ⟨test, -, rfl⟩ := Option.map_eq_some_iff.mp h
    exact List.length_map _
  · rw [if_neg hcovers] at h ⊢
    obtain rfl := Option.some.inj h
    rfl

theorem sum_map_ite (n : ℕ) (p : String → Bool) (keys : List String) :
    (keys.map (fun key => if p key then n else 0)).sum = (keys.filter p).length * n := by
  induction keys with
  | nil => simp
  | cons key keys ih =>
    rw [List.map_cons, List.sum_cons, ih, List.filter_cons]
    by_cases hp : p key = true
    · rw [if_pos hp, if_pos hp, List.length_cons]
      ring
    · rw [if_neg hp, if_neg hp, Nat.zero_add]

theorem length_gatedBlock
    (h : gatedBlock P dialect b channelKeys = some drafts) :
    drafts.length = (neededChannels channelKeys b).length * (gatedVariants b.body).length := by
  rw [gatedBlock, Option.map_eq_some_iff] at h
  obtain ⟨lists, hlists, rfl⟩ := h
  rw [length_flatten_mapM (fun key drafts hon => length_gatedOn hon) hlists, sum_map_ite,
    neededChannels]

/-- **The dry run predicts the rules of a block.** -/
theorem gatedCost_eq {cost : ℕ} (h : gatedCost P d dialect channelKeys b = some cost) :
    cost = gatedSize d channelKeys b := by
  rw [gatedCost] at h
  rw [gatedSize]
  cases hbody : b.body with
  | suffix suffix =>
    rw [hbody] at h
    rw [← Option.some.inj h]
    exact length_suffixDrafts b suffix
  | _ =>
    rw [hbody] at h
    obtain ⟨drafts, hdrafts, rfl⟩ := Option.map_eq_some_iff.mp h
    rw [length_gatedBlock hdrafts, hbody]

/-! #### The rules of several gated blocks -/

/-- The rules of the blocks themselves. -/
def blockRules (d : Detector) (channelKeys : List String) (bs : List Block) : ℕ :=
  (bs.map (gatedSize d channelKeys)).sum

theorem blockRules_cons (b : Block) (bs : List Block) :
    blockRules d channelKeys (b :: bs) =
      gatedSize d channelKeys b + blockRules d channelKeys bs := by
  rw [blockRules, List.map_cons, List.sum_cons, blockRules]

theorem blockRules_perm (h : bs.Perm bs') :
    blockRules d channelKeys bs = blockRules d channelKeys bs' :=
  (h.map _).sum_eq

theorem mem_knownChannels :
    key ∈ knownChannels channelKeys bs ↔
      key ∈ channelKeys ∧ ∃ b ∈ bs, b.channel.all (fun c => c = key) = true := by
  rw [knownChannels, List.mem_filter, List.any_eq_true]

theorem mem_neededChannels :
    key ∈ neededChannels channelKeys b ↔
      key ∈ channelKeys ∧ b.channel.all (fun c => c = key) = true := by
  rw [neededChannels, List.mem_filter]

theorem knownChannels_perm (h : bs.Perm bs') :
    knownChannels channelKeys bs = knownChannels channelKeys bs' := by
  rw [knownChannels, knownChannels]
  congr 1
  funext key
  exact h.any_eq

/-- More blocks need no fewer channels. -/
theorem knownChannels_length_le (channelKeys : List String) (h : bs <+: bs') :
    (knownChannels channelKeys bs).length ≤ (knownChannels channelKeys bs').length := by
  refine (List.monotone_filter_right channelKeys ?_).length_le
  intro key hkey
  obtain ⟨b, hb, hcovers⟩ := List.any_eq_true.mp hkey
  exact List.any_eq_true.mpr ⟨b, h.subset hb, hcovers⟩

theorem blockRules_le (d : Detector) (channelKeys : List String) (h : bs <+: bs') :
    blockRules d channelKeys bs ≤ blockRules d channelKeys bs' := by
  obtain ⟨rest, rfl⟩ := h
  rw [blockRules, blockRules, List.map_append, List.sum_append]
  exact Nat.le_add_right _ _

/-- Blocks that cover no channel make no rules but those of rotations. -/
theorem gatedSize_eq_zero (h : knownChannels channelKeys bs = []) (hb : b ∈ bs)
    (hkind : b.body.isSuffix = false) :
    gatedSize d channelKeys b = 0 := by
  have hnone : neededChannels channelKeys b = [] := by
    refine List.eq_nil_iff_forall_not_mem.mpr (fun key hkey => ?_)
    obtain ⟨hin, hcovers⟩ := mem_neededChannels.mp hkey
    exact (List.eq_nil_iff_forall_not_mem.mp h key)
      (mem_knownChannels.mpr ⟨hin, b, hb, hcovers⟩)
  rw [gatedSize]
  cases hbody : b.body with
  | suffix suffix => rw [hbody] at hkind; exact absurd hkind (by simp [BlockBody.isSuffix])
  | _ => simp [hnone]

/-- The rotation blocks and the others, counted apart. -/
theorem blockRules_split (bs : List Block) :
    blockRules d channelKeys bs =
      blockRules d channelKeys (bs.filter (fun b => !b.body.isSuffix)) +
        (bs.flatMap (fun b => match b.body with
          | .suffix suffix => suffixDrafts d b suffix
          | _ => [])).length := by
  induction bs with
  | nil => rfl
  | cons b bs ih =>
    rw [blockRules_cons, ih, List.filter_cons, List.flatMap_cons, List.length_append]
    cases hbody : b.body with
    | suffix suffix =>
      have hsize : gatedSize d channelKeys b = (suffixDrafts d b suffix).length := by
        rw [gatedSize, hbody, length_suffixDrafts]
      rw [if_neg (by simp [BlockBody.isSuffix]), hsize]
      dsimp only
      omega
    | _ =>
      rw [if_pos (by simp [BlockBody.isSuffix]), blockRules_cons]
      dsimp only [List.length_nil]
      omega

/-- **The rules after the user's:** the known-people rule of every listed channel that
some block covers, and the rules of the blocks. -/
theorem length_gatedDrafts
    (h : gatedDrafts P d dialect channelKeys bs = some drafts) :
    drafts.length = blockRules d channelKeys bs + (knownChannels channelKeys bs).length := by
  simp only [gatedDrafts, Option.pure_def, Option.bind_eq_bind, Option.bind_eq_some_iff,
    Option.some.injEq] at h
  obtain ⟨people, hpeople, blocks, hblocks, rfl⟩ := h
  have hcount : blocks.flatten.length =
      blockRules d channelKeys (bs.filter (fun b => !b.body.isSuffix)) := by
    rw [gatedBlocks] at hblocks
    by_cases hnone : knownChannels channelKeys bs = []
    · rw [if_pos hnone] at hblocks
      obtain rfl := Option.some.inj hblocks
      refine (List.sum_eq_zero ?_).symm
      intro n hn
      obtain ⟨b, hb, rfl⟩ := List.mem_map.mp hn
      obtain ⟨hin, hkind⟩ := List.mem_filter.mp hb
      exact gatedSize_eq_zero hnone hin (by simpa using hkind)
    · rw [if_neg hnone] at hblocks
      rw [blockRules]
      have hsize : ∀ b ∈ bs.filter (fun b => !b.body.isSuffix), gatedSize d channelKeys b =
          (neededChannels channelKeys b).length * (gatedVariants b.body).length := by
        intro b hb
        have hkind := (List.mem_filter.mp hb).2
        rw [gatedSize]
        cases hbody : b.body with
        | suffix suffix => rw [hbody] at hkind; exact absurd hkind (by simp [BlockBody.isSuffix])
        | _ => rfl
      rw [List.map_congr_left hsize]
      exact length_flatten_mapM (fun b drafts hblock => length_gatedBlock hblock) hblocks
  rw [List.length_append, List.length_append, length_mapM hpeople, hcount, blockRules_split bs,
    Nat.add_comm (knownChannels channelKeys bs).length]
  exact Nat.add_right_comm _ _ _

/-! #### The dry run -/

/-- The channels that need a known-people rule for these blocks, each once. -/
def newChannels (channelKeys known : List String) (bs : List Block) : List String :=
  ((knownChannels channelKeys bs).filter (fun key => !known.contains key)).dedup

/-- What the dry run counts for a block and the ones after it. -/
theorem newChannels_cons (channelKeys known : List String) (b : Block) (bs : List Block) :
    (newChannels channelKeys known (b :: bs)).length =
      (((neededChannels channelKeys b).filter (fun key => !known.contains key)).dedup).length +
        (newChannels channelKeys (known ++
          ((neededChannels channelKeys b).filter (fun key => !known.contains key)).dedup)
          bs).length := by
  rw [newChannels, newChannels, ← List.card_toFinset, ← List.card_toFinset,
    ← List.card_toFinset, ← Finset.card_union_of_disjoint]
  · congr 1
    ext key
    simp only [List.mem_toFinset, List.mem_filter, Finset.mem_union, mem_knownChannels,
      mem_neededChannels, Bool.not_eq_true', List.contains_eq_mem, decide_eq_false_iff_not,
      List.mem_append, List.mem_dedup, List.exists_mem_cons_iff]
    tauto
  · rw [Finset.disjoint_left]
    intro key hleft hright
    rw [List.mem_toFinset] at hleft hright
    have hnot := (List.mem_filter.mp hright).2
    have hmem := List.mem_append_right known (List.mem_dedup.mpr hleft)
    rw [List.contains_iff_mem.mpr hmem] at hnot
    exact absurd hnot (by simp)

/-- **The dry run takes the longest run of blocks whose rules fit**, with the
known-people rule of each channel counted once. -/
theorem fitLoop_longest {blocks : List Block} {budget : ℕ} {known : List String}
    {kept : List Block} (h : fitLoop P d dialect channelKeys blocks budget known = some kept) :
    LongestPrefix (fun bs => blockRules d channelKeys bs +
      (newChannels channelKeys known bs).length ≤ budget) blocks kept := by
  have hempty : ∀ known : List String,
      blockRules d channelKeys [] + (newChannels channelKeys known []).length = 0 := by
    intro known
    simp [blockRules, newChannels, knownChannels]
  induction blocks generalizing budget known kept with
  | nil =>
    obtain rfl := Option.some.inj h
    exact LongestPrefix.nil (by rw [hempty known]; exact Nat.zero_le _)
  | cons b rest ih =>
    rw [fitLoop, Option.bind_eq_bind, Option.bind_eq_some_iff] at h
    obtain ⟨cost, hcost, h⟩ := h
    obtain rfl := gatedCost_eq hcost
    dsimp only at h
    have hsplit := newChannels_cons channelKeys known b
    generalize hneeds : ((neededChannels channelKeys b).filter
      (fun key => !known.contains key)).dedup = needs at h hsplit
    by_cases hover : gatedSize d channelKeys b + needs.length > budget
    · rw [if_pos hover] at h
      obtain rfl := Option.some.inj h
      refine LongestPrefix.stop ?_ (by rw [hempty known]; exact Nat.zero_le _) ?_
      · intro zs hzs
        have hzero := hempty (known ++ needs)
        rw [blockRules_cons, hsplit] at hzs ⊢
        omega
      · rw [blockRules_cons, hsplit]
        omega
    · rw [if_neg hover] at h
      obtain ⟨kept', hkept, rfl⟩ := Option.map_eq_some_iff.mp h
      refine LongestPrefix.cons ((ih hkept).congr ?_)
      intro zs _
      rw [blockRules_cons, hsplit]
      omega

end

end RtfmEv.Spam
