import RtfmEv.Spam.HostRule

/-!
# What a text block means on the host repeater

A block of a text or of words becomes one rule before the user's own. The rule
should match group text on the channel of the block that contains every piece
and meets the sender test. It does unless a piece or the sender looks like
`@group.name`: such a text stands for what the object model of the policy has
under that name.
-/

namespace RtfmEv.Spam

open RtfmEv.Lib RtfmEv.HostRepeater RtfmEv.PathUtils

/-! ### The meaning of a block -/

/-- The message body contains a text. -/
def bodyHas (facts : RxFacts) (piece : String) : Bool :=
  facts.channelMessageBody.any (fun body => textContains body piece)

/-- What a text block says about a packet. -/
structure PlainMeaning (P : Primitives) (b : Block) (env : ParsedPacketEnvelope)
    (facts : RxFacts) : Prop where
  groupText : env.payloadType = payloadTypeGrpTxt
  channel : ∀ key, b.channel = some key → key ≠ "" → hasChannelHash P env key
  pieces : ∀ piece ∈ b.body.pieces, bodyHas facts piece = true
  sender : ∀ sender, b.sender = some sender → sender ≠ "" →
    (facts.channelSender = some sender ↔ b.senderOnly = true)

/-- A rendered text block means what it says: it becomes one rule, whose
evaluation never fails and matches exactly the packets that are meant. -/
def MeansWhatItSays (P : Primitives) (attributes : Attributes) (d : Detector) (b : Block) :
    Prop :=
  ∃ rule, (plain P d .host b).bind (hostRules P []) = some [rule] ∧
    ∀ (policy : PolicyConfig) (env : ParsedPacketEnvelope) (facts : RxFacts)
      (packetHash : String) (now : ℚ) (st : PolicyState), ∃ st' decision,
      checkedLayers P attributes [rule] { policy with rules := [] } []
          (policyFields env facts) packetHash now st = some (st', decision) ∧
        (decision.matched = true ↔ PlainMeaning P b env facts)

/-! ### What a text is read as -/

/-- The text that a value of the object model is compared as. -/
def AttributeValue.text (P : Primitives) : AttributeValue → Option String
  | .raises => none
  | .value .none => none
  | .value v => some (v.pyStr P)
  | .object shown => some shown

/-- The text that a piece stands for, whatever the objects of the policy are. -/
def readAs (P : Primitives) (attributes : Attributes) (s : String) : Option String :=
  match objectRef s with
  | none => some s
  | some (group, name) =>
    if group = "channel_hash_groups" ∨ group = "pubkey_groups" then none
    else (attributes group name).text P

/-- A piece that stands for itself, or that says no more than other pieces do and
stands for a text that says no more either. -/
def Harmless (P : Primitives) (attributes : Attributes) (pieces : List String) (s : String) :
    Prop :=
  objectRef s = none ∨ ∃ r, readAs P attributes s = some r ∧
    (∃ q ∈ pieces, objectRef q = none ∧ textContains q s = true) ∧
    (∃ q ∈ pieces, objectRef q = none ∧ textContains q r = true)

/-- The texts of a block do not collide with references. -/
structure NoCollision (P : Primitives) (attributes : Attributes) (b : Block) : Prop where
  channel : ∀ key, b.channel = some key → key ≠ "" → (fromHex key.toList).isSome
  sender : ∀ sender, b.sender = some sender → objectRef sender = none
  pieces : ∀ piece ∈ b.body.pieces, Harmless P attributes b.body.pieces piece

theorem readAs_of_objectRef_none {P : Primitives} {attributes : Attributes} {s : String}
    (h : objectRef s = none) : readAs P attributes s = some s := by
  rw [readAs, h]

theorem ne_empty_of_objectRef {s : String} {ref : String × String} (h : objectRef s = some ref) :
    s ≠ "" := by
  rintro rfl
  simp [show objectRef "" = none by decide] at h

section

variable {P : Primitives} {attributes : Attributes} {b : Block} (objects : PolicyObjects)
  (env : ParsedPacketEnvelope) (facts : RxFacts) {channel : Option String} {scope : List RuleTest}

/-! ### One test -/

theorem coerceLike_text (actual : Option String) (v : PyValue) :
    coerceLike P (actual.elim PyValue.none PyValue.str) v = v := by
  have hscalar : ∀ v, coerceScalar P (actual.elim PyValue.none PyValue.str) v = v := by
    intro v
    cases actual <;> cases v <;> rfl
  unfold coerceLike
  split
  · rw [List.map_congr_left (fun v _ => hscalar v), List.map_id']
  · exact hscalar _

variable (env : ParsedPacketEnvelope) (facts : RxFacts)

theorem policyFields_body : policyFields env facts .channelMessageBody =
      facts.channelMessageBody.elim PyValue.none PyValue.str := rfl

theorem policyFields_sender : policyFields env facts .channelSender =
      facts.channelSender.elim PyValue.none PyValue.str := rfl

theorem resolvedTest_contains {v : PyValue} (hv : v ≠ .none) :
    resolvedTest P (policyFields env facts) .channelMessageBody .contains v =
      bodyHas facts (v.pyStr P) := by
  unfold resolvedTest
  simp only [reduceCtorEq, if_false, policyFields_body, coerceLike_text]
  rw [bodyHas]
  cases facts.channelMessageBody with
  | none => rfl
  | some body => cases v <;> first | exact absurd rfl hv | rfl

theorem resolvedTest_contains_none :
    resolvedTest P (policyFields env facts) .channelMessageBody .contains .none = false := by
  unfold resolvedTest
  simp only [reduceCtorEq, if_false, policyFields_body, coerceLike_text]
  cases facts.channelMessageBody <;> rfl

/-- **A piece is looked for as the text it is read as.** -/
theorem checkedTest_piece (objects : PolicyObjects) (env : ParsedPacketEnvelope)
    (facts : RxFacts) {s r : String} (h : readAs P attributes s = some r) :
    checkedTest P attributes objects (policyFields env facts) .channelMessageBody .contains
      (.str s) = some (bodyHas facts r) := by
  rw [readAs] at h
  rw [checkedTest, classReference]
  cases href : objectRef s with
  | none =>
    rw [href] at h
    obtain rfl := Option.some.inj h
    show some (testMatches P objects _ _ _ _) = _
    rw [testMatches_eq, resolveValue, href]
    exact congrArg some (resolvedTest_contains env facts (by intro hc; cases hc))
  | some ref =>
    rw [href] at h
    obtain ⟨group, name⟩ := ref
    simp only at h
    split_ifs at h with hgroup
    push Not at hgroup
    simp only [Option.filter_some, hgroup.1, hgroup.2, ne_eq, not_false_eq_true, decide_true,
      Bool.and_self, if_true]
    cases hattr : attributes group name with
    | raises =>
      rw [hattr] at h
      exact absurd h (by simp [AttributeValue.text])
    | object shown =>
      rw [hattr] at h
      obtain rfl := Option.some.inj h
      show some (objectTest _ _ _ _) = _
      rw [objectTest, bodyHas, policyFields_body]
      cases facts.channelMessageBody <;> rfl
    | value v =>
      rw [hattr] at h
      show some (resolvedTest _ _ _ _ _) = _
      cases v with
      | none => exact absurd h (by simp [AttributeValue.text])
      | _ =>
        obtain rfl := Option.some.inj h
        exact congrArg some (resolvedTest_contains env facts (by intro hc; cases hc))

theorem checkedTest_unread {s : String} (h : readAs P attributes s = none) :
    checkedTest P attributes {} (policyFields env facts) .channelMessageBody .contains (.str s) ≠
      some true := by
  rw [readAs] at h
  rw [checkedTest, classReference]
  cases href : objectRef s with
  | none => rw [href] at h; exact absurd h (by simp)
  | some ref =>
    rw [href] at h
    obtain ⟨group, name⟩ := ref
    simp only at h
    by_cases hgroup : group = "channel_hash_groups" ∨ group = "pubkey_groups"
    · have hfilter : (some (group, name)).filter (fun ref : String × String =>
          ref.1 ≠ "channel_hash_groups" && ref.1 ≠ "pubkey_groups") = none := by
        rcases hgroup with rfl | rfl <;> rfl
      rw [hfilter]
      have hlookup : ({} : PolicyObjects).lookup group name = none := by
        rcases hgroup with rfl | rfl <;> rfl
      show some (testMatches P {} _ _ _ _) ≠ _
      rw [testMatches_eq, resolveValue, href]
      simp only [hlookup]
      rw [resolvedTest_contains_none]
      decide
    · rw [if_neg hgroup] at h
      push Not at hgroup
      simp only [Option.filter_some, hgroup.1, hgroup.2, ne_eq, not_false_eq_true, decide_true,
        Bool.and_self, if_true]
      cases hattr : attributes group name with
      | raises => exact fun hc => absurd hc (by simp)
      | object shown => rw [hattr] at h; exact absurd h (by simp [AttributeValue.text])
      | value v =>
        rw [hattr] at h
        cases v with
        | none =>
          show some (resolvedTest _ _ _ _ _) ≠ _
          rw [resolvedTest_contains_none]
          decide
        | _ => exact absurd h (by simp [AttributeValue.text])

/-- A sender that is no reference is compared as it stands. -/
theorem checkedTest_sender (objects : PolicyObjects) (env : ParsedPacketEnvelope)
    (facts : RxFacts) {sender : String} (h : objectRef sender = none) (only : Bool) :
    checkedTest P attributes objects (policyFields env facts) .channelSender
        (if only then RuleOp.equals else RuleOp.notEquals).policyOperator (.str sender) =
      some (Decidable.decide (facts.channelSender = some sender ↔ only = true)) := by
  have heq : (policyFields env facts .channelSender).pyEq (.str sender) =
      Decidable.decide (facts.channelSender = some sender) := by
    rw [policyFields_sender]
    cases facts.channelSender with
    | none => simp [PyValue.pyEq, PyValue.num?]
    | some s =>
      rw [Option.elim_some, PyValue.pyEq, Bool.eq_iff_iff, beq_iff_eq, decide_eq_true_iff,
        Option.some_inj]
  rw [checkedTest_of_noReference (classReference_text h), testMatches_eq, resolveValue_text h]
  have hcoerce : coerceLike P (policyFields env facts .channelSender) (.str sender) =
      .str sender := by rw [policyFields_sender, coerceLike_text]
  cases only with
  | true =>
    show some (compareValues P (policyFields env facts .channelSender) .equals
      (coerceLike P (policyFields env facts .channelSender) (.str sender))) = _
    rw [hcoerce, compareValues, heq]
    simp
  | false =>
    show some (compareValues P (policyFields env facts .channelSender) .notEquals
      (coerceLike P (policyFields env facts .channelSender) (.str sender))) = _
    rw [hcoerce, compareValues, heq]
    simp

/-- No entry of the object model is itself a reference. -/
def EntriesPlain (P : Primitives) (attributes : Attributes) : Prop :=
  ∀ group name r, (attributes group name).text P = some r → objectRef r = none

/-- A sender that is a reference is never compared as it stands: not with the same
sender. -/
theorem checkedTest_sender_reference (hentries : EntriesPlain P attributes)
    (env : ParsedPacketEnvelope) (facts : RxFacts) {sender : String} {ref : String × String}
    (href : objectRef sender = some ref) (hsender : facts.channelSender = some sender)
    (only : Bool) :
    checkedTest P attributes {} (policyFields env facts) .channelSender
        (if only then RuleOp.equals else RuleOp.notEquals).policyOperator (.str sender) ≠
      some only := by
  obtain ⟨group, name⟩ := ref
  -- a value other than the sender itself compares as different
  have hvalue : ∀ v : PyValue, v ≠ .str sender →
      resolvedTest P (policyFields env facts) .channelSender
        (if only then RuleOp.equals else RuleOp.notEquals).policyOperator v = !only := by
    intro v hv
    have heq : (PyValue.str sender).pyEq v = false := by
      cases v with
      | str s =>
        rw [PyValue.pyEq, beq_eq_false_iff_ne]
        exact fun hs => hv (by rw [hs])
      | _ => simp [PyValue.pyEq, PyValue.num?]
    have hfield : policyFields env facts .channelSender = .str sender := by
      rw [policyFields_sender, hsender, Option.elim_some]
    have hcoerce : coerceLike P (.str sender) v = v := coerceLike_text (some sender) v
    cases only with
    | true =>
      show compareValues P (policyFields env facts .channelSender) .equals
        (coerceLike P (policyFields env facts .channelSender) v) = _
      rw [hfield, hcoerce, compareValues, heq]
      rfl
    | false =>
      show compareValues P (policyFields env facts .channelSender) .notEquals
        (coerceLike P (policyFields env facts .channelSender) v) = _
      rw [hfield, hcoerce, compareValues, heq]
  have hne : ∀ b : Bool, b = (!only) → some b ≠ some only := by
    rintro b rfl
    cases only <;> simp
  by_cases hgroup : group = "channel_hash_groups" ∨ group = "pubkey_groups"
  · have hclass : classReference (.str sender) = none := by
      rw [classReference, href]
      rcases hgroup with rfl | rfl <;> rfl
    have hlookup : ({} : PolicyObjects).lookup group name = none := by
      rcases hgroup with rfl | rfl <;> rfl
    rw [checkedTest_of_noReference hclass, testMatches_eq, resolveValue, href]
    simp only [hlookup]
    exact hne _ (hvalue .none (by intro hc; cases hc))
  · push Not at hgroup
    have hclass : classReference (.str sender) = some (group, name) := by
      rw [classReference, href]
      simp [hgroup.1, hgroup.2]
    rw [checkedTest, hclass]
    cases hattr : attributes group name with
    | raises => simp only [hattr, ne_eq, reduceCtorEq, not_false_eq_true]
    | object shown =>
      simp only [hattr]
      refine hne _ ?_
      cases only <;> rfl
    | value v =>
      simp only [hattr]
      refine hne _ (hvalue v ?_)
      rintro rfl
      have hplain := hentries group name sender (by rw [hattr]; rfl)
      simp [hplain] at href

/-! ### The rule of a text block -/

/-- The draft of a text block. -/
def opinionDraft (b : Block) (scope : List RuleTest) : Draft :=
  blockDraft b b.key (scope ++ b.body.pieces.map bodyContains ++ senderTests b) .drop

theorem plain_opinion (d : Detector) (hb : b.body.isOpinion = true) : plain P d .host b =
      (scopeTests P .host b.channel).map (fun scope => [opinionDraft b scope]) := by
  rw [plain]
  cases hbody : b.body with
  | text s => simp only [opinionDraft, hbody]
  | words ws => simp only [opinionDraft, hbody]
  | _ => rw [hbody] at hb; exact absurd hb Bool.false_ne_true

/-- The tests for group text and the channel. -/
theorem scopeTests_eq (channel : Option String) :
    (channel.all (fun key => key = "") = true ∧ scopeTests P .host channel = some [isGroupText]) ∨
      ∃ key, channel = some key ∧ key ≠ "" ∧ scopeTests P .host channel =
        (channelTest P .host key).map (fun test => [isGroupText, test]) := by
  cases channel with
  | none => exact Or.inl ⟨rfl, rfl⟩
  | some key =>
    by_cases hkey : key = ""
    · exact Or.inl ⟨by simpa using hkey, by rw [scopeTests, if_pos hkey]⟩
    · exact Or.inr ⟨key, rfl, hkey, by rw [scopeTests, if_neg hkey]⟩

theorem isSome_channelTest (key : String) :
    (channelTest P .host key).isSome = (fromHex key.toList).isSome := by
  rw [channelTest, channelHashByte, Option.isSome_map, Option.isSome_map]

theorem isSome_scopeTests (channel : Option String) :
    (scopeTests P .host channel).isSome ↔
      ∀ key, channel = some key → key ≠ "" → (fromHex key.toList).isSome := by
  rcases scopeTests_eq (P := P) channel with ⟨hall, heq⟩ | ⟨key, rfl, hkey, heq⟩
  · rw [heq]
    refine ⟨fun _ key hchannel hne => ?_, fun _ => rfl⟩
    rw [hchannel] at hall
    exact absurd (by simpa using hall) hne
  · rw [heq, Option.isSome_map, isSome_channelTest]
    refine ⟨fun h k hk _ => ?_, fun h => h key rfl hkey⟩
    rwa [← Option.some.inj hk]

variable (attributes) in
/-- The tests for group text and the channel hold on the channel of the block. -/
theorem checked_scope (hsha : ∀ data, P.sha256 data ≠ []) (h : scopeTests P .host channel = some scope) :
    (∀ t ∈ scope,
        (checkedRuleTest P attributes objects (policyFields env facts) t).isSome) ∧
      ((∀ t ∈ scope,
          checkedRuleTest P attributes objects (policyFields env facts) t = some true) ↔
        env.payloadType = payloadTypeGrpTxt ∧
          ∀ key, channel = some key → key ≠ "" → hasChannelHash P env key) := by
  have hgroup := checkedRuleTest_groupText P attributes objects env facts
  rcases scopeTests_eq (P := P) channel with ⟨hall, heq⟩ | ⟨key, rfl, hkey, heq⟩
  · obtain rfl := Option.some.inj (heq.symm.trans h)
    simp only [List.mem_singleton, forall_eq, hgroup, Option.isSome_some, Option.some_inj,
      decide_eq_true_iff, true_and]
    refine ⟨fun htype => ⟨htype, fun key hchannel hne => ?_⟩, fun h => h.1⟩
    rw [hchannel] at hall
    exact absurd (by simpa using hall) hne
  · rw [heq, Option.map_eq_some_iff] at h
    obtain ⟨test, htest, rfl⟩ := h
    obtain ⟨hsome, hvalue⟩ := checkedRuleTest_channel attributes objects hsha htest
      env facts
    simp only [List.forall_mem_cons, List.not_mem_nil, false_implies, implies_true, and_true,
      hgroup, hsome, Option.isSome_some, Option.some_inj, decide_eq_true_iff, true_and]
    refine ⟨fun ⟨htype, hmatch⟩ => ⟨htype, fun k hk _ => ?_⟩,
      fun ⟨htype, hhash⟩ => ⟨htype, ?_⟩⟩
    · rw [hvalue htype, Option.some_inj, decide_eq_true_iff] at hmatch
      rwa [← hk]
    · rw [hvalue htype, Option.some_inj, decide_eq_true_iff]
      exact hhash key rfl hkey

theorem channelTest_field {key : String} {test : RuleTest}
    (h : channelTest P .host key = some test) : test.field = .channelHash := by
  rw [channelTest, Option.map_eq_some_iff] at h
  obtain ⟨hash, -, rfl⟩ := h
  rfl

theorem scopeTests_field (h : scopeTests P .host channel = some scope) :
    ∀ t ∈ scope, t.field ≠ .localTransmission := by
  rcases scopeTests_eq (P := P) channel with ⟨-, heq⟩ | ⟨key, -, -, heq⟩
  · obtain rfl := Option.some.inj (heq.symm.trans h)
    simp [cond]
  · rw [heq, Option.map_eq_some_iff] at h
    obtain ⟨test, htest, rfl⟩ := h
    have hfield := channelTest_field htest
    simp [cond, hfield]

theorem senderTests_eq (b : Block) :
    (b.sender.all (fun sender => sender = "") = true ∧ senderTests b = []) ∨
      ∃ sender, b.sender = some sender ∧ sender ≠ "" ∧ senderTests b =
        [cond .channelSender (if b.senderOnly then .equals else .notEquals) (.text sender)] := by
  rw [senderTests]
  cases b.sender with
  | none => exact Or.inl ⟨rfl, rfl⟩
  | some sender =>
    by_cases hsender : sender = ""
    · exact Or.inl ⟨by simpa using hsender, if_pos hsender⟩
    · exact Or.inr ⟨sender, rfl, hsender, if_neg hsender⟩

theorem opinionDraft_field (h : scopeTests P .host b.channel = some scope) :
    ∀ t ∈ (opinionDraft b scope).conditions, t.field ≠ .localTransmission := by
  intro t ht
  rcases List.mem_append.mp ht with hleft | hsender
  · rcases List.mem_append.mp hleft with hscope | hpiece
    · exact scopeTests_field h t hscope
    · obtain ⟨piece, -, rfl⟩ := List.mem_map.mp hpiece
      simp [bodyContains, cond]
  · rcases senderTests_eq b with ⟨-, heq⟩ | ⟨sender, -, -, heq⟩
    · rw [heq] at hsender
      exact absurd hsender List.not_mem_nil
    · rw [heq, List.mem_singleton] at hsender
      rw [hsender]
      simp [cond]

/-- The rule of a text block, and what its evaluation comes down to. -/
theorem meansWhatItSays_iff (d : Detector) (hb : b.body.isOpinion = true) :
    MeansWhatItSays P attributes d b ↔
      ∃ scope cs, scopeTests P .host b.channel = some scope ∧
        (opinionDraft b scope).conditions.mapM RuleTest.condition = some cs ∧
        ∀ (objects : PolicyObjects) (env : ParsedPacketEnvelope) (facts : RxFacts), ∃ ok,
          checkedAll P attributes objects (policyFields env facts) cs = some ok ∧
            (ok = true ↔ PlainMeaning P b env facts) := by
  have hrules : ∀ (scope : List RuleTest) (rule : PolicyRule),
      hostRules P [] [opinionDraft b scope] = some [rule] ↔
        (Dialect.host.rule P [] (opinionDraft b scope)).policyRule = some rule := by
    intro scope rule
    show ([Dialect.host.rule P [] (opinionDraft b scope)].mapM SpamRule.policyRule) = _ ↔ _
    cases h : (Dialect.host.rule P [] (opinionDraft b scope)).policyRule <;>
      simp [List.mapM_cons, h]
  rw [MeansWhatItSays, plain_opinion d hb]
  constructor
  · rintro ⟨rule, hrule, hmeans⟩
    obtain ⟨drafts, hdrafts, hhost⟩ := Option.bind_eq_some_iff.mp hrule
    obtain ⟨scope, hscope, rfl⟩ := Option.map_eq_some_iff.mp hdrafts
    rw [hrules] at hhost
    obtain ⟨cs, hcs, -⟩ := policyRule_spec hhost
    refine ⟨scope, cs, hscope, hcs, fun objects env facts => ?_⟩
    obtain ⟨st', decision, heval, hmatch⟩ :=
      hmeans { objects := objects } env facts "" 0 {}
    obtain ⟨cs', hcs', hall⟩ := checkedLayers_single P attributes
      (policyFields env facts) hhost { objects := objects } "" 0 {}
    obtain rfl := Option.some.inj (hcs'.symm.trans hcs)
    rw [heval] at hall
    exact ⟨decision.matched, hall.symm, hmatch⟩
  · rintro ⟨scope, cs, hscope, hcs, hall⟩
    obtain ⟨rule, hrule⟩ := policyRule_rule P [] (opinionDraft_field hscope)
      (length_ending_blockDraft b _ _ _)
    refine ⟨rule, ?_, ?_⟩
    · rw [hscope]
      exact (hrules scope rule).mpr hrule
    · intro policy env facts packetHash now st
      obtain ⟨cs', hcs', heval⟩ := checkedLayers_single P attributes
        (policyFields env facts) hrule policy packetHash now st
      obtain rfl := Option.some.inj (hcs'.symm.trans hcs)
      obtain ⟨ok, hok, hmean⟩ := hall policy.objects env facts
      rw [hok, Option.map_eq_some_iff] at heval
      obtain ⟨⟨st', decision⟩, hlayers, hmatched⟩ := heval
      exact ⟨st', decision, hlayers, by rw [← hmean, ← hmatched]⟩

/-! ### Where nothing collides -/

variable (P attributes) in
theorem checked_sender (h : ∀ sender, b.sender = some sender → objectRef sender = none) :
    (∀ t ∈ senderTests b,
        (checkedRuleTest P attributes objects (policyFields env facts) t).isSome) ∧
      ((∀ t ∈ senderTests b,
          checkedRuleTest P attributes objects (policyFields env facts) t = some true) ↔
        ∀ sender, b.sender = some sender → sender ≠ "" →
          (facts.channelSender = some sender ↔ b.senderOnly = true)) := by
  rcases senderTests_eq b with ⟨hall, heq⟩ | ⟨sender, hsender, hne, heq⟩
  · rw [heq]
    refine ⟨by simp, ⟨fun _ sender hsender hne => ?_, by simp⟩⟩
    rw [hsender] at hall
    exact absurd (by simpa using hall) hne
  · have htest : checkedRuleTest P attributes objects (policyFields env facts)
        (cond .channelSender (if b.senderOnly then .equals else .notEquals) (.text sender)) =
        some (Decidable.decide (facts.channelSender = some sender ↔ b.senderOnly = true)) :=
      checkedTest_sender objects env facts (h sender hsender) b.senderOnly
    rw [heq]
    simp only [List.mem_singleton, forall_eq, htest, Option.isSome_some, Option.some_inj,
      decide_eq_true_iff, true_and]
    refine ⟨fun hmatch s hs _ => ?_, fun hmatch => hmatch sender hsender hne⟩
    obtain rfl := Option.some.inj (hsender.symm.trans hs)
    exact hmatch

theorem NoCollision.readAs (h : NoCollision P attributes b) {piece : String}
    (hpiece : piece ∈ b.body.pieces) : ∃ r, Spam.readAs P attributes piece = some r := by
  rcases h.pieces piece hpiece with hplain | ⟨r, hr, -, -⟩
  · exact ⟨piece, readAs_of_objectRef_none hplain⟩
  · exact ⟨r, hr⟩

variable {facts} in
theorem bodyHas_trans {q r : String} (hq : bodyHas facts q = true)
    (hqr : textContains q r = true) : bodyHas facts r = true := by
  rw [bodyHas, Option.any_eq_true] at hq ⊢
  obtain ⟨body, hbody, hcontains⟩ := hq
  exact ⟨body, hbody, textContains_trans hcontains hqr⟩

variable {objects env facts} in
theorem checkedRuleTest_piece {piece r : String} (h : readAs P attributes piece = some r) :
    checkedRuleTest P attributes objects (policyFields env facts) (bodyContains piece) =
      some (bodyHas facts r) :=
  checkedTest_piece objects env facts h

/-- The pieces of a block without collisions are found where they are. -/
theorem checked_pieces (h : NoCollision P attributes b) : (∀ t ∈ b.body.pieces.map bodyContains,
        (checkedRuleTest P attributes objects (policyFields env facts) t).isSome) ∧
      ((∀ t ∈ b.body.pieces.map bodyContains,
          checkedRuleTest P attributes objects (policyFields env facts) t = some true) ↔
        ∀ piece ∈ b.body.pieces, bodyHas facts piece = true) := by
  simp only [List.forall_mem_map]
  refine ⟨fun piece hpiece => ?_, fun hall piece hpiece => ?_, fun hall piece hpiece => ?_⟩
  · obtain ⟨r, hr⟩ := h.readAs hpiece
    rw [checkedRuleTest_piece hr]
    rfl
  · -- a piece that is a reference is part of a piece that is none
    have hplain : ∀ q ∈ b.body.pieces, objectRef q = none → bodyHas facts q = true := by
      intro q hq href
      have htest := hall q hq
      rwa [checkedRuleTest_piece (readAs_of_objectRef_none href), Option.some_inj] at htest
    rcases h.pieces piece hpiece with href | ⟨r, -, ⟨q, hq, href, hcontains⟩, -⟩
    · exact hplain piece hpiece href
    · exact bodyHas_trans (hplain q hq href) hcontains
  · rcases h.pieces piece hpiece with href | ⟨r, hr, -, ⟨q, hq, -, hcontains⟩⟩
    · rw [checkedRuleTest_piece (readAs_of_objectRef_none href), hall piece hpiece]
    · rw [checkedRuleTest_piece hr, bodyHas_trans (hall q hq) hcontains]

/-- **Without a collision the rule means what the block says.** -/
theorem meansWhatItSays_of_noCollision (hsha : ∀ data, P.sha256 data ≠ []) (d : Detector) (hb : b.body.isOpinion = true) (h : NoCollision P attributes b) :
    MeansWhatItSays P attributes d b := by
  rw [meansWhatItSays_iff d hb]
  obtain ⟨scope, hscope⟩ := Option.isSome_iff_exists.mp
    ((isSome_scopeTests (P := P) b.channel).mpr h.channel)
  obtain ⟨cs, hcs⟩ := Option.isSome_iff_exists.mp
    (isSome_mapM_condition (opinionDraft_field hscope))
  refine ⟨scope, cs, hscope, hcs, fun objects env facts => ?_⟩
  obtain ⟨hscopeSome, hscopeIff⟩ := checked_scope attributes objects env facts hsha hscope
  obtain ⟨hpieceSome, hpieceIff⟩ := checked_pieces objects env facts h
  obtain ⟨hsenderSome, hsenderIff⟩ := checked_sender P attributes objects env facts
    h.sender
  have hall : ∀ p : RuleTest → Prop, (∀ t ∈ (opinionDraft b scope).conditions, p t) ↔
      (∀ t ∈ scope, p t) ∧ (∀ t ∈ b.body.pieces.map bodyContains, p t) ∧
        ∀ t ∈ senderTests b, p t := by
    intro p
    show (∀ t ∈ scope ++ b.body.pieces.map bodyContains ++ senderTests b, p t) ↔ _
    simp only [List.mem_append, or_imp, forall_and, and_assoc]
  obtain ⟨ok, hok⟩ := Option.isSome_iff_exists.mp (checkedAll_isSome P attributes objects
    (policyFields env facts) hcs ((hall _).mpr ⟨hscopeSome, hpieceSome, hsenderSome⟩))
  refine ⟨ok, hok, ?_⟩
  have htrue := checkedAll_eq_true P attributes objects (policyFields env facts) hcs
  rw [hok, Option.some_inj, hall, hscopeIff, hpieceIff, hsenderIff] at htrue
  rw [htrue]
  exact ⟨fun ⟨⟨hg, hc⟩, hp, hs⟩ => ⟨hg, hc, hp, hs⟩, fun ⟨hg, hc, hp, hs⟩ => ⟨⟨hg, hc⟩, hp, hs⟩⟩

/-! ### Where something collides -/

variable (attributes) in
/-- Where every other test holds, the last one decides. -/
theorem checkedAll_last (fields : PolicyFields) {ts : List RuleTest} {t : RuleTest}
    {cs : List Condition} (hcs : (ts ++ [t]).mapM RuleTest.condition = some cs)
    (hts : ∀ u ∈ ts, checkedRuleTest P attributes objects fields u = some true) :
    checkedAll P attributes objects fields cs =
      checkedRuleTest P attributes objects fields t := by
  induction ts generalizing cs with
  | nil =>
    simp only [List.nil_append, List.mapM_cons, List.mapM_nil, Option.pure_def,
      Option.bind_eq_bind, Option.bind_some, Option.bind_eq_some_iff, Option.some.injEq] at hcs
    obtain ⟨c, hc, rfl⟩ := hcs
    rw [checkedAll, checkedMatches_condition hc]
    rcases checkedRuleTest P attributes objects fields t with _ | ok
    · rfl
    · cases ok <;> rfl
  | cons u ts ih =>
    simp only [List.cons_append, List.mapM_cons, Option.pure_def, Option.bind_eq_bind,
      Option.bind_eq_some_iff, Option.some.injEq] at hcs
    obtain ⟨c, hc, rest, hrest, rfl⟩ := hcs
    rw [checkedAll, checkedMatches_condition hc, hts u List.mem_cons_self, Option.bind_some,
      if_pos rfl]
    exact ih hrest (fun v hv => hts v (List.mem_cons_of_mem _ hv))

/-- A packet of group text on the channel of a block. -/
theorem exists_packet (hsha : ∀ data, P.sha256 data ≠ []) (h : scopeTests P .host channel = some scope) :
    ∃ env : ParsedPacketEnvelope, env.payloadType = payloadTypeGrpTxt ∧
      ∀ key, channel = some key → key ≠ "" → hasChannelHash P env key := by
  have hbyte : ∃ byte, ∀ key, channel = some key → key ≠ "" →
      channelHashByte P key = some (hex02 byte) := by
    rcases scopeTests_eq (P := P) channel with ⟨hall, -⟩ | ⟨key, rfl, -, heq⟩
    · refine ⟨0, fun key hchannel hne => ?_⟩
      rw [hchannel] at hall
      exact absurd (by simpa using hall) hne
    · rw [heq, Option.map_eq_some_iff] at h
      obtain ⟨test, htest, -⟩ := h
      obtain ⟨hash, hhash, -⟩ := Option.map_eq_some_iff.mp htest
      obtain ⟨byte, rfl⟩ := channelHashByte_eq hsha hhash
      exact ⟨byte, fun k hk _ => by rwa [← Option.some.inj hk]⟩
  obtain ⟨byte, hbyte⟩ := hbyte
  refine ⟨⟨0, 0, payloadTypeGrpTxt, 0, 0, 0, 1, 0, [], [byte], 0, none⟩, rfl, ?_⟩
  intro key hchannel hne
  rw [hasChannelHash, hbyte key hchannel hne]
  rfl

/-- What a message of a block holds besides its text: the sender that is meant. -/
def meantFacts (b : Block) (body : String) : RxFacts :=
  { channelMessageBody := some body, channelSender := if b.senderOnly then b.sender else none }

theorem meantFacts_sender (b : Block) (body sender : String) (h : b.sender = some sender) :
    (meantFacts b body).channelSender = some sender ↔ b.senderOnly = true := by
  rw [meantFacts]
  cases b.senderOnly <;> simp [h]

/-- The tests of a text block, as the verdicts on its messages leave them. -/
structure Verdicts (P : Primitives) (attributes : Attributes) (b : Block)
    (scope : List RuleTest) (cs : List Condition) : Prop where
  rendered : scopeTests P .host b.channel = some scope
  conditions : (opinionDraft b scope).conditions.mapM RuleTest.condition = some cs
  means : ∀ (objects : PolicyObjects) (env : ParsedPacketEnvelope) (facts : RxFacts), ∃ ok,
    checkedAll P attributes objects (policyFields env facts) cs = some ok ∧
      (ok = true ↔ PlainMeaning P b env facts)

section

variable {b : Block} {scope : List RuleTest} {cs : List Condition}

variable {env facts} in
/-- Every test of the rule holds on a packet that is meant. -/
theorem Verdicts.holds (h : Verdicts P attributes b scope cs) (objects : PolicyObjects)
    (hmeans : PlainMeaning P b env facts) :
    ∀ t ∈ (opinionDraft b scope).conditions,
      checkedRuleTest P attributes objects (policyFields env facts) t = some true := by
  obtain ⟨ok, hok, hiff⟩ := h.means objects env facts
  rw [hiff.mpr hmeans] at hok
  exact (checkedAll_eq_true P attributes _ _ h.conditions).mp hok

/-- A packet on which every test holds is meant. -/
theorem Verdicts.meant (h : Verdicts P attributes b scope cs)
    (hholds : ∀ t ∈ (opinionDraft b scope).conditions,
      checkedRuleTest P attributes {} (policyFields env facts) t = some true) :
    PlainMeaning P b env facts := by
  obtain ⟨ok, hok, hiff⟩ := h.means {} env facts
  rw [(checkedAll_eq_true P attributes _ _ h.conditions).mpr hholds, Option.some_inj] at hok
  exact hiff.mp hok.symm

theorem mem_conditions_piece {piece : String} (h : piece ∈ b.body.pieces) :
    bodyContains piece ∈ (opinionDraft b scope).conditions :=
  List.mem_append_left _ (List.mem_append_right _ (List.mem_map_of_mem h))

/-- Each piece is read as some text, or nothing would ever match. -/
theorem Verdicts.readAs (h : Verdicts P attributes b scope cs)
    (hsha : ∀ data, P.sha256 data ≠ []) {piece : String} (hpiece : piece ∈ b.body.pieces) :
    ∃ r, Spam.readAs P attributes piece = some r := by
  cases hread : Spam.readAs P attributes piece with
  | some r => exact ⟨r, rfl⟩
  | none =>
    obtain ⟨env, htype, hchannel⟩ := exists_packet hsha h.rendered
    obtain ⟨body, hbody, -⟩ := exists_text_containing b.body.pieces ""
    have hmeans : PlainMeaning P b env (meantFacts b body) :=
      ⟨htype, hchannel, hbody, fun sender hsender _ => meantFacts_sender b body sender hsender⟩
    have htest := h.holds {} hmeans _ (mem_conditions_piece hpiece)
    exact absurd htest (checkedTest_unread env (meantFacts b body) hread)

/-- The texts that the pieces are read as. -/
def readings (P : Primitives) (attributes : Attributes) (pieces : List String) : List String :=
  pieces.filterMap (Spam.readAs P attributes)

variable {objects env facts} in
/-- The pieces are found in a body with all their readings. -/
theorem Verdicts.holds_pieces (h : Verdicts P attributes b scope cs)
    (hsha : ∀ data, P.sha256 data ≠ [])
    (hbody : ∀ r ∈ readings P attributes b.body.pieces, bodyHas facts r = true) :
    ∀ t ∈ b.body.pieces.map bodyContains,
      checkedRuleTest P attributes objects (policyFields env facts) t = some true := by
  rw [List.forall_mem_map]
  intro piece hpiece
  obtain ⟨r, hr⟩ := h.readAs hsha hpiece
  rw [checkedRuleTest_piece hr, hbody r (List.mem_filterMap.mpr ⟨piece, hpiece, hr⟩)]

/-- The sender is no reference: its own message would be judged the wrong way. -/
theorem Verdicts.sender (h : Verdicts P attributes b scope cs)
    (hsha : ∀ data, P.sha256 data ≠ []) (hentries : EntriesPlain P attributes)
    {sender : String} (hsender : b.sender = some sender) : objectRef sender = none := by
  cases href : objectRef sender with
  | none => rfl
  | some ref =>
    obtain ⟨env, htype, hchannel⟩ := exists_packet hsha h.rendered
    obtain ⟨body, hbody, -⟩ := exists_text_containing
      (b.body.pieces ++ readings P attributes b.body.pieces) ""
    let facts : RxFacts := { channelMessageBody := some body, channelSender := some sender }
    have hpieces : ∀ piece ∈ b.body.pieces, bodyHas facts piece = true :=
      fun piece hpiece => hbody piece (List.mem_append_left _ hpiece)
    have hreadings : ∀ r ∈ readings P attributes b.body.pieces, bodyHas facts r = true :=
      fun r hr => hbody r (List.mem_append_right _ hr)
    -- the message is meant exactly if the block is for its sender only
    have hmeant : PlainMeaning P b env facts ↔ b.senderOnly = true := by
      constructor
      · intro hmeans
        exact (hmeans.sender sender hsender (ne_empty_of_objectRef href)).mp rfl
      · intro honly
        refine ⟨htype, hchannel, hpieces, fun s hs _ => ?_⟩
        obtain rfl := Option.some.inj (hsender.symm.trans hs)
        exact ⟨fun _ => honly, fun _ => rfl⟩
    obtain ⟨ok, hok, hiff⟩ := h.means {} env facts
    rcases senderTests_eq b with ⟨hall, -⟩ | ⟨s, hs, -, heq⟩
    · rw [hsender] at hall
      exact absurd (by simpa using hall) (ne_empty_of_objectRef href)
    · obtain rfl := Option.some.inj (hsender.symm.trans hs)
      have hcs := h.conditions
      rw [show (opinionDraft b scope).conditions =
        scope ++ b.body.pieces.map bodyContains ++ senderTests b from rfl, heq] at hcs
      have hlast := checkedAll_last attributes {} (policyFields env facts) hcs (by
          intro t ht
          rcases List.mem_append.mp ht with hscope | hpiece
          · exact (checked_scope attributes _ env _ hsha h.rendered).2.mpr ⟨htype, hchannel⟩ t hscope
          · exact h.holds_pieces hsha hreadings t hpiece)
      have honly : ok = b.senderOnly := by
        rw [Bool.eq_iff_iff, hiff, hmeant]
      rw [hok, honly] at hlast
      exact absurd hlast.symm
        (checkedTest_sender_reference hentries env facts href rfl b.senderOnly)

/-- Each piece is part of what some piece is read as. -/
theorem Verdicts.piece_in_reading (h : Verdicts P attributes b scope cs)
    (hsha : ∀ data, P.sha256 data ≠ []) (hentries : EntriesPlain P attributes)
    {piece : String} (hpiece : piece ∈ b.body.pieces) (hne : piece ≠ "") :
    ∃ r ∈ readings P attributes b.body.pieces, textContains r piece = true := by
  obtain ⟨env, htype, hchannel⟩ := exists_packet hsha h.rendered
  obtain ⟨body, hbody, honly⟩ := exists_text_containing
    (readings P attributes b.body.pieces) piece
  have hfound : ∀ r ∈ readings P attributes b.body.pieces,
      bodyHas (meantFacts b body) r = true := hbody
  refine honly hne ?_
  refine (h.meant env (meantFacts b body) ?_).pieces piece hpiece
  intro t ht
  rcases List.mem_append.mp ht with hleft | hsender
  · rcases List.mem_append.mp hleft with hscope | hpieces
    · exact (checked_scope attributes _ env _ hsha h.rendered).2.mpr ⟨htype, hchannel⟩ t hscope
    · exact h.holds_pieces hsha hfound t hpieces
  · exact (checked_sender P attributes _ env _ (fun sender hs => h.sender hsha hentries hs)).2.mpr
      (fun sender hs _ => meantFacts_sender b body sender hs) t hsender

/-- What a piece is read as is part of some piece. -/
theorem Verdicts.reading_in_piece (h : Verdicts P attributes b scope cs)
    (hsha : ∀ data, P.sha256 data ≠ []) {r : String}
    (hr : r ∈ readings P attributes b.body.pieces) :
    ∃ q ∈ b.body.pieces, textContains q r = true := by
  obtain ⟨piece, hpiece, hread⟩ := List.mem_filterMap.mp hr
  by_cases hne : r = ""
  · subst hne
    exact ⟨piece, hpiece, textContains_iff.mpr List.nil_infix⟩
  · obtain ⟨env, htype, hchannel⟩ := exists_packet hsha h.rendered
    obtain ⟨body, hbody, honly⟩ := exists_text_containing b.body.pieces r
    refine honly hne ?_
    have hmeans : PlainMeaning P b env (meantFacts b body) :=
      ⟨htype, hchannel, hbody, fun sender hsender _ => meantFacts_sender b body sender hsender⟩
    have htest := h.holds {} hmeans _ (mem_conditions_piece hpiece)
    rwa [checkedRuleTest_piece hread, Option.some_inj] at htest

theorem objectRef_of_reading (hentries : EntriesPlain P attributes) {pieces : List String}
    {r : String} (hr : r ∈ readings P attributes pieces) : objectRef r = none := by
  obtain ⟨piece, -, hread⟩ := List.mem_filterMap.mp hr
  rw [Spam.readAs] at hread
  cases href : objectRef piece with
  | none =>
    rw [href] at hread
    rwa [← Option.some.inj hread]
  | some ref =>
    rw [href] at hread
    obtain ⟨group, name⟩ := ref
    simp only at hread
    split_ifs at hread
    exact hentries group name r hread

/-- **Each piece is part of a piece that is no reference.** A longest counterexample
would be equal to what it is read as. -/
theorem Verdicts.covered (h : Verdicts P attributes b scope cs)
    (hsha : ∀ data, P.sha256 data ≠ []) (hentries : EntriesPlain P attributes) :
    ∀ (n : ℕ) (piece : String), piece ∈ b.body.pieces →
      (b.body.pieces.map (fun q => q.toList.length)).sum < piece.toList.length + n →
      ∃ q ∈ b.body.pieces, objectRef q = none ∧ textContains q piece = true := by
  intro n
  induction n with
  | zero =>
    intro piece hpiece hlen
    have hle := List.single_le_sum (l := b.body.pieces.map (fun q => q.toList.length))
      (fun _ _ => Nat.zero_le _) _ (List.mem_map_of_mem hpiece)
    omega
  | succ n ih =>
    intro piece hpiece hlen
    by_cases href : objectRef piece = none
    · exact ⟨piece, hpiece, href, textContains_self piece⟩
    · have hne : piece ≠ "" := by
        rintro rfl
        exact href (by decide)
      obtain ⟨r, hr, hpr⟩ := h.piece_in_reading hsha hentries hpiece hne
      obtain ⟨q, hq, hqr⟩ := h.reading_in_piece hsha hr
      have hle1 := (textContains_iff.mp hpr).length_le
      have hle2 := (textContains_iff.mp hqr).length_le
      rcases Nat.lt_or_ge piece.toList.length q.toList.length with hlt | hge
      · obtain ⟨w, hw, hplain, hwq⟩ := ih q hq (by omega)
        exact ⟨w, hw, hplain, textContains_trans hwq (textContains_trans hqr hpr)⟩
      · have heq : piece = r := String.toList_inj.mp
          ((textContains_iff.mp hpr).eq_of_length (by omega))
        exact absurd (heq ▸ objectRef_of_reading hentries hr) href

end

/-- **A block that means what it says has no collision.** -/
theorem noCollision_of_meansWhatItSays (hsha : ∀ data, P.sha256 data ≠ [])
    (hentries : EntriesPlain P attributes) (d : Detector)
    (hb : b.body.isOpinion = true) (h : MeansWhatItSays P attributes d b) :
    NoCollision P attributes b := by
  obtain ⟨scope, cs, hscope, hcs, hmeans⟩ := (meansWhatItSays_iff d hb).mp h
  have hv : Verdicts P attributes b scope cs := ⟨hscope, hcs, hmeans⟩
  have hcovered := fun piece hpiece => hv.covered hsha hentries
    ((b.body.pieces.map (fun q => q.toList.length)).sum + 1) piece hpiece (by omega)
  refine ⟨(isSome_scopeTests (P := P) b.channel).mp (by rw [hscope]; rfl),
    fun sender hsender => hv.sender hsha hentries hsender, fun piece hpiece => ?_⟩
  obtain ⟨r, hread⟩ := hv.readAs hsha hpiece
  refine Or.inr ⟨r, hread, hcovered piece hpiece, ?_⟩
  obtain ⟨q, hq, hqr⟩ :=
    hv.reading_in_piece hsha (List.mem_filterMap.mpr ⟨piece, hpiece, hread⟩)
  obtain ⟨w, hw, hplain, hwq⟩ := hcovered q hq
  exact ⟨w, hw, hplain, textContains_trans hwq hqr⟩

/-- **A text block means what it says on the host repeater exactly if none of its
texts collides with a reference.** -/
theorem meansWhatItSays_iff_noCollision (hsha : ∀ data, P.sha256 data ≠ [])
    (hentries : EntriesPlain P attributes) (d : Detector) {b : Block}
    (hb : b.body.isOpinion = true) :
    MeansWhatItSays P attributes d b ↔ NoCollision P attributes b :=
  ⟨noCollision_of_meansWhatItSays hsha hentries d hb,
    meansWhatItSays_of_noCollision hsha d hb⟩

end

/-! ### A text that names a method -/

/-- Some attributes of the object model: a method, and a setting of the model. -/
def modelAttributes : Attributes := fun group name =>
  if group = "copy" then .raises
  else if group = "model_config" ∧ name = "extra" then .value (.str "forbid")
  else .value .none

theorem entriesPlain_modelAttributes (P : Primitives) : EntriesPlain P modelAttributes := by
  intro group name r hr
  rw [modelAttributes] at hr
  split_ifs at hr
  · exact absurd hr (by simp [AttributeValue.text])
  · obtain rfl := Option.some.inj hr
    show objectRef "forbid" = none
    decide
  · exact absurd hr (by simp [AttributeValue.text])

/-- A text block that the user made a moment ago. -/
def quotedBlock (text : String) (sender : Option String) : Block :=
  { key := "text:1"
    body := .text text
    channel := none
    reason := "duplicate"
    source := .dedupe
    created := 0
    expires := 900
    sender := sender }

/-- An ordinary text keeps its meaning. -/
theorem meansWhatItSays_hello :
    (∀ data, (fixedPrimitives [7]).sha256 data ≠ []) ∧
      EntriesPlain (fixedPrimitives [7]) modelAttributes ∧
      MeansWhatItSays (fixedPrimitives [7]) modelAttributes { config := {}, clock := 0 }
        (quotedBlock "hello from @copy.me" (some "Bob")) := by
  have hsha : ∀ data, (fixedPrimitives [7]).sha256 data ≠ [] := fun _ => by
    simp [fixedPrimitives]
  refine ⟨hsha, entriesPlain_modelAttributes _, ?_⟩
  refine (meansWhatItSays_iff_noCollision hsha (entriesPlain_modelAttributes _) _ rfl).mpr
    ⟨?_, ?_, ?_⟩
  · intro key hkey
    exact absurd hkey (by simp [quotedBlock])
  · intro sender hsender
    obtain rfl := Option.some.inj hsender
    decide
  · intro piece hpiece
    rw [List.mem_singleton.mp hpiece]
    exact Or.inl (by decide)

/-- A text that starts with `@copy.` makes its rule fail on the very message it is
about. -/
theorem not_forall_meansWhatItSays :
    ¬ ∀ (P : Primitives) (attributes : Attributes) (d : Detector) (b : Block),
      (∀ data, P.sha256 data ≠ []) → EntriesPlain P attributes → b.body.isOpinion = true →
        MeansWhatItSays P attributes d b := by
  intro hall
  have hsha : ∀ data, (fixedPrimitives [7]).sha256 data ≠ [] := fun _ => by
    simp [fixedPrimitives]
  have hmeans := hall (fixedPrimitives [7]) modelAttributes { config := {}, clock := 0 }
    (quotedBlock "@copy.me and spread it" none) hsha (entriesPlain_modelAttributes _) rfl
  obtain ⟨scope, cs, hscope, hcs, hverdict⟩ := (meansWhatItSays_iff _ rfl).mp hmeans
  have hv : Verdicts (fixedPrimitives [7]) modelAttributes
    (quotedBlock "@copy.me and spread it" none) scope cs := ⟨hscope, hcs, hverdict⟩
  obtain ⟨r, hr⟩ := hv.readAs hsha (List.mem_singleton.mpr rfl)
  have hnone : readAs (fixedPrimitives [7]) modelAttributes "@copy.me and spread it" = none := by
    decide
  simp [hnone] at hr

end RtfmEv.Spam
