import RtfmEv.HostRepeater.Forwarding
import RtfmEv.Spam.Render

/-!
# Rendered rules on the host repeater

A rendered rule becomes one of the policy rules of the host repeater
(`app/services/spam_backend_host.py`), where the values of its tests go through
the value language of `app/services/host_repeater_policy.py`. A text that looks
like `@group.name` is looked up on the object model of the policy, whatever
attribute of that model it names, so here an evaluation can fail.
-/

namespace RtfmEv.Spam

open RtfmEv.Lib RtfmEv.HostRepeater RtfmEv.PathUtils

/-! ### Rules -/

/-- The packet field of the host repeater, if it has it. -/
def RuleField.policyField : RuleField → Option PolicyField
  | .payloadType => some .payloadType
  | .localTransmission => none
  | .channelHash => some .channelHash
  | .channelSender => some .channelSender
  | .channelMessageBody => some .channelMessageBody
  | .pathHashes => some .pathHashes
  | .pathFirst => some .pathFirst
  | .hopCount => some .hopCount

def RuleOp.policyOperator : RuleOp → PolicyOperator
  | .equals => .equals
  | .notEquals => .notEquals
  | .contains => .contains
  | .isIn => .isIn

def RuleValue.pyValue : RuleValue → PyValue
  | .flag b => .bool b
  | .number n => .int n
  | .text s => .str s
  | .texts xs => .list (xs.map PyValue.str)

def RuleAction.policyAction : RuleAction → PolicyAction
  | .allow => .allow
  | .drop => .drop

/-- A test on a field of the host repeater. -/
def RuleTest.condition (t : RuleTest) : Option Condition :=
  t.field.policyField.map (fun field => .test field t.op.policyOperator t.value.pyValue)

/-- `PolicyRule.model_validate` of a rule made for the host repeater. -/
def SpamRule.policyRule (r : SpamRule) : Option PolicyRule :=
  match r.id with
  | .number _ => none
  | .text id =>
    if id = "" ∨ maxHostId < id.toList.length ∨ maxName < r.name.toList.length then none
    else
      (r.conditions.mapM RuleTest.condition).map (fun conditions =>
        { id := id, name := r.name, condition := .all conditions,
          «then» := { action := r.action.policyAction } })

/-- `HostBackend.apply`: the policy rules of drafts. -/
def hostRules (P : Primitives) (used : List RuleId) (drafts : List Draft) :
    Option (List PolicyRule) :=
  (Dialect.host.number P used drafts).mapM SpamRule.policyRule

/-! ### Attributes of the object model -/

/-- What an attribute of the object model gives for a name. -/
inductive AttributeValue
  /-- the attribute has no `get` -/
  | raises
  | value (v : PyValue)
  /-- an object that equals no text, with its `str` -/
  | object (shown : String)

/-- The attributes of the object model that are no object groups. -/
abbrev Attributes := String → String → AttributeValue

/-- The attribute and the name that a value refers to, where the attribute is no
object group. -/
def classReference (value : PyValue) : Option (String × String) :=
  match value with
  | .str s => (objectRef s).filter
      (fun ref => ref.1 ≠ "channel_hash_groups" && ref.1 ≠ "pubkey_groups")
  | _ => none

/-- One test on a value that is resolved. -/
def resolvedTest (P : Primitives) (fields : PolicyFields) (field : PolicyField)
    (op : PolicyOperator) (expected : PyValue) : Bool :=
  let actual := fields field
  if op = .matchesRegex then
    match actual, expected with
    | .str text, .str pattern =>
      pattern.toList.length ≤ maxRegexLength && (P.reSearch pattern text).getD false
    | _, _ => false
  else if field = .pathHashes then
    compareValues P (normalizeHex P actual) op (normalizeHex P expected)
  else if field = .channelHash then
    compareValues P (normalizeChannelHash actual) op (normalizeChannelHash expected)
  else compareValues P actual op (coerceLike P actual expected)

theorem testMatches_eq (P : Primitives) (objects : PolicyObjects) (fields : PolicyFields)
    (field : PolicyField) (op : PolicyOperator) (value : PyValue) :
    testMatches P objects fields field op value =
      resolvedTest P fields field op (resolveValue objects value) := rfl

/-- One test on an object, which only a text can contain. -/
def objectTest (fields : PolicyFields) (field : PolicyField) (op : PolicyOperator)
    (shown : String) : Bool :=
  match op with
  | .notEquals => true
  | .contains =>
    match fields field with
    | .str s => textContains s shown
    | _ => false
  | _ => false

section

variable (P : Primitives) (attributes : Attributes) (objects : PolicyObjects)
  (fields : PolicyFields)

/-- One test; `none` for an `AttributeError`. -/
def checkedTest (field : PolicyField) (op : PolicyOperator) (value : PyValue) : Option Bool :=
  match classReference value with
  | none => some (testMatches P objects fields field op value)
  | some (group, name) =>
    match attributes group name with
    | .raises => none
    | .value v => some (resolvedTest P fields field op v)
    | .object shown => some (objectTest fields field op shown)

mutual

/-- `_matches`, with its exception. -/
def checkedMatches : Condition → Option Bool
  | .empty => some false
  | .all cs => checkedAll cs
  | .any cs => checkedAny cs
  | .test field op value => checkedTest P attributes objects fields field op value

def checkedAll : List Condition → Option Bool
  | [] => some true
  | c :: cs => (checkedMatches c).bind (fun ok => if ok then checkedAll cs else some false)

def checkedAny : List Condition → Option Bool
  | [] => some false
  | c :: cs => (checkedMatches c).bind (fun ok => if ok then some true else checkedAny cs)

end

/-- The rules of one layer, as `evaluateRules`. -/
def checkedRules (packetHash : String) (now : ℚ) :
    List PolicyRule → PolicyState → List String →
      Option (PolicyState × List String × Option PolicyDecision)
  | [], st, passes => some (st, passes, none)
  | rule :: rules, st, passes =>
    if rule.enabled then
      match checkedMatches P attributes objects fields rule.condition with
      | none => none
      | some false => checkedRules packetHash now rules st passes
      | some true =>
        if roll P rule packetHash then
          match throttlePass P rule fields now st with
          | (st, true) => checkedRules packetHash now rules st (passes ++ [rule.id])
          | (st, false) =>
            some (st, passes, some
              { action := rule.then.action
                matched := true
                ruleId := some rule.id
                ruleName := if rule.name = "" then none else some rule.name
                passes := passes })
        else checkedRules packetHash now rules st passes
    else checkedRules packetHash now rules st passes

end

/-- `evaluate_layers`, with its exception. -/
def checkedLayers (P : Primitives) (attributes : Attributes) (before : List PolicyRule)
    (policy : PolicyConfig) (after : List PolicyRule) (fields : PolicyFields)
    (packetHash : String) (now : ℚ) (st : PolicyState) : Option (PolicyState × PolicyDecision) :=
  let rules := before ++ (if policy.enabled then policy.rules else []) ++ after
  (checkedRules P attributes policy.objects fields packetHash now rules st []).map (fun r =>
    match r with
    | (st, _, some decision) => (st, decision)
    | (st, passes, none) =>
      (st, { action := if policy.enabled then policy.defaultAction else .allow
             matched := false
             passes := passes }))

/-! ### Where nothing refers to an attribute -/

mutual

/-- No value of a condition refers to an attribute that is no object group. -/
def NoClassReference : Condition → Prop
  | .empty => True
  | .all cs => NoClassReferences cs
  | .any cs => NoClassReferences cs
  | .test _ _ value => classReference value = none

def NoClassReferences : List Condition → Prop
  | [] => True
  | c :: cs => NoClassReference c ∧ NoClassReferences cs

end

section

variable {P : Primitives} {attributes : Attributes} {objects : PolicyObjects}
  {fields : PolicyFields}

mutual

theorem checkedMatches_of_noClassReference :
    ∀ c : Condition, NoClassReference c →
      checkedMatches P attributes objects fields c =
        some (conditionMatches P objects fields c)
  | .empty, _ => by rw [checkedMatches, conditionMatches]
  | .all cs, h => by
    rw [checkedMatches, conditionMatches]
    exact checkedAll_of_noClassReference cs h
  | .any cs, h => by
    rw [checkedMatches, conditionMatches]
    exact checkedAny_of_noClassReference cs h
  | .test field op value, h => by
    have hval : classReference value = none := h
    rw [checkedMatches, conditionMatches, checkedTest, hval]

theorem checkedAll_of_noClassReference :
    ∀ cs : List Condition, NoClassReferences cs →
      checkedAll P attributes objects fields cs = some (allMatch P objects fields cs)
  | [], _ => by rw [checkedAll, allMatch]
  | c :: cs, h => by
    rw [checkedAll, allMatch, checkedMatches_of_noClassReference c h.1, Option.bind_some]
    cases conditionMatches P objects fields c with
    | false => rfl
    | true => exact checkedAll_of_noClassReference cs h.2

theorem checkedAny_of_noClassReference :
    ∀ cs : List Condition, NoClassReferences cs →
      checkedAny P attributes objects fields cs = some (anyMatch P objects fields cs)
  | [], _ => by rw [checkedAny, anyMatch]
  | c :: cs, h => by
    rw [checkedAny, anyMatch, checkedMatches_of_noClassReference c h.1, Option.bind_some]
    cases conditionMatches P objects fields c with
    | true => rfl
    | false => exact checkedAny_of_noClassReference cs h.2

end

theorem checkedRules_of_noClassReference (packetHash : String) (now : ℚ) :
    ∀ (rules : List PolicyRule) (st : PolicyState) (passes : List String),
      (∀ rule ∈ rules, NoClassReference rule.condition) →
      checkedRules P attributes objects fields packetHash now rules st passes =
        some (evaluateRules P objects fields packetHash now rules st passes) := by
  intro rules
  induction rules with
  | nil => intro st passes _; rfl
  | cons rule rules ih =>
    intro st passes h
    have hrest := fun st passes =>
      ih st passes (fun r hr => h r (List.mem_cons_of_mem _ hr))
    have hhead : checkedMatches P attributes objects fields rule.condition =
        some (conditionMatches P objects fields rule.condition) :=
      checkedMatches_of_noClassReference rule.condition (h rule List.mem_cons_self)
    rw [checkedRules, evaluateRules, hhead]
    cases rule.enabled with
    | false => simpa using hrest st passes
    | true =>
      cases conditionMatches P objects fields rule.condition with
      | false => simpa using hrest st passes
      | true =>
        cases roll P rule packetHash with
        | false => simpa using hrest st passes
        | true =>
          simp only [if_true, Bool.not_true, Bool.or_self, Bool.false_eq_true, if_false]
          rcases throttlePass P rule fields now st with ⟨st', pass⟩
          cases pass with
          | true => exact hrest st' (passes ++ [rule.id])
          | false => rfl

end

/-! ### A rule with one test after the other -/

section

variable {P : Primitives} {attributes : Attributes} {objects : PolicyObjects}
  {fields : PolicyFields} {cs : List Condition}

/-- One test of a rendered rule. -/
def checkedRuleTest (P : Primitives) (attributes : Attributes) (objects : PolicyObjects)
    (fields : PolicyFields) (t : RuleTest) : Option Bool :=
  t.field.policyField.bind (fun field =>
    checkedTest P attributes objects fields field t.op.policyOperator t.value.pyValue)

theorem checkedMatches_condition {t : RuleTest} {c : Condition} (h : t.condition = some c) :
    checkedMatches P attributes objects fields c =
      checkedRuleTest P attributes objects fields t := by
  rw [RuleTest.condition, Option.map_eq_some_iff] at h
  obtain ⟨field, hfield, rfl⟩ := h
  rw [checkedMatches, checkedRuleTest, hfield, Option.bind_some]

variable (P attributes objects fields) in
theorem checkedAll_eq_true {ts : List RuleTest} (h : ts.mapM RuleTest.condition = some cs) :
    checkedAll P attributes objects fields cs = some true ↔
      ∀ t ∈ ts, checkedRuleTest P attributes objects fields t = some true := by
  induction ts generalizing cs with
  | nil =>
    obtain rfl : [] = cs := Option.some.inj h
    simp [checkedAll]
  | cons t ts ih =>
    simp only [List.mapM_cons, Option.pure_def, Option.bind_eq_bind, Option.bind_eq_some_iff,
      Option.some.injEq] at h
    obtain ⟨c, hc, rest, hrest, rfl⟩ := h
    rw [checkedAll, checkedMatches_condition hc, List.forall_mem_cons, ← ih hrest]
    rcases checkedRuleTest P attributes objects fields t with _ | ok
    · simp
    · cases ok <;> simp

variable (P attributes objects fields) in
theorem checkedAll_isSome {ts : List RuleTest} (h : ts.mapM RuleTest.condition = some cs)
    (hts : ∀ t ∈ ts, (checkedRuleTest P attributes objects fields t).isSome) :
    (checkedAll P attributes objects fields cs).isSome := by
  induction ts generalizing cs with
  | nil =>
    obtain rfl : [] = cs := Option.some.inj h
    rfl
  | cons t ts ih =>
    simp only [List.mapM_cons, Option.pure_def, Option.bind_eq_bind, Option.bind_eq_some_iff,
      Option.some.injEq] at h
    obtain ⟨c, hc, rest, hrest, rfl⟩ := h
    obtain ⟨ok, hok⟩ := Option.isSome_iff_exists.mp (hts t List.mem_cons_self)
    rw [checkedAll, checkedMatches_condition hc, hok, Option.bind_some]
    cases ok with
    | false => rfl
    | true => exact ih hrest (fun u hu => hts u (List.mem_cons_of_mem _ hu))

theorem policyRule_spec {r : SpamRule} {rule : PolicyRule} (h : r.policyRule = some rule) :
    ∃ cs, r.conditions.mapM RuleTest.condition = some cs ∧ rule.condition = .all cs ∧
      rule.enabled = true ∧ rule.then = { action := r.action.policyAction } := by
  rw [SpamRule.policyRule] at h
  cases hid : r.id with
  | number n => rw [hid] at h; exact absurd h (by simp)
  | text id =>
    rw [hid] at h
    simp only at h
    split_ifs at h
    rw [Option.map_eq_some_iff] at h
    obtain ⟨cs, hcs, rfl⟩ := h
    exact ⟨cs, hcs, rfl, rfl, rfl⟩

variable (P attributes fields) in
/-- The verdict on a packet of a rendered rule that stands alone. -/
theorem checkedLayers_single {r : SpamRule} {rule : PolicyRule} (h : r.policyRule = some rule)
    (policy : PolicyConfig) (packetHash : String) (now : ℚ) (st : PolicyState) :
    ∃ cs, r.conditions.mapM RuleTest.condition = some cs ∧
      (checkedLayers P attributes [rule] { policy with rules := [] } [] fields packetHash now
        st).map (fun r => r.2.matched) =
        checkedAll P attributes policy.objects fields cs := by
  obtain ⟨cs, hcs, hcond, henabled, hthen⟩ := policyRule_spec h
  refine ⟨cs, hcs, ?_⟩
  have hroll : roll P rule packetHash = true := by rw [roll, hthen]
  have hpass : throttlePass P rule fields now st = (st, false) := by rw [throttlePass, hthen]
  have hrules : [rule] ++ (if policy.enabled then ([] : List PolicyRule) else []) ++ [] =
      [rule] := by split_ifs <;> rfl
  rw [checkedLayers, hrules, checkedRules, henabled, hcond, checkedMatches]
  simp only [if_true]
  rcases checkedAll P attributes policy.objects fields cs with _ | ok
  · rfl
  · cases ok with
    | false => rfl
    | true => simp only [hroll, if_true, hpass, Option.map_some]

/-! ### The tests of a rendered rule -/

theorem hexDigit_plain : ∀ n < 16, isSpaceChar (hexDigit n) = false ∧
    (hexDigit n).toLower = hexDigit n ∧ hexDigit n ≠ 'x' ∧ hexDigit n ≠ '@' := by decide

theorem normalizeChannelScalar_hex02 (b : UInt8) :
    normalizeChannelScalar (.str (hex02 b)) = .str (hex02 b) := by
  have hb : b.toNat < 256 := b.toNat_lt
  obtain ⟨hs1, hl1, hx1, -⟩ := hexDigit_plain (b.toNat / 16) (by omega)
  obtain ⟨hs2, hl2, hx2, -⟩ := hexDigit_plain (b.toNat % 16) (by omega)
  have hstrip : strip (hex02 b) = hex02 b := by
    simp [strip, hex02, hexByte, lstripChars, hs1, hs2]
  have hlower : lowerAscii (hex02 b) = hex02 b := by
    simp [lowerAscii, hex02, hexByte, hl1, hl2]
  have hprefix : removePrefixText (hex02 b) "0x" = hex02 b := by
    rw [removePrefixText, if_neg]
    simp [textStartsWith, hex02, hexByte, Ne.symm hx2]
  show PyValue.str (zfillTwo (removePrefixText (lowerAscii (strip (hex02 b))) "0x")) = _
  rw [hstrip, hlower, hprefix, zfillTwo, if_neg]
  simp [hex02, hexByte]

theorem objectRef_hex02 (b : UInt8) : objectRef (hex02 b) = none := by
  have hb : b.toNat < 256 := b.toNat_lt
  obtain ⟨-, -, -, hat⟩ := hexDigit_plain (b.toNat / 16) (by omega)
  rw [objectRef, hex02, hexByte, String.toList_ofList]
  split
  · rename_i h
    exact absurd (List.cons.inj h).1 hat
  · rfl

variable {key s : String}

theorem channelHashByte_eq {P : Primitives} (hsha : ∀ data, P.sha256 data ≠ []) {hash : String}
    (h : channelHashByte P key = some hash) : ∃ b, hash = hex02 b := by
  rw [channelHashByte, Option.map_eq_some_iff] at h
  obtain ⟨secret, -, rfl⟩ := h
  simp only
  generalize (if secret.length = 32 ∧ List.drop 16 secret = List.replicate 16 0 then
    List.take 16 secret else secret) = data
  cases hd : P.sha256 data with
  | nil => exact absurd hd (hsha data)
  | cons b bs => exact ⟨b, rfl⟩

theorem checkedTest_of_noReference {field : PolicyField} {op : PolicyOperator} {value : PyValue}
    (h : classReference value = none) :
    checkedTest P attributes objects fields field op value =
      some (testMatches P objects fields field op value) := by
  rw [checkedTest, h]

theorem classReference_text (h : objectRef s = none) : classReference (.str s) = none := by
  rw [classReference, h]
  rfl

theorem resolveValue_text (h : objectRef s = none) : resolveValue objects (.str s) = .str s := by
  rw [resolveValue, h]

variable (P attributes objects) in
theorem checkedRuleTest_groupText (env : ParsedPacketEnvelope) (facts : RxFacts) :
    checkedRuleTest P attributes objects (policyFields env facts) isGroupText =
      some (Decidable.decide (env.payloadType = payloadTypeGrpTxt)) := by
  show checkedTest P attributes objects (policyFields env facts) .payloadType .equals
    (.int (payloadTypeGrpTxt : ℕ)) = _
  rw [checkedTest_of_noReference rfl]
  show some (((env.payloadType : ℤ) : ℚ) == ((payloadTypeGrpTxt : ℕ) : ℤ)) = _
  rw [Option.some_inj, Bool.eq_iff_iff, beq_iff_eq, decide_eq_true_iff]
  norm_cast

/-- The channel hash byte of a packet is that of the channel. -/
def hasChannelHash (P : Primitives) (env : ParsedPacketEnvelope) (key : String) : Prop :=
  (env.payload.head?).map hex02 = channelHashByte P key

instance (P : Primitives) (env : ParsedPacketEnvelope) (key : String) :
    Decidable (hasChannelHash P env key) :=
  inferInstanceAs (Decidable ((env.payload.head?).map hex02 = channelHashByte P key))

theorem policyFields_channelHash {env : ParsedPacketEnvelope} (facts : RxFacts)
    (h : env.payloadType = payloadTypeGrpTxt) :
    policyFields env facts .channelHash =
      ((env.payload.head?).map hex02).elim PyValue.none PyValue.str := by
  simp only [policyFields]
  rw [if_pos (Or.inl h)]

theorem resolvedTest_channelHash (fields : PolicyFields) (value : PyValue) :
    resolvedTest P fields .channelHash .equals value =
      (normalizeChannelHash (fields .channelHash)).pyEq (normalizeChannelHash value) := by
  simp only [resolvedTest, reduceCtorEq, if_false, if_true, compareValues]

/-- A missing channel hash, or one byte, against the byte of a channel. -/
theorem pyEq_channelHash (head : Option UInt8) (byte : UInt8) :
    (normalizeChannelHash ((head.map hex02).elim PyValue.none PyValue.str)).pyEq
        (normalizeChannelHash (.str (hex02 byte))) =
      Decidable.decide (head.map hex02 = some (hex02 byte)) := by
  have hnorm : ∀ b, normalizeChannelHash (.str (hex02 b)) = .str (hex02 b) :=
    normalizeChannelScalar_hex02
  rw [hnorm]
  cases head with
  | none => simp [normalizeChannelHash, normalizeChannelScalar, PyValue.pyEq, PyValue.num?]
  | some b =>
    rw [Option.map_some, Option.elim_some, hnorm, PyValue.pyEq, Bool.eq_iff_iff, beq_iff_eq,
      decide_eq_true_iff, Option.some_inj]

variable (attributes objects) in
theorem checkedRuleTest_channel (hsha : ∀ data, P.sha256 data ≠ [])
    {t : RuleTest} (h : channelTest P .host key = some t) (env : ParsedPacketEnvelope)
    (facts : RxFacts) :
    (checkedRuleTest P attributes objects (policyFields env facts) t).isSome ∧
      (env.payloadType = payloadTypeGrpTxt →
        checkedRuleTest P attributes objects (policyFields env facts) t =
          some (Decidable.decide (hasChannelHash P env key))) := by
  rw [channelTest, Option.map_eq_some_iff] at h
  obtain ⟨hash, hhash, rfl⟩ := h
  obtain ⟨byte, rfl⟩ := channelHashByte_eq hsha hhash
  have hvalue : checkedRuleTest P attributes objects (policyFields env facts)
      (cond .channelHash .equals (.text (hex02 byte))) =
      some (resolvedTest P (policyFields env facts) .channelHash .equals
        (.str (hex02 byte))) := by
    show checkedTest P attributes objects (policyFields env facts) .channelHash .equals
      (.str (hex02 byte)) = _
    rw [checkedTest_of_noReference (classReference_text (objectRef_hex02 byte)), testMatches_eq,
      resolveValue_text (objectRef_hex02 byte)]
  rw [hvalue]
  refine ⟨rfl, fun htype => ?_⟩
  rw [resolvedTest_channelHash, policyFields_channelHash facts htype, pyEq_channelHash]
  simp only [hasChannelHash, hhash]

end

/-! ### Ids and names fit -/

theorem length_toList_append (a b : String) :
    (a ++ b).toList.length = a.toList.length + b.toList.length := by
  rw [String.toList_append, List.length_append]

theorem ruleId_host (P : Primitives) (used : List RuleId) (key : String) :
    ∃ id, Dialect.host.ruleId P used (hostPrefix ++ key) = .text id ∧ id ≠ "" ∧
      id.toList.length ≤ maxHostId := by
  have hne : ∀ t : String, hostPrefix ++ t ≠ "" := by
    intro t h
    have hlen := congrArg (fun s : String => s.toList.length) h
    simp only [length_toList_append] at hlen
    exact absurd hlen (by simp [hostPrefix])
  rw [Dialect.ruleId]
  split_ifs with hlen
  · exact ⟨_, rfl, hne key, hlen⟩
  · refine ⟨_, rfl, hne _, ?_⟩
    have hprefix : hostPrefix.toList.length = 5 := rfl
    have hmax : maxHostId = 64 := rfl
    rw [length_toList_append, hprefix, String.toList_ofList, List.length_take]
    omega

theorem length_ending_blockDraft (b : Block) (key : String) (conditions : List RuleTest)
    (action : RuleAction) :
    (Dialect.ending (blockDraft b key conditions action)).toList.length ≤ maxName := by
  show (if originOf b.source = "" then "" else " (" ++ originOf b.source ++ ")").toList.length ≤ _
  cases b.source <;> decide

theorem isSome_mapM_condition {ts : List RuleTest}
    (h : ∀ t ∈ ts, t.field ≠ .localTransmission) : (ts.mapM RuleTest.condition).isSome := by
  induction ts with
  | nil => rfl
  | cons t ts ih =>
    obtain ⟨rest, hrest⟩ := Option.isSome_iff_exists.mp
      (ih (fun u hu => h u (List.mem_cons_of_mem _ hu)))
    have hfield : ∃ field, t.field.policyField = some field := by
      cases ht : t.field with
      | localTransmission => exact absurd ht (h t List.mem_cons_self)
      | _ => exact ⟨_, rfl⟩
    obtain ⟨field, hfield⟩ := hfield
    simp [List.mapM_cons, hrest, RuleTest.condition, hfield]

/-- **A draft on fields of the host repeater is one of its policy rules.** -/
theorem policyRule_rule (P : Primitives) (used : List RuleId) {draft : Draft}
    (hfields : ∀ t ∈ draft.conditions, t.field ≠ .localTransmission)
    (hending : (Dialect.ending draft).toList.length ≤ maxName) :
    ∃ rule, (Dialect.host.rule P used draft).policyRule = some rule := by
  obtain ⟨cs, hcs⟩ := Option.isSome_iff_exists.mp (isSome_mapM_condition hfields)
  obtain ⟨id, hid, hne, hlen⟩ := ruleId_host P used draft.key
  have hname : ¬ maxName < (Dialect.host.rule P used draft).name.toList.length := by
    rw [Dialect.rule, length_toList_append, String.toList_ofList, List.length_take]
    omega
  have hconditions : (Dialect.host.rule P used draft).conditions = draft.conditions := rfl
  have hid' : (Dialect.host.rule P used draft).id = .text id := hid
  rw [SpamRule.policyRule, hid', hconditions, hcs]
  exact ⟨_, if_neg (by push Not; exact ⟨hne, hlen, not_lt.mp hname⟩)⟩

end RtfmEv.Spam
