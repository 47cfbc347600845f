import RtfmEv.Spam.RuleSet

/-!
# The policy of an OpenHop node (`app/services/spam_backend_openhop.py`)

`_reconcile` puts our rules around the rules of others in the policy document of
a node, and writes only when that changes the document. What is not ours is
passed through, and a second pass writes nothing. Every reference to a name list
resolves, unless the text of a block looks like a reference.
-/

namespace RtfmEv.Spam

open RtfmEv.Lib

abbrev spamguardPrefix : String := "spamguard:"

/-- The start of a reference to one of our name lists. -/
abbrev refPrefix : String := "@" ++ openhopObjectGroup ++ "."

abbrev knownRef : String := refPrefix ++ openhopKnownSenders
abbrev botsRef : String := refPrefix ++ openhopBotSenders

/-- A rule set for a node: every rule has our prefix. -/
structure NodeRules extends RuleSet where
  named : ∀ r ∈ toRuleSet.rules, textStartsWith r.name openhopPrefix = true

/-- Nothing of ours. -/
def NodeRules.empty : NodeRules where
  named := by
    intro r hr
    cases hr

/-- A `policy_engine` document, in which any key may be missing. -/
structure EngineDocument where
  enabled : Option Json := none
  defaultAction : Option String := none
  rules : Option Json := none
  objects : Option Json := none

namespace EngineDocument

def ruleList (d : EngineDocument) : List Json :=
  match d.rules with
  | some (.arr xs) => xs
  | _ => []

def objectList (d : EngineDocument) : List (String × Json) :=
  match d.objects with
  | some (.obj fields) => fields
  | _ => []

def isEnabled (d : EngineDocument) : Bool := (d.enabled.map Json.truthy).getD false

/-- The value that `@rtfmspam.name` stands for. -/
def resolve (d : EngineDocument) (name : String) : Option Json :=
  (Json.field d.objectList openhopObjectGroup).bind (fun group => group.get? name)

end EngineDocument

/-- `_named`. The text of any other value does not start with a prefix of ours. -/
def named (pre : String) (rule : Json) : Bool :=
  match rule.get? "name" with
  | some (.str s) => textStartsWith s pre
  | _ => false

def refersTo (rules : List SpamRule) (ref : String) : Bool :=
  rules.any (fun r => r.conditions.any (fun c => c.value = .text ref))

def theirs (d : EngineDocument) : List Json :=
  d.ruleList.filter (fun rule => !named openhopPrefix rule)

/-- The node runs a spamguard of its own. -/
def refused (d : EngineDocument) : Bool := (theirs d).any (named spamguardPrefix)

def wanted (d : EngineDocument) (desired : NodeRules) : NodeRules :=
  if refused d then .empty else desired

/-- Our name lists, each only while a rule refers to it. -/
def ourObjects (want : NodeRules) : List (String × Json) :=
  (if refersTo want.rules knownRef then
    [(openhopKnownSenders, .arr (want.knownSenders.map Json.str))] else []) ++
  (if refersTo want.rules botsRef then
    [(openhopBotSenders, .arr (want.botSenders.map Json.str))] else [])

def otherObjects (objects : List (String × Json)) : List (String × Json) :=
  objects.filter (fun f => f.1 != openhopObjectGroup)

def targetRules (d : EngineDocument) (want : NodeRules) : List Json :=
  want.before.map SpamRule.toJson ++ theirs d ++ want.after.map SpamRule.toJson

def targetObjects (d : EngineDocument) (want : NodeRules) : List (String × Json) :=
  otherObjects d.objectList ++
    (if ourObjects want = [] then [] else [(openhopObjectGroup, .obj (ourObjects want))])

def targetEnabled (d : EngineDocument) (want : NodeRules) : Bool :=
  d.isEnabled || !want.rules.isEmpty

/-- The document that the node is to have. -/
def target (d : EngineDocument) (desired : NodeRules) : EngineDocument where
  enabled := some (.bool (targetEnabled d (wanted d desired)))
  defaultAction := some (d.defaultAction.getD "allow")
  rules := some (.arr (targetRules d (wanted d desired)))
  objects := some (.obj (targetObjects d (wanted d desired)))

/-- The node has what it is to have. -/
def unchanged (d : EngineDocument) (desired : NodeRules) : Bool :=
  Json.pyEqItems (targetRules d (wanted d desired)) d.ruleList &&
    Json.pyEq (.obj (targetObjects d (wanted d desired))) (.obj d.objectList) &&
    targetEnabled d (wanted d desired) == d.isEnabled

/-- `_reconcile`: the document that is written, if any. -/
def reconcile (d : EngineDocument) (desired : NodeRules) : Option EngineDocument :=
  if unchanged d desired then none else some (target d desired)

theorem reconcile_of_changed {d : EngineDocument} {desired : NodeRules}
    (h : unchanged d desired = false) : reconcile d desired = some (target d desired) := by
  unfold reconcile
  rw [h]
  rfl

/-! ### Whose rules are in a document -/

theorem named_toJson (r : SpamRule) (pre : String) :
    named pre r.toJson = textStartsWith r.name pre := rfl

variable {want : NodeRules} (d : EngineDocument) (desired : NodeRules)

theorem named_of_mem {rules : List SpamRule}
    (hrules : ∀ r ∈ rules, r ∈ want.rules) :
    ∀ j ∈ rules.map SpamRule.toJson, named openhopPrefix j = true := by
  intro j hj
  obtain ⟨r, hr, rfl⟩ := List.mem_map.mp hj
  rw [named_toJson]
  exact want.named r (hrules r hr)

theorem named_before (want : NodeRules) :
    ∀ j ∈ want.before.map SpamRule.toJson, named openhopPrefix j = true :=
  named_of_mem fun _ hr => List.mem_append_left _ hr

theorem named_after (want : NodeRules) :
    ∀ j ∈ want.after.map SpamRule.toJson, named openhopPrefix j = true :=
  named_of_mem fun _ hr => List.mem_append_right _ hr

theorem filter_ours {rules : List Json} (h : ∀ j ∈ rules, named openhopPrefix j = true) :
    rules.filter (fun j => !named openhopPrefix j) = [] := by
  apply List.filter_eq_nil_iff.mpr
  intro j hj
  simp [h j hj]

theorem theirs_target :
    theirs (target d desired) = theirs d := by
  show (targetRules d (wanted d desired)).filter _ = theirs d
  unfold targetRules
  rw [List.filter_append, List.filter_append, filter_ours (named_before _),
    filter_ours (named_after _), List.nil_append, List.append_nil]
  show (d.ruleList.filter _).filter _ = d.ruleList.filter _
  rw [List.filter_filter]
  simp

theorem refused_target :
    refused (target d desired) = refused d := by
  unfold refused
  rw [theirs_target]

theorem wanted_target :
    wanted (target d desired) desired = wanted d desired := by
  unfold wanted
  rw [refused_target]

theorem otherObjects_target :
    otherObjects (target d desired).objectList = otherObjects d.objectList := by
  show otherObjects (targetObjects d (wanted d desired)) = _
  unfold targetObjects otherObjects
  rw [List.filter_append, List.filter_filter]
  split_ifs
  · simp
  · simp

/-- **The second pass.** Nothing is written once the node has the document. -/
theorem reconcile_target :
    reconcile (target d desired) desired = none := by
  have hrules : targetRules (target d desired) (wanted d desired) =
      (target d desired).ruleList := by
    show _ = targetRules d (wanted d desired)
    unfold targetRules
    rw [theirs_target]
  have hobjects : targetObjects (target d desired) (wanted d desired) =
      (target d desired).objectList := by
    show _ = targetObjects d (wanted d desired)
    unfold targetObjects
    rw [otherObjects_target]
  have henabled : targetEnabled (target d desired) (wanted d desired) =
      (target d desired).isEnabled := by
    show (targetEnabled d (wanted d desired) || !(wanted d desired).rules.isEmpty) =
      targetEnabled d (wanted d desired)
    unfold targetEnabled
    rw [Bool.or_assoc, Bool.or_self]
  unfold reconcile unchanged
  rw [wanted_target, hrules, hobjects, henabled, Json.pyEqItems_refl, Json.pyEq_refl]
  simp

/-! ### References -/

/-- Every value that looks like a reference is one of ours. -/
def NoStrayReference (desired : NodeRules) : Prop :=
  ∀ r ∈ desired.rules, ∀ c ∈ r.conditions, ∀ name, c.value = .text (refPrefix ++ name) →
    name = openhopKnownSenders ∨ name = openhopBotSenders

theorem refersTo_of_mem {rules : List SpamRule} {r : SpamRule} (hr : r ∈ rules) {c : RuleTest}
    (hc : c ∈ r.conditions) {ref : String} (href : c.value = .text ref) :
    refersTo rules ref = true := by
  apply List.any_eq_true.mpr
  refine ⟨r, hr, List.any_eq_true.mpr ⟨c, hc, ?_⟩⟩
  exact decide_eq_true href

theorem field_append_of_others {objects : List (String × Json)} (tail : List (String × Json)) :
    Json.field (otherObjects objects ++ tail) openhopObjectGroup =
      Json.field tail openhopObjectGroup := by
  unfold Json.field
  rw [List.find?_append]
  have hnone : (otherObjects objects).find? (fun f => f.1 == openhopObjectGroup) = none := by
    apply List.find?_eq_none.mpr
    intro f hf
    have hne := (List.mem_filter.mp hf).2
    simpa using hne
  rw [hnone]
  rfl

theorem resolve_target (name : String) :
    (target d desired).resolve name = Json.field (ourObjects (wanted d desired)) name := by
  show (Json.field (targetObjects d (wanted d desired)) openhopObjectGroup).bind _ = _
  unfold targetObjects
  rw [field_append_of_others]
  split_ifs with hnone
  · rw [hnone]
    rfl
  · rfl

theorem field_known (h : refersTo want.rules knownRef = true) :
    Json.field (ourObjects want) openhopKnownSenders =
      some (.arr (want.knownSenders.map Json.str)) := by
  unfold ourObjects
  rw [if_pos h]
  rfl

theorem field_bots (h : refersTo want.rules botsRef = true) :
    Json.field (ourObjects want) openhopBotSenders =
      some (.arr (want.botSenders.map Json.str)) := by
  unfold ourObjects
  rw [if_pos h]
  split_ifs <;> rfl

theorem field_stray {name : String} (hknown : name ≠ openhopKnownSenders)
    (hbots : name ≠ openhopBotSenders) : Json.field (ourObjects want) name = none := by
  unfold Json.field
  rw [Option.map_eq_none_iff]
  apply List.find?_eq_none.mpr
  intro f hf
  have hkey : f.1 = openhopKnownSenders ∨ f.1 = openhopBotSenders := by
    unfold ourObjects at hf
    rcases List.mem_append.mp hf with h | h
    · split_ifs at h
      · rw [List.mem_singleton.mp h]
        exact Or.inl rfl
      · cases h
    · split_ifs at h
      · rw [List.mem_singleton.mp h]
        exact Or.inr rfl
      · cases h
  rw [beq_iff_eq]
  rintro rfl
  rcases hkey with h | h
  · exact hknown h
  · exact hbots h

/-! ### What is preserved -/

/-- What a written document keeps of the one that was read. -/
structure Preserved (d : EngineDocument) (desired : NodeRules) (written : EngineDocument) :
    Prop where
  /-- Our rules are around the others, which are in their order. -/
  rules : written.ruleList = (wanted d desired).before.map SpamRule.toJson ++ theirs d ++
    (wanted d desired).after.map SpamRule.toJson
  /-- The rules of others are the ones that were read. -/
  foreign : theirs written = theirs d
  /-- The other objects are the ones that were read. -/
  others : otherObjects written.objectList = otherObjects d.objectList
  defaultAction : written.defaultAction = some (d.defaultAction.getD "allow")
  enabled : d.isEnabled = true → written.isEnabled = true
  /-- A reference of ours stands for a list. -/
  references : ∀ r ∈ (wanted d desired).rules, ∀ c ∈ r.conditions, ∀ name,
    c.value = .text (refPrefix ++ name) → ∃ xs, written.resolve name = some (.arr xs)
  /-- A second pass writes nothing. -/
  settled : reconcile written desired = none

theorem wanted_of_refused {d : EngineDocument} (h : refused d = true) :
    wanted d desired = .empty := by
  unfold wanted
  rw [if_pos h]

theorem wanted_of_not_refused {d : EngineDocument} (h : refused d = false) :
    wanted d desired = desired := by
  unfold wanted
  rw [if_neg]
  simp [h]

/-- **The policy of others is preserved**, and a second pass writes nothing. Our
references resolve exactly when no text of ours only looks like one. -/
theorem preserved_iff {d written : EngineDocument} {desired : NodeRules}
    (h : reconcile d desired = some written) :
    Preserved d desired written ↔ (refused d = true ∨ NoStrayReference desired) := by
  have htarget : target d desired = written := by
    unfold reconcile at h
    split_ifs at h
    exact Option.some.inj h
  subst htarget
  constructor
  · intro hp
    cases href : refused d with
    | true => exact Or.inl rfl
    | false =>
      refine Or.inr ?_
      intro r hr c hc name hname
      rw [← wanted_of_not_refused desired href] at hr
      obtain ⟨xs, hxs⟩ := hp.references r hr c hc name hname
      rw [resolve_target] at hxs
      by_contra hstray
      rw [not_or] at hstray
      rw [field_stray hstray.1 hstray.2] at hxs
      cases hxs
  · intro hcond
    refine ⟨rfl, theirs_target d desired, otherObjects_target d desired, rfl, ?_, ?_,
      reconcile_target d desired⟩
    · intro henabled
      show targetEnabled d (wanted d desired) = true
      unfold targetEnabled
      rw [henabled, Bool.true_or]
    · intro r hr c hc name hname
      rw [resolve_target]
      cases href : refused d with
      | true =>
        rw [wanted_of_refused desired href] at hr
        cases hr
      | false =>
        have hstray : NoStrayReference desired := by
          rcases hcond with hyes | hno
          · rw [href] at hyes
            cases hyes
          · exact hno
        have hmem := hr
        rw [wanted_of_not_refused desired href] at hmem
        rcases hstray r hmem c hc name hname with rfl | rfl
        · exact ⟨_, field_known (refersTo_of_mem hr hc hname)⟩
        · exact ⟨_, field_bots (refersTo_of_mem hr hc hname)⟩

/-! ### A text that looks like a reference -/

/-- A rule that drops a text on one channel. -/
def textRule (text : String) : SpamRule where
  id := .number 700000001
  name := "rtfm-spam:text:0123456789:8B3387E9C5CDEA6AC9E5EDBAA115CD72 (yours)"
  conditions :=
    [⟨.payloadType, .equals, .number 5⟩,
      ⟨.channelHash, .equals, .text "8b3387e9c5cdea6ac9e5edbaa115cd72"⟩,
      ⟨.channelMessageBody, .contains, .text text⟩,
      ⟨.localTransmission, .notEquals, .flag true⟩]
  action := .drop

def textRules (text : String) : NodeRules where
  after := [textRule text]
  named := by
    intro r hr
    rw [List.mem_singleton.mp hr]
    show textStartsWith (textRule "").name openhopPrefix = true
    decide

/-- A node with a rule and an object of its user. -/
def userDocument : EngineDocument where
  enabled := some (.bool true)
  defaultAction := some "allow"
  rules := some (.arr [.obj [("id", .int 1), ("name", .str "mine")]])
  objects := some (.obj [("channels", .obj [("quiet", .arr [.str "8b"])])])

theorem preserved_userDocument :
    Preserved userDocument (textRules "buy cheap coins") (target userDocument
      (textRules "buy cheap coins")) := by
  apply (preserved_iff (reconcile_of_changed (by decide +kernel))).mpr
  refine Or.inr ?_
  intro r hr c hc name hname
  rw [List.mem_singleton.mp hr] at hc
  have hvalue : c.value ≠ .text (refPrefix ++ name) := by
    have hstart : ∀ c ∈ (textRule "buy cheap coins").conditions, ∀ s, c.value = .text s →
        textStartsWith s refPrefix = false := by
      intro c hc s hs
      simp only [textRule, List.mem_cons, List.not_mem_nil, or_false] at hc
      rcases hc with rfl | rfl | rfl | rfl
      · cases hs
      · cases hs
        decide
      · cases hs
        decide
      · cases hs
    intro heq
    have hno := hstart c hc _ heq
    rw [textStartsWith_append] at hno
    cases hno
  exact absurd hname hvalue

/-- The node is asked for a list that it does not have. -/
theorem not_forall_preserved :
    ¬ ∀ (d written : EngineDocument) (desired : NodeRules),
      reconcile d desired = some written → Preserved d desired written := by
  intro hall
  have hp := hall userDocument _ (textRules "@rtfmspam.senders")
    (reconcile_of_changed (by decide +kernel))
  obtain ⟨xs, hxs⟩ := hp.references (textRule "@rtfmspam.senders")
    (by decide +kernel) ⟨.channelMessageBody, .contains, .text "@rtfmspam.senders"⟩
    (by decide +kernel) "senders" (by decide +kernel)
  rw [resolve_target, field_stray (by decide) (by decide)] at hxs
  cases hxs

end RtfmEv.Spam
