import RtfmEv.HostRepeater.Settings
import RtfmEv.Lib.OrderedDict
import RtfmEv.Primitives

/-!
# Policy rules (`app/services/host_repeater_policy.py`)

Rules are checked top-down and the first enabled rule that matches and decides
wins; otherwise the default action applies. A rule steps aside when its
probability roll fails or when a throttle window grants the match its free
pass. `evaluateLayers` runs two managed rule lists around the user's rules.
-/

namespace RtfmEv.HostRepeater

open RtfmEv.Lib

structure PolicyDecision where
  action : PolicyAction
  matched : Bool
  ruleId : Option String := none
  ruleName : Option String := none
  /-- rules that matched but let this packet slip within their budget -/
  passes : List String := []

/-! ### Throttle budgets -/

abbrev policyStateMax : ℕ := 4096

/-- Last free-pass time by rule id and throttle key. -/
structure PolicyState where
  lastPass : OrderedDict (String × String) ℚ := OrderedDict.empty

/-- Take the window's free pass if this match gets it. -/
def PolicyState.takePass (st : PolicyState) (ruleId key : String) (now : ℚ) (windowS : ℕ) :
    PolicyState × Bool :=
  let slot := (ruleId, key)
  let refused := match st.lastPass.get? slot with
    | some last => decide (now - last < windowS)
    | none => false
  if refused then (st, false)
  else (⟨st.lastPass.touch slot now policyStateMax⟩, true)

/-! ### Dynamically typed comparison -/

namespace PyValue

/-- The number a value is in an arithmetic comparison. -/
def num? : PyValue → Option ℚ
  | .bool b => some (if b then 1 else 0)
  | .int n => some n
  | .float x => some x
  | _ => Option.none

mutual

/-- `a == b`. -/
def pyEq : PyValue → PyValue → Bool
  | .none, .none => true
  | .str s, .str t => s == t
  | .list xs, .list ys => pyEqList xs ys
  | a, b =>
    match num? a, num? b with
    | some x, some y => x == y
    | _, _ => false

def pyEqList : List PyValue → List PyValue → Bool
  | [], [] => true
  | x :: xs, y :: ys => pyEq x y && pyEqList xs ys
  | _, _ => false

end

mutual

/-- `a < b`, `none` for a `TypeError`. Lists compare at their first difference. -/
def pyLt : PyValue → PyValue → Option Bool
  | .str s, .str t => some (textLt s t)
  | .list xs, .list ys => pyLtList xs ys
  | a, b =>
    match num? a, num? b with
    | some x, some y => some (x < y)
    | _, _ => Option.none

def pyLtList : List PyValue → List PyValue → Option Bool
  | _, [] => some false
  | [], _ :: _ => some true
  | x :: xs, y :: ys => if pyEq x y then pyLtList xs ys else pyLt x y

end

/-- `a <= b`: equal values, or less. -/
def pyLe (a b : PyValue) : Option Bool :=
  (pyLt a b).map (fun less => less || pyEq a b)

mutual

/-- `repr(v)`. -/
def pyRepr (P : Primitives) : PyValue → String
  | .none => "None"
  | .bool b => if b then "True" else "False"
  | .int n => toString n
  | .float x => P.strFloat x
  | .str s => P.reprStr s
  | .list xs => "[" ++ pyReprItems P xs ++ "]"

def pyReprItems (P : Primitives) : List PyValue → String
  | [] => ""
  | [x] => pyRepr P x
  | x :: xs => pyRepr P x ++ ", " ++ pyReprItems P xs

end

/-- `str(v)`. -/
def pyStr (P : Primitives) : PyValue → String
  | .str s => s
  | v => v.pyRepr P

def isList : PyValue → Bool
  | .list _ => true
  | _ => false

end PyValue

/-- `_compare`: the operators on an actual and an expected value. -/
def compareValues (P : Primitives) (actual : PyValue) (op : PolicyOperator)
    (expected : PyValue) : Bool :=
  let ordered := fun (r : Option Bool) =>
    match actual, expected with
    | .none, _ => false
    | _, .none => false
    | _, _ => r.getD false
  match op with
  | .equals => actual.pyEq expected
  | .notEquals => !actual.pyEq expected
  | .greaterThan => ordered (expected.pyLt actual)
  | .greaterOrEqual => ordered (expected.pyLe actual)
  | .lessThan => ordered (actual.pyLt expected)
  | .lessOrEqual => ordered (actual.pyLe expected)
  | .contains =>
    match actual, expected with
    | .list xs, e => xs.any (fun x => x.pyEq e)
    | .str _, .none => false
    | .str s, e => textContains s (e.pyStr P)
    | _, _ => false
  | .isIn =>
    match expected, actual with
    | .list xs, a => xs.any (fun x => x.pyEq a)
    | .str _, .none => false
    | .str s, a => textContains s (a.pyStr P)
    | _, _ => false
  | .intersects =>
    match actual, expected with
    | .list xs, .list ys =>
      -- an unhashable member of either list is a `TypeError`
      xs.all (fun x => !x.isList) && ys.all (fun y => !y.isList) &&
        xs.any (fun x => ys.any (fun y => x.pyEq y))
    | _, _ => false
  | .startsWith =>
    match actual, expected with
    | .str s, .str t => textStartsWith s t
    | _, _ => false
  | .endsWith =>
    match actual, expected with
    | .str s, .str t => textEndsWith s t
    | _, _ => false
  | .matchesRegex => false

/-! ### Conditions -/

/-- `int(text) if text.lstrip("-").isdigit() else float(text)`. -/
def parseNumber (P : Primitives) (text : String) : Option PyValue :=
  let digits := text.toList.dropWhile (· == '-')
  if digits ≠ [] ∧ digits.all Char.isDigit then
    let magnitude : ℕ := digits.foldl (fun n c => 10 * n + (c.toNat - 48)) 0
    match text.toList.length - digits.length with
    | 0 => some (.int magnitude)
    | 1 => some (.int (-magnitude))
    | _ => none
  else (P.parseFloat text).map PyValue.float

/-- A form-entered string in the type of the packet field. -/
def coerceScalar (P : Primitives) (actual : PyValue) (expected : PyValue) : PyValue :=
  match expected with
  | .str s =>
    let text := strip s
    match actual with
    | .bool _ =>
      let word := lowerAscii text
      if ["true", "1", "yes"].contains word then .bool true
      else if ["false", "0", "no"].contains word then .bool false
      else expected
    | .int _ => (parseNumber P text).getD expected
    | .float _ => (parseNumber P text).getD expected
    | _ => expected
  | _ => expected

def coerceLike (P : Primitives) (actual expected : PyValue) : PyValue :=
  match expected with
  | .list xs => .list (xs.map (coerceScalar P actual))
  | _ => coerceScalar P actual expected

/-- `_resolve_value`: an object reference stands for its list. -/
def resolveValue (objects : PolicyObjects) (value : PyValue) : PyValue :=
  match value with
  | .str s =>
    match objectRef s with
    | none => value
    | some (group, name) =>
      match objects.lookup group name with
      | none => .none
      | some xs => .list (xs.map PyValue.str)
  | _ => value

def normalizeHex (P : Primitives) (value : PyValue) : PyValue :=
  match value with
  | .list xs => .list (xs.map (fun v => .str (lowerAscii (strip (v.pyStr P)))))
  | .str s => .str (lowerAscii (strip s))
  | _ => value

/-- One scalar of `_normalize_channel_hash`. -/
def normalizeChannelScalar (value : PyValue) : PyValue :=
  match value with
  | .int n => .str (String.ofList (hexByte (UInt8.ofNat (n % 256).toNat)))
  | .str s =>
    let text := removePrefixText (lowerAscii (strip s)) "0x"
    .str (zfillTwo text)
  | _ => value

def normalizeChannelHash (value : PyValue) : PyValue :=
  match value with
  | .list xs => .list (xs.map normalizeChannelScalar)
  | _ => normalizeChannelScalar value

/-- The value of each packet field. -/
abbrev PolicyFields := PolicyField → PyValue

/-- One `{field, op, value}` test. -/
def testMatches (P : Primitives) (objects : PolicyObjects) (fields : PolicyFields)
    (field : PolicyField) (op : PolicyOperator) (value : PyValue) : Bool :=
  let expected := resolveValue objects value
  let actual := fields field
  if op = .matchesRegex then
    match actual, expected with
    | .str text, .str pattern =>
      pattern.toList.length ≤ maxRegexLength && (P.reSearch pattern text).getD false
    | _, _ => false
  else if field = .pathHashes then
    compareValues P (normalizeHex P actual) op (normalizeHex P expected)
  else if field = .channelHash then
    compareValues P (normalizeChannelHash actual) op (normalizeChannelHash expected)
  else compareValues P actual op (coerceLike P actual expected)

mutual

/-- `_matches`. -/
def conditionMatches (P : Primitives) (objects : PolicyObjects) (fields : PolicyFields) :
    Condition → Bool
  | .empty => false
  | .all cs => allMatch P objects fields cs
  | .any cs => anyMatch P objects fields cs
  | .test field op value => testMatches P objects fields field op value

def allMatch (P : Primitives) (objects : PolicyObjects) (fields : PolicyFields) :
    List Condition → Bool
  | [] => true
  | c :: cs => conditionMatches P objects fields c && allMatch P objects fields cs

def anyMatch (P : Primitives) (objects : PolicyObjects) (fields : PolicyFields) :
    List Condition → Bool
  | [] => false
  | c :: cs => conditionMatches P objects fields c || anyMatch P objects fields cs

end

/-! ### Rules -/

/-- The big-endian number of the first four bytes. -/
def fromBytesBE (b : Bytes) : ℕ := b.foldl (fun n x => 256 * n + x.toNat) 0

/-- `_roll`: the same packet always gets the same verdict. -/
def roll (P : Primitives) (rule : PolicyRule) (packetHash : String) : Bool :=
  match rule.then.prob with
  | none => true
  | some prob =>
    prob ≥ 100 ||
      fromBytesBE ((P.sha256 (encodeUtf8 (rule.id ++ ":" ++ packetHash))).take 4) % 100 < prob

/-- The budget a match belongs to. -/
def throttleKeyText (P : Primitives) (key : ThrottleKey) (fields : PolicyFields) : String :=
  let text := fun (v : PyValue) => match v with
    | .none => ""
    | v => v.pyStr P
  match key with
  | .rule => ""
  | .sender => text (fields .channelSender)
  | .pathFirst => text (fields .pathFirst)
  | .channel =>
    match fields .channelName with
    | .none => text (fields .channelHash)
    | v => text v

def throttlePass (P : Primitives) (rule : PolicyRule) (fields : PolicyFields) (now : ℚ)
    (st : PolicyState) : PolicyState × Bool :=
  match rule.then.throttleSeconds with
  | none => (st, false)
  | some window => st.takePass rule.id (throttleKeyText P rule.then.throttleKey fields) now window

/-- The rules of one layer, with the passes granted so far; `none` when no rule
of the layer decides. -/
def evaluateRules (P : Primitives) (objects : PolicyObjects) (fields : PolicyFields)
    (packetHash : String) (now : ℚ) :
    List PolicyRule → PolicyState → List String → PolicyState × List String × Option PolicyDecision
  | [], st, passes => (st, passes, none)
  | rule :: rules, st, passes =>
    if !rule.enabled || !conditionMatches P objects fields rule.condition ||
        !roll P rule packetHash then
      evaluateRules P objects fields packetHash now rules st passes
    else
      match throttlePass P rule fields now st with
      | (st, true) =>
        evaluateRules P objects fields packetHash now rules st (passes ++ [rule.id])
      | (st, false) =>
        (st, passes, some
          { action := rule.then.action
            matched := true
            ruleId := some rule.id
            ruleName := if rule.name = "" then none else some rule.name
            passes := passes })

/-- `evaluate_layers`: managed rules, the user's rules while they are enabled,
managed rules, and then the default action. -/
def evaluateLayers (P : Primitives) (before : List PolicyRule) (policy : PolicyConfig)
    (after : List PolicyRule) (fields : PolicyFields) (packetHash : String) (now : ℚ)
    (st : PolicyState) : PolicyState × PolicyDecision :=
  let rules := before ++ (if policy.enabled then policy.rules else []) ++ after
  match evaluateRules P policy.objects fields packetHash now rules st [] with
  | (st, _, some decision) => (st, decision)
  | (st, passes, none) =>
    (st, { action := if policy.enabled then policy.defaultAction else .allow
           matched := false
           passes := passes })

end RtfmEv.HostRepeater
