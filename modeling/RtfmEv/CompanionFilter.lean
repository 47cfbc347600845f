import Mathlib.Data.List.DropRight
import RtfmEv.Lib.OrderedDict
import RtfmEv.Lib.Text

/-!
# The lists of a companion's receive filter

A companion answers a list command with one line: the entries, joined by commas, and `..` in place
of what did not fit. Texts are lists of code points.

* The regular expressions are matchers that give the value of a match and what comes after it.
* The firmware's side is what it writes for a rule, for the counts of a rule and for a prefix.
* A comma after which an entry is cut off lies between two entries or inside a pattern, and a
  pattern without its space is no entry. So whatever parses before the last comma is the entries
  that are complete.
-/

namespace RtfmEv.CompanionFilter

open RtfmEv.Lib

abbrev Text := List Char

/-! ### The matchers -/

/-- The decimal digits that `\d` matches and `int` reads. Those of ASCII are among them. -/
structure DecimalDigits where
  value : Char → Option ℕ
  value_ascii : ∀ c, c.toNat < 128 → value c = if c.isDigit then some (c.toNat - 48) else none

/-- A rule of the list: throttled to one message in `secs` seconds, or blocked if that is 0. -/
structure Rule where
  pattern : Text
  secs : ℕ
  prob : ℕ
  deriving DecidableEq

structure RuleStat where
  hidden : ℕ
  passes : ℕ
  deriving DecidableEq

section Match

variable (D : DecimalDigits)

/-- `(\d+)`, with the number that `int` makes of it. -/
def matchNumber (s : Text) : Option (ℕ × Text) :=
  let digits := s.takeWhile (fun c => (D.value c).isSome)
  if digits = [] then none
  else some (digits.foldl (fun n c => 10 * n + (D.value c).getD 0) 0,
    s.dropWhile (fun c => (D.value c).isSome))

/-- A number between two words. -/
def matchBetween (before after : Text) (s : Text) : Option (ℕ × Text) := do
  let s ← s.dropPrefix? before
  let number ← matchNumber D s
  let s ← number.2.dropPrefix? after
  pure (number.1, s)

/-- `(?:block|throttle (?P<secs>\d+)s)`. -/
def matchAction (s : Text) : Option (ℕ × Text) :=
  match s.dropPrefix? "block".toList with
  | some s => some (0, s)
  | none => matchBetween D "throttle ".toList ['s'] s

/-- A number between two words that may be left out, and then counts as `missing`. -/
def matchOptional (before after : Text) (missing : ℕ) (s : Text) : ℕ × Text :=
  (matchBetween D before after s).getD (missing, s)

/-- `_RULE_ENTRY_RE`. -/
def matchRule (s : Text) : Option (Rule × Text) :=
  let pattern := s.takeWhile (fun c => c != ' ')
  if pattern = [] then none
  else do
    let s ← (s.dropWhile (fun c => c != ' ')).dropPrefix? [' ']
    let secs ← matchAction D s
    let prob := matchOptional D [' '] ['%'] 100 secs.2
    pure (⟨pattern, secs.1, prob.1⟩, prob.2)

/-- `_RULE_STAT_RE`. -/
def matchStat (s : Text) : Option ((Text × RuleStat) × Text) :=
  -- the pattern with its colon, which comes before the first space
  let word := s.takeWhile (fun c => c != ' ')
  if word.getLast? ≠ some ':' ∨ word.dropLast = [] then none
  else do
    let s ← (s.dropWhile (fun c => c != ' ')).dropPrefix? [' ']
    let hidden ← matchNumber D s
    let passes := matchOptional D " (pass ".toList [')'] 0 hidden.2
    pure ((word.dropLast, ⟨hidden.1, passes.1⟩), passes.2)

end Match

def isHexDigit (c : Char) : Bool :=
  c.isDigit || (('a' ≤ c && c ≤ 'f') || ('A' ≤ c && c ≤ 'F'))

theorem bounds_of_isHexDigit {c : Char} (h : isHexDigit c = true) :
    c.toNat < 128 ∧ isSpaceChar c = false ∧ c ≠ '.' := by
  have hbounds : 48 ≤ c.toNat ∧ c.toNat ≤ 102 := by
    simp only [isHexDigit, Char.isDigit, Bool.or_eq_true, Bool.and_eq_true, decide_eq_true_eq,
      Char.le_def, UInt32.le_iff_toNat_le] at h
    have hn : c.val.toNat = c.toNat := rfl
    have ha : 'a'.val.toNat = 97 ∧ 'f'.val.toNat = 102 ∧ 'A'.val.toNat = 65 ∧
      'F'.val.toNat = 70 := ⟨rfl, rfl, rfl, rfl⟩
    have h0 : '0'.val.toNat = 48 ∧ '9'.val.toNat = 57 := ⟨rfl, rfl⟩
    omega
  refine ⟨by omega, ?_, ?_⟩
  · rw [isSpaceChar]
    simp only [Bool.or_eq_false_iff, Bool.and_eq_false_iff, decide_eq_false_iff_not,
      beq_eq_false_iff_ne]
    omega
  · rintro rfl
    exact absurd hbounds.1 (by decide)

/-! ### The parsers -/

def splitTruncated (reply : Text) : Text × Bool :=
  let text := stripChars reply
  if ['.', '.'].isSuffixOf text then (text.dropLast.dropLast, true) else (text, false)

section Parse

variable {ρ : Type*} (entry : Text → Option (ρ × Text))

/-- The loop of `_walk_entries`. Every turn takes at least one character. -/
def walkFrom : ℕ → Text → Option (List ρ)
  | 0, _ => none
  | fuel + 1, text =>
    if text = [] then some []
    else
      match entry text with
      | none => none
      | some (m, []) => some [m]
      | some (m, c :: rest) => if c = ',' then (walkFrom fuel rest).map (m :: ·) else none

def walkEntries (text : Text) : Option (List ρ) := walkFrom entry (text.length + 1) text

/-- `text[:text.rfind(",")]`, if there is a comma. -/
def beforeLastComma (text : Text) : Option Text :=
  if ',' ∈ text then some (text.rdropWhile (fun c => c != ',')).dropLast else none

/-- The loop of `_parse_entries`: the longest text before a comma that parses. -/
def walkCut : ℕ → Text → List ρ
  | 0, _ => []
  | fuel + 1, cut =>
    match beforeLastComma cut with
    | none => []
    | some cut =>
      match walkEntries entry cut with
      | some ms => ms
      | none => walkCut fuel cut

def parseEntries (reply : Text) : Option (List ρ × Bool) :=
  let (text, truncated) := splitTruncated reply
  if truncated = false ∧ text = "None".toList then some ([], false)
  else if truncated then
    let cut := text.rdropWhile (fun c => c == ',')
    some (walkCut entry cut.length cut, true)
  else (walkEntries entry text).map (fun ms => (ms, false))

end Parse

/-- `_HEX_RE`, whose `$` also matches before a line break at the end. -/
def isHexText (s : Text) : Bool :=
  let digits := s.takeWhile isHexDigit
  !digits.isEmpty && (s.dropWhile isHexDigit == [] || s.dropWhile isHexDigit == ['\n'])

def parsePathList (reply : Text) : Option (List Text × Bool) :=
  let (text, truncated) := splitTruncated reply
  if truncated = false ∧ text = "None".toList then some ([], false)
  else
    let parts := (text.splitOn ',').filter (fun part => part ≠ [])
    let parts := if truncated then parts.dropLast else parts
    if parts.all isHexText then some (parts.map (fun part => part.map Char.toUpper), truncated)
    else none

def parseRuleList (D : DecimalDigits) (reply : Text) : Option (List Rule × Bool) :=
  parseEntries (matchRule D) reply

/-- A dictionary of the given items, where a later one takes the place of an earlier one. -/
def dictOf {α β : Type*} [DecidableEq α] (items : List (α × β)) : OrderedDict α β :=
  items.foldl (fun d e => d.set e.1 e.2) OrderedDict.empty

def parseRuleStats (D : DecimalDigits) (reply : Text) :
    Option (OrderedDict Text RuleStat × Bool) :=
  (parseEntries (matchStat D) reply).map (fun parsed => (dictOf parsed.1, parsed.2))

/-! ### The patterns that are accepted, and what the firmware writes -/

inductive RuleKind where
  | sender
  | text
  deriving DecidableEq

/-- `SENDER_PATTERN_MAX` and `TEXT_PATTERN_MAX`. -/
def RuleKind.patternMax : RuleKind → ℕ
  | sender => 15
  | text => 23

def RuleKind.name : RuleKind → String
  | sender => "sender"
  | text => "text"

def validatePattern (kind : RuleKind) (pattern : Text) : Except String Text :=
  if pattern = [] ∨ pattern.any isSpaceChar then
    .error "A pattern cannot be empty or contain spaces"
  else if pattern.any (fun c => c.toNat < 32) then
    .error "A pattern cannot contain control characters"
  else if kind.patternMax < (String.ofList pattern).utf8ByteSize then
    .error ("A " ++ kind.name ++ " pattern is at most " ++ toString kind.patternMax ++ " bytes")
  else .ok pattern

/-- The text that the firmware writes for a rule, with its throttle and its percentage or
without them. -/
def ruleText (r : Rule) (throttle percent : Bool) : Text :=
  r.pattern ++ ' ' ::
    ((if throttle then "throttle ".toList ++ Nat.toDigits 10 r.secs ++ ['s'] else "block".toList) ++
      if percent then ' ' :: Nat.toDigits 10 r.prob ++ ['%'] else [])

/-- What is left out of the text of a rule is its default. -/
inductive RuleWritten (r : Rule) : Text → Prop
  | intro (throttle percent : Bool) (hsecs : throttle = false → r.secs = 0)
      (hprob : percent = false → r.prob = 100) : RuleWritten r (ruleText r throttle percent)

/-- The counts of a rule, with the passes of its throttle or without them. -/
def statText (s : Text × RuleStat) (passes : Bool) : Text :=
  s.1 ++ ':' :: ' ' :: (Nat.toDigits 10 s.2.hidden ++
    if passes then " (pass ".toList ++ Nat.toDigits 10 s.2.passes ++ [')'] else [])

inductive StatWritten (s : Text × RuleStat) : Text → Prop
  | intro (passes : Bool) (hpasses : passes = false → s.2.passes = 0) :
      StatWritten s (statText s passes)

/-! ### Reading one entry -/

section Entry

variable {D : DecimalDigits} {rest : Text} {c : Char}

theorem value_of_isDigit (h : c.isDigit = true) : D.value c = some (c.toNat - 48) := by
  have hlt : c.toNat < 128 := by
    rw [Char.isDigit, Bool.and_eq_true, decide_eq_true_eq, decide_eq_true_eq,
      UInt32.le_iff_toNat_le] at h
    exact lt_of_le_of_lt h.2 (by decide)
  rw [D.value_ascii c hlt, if_pos h]

theorem matchNumber_append (n : ℕ) (h : ∀ c ∈ rest.head?, D.value c = none) :
    matchNumber D (Nat.toDigits 10 n ++ rest) = some (n, rest) := by
  have hdigits : ∀ c ∈ Nat.toDigits 10 n, D.value c = some (c.toNat - 48) := fun c hc =>
    value_of_isDigit (Nat.isDigit_of_mem_toDigits (by decide) (by decide) hc)
  obtain ⟨htake, hdrop⟩ := span_append (p := fun c => (D.value c).isSome)
    (fun c hc => by rw [hdigits c hc]; rfl) (fun c hc => by rw [h c hc]; rfl)
  have hvalue : (Nat.toDigits 10 n).foldl (fun m c => 10 * m + (D.value c).getD 0) 0 = n := by
    refine Eq.trans (List.foldl_ext _ _ _ fun m c hc => ?_)
      (Nat.ofDigitChars_toDigits (b := 10) (by decide) (by decide))
    rw [hdigits c hc]
    rfl
  rw [matchNumber, htake, hdrop, if_neg Nat.toDigits_ne_nil, hvalue]

theorem matchBetween_append (before : Text) (after : Text) (n : ℕ) (rest : Text)
    (h : D.value c = none) :
    matchBetween D before (c :: after) (before ++ (Nat.toDigits 10 n ++ (c :: after ++ rest))) =
      some (n, rest) := by
  rw [matchBetween, List.dropPrefix?_append_of_beq _ (beq_self_eq_true before), Option.bind_eq_bind,
    Option.bind_some, matchNumber_append n (fun d hd => Option.some.inj hd ▸ h),
    Option.bind_eq_bind, Option.bind_some, List.dropPrefix?_append_of_beq _ (beq_self_eq_true _)]
  rfl

/-- What may come after an entry. -/
def Closes (rest : Text) : Prop := rest = [] ∨ ∃ rest', rest = ',' :: rest'

theorem value_eq_none (hlt : c.toNat < 128) (h : c.isDigit = false) : D.value c = none := by
  rw [D.value_ascii c hlt, h]
  rfl

theorem matchOptional_closes (after : Text) (missing : ℕ) (before : Text) (h : Closes rest) :
    matchOptional D (' ' :: before) after missing rest = (missing, rest) := by
  rcases h with rfl | ⟨rest', rfl⟩
  · rfl
  · rfl

theorem matchOptional_append (before : Text) (after : Text) (n missing : ℕ)
    (rest : Text) (h : D.value c = none) :
    matchOptional D before (c :: after) missing
      (before ++ (Nat.toDigits 10 n ++ (c :: after ++ rest))) = (n, rest) := by
  rw [matchOptional, matchBetween_append before after n rest h]
  rfl

variable {r : Rule} {s : Text × RuleStat} {t : Text}

theorem matchRule_append (ht : RuleWritten r t) (hne : r.pattern ≠ []) (hspace : ' ' ∉ r.pattern)
    (h : Closes rest) : matchRule D (t ++ rest) = some (r, rest) := by
  obtain ⟨throttle, percent, hsecs, hprob⟩ := ht
  obtain ⟨pattern, secs, prob⟩ := r
  have hpercent : matchOptional D [' '] ['%'] 100
      ((if percent then ' ' :: Nat.toDigits 10 prob ++ ['%'] else []) ++ rest) = (prob, rest) := by
    cases percent with
    | false =>
      rw [show prob = 100 from hprob rfl]
      exact matchOptional_closes _ _ _ h
    | true =>
      have hread := matchOptional_append [' '] [] prob 100 rest
        (value_eq_none (D := D) (c := '%') (by decide) rfl)
      rw [if_pos rfl, List.cons_append, List.cons_append, List.append_assoc]
      exact hread
  have haction : ∀ tail, matchAction D ((if throttle then
      "throttle ".toList ++ Nat.toDigits 10 secs ++ ['s'] else "block".toList) ++ tail) =
        some (secs, tail) := by
    intro tail
    cases throttle with
    | false =>
      rw [show secs = 0 from hsecs rfl, if_neg Bool.false_ne_true, matchAction,
        List.dropPrefix?_append_of_beq _ (beq_self_eq_true _)]
    | true =>
      have hread := matchBetween_append "throttle ".toList [] secs tail
        (value_eq_none (D := D) (c := 's') (by decide) rfl)
      have hblock : ∀ x : Text, ("throttle ".toList ++ x).dropPrefix? "block".toList = none :=
        fun _ => rfl
      rw [if_pos rfl, List.append_assoc, List.append_assoc, matchAction, hblock]
      exact hread
  obtain ⟨htake, hdrop⟩ := span_ne hspace
    ((if throttle then "throttle ".toList ++ Nat.toDigits 10 secs ++ ['s'] else "block".toList) ++
      ((if percent then ' ' :: Nat.toDigits 10 prob ++ ['%'] else []) ++ rest))
  rw [ruleText, List.append_assoc, List.cons_append, List.append_assoc, matchRule, htake,
    if_neg hne, hdrop]
  simp only [List.dropPrefix?, beq_self_eq_true, if_true, Option.bind_eq_bind, Option.bind_some,
    haction, hpercent]
  rfl

theorem matchStat_append (ht : StatWritten s t) (hne : s.1 ≠ []) (hspace : ' ' ∉ s.1)
    (h : Closes rest) : matchStat D (t ++ rest) = some (s, rest) := by
  obtain ⟨passes, hpasses⟩ := ht
  obtain ⟨pattern, hidden, count⟩ := s
  set tail := (if passes then " (pass ".toList ++ Nat.toDigits 10 count ++ [')'] else []) ++ rest
    with htail
  have hoptional : matchOptional D " (pass ".toList [')'] 0 tail = (count, rest) := by
    cases passes with
    | false =>
      rw [show count = 0 from hpasses rfl]
      exact matchOptional_closes _ _ _ h
    | true =>
      have hread := matchOptional_append " (pass ".toList [] count 0 rest
        (value_eq_none (D := D) (c := ')') (by decide) rfl)
      rw [htail, if_pos rfl, List.append_assoc, List.append_assoc]
      exact hread
  have hclose : ∀ c ∈ tail.head?, D.value c = none := by
    intro c hc
    cases passes with
    | false =>
      rcases h with rfl | ⟨rest', rfl⟩
      · cases hc
      · cases hc
        exact value_eq_none (by decide) rfl
    | true =>
      cases hc
      exact value_eq_none (by decide) rfl
  have hword : ' ' ∉ pattern ++ [':'] := by
    simpa using hspace
  obtain ⟨htake, hdrop⟩ := span_ne hword (Nat.toDigits 10 hidden ++ tail)
  have htext : statText (pattern, ⟨hidden, count⟩) passes ++ rest =
      (pattern ++ [':']) ++ ' ' :: (Nat.toDigits 10 hidden ++ tail) := by
    simp only [statText, htail, List.append_assoc, List.cons_append, List.nil_append]
  rw [htext, matchStat, htake, hdrop, List.dropLast_concat, List.getLast?_concat,
    if_neg (by simpa using hne)]
  simp only [List.dropPrefix?, beq_self_eq_true, if_true, Option.bind_eq_bind, Option.bind_some,
    matchNumber_append hidden hclose, hoptional]
  rfl

theorem matchRule_of_not_mem (h : ' ' ∉ t) : matchRule D t = none := by
  have hdrop : t.dropWhile (fun c => c != ' ') = [] := by
    refine List.dropWhile_eq_nil_iff.mpr fun c hc => ?_
    rw [bne_iff_ne]
    rintro rfl
    exact h hc
  rw [matchRule, hdrop]
  split_ifs <;> rfl

theorem matchStat_of_not_mem (h : ' ' ∉ t) : matchStat D t = none := by
  have hdrop : t.dropWhile (fun c => c != ' ') = [] := by
    refine List.dropWhile_eq_nil_iff.mpr fun c hc => ?_
    rw [bne_iff_ne]
    rintro rfl
    exact h hc
  rw [matchStat, hdrop]
  split_ifs <;> rfl

end Entry

/-! ### Walking over a list -/

/-- Texts joined by commas. -/
def joined (ts : List Text) : Text := [','].intercalate ts

theorem joined_cons (t : Text) (ts : List Text) :
    joined (t :: ts) = t ++ if ts = [] then [] else ',' :: joined ts := by
  cases ts with
  | nil => simp [joined]
  | cons t' ts => simp [joined]

/-- The first character of a list is one of an entry, and so is its last one. -/
theorem ends_joined {P Q : Char → Prop} {ts : List Text}
    (h : ∀ t ∈ ts, t ≠ [] ∧ (∀ c ∈ t.head?, P c) ∧ ∀ c ∈ t.getLast?, Q c) :
    (∀ c ∈ (joined ts).head?, P c) ∧ ∀ c ∈ (joined ts).getLast?, Q c := by
  induction ts with
  | nil => simp [joined]
  | cons t ts ih =>
    obtain ⟨hne, hhead, hlast⟩ := h t List.mem_cons_self
    obtain ⟨-, ihlast⟩ := ih fun t' ht' => h t' (List.mem_cons_of_mem _ ht')
    rw [joined_cons, List.head?_append_of_ne_nil _ hne]
    refine ⟨hhead, ?_⟩
    split_ifs with hts
    · rwa [List.append_nil]
    · have hjoined : joined ts ≠ [] := by
        obtain ⟨t', ts', rfl⟩ := List.exists_cons_of_ne_nil hts
        rw [joined_cons]
        exact List.append_ne_nil_of_left_ne_nil
          (h t' (List.mem_cons_of_mem _ List.mem_cons_self)).1 _
      rw [List.getLast?_append_of_ne_nil _ (List.cons_ne_nil _ _),
        List.getLast?_cons_of_ne_nil hjoined]
      exact ihlast

section Walk

variable {ρ : Type*} {entry : Text → Option (ρ × Text)} {t text p cut : Text} {ts : List Text}
  {m : ρ} {ms : List ρ} {fuel : ℕ}

/-- A text of an entry: it is read as its value with anything behind it that may follow, and
what stops before one of its commas is not read. -/
structure IsEntry (entry : Text → Option (ρ × Text)) (t : Text) (m : ρ) : Prop where
  space : ' ' ∈ t
  head : ∀ c ∈ t.head?, isSpaceChar c = false
  last : ∀ c ∈ t.getLast?, isSpaceChar c = false ∧ c ≠ '.'
  read : ∀ rest, Closes rest → entry (t ++ rest) = some (m, rest)
  part : ∀ p, p ++ [','] <+: t → entry p = none

theorem IsEntry.ne_nil (h : IsEntry entry t m) : t ≠ [] := List.ne_nil_of_mem h.space

theorem walkFrom_entry (h : IsEntry entry t m) : walkFrom entry (fuel + 1) t = some [m] := by
  have hread := h.read [] (Or.inl rfl)
  rw [List.append_nil] at hread
  rw [walkFrom, if_neg h.ne_nil, hread]

theorem walkFrom_append (h : IsEntry entry t m) :
    walkFrom entry (fuel + 1) (t ++ ',' :: text) = (walkFrom entry fuel text).map (m :: ·) := by
  rw [walkFrom, if_neg (List.append_ne_nil_of_left_ne_nil h.ne_nil _), h.read _ (Or.inr ⟨_, rfl⟩)]
  exact if_pos rfl

theorem walkFrom_joined (h : List.Forall₂ (IsEntry entry) ts ms) (hfuel : (joined ts).length < fuel) :
    walkFrom entry fuel (joined ts) = some ms := by
  induction h generalizing fuel with
  | nil =>
    obtain ⟨fuel, rfl⟩ := Nat.exists_eq_succ_of_ne_zero (Nat.ne_of_gt hfuel)
    rfl
  | @cons t m ts ms ht h ih =>
    rw [joined_cons] at hfuel ⊢
    obtain ⟨fuel, rfl⟩ := Nat.exists_eq_succ_of_ne_zero (Nat.ne_zero_of_lt hfuel)
    split_ifs at hfuel ⊢ with hts
    · subst hts
      cases h
      rw [List.append_nil]
      exact walkFrom_entry ht
    · rw [List.length_append, List.length_cons] at hfuel
      rw [walkFrom_append ht, ih (by omega)]
      rfl

/-- Up to one of its commas a list is read as some of its first entries, if at all. -/
theorem walkFrom_before_comma (h : List.Forall₂ (IsEntry entry) ts ms)
    (hp : p ++ [','] <+: joined ts) (hfuel : p.length < fuel) {l : List ρ}
    (hl : walkFrom entry fuel p = some l) : l <+: ms := by
  induction h generalizing p fuel l with
  | nil => exact absurd (List.prefix_nil.mp hp) (by simp)
  | @cons t m ts ms ht h ih =>
    obtain ⟨fuel, rfl⟩ := Nat.exists_eq_succ_of_ne_zero (Nat.ne_zero_of_lt hfuel)
    by_cases hnil : p = []
    · rw [walkFrom, if_pos hnil] at hl
      cases hl
      exact List.nil_prefix
    have hpart : ¬ p ++ [','] <+: t := fun hin => by
      rw [walkFrom, if_neg hnil, ht.part p hin] at hl
      cases hl
    have hstart : t <+: p := by
      have htext : t <+: joined (t :: ts) := joined_cons t ts ▸ List.prefix_append t _
      rcases List.prefix_or_prefix_of_prefix hp htext with hin | hin
      · exact absurd hin hpart
      · rcases List.prefix_concat_iff.mp hin with heq | hin
        · exact absurd (heq ▸ List.prefix_rfl) hpart
        · exact hin
    obtain ⟨q, rfl⟩ := hstart
    rw [joined_cons, List.append_assoc, List.prefix_append_right_inj] at hp
    split_ifs at hp with hts
    · exact absurd (List.prefix_nil.mp hp) (by simp)
    cases q with
    | nil =>
      rw [List.append_nil, walkFrom_entry ht] at hl
      cases hl
      exact ⟨ms, rfl⟩
    | cons c q =>
      obtain ⟨rfl, hq⟩ := List.cons_prefix_cons.mp hp
      rw [walkFrom_append ht, Option.map_eq_some_iff] at hl
      obtain ⟨l, hl, rfl⟩ := hl
      rw [List.length_append, List.length_cons] at hfuel
      exact List.cons_prefix_cons.mpr ⟨rfl, ih hq (by omega) hl⟩

theorem prefix_of_beforeLastComma (h : beforeLastComma text = some p) : p ++ [','] <+: text := by
  rw [beforeLastComma] at h
  split_ifs at h with hmem
  cases h
  have hne : text.rdropWhile (fun c => c != ',') ≠ [] := fun hnil => by
    have hall := List.rdropWhile_eq_nil_iff.mp hnil ',' hmem
    cases hall
  have hlast := List.rdropWhile_last_not (fun c => c != ',') text hne
  have hcomma : (text.rdropWhile (fun c => c != ',')).getLast hne = ',' := by
    simpa using hlast
  have hsplit := List.dropLast_append_getLast hne
  rw [hcomma] at hsplit
  rw [hsplit]
  exact List.rdropWhile_prefix _ _

/-- Whatever is taken of a list that was cut are its first entries. -/
theorem walkCut_prefix (h : List.Forall₂ (IsEntry entry) ts ms) (hcut : cut <+: joined ts) :
    walkCut entry fuel cut <+: ms := by
  induction fuel generalizing cut with
  | zero => exact List.nil_prefix
  | succ fuel ih =>
    rw [walkCut]
    cases hbefore : beforeLastComma cut with
    | none => exact List.nil_prefix
    | some p =>
      have hp := (prefix_of_beforeLastComma hbefore).trans hcut
      cases hwalk : walkEntries entry p with
      | none =>
        simp only [hwalk]
        exact ih ((List.prefix_append p _).trans hp)
      | some l =>
        simp only [hwalk]
        exact walkFrom_before_comma h hp (Nat.lt_succ_self _) hwalk

theorem splitTruncated_whole (hhead : ∀ c ∈ text.head?, isSpaceChar c = false)
    (hlast : ∀ c ∈ text.getLast?, isSpaceChar c = false ∧ c ≠ '.') :
    splitTruncated text = (text, false) := by
  rw [splitTruncated, stripChars_eq hhead fun c hc => (hlast c hc).1]
  refine if_neg fun hdots => ?_
  obtain ⟨before, rfl⟩ := List.isSuffixOf_iff_suffix.mp hdots
  refine (hlast '.' ?_).2 rfl
  rw [List.getLast?_append_of_ne_nil _ (by decide)]
  rfl

theorem splitTruncated_dots (hhead : ∀ c ∈ text.head?, isSpaceChar c = false) :
    splitTruncated (text ++ ['.', '.']) = (text, true) := by
  have hstrip : stripChars (text ++ ['.', '.']) = text ++ ['.', '.'] := by
    refine stripChars_eq (fun c hc => ?_) (fun c hc => ?_)
    · cases text with
      | nil =>
        cases hc
        rfl
      | cons d text => exact hhead c hc
    · rw [List.getLast?_append_of_ne_nil _ (by decide)] at hc
      cases hc
      rfl
  rw [splitTruncated, hstrip, if_pos (List.isSuffixOf_iff_suffix.mpr (List.suffix_append _ _)),
    show text ++ ['.', '.'] = (text ++ ['.']) ++ ['.'] by simp, List.dropLast_concat,
    List.dropLast_concat]

theorem ends_entries (h : List.Forall₂ (IsEntry entry) ts ms) :
    (∀ c ∈ (joined ts).head?, isSpaceChar c = false) ∧
      ∀ c ∈ (joined ts).getLast?, isSpaceChar c = false ∧ c ≠ '.' := by
  refine ends_joined fun t ht => ?_
  obtain ⟨i, hi, rfl⟩ := List.getElem_of_mem ht
  have he := h.get hi (h.length_eq ▸ hi)
  exact ⟨he.ne_nil, he.head, he.last⟩

theorem parseEntries_joined (h : List.Forall₂ (IsEntry entry) ts ms) :
    parseEntries entry (joined ts) = some (ms, false) := by
  obtain ⟨hhead, hlast⟩ := ends_entries h
  have hnone : joined ts ≠ "None".toList := by
    cases h with
    | nil => decide
    | @cons t m ts ms ht h =>
      rw [joined_cons]
      intro heq
      have hin : ' ' ∈ "None".toList := heq ▸ List.mem_append_left _ ht.space
      exact absurd hin (by decide)
  rw [parseEntries, splitTruncated_whole hhead hlast]
  simp only [hnone, and_false, if_false, Bool.false_eq_true]
  rw [walkEntries, walkFrom_joined h (Nat.lt_succ_self _)]
  rfl

theorem parseEntries_take (h : List.Forall₂ (IsEntry entry) ts ms) (n : ℕ) :
    ∃ l, l <+: ms ∧ parseEntries entry ((joined ts).take n ++ ['.', '.']) = some (l, true) := by
  obtain ⟨hhead, -⟩ := ends_entries h
  have htake : ∀ c ∈ ((joined ts).take n).head?, isSpaceChar c = false := fun c hc => by
    rw [List.head?_take] at hc
    split_ifs at hc
    · cases hc
    · exact hhead c hc
  rw [parseEntries, splitTruncated_dots htake]
  exact ⟨_, walkCut_prefix h ((List.rdropWhile_prefix _ _).trans (List.take_prefix n _)), rfl⟩

end Walk

/-! ### The entries of the firmware -/

section Firmware

variable {D : DecimalDigits} {kind : RuleKind} {pattern tail p t : Text} {r : Rule}
  {s : Text × RuleStat}

theorem pattern_of_valid (h : validatePattern kind pattern = .ok pattern) :
    pattern ≠ [] ∧ ∀ c ∈ pattern, isSpaceChar c = false := by
  rw [validatePattern] at h
  split_ifs at h with hblank
  obtain ⟨hne, hspace⟩ := not_or.mp hblank
  refine ⟨hne, fun c hc => ?_⟩
  rw [Bool.not_eq_true, List.any_eq_false] at hspace
  exact Bool.eq_false_iff.mpr (hspace c hc)

theorem space_not_mem (h : ∀ c ∈ pattern, isSpaceChar c = false) : ' ' ∉ pattern := fun hin =>
  Bool.noConfusion ((h ' ' hin).symm.trans rfl)

theorem comma_not_mem_toDigits (n : ℕ) : ',' ∉ Nat.toDigits 10 n := fun hin =>
  absurd (Nat.isDigit_of_mem_toDigits (by decide) (by decide) hin) (by decide)

theorem space_not_mem_of_comma (hspace : ' ' ∉ pattern) (htail : ',' ∉ tail)
    (hp : p ++ [','] <+: pattern ++ ' ' :: tail) : ' ' ∉ p := by
  have hin : p ++ [','] <+: pattern := by
    rcases List.prefix_or_prefix_of_prefix hp (List.prefix_append _ _) with hin | hin
    · exact hin
    · rcases List.prefix_concat_iff.mp hin with heq | hin
      · exact heq ▸ List.prefix_rfl
      · obtain ⟨q, rfl⟩ := hin
        rw [List.append_assoc, List.prefix_append_right_inj] at hp
        have hmem := hp.subset (List.mem_append_right q List.mem_cons_self)
        rcases List.mem_cons.mp hmem with heq | hmem
        · cases heq
        · exact absurd hmem htail
  exact fun h => hspace (hin.subset (List.mem_append_left _ h))

theorem isEntry_rule (h : validatePattern kind r.pattern = .ok r.pattern)
    (ht : RuleWritten r t) : IsEntry (matchRule D) t r := by
  obtain ⟨hne, hblank⟩ := pattern_of_valid h
  have hspace := space_not_mem hblank
  refine ⟨?_, ?_, ?_, fun rest => matchRule_append ht hne hspace, ?_⟩
  all_goals obtain ⟨throttle, percent, -, -⟩ := ht
  · exact List.mem_append_right _ List.mem_cons_self
  · intro c hc
    rw [ruleText, List.head?_append_of_ne_nil _ hne] at hc
    exact hblank c (List.mem_of_head? hc)
  · intro c hc
    rw [ruleText, List.getLast?_append_of_ne_nil _ (List.cons_ne_nil _ _)] at hc
    cases percent with
    | true =>
      rw [if_pos rfl, ← List.cons_append, List.getLast?_append_of_ne_nil _ (by simp),
        List.getLast?_concat] at hc
      cases hc
      decide
    | false =>
      rw [if_neg Bool.false_ne_true, List.append_nil] at hc
      cases throttle with
      | true =>
        rw [if_pos rfl, ← List.cons_append, List.getLast?_concat] at hc
        cases hc
        decide
      | false =>
        rw [if_neg Bool.false_ne_true] at hc
        cases hc
        decide
  · intro p hp
    refine matchRule_of_not_mem (space_not_mem_of_comma hspace ?_ hp)
    have hsecs := comma_not_mem_toDigits r.secs
    have hprob := comma_not_mem_toDigits r.prob
    cases throttle <;> cases percent <;> simp [hsecs, hprob]

theorem isEntry_stat (h : validatePattern kind s.1 = .ok s.1) (ht : StatWritten s t) :
    IsEntry (matchStat D) t s := by
  obtain ⟨hne, hblank⟩ := pattern_of_valid h
  have hspace := space_not_mem hblank
  refine ⟨?_, ?_, ?_, fun rest => matchStat_append ht hne hspace, ?_⟩
  all_goals obtain ⟨passes, -⟩ := ht
  · exact List.mem_append_right _ (List.mem_cons_of_mem _ List.mem_cons_self)
  · intro c hc
    rw [statText, List.head?_append_of_ne_nil _ hne] at hc
    exact hblank c (List.mem_of_head? hc)
  · intro c hc
    rw [statText, List.getLast?_append_of_ne_nil _ (List.cons_ne_nil _ _)] at hc
    cases passes with
    | true =>
      rw [if_pos rfl, ← List.append_assoc, ← List.cons_append, ← List.cons_append,
        List.getLast?_concat] at hc
      cases hc
      decide
    | false =>
      rw [if_neg Bool.false_ne_true, List.append_nil, List.getLast?_cons_of_ne_nil
        (List.cons_ne_nil _ _), List.getLast?_cons_of_ne_nil Nat.toDigits_ne_nil] at hc
      have hdigit := Nat.isDigit_of_mem_toDigits (by decide) (by decide) (List.mem_of_getLast? hc)
      exact (bounds_of_isHexDigit (by rw [isHexDigit, hdigit]; rfl)).2
  · intro p hp
    rw [statText, List.append_cons s.1] at hp
    refine matchStat_of_not_mem (space_not_mem_of_comma ?_ ?_ hp)
    · simpa using hspace
    · have hhidden := comma_not_mem_toDigits s.2.hidden
      have hpasses := comma_not_mem_toDigits s.2.passes
      cases passes <;> simp [hhidden, hpasses]

end Firmware

/-! ### Lists of prefixes -/

section Paths

variable {ts : List Text} {x : Text}

theorem parts_joined (h : ∀ t ∈ ts, t ≠ [] ∧ ',' ∉ t) :
    ((joined ts).splitOn ',').filter (fun part => part ≠ []) = ts := by
  cases ts with
  | nil => rfl
  | cons t ts =>
    rw [joined, List.splitOn_intercalate ',' (fun t ht => (h t ht).2) (List.cons_ne_nil t ts),
      List.filter_eq_self]
    exact fun t ht => decide_eq_true (h t ht).1

/-- Of a list that was cut all but the last part is whole. -/
theorem dropLast_parts_prefix (h : ∀ t ∈ ts, t ≠ [] ∧ ',' ∉ t) (hx : x <+: joined ts) :
    ((x.splitOn ',').filter (fun part => part ≠ [])).dropLast <+: ts := by
  induction ts generalizing x with
  | nil =>
    rw [List.prefix_nil.mp hx]
    exact List.nil_prefix
  | cons t ts ih =>
    obtain ⟨hne, hcomma⟩ := h t List.mem_cons_self
    have hone : ∀ y : Text, ',' ∉ y →
        ((y.splitOn ',').filter (fun part => part ≠ [])).dropLast <+: t :: ts := by
      intro y hy
      rw [List.splitOn_eq_singleton hy]
      cases y <;> exact List.nil_prefix
    rw [joined_cons] at hx
    rcases List.prefix_or_prefix_of_prefix hx (List.prefix_append t _) with hin | ⟨y, rfl⟩
    · exact hone x fun hmem => hcomma (hin.subset hmem)
    · rw [List.prefix_append_right_inj] at hx
      cases y with
      | nil => exact hone _ (by rwa [List.append_nil])
      | cons c z =>
        split_ifs at hx with hts
        · exact absurd (List.prefix_nil.mp hx) (List.cons_ne_nil c z)
        obtain ⟨rfl, hz⟩ := List.cons_prefix_cons.mp hx
        rw [List.splitOn_append_cons_self, List.splitOn_eq_singleton hcomma, List.singleton_append,
          List.filter_cons_of_pos (p := fun part => decide (part ≠ [])) (decide_eq_true hne)]
        have hrest := ih (fun t' ht' => h t' (List.mem_cons_of_mem _ ht')) hz
        cases hparts : (z.splitOn ',').filter (fun part => part ≠ []) with
        | nil => exact List.nil_prefix
        | cons part parts =>
          rw [hparts] at hrest
          exact List.cons_prefix_cons.mpr ⟨rfl, hrest⟩

theorem isHexText_of_all {t : Text} (hne : t ≠ []) (h : ∀ c ∈ t, isHexDigit c = true) :
    isHexText t = true := by
  rw [isHexText, List.takeWhile_eq_self_iff.mpr h, List.dropWhile_eq_nil_iff.mpr h]
  cases t with
  | nil => exact absurd rfl hne
  | cons c t => rfl

/-- Both parts of the reply of `filter path list`, as a whole and cut. -/
theorem parsePathList_spec {ps : List Text}
    (h : ∀ p ∈ ps, p ≠ [] ∧ ∀ c ∈ p, isHexDigit c = true) :
    parsePathList (joined ps) = some (ps.map (fun p => p.map Char.toUpper), false) ∧
      ∀ n, ∃ l, l <+: ps.map (fun p => p.map Char.toUpper) ∧
        parsePathList ((joined ps).take n ++ ['.', '.']) = some (l, true) := by
  have hparts : ∀ p ∈ ps, p ≠ [] ∧ ',' ∉ p := fun p hp =>
    ⟨(h p hp).1, fun hin => absurd ((h p hp).2 _ hin) (by decide)⟩
  have hhex : ∀ p ∈ ps, isHexText p = true := fun p hp => isHexText_of_all (h p hp).1 (h p hp).2
  obtain ⟨hhead, hlast⟩ := ends_joined (P := fun c => isHexDigit c = true)
    (Q := fun c => isHexDigit c = true) fun p hp =>
      ⟨(h p hp).1, fun c hc => (h p hp).2 c (List.mem_of_head? hc),
        fun c hc => (h p hp).2 c (List.mem_of_getLast? hc)⟩
  constructor
  · have hnone : joined ps ≠ "None".toList := fun heq =>
      absurd (hhead 'N' (heq ▸ rfl)) (by decide)
    rw [parsePathList, splitTruncated_whole (fun c hc => (bounds_of_isHexDigit (hhead c hc)).2.1)
      fun c hc => (bounds_of_isHexDigit (hlast c hc)).2]
    simp only [hnone, and_false, if_false, Bool.false_eq_true]
    rw [parts_joined hparts, if_pos (List.all_eq_true.mpr hhex)]
  · intro n
    have htake : ∀ c ∈ ((joined ps).take n).head?, isSpaceChar c = false := fun c hc => by
      rw [List.head?_take] at hc
      split_ifs at hc
      · cases hc
      · exact (bounds_of_isHexDigit (hhead c hc)).2.1
    have hcut := dropLast_parts_prefix hparts (List.take_prefix n (joined ps))
    rw [parsePathList, splitTruncated_dots htake]
    refine ⟨_, hcut.map _, ?_⟩
    simp only [Bool.true_eq_false, false_and, if_false, if_true]
    rw [if_pos (List.all_eq_true.mpr fun p hp => hhex p (hcut.subset hp))]

end Paths

/-! ### The lists of a radio -/

section Dict

variable {α β : Type*} [DecidableEq α] {d : OrderedDict α β} {items : List (α × β)} {e : α × β}

theorem mem_of_mem_dictOf (h : e ∈ (dictOf items).entries) : e ∈ items := by
  have hfold : ∀ (items : List (α × β)) (d : OrderedDict α β),
      e ∈ (items.foldl (fun d e => d.set e.1 e.2) d).entries → e ∈ d.entries ∨ e ∈ items := by
    intro items
    induction items with
    | nil => exact fun d he => Or.inl he
    | cons i items ih =>
      intro d he
      rcases ih _ he with hset | hin
      · replace hset : e ∈ (d.set i.1 i.2).entries := hset
        rw [OrderedDict.set] at hset
        split_ifs at hset
        · obtain ⟨e', he', rfl⟩ := List.mem_map.mp hset
          split_ifs
          · exact Or.inr List.mem_cons_self
          · exact Or.inl he'
        · rcases List.mem_append.mp hset with hold | hnew
          · exact Or.inl (OrderedDict.mem_erase_entries.mp hold).1
          · exact Or.inr (List.mem_cons.mpr (Or.inl (List.mem_singleton.mp hnew)))
      · exact Or.inr (List.mem_cons_of_mem _ hin)
  exact (hfold items _ h).resolve_left List.not_mem_nil

theorem dictOf_entries (h : (items.map Prod.fst).Nodup) : (dictOf items).entries = items := by
  have hfold : ∀ (items : List (α × β)) (d : OrderedDict α β),
      ((d.entries ++ items).map Prod.fst).Nodup →
        (items.foldl (fun d e => d.set e.1 e.2) d).entries = d.entries ++ items := by
    intro items
    induction items with
    | nil => exact fun d _ => (List.append_nil _).symm
    | cons i items ih =>
      intro d hnodup
      have hset : (d.set i.1 i.2).entries = d.entries ++ [i] := by
        have hnew : i.1 ∉ d.keys := by
          rw [List.map_append, List.map_cons] at hnodup
          exact fun hin => (List.disjoint_of_nodup_append hnodup) hin List.mem_cons_self
        rw [OrderedDict.set, if_neg hnew]
        refine congrArg (· ++ [i]) (List.filter_eq_self.mpr fun e he => ?_)
        rw [Bool.not_eq_true', decide_eq_false_iff_not]
        exact fun heq => hnew (heq ▸ List.mem_map_of_mem he)
      rw [List.foldl_cons, ih _ (by rw [hset, List.append_assoc]; exact hnodup), hset,
        List.append_assoc]
      rfl
  exact hfold items _ h

end Dict

/-- **The lists of a filter are read back.** Whatever patterns are accepted, the rules and the
counts that the firmware writes, and prefixes of hex digits, come back as they are; of a reply
that was cut anywhere some first entries come back, and it is known to be cut. -/
theorem lists_read_back (D : DecimalDigits) (kind : RuleKind) :
    (∀ rules ts, (∀ r ∈ rules, validatePattern kind r.pattern = .ok r.pattern) →
      List.Forall₂ RuleWritten rules ts →
        parseRuleList D (joined ts) = some (rules, false) ∧
          ∀ n, ∃ l, l <+: rules ∧
            parseRuleList D ((joined ts).take n ++ ['.', '.']) = some (l, true)) ∧
      (∀ stats ts, (∀ s ∈ stats, validatePattern kind s.1 = .ok s.1) →
        List.Forall₂ StatWritten stats ts →
          parseRuleStats D (joined ts) = some (dictOf stats, false) ∧
            ((stats.map Prod.fst).Nodup → (dictOf stats).entries = stats) ∧
            ∀ n, ∃ l, l <+: stats ∧ (∀ s ∈ (dictOf l).entries, s ∈ stats) ∧
              ((stats.map Prod.fst).Nodup → (dictOf l).entries = l) ∧
                parseRuleStats D ((joined ts).take n ++ ['.', '.']) = some (dictOf l, true)) ∧
      ∀ ps : List Text, (∀ p ∈ ps, p ≠ [] ∧ ∀ c ∈ p, isHexDigit c = true) →
        parsePathList (joined ps) = some (ps.map (fun p => p.map Char.toUpper), false) ∧
          ∀ n, ∃ l, l <+: ps.map (fun p => p.map Char.toUpper) ∧
            parsePathList ((joined ps).take n ++ ['.', '.']) = some (l, true) := by
  refine ⟨fun rules ts hvalid hts => ?_, fun stats ts hvalid hts => ?_,
    fun ps hps => parsePathList_spec hps⟩
  · have h : List.Forall₂ (IsEntry (matchRule D)) ts rules :=
      (((List.forall₂_and_left rules ts).mpr ⟨hvalid, hts⟩).imp fun r t h =>
        isEntry_rule h.1 h.2).flip
    exact ⟨parseEntries_joined h, parseEntries_take h⟩
  · have h : List.Forall₂ (IsEntry (matchStat D)) ts stats :=
      (((List.forall₂_and_left stats ts).mpr ⟨hvalid, hts⟩).imp fun s t h =>
        isEntry_stat h.1 h.2).flip
    refine ⟨by rw [parseRuleStats, parseEntries_joined h]; rfl, dictOf_entries, fun n => ?_⟩
    obtain ⟨l, hl, hparse⟩ := parseEntries_take h n
    exact ⟨l, hl, fun s hs => hl.subset (mem_of_mem_dictOf hs),
      fun hnodup => dictOf_entries (hnodup.sublist (hl.map _).sublist),
      by rw [parseRuleStats, hparse]; rfl⟩

def asciiDigits : DecimalDigits :=
  ⟨fun c => if c.isDigit then some (c.toNat - 48) else none, fun _ _ => rfl⟩

/-- A rule whose pattern looks like another rule, and a cut inside a percentage. -/
theorem lists_read_back_commas :
    parseRuleList asciiDigits "a,b:block throttle 5s 20%,c block".toList =
      some ([⟨"a,b:block".toList, 5, 20⟩, ⟨['c'], 0, 100⟩], false) := by
  exact ((lists_read_back asciiDigits .text).1 [⟨"a,b:block".toList, 5, 20⟩, ⟨['c'], 0, 100⟩] _
    (by decide) (.cons (.intro true true (by decide) (by decide))
      (.cons (.intro false false (by decide) (by decide)) .nil))).1

end RtfmEv.CompanionFilter
