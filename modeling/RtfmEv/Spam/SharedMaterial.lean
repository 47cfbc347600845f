import RtfmEv.Lib.Lists
import RtfmEv.Spam.Detector
import RtfmEv.Unread.Agree

/-!
# Text and words that all copies share (`app/spam/text.py`)

A forwarding rule can match on a text that every copy of a message contains, or on words that
every copy contains. The functions that look for them read texts by index; a read outside a
text is an error here. Texts are lists of code points. The Unicode table of letters and digits
and `difflib` are parameters.

The words of the first copy are found after its emoji are taken out, so that a word can be
put together from what stood on either side of an emoji.
-/

namespace RtfmEv.Spam

open RtfmEv.Lib RtfmEv.Unread

/-- What `find_longest_match` returns. -/
structure Match where
  a : ℕ
  b : ℕ
  size : ℕ
  deriving DecidableEq

structure SharedTools where
  /-- `str.isalnum`, for one character -/
  isAlnum : Char → Bool
  findLongestMatch : Text → Text → Match

inductive IndexError where
  | outOfRange
  deriving DecidableEq

/-- `s[i]`, where an index below zero counts from the end. -/
def charAt (s : Text) (i : ℤ) : Except IndexError Char :=
  match s[(if i < 0 then i + s.length else i).toNat]? with
  | some c => if -(s.length : ℤ) ≤ i then .ok c else .error .outOfRange
  | none => .error .outOfRange

/-- `s.strip(…)`, for the characters that `p` names. -/
def stripBy (p : Char → Bool) (s : Text) : Text := ((s.dropWhile p).reverse.dropWhile p).reverse

/-- `s[i:j]` -/
def slice (s : Text) (i j : ℕ) : Text := (s.take j).drop i

/-! ### The middle of a text -/

/-- `while s[i].isspace(): i += 1`, with what `i` is afterwards. -/
def walkSpace (s : Text) (i : ℤ) : Except IndexError ℤ :=
  if i < s.length then
    match charAt s i with
    | .ok c => if isSpaceChar c then walkSpace s (i + 1) else .ok i
    | .error e => .error e
  else .error .outOfRange
termination_by (s.length - i).toNat
decreasing_by omega

/-- Where the piece starts: not inside a word, if a space is near. -/
def wholeStart (s : Text) (start : ℕ) : Except IndexError ℕ := do
  if 0 < start then
    let before ← charAt s (start - 1)
    if isSpaceChar before then pure start
    else pure ((findSpace s start (start + 12)).elim start (fun space => space + 1))
  else pure start

/-- Where the piece ends: not inside a word, if its second half has a space. -/
def wholeStop (s : Text) (start length : ℕ) : Except IndexError ℕ := do
  let stop := min s.length (start + length)
  if stop < s.length then
    let after ← charAt s stop
    if isSpaceChar after then pure stop
    else pure ((rfindSpace s (start + length / 2) stop).getD stop)
  else pure stop

/-- `middle_piece`, with every index it reads. -/
def middlePieceByIndex (text : Text) (length : ℕ) (wholeWords : Bool) :
    Except IndexError Text := do
  let stripped := stripBy isSpaceChar text
  if stripped.length ≤ length then return stripped
  let start := (stripped.length - length) / 2
  if wholeWords then
    let start ← wholeStart stripped start
    let stop ← wholeStop stripped start length
    return stripBy isSpaceChar (slice stripped start stop)
  else
    let start ← walkSpace stripped start
    let stop := min (stripped.length : ℤ) (start + length)
    let last ← walkSpace stripped (stop - 1)
    return slice stripped start.toNat (last + 1).toNat

/-! ### Emoji -/

/-- A character of `_EMOJI_BASE_CLASS`. -/
def isEmojiBase (c : Char) : Bool :=
  let n := c.toNat
  (0x1F000 ≤ n && n ≤ 0x1FAFF) || (0x2600 ≤ n && n ≤ 0x27BF) || (0x2B00 ≤ n && n ≤ 0x2BFF) ||
    (0x2300 ≤ n && n ≤ 0x23FF) || n == 0x3030 || n == 0x303D || n == 0x3297 || n == 0x3299

/-- A character of `_EMOJI_PART_CLASS`. -/
def isEmojiPart (c : Char) : Bool :=
  let n := c.toNat
  (0x1F3FB ≤ n && n ≤ 0x1F3FF) || n == 0xFE0E || n == 0xFE0F || n == 0x200D || n == 0x20E3 ||
    (0xE0020 ≤ n && n ≤ 0xE007F)

/-- `strip_emoji`. -/
def withoutEmoji (text : Text) : Text := text.filter (fun c => !(isEmojiBase c || isEmojiPart c))

/-- The characters that `emoji_tokens` names. -/
def baseEmoji (text : Text) : Text := text.filter (fun c => isEmojiBase c && !isEmojiPart c)

/-- `rule_length`: an emoji counts as three. -/
def ruleLengthOf (text : Text) : ℕ := (withoutEmoji text).length + 3 * (baseEmoji text).length

/-! ### The text that all copies share -/

def maxRuleText : ℕ := 100

/-- `common.split(" ", 1)[1]`, or nothing without a space. -/
def afterFirstSpace (common : Text) : Text := (common.dropWhile (· != ' ')).drop 1

/-- `common.rsplit(" ", 1)[0]`, or nothing without a space. -/
def beforeLastSpace (common : Text) : Text := (afterFirstSpace common.reverse).reverse

namespace SharedTools

variable (T : SharedTools)

/-- Whether `common`, found at an index, starts inside a word. -/
def startsInside (common text : Text) (index : ℕ) : Except IndexError Bool := do
  if 0 < index then
    let before ← charAt text (index - 1)
    pure (T.isAlnum before && common.head?.any T.isAlnum)
  else pure false

/-- Whether `common`, found at an index, ends inside a word. -/
def endsInside (common text : Text) (index : ℕ) : Except IndexError Bool := do
  let stop := index + common.length
  if stop < text.length then
    let after ← charAt text stop
    pure (T.isAlnum after && common.getLast?.any T.isAlnum)
  else pure false

/-- The end of `_drop_partial_words`, for where `common` is by then. -/
def dropPartialEnd (common text : Text) : Option ℕ → Except IndexError Text
  | none => pure common
  | some index => do
    let cut ← T.endsInside common text index
    pure (if cut then beforeLastSpace common else common)

def dropPartialWords (common text : Text) : Except IndexError Text :=
  match find common text with
  | none => pure common
  | some index => do
    let cut ← T.startsInside common text index
    if cut then T.dropPartialEnd (afterFirstSpace common) text (find (afterFirstSpace common) text)
    else T.dropPartialEnd common text (some index)

/-- The loop over the other copies: what is common so far, unless it gets too short. -/
def commonOf (minimum : ℤ) : Text → List Text → Option Text
  | common, [] => some common
  | common, other :: rest =>
    let found := T.findLongestMatch common other
    let common := slice common found.a (found.a + found.size)
    if (ruleLengthOf common : ℤ) < minimum then none else commonOf minimum common rest

def sharedText (texts : List Text) (minimum : ℤ) : Except IndexError (Option Text) :=
  match texts with
  | [] => pure none
  | first :: others =>
    match T.commonOf minimum first others with
    | none => pure none
    | some common => do
      let whole ← (first :: others).foldlM T.dropPartialWords common
      let common := stripBy isSpaceChar whole
      let common ←
        if maxRuleText < common.length then middlePieceByIndex common maxRuleText true
        else pure common
      pure (if (ruleLengthOf common : ℤ) < minimum then none else some common)

/-! ### The words that all copies share -/

/-- A character of `_WORD_EDGE_PUNCTUATION`. -/
def isEdgePunctuation (c : Char) : Bool := ".,!?;:'\"()[]\x7b\x7d-_*~".toList.contains c

/-- A character of `_RULE_WORD`. -/
def isRuleWordChar (c : Char) : Bool := T.isAlnum c || "_'&+/.-".toList.contains c

/-- `text.split()`. -/
def splitSpace (text : Text) : List Text := (text.splitOnP isSpaceChar).filter (· ≠ [])

def ruleWords (text : Text) : List Text :=
  ((splitSpace (withoutEmoji text)).map (stripBy isEdgePunctuation)).filter
    (fun word => 4 ≤ word.length ∧ word.all T.isRuleWordChar)

/-- The rule words of a text, each once, that all the others contain. -/
def wordsOfAll (first : Text) (others : List Text) : List Text :=
  (T.ruleWords first).eraseDups.filter (fun w => others.all (fun t => w <:+: t))

/-- `text.find(w)`. -/
def findIndex (text w : Text) : ℤ := (find w text).elim (-1) (fun i => i)

def sharedWords (texts : List Text) (minimum : ℤ) (most : ℕ := 4) : Option (List Text) :=
  match texts with
  | first :: second :: rest =>
    let picked := (sortLargestFirst List.length (T.wordsOfAll first (second :: rest))).take most
    if picked.length < 3 ∨ ((picked.map List.length).sum : ℤ) < minimum then none
    else some (picked.insertionSort (fun v w => findIndex first v ≤ findIndex first w))
  | _ => none

end SharedTools

/-!
## What all copies share is in every copy

Every step from the first copy to the shared text takes an unbroken part of what it was given:
a common block, a part without half a word at an end, a strip, the middle. Shared words are
parts of the other copies by the way they are chosen. In the first copy they are looked for
without its emoji, and a word across an emoji is chosen although that copy does not have it.
-/

/-! #### Parts of a text -/

theorem infix_stripBy (p : Char → Bool) (s : Text) : stripBy p s <:+: s := by
  have hright : stripBy p s <+: s.dropWhile p := by
    rw [← List.reverse_suffix, stripBy, List.reverse_reverse]
    exact List.dropWhile_suffix p
  exact hright.isInfix.trans (List.dropWhile_suffix p).isInfix

theorem infix_slice (s : Text) (i j : ℕ) : slice s i j <:+: s :=
  (List.drop_suffix i _).isInfix.trans (List.take_prefix j s).isInfix

theorem length_slice_le (s : Text) (i j : ℕ) : (slice s i j).length ≤ j - i := by
  rw [slice, List.length_drop, List.length_take]
  omega

theorem infix_afterFirstSpace (common : Text) : afterFirstSpace common <:+: common :=
  ((List.drop_suffix 1 _).trans (List.dropWhile_suffix _)).isInfix

theorem infix_beforeLastSpace (common : Text) : beforeLastSpace common <:+: common := by
  rw [beforeLastSpace, ← List.reverse_infix, List.reverse_reverse]
  exact infix_afterFirstSpace common.reverse

variable {s : Text}

/-- What is left begins with a character that `p` does not name. -/
theorem head?_stripBy {p : Char → Bool} {c : Char} (h : c ∈ (stripBy p s).head?) : p c = false := by
  have hprefix : stripBy p s <+: s.dropWhile p := by
    rw [← List.reverse_suffix, stripBy, List.reverse_reverse]
    exact List.dropWhile_suffix p
  have hhead := List.head?_dropWhile_not p s
  cases hstrip : stripBy p s with
  | nil =>
    rw [hstrip] at h
    cases h
  | cons d rest =>
    rw [hstrip] at h hprefix
    cases h
    obtain ⟨more, hmore⟩ := hprefix
    rw [← hmore] at hhead
    exact hhead

theorem getLast?_stripBy {p : Char → Bool} {c : Char}
    (h : c ∈ (stripBy p s).getLast?) : p c = false := by
  have hhead := List.head?_dropWhile_not p (s.dropWhile p).reverse
  rw [stripBy, List.getLast?_reverse] at h
  rw [h] at hhead
  exact hhead

/-! #### Reads by index -/

theorem charAt_of_lt {i : ℕ} (h : i < s.length) : charAt s i = .ok s[i] := by
  have hindex : (if (i : ℤ) < 0 then (i : ℤ) + s.length else i).toNat = i := by
    rw [if_neg (by omega)]
    exact Int.toNat_natCast i
  rw [charAt, hindex, List.getElem?_eq_getElem h]
  exact if_pos (by omega)

theorem spaceRun_of_space {i : ℕ} (h : i < s.length) (hspace : isSpaceChar s[i] = true) :
    spaceRun s i = spaceRun s (i + 1) + 1 := by
  rw [spaceRun, List.drop_eq_getElem_cons h, List.takeWhile_cons_of_pos hspace]
  rfl

theorem spaceRun_of_not_space {i : ℕ} (h : i < s.length)
    (hspace : isSpaceChar s[i] = false) : spaceRun s i = 0 := by
  rw [spaceRun, List.drop_eq_getElem_cons h, List.takeWhile_cons_of_neg (by simp [hspace])]
  rfl

/-- **A walk over white space stays in range where another character is ahead.** -/
theorem walkSpace_eq {i j : ℕ} (hj : j < s.length) (hspace : isSpaceChar s[j] = false)
    (hij : i ≤ j) : walkSpace s i = .ok ((i + spaceRun s i : ℕ) : ℤ) := by
  have hi : i < s.length := by omega
  rw [walkSpace, if_pos (by omega), charAt_of_lt hi]
  by_cases hc : isSpaceChar s[i] = true
  · have hne : i ≠ j := by
      intro heq
      subst heq
      rw [hspace] at hc
      cases hc
    have hnext := walkSpace_eq hj hspace (i := i + 1) (by omega)
    show (if isSpaceChar s[i] = true then walkSpace s (i + 1) else .ok (i : ℤ)) = _
    rw [if_pos hc, spaceRun_of_space hi hc, show (i : ℤ) + 1 = ((i + 1 : ℕ) : ℤ) by omega, hnext]
    congr 2
    omega
  · show (if isSpaceChar s[i] = true then walkSpace s (i + 1) else .ok (i : ℤ)) = _
    rw [if_neg hc, spaceRun_of_not_space hi (by simpa using hc), Nat.add_zero]
termination_by j - i

/-- The walk from the last character of a piece; in front of the text it begins at its end. -/
theorem walkSpace_last (hne : s ≠ []) (hhead : ∀ c ∈ s.head?, isSpaceChar c = false)
    (hlast : ∀ c ∈ s.getLast?, isSpaceChar c = false) {stop : ℕ} (hstop : stop ≤ s.length) :
    walkSpace s ((stop : ℤ) - 1) = .ok (((stop + spaceRun s (stop - 1) : ℕ) : ℤ) - 1) := by
  have hpos : 0 < s.length := List.length_pos_of_ne_nil hne
  have hfinal : isSpaceChar s[s.length - 1] = false := by
    apply hlast
    rw [List.getLast?_eq_getElem?, List.getElem?_eq_getElem (by omega)]
    rfl
  cases stop with
  | zero =>
    have hchar : charAt s (((0 : ℕ) : ℤ) - 1) = .ok s[s.length - 1] := by
      have hindex : (if ((0 : ℕ) : ℤ) - 1 < 0 then ((0 : ℕ) : ℤ) - 1 + s.length
          else ((0 : ℕ) : ℤ) - 1).toNat = s.length - 1 := by
        rw [if_pos (by omega)]
        omega
      rw [charAt, hindex, List.getElem?_eq_getElem (by omega)]
      exact if_pos (by omega)
    have hfirst : isSpaceChar s[0] = false := by
      apply hhead
      rw [List.head?_eq_getElem?, List.getElem?_eq_getElem hpos]
      rfl
    rw [walkSpace, if_pos (by omega), hchar]
    show (if isSpaceChar s[s.length - 1] = true then _ else _) = _
    rw [if_neg (by simp [hfinal]), spaceRun_of_not_space hpos hfirst]
  | succ k =>
    rw [show ((k + 1 : ℕ) : ℤ) - 1 = (k : ℤ) by omega,
      walkSpace_eq (by omega : s.length - 1 < s.length) hfinal (by omega),
      Nat.add_sub_cancel]
    congr 1
    omega

/-! #### The middle of a text -/

theorem toList_strip (s : String) : (strip s).toList = stripBy isSpaceChar s.toList := by
  rw [strip, String.toList_ofList]
  rfl

theorem wholeStart_eq {start : ℕ} (h : start ≤ s.length) :
    wholeStart s start = .ok (if 0 < start ∧ (s[start - 1]?).any isSpaceChar = false then
      (findSpace s start (start + 12)).elim start (fun space => space + 1) else start) := by
  rw [wholeStart]
  by_cases hpos : 0 < start
  · have hlt : start - 1 < s.length := by omega
    rw [if_pos hpos, show (start : ℤ) - 1 = ((start - 1 : ℕ) : ℤ) by omega, charAt_of_lt hlt,
      List.getElem?_eq_getElem hlt]
    show (if isSpaceChar s[start - 1] = true then _ else _) = _
    by_cases hc : isSpaceChar s[start - 1] = true
    · rw [if_pos hc, if_neg (by simp [hc])]
      rfl
    · rw [if_neg hc, if_pos (by simpa [hpos] using hc)]
      rfl
  · rw [if_neg hpos, if_neg (fun hand => hpos hand.1)]
    rfl

theorem wholeStop_eq (s : Text) (start length : ℕ) :
    wholeStop s start length =
      .ok (if min s.length (start + length) < s.length ∧
          (s[min s.length (start + length)]?).any isSpaceChar = false then
        (rfindSpace s (start + length / 2) (min s.length (start + length))).getD
          (min s.length (start + length))
      else min s.length (start + length)) := by
  rw [wholeStop]
  by_cases hlt : min s.length (start + length) < s.length
  · rw [if_pos hlt, charAt_of_lt hlt, List.getElem?_eq_getElem hlt]
    show (if isSpaceChar s[min s.length (start + length)] = true then _ else _) = _
    by_cases hc : isSpaceChar s[min s.length (start + length)] = true
    · rw [if_pos hc, if_neg (by simp [hc])]
      rfl
    · rw [if_neg hc, if_pos (by simpa [hlt] using hc)]
      rfl
  · rw [if_neg hlt, if_neg (fun hand => hlt hand.1)]
    rfl

/-- **Every index that `middle_piece` reads is in range, and the piece is the one that the
model without indices takes.** -/
theorem middlePieceByIndex_eq (text : String) (length : ℕ) (wholeWords : Bool) :
    middlePieceByIndex text.toList length wholeWords =
      .ok (middlePiece text length wholeWords).toList := by
  rw [middlePieceByIndex, middlePiece, toList_strip]
  have hhead := fun {c : Char} => head?_stripBy (p := isSpaceChar) (s := text.toList) (c := c)
  have hlast := fun {c : Char} => getLast?_stripBy (p := isSpaceChar) (s := text.toList) (c := c)
  by_cases hshort : (stripBy isSpaceChar text.toList).length ≤ length
  · rw [if_pos hshort, if_pos hshort, toList_strip]
    rfl
  · rw [if_neg hshort, if_neg hshort]
    generalize stripBy isSpaceChar text.toList = s at *
    cases wholeWords with
    | true =>
      rw [if_pos rfl, if_pos rfl, wholeStart_eq (by omega)]
      show (wholeStop s _ length >>= _) = _
      rw [wholeStop_eq]
      rw [toList_strip, String.toList_ofList]
      rfl
    | false =>
      rw [if_neg (by decide), if_neg (by decide), String.toList_ofList]
      have hne : s ≠ [] := by
        intro hnil
        subst hnil
        exact hshort (Nat.zero_le _)
      have hpos : s.length - 1 < s.length := by
        have := List.length_pos_of_ne_nil hne
        omega
      have hfinal : isSpaceChar s[s.length - 1] = false := by
        apply hlast
        rw [List.getLast?_eq_getElem?, List.getElem?_eq_getElem hpos]
        rfl
      rw [walkSpace_eq hpos hfinal (i := (s.length - length) / 2) (by omega)]
      set start := (s.length - length) / 2 + spaceRun s ((s.length - length) / 2) with hstart
      show (walkSpace s (min (s.length : ℤ) ((start : ℤ) + length) - 1) >>= _) = _
      have hmin : min (s.length : ℤ) ((start : ℤ) + length) =
          ((min s.length (start + length) : ℕ) : ℤ) := by omega
      rw [hmin, walkSpace_last hne (fun c => hhead) (fun c => hlast) (Nat.min_le_left _ _)]
      show Except.ok (slice s start _) = _
      rw [Int.sub_add_cancel, Int.toNat_natCast]
      rfl

theorem rfindSpace_lt {i j k : ℕ} (h : rfindSpace s i j = some k) : k < j := by
  have hmem := List.mem_of_find?_eq_some h
  rw [List.mem_reverse] at hmem
  have hlt := List.mem_range.mp (List.mem_of_mem_drop hmem)
  omega

/-- A piece of whole words is a part of the text and has at most so many characters. -/
theorem middlePieceByIndex_spec (text : Text) (length : ℕ) :
    ∃ piece, middlePieceByIndex text length true = .ok piece ∧ piece <:+: text ∧
      piece.length ≤ length := by
  rw [middlePieceByIndex]
  have hpart := infix_stripBy isSpaceChar text
  by_cases hshort : (stripBy isSpaceChar text).length ≤ length
  · rw [if_pos hshort]
    exact ⟨_, rfl, hpart, hshort⟩
  · rw [if_neg hshort, if_pos rfl]
    generalize stripBy isSpaceChar text = s at *
    obtain ⟨start, hstart⟩ : ∃ start, wholeStart s ((s.length - length) / 2) = .ok start :=
      ⟨_, wholeStart_eq (by omega)⟩
    obtain ⟨stop, hstop, hle⟩ : ∃ stop, wholeStop s start length = .ok stop ∧
        stop ≤ start + length := by
      refine ⟨_, wholeStop_eq s start length, ?_⟩
      split_ifs
      · cases hspace : rfindSpace s (start + length / 2) (min s.length (start + length)) with
        | none => exact Nat.min_le_right _ _
        | some k =>
          have hlt := rfindSpace_lt hspace
          show k ≤ start + length
          omega
      · exact Nat.min_le_right _ _
    have hinfix := infix_stripBy isSpaceChar (slice s start stop)
    refine ⟨stripBy isSpaceChar (slice s start stop), ?_, ?_, ?_⟩
    · rw [hstart]
      show (wholeStop s start length >>= _) = _
      rw [hstop]
      rfl
    · exact hinfix.trans ((infix_slice s start stop).trans hpart)
    · have hlen := length_slice_le s start stop
      have hle' := hinfix.length_le
      omega

/-! #### The text that all copies share -/

namespace SharedTools

variable {T : SharedTools}

theorem startsInside_ok (common : Text) {text : Text} {index : ℕ} (h : index ≤ text.length) :
    ∃ cut, T.startsInside common text index = .ok cut := by
  rw [startsInside]
  by_cases hpos : 0 < index
  · have hlt : index - 1 < text.length := by omega
    rw [if_pos hpos, show (index : ℤ) - 1 = ((index - 1 : ℕ) : ℤ) by omega, charAt_of_lt hlt]
    exact ⟨_, rfl⟩
  · rw [if_neg hpos]
    exact ⟨_, rfl⟩

theorem endsInside_ok (common text : Text) (index : ℕ) :
    ∃ cut, T.endsInside common text index = .ok cut := by
  rw [endsInside]
  by_cases hlt : index + common.length < text.length
  · rw [if_pos hlt, charAt_of_lt hlt]
    exact ⟨_, rfl⟩
  · rw [if_neg hlt]
    exact ⟨_, rfl⟩

theorem dropPartialEnd_spec (common text : Text) (found : Option ℕ) :
    ∃ rest, T.dropPartialEnd common text found = .ok rest ∧ rest <:+: common := by
  cases found with
  | none => exact ⟨common, rfl, List.infix_rfl⟩
  | some index =>
    obtain ⟨cut, hcut⟩ := T.endsInside_ok common text index
    rw [dropPartialEnd, hcut]
    refine ⟨_, rfl, ?_⟩
    split_ifs
    · exact infix_beforeLastSpace common
    · exact List.infix_rfl

/-- Half words are dropped without a read outside the text, and the rest is a part. -/
theorem dropPartialWords_spec (common text : Text) :
    ∃ rest, T.dropPartialWords common text = .ok rest ∧ rest <:+: common := by
  rw [dropPartialWords]
  cases hfind : find common text with
  | none => exact ⟨common, rfl, List.infix_rfl⟩
  | some index =>
    obtain ⟨cut, hcut⟩ := T.startsInside_ok common (find_le hfind)
    show ∃ rest, (T.startsInside common text index >>= _) = _ ∧ _
    rw [hcut]
    cases cut with
    | false => exact T.dropPartialEnd_spec common text (some index)
    | true =>
      obtain ⟨rest, hrest, hpart⟩ := T.dropPartialEnd_spec (afterFirstSpace common) text
        (find (afterFirstSpace common) text)
      exact ⟨rest, hrest, hpart.trans (infix_afterFirstSpace common)⟩

theorem foldlM_dropPartialWords_spec (texts : List Text) (common : Text) :
    ∃ rest, texts.foldlM T.dropPartialWords common = .ok rest ∧ rest <:+: common := by
  induction texts generalizing common with
  | nil => exact ⟨common, rfl, List.infix_rfl⟩
  | cons text texts ih =>
    obtain ⟨next, hnext, hpart⟩ := T.dropPartialWords_spec common text
    obtain ⟨rest, hrest, hpart'⟩ := ih next
    refine ⟨rest, ?_, hpart'.trans hpart⟩
    rw [List.foldlM_cons, hnext]
    exact hrest

end SharedTools

/-- What is asked of `find_longest_match`: a block that both texts have. -/
def CommonBlocks (findLongestMatch : Text → Text → Match) : Prop :=
  ∀ a b, slice a (findLongestMatch a b).a ((findLongestMatch a b).a + (findLongestMatch a b).size) =
    slice b (findLongestMatch a b).b ((findLongestMatch a b).b + (findLongestMatch a b).size)

namespace SharedTools

variable {T : SharedTools}

/-- **What is common after the loop is a part of every copy.** -/
theorem infix_commonOf (hfind : CommonBlocks T.findLongestMatch) {minimum : ℤ} {common : Text}
    {others : List Text} {result : Text} (h : T.commonOf minimum common others = some result) :
    result <:+: common ∧ ∀ t ∈ others, result <:+: t := by
  induction others generalizing common with
  | nil =>
    cases h
    exact ⟨List.infix_rfl, fun t ht => absurd ht List.not_mem_nil⟩
  | cons other rest ih =>
    rw [commonOf] at h
    by_cases hshort : (ruleLengthOf (slice common (T.findLongestMatch common other).a
        ((T.findLongestMatch common other).a + (T.findLongestMatch common other).size)) : ℤ) <
          minimum
    · rw [if_pos hshort] at h
      cases h
    · rw [if_neg hshort] at h
      obtain ⟨hblock, hrest⟩ := ih h
      refine ⟨hblock.trans (infix_slice _ _ _), ?_⟩
      intro t ht
      rcases List.mem_cons.mp ht with rfl | hmem
      · rw [hfind] at hblock
        exact hblock.trans (infix_slice _ _ _)
      · exact hrest t hmem

/-- **The shared text is a part of every copy, short enough and long enough.** -/
theorem sharedText_spec (hfind : CommonBlocks T.findLongestMatch) {texts : List Text}
    (minimum : ℤ) :
    ∃ result, T.sharedText texts minimum = .ok result ∧ ∀ s, result = some s →
      (∀ t ∈ texts, s <:+: t) ∧ s.length ≤ maxRuleText ∧ minimum ≤ ruleLengthOf s := by
  cases texts with
  | nil => exact ⟨none, rfl, fun s hs => nomatch hs⟩
  | cons first others =>
    rw [sharedText]
    cases hcommon : T.commonOf minimum first others with
    | none => exact ⟨none, rfl, fun s hs => nomatch hs⟩
    | some common =>
      obtain ⟨whole, hwhole, hpart⟩ :=
        T.foldlM_dropPartialWords_spec (first :: others) common
      have hall : ∀ t ∈ first :: others, common <:+: t := by
        obtain ⟨hfirst, hothers⟩ := infix_commonOf hfind hcommon
        intro t ht
        rcases List.mem_cons.mp ht with rfl | hmem
        · exact hfirst
        · exact hothers t hmem
      have hstrip := (infix_stripBy isSpaceChar whole).trans hpart
      obtain ⟨piece, hpiece, hsub, hlen⟩ : ∃ piece,
          T.sharedText (first :: others) minimum =
            .ok (if (ruleLengthOf piece : ℤ) < minimum then none else some piece) ∧
          piece <:+: common ∧ piece.length ≤ maxRuleText := by
        rw [sharedText, hcommon]
        show ∃ piece, ((first :: others).foldlM T.dropPartialWords common >>= _) = _ ∧ _
        rw [hwhole]
        by_cases hlong : maxRuleText < (stripBy isSpaceChar whole).length
        · obtain ⟨piece, hpiece, hsub, hlen⟩ :=
            middlePieceByIndex_spec (stripBy isSpaceChar whole) maxRuleText
          refine ⟨piece, ?_, hsub.trans hstrip, hlen⟩
          show (if maxRuleText < (stripBy isSpaceChar whole).length then _ else _) = _
          rw [if_pos hlong, hpiece]
          rfl
        · refine ⟨stripBy isSpaceChar whole, ?_, hstrip, Nat.le_of_not_lt hlong⟩
          show (if maxRuleText < (stripBy isSpaceChar whole).length then _ else _) = _
          rw [if_neg hlong]
          rfl
      rw [sharedText, hcommon] at hpiece
      refine ⟨if (ruleLengthOf piece : ℤ) < minimum then none else some piece, hpiece, ?_⟩
      intro s hs
      split_ifs at hs with hmin
      cases hs
      exact ⟨fun t ht => hsub.trans (hall t ht), hlen, by omega⟩

/-! #### The words that all copies share -/

variable (T) in
/-- The four longest of the words that the other copies contain too. -/
def longestWords (first : Text) (others : List Text) : List Text :=
  (T.wordsOfAll first others).filter
    (fun w => ahead List.length (T.wordsOfAll first others) w < 4)

variable (T) in
/-- The words that a rule would name are in the first copy as they are, not put together
from what stands on the two sides of an emoji. -/
def WordsAsWritten (texts : List Text) (minimum : ℤ) : Prop :=
  match texts with
  | first :: second :: rest =>
    (T.longestWords first (second :: rest)).length < 3 ∨
      (((T.longestWords first (second :: rest)).map List.length).sum : ℤ) < minimum ∨
        ∀ w ∈ T.longestWords first (second :: rest), w <:+: first
  | _ => True

theorem picked_perm (first : Text) (others : List Text) :
    ((sortLargestFirst List.length (T.wordsOfAll first others)).take 4).Perm
      (T.longestWords first others) :=
  take_sortLargestFirst_perm ((nodup_eraseDups _).filter _) 4

/-- **The shared words are the four longest, unless they are too few or too short.** -/
theorem sharedWords_cons (first second : Text) (rest : List Text) (minimum : ℤ) :
    ∃ words : List Text, words.Perm (T.longestWords first (second :: rest)) ∧
      T.sharedWords (first :: second :: rest) minimum =
        if (T.longestWords first (second :: rest)).length < 3 ∨
            (((T.longestWords first (second :: rest)).map List.length).sum : ℤ) < minimum then
          none
        else some words := by
  have hperm := T.picked_perm first (second :: rest)
  refine ⟨_, (List.perm_insertionSort
    (fun v w => findIndex first v ≤ findIndex first w) _).trans hperm, ?_⟩
  rw [← hperm.length_eq, ← (hperm.map List.length).sum_eq]
  rfl

theorem mem_longestWords {first w : Text} {others : List Text}
    (h : w ∈ T.longestWords first others) : ∀ t ∈ others, w <:+: t := by
  have hall := (List.mem_filter.mp (List.mem_of_mem_filter h)).2
  intro t ht
  simpa using List.all_eq_true.mp hall t ht

theorem length_longestWords_le (first : Text) (others : List Text) :
    (T.longestWords first others).length ≤ 4 := by
  rw [← (T.picked_perm first others).length_eq]
  exact List.length_take_le _ _

variable (T) in
/-- What the two functions promise: what they return is in every copy as written and long
enough, and no index goes out of range. -/
structure SharedInAll (texts : List Text) (minimum : ℤ) : Prop where
  text : ∃ result, T.sharedText texts minimum = .ok result ∧ ∀ s, result = some s →
    (∀ t ∈ texts, s <:+: t) ∧ s.length ≤ maxRuleText ∧ minimum ≤ ruleLengthOf s
  words : ∀ ws, T.sharedWords texts minimum = some ws →
    (ws.length = 3 ∨ ws.length = 4) ∧ (∀ w ∈ ws, ∀ t ∈ texts, w <:+: t) ∧
      minimum ≤ ((ws.map List.length).sum : ℤ)
  piece : ∀ text length wholeWords, ∃ piece,
    middlePieceByIndex text length wholeWords = .ok piece

/-- **What is shared is in every copy, exactly if the longest shared words are in the first
copy as written.** -/
theorem sharedInAll_iff (hfind : CommonBlocks T.findLongestMatch) {texts : List Text}
    (hne : texts ≠ []) (minimum : ℤ) :
    T.SharedInAll texts minimum ↔ T.WordsAsWritten texts minimum := by
  have hpiece : ∀ text length wholeWords, ∃ piece,
      middlePieceByIndex text length wholeWords = .ok piece := by
    intro text length wholeWords
    have hindex := middlePieceByIndex_eq (String.ofList text) length wholeWords
    rw [String.toList_ofList] at hindex
    exact ⟨_, hindex⟩
  obtain ⟨first, others, rfl⟩ := List.exists_cons_of_ne_nil hne
  cases others with
  | nil =>
    refine ⟨fun h => trivial, fun h => ⟨sharedText_spec hfind minimum, ?_, hpiece⟩⟩
    intro ws hws
    cases hws
  | cons second rest =>
    obtain ⟨words, hperm, hwords⟩ := T.sharedWords_cons first second rest minimum
    constructor
    · intro h
      by_cases hfew : (T.longestWords first (second :: rest)).length < 3 ∨
          (((T.longestWords first (second :: rest)).map List.length).sum : ℤ) < minimum
      · exact hfew.imp id Or.inl
      · rw [if_neg hfew] at hwords
        refine Or.inr (Or.inr ?_)
        intro w hw
        exact (h.words words hwords).2.1 w (hperm.mem_iff.mpr hw) first List.mem_cons_self
    · intro h
      refine ⟨sharedText_spec hfind minimum, ?_, hpiece⟩
      intro ws hws
      rw [hwords] at hws
      split_ifs at hws with hfew
      cases hws
      rw [not_or, Nat.not_lt, Int.not_lt] at hfew
      have hfour := T.length_longestWords_le first (second :: rest)
      rw [← hperm.length_eq] at hfew hfour
      rw [← (hperm.map List.length).sum_eq] at hfew
      refine ⟨by omega, ?_, hfew.2⟩
      intro w hw t ht
      have hlong := hperm.mem_iff.mp hw
      rcases List.mem_cons.mp ht with rfl | hmem
      · rcases h with hshort | hshort | hwritten
        · rw [← hperm.length_eq] at hshort
          omega
        · rw [← (hperm.map List.length).sum_eq] at hshort
          omega
        · exact hwritten w hlong
      · exact mem_longestWords hlong t hmem

/-! #### Copies without emoji -/

theorem splitOnP_parts (p : Char → Bool) (text : Text) :
    ∃ piece pieces, text.splitOnP p = piece :: pieces ∧ piece <+: text ∧
      ∀ w ∈ pieces, w <:+: text := by
  induction text with
  | nil => exact ⟨[], [], List.splitOnP_nil, List.nil_prefix, fun w hw => nomatch hw⟩
  | cons c text ih =>
    obtain ⟨piece, pieces, hsplit, hpiece, hpieces⟩ := ih
    rw [List.splitOnP_cons_eq_if_modifyHead, hsplit]
    by_cases hc : p c = true
    · rw [if_pos hc]
      refine ⟨[], piece :: pieces, rfl, List.nil_prefix, ?_⟩
      intro w hw
      rcases List.mem_cons.mp hw with rfl | hmem
      · exact hpiece.isInfix.trans (List.infix_cons List.infix_rfl)
      · exact (hpieces w hmem).trans (List.infix_cons List.infix_rfl)
    · rw [if_neg hc]
      refine ⟨c :: piece, pieces, rfl, List.cons_prefix_cons.mpr ⟨rfl, hpiece⟩, ?_⟩
      intro w hw
      exact (hpieces w hw).trans (List.infix_cons List.infix_rfl)

theorem infix_of_mem_splitSpace {text w : Text} (h : w ∈ splitSpace text) : w <:+: text := by
  obtain ⟨piece, pieces, hsplit, hpiece, hpieces⟩ := splitOnP_parts isSpaceChar text
  have hmem := List.mem_of_mem_filter h
  rw [hsplit] at hmem
  rcases List.mem_cons.mp hmem with rfl | hrest
  · exact hpiece.isInfix
  · exact hpieces w hrest

theorem wordsAsWritten_of_withoutEmoji {first : Text} (h : withoutEmoji first = first)
    (others : List Text) (minimum : ℤ) : T.WordsAsWritten (first :: others) minimum := by
  cases others with
  | nil => trivial
  | cons second rest =>
    refine Or.inr (Or.inr ?_)
    intro w hw
    have hrule := List.mem_eraseDups.mp (List.mem_of_mem_filter (List.mem_of_mem_filter hw))
    obtain ⟨word, hword, rfl⟩ := List.mem_map.mp (List.mem_of_mem_filter hrule)
    rw [h] at hword
    exact (infix_stripBy _ word).trans (infix_of_mem_splitSpace hword)

end SharedTools

/-! #### A longest common block -/

def commonLength : Text → Text → ℕ
  | c :: s, d :: t => if c = d then commonLength s t + 1 else 0
  | _, _ => 0

theorem take_commonLength (s t : Text) :
    s.take (commonLength s t) = t.take (commonLength s t) := by
  induction s generalizing t with
  | nil => rw [commonLength, List.take_zero, List.take_zero]; simp
  | cons c s ih =>
    cases t with
    | nil => rw [commonLength, List.take_zero, List.take_zero]; simp
    | cons d t =>
      rw [commonLength]
      by_cases h : c = d
      · rw [if_pos h, List.take_succ_cons, List.take_succ_cons, h, ih]
      · rw [if_neg h, List.take_zero, List.take_zero]

/-- The longer block of two, or else the earlier one. -/
def longerMatch (a b : Text) (best : Match) (at_ : ℕ × ℕ) : Match :=
  let size := commonLength (a.drop at_.1) (b.drop at_.2)
  if best.size < size then ⟨at_.1, at_.2, size⟩ else best

/-- The block that `find_longest_match` returns: the longest, and the first of these. -/
def longestMatch (a b : Text) : Match :=
  ((List.range a.length).product (List.range b.length)).foldl (longerMatch a b) ⟨0, 0, 0⟩

theorem commonBlocks_longestMatch : CommonBlocks longestMatch := by
  intro a b
  have hfold : ∀ (places : List (ℕ × ℕ)) (best : Match),
      slice a best.a (best.a + best.size) = slice b best.b (best.b + best.size) →
      slice a (places.foldl (longerMatch a b) best).a
        ((places.foldl (longerMatch a b) best).a + (places.foldl (longerMatch a b) best).size) =
      slice b (places.foldl (longerMatch a b) best).b
        ((places.foldl (longerMatch a b) best).b +
          (places.foldl (longerMatch a b) best).size) := by
    intro places
    induction places with
    | nil => exact fun best h => h
    | cons at_ places ih =>
      intro best h
      apply ih
      rw [longerMatch]
      split_ifs
      · simp only [slice, List.drop_take, Nat.add_sub_cancel_left]
        exact take_commonLength _ _
      · exact h
  apply hfold
  rfl

/-! #### Two copies -/

/-- ASCII letters and digits, and the longest common block. -/
def asciiTools : SharedTools := ⟨Char.isAlphanum, longestMatch⟩

theorem sharedInAll_two : asciiTools.SharedInAll
    ["buy cheap coins 1".toList, "buy cheap coins 2".toList] 8 :=
  (SharedTools.sharedInAll_iff commonBlocks_longestMatch (List.cons_ne_nil _ _) 8).mpr
    (SharedTools.wordsAsWritten_of_withoutEmoji (by decide +kernel) _ _)

/-- An emoji inside a word of the first copy: the word without it is chosen, which the other
copy has and the first one has not. -/
theorem not_forall_sharedInAll : ¬ ∀ (T : SharedTools), CommonBlocks T.findLongestMatch →
    ∀ (texts : List Text) (minimum : ℤ), texts ≠ [] → T.SharedInAll texts minimum := by
  intro h
  have hshared := h asciiTools commonBlocks_longestMatch
    ["alpha😀beta gamma delta".toList, "alphabeta gamma delta".toList] 14 (List.cons_ne_nil _ _)
  have hwords : asciiTools.sharedWords
      ["alpha😀beta gamma delta".toList, "alphabeta gamma delta".toList] 14 =
        some ["alphabeta".toList, "gamma".toList, "delta".toList] := by decide +kernel
  have hin := (hshared.words _ hwords).2.1 "alphabeta".toList List.mem_cons_self
    "alpha😀beta gamma delta".toList List.mem_cons_self
  exact absurd hin (by decide +kernel)

end RtfmEv.Spam
