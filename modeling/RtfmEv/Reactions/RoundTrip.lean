import RtfmEv.Reactions.Payloads

/-!
# Reactions that are read back

The text that is sent has the mention, the emoji and the hash in their places. The parser
takes the mention up to its first bracket and the text apart at its line breaks, so the
reaction is read back exactly if the target's sender has neither.
-/

namespace RtfmEv.Reactions

open RtfmEv.Lib RtfmEv.Unread

/-! ### Texts without space at their ends -/

variable {s emoji line name head : Text} {T : Tools} (body : Text) (ts : ℤ) {sender : Option Text}

theorem lstripChars_of_head (h : ∀ c ∈ s.head?, isSpaceChar c = false) :
    lstripChars s = s := by
  cases s with
  | nil => rfl
  | cons c s =>
    have hc := h c rfl
    rw [lstripChars, List.dropWhile_cons_of_neg (by simp [hc])]

theorem stripText_of_ends (hhead : ∀ c ∈ s.head?, isSpaceChar c = false)
    (hlast : ∀ c ∈ s.getLast?, isSpaceChar c = false) : stripText s = s := by
  rw [stripText, lstripChars_of_head hhead, lstripChars_of_head, List.reverse_reverse]
  intro c hc
  rw [List.head?_reverse] at hc
  exact hlast c hc

theorem stripText_of_forall (h : ∀ c ∈ s, isSpaceChar c = false) : stripText s = s := by
  apply stripText_of_ends
  · intro c hc
    exact h c (List.mem_of_head? hc)
  · intro c hc
    exact h c (List.mem_of_getLast? hc)

/-! ### The hash -/

theorem crockford_spec : ∀ c ∈ crockford, isHashChar c = true ∧ lowerHashChar c = [c] ∧
    foldLookAlike c = c ∧ isSpaceChar c = false ∧ c ≠ '\n' := by
  have hall : crockford.all (fun c => isHashChar c && lowerHashChar c == [c] &&
      foldLookAlike c == c && !isSpaceChar c && c != '\n') = true := by decide +kernel
  intro c hc
  simpa [and_assoc] using List.all_eq_true.mp hall c hc

theorem mem_reactionTargetHash {body : Text} {ts : ℤ} {c : Char}
    (hc : c ∈ T.reactionTargetHash body ts) : c ∈ crockford := by
  obtain ⟨i, -, rfl⟩ := List.mem_map.mp hc
  rw [List.getD_eq_getElem?_getD]
  cases hget : crockford[(fromBytesBE ((T.sha256 (encodeUtf8 (String.ofList body) ++
      packUint32 (ts % 0x100000000).toNat)).take 5) >>> (35 - 5 * i)) &&& 31]? with
  | none => exact List.mem_of_getElem? (i := 0) rfl
  | some c => exact List.mem_of_getElem? hget

theorem length_reactionTargetHash :
    (T.reactionTargetHash body ts).length = 8 := by
  rw [Tools.reactionTargetHash, List.length_map, List.length_range]

theorem matchesHash_reactionTargetHash :
    matchesHash (T.reactionTargetHash body ts) = true := by
  rw [matchesHash, length_reactionTargetHash, Bool.and_eq_true, List.all_eq_true]
  exact ⟨rfl, fun c hc => (crockford_spec c (mem_reactionTargetHash hc)).1⟩

theorem stripText_reactionTargetHash :
    stripText (T.reactionTargetHash body ts) = T.reactionTargetHash body ts :=
  stripText_of_forall fun c hc => (crockford_spec c (mem_reactionTargetHash hc)).2.2.2.1

theorem normalizeHash_reactionTargetHash :
    normalizeHash (T.reactionTargetHash body ts) = T.reactionTargetHash body ts := by
  have hnormal : ∀ s : Text, (∀ c ∈ s, c ∈ crockford) → normalizeHash s = s := by
    intro s hs
    induction s with
    | nil => rfl
    | cons c s ih =>
      obtain ⟨-, hlower, hfold, -, -⟩ := crockford_spec c (hs c List.mem_cons_self)
      have hrest := ih fun d hd => hs d (List.mem_cons_of_mem _ hd)
      unfold normalizeHash at hrest ⊢
      rw [List.flatMap_cons, hlower, List.map_append, hrest, List.map_singleton, hfold]
      rfl
  exact hnormal _ fun c hc => mem_reactionTargetHash hc

/-! ### The emoji -/

/-- What a valid emoji is made of. -/
structure EmojiText (T : Tools) (emoji : Text) : Prop where
  nonempty : emoji ≠ []
  plain : ∀ c ∈ emoji, isPlain c = true
  noSpace : ∀ c ∈ emoji, isSpaceChar c = false
  starts : T.startsWithEmoji emoji = true

theorem emojiText_of_valid (h : T.isValidReactionEmoji emoji = true) : EmojiText T emoji := by
  unfold Tools.isValidReactionEmoji at h
  split_ifs at h with hsize hany
  rw [not_or] at hsize
  have hall : ∀ c ∈ emoji, isSpaceChar c = false ∧ isPlain c = true := by
    intro c hc
    have hno := List.any_eq_false.mp (Bool.eq_false_iff.mpr hany) c hc
    simp only [Bool.or_eq_true, Bool.not_eq_true', not_or, Bool.not_eq_true,
      Bool.not_eq_false] at hno
    exact ⟨hno.1.1, hno.1.2⟩
  exact ⟨hsize.1, fun c hc => (hall c hc).2, fun c hc => (hall c hc).1, h⟩

namespace EmojiText

variable {emoji : Text}

theorem not_mem_bracket (h : EmojiText T emoji) : ']' ∉ emoji := by
  intro hin
  have hplain := h.plain _ hin
  revert hplain
  decide

theorem not_mem_newline (h : EmojiText T emoji) : '\n' ∉ emoji := by
  intro hin
  have hspace := h.noSpace _ hin
  revert hspace
  decide

end EmojiText

/-! ### The text that is sent -/

/-- The line with the emoji, behind the mention of the target's sender. -/
def firstLine (sender : Option Text) (emoji : Text) : Text :=
  match sender with
  | none => emoji
  | some name => '@' :: '[' :: (name ++ ']' :: emoji)

theorem buildReactionText_eq (emoji body : Text) (ts : ℤ) (sender : Option Text) :
    T.buildReactionText emoji body ts sender =
      firstLine sender emoji ++ '\n' :: T.reactionTargetHash body ts := by
  cases sender with
  | none => rfl
  | some name =>
    show "@[".toList ++ name ++ ']' :: emoji ++ _ = _
    simp [firstLine]

/-- A line that is neither empty nor has space at its ends. -/
structure Trimmed (line : Text) : Prop where
  nonempty : line ≠ []
  head : ∀ c ∈ line.head?, isSpaceChar c = false
  last : ∀ c ∈ line.getLast?, isSpaceChar c = false

theorem trimmed_append {pre emoji : Text} (h : EmojiText T emoji)
    (hpre : ∀ c ∈ pre.head?, isSpaceChar c = false) : Trimmed (pre ++ emoji) := by
  refine ⟨by simp [h.nonempty], ?_, ?_⟩
  · intro c hc
    cases pre with
    | nil => exact h.noSpace c (List.mem_of_head? hc)
    | cons d pre => exact hpre c hc
  · intro c hc
    rw [List.getLast?_append_of_ne_nil _ h.nonempty] at hc
    exact h.noSpace c (List.mem_of_getLast? hc)

theorem trimmed_firstLine (h : EmojiText T emoji) (sender : Option Text) :
    Trimmed (firstLine sender emoji) := by
  cases sender with
  | none =>
    have hpre : ∀ c ∈ ([] : Text).head?, isSpaceChar c = false := by
      intro c hc
      cases hc
    exact trimmed_append h hpre
  | some name =>
    have heq : firstLine (some name) emoji = ('@' :: '[' :: (name ++ [']'])) ++ emoji := by
      simp [firstLine]
    rw [heq]
    refine trimmed_append h ?_
    intro c hc
    cases hc
    decide

theorem stripText_wire (h : Trimmed line) (body : Text) (ts : ℤ) :
    stripText (line ++ '\n' :: T.reactionTargetHash body ts) =
      line ++ '\n' :: T.reactionTargetHash body ts := by
  have hne : T.reactionTargetHash body ts ≠ [] := by
    intro hnil
    have hlength := length_reactionTargetHash (T := T) body ts
    rw [hnil] at hlength
    cases hlength
  apply stripText_of_ends
  · intro c hc
    cases line with
    | nil => exact absurd rfl h.nonempty
    | cons d line => exact h.head c hc
  · intro c hc
    rw [List.getLast?_append_of_ne_nil _ (by simp)] at hc
    rw [List.getLast?_cons, Option.mem_def, Option.some.injEq] at hc
    cases hlast : (T.reactionTargetHash body ts).getLast? with
    | none => exact absurd (List.getLast?_eq_none_iff.mp hlast) hne
    | some d =>
      rw [hlast] at hc
      have hcd : d = c := hc
      rw [← hcd]
      exact (crockford_spec d (mem_reactionTargetHash (List.mem_of_getLast? hlast))).2.2.2.1

theorem newline_not_mem_hash : '\n' ∉ T.reactionTargetHash body ts := by
  intro hin
  exact (crockford_spec _ (mem_reactionTargetHash hin)).2.2.2.2 rfl

/-- A line break before the hash, and no other: the two lines. -/
theorem splitOn_wire (hline : '\n' ∉ line) (body : Text) (ts : ℤ) :
    (line ++ '\n' :: T.reactionTargetHash body ts).splitOn '\n' =
      [line, T.reactionTargetHash body ts] := by
  rw [List.splitOn_append_cons_self, List.splitOn_eq_singleton hline,
    List.splitOn_eq_singleton (newline_not_mem_hash body ts)]
  rfl

theorem splitOn_wire_ne (hline : '\n' ∈ line) (hash first second : Text) :
    (line ++ '\n' :: hash).splitOn '\n' ≠ [first, second] := by
  obtain ⟨a, b, rfl⟩ := List.append_of_mem hline
  rw [List.splitOn_append_cons_self, List.splitOn_append_cons_self]
  intro heq
  have hlength := congrArg List.length heq
  rw [List.length_append, List.length_append] at hlength
  have ha := List.length_pos_of_ne_nil (List.splitOn_ne_nil '\n' a)
  have hb := List.length_pos_of_ne_nil (List.splitOn_ne_nil '\n' b)
  have hh := List.length_pos_of_ne_nil (List.splitOn_ne_nil '\n' hash)
  simp only [List.length_cons, List.length_nil] at hlength
  omega

/-! ### The head of a reaction -/

theorem matchMention_append (hne : name ≠ []) (h : ']' ∉ name) (rest : Text) :
    matchMention ('@' :: '[' :: (name ++ ']' :: rest)) = some (name, rest) := by
  obtain ⟨htake, hdrop⟩ := span_ne h rest
  cases name with
  | nil => exact absurd rfl hne
  | cons c name =>
    rw [matchMention, htake, hdrop]

theorem matchMention_some {rest : Text} (h : matchMention s = some (name, rest)) :
    s = '@' :: '[' :: (name ++ ']' :: rest) ∧ ']' ∉ name := by
  unfold matchMention at h
  split at h
  · rename_i s
    split at h
    · cases h
    · cases h
    · rename_i c rest' hdrop _
      cases h
      have happ := List.takeWhile_append_dropWhile (p := fun c => c != ']') (l := s)
      have hhead := List.head?_dropWhile_not (fun c => c != ']') s
      rw [hdrop] at happ hhead
      have hcb : c = ']' := by simpa using hhead
      subst hcb
      refine ⟨by rw [happ], ?_⟩
      intro hin
      have hno := List.mem_takeWhile_imp hin
      simp at hno
  · cases h

/-- **What the pattern of the first line says.** -/
theorem matchHead_some (h : matchHead s = some (head, sender)) : (s = head ∧ sender = none) ∨
      (∃ name, s = head ++ '@' :: '[' :: (name ++ [']']) ∧ sender = some name) ∨
      ∃ name, s = '@' :: '[' :: (name ++ ']' :: head) ∧ ']' ∉ name ∧ sender = some name := by
  have happ := List.takeWhile_append_dropWhile (p := isPlain) (l := s)
  unfold matchHead at h
  split at h
  · split at h
    · cases h
    · rename_i name rest _ hmention
      cases h
      obtain ⟨heq, hname⟩ := matchMention_some hmention
      exact Or.inr (Or.inr ⟨name, heq, hname, rfl⟩)
    · cases h
  · split at h
    · rename_i hdrop
      cases h
      rw [hdrop, List.append_nil] at happ
      exact Or.inl ⟨happ.symm, rfl⟩
    · split at h
      · rename_i name hmention
        cases h
        obtain ⟨heq, -⟩ := matchMention_some hmention
        rw [heq] at happ
        exact Or.inr (Or.inl ⟨name, happ.symm, rfl⟩)
      · cases h

/-- The head of the line that is sent, where the target's sender has no bracket. -/
theorem matchHead_firstLine (h : EmojiText T emoji) {sender : Option Text}
    (hne : ∀ name ∈ sender, name ≠ []) (hs : ∀ name ∈ sender, ']' ∉ name) :
    matchHead (firstLine sender emoji) = some (emoji, sender) := by
  obtain ⟨c, rest, hcons⟩ := List.exists_cons_of_ne_nil h.nonempty
  cases sender with
  | none =>
    have htake : emoji.takeWhile isPlain = emoji := List.takeWhile_eq_self_iff.mpr h.plain
    have hdrop : emoji.dropWhile isPlain = [] := List.dropWhile_eq_nil_iff.mpr h.plain
    show matchHead emoji = _
    rw [matchHead, htake, hdrop, hcons]
  | some name =>
    have hmention := matchMention_append (hne name rfl) (hs name rfl) emoji
    have htake : List.takeWhile isPlain ('@' :: '[' :: (name ++ ']' :: emoji)) = [] :=
      List.takeWhile_cons_of_neg (by decide)
    show matchHead ('@' :: '[' :: (name ++ ']' :: emoji)) = _
    rw [matchHead, htake, hmention, hcons]

/-! ### The whole text -/

/-- A text with a good first line is read by its head. -/
theorem parseTwoLine_of_head (hline : Trimmed line)
    (hnew : '\n' ∉ line) (hmatch : matchHead line = some (head, sender))
    (hstarts : T.startsWithEmoji (stripText head) = true) (body : Text) (ts : ℤ) :
    T.parseTwoLineReaction (line ++ '\n' :: T.reactionTargetHash body ts) =
      some ⟨stripText head, T.reactionTargetHash body ts, sender⟩ := by
  have hstrip : stripText line = line := stripText_of_ends hline.head hline.last
  rw [Tools.parseTwoLineReaction, stripText_wire hline, splitOn_wire hnew]
  simp only [stripText_reactionTargetHash, matchesHash_reactionTargetHash, hstrip, hmatch, hstarts,
    normalizeHash_reactionTargetHash, if_true]

/-- A text that is read has two lines, and the head gives the emoji and the sender. -/
theorem head_of_parseTwoLine {hash : Text} {r : HashReaction}
    (hstrip : stripText (line ++ '\n' :: hash) = line ++ '\n' :: hash)
    (hline : Trimmed line)
    (h : T.parseTwoLineReaction (line ++ '\n' :: hash) = some r) :
    '\n' ∉ line ∧ ∃ head, matchHead line = some (head, r.targetSender) ∧
      stripText head = r.emoji := by
  rw [Tools.parseTwoLineReaction, hstrip] at h
  split at h
  · rename_i first second hsplit
    have hnew : '\n' ∉ line := by
      intro hin
      exact splitOn_wire_ne hin hash first second hsplit
    refine ⟨hnew, ?_⟩
    rw [List.splitOn_append_cons_self, List.splitOn_eq_singleton hnew, List.singleton_append] at hsplit
    have hfirst : line = first := (List.cons.inj hsplit).1
    rw [← hfirst, stripText_of_ends hline.head hline.last] at h
    split_ifs at h
    split at h
    · rename_i head sender hmatch
      split_ifs at h
      cases h
      exact ⟨head, hmatch, rfl⟩
    · cases h
  · cases h

/-- The target's sender, if there is one, has neither a closing bracket nor a line break. -/
def Readable (sender : Option Text) : Prop := ∀ name ∈ sender, ']' ∉ name ∧ '\n' ∉ name

theorem newline_not_mem_firstLine (h : EmojiText T emoji)
    (hs : ∀ name ∈ sender, '\n' ∉ name) : '\n' ∉ firstLine sender emoji := by
  cases sender with
  | none => exact h.not_mem_newline
  | some name =>
    have hname := hs name rfl
    have hemoji := h.not_mem_newline
    simp [firstLine, hname, hemoji]

theorem not_getLast_bracket (h : EmojiText T emoji) (pre x : Text) : pre ++ emoji ≠ x ++ [']'] := by
  intro heq
  have hlast := congrArg List.getLast? heq
  rw [List.getLast?_append_of_ne_nil _ h.nonempty, List.getLast?_concat] at hlast
  exact h.not_mem_bracket (List.mem_of_getLast? hlast)

theorem firstLine_eq_append (sender : Option Text) (emoji : Text) :
    ∃ pre, firstLine sender emoji = pre ++ emoji := by
  cases sender with
  | none => exact ⟨[], rfl⟩
  | some name => exact ⟨'@' :: '[' :: (name ++ [']']), by simp [firstLine]⟩

/-- **A body is read back** as what was sent exactly if the target's sender is readable. -/
theorem parseTwoLine_build_iff (h : EmojiText T emoji)
    (hne : ∀ name ∈ sender, name ≠ []) (body : Text) (ts : ℤ) :
    T.parseTwoLineReaction (T.buildReactionText emoji body ts sender) =
      some ⟨emoji, T.reactionTargetHash body ts, sender⟩ ↔ Readable sender := by
  have hstripE : stripText emoji = emoji := stripText_of_forall h.noSpace
  rw [buildReactionText_eq]
  constructor
  · intro hparse name hname
    obtain ⟨hnew, head, hmatch, hhead⟩ :=
      head_of_parseTwoLine (stripText_wire (trimmed_firstLine h sender) body ts)
        (trimmed_firstLine h sender) hparse
    rw [Option.mem_def] at hname
    subst hname
    constructor
    · rcases matchHead_some hmatch with ⟨-, hnone⟩ | ⟨name', heq, -⟩ | ⟨name', heq, hno, hsome⟩
      · cases hnone
      · obtain ⟨pre, hpre⟩ := firstLine_eq_append (some name) emoji
        rw [hpre] at heq
        exact absurd (heq.trans (by simp)) (not_getLast_bracket h pre (head ++ '@' :: '[' :: name'))
      · cases hsome
        exact hno
    · intro hin
      exact hnew (by simp [firstLine, hin])
  · intro hread
    have hmatch := matchHead_firstLine h hne fun name hname => (hread name hname).1
    have hparse := parseTwoLine_of_head (trimmed_firstLine h sender)
      (newline_not_mem_firstLine h fun name hname => (hread name hname).2) hmatch
      (by rw [hstripE]; exact h.starts) body ts
    rw [hstripE] at hparse
    exact hparse

/-! ### The stored message -/

/-- How a reaction is stored: as a direct message, or as a channel row behind our name. -/
inductive Stored
  | dm
  | channel (own : Text)
  deriving DecidableEq

namespace Stored

def text (stored : Stored) (wire : Text) : Text :=
  match stored with
  | dm => wire
  | channel own => own ++ ':' :: ' ' :: wire

def type : Stored → MsgType
  | dm => .priv
  | channel _ => .chan

/-- Our name has no colon and fewer than 50 characters. -/
def OurName : Stored → Prop
  | dm => True
  | channel own => ':' ∉ own ∧ own.length < 50

end Stored

theorem find_colonSpace_append {own : Text} (h : ':' ∉ own) (rest : Text) :
    find colonSpace (own ++ ':' :: ' ' :: rest) = some own.length := by
  induction own with
  | nil => rfl
  | cons c own ih =>
    rw [List.mem_cons, not_or] at h
    rw [List.cons_append, find, if_neg]
    · rw [ih h.2]
      rfl
    · intro hpre
      have hc : ':' = c := by
        rw [colonSpace, List.isPrefixOf_cons_cons, Bool.and_eq_true, beq_iff_eq] at hpre
        exact hpre.1
      exact h.1 hc

/-- Our name in front of the text is taken off again, unless it is empty. -/
theorem messageBody_text {stored : Stored} (h : stored.OurName) (wire : Text) :
    messageBody (stored.text wire) stored.type =
      if stored = .channel [] then ':' :: ' ' :: wire else wire := by
  cases stored with
  | dm => rfl
  | channel own =>
    show stripSender (own ++ ':' :: ' ' :: wire) = _
    rw [stripSender, find_colonSpace_append h.1]
    cases own with
    | nil => rfl
    | cons c own =>
      have hcond : 0 < (c :: own).length ∧ (c :: own).length < 50 ∧
          ':' ∉ ((c :: own) ++ ':' :: ' ' :: wire).take (c :: own).length := by
        refine ⟨by simp, h.2, ?_⟩
        rw [List.take_left]
        exact h.1
      show (if _ then _ else _) = _
      rw [if_pos hcond, if_neg (by simp)]
      rw [← List.drop_drop, List.drop_left]
      rfl

/-- A text behind an empty name is not read back as what was sent. -/
theorem parseTwoLine_colon_ne (h : EmojiText T emoji) (sender : Option Text)
    (body : Text) (ts : ℤ) :
    T.parseTwoLineReaction (':' :: ' ' :: T.buildReactionText emoji body ts sender) ≠
      some ⟨emoji, T.reactionTargetHash body ts, sender⟩ := by
  intro hparse
  obtain ⟨pre, hpre⟩ := firstLine_eq_append sender emoji
  have hline : Trimmed (':' :: ' ' :: firstLine sender emoji) := by
    rw [hpre]
    have hcolon : ∀ c ∈ (':' :: ' ' :: pre).head?, isSpaceChar c = false := by
      intro c hc
      cases hc
      decide
    exact trimmed_append h hcolon
  rw [buildReactionText_eq] at hparse
  have hstripped := stripText_wire (T := T) hline body ts
  obtain ⟨-, head, hmatch, hhead⟩ := head_of_parseTwoLine hstripped hline hparse
  rcases matchHead_some hmatch with ⟨heq, hnone⟩ | ⟨name, heq, -⟩ | ⟨name, heq, -⟩
  · have hnone' : sender = none := hnone
    subst hnone'
    have hlong : (':' :: ' ' :: emoji) = emoji := by
      have hstrip : stripText (':' :: ' ' :: emoji) = ':' :: ' ' :: emoji :=
        stripText_of_ends hline.head hline.last
      rw [← heq] at hhead
      exact hstrip.symm.trans hhead
    have hlength := congrArg List.length hlong
    rw [List.length_cons, List.length_cons] at hlength
    omega
  · rw [hpre] at heq
    exact not_getLast_bracket h (':' :: ' ' :: pre) (head ++ '@' :: '[' :: name)
      (heq.trans (by simp))
  · cases heq

/-- The reaction is read back as it was sent, and matches the message it was built for. -/
def RoundTrips (T : Tools) (emoji body : Text) (ts : ℤ) (sender : Option Text)
    (stored : Stored) : Prop :=
  T.parseHashReaction (stored.text (T.buildReactionText emoji body ts sender)) stored.type =
      some ⟨emoji, T.reactionTargetHash body ts, sender⟩ ∧
    ∃ reaction,
      T.parseAnyReaction (stored.text (T.buildReactionText emoji body ts sender)) stored.type =
        some reaction ∧
      ∀ senderName isChannel, T.reactionMatches reaction ⟨body, senderName, ts, isChannel⟩ = true

theorem ne_nil_of_channelSender {text : Text} (h : channelSender text = some name) : name ≠ [] := by
  unfold channelSender at h
  split at h
  · rename_i colon hfind
    split_ifs at h with hcond
    cases h
    intro hnil
    have hle := find_le hfind
    have hlength := congrArg List.length hnil
    rw [List.length_take, List.length_nil] at hlength
    omega
  · cases h

/-- **Reactions are read back** exactly if the target's sender has neither a closing bracket
nor a line break, and the channel row has a name in front. -/
theorem reaction_round_trips_iff {emoji body : Text} {ts : ℤ} {sender : Option Text}
    {stored : Stored} (hemoji : T.isValidReactionEmoji emoji = true)
    (hsender : ∀ name ∈ sender, ∃ text, channelSender text = some name)
    (hstored : stored.OurName) :
    RoundTrips T emoji body ts sender stored ↔ Readable sender ∧ stored ≠ .channel [] := by
  have h := emojiText_of_valid hemoji
  have hne : ∀ name ∈ sender, name ≠ [] := by
    intro name hname
    obtain ⟨text, htext⟩ := hsender name hname
    exact ne_nil_of_channelSender htext
  have hbody := messageBody_text hstored (T.buildReactionText emoji body ts sender)
  constructor
  · rintro ⟨hparse, -⟩
    rw [Tools.parseHashReaction, hbody] at hparse
    by_cases hempty : stored = .channel []
    · rw [if_pos hempty] at hparse
      exact absurd hparse (parseTwoLine_colon_ne h sender body ts)
    · rw [if_neg hempty] at hparse
      exact ⟨(parseTwoLine_build_iff h hne body ts).mp hparse, hempty⟩
  · rintro ⟨hread, hempty⟩
    rw [if_neg hempty] at hbody
    have hparse := (parseTwoLine_build_iff h hne body ts).mpr hread
    refine ⟨?_, .hash ⟨emoji, T.reactionTargetHash body ts, sender⟩, ?_, ?_⟩
    · rw [Tools.parseHashReaction, hbody, hparse]
    · rw [Tools.parseAnyReaction, hbody, hparse]
    · intro senderName isChannel
      have hmatches : T.matchesBody (.hash ⟨emoji, T.reactionTargetHash body ts, sender⟩)
          ⟨body, senderName, ts, isChannel⟩ = true := by
        simp [Tools.matchesBody]
      rw [Tools.reactionMatches, hmatches, Bool.or_true]

/-- ASCII tables, and the digest of one message as far as its hash takes it. -/
def sampleTools : Tools where
  isOtherSymbol _ := false
  isAlnum := Char.isAlphanum
  digit c := if c.isDigit then some (c.toNat - 48) else none
  sha256 _ := [0x1B, 0xBD, 0x3A, 0x17, 0x15]

theorem reaction_round_trips_test :
    RoundTrips sampleTools "👍".toList "Test".toList 1790113549
      (some "NL-OV-ENS-NL1CTM-TEST".toList) (.channel "Me".toList) := by
  have hemoji : sampleTools.isValidReactionEmoji "👍".toList = true := by decide +kernel
  have hsender : ∀ name ∈ some "NL-OV-ENS-NL1CTM-TEST".toList,
      ∃ text, channelSender text = some name := by
    intro name hname
    cases hname
    exact ⟨"NL-OV-ENS-NL1CTM-TEST: Test".toList, by decide +kernel⟩
  have hown : Stored.OurName (.channel "Me".toList) := ⟨by decide, by decide⟩
  have hread : Readable (some "NL-OV-ENS-NL1CTM-TEST".toList) := by
    intro name hname
    cases hname
    exact ⟨by decide, by decide⟩
  exact (reaction_round_trips_iff hemoji hsender hown).mpr ⟨hread, by decide⟩

/-- The name `A]B` is read up to the bracket, and what follows it as part of the emoji. -/
theorem not_forall_round_trips :
    ¬ ∀ (T : Tools) (emoji body : Text) (ts : ℤ) (sender : Option Text) (stored : Stored),
      T.isValidReactionEmoji emoji = true →
      (∀ name ∈ sender, ∃ text, channelSender text = some name) → stored.OurName →
      RoundTrips T emoji body ts sender stored := by
  intro hall
  have hsender : ∀ name ∈ some "A]B".toList, ∃ text, channelSender text = some name := by
    intro name hname
    cases hname
    exact ⟨"A]B: Test".toList, by decide +kernel⟩
  have hown : Stored.OurName (.channel "Me".toList) := ⟨by decide, by decide⟩
  have hread := hall sampleTools "👍".toList "Test".toList 1790113549 (some "A]B".toList)
    (.channel "Me".toList) (by decide +kernel) hsender hown
  have hwrong : sampleTools.parseHashReaction ((Stored.channel "Me".toList).text
      (sampleTools.buildReactionText "👍".toList "Test".toList 1790113549 (some "A]B".toList)))
      .chan = none := by decide +kernel
  exact absurd (hwrong.symm.trans hread.1) (by decide)

end RtfmEv.Reactions
