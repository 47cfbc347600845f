import RtfmEv.Contacts.Repository

/-!
# The read cursor only moves forward

Acknowledging a message joins its pair `(received_at, id)` to the cursor of its
conversation: the cursor is the lexicographic maximum of where it started and of
what was acknowledged, in any order. Promotion takes the columns of one of the
two cursors, so nothing is read that nobody acknowledged.
-/

namespace RtfmEv.Contacts

open RtfmEv.Lib

/-- A contact or a channel. -/
abbrev Conversation := MsgType × Hex

def cursorOf (c : Conversation) (db : Db) : Option (ℤ ×ₗ ℤ) :=
  match c.1 with
  | .priv => (db.contacts.get? c.2).map ContactRow.cursor
  | .chan => (db.channels.get? c.2).map ChannelRow.cursor

/-- `update_last_read_at` of the conversation's repository, with a message id. -/
def acknowledge (c : Conversation) (messageId : ℤ) (db : Db) : Db :=
  match c.1 with
  | .priv => (updateLastReadAt c.2 messageId db).1
  | .chan => (updateChannelLastReadAt c.2 messageId db).1

inductive Event
  | acknowledge (c : Conversation) (messageId : ℤ)
  | store (id : ℤ) (m : Message)
  | upsert (key : Hex) (firstSeen lastSeen lastContacted : Option ℤ)
  | promote (fullKey : Hex)
  | claim (fullKey : Hex)

def Event.apply (db : Db) : Event → Db
  | acknowledge c messageId => Contacts.acknowledge c messageId db
  | store id m => storeMessage id m db
  | upsert key firstSeen lastSeen lastContacted =>
    Contacts.upsert key firstSeen lastSeen lastContacted db
  | promote fullKey => (promotePrefixPlaceholders fullKey db).1
  | claim fullKey => claimPrefixMessages fullKey db

def run (events : List Event) (db : Db) : Db := events.foldl Event.apply db

/-- The pair that an event acknowledges in a conversation. -/
def Event.acked (c : Conversation) (db : Db) : Event → Option (ℤ ×ₗ ℤ)
  | acknowledge c' messageId => if c' = c then boundary c.1 c.2 messageId db else none
  | _ => none

/-- The pairs that a run acknowledges in a conversation. -/
def ackedPairs (c : Conversation) : List Event → Db → List (ℤ ×ₗ ℤ)
  | [], _ => []
  | e :: events, db => (e.acked c db).toList ++ ackedPairs c events (e.apply db)

/-! ## Acknowledging -/

variable (c : Conversation) (messageId : ℤ) (db : Db)

/-- What acknowledging can do to the tables: one contact's cursor becomes the pair
of a later message, or one channel's does. -/
theorem acknowledge_cases : acknowledge c messageId db = db ∨
      (∃ row requested, c.1 = .priv ∧ db.contacts.get? c.2 = some row ∧
        boundary .priv c.2 messageId db = some requested ∧ row.cursor < requested ∧
        acknowledge c messageId db =
          { db with contacts := db.contacts.set c.2 (row.readThrough requested) }) ∨
      ∃ row requested, c.1 = .chan ∧ db.channels.get? c.2 = some row ∧
        boundary .chan c.2 messageId db = some requested ∧ row.cursor < requested ∧
        acknowledge c messageId db =
          { db with channels := db.channels.set c.2 (row.readThrough requested) } := by
  obtain ⟨type, key⟩ := c
  cases type with
  | priv =>
    show (updateLastReadAt key messageId db).1 = db ∨ _
    rw [updateLastReadAt]
    cases hrow : db.contacts.get? key with
    | none => exact Or.inl rfl
    | some row =>
      cases hb : boundary .priv key messageId db with
      | none => exact Or.inl rfl
      | some requested =>
        by_cases hgt : requested > row.cursor
        · right
          left
          refine ⟨row, requested, rfl, rfl, rfl, hgt, ?_⟩
          show (updateLastReadAt key messageId db).1 = _
          rw [updateLastReadAt, hrow, hb]
          exact congrArg Prod.fst (if_pos hgt)
        · left
          exact congrArg Prod.fst (if_neg hgt)
  | chan =>
    show (updateChannelLastReadAt key messageId db).1 = db ∨ _
    rw [updateChannelLastReadAt]
    cases hrow : db.channels.get? key with
    | none => exact Or.inl rfl
    | some row =>
      cases hb : boundary .chan key messageId db with
      | none => exact Or.inl rfl
      | some requested =>
        by_cases hgt : requested > row.cursor
        · right
          right
          refine ⟨row, requested, rfl, rfl, rfl, hgt, ?_⟩
          show (updateChannelLastReadAt key messageId db).1 = _
          rw [updateChannelLastReadAt, hrow, hb]
          exact congrArg Prod.fst (if_pos hgt)
        · left
          exact congrArg Prod.fst (if_neg hgt)

theorem cursorOf_acknowledge_self : cursorOf c (acknowledge c messageId db) =
      (cursorOf c db).map (fun start => (boundary c.1 c.2 messageId db).elim start (max start)) := by
  obtain ⟨type, key⟩ := c
  cases type with
  | priv =>
    show ((updateLastReadAt key messageId db).1.contacts.get? key).map ContactRow.cursor = _
    unfold updateLastReadAt
    cases hrow : db.contacts.get? key with
    | none => simp [cursorOf, hrow]
    | some row =>
      dsimp only
      cases hb : boundary .priv key messageId db with
      | none => simp [cursorOf, hrow]
      | some requested =>
        dsimp only
        split_ifs with hgt
        · rw [OrderedDict.get?_set_self]
          simp only [cursorOf, hrow, Option.map_some, Option.elim]
          rw [max_eq_right hgt.le]
          rfl
        · simp only [cursorOf, hrow, Option.map_some, Option.elim]
          rw [max_eq_left (not_lt.mp hgt)]
  | chan =>
    show ((updateChannelLastReadAt key messageId db).1.channels.get? key).map ChannelRow.cursor = _
    unfold updateChannelLastReadAt
    cases hrow : db.channels.get? key with
    | none => simp [cursorOf, hrow]
    | some row =>
      dsimp only
      cases hb : boundary .chan key messageId db with
      | none => simp [cursorOf, hrow]
      | some requested =>
        dsimp only
        split_ifs with hgt
        · rw [OrderedDict.get?_set_self]
          simp only [cursorOf, hrow, Option.map_some, Option.elim]
          rw [max_eq_right hgt.le]
          rfl
        · simp only [cursorOf, hrow, Option.map_some, Option.elim]
          rw [max_eq_left (not_lt.mp hgt)]

variable {c : Conversation} {key fullKey : Hex} {db : Db} {e : Event} {events : List Event}
  {acc : Db × List Hex} {bound start : ℤ ×ₗ ℤ} {S : Conversation → Prop}
  {placeholder : Hex × ContactRow}

theorem cursorOf_acknowledge_of_ne {c' : Conversation} (hne : c' ≠ c) (messageId : ℤ) (db : Db) :
    cursorOf c (acknowledge c' messageId db) = cursorOf c db := by
  obtain ⟨type, key⟩ := c
  obtain ⟨type', key'⟩ := c'
  rcases acknowledge_cases (type', key') messageId db with hsame | ⟨row, requested, htype, -, -, -, hset⟩ |
    ⟨row, requested, htype, -, -, -, hset⟩
  · rw [hsame]
  · rw [hset]
    cases type with
    | chan => rfl
    | priv =>
      have hkey : key ≠ key' := fun hkey => hne (Prod.ext htype hkey.symm)
      exact congrArg (Option.map ContactRow.cursor) (OrderedDict.get?_set_of_ne hkey)
  · rw [hset]
    cases type with
    | priv => rfl
    | chan =>
      have hkey : key ≠ key' := fun hkey => hne (Prod.ext htype hkey.symm)
      exact congrArg (Option.map ChannelRow.cursor) (OrderedDict.get?_set_of_ne hkey)

theorem messages_acknowledge : (acknowledge c messageId db).messages = db.messages := by
  rcases acknowledge_cases c messageId db with hsame | ⟨_, _, -, -, -, -, hset⟩ |
    ⟨_, _, -, -, -, -, hset⟩
  · rw [hsame]
  · rw [hset]
  · rw [hset]

/-! ## Runs without a promotion -/

def Event.promotes : Event → Bool
  | promote _ => true
  | _ => false

/-- A contact that is there keeps its cursor when it is heard again. -/
theorem cursor_upsert (key : Hex) (firstSeen lastSeen lastContacted : Option ℤ) {k : Hex}
    {row : ContactRow} (hrow : db.contacts.get? k = some row) :
    ∃ row', (upsert key firstSeen lastSeen lastContacted db).contacts.get? k = some row' ∧
      row'.cursor = row.cursor := by
  unfold upsert
  by_cases hk : k = key
  · subst hk
    rw [hrow]
    exact ⟨_, OrderedDict.get?_set_self .., rfl⟩
  · exact ⟨row, (OrderedDict.get?_set_of_ne hk).trans hrow, rfl⟩

/-- One event moves the cursor of a conversation to the maximum of what it was
and what the event acknowledges. -/
theorem cursorOf_apply (hquiet : e.promotes = false) (hstart : cursorOf c db = some start) :
    cursorOf c (e.apply db) = some ((e.acked c db).elim start (max start)) := by
  cases e with
  | acknowledge c' messageId =>
    show cursorOf c (acknowledge c' messageId db) = _
    by_cases hc : c' = c
    · subst hc
      rw [cursorOf_acknowledge_self, hstart, Event.acked, if_pos rfl]
      rfl
    · rw [cursorOf_acknowledge_of_ne hc, hstart, Event.acked, if_neg hc]
      rfl
  | store id m =>
    refine Eq.trans ?_ hstart
    show cursorOf c (storeMessage id m db) = _
    unfold storeMessage
    split_ifs <;> rfl
  | upsert key firstSeen lastSeen lastContacted =>
    obtain ⟨type, k⟩ := c
    cases type with
    | chan => exact hstart
    | priv =>
      obtain ⟨row, hrow, rfl⟩ := Option.map_eq_some_iff.mp hstart
      obtain ⟨row', hrow', hcursor⟩ := cursor_upsert key firstSeen lastSeen lastContacted hrow
      exact Option.map_eq_some_iff.mpr ⟨row', hrow', hcursor⟩
  | promote fullKey => cases hquiet
  | claim fullKey => exact hstart

/-- **The cursor is the maximum** of where it started and of the acknowledged
messages of its conversation. -/
theorem cursorOf_run
    (hquiet : ∀ e ∈ events, e.promotes = false) (hstart : cursorOf c db = some start) :
    cursorOf c (run events db) = some ((ackedPairs c events db).foldl max start) := by
  induction events generalizing db start with
  | nil => exact hstart
  | cons e events ih =>
    have hnext := cursorOf_apply (hquiet e List.mem_cons_self) hstart
    have hrest := ih (fun e he => hquiet e (List.mem_cons_of_mem _ he)) hnext
    show cursorOf c (run events (e.apply db)) = _
    rw [hrest, ackedPairs, List.foldl_append]
    cases e.acked c db <;> rfl

/-! ## The order of the calls -/

/-- Calls alone, so that every call sees the same messages. -/
def calls (acks : List (Conversation × ℤ)) : List Event :=
  acks.map (fun a => Event.acknowledge a.1 a.2)

theorem ackedPairs_calls (c : Conversation) (acks : List (Conversation × ℤ)) (db : Db) :
    ackedPairs c (calls acks) db =
      acks.flatMap (fun a => ((Event.acknowledge a.1 a.2).acked c db).toList) := by
  induction acks generalizing db with
  | nil => rfl
  | cons a acks ih =>
    have hsame : ∀ e : Conversation × ℤ,
        (Event.acknowledge e.1 e.2).acked c (acknowledge a.1 a.2 db) =
          (Event.acknowledge e.1 e.2).acked c db := by
      intro e
      simp only [Event.acked, boundary, messages_acknowledge]
    show (Event.acked c db (Event.acknowledge a.1 a.2)).toList ++
      ackedPairs c (calls acks) (acknowledge a.1 a.2 db) = _
    rw [ih, List.flatMap_cons]
    simp only [hsame]

theorem cursorOf_calls_none {acks : List (Conversation × ℤ)}
    (hnone : cursorOf c db = none) : cursorOf c (run (calls acks) db) = none := by
  induction acks generalizing db with
  | nil => exact hnone
  | cons a acks ih =>
    apply ih
    show cursorOf c (acknowledge a.1 a.2 db) = none
    by_cases hc : a.1 = c
    · rw [hc, cursorOf_acknowledge_self, hnone]
      rfl
    · rw [cursorOf_acknowledge_of_ne hc, hnone]

/-- **The order of the calls does not matter.** -/
theorem cursorOf_calls_perm {acks acks' : List (Conversation × ℤ)} (hperm : acks.Perm acks')
    (c : Conversation) (db : Db) :
    cursorOf c (run (calls acks) db) = cursorOf c (run (calls acks') db) := by
  have hquiet : ∀ acks : List (Conversation × ℤ), ∀ e ∈ calls acks, e.promotes = false := by
    intro acks e he
    obtain ⟨a, -, rfl⟩ := List.mem_map.mp he
    rfl
  cases hstart : cursorOf c db with
  | none => rw [cursorOf_calls_none hstart, cursorOf_calls_none hstart]
  | some start =>
    rw [cursorOf_run (hquiet acks) hstart, cursorOf_run (hquiet acks') hstart, ackedPairs_calls,
      ackedPairs_calls]
    exact congrArg some ((hperm.flatMap_right _).foldl_eq start)

/-! ## Promotion -/

/-- The merged columns are those of one of the two cursors. -/
theorem columns_mergeContact (row contact : ContactRow) :
    ((mergeContact row contact).lastReadAt = contact.lastReadAt ∧
        (mergeContact row contact).lastReadMessageId = contact.lastReadMessageId) ∨
      ((mergeContact row contact).lastReadAt = row.lastReadAt ∧
        (mergeContact row contact).lastReadMessageId = row.lastReadMessageId) := by
  unfold mergeContact
  dsimp only
  cases hkept : contact.lastReadAt with
  | none => exact Or.inr ⟨rfl, rfl⟩
  | some kept =>
    cases hnew : row.lastReadAt with
    | none => exact Or.inl ⟨rfl, rfl⟩
    | some new =>
      dsimp only
      by_cases hgt : new > kept
      · rw [if_pos hgt, if_pos hgt]
        exact Or.inr ⟨rfl, rfl⟩
      · rw [if_neg hgt, if_neg hgt]
        split_ifs with heq
        · exact Or.inr ⟨by rw [heq.1], rfl⟩
        · exact Or.inl ⟨rfl, rfl⟩

theorem cursor_mergeContact (row contact : ContactRow) :
    (mergeContact row contact).cursor = contact.cursor ∨
      (mergeContact row contact).cursor = row.cursor := by
  unfold ContactRow.cursor
  rcases columns_mergeContact row contact with ⟨hat, hid⟩ | ⟨hat, hid⟩
  · exact Or.inl (by rw [hat, hid])
  · exact Or.inr (by rw [hat, hid])

theorem channels_promoteOne (fullKey : Hex) (acc : Db × List Hex) (placeholder : Hex × ContactRow) :
    (promoteOne fullKey acc placeholder).1.channels = acc.1.channels := by
  unfold promoteOne
  dsimp only
  split_ifs
  · rfl
  · rfl
  · show (updateContact _ _ _).channels = _
    unfold updateContact
    split <;> rfl

theorem mem_promoteOne (h : key ∈ acc.2) : key ∈ (promoteOne fullKey acc placeholder).2 := by
  unfold promoteOne
  dsimp only
  split_ifs
  · exact h
  · exact h
  · exact List.mem_append_left _ h

theorem mem_foldl_promoteOne {rows : List (Hex × ContactRow)} (h : key ∈ acc.2) :
    key ∈ (rows.foldl (promoteOne fullKey) acc).2 := by
  induction rows generalizing acc with
  | nil => exact h
  | cons e rows ih => exact ih (mem_promoteOne h)

/-- The cursors of a set of conversations stand before a bound. -/
def AllBefore (bound : ℤ ×ₗ ℤ) (S : Conversation → Prop) (db : Db) : Prop :=
  ∀ c, S c → ∀ start ∈ cursorOf c db, start < bound

/-- One placeholder: the full key takes over its cursor or keeps its own. -/
theorem AllBefore.promoteOne (h : AllBefore bound S acc.1)
    (hrow : placeholder.1 ∈ (promoteOne fullKey acc placeholder).2 → S (.priv, fullKey) →
      placeholder.2.cursor < bound) :
    AllBefore bound S (promoteOne fullKey acc placeholder).1 := by
  rintro ⟨type, k⟩ hS start hstart
  cases type with
  | chan =>
    apply h (.chan, k) hS start
    have hsame : cursorOf (.chan, k) acc.1 =
        cursorOf (.chan, k) (Contacts.promoteOne fullKey acc placeholder).1 :=
      congrArg (fun t => (t.get? k).map ChannelRow.cursor) (channels_promoteOne ..).symm
    exact hsame.trans hstart
  | priv =>
    obtain ⟨row, hget, rfl⟩ := Option.map_eq_some_iff.mp hstart
    unfold Contacts.promoteOne at hget hrow
    dsimp only at hget hrow
    have hkept : ∀ row, acc.1.contacts.get? k = some row → row.cursor < bound :=
      fun row hr => h (.priv, k) hS _ (Option.map_eq_some_iff.mpr ⟨row, hr, rfl⟩)
    split_ifs at hget hrow with hself hmatch
    · exact hkept row hget
    · exact hkept row hget
    · rw [OrderedDict.get?_erase] at hget
      split_ifs at hget
      unfold updateContact at hget
      cases hfull : acc.1.contacts.get? fullKey with
      | none =>
        have hsame : (migrateChildRows placeholder.1 fullKey acc.1).contacts.get? fullKey
            = none := hfull
        rw [hsame] at hget
        exact hkept row hget
      | some contact =>
        have hsame : (migrateChildRows placeholder.1 fullKey acc.1).contacts.get? fullKey
            = some contact := hfull
        rw [hsame] at hget
        change ((acc.1.contacts.set fullKey _).get? k) = some row at hget
        rw [OrderedDict.get?_set] at hget
        split_ifs at hget with hkf
        · rw [← Option.some.inj hget]
          rcases cursor_mergeContact placeholder.2 contact with hcur | hcur
          · rw [hcur]
            exact hkept contact (hkf ▸ hfull)
          · rw [hcur]
            exact hrow List.mem_concat_self (hkf ▸ hS)
        · exact hkept row hget

/-- The whole promotion, when the placeholders it takes in stand before the bound. -/
theorem AllBefore.promote
    (h : AllBefore bound S db)
    (hclosed : ∀ key ∈ (promotePrefixPlaceholders fullKey db).2, S (.priv, fullKey) →
      S (.priv, key)) :
    AllBefore bound S (promotePrefixPlaceholders fullKey db).1 := by
  have hrows : ∀ e ∈ placeholders fullKey db, e.1 ∈ (promotePrefixPlaceholders fullKey db).2 →
      S (.priv, fullKey) → e.2.cursor < bound := by
    intro e he hpromoted hS
    have hmem := (List.mem_filter.mp ((List.mem_insertionSort _).mp he)).1
    exact h (.priv, e.1) (hclosed e.1 hpromoted hS) _
      (Option.map_eq_some_iff.mpr ⟨e.2, OrderedDict.get?_eq_some_iff.mpr hmem, rfl⟩)
  unfold promotePrefixPlaceholders at hrows ⊢
  clear hclosed
  change AllBefore bound S (db, ([] : List Hex)).1 at h
  generalize (db, ([] : List Hex)) = acc at h hrows ⊢
  generalize placeholders fullKey db = rows at hrows ⊢
  induction rows generalizing acc with
  | nil => exact h
  | cons e rows ih =>
    apply ih (Contacts.promoteOne fullKey acc e)
    · apply h.promoteOne
      intro hpromoted hS
      have hstays : e.1 ∈ (rows.foldl (Contacts.promoteOne fullKey)
          (Contacts.promoteOne fullKey acc e)).2 := mem_foldl_promoteOne hpromoted
      exact hrows e List.mem_cons_self hstays hS
    · intro e' he' hpromoted hS
      exact hrows e' (List.mem_cons_of_mem _ he') hpromoted hS

/-! ## Nothing is read that nobody acknowledged -/

/-- The conversations whose cursors a run brings into the cursor of `c`: the
placeholders that it promotes into `c`, or into one that it promotes. -/
inductive Feeds (events : List Event) (db : Db) (c : Conversation) : Conversation → Prop
  | self : Feeds events db c c
  | promoted {pre post : List Event} {fullKey key : Hex} :
      Feeds events db c (.priv, fullKey) → events = pre ++ .promote fullKey :: post →
      key ∈ (promotePrefixPlaceholders fullKey (run pre db)).2 → Feeds events db c (.priv, key)

/-- A set of conversations that holds with a contact the placeholders that a run
promotes into it. -/
def Closed (S : Conversation → Prop) (events : List Event) (db : Db) : Prop :=
  ∀ pre post fullKey key, events = pre ++ .promote fullKey :: post → S (.priv, fullKey) →
    key ∈ (promotePrefixPlaceholders fullKey (run pre db)).2 → S (.priv, key)

theorem Closed.tail
    (h : Closed S (e :: events) db) : Closed S events (e.apply db) := by
  intro pre post fullKey key hsplit
  exact h (e :: pre) post fullKey key (by rw [hsplit, List.cons_append])

theorem closed_feeds (events : List Event) (db : Db) (c : Conversation) :
    Closed (Feeds events db c) events db := by
  intro pre post fullKey key hsplit hfeeds hkey
  exact Feeds.promoted hfeeds hsplit hkey

/-- Every pair that a run acknowledges in the set stands before a bound. -/
def AckedBefore (bound : ℤ ×ₗ ℤ) (S : Conversation → Prop) (events : List Event) (db : Db) : Prop :=
  ∀ c, S c → ∀ pair ∈ ackedPairs c events db, pair < bound

theorem cursorOf_apply_none (hquiet : e.promotes = false)
    (hnone : cursorOf c db = none) (start : ℤ ×ₗ ℤ)
    (hstart : cursorOf c (e.apply db) = some start) :
    start = toLex (0, 0) := by
  cases e with
  | acknowledge c' messageId =>
    change cursorOf c (acknowledge c' messageId db) = _ at hstart
    by_cases hc : c' = c
    · subst hc
      rw [cursorOf_acknowledge_self, hnone] at hstart
      cases hstart
    · rw [cursorOf_acknowledge_of_ne hc, hnone] at hstart
      cases hstart
  | store id m =>
    have hsame : cursorOf c (storeMessage id m db) = cursorOf c db := by
      unfold storeMessage
      split_ifs <;> rfl
    rw [Event.apply, hsame, hnone] at hstart
    cases hstart
  | upsert key firstSeen lastSeen lastContacted =>
    obtain ⟨type, k⟩ := c
    cases type with
    | chan =>
      change cursorOf (.chan, k) db = _ at hstart
      rw [hnone] at hstart
      cases hstart
    | priv =>
      have hrow : db.contacts.get? k = none := Option.map_eq_none_iff.mp hnone
      obtain ⟨row, hget, rfl⟩ := Option.map_eq_some_iff.mp hstart
      change (upsert key firstSeen lastSeen lastContacted db).contacts.get? k = some row at hget
      unfold upsert at hget
      change (db.contacts.set key _).get? k = some row at hget
      rw [OrderedDict.get?_set] at hget
      split_ifs at hget with hk
      · rw [← hk, hrow] at hget
        rw [← Option.some.inj hget]
        rfl
      · rw [hrow] at hget
        cases hget
  | promote fullKey => cases hquiet
  | claim fullKey =>
    change cursorOf c db = _ at hstart
    rw [hnone] at hstart
    cases hstart

theorem AllBefore.apply
    (h : AllBefore bound S db) (hzero : toLex (0, 0) < bound)
    (hclosed : Closed S (e :: events) db)
    (hacked : ∀ c, S c → ∀ pair ∈ e.acked c db, pair < bound) :
    AllBefore bound S (e.apply db) := by
  by_cases hpromotes : e.promotes = true
  · cases e with
    | acknowledge => cases hpromotes
    | store => cases hpromotes
    | upsert => cases hpromotes
    | claim => cases hpromotes
    | promote fullKey =>
      exact h.promote (fun key hkey hS => hclosed [] events fullKey key rfl hS hkey)
  · intro c hS start hstart
    have hquiet : e.promotes = false := by simpa using hpromotes
    cases hold : cursorOf c db with
    | some old =>
      rw [cursorOf_apply hquiet hold] at hstart
      rw [← Option.some.inj hstart]
      cases ha : e.acked c db with
      | none => exact h c hS old hold
      | some pair => exact max_lt (h c hS old hold) (hacked c hS pair ha)
    | none =>
      -- a contact that appears starts at the beginning
      rw [cursorOf_apply_none hquiet hold start hstart]
      exact hzero

theorem AllBefore.run
    (h : AllBefore bound S db) (hzero : toLex (0, 0) < bound) (hclosed : Closed S events db)
    (hacked : AckedBefore bound S events db) : AllBefore bound S (run events db) := by
  induction events generalizing db with
  | nil => exact h
  | cons e events ih =>
    apply ih (h.apply hzero hclosed _) hclosed.tail
    · intro c hS pair hpair
      exact hacked c hS pair (List.mem_append_right _ hpair)
    · intro c hS pair hpair
      exact hacked c hS pair (List.mem_append_left _ (Option.mem_toList.mpr hpair))

theorem readCursor_eq (m : Message) (db : Db) :
    readCursor m db = (cursorOf (m.type, m.conversationKey) db).getD (toLex (0, 0)) := by
  unfold readCursor cursorOf
  cases m.type <;> rfl

/-- **A message above everything acknowledged stays unread.** -/
theorem not_countsAsRead {id : ℤ} {m : Message}
    (hzero : toLex (0, 0) < toLex (m.receivedAt, id))
    (hstart : AllBefore (toLex (m.receivedAt, id))
      (Feeds events db (m.type, m.conversationKey)) db)
    (hacked : AckedBefore (toLex (m.receivedAt, id))
      (Feeds events db (m.type, m.conversationKey)) events db) :
    ¬CountsAsRead id m (run events db) := by
  have hall := hstart.run hzero (closed_feeds events db _) hacked
  have hcursor : readCursor m (run events db) < toLex (m.receivedAt, id) := by
    rw [readCursor_eq]
    cases hcur : cursorOf (m.type, m.conversationKey) (run events db) with
    | none => exact hzero
    | some start => exact hall _ Feeds.self start hcur
  intro hread
  rcases Prod.Lex.lt_iff.mp hcursor with hlt | ⟨heq, hlt⟩
  · exact hread (Or.inl hlt)
  · exact hread (Or.inr ⟨heq.symm, hlt⟩)

/-- **Acknowledging only moves forward.** For every conversation: the cursor ends
at the maximum of where it started and of the acknowledged messages of the
conversation; the order of the calls does not matter; promotion takes both
columns from one cursor; and no message above all that was acknowledged, in the
conversation or in one that was promoted into it, counts as read. -/
theorem acknowledging_moves_forward (db : Db) :
    (∀ c start events, (∀ e ∈ events, e.promotes = false) → cursorOf c db = some start →
      cursorOf c (run events db) = some ((ackedPairs c events db).foldl max start)) ∧
    (∀ c acks acks', List.Perm acks acks' →
      cursorOf c (run (calls acks) db) = cursorOf c (run (calls acks') db)) ∧
    (∀ row contact,
      ((mergeContact row contact).lastReadAt, (mergeContact row contact).lastReadMessageId) ∈
        [(contact.lastReadAt, contact.lastReadMessageId), (row.lastReadAt, row.lastReadMessageId)]) ∧
    ∀ events id m, toLex (0, 0) < toLex (m.receivedAt, id) →
      AllBefore (toLex (m.receivedAt, id)) (Feeds events db (m.type, m.conversationKey)) db →
      AckedBefore (toLex (m.receivedAt, id)) (Feeds events db (m.type, m.conversationKey)) events db →
      ¬CountsAsRead id m (run events db) := by
  refine ⟨?_, ?_, ?_, ?_⟩
  · intro c start events hquiet hstart
    exact cursorOf_run hquiet hstart
  · intro c acks acks' hperm
    exact cursorOf_calls_perm hperm c db
  · intro row contact
    rcases columns_mergeContact row contact with ⟨hat, hid⟩ | ⟨hat, hid⟩
    · rw [hat, hid]
      exact List.mem_cons_self
    · rw [hat, hid]
      exact List.mem_cons_of_mem _ List.mem_cons_self
  · intro events id m hzero hbefore hacked
    exact not_countsAsRead hzero hbefore hacked

/-! ### A placeholder with its own cursor -/

/-- A full key. -/
def aliceKey : Hex := List.replicate 64 0xA

/-- The contact, a placeholder of it that was read through message 3, and three
messages, two of the same second among them. -/
def aliceDb : Db :=
  { Db.empty with
    contacts := (OrderedDict.empty.set aliceKey ⟨none, none, none, none, none⟩).set
      (aliceKey.take 12) ⟨none, none, none, some 100, some 3⟩
    messages := ((OrderedDict.empty.set 3 ⟨.priv, aliceKey.take 12, 100, false⟩).set
      5 ⟨.priv, aliceKey, 200, false⟩).set 9 ⟨.priv, aliceKey, 200, false⟩ }

/-- The first message of the second is acknowledged, the placeholder is promoted. -/
def aliceEvents : List Event := [.acknowledge (.priv, aliceKey) 5, .promote aliceKey]

/-- The second message of the second is still unread. -/
theorem acknowledging_moves_forward_alice :
    cursorOf (.priv, aliceKey) (run [.acknowledge (.priv, aliceKey) 5] aliceDb) =
        some (toLex (200, 5)) ∧
      ¬CountsAsRead 9 ⟨.priv, aliceKey, 200, false⟩ (run aliceEvents aliceDb) := by
  have hall := acknowledging_moves_forward aliceDb
  constructor
  · rw [hall.1 (.priv, aliceKey) (toLex (0, 0)) _ (by decide) (by decide +kernel)]
    decide +kernel
  · apply hall.2.2.2
    · decide
    · intro c _ start hstart
      obtain ⟨type, key⟩ := c
      cases type with
      | chan => cases hstart
      | priv =>
        obtain ⟨row, hrow, rfl⟩ := Option.map_eq_some_iff.mp hstart
        have hmem := OrderedDict.get?_eq_some_iff.mp hrow
        have hrows : ∀ e ∈ aliceDb.contacts.entries, e.2.cursor < toLex (200, 9) := by
          decide +kernel
        exact hrows _ hmem
    · intro c _ pair hpair
      rcases List.mem_append.mp hpair with hacked | hnone
      · have hpair := Option.mem_toList.mp hacked
        rw [Event.acked] at hpair
        split_ifs at hpair with hc
        subst hc
        have hboundary : boundary .priv aliceKey 5 aliceDb = some (toLex (200, 5)) := by
          decide +kernel
        rw [← Option.some.inj (hboundary.symm.trans hpair)]
        decide
      · cases hnone

end RtfmEv.Contacts
