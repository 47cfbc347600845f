import RtfmEv.Lib.Bytes
import RtfmEv.Lib.OrderedDict
import RtfmEv.Lib.Run

/-!
# Claiming the messages that were stored under a prefix

A direct message whose sender is not known, or not known for sure, is stored under the prefix of
the key that came with it. Every later message of the contact first claims those rows: their
conversation becomes the full key, if no other full key has the prefix. The statement changes the
columns of the unique index on incoming messages, and fails as a whole if two rows would be equal
there.

The table of messages holds the direct messages, the one of contacts has full keys and
placeholders. Every database call of an ingest is a step, and anything else may happen between two
of them. Keys are lists of hex digits in lower case, so `LIKE key || '%'` is a test for a prefix.
-/

namespace RtfmEv.PrefixClaims

open RtfmEv.Lib

abbrev Hex := List (Fin 16)

def fullLength : ℕ := 64

def contactTypeRepeater : ℕ := 2

def contactTypeRoom : ℕ := 3

/-- A row of type `PRIV`. -/
structure Row where
  id : ℕ
  conversation : Hex
  senderKey : Option Hex
  text : String
  ts : ℤ
  outgoing : Bool
  deriving DecidableEq

/-- The columns of `idx_messages_incoming_priv_dedup`. -/
def Row.dedupKey (r : Row) : Hex × String × ℤ × Hex :=
  (r.conversation, r.text, r.ts, r.senderKey.getD [])

/-- What a row says, without where it is filed. -/
def Row.message (r : Row) : ℕ × String × ℤ × Bool := (r.id, r.text, r.ts, r.outgoing)

structure Contact where
  key : Hex
  type : ℕ
  deriving DecidableEq

/-- The contacts with their types, and the messages. -/
structure Db where
  contacts : OrderedDict Hex ℕ := OrderedDict.empty
  rows : List Row := []
  nextId : ℕ := 1

/-! ### The repositories -/

namespace Db

variable (key : Hex) (db : Db)

/-- `SELECT COUNT(*)` over the full keys with a prefix. -/
def fullMatches (p : Hex) : ℕ :=
  (db.contacts.keys.filter (fun k => k.length = fullLength && p.isPrefixOf k)).length

/-- The `WHERE` of `claim_prefix_messages`. -/
def claims (r : Row) : Bool :=
  decide (r.conversation.length < fullLength) && r.conversation.isPrefixOf key &&
    decide (db.fullMatches r.conversation = 1)

def claimedSender (sender : Option Hex) : Option Hex :=
  sender.map (fun s => if s.length < fullLength && s.isPrefixOf key then key else s)

def claimRow (r : Row) : Row :=
  if db.claims key r then
    { r with conversation := key, senderKey := claimedSender key r.senderKey }
  else r

def DedupIndex (rows : List Row) : Prop :=
  ((rows.filter (fun r => !r.outgoing)).map Row.dedupKey).Nodup

instance (rows : List Row) : Decidable (DedupIndex rows) :=
  inferInstanceAs (Decidable (List.Nodup _))

/-- `claim_prefix_messages`, none if the index refuses the statement. The rows that it changes end
under one key, so no row is in the way of another for a moment only. -/
def claimPrefixMessages : Option Db :=
  if DedupIndex (db.rows.map (db.claimRow key)) then
    some { db with rows := db.rows.map (db.claimRow key) }
  else none

/-- `MessageRepository.create`: a row that the index refuses is ignored. -/
def create (r : Row) : Db :=
  if !r.outgoing && db.rows.any (fun old => !old.outgoing && old.dedupKey = r.dedupKey) then db
  else { db with rows := db.rows ++ [r], nextId := db.nextId + 1 }

/-- Whether `MessageRepository.get_by_content` finds a row: the sender is not compared. -/
def getByContent (r : Row) : Bool :=
  db.rows.any (fun old => old.conversation = r.conversation && old.text = r.text &&
    old.ts = r.ts && old.outgoing = r.outgoing)

def getByKey : Option Contact := (db.contacts.get? key).map (fun type => ⟨key, type⟩)

/-- `get_by_key_or_prefix`: nothing also where it raises, for an ambiguous prefix. -/
def getByKeyOrPrefix : Option Contact :=
  match db.getByKey key with
  | some c => some c
  | none =>
    match db.contacts.entries.filter (fun e => key.isPrefixOf e.1) with
    | [e] => some ⟨e.1, e.2⟩
    | _ => none

/-- `ContactRepository.upsert`: type 0 leaves the type as it is. -/
def upsert (type : ℕ) : Db :=
  { db with
    contacts := db.contacts.set key
      (if type = 0 then (db.contacts.get? key).getD 0 else type) }

/-- `ContactRepository.delete` keeps the messages. -/
def delete : Db := { db with contacts := db.contacts.erase key }

end Db

/-! ### Ingests -/

/-- A direct message as it comes: from a packet that the key of its contact decrypts, or from the
radio with the key of its sender or a prefix of it. The text is as it is stored. The signer is the
prefix that signs a post of a room, empty if there is none. -/
structure Incoming where
  fallback : Bool
  key : Hex
  text : String
  ts : ℤ
  outgoing : Bool
  signer : Hex
  incoming : fallback = true → outgoing = false

inductive Stage where
  | lookup
  | claim (c : Contact)
  | placeholder
  | reread
  | signer
  | claimSigner (c : Contact)
  | content
  | create
  | done
  | failed
  deriving DecidableEq

/-- An ingest, with the conversation and the sender as far as they are resolved. -/
structure Task where
  m : Incoming
  stage : Stage
  conversation : Hex
  senderKey : Option Hex

namespace Task

variable (t : Task)

/-- The arguments of `MessageRepository.create`. -/
def row (id : ℕ) : Row := ⟨id, t.conversation, t.senderKey, t.m.text, t.m.ts, t.m.outgoing⟩

/-- The first step of `_store_direct_message`. -/
def toStore : Task :=
  { t with stage := if t.m.fallback || t.m.outgoing then .content else .create }

/-- With its contact: a post of a room is attributed to its signer. -/
def withContact (c : Contact) : Task :=
  if c.type = contactTypeRoom ∧ t.m.outgoing = false ∧ t.m.signer ≠ [] then
    { t with stage := .signer }
  else t.toStore

/-- Filed under a key. -/
def filed (key : Hex) : Task :=
  { t with
    conversation := key
    senderKey := if t.m.outgoing ∨ key = [] then none else some key }

end Task

namespace Db

variable (db : Db) (t : Task)

/-- The lookup of `ingest_decrypted_direct_message` or of
`resolve_fallback_direct_message_context`. -/
def findContact : Option Contact :=
  if t.m.fallback then db.getByKeyOrPrefix t.m.key else db.getByKey t.m.key

/-- The next database call of an ingest. -/
def exec : Db × Task :=
  match t.stage with
  | .lookup =>
    match db.findContact t with
    | some c => (db, { t with stage := .claim c })
    | none =>
      let t := t.filed t.m.key
      (db, if t.m.fallback && t.m.key ≠ [] then { t with stage := .placeholder } else t.toStore)
  | .claim c =>
    match db.claimPrefixMessages c.key with
    | none => (db, { t with stage := .failed })
    | some db =>
      (db, if c.type = contactTypeRepeater then { t with stage := .done }
        else (t.filed c.key).withContact c)
  | .placeholder => (db.upsert t.m.key 0, { t with stage := .reread })
  | .reread =>
    match db.getByKey t.m.key with
    | some c => (db, t.withContact c)
    | none => (db, t.toStore)
  | .signer =>
    match db.getByKeyOrPrefix t.m.signer with
    | some c => (db, { t with stage := .claimSigner c })
    | none => (db, { t with senderKey := some t.m.signer }.toStore)
  | .claimSigner c =>
    match db.claimPrefixMessages c.key with
    | none => (db, { t with stage := .failed })
    | some db => (db, { t with senderKey := some c.key }.toStore)
  | .content => (db, { t with stage := if db.getByContent (t.row 0) then .done else .create })
  | .create => (db.create (t.row db.nextId), { t with stage := .done })
  | .done | .failed => (db, t)

end Db

structure State where
  db : Db := {}
  tasks : List Task := []

/-- A contact comes or goes, a message comes, or an ingest makes its next call. One may end early:
its packet has a message already, or it is cancelled. -/
inductive Label where
  | upsert (key : Hex) (type : ℕ)
  | delete (key : Hex)
  | receive (m : Incoming)
  | run (i : ℕ)
  | drop (i : ℕ)

namespace State

variable (s : State)

def setTask (i : ℕ) (r : Db × Task) : State := ⟨r.1, s.tasks.set i r.2⟩

def apply : Label → Option State
  | .upsert key type => some { s with db := s.db.upsert key type }
  | .delete key => some { s with db := s.db.delete key }
  | .receive m => some { s with tasks := s.tasks ++ [⟨m, .lookup, [], none⟩] }
  | .run i => (s.tasks[i]?).map (fun t => s.setTask i (s.db.exec t))
  | .drop i => (s.tasks[i]?).map (fun t => s.setTask i (s.db, { t with stage := .done }))

end State

def Step (s : State) (l : Label) (s' : State) : Prop := s.apply l = some s'

/-! ### Twins -/

/-- One is a prefix of the other. -/
def related (a b : Hex) : Bool := a.isPrefixOf b || b.isPrefixOf a

/-- Two incoming rows that a claim can make equal. -/
def twin (r r' : Row) : Bool :=
  !r.outgoing && !r'.outgoing && decide (r.text = r'.text) && decide (r.ts = r'.ts) &&
    related r.conversation r'.conversation && related (r.senderKey.getD []) (r'.senderKey.getD [])

/-- The row that a call writes has no twin, or is there already. -/
def storesNoTwin (e : Event State Label) : Bool :=
  match e.label with
  | .run i =>
    match e.pre.tasks[i]? with
    | some t =>
      decide (t.stage ≠ .create) || e.pre.db.rows.all (fun r =>
        !twin r (t.row e.pre.db.nextId) || decide (r.dedupKey = (t.row e.pre.db.nextId).dedupKey))
    | none => true
  | _ => true

def NoTwins (rows : List Row) : Prop := rows.Pairwise (fun r r' => twin r r' = false)

section Twins

variable {a b a' b' k key : Hex} {r r' : Row} {rows : List Row} {db db' : Db}

theorem related_iff : related a b = true ↔ a <+: b ∨ b <+: a := by
  rw [related, Bool.or_eq_true, List.isPrefixOf_iff_prefix, List.isPrefixOf_iff_prefix]

theorem related_of_moved (ha : a' = a ∨ a <+: k ∧ a' = k) (hb : b' = b ∨ b <+: k ∧ b' = k)
    (h : related a' b' = true) : related a b = true := by
  rw [related_iff] at h ⊢
  rcases ha with rfl | ⟨hak, rfl⟩ <;> rcases hb with rfl | ⟨hbk, rfl⟩
  · exact h
  · rcases h with h | h
    · exact List.prefix_or_prefix_of_prefix h hbk
    · exact Or.inr (hbk.trans h)
  · rcases h with h | h
    · exact Or.inl (hak.trans h)
    · exact List.prefix_or_prefix_of_prefix hak h
  · exact List.prefix_or_prefix_of_prefix hak hbk

theorem claimRow_cases (key : Hex) (db : Db) (r : Row) :
    db.claimRow key r = r ∨ db.claims key r = true ∧ r.conversation <+: key ∧
      (db.claimRow key r).conversation = key := by
  rw [Db.claimRow]
  split_ifs with hclaims
  · refine Or.inr ⟨hclaims, ?_, rfl⟩
    rw [Db.claims, Bool.and_eq_true, Bool.and_eq_true] at hclaims
    exact List.isPrefixOf_iff_prefix.mp hclaims.1.2
  · exact Or.inl rfl

theorem claimRow_message (key : Hex) (db : Db) (r : Row) :
    (db.claimRow key r).message = r.message := by
  rw [Db.claimRow]
  split_ifs <;> rfl

theorem claimRow_sender (key : Hex) (db : Db) (r : Row) :
    (db.claimRow key r).senderKey.getD [] = r.senderKey.getD [] ∨
      r.senderKey.getD [] <+: key ∧ (db.claimRow key r).senderKey.getD [] = key := by
  rw [Db.claimRow]
  split_ifs with hclaims
  · cases hsender : r.senderKey with
    | none => exact Or.inl rfl
    | some sender =>
      rw [Db.claimedSender, Option.map_some, Option.getD_some, Option.getD_some]
      split_ifs with hstarts
      · rw [Bool.and_eq_true] at hstarts
        exact Or.inr ⟨List.isPrefixOf_iff_prefix.mp hstarts.2, rfl⟩
      · exact Or.inl rfl
  · exact Or.inl rfl

theorem twin_of_claimRow (h : twin (db.claimRow key r) (db.claimRow key r') = true) :
    twin r r' = true := by
  have hconversation : ∀ r, (db.claimRow key r).conversation = r.conversation ∨
      r.conversation <+: key ∧ (db.claimRow key r).conversation = key := fun r =>
    (claimRow_cases key db r).imp (congrArg Row.conversation) And.right
  have hr := claimRow_message key db r
  have hr' := claimRow_message key db r'
  simp only [Row.message, Prod.mk.injEq] at hr hr'
  simp only [twin, Bool.and_eq_true, hr, hr'] at h ⊢
  exact ⟨⟨h.1.1, related_of_moved (hconversation r) (hconversation r') h.1.2⟩,
    related_of_moved (claimRow_sender key db r) (claimRow_sender key db r') h.2⟩

theorem NoTwins.claim (h : NoTwins rows) (key : Hex) (db : Db) :
    NoTwins (rows.map (db.claimRow key)) :=
  List.pairwise_map.mpr (h.imp fun hno =>
    Bool.eq_false_iff.mpr fun htwin => Bool.eq_false_iff.mp hno (twin_of_claimRow htwin))

theorem twin_of_dedupKey (hr : r.outgoing = false) (hr' : r'.outgoing = false)
    (h : r.dedupKey = r'.dedupKey) : twin r r' = true := by
  simp only [Row.dedupKey, Prod.mk.injEq] at h
  obtain ⟨hconversation, htext, hts, hsender⟩ := h
  have hself : ∀ a : Hex, related a a = true := fun a => related_iff.mpr (Or.inl List.prefix_rfl)
  simp [twin, hr, hr', hconversation, htext, hts, hsender, hself]

theorem NoTwins.dedupIndex (h : NoTwins rows) : Db.DedupIndex rows := by
  refine List.pairwise_map.mpr (List.Pairwise.imp_of_mem ?_ (h.filter _))
  intro r r' hr hr' hno heq
  have hin : ∀ {r}, r ∈ rows.filter (fun r => !r.outgoing) → r.outgoing = false := fun hr => by
    simpa using (List.mem_filter.mp hr).2
  rw [twin_of_dedupKey (hin hr) (hin hr') heq] at hno
  cases hno

theorem claimPrefixMessages_of_noTwins (h : NoTwins db.rows) (key : Hex) :
    db.claimPrefixMessages key = some { db with rows := db.rows.map (db.claimRow key) } :=
  if_pos (h.claim key db).dedupIndex

theorem NoTwins.create (h : NoTwins db.rows)
    (hr : ∀ old ∈ db.rows, twin old r = false ∨ old.dedupKey = r.dedupKey) :
    NoTwins (db.create r).rows := by
  rw [Db.create]
  split_ifs with hthere
  · exact h
  · refine List.pairwise_append.mpr ⟨h, List.pairwise_singleton _ _, fun old hold r' hr' => ?_⟩
    rw [List.mem_singleton.mp hr']
    rcases hr old hold with hno | heq
    · exact hno
    · refine Bool.eq_false_iff.mpr fun htwin => hthere ?_
      simp only [twin, Bool.and_eq_true, Bool.not_eq_true'] at htwin
      rw [Bool.and_eq_true, Bool.not_eq_true', List.any_eq_true]
      exact ⟨htwin.1.1.1.1.2, old, hold, by simp [htwin.1.1.1.1.1, heq]⟩

end Twins

/-! ### Runs -/

/-- No row is claimable into another, and no ingest has failed. -/
structure Good (s : State) : Prop where
  noTwins : NoTwins s.db.rows
  tasks : ∀ t ∈ s.tasks, t.stage ≠ .failed

/-- What a call of an ingest leaves when no row that it writes has a twin. -/
theorem exec_spec {db : Db} {t : Task} (h : NoTwins db.rows) (hstage : t.stage ≠ .failed)
    (hcreate : t.stage = .create → ∀ old ∈ db.rows,
      twin old (t.row db.nextId) = false ∨ old.dedupKey = (t.row db.nextId).dedupKey) :
    NoTwins (db.exec t).1.rows ∧ (db.exec t).2.stage ≠ .failed := by
  have htoStore : ∀ t : Task, t.toStore.stage ≠ .failed := fun t => by
    rw [Task.toStore]
    dsimp only
    split_ifs <;> exact Stage.noConfusion
  have hwith : ∀ (t : Task) c, (t.withContact c).stage ≠ .failed := fun t c => by
    rw [Task.withContact]
    split_ifs
    · exact Stage.noConfusion
    · exact htoStore t
  have hclaim := claimPrefixMessages_of_noTwins h
  rw [Db.exec]
  cases hs : t.stage with
  | lookup =>
    dsimp only
    split
    · exact ⟨h, Stage.noConfusion⟩
    · refine ⟨h, ?_⟩
      split_ifs
      · exact Stage.noConfusion
      · exact htoStore _
  | claim c =>
    dsimp only
    rw [hclaim c.key]
    refine ⟨h.claim c.key db, ?_⟩
    dsimp only
    split_ifs
    · exact Stage.noConfusion
    · exact hwith _ c
  | placeholder => exact ⟨h, Stage.noConfusion⟩
  | reread =>
    dsimp only
    split
    · exact ⟨h, hwith _ _⟩
    · exact ⟨h, htoStore _⟩
  | signer =>
    dsimp only
    split
    · exact ⟨h, Stage.noConfusion⟩
    · exact ⟨h, htoStore _⟩
  | claimSigner c =>
    dsimp only
    rw [hclaim c.key]
    exact ⟨h.claim c.key db, htoStore _⟩
  | content =>
    refine ⟨h, ?_⟩
    dsimp only
    split_ifs <;> exact Stage.noConfusion
  | create => exact ⟨h.create (hcreate hs), Stage.noConfusion⟩
  | done => exact ⟨h, hstage⟩
  | failed => exact absurd hs hstage

theorem Good.step {e : Event State Label} (hstep : Step e.pre e.label e.post)
    (hno : storesNoTwin e = true) (h : Good e.pre) : Good e.post := by
  obtain ⟨s, l, s'⟩ := e
  dsimp only at hstep h ⊢
  have hset : ∀ (i : ℕ) (r : Db × Task), NoTwins r.1.rows → r.2.stage ≠ .failed →
      Good (s.setTask i r) := fun i r hrows hstage =>
    ⟨hrows, fun t ht => (List.mem_or_eq_of_mem_set ht).elim (h.tasks t) fun heq => heq ▸ hstage⟩
  cases l with
  | upsert key type =>
    cases hstep
    exact ⟨h.noTwins, h.tasks⟩
  | delete key =>
    cases hstep
    exact ⟨h.noTwins, h.tasks⟩
  | receive m =>
    cases hstep
    refine ⟨h.noTwins, fun t ht => ?_⟩
    rcases List.mem_append.mp ht with hold | hnew
    · exact h.tasks t hold
    · rw [List.mem_singleton.mp hnew]
      exact Stage.noConfusion
  | run i =>
    obtain ⟨t, ht, rfl⟩ := Option.map_eq_some_iff.mp hstep
    have hcreate : t.stage = .create → ∀ old ∈ s.db.rows,
        twin old (t.row s.db.nextId) = false ∨ old.dedupKey = (t.row s.db.nextId).dedupKey := by
      intro hstage old hold
      simp only [storesNoTwin, ht, hstage, ne_eq, not_true_eq_false, decide_false, Bool.false_or,
        List.all_eq_true, Bool.or_eq_true, Bool.not_eq_true', decide_eq_true_eq] at hno
      exact hno old hold
    obtain ⟨hrows, hstage⟩ := exec_spec h.noTwins (h.tasks t (List.mem_of_getElem? ht)) hcreate
    exact hset i _ hrows hstage
  | drop i =>
    obtain ⟨t, ht, rfl⟩ := Option.map_eq_some_iff.mp hstep
    exact hset i _ h.noTwins Stage.noConfusion

/-- What a claim for a contact does. -/
structure Claimed (key : Hex) (db db' : Db) : Prop where
  contacts : db'.contacts = db.contacts
  messages : db'.rows.map Row.message = db.rows.map Row.message
  others : List.Forall₂ (fun r r' => r' = r ∨ r.conversation <+: key ∧ r'.conversation = key ∧
    ∀ k ∈ db.contacts.keys, k.length = fullLength → r.conversation <+: k → k = key) db.rows db'.rows
  noneLeft : ∀ r ∈ db'.rows, r.conversation.length < fullLength → r.conversation <+: key →
    ∃ k ∈ db.contacts.keys, k.length = fullLength ∧ r.conversation <+: k ∧ k ≠ key

section Claim

variable {key p : Hex} {db : Db}

/-- A prefix that counts one full key is a prefix of no other. -/
theorem fullMatches_eq_one_iff (hlength : key.length = fullLength) (hkey : key ∈ db.contacts.keys)
    (hp : p <+: key) : db.fullMatches p = 1 ↔
      ∀ k ∈ db.contacts.keys, k.length = fullLength → p <+: k → k = key := by
  have hmem : ∀ k, k ∈ db.contacts.keys.filter
      (fun k => k.length = fullLength && p.isPrefixOf k) ↔
        k ∈ db.contacts.keys ∧ k.length = fullLength ∧ p <+: k := fun k => by
    rw [List.mem_filter, Bool.and_eq_true, decide_eq_true_eq, List.isPrefixOf_iff_prefix]
  rw [Db.fullMatches]
  constructor
  · intro hone k hk hfull hpk
    obtain ⟨k₀, hk₀⟩ := List.length_eq_one_iff.mp hone
    have hin := (hmem k).mpr ⟨hk, hfull, hpk⟩
    have hin' := (hmem key).mpr ⟨hkey, hlength, hp⟩
    rw [hk₀, List.mem_singleton] at hin hin'
    rw [hin, hin']
  · intro hone
    refine List.Perm.length_eq ((List.perm_ext_iff_of_nodup (db.contacts.nodup.filter _)
      (List.nodup_singleton key)).mpr fun k => (hmem k).trans ?_)
    rw [List.mem_singleton]
    constructor
    · exact fun hk => hone k hk.1 hk.2.1 hk.2.2
    · rintro rfl
      exact ⟨hkey, hlength, hp⟩

theorem claimed_claimRow (hlength : key.length = fullLength) (hkey : key ∈ db.contacts.keys) :
    Claimed key db { db with rows := db.rows.map (db.claimRow key) } where
  contacts := rfl
  messages := by
    rw [List.map_map]
    exact List.map_congr_left fun r _ => claimRow_message key db r
  others := by
    rw [List.forall₂_map_right_iff, List.forall₂_same]
    intro r _
    refine (claimRow_cases key db r).imp_right fun ⟨hclaims, hstarts, hmoved⟩ =>
      ⟨hstarts, hmoved, ?_⟩
    rw [Db.claims, Bool.and_eq_true, decide_eq_true_eq] at hclaims
    exact (fullMatches_eq_one_iff hlength hkey hstarts).mp hclaims.2
  noneLeft r hr hshort hstarts := by
    obtain ⟨r, -, rfl⟩ := List.mem_map.mp hr
    by_contra hno
    push Not at hno
    have hsame : db.claimRow key r = r := (claimRow_cases key db r).elim id fun h => by
      rw [h.2.2, hlength] at hshort
      exact absurd hshort (lt_irrefl _)
    rw [hsame] at hshort hstarts hno
    have hone := (fullMatches_eq_one_iff hlength hkey hstarts).mpr hno
    have hclaims : db.claims key r = true := by
      rw [Db.claims, decide_eq_true hshort, List.isPrefixOf_iff_prefix.mpr hstarts, hone]
      rfl
    rw [Db.claimRow, if_pos hclaims] at hsame
    rw [← hsame, hlength] at hshort
    exact lt_irrefl _ hshort

end Claim

/-- **Learning a contact never blocks its messages** as long as no row is stored whose twin is there:
every claim succeeds, and for a contact it does what it is for. -/
theorem learning_never_blocks {h : List (Event State Label)} {s : State} (r : Run Step {} h s)
    (hno : ∀ e ∈ h, storesNoTwin e = true) :
    (∀ key, ∃ db', s.db.claimPrefixMessages key = some db' ∧
      (key.length = fullLength → key ∈ s.db.contacts.keys → Claimed key s.db db')) ∧
      ∀ t ∈ s.tasks, t.stage ≠ .failed := by
  have hgood : Good s := r.invariant hno (fun e => Good.step)
    ⟨List.Pairwise.nil, fun t ht => absurd ht List.not_mem_nil⟩
  exact ⟨fun key => ⟨_, claimPrefixMessages_of_noTwins hgood.noTwins key, claimed_claimRow⟩,
    hgood.tasks⟩

/-! ### Two runs -/

def aliceKey : Hex := List.replicate 64 0

def bobKey : Hex := List.replicate 63 0 ++ [1]

/-- A message of Alice, decrypted from a packet or as the radio gives it. -/
def fromAlice (fallback : Bool) (text : String) : Incoming where
  fallback := fallback
  key := if fallback then aliceKey.take 12 else aliceKey
  text := text
  ts := 5
  outgoing := false
  signer := []
  incoming _ := rfl

/-- Alice is not known when her first message comes, and is when the second does. -/
def learnsAlice : List Label :=
  [.receive (fromAlice true "hi"), .run 0, .run 0, .run 0, .run 0, .run 0,
    .upsert aliceKey 1, .receive (fromAlice false "you"), .run 1, .run 1, .run 1]

theorem learning_never_blocks_learnsAlice :
    ∃ h s, Run Step {} h s ∧ h.map Event.label = learnsAlice ∧
      s.db.rows.map Row.conversation = [aliceKey, aliceKey] ∧
      ∃ db', s.db.claimPrefixMessages aliceKey = some db' ∧ Claimed aliceKey s.db db' := by
  obtain ⟨h, s, r, hlabels, hp⟩ := Run.exists_of_trace State.apply {} learnsAlice
    (fun r => r.1.all storesNoTwin && decide (aliceKey ∈ r.2.db.contacts.keys) &&
      decide (r.2.db.rows.map Row.conversation = [aliceKey, aliceKey])) (by decide +kernel)
  simp only [Bool.and_eq_true, List.all_eq_true, decide_eq_true_eq] at hp
  obtain ⟨db', hclaim, hclaimed⟩ := (learning_never_blocks r hp.1.1).1 aliceKey
  exact ⟨h, s, r, hlabels, hp.2, db', hclaim, hclaimed rfl hp.1.2⟩

/-- Two contacts share the prefix. A message of Alice is decrypted, and stored under the prefix as
well when the radio gives it. Then Bob is deleted, and a new message of Alice comes. -/
def twiceStored : List Label :=
  [.upsert aliceKey 1, .upsert bobKey 1, .receive (fromAlice false "hi"), .run 0, .run 0, .run 0,
    .receive (fromAlice true "hi"), .run 1, .run 1, .run 1, .run 1, .run 1,
    .delete bobKey, .receive (fromAlice false "you"), .run 2, .run 2]

theorem not_forall_learning_never_blocks :
    ¬ ∀ (h : List (Event State Label)) (s : State), Run Step {} h s →
      (∀ key ∈ s.db.contacts.keys, (s.db.claimPrefixMessages key).isSome = true) ∧
        ∀ t ∈ s.tasks, t.stage ≠ .failed := by
  intro hall
  obtain ⟨h, s, r, -, hp⟩ := Run.exists_of_trace State.apply {} twiceStored
    (fun r => r.2.tasks.any (fun t => t.stage = .failed)) (by decide +kernel)
  obtain ⟨t, ht, hfailed⟩ := List.any_eq_true.mp hp
  exact (hall h s r).2 t ht (of_decide_eq_true hfailed)

end RtfmEv.PrefixClaims
