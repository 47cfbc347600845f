import Mathlib.Order.Interval.Finset.Nat
import RtfmEv.Lib.Bytes
import RtfmEv.Lib.OrderedDict
import RtfmEv.Lib.Table

/-!
# Joining multi-part payloads

A frame comes in as numbered chunks of an envelope, a large event as numbered
fragments. The reassembler keeps the parts of each open key until all are in,
gives a key up when its first part is too old, and drops the oldest key when
too many are open. Beside it stands the table of the frames that were handled
lately.

Every call carries what the clock reads at it; `forget_frame` reads no clock,
its time only says where it stands in the run.
-/

namespace RtfmEv.Atak

open RtfmEv.Lib

structure EnvelopeChunk where
  msgId : String
  seq : ℕ
  total : ℕ
  data : Bytes
  deriving DecidableEq

structure CotFragment where
  fragId : ℕ
  seq : ℕ
  total : ℕ
  data : Bytes
  deriving DecidableEq

/-- `("env", channel_key, msg_id, total)` and `("cot", sender, frag_id, total)`. -/
inductive Key
  | env (channelKey msgId : String) (total : ℕ)
  | cot (sender : String) (fragId total : ℕ)
  deriving DecidableEq

def Key.total : Key → ℕ
  | env _ _ total => total
  | cot _ _ total => total

structure Pending where
  created : ℚ
  total : ℕ
  parts : OrderedDict ℕ Bytes

/-- The arguments an `AtakReassembler` is built with. -/
structure Config where
  ttlS : ℚ
  maxPending : ℕ
  dedupTtlS : ℚ

structure State where
  pending : OrderedDict Key Pending
  seen : Table (String × Bytes) ℚ

def State.empty : State := ⟨OrderedDict.empty, Table.empty⟩

inductive PyError
  | valueError
  | keyError
  deriving DecidableEq

def expire (c : Config) (now : ℚ) (s : State) : State where
  pending := s.pending.eraseIf (fun e => decide (c.ttlS < now - e.2.created))
  seen := s.seen.keep (fun t => decide (now - t ≤ c.dedupTtlS))

/-- `min(self._pending, key=lambda k: self._pending[k].created)` -/
def oldest (d : OrderedDict Key Pending) : Option Key :=
  (d.entries.argmin (fun e => e.2.created)).map Prod.fst

/-- `while len(self._pending) >= self._max_pending`: drop the oldest key, for a
dictionary of at most so many entries; `none` when `min` has nothing left. -/
def makeRoom (maxPending : ℕ) : ℕ → OrderedDict Key Pending → Option (OrderedDict Key Pending)
  | 0, d => if d.size < maxPending then some d else none
  | n + 1, d =>
    if d.size < maxPending then some d
    else (oldest d).bind (fun k => makeRoom maxPending n (d.erase k))

/-- `b"".join(pending.parts[i] for i in range(1, total + 1))`, `none` on a missing part. -/
def joinParts (parts : OrderedDict ℕ Bytes) (total : ℕ) : Option Bytes :=
  ((List.range' 1 total).mapM parts.get?).map List.flatten

/-- The end of `_add`: the part goes in, and a full key is taken out and joined. -/
def put (key : Key) (seq total : ℕ) (data : Bytes) (p : Pending) (s : State) :
    State × Except PyError (Option Bytes) :=
  let p := { p with parts := p.parts.set seq data }
  if p.parts.size < total then ({ s with pending := s.pending.set key p }, .ok none)
  else
    ({ s with pending := s.pending.erase key },
      match joinParts p.parts total with
      | some frame => .ok (some frame)
      | none => .error .keyError)

def add (c : Config) (now : ℚ) (key : Key) (seq total : ℕ) (data : Bytes) (s : State) :
    State × Except PyError (Option Bytes) :=
  let s := expire c now s
  if total = 1 then (s, .ok (some data))
  else
    match s.pending.get? key with
    | some p => put key seq total data p s
    | none =>
      match makeRoom c.maxPending s.pending.size s.pending with
      | none => ({ s with pending := OrderedDict.empty }, .error .valueError)
      | some d => put key seq total data ⟨now, total, OrderedDict.empty⟩ { s with pending := d }

def addChunk (c : Config) (now : ℚ) (channelKey : String) (chunk : EnvelopeChunk) (s : State) :
    State × Except PyError (Option Bytes) :=
  add c now (.env channelKey chunk.msgId chunk.total) chunk.seq chunk.total chunk.data s

def addCotFragment (c : Config) (now : ℚ) (sender : String) (frag : CotFragment) (s : State) :
    State × Except PyError (Option Bytes) :=
  add c now (.cot sender frag.fragId frag.total) frag.seq frag.total frag.data s

section

variable (sha256 : Bytes → Bytes)

def seenFrame (c : Config) (now : ℚ) (channelKey : String) (frame : Bytes) (s : State) :
    State × Bool :=
  let s := expire c now s
  let key := (channelKey, sha256 frame)
  if (s.seen.get key).isSome then (s, true)
  else ({ s with seen := s.seen.set key now }, false)

def forgetFrame (channelKey : String) (frame : Bytes) (s : State) : State :=
  { s with seen := s.seen.erase (channelKey, sha256 frame) }

end

inductive Call
  | addChunk (channelKey : String) (chunk : EnvelopeChunk)
  | addCotFragment (sender : String) (frag : CotFragment)
  | seenFrame (channelKey : String) (frame : Bytes)
  | forgetFrame (channelKey : String) (frame : Bytes)
  deriving DecidableEq

inductive Answer
  | joined (r : Except PyError (Option Bytes))
  | seen (handled : Bool)
  | forgotten

def step (sha256 : Bytes → Bytes) (c : Config) (s : State) : ℚ × Call → State × Answer
  | (now, .addChunk channelKey chunk) =>
    let r := addChunk c now channelKey chunk s
    (r.1, .joined r.2)
  | (now, .addCotFragment sender frag) =>
    let r := addCotFragment c now sender frag s
    (r.1, .joined r.2)
  | (now, .seenFrame channelKey frame) =>
    let r := seenFrame sha256 c now channelKey frame s
    (r.1, .seen r.2)
  | (_, .forgetFrame channelKey frame) => (forgetFrame sha256 channelKey frame s, .forgotten)

/-- The state after a run of calls. -/
def after (sha256 : Bytes → Bytes) (c : Config) (h : List (ℚ × Call)) : State :=
  h.foldl (fun s call => (step sha256 c s call).1) State.empty

/-- What a call answers after a run of calls. -/
def answer (sha256 : Bytes → Bytes) (c : Config) (h : List (ℚ × Call)) (call : ℚ × Call) : Answer :=
  (step sha256 c (after sha256 c h) call).2

theorem after_concat (sha256 : Bytes → Bytes) (c : Config) (h : List (ℚ × Call))
    (call : ℚ × Call) :
    after sha256 c (h ++ [call]) = (step sha256 c (after sha256 c h) call).1 := by
  rw [after, List.foldl_append]
  rfl

/-! ## Deliveries -/

/-- A part that a call brings in. -/
structure Delivery where
  key : Key
  seq : ℕ
  data : Bytes

def Call.delivery? : Call → Option Delivery
  | addChunk channelKey chunk =>
    some ⟨.env channelKey chunk.msgId chunk.total, chunk.seq, chunk.data⟩
  | addCotFragment sender frag => some ⟨.cot sender frag.fragId frag.total, frag.seq, frag.data⟩
  | seenFrame _ _ => none
  | forgetFrame _ _ => none

/-- Both ways in are `_add` under the key of the part. -/
theorem step_of_delivery (sha256 : Bytes → Bytes) (c : Config) (s : State) {now : ℚ} {call : Call}
    {d : Delivery} (hd : call.delivery? = some d) :
    step sha256 c s (now, call) =
      ((add c now d.key d.seq d.key.total d.data s).1,
        .joined (add c now d.key d.seq d.key.total d.data s).2) := by
  cases call with
  | addChunk channelKey chunk | addCotFragment sender frag =>
    obtain rfl := Option.some.inj hd
    rfl
  | seenFrame channelKey frame => cases hd
  | forgetFrame channelKey frame => cases hd

/-! ## The parts of a key -/

/-- The parts that the messages have under each key and number. -/
abbrev Messages := Key → ℕ → Bytes

/-- The concatenation of the parts `1..total` of a key. -/
def frameOf (M : Messages) (k : Key) : Bytes := ((List.range' 1 k.total).map (M k)).flatten

/-- The stored parts are parts of the message. -/
def PartsIn (M : Messages) (k : Key) (parts : OrderedDict ℕ Bytes) : Prop :=
  ∀ i b, parts.get? i = some b → i ∈ Finset.Icc 1 k.total ∧ b = M k i

/-- The numbers of the stored parts. -/
def seqs (parts : OrderedDict ℕ Bytes) : Finset ℕ := parts.keys.toFinset

variable {parts : OrderedDict ℕ Bytes} {i : ℕ} {M : Messages} {k : Key}

theorem mem_seqs :
    i ∈ seqs parts ↔ ∃ b, parts.get? i = some b := by
  rw [seqs, List.mem_toFinset]
  constructor
  · intro hi
    exact Option.ne_none_iff_exists'.mp (fun hnone => OrderedDict.get?_eq_none_iff.mp hnone hi)
  · rintro ⟨b, hb⟩
    exact OrderedDict.mem_keys_of_get? hb

theorem card_keys {α β : Type*} [DecidableEq α] (d : OrderedDict α β) :
    d.keys.toFinset.card = d.size :=
  (List.toFinset_card_of_nodup d.nodup).trans (List.length_map _)

theorem card_seqs (parts : OrderedDict ℕ Bytes) : (seqs parts).card = parts.size :=
  card_keys parts

theorem seqs_set (parts : OrderedDict ℕ Bytes) (i : ℕ) (b : Bytes) :
    seqs (parts.set i b) = insert i (seqs parts) := by
  ext j
  rw [Finset.mem_insert, mem_seqs, mem_seqs, OrderedDict.get?_set]
  by_cases hj : j = i
  · simp [hj]
  · simp [hj]

theorem PartsIn.empty (M : Messages) (k : Key) : PartsIn M k OrderedDict.empty := by
  intro i b hb
  cases hb

theorem PartsIn.set
    (h : PartsIn M k parts) (hi : i ∈ Finset.Icc 1 k.total) :
    PartsIn M k (parts.set i (M k i)) := by
  intro j b hb
  rw [OrderedDict.get?_set] at hb
  split_ifs at hb with hj
  · subst hj
    exact ⟨hi, (Option.some.inj hb).symm⟩
  · exact h j b hb

theorem PartsIn.seqs_subset
    (h : PartsIn M k parts) : seqs parts ⊆ Finset.Icc 1 k.total := by
  intro i hi
  obtain ⟨b, hb⟩ := mem_seqs.mp hi
  exact (h i b hb).1

/-- As many parts as the message has are all of them. -/
theorem PartsIn.joinParts_eq
    (h : PartsIn M k parts) (hfull : k.total ≤ parts.size) :
    joinParts parts k.total = some (frameOf M k) := by
  have hall : seqs parts = Finset.Icc 1 k.total := by
    apply Finset.eq_of_subset_of_card_le h.seqs_subset
    rw [Nat.card_Icc, card_seqs]
    omega
  have hget : ∀ i ∈ List.range' 1 k.total, parts.get? i = some (M k i) := by
    intro i hi
    rw [List.mem_range'_1] at hi
    have hmem : i ∈ seqs parts := by
      rw [hall, Finset.mem_Icc]
      omega
    obtain ⟨b, hb⟩ := mem_seqs.mp hmem
    rw [hb, (h i b hb).2]
  have hmap : (List.range' 1 k.total).mapM parts.get? = some ((List.range' 1 k.total).map (M k)) := by
    generalize List.range' 1 k.total = l at hget
    induction l with
    | nil => rfl
    | cons i l ih =>
      rw [List.mapM_cons, hget i List.mem_cons_self,
        ih (fun j hj => hget j (List.mem_cons_of_mem i hj))]
      rfl
  rw [joinParts, hmap]
  rfl

/-- A part of the message goes in: the key stays open, or its frame comes out. -/
theorem put_eq {p : Pending} (s : State) (h : PartsIn M k p.parts)
    (hi : i ∈ Finset.Icc 1 k.total) :
    put k i k.total (M k i) p s =
      if (insert i (seqs p.parts)).card < k.total then
        ({ s with pending := s.pending.set k { p with parts := p.parts.set i (M k i) } }, .ok none)
      else ({ s with pending := s.pending.erase k }, .ok (some (frameOf M k))) := by
  have hcard : (p.parts.set i (M k i)).size = (insert i (seqs p.parts)).card := by
    rw [← seqs_set p.parts i (M k i), card_seqs]
  unfold put
  simp only [hcard]
  split_ifs with hfull
  · rfl
  · rw [(h.set hi).joinParts_eq (by omega)]

end RtfmEv.Atak
