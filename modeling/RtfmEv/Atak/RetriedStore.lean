import Mathlib.Data.Set.Finite.Lattice
import RtfmEv.Atak.ReassemblyRuns

/-!
# A failed store and its repeat

A frame that comes out of the reassembler is handled once, and forgotten when that fails. Of an
event in several frames only the frame that failed is forgotten: the fragments of the others went
into the event that was not stored, and they are not taken again.

A datagram is handled as a whole, at one reading of the clock. The counts of frames that are not
stored, and what the handler answers, are left out.
-/

namespace RtfmEv.Atak

open RtfmEv.Lib

/-! ### The handler -/

structure Ax25Frame where
  dest : String
  src : String
  info : Bytes
  deriving DecidableEq

structure Tlv where
  type : ℕ
  value : Bytes
  deriving DecidableEq

def atakDestCallsign : String := "OPENRL"
def tlvCot : ℕ := 0x01
def tlvChat : ℕ := 0x02
def tlvGps : ℕ := 0x03
def tlvCotFragment : ℕ := 0x06

/-- The callsign of an address: six characters, each shifted up by a bit. -/
def ax25Address (raw : Bytes) : String :=
  strip (String.ofList ((raw.take 6).map fun b : UInt8 => Char.ofNat (b >>> 1).toNat))

/-- The addresses up to the one that is marked as the last, and what is behind them. -/
def ax25Addresses : ℕ → Bytes → Option (List String × Bytes)
  | 0, _ => none
  | n + 1, raw =>
    match raw[6]? with
    | none => none
    | some mark =>
      if mark &&& 1 = 1 then some ([ax25Address raw], raw.drop 7)
      else (ax25Addresses n (raw.drop 7)).map fun rest => (ax25Address raw :: rest.1, rest.2)

def decodeAx25 (raw : Bytes) : Option Ax25Frame :=
  match ax25Addresses raw.length raw with
  | some (dest :: src :: _, control :: pid :: info) =>
    if control = 0x03 ∧ pid = 0xf0 then some ⟨dest, src, info⟩ else none
  | _ => none

def decodeTlv : Bytes → Option Tlv
  | type :: hi :: lo :: value =>
    if value.length = 256 * hi.toNat + lo.toNat then some ⟨type.toNat, value⟩ else none
  | _ => none

def looksEncrypted (info : Bytes) : Bool :=
  decide (1 + 16 + 12 + 16 ≤ info.length) && info.head? == some 0x03 && (decodeTlv info).isNone

def decodeCotFragment : Bytes → Option CotFragment
  | hi :: lo :: seq :: total :: data =>
    if data ≠ [] ∧ 1 ≤ seq ∧ seq ≤ total then
      some ⟨256 * hi.toNat + lo.toNat, seq.toNat, total.toNat, data⟩
    else none
  | _ => none

/-- The readers of base64, floats, UTF-8 and gzip. An envelope that makes its reader raise is
none. -/
structure Readers (G E : Type) where
  parseEnvelope : String → Option EnvelopeChunk
  decodeGps : Bytes → Option G
  decodeChat : Bytes → Option (String × String)
  decodeCot : Bytes → Option E
  /-- `_handle_cot` has something to store: a chat line with text, or an event with a place. -/
  keeps : E → Bool

inductive Item (G E : Type)
  | position (gps : G)
  | chat (sender text : String)
  | cot (sender : String) (event : E)
  deriving DecidableEq

/-- The reassembler, and what was given to the storage with whether it took it. -/
structure Trackers (G E : Type) where
  reassembler : State
  stores : List (Item G E × Bool)

/-- `AtakReassembler()` -/
def atakReassembler : Config := ⟨60, 256, 120⟩

variable {G E : Type}

def Trackers.init : Trackers G E := ⟨State.empty, []⟩

/-- The item goes to the storage; the other component tells whether the call returns. -/
def Trackers.store (s : Trackers G E) (item : Item G E) (ok : Bool) : Trackers G E × Bool :=
  (⟨s.reassembler, s.stores ++ [(item, ok)]⟩, ok)

section

variable (sha256 : Bytes → Bytes) (D : Readers G E) (now : ℚ) (ok : Bool)

def handleCot (sender : String) (gz : Bytes) (s : Trackers G E) : Trackers G E × Bool :=
  match if gz = [] then none else D.decodeCot gz with
  | none => (s, true)
  | some event => if D.keeps event then s.store (.cot sender event) ok else (s, true)

def processFrame (frame : Ax25Frame) (s : Trackers G E) : Trackers G E × Bool :=
  if looksEncrypted frame.info then (s, true)
  else
    match decodeTlv frame.info with
    | none => (s, true)
    | some tlv =>
      if tlv.type = tlvGps then
        match D.decodeGps tlv.value with
        | none => (s, true)
        | some gps => s.store (.position gps) ok
      else if tlv.type = tlvChat then
        match D.decodeChat tlv.value with
        | none => (s, true)
        | some (sender, text) => s.store (.chat (if sender = "" then frame.src else sender) text) ok
      else if tlv.type = tlvCot then handleCot D ok frame.src tlv.value s
      else if tlv.type = tlvCotFragment then
        match decodeCotFragment tlv.value with
        | none => (s, true)
        | some fragment =>
          match addCotFragment atakReassembler now frame.src fragment s.reassembler with
          | (t, .error _) => (⟨t, s.stores⟩, false)
          | (t, .ok none) => (⟨t, s.stores⟩, true)
          | (t, .ok (some gz)) => handleCot D ok frame.src gz ⟨t, s.stores⟩
      else (s, true)

def handleFrame (channelKey : String) (raw : Bytes) (s : Trackers G E) : Trackers G E :=
  match decodeAx25 raw with
  | none => s
  | some frame =>
    if frame.dest ≠ atakDestCallsign then s
    else
      match seenFrame sha256 atakReassembler now channelKey raw s.reassembler with
      | (t, true) => ⟨t, s.stores⟩
      | (t, false) =>
        match processFrame D now ok frame ⟨t, s.stores⟩ with
        | (u, true) => u
        -- not stored: let a repeat of this frame try again
        | (u, false) => ⟨forgetFrame sha256 channelKey raw u.reassembler, u.stores⟩

def handleEnvelopeText (channelKey text : String) (s : Trackers G E) : Trackers G E :=
  match D.parseEnvelope text with
  | none => s
  | some chunk =>
    match addChunk atakReassembler now channelKey chunk s.reassembler with
    | (t, .ok (some raw)) => handleFrame sha256 D now ok channelKey raw ⟨t, s.stores⟩
    | (t, _) => ⟨t, s.stores⟩

end

/-! ### An event that is sent -/

/-- How an event is cut up: its frames, with their chunks and message ids, and all the parts. -/
structure Cut where
  channelKey : String
  src : String
  fragId : ℕ
  count : ℕ
  msgId : ℕ → String
  chunks : ℕ → ℕ
  parts : Messages

namespace Cut

def frames (C : Cut) : Finset ℕ := Finset.Icc 1 C.count

def envKey (C : Cut) (i : ℕ) : Key := .env C.channelKey (C.msgId i) (C.chunks i)

def cotKey (C : Cut) : Key := .cot C.src C.fragId C.count

def keys (C : Cut) : Finset Key := insert C.cotKey (C.frames.image C.envKey)

def raw (C : Cut) (i : ℕ) : Bytes := frameOf C.parts (C.envKey i)

end Cut

/-- An event that is sent: its frames differ, and each carries the event or a fragment of it. -/
structure Sent (sha256 : Bytes → Bytes) (D : Readers G E) extends C : Cut where
  event : E
  count_pos : 0 < count
  /-- A fragment has one byte for the count. -/
  count_le : count ≤ 255
  chunks_pos : ∀ i ∈ C.frames, 0 < chunks i
  apart : ∀ i ∈ C.frames, ∀ j ∈ C.frames,
    C.envKey i = C.envKey j ∨ sha256 (C.raw i) = sha256 (C.raw j) → i = j
  carries : ∀ i ∈ C.frames, ∃ info tlv,
    decodeAx25 (C.raw i) = some ⟨atakDestCallsign, src, info⟩ ∧ looksEncrypted info = false ∧
    decodeTlv info = some tlv ∧
    (tlv = ⟨tlvCot, parts C.cotKey i⟩ ∧ count = 1 ∨
      tlv.type = tlvCotFragment ∧
        decodeCotFragment tlv.value = some ⟨fragId, i, count, parts C.cotKey i⟩)
  whole : frameOf parts C.cotKey ≠ [] ∧ D.decodeCot (frameOf parts C.cotKey) = some event ∧
    D.keeps event = true

/-! ### What an event needs -/

/-- A chunk of a frame that comes in, and whether the storage works then. -/
structure Part where
  frame : ℕ
  seq : ℕ
  ok : Bool

/-- The parts that wait under each key, the frames not handled yet, and the stores tried. -/
structure Progress where
  held : Key → Finset ℕ
  missing : Finset ℕ
  stores : List Bool

namespace Progress

def init (C : Cut) : Progress := ⟨fun _ => ∅, C.frames, []⟩

def full (a : Progress) (k : Key) (i : ℕ) : Bool := k.total ≤ (insert i (a.held k)).card

def part (a : Progress) (k : Key) (i : ℕ) : Progress :=
  { a with held := Function.update a.held k (if a.full k i then ∅ else insert i (a.held k)) }

/-- A missing frame comes out. -/
def frame (C : Cut) (a : Progress) (i : ℕ) (ok : Bool) : Progress :=
  let b := a.part C.cotKey i
  if a.full C.cotKey i then
    ⟨b.held, bif ok then a.missing.erase i else a.missing, a.stores ++ [ok]⟩
  else { b with missing := a.missing.erase i }

def arrive (C : Cut) (a : Progress) (x : Part) : Progress :=
  let b := a.part (C.envKey x.frame) x.seq
  if a.full (C.envKey x.frame) x.seq ∧ x.frame ∈ a.missing then b.frame C x.frame x.ok else b

def after (C : Cut) (a : Progress) (h : List Part) : Progress := h.foldl (arrive C) a

variable {C : Cut} {a : Progress} {h : List Part} {i : ℕ} {x : Part}

theorem envKey_ne_cotKey (C : Cut) (i : ℕ) : C.envKey i ≠ C.cotKey := by
  rintro ⟨⟩

theorem held_part {k' k : Key} (h : k' ≠ k) : (a.part k i).held k' = a.held k' :=
  Function.update_of_ne h ..

theorem held_part_self (k : Key) :
    (a.part k i).held k = if a.full k i then ∅ else insert i (a.held k) :=
  Function.update_self ..

theorem held_frame {k : Key} (h : k ≠ C.cotKey) (ok : Bool) :
    (a.frame C i ok).held k = a.held k := by
  unfold frame
  dsimp only
  split_ifs <;> exact held_part h

/-- What is asked of the fragments that wait, the missing frames and the stores tried. -/
def Sat (C : Cut) (P : Finset ℕ → Finset ℕ → List Bool → Prop) (a : Progress) : Prop :=
  P (a.held C.cotKey) a.missing a.stores

variable {P : Finset ℕ → Finset ℕ → List Bool → Prop}

/-- **Invariant rule.** What each missing frame keeps when it comes holds after all chunks. -/
theorem sat_after (ha : a.Sat C P) (hframe : ∀ b : Progress, ∀ x ∈ h, x.frame ∈ b.missing →
    b.Sat C P → (b.frame C x.frame x.ok).Sat C P) : (a.after C h).Sat C P := by
  induction h generalizing a with
  | nil => exact ha
  | cons x h ih =>
    refine ih ?_ fun b y hy => hframe b y (List.mem_cons_of_mem x hy)
    have hpart : (a.part (C.envKey x.frame) x.seq).Sat C P := by
      rw [Sat, held_part (envKey_ne_cotKey C x.frame).symm]
      exact ha
    unfold arrive
    split_ifs with hout
    · exact hframe _ x List.mem_cons_self hout.2 hpart
    · exact hpart

theorem frame_of_lt (h : (insert i (a.held C.cotKey)).card < C.count) (ok : Bool) :
    a.frame C i ok = ⟨Function.update a.held C.cotKey (insert i (a.held C.cotKey)),
      a.missing.erase i, a.stores⟩ := by
  have hfull : a.full C.cotKey i = false := decide_eq_false (Nat.not_le.mpr h)
  simp [frame, part, hfull]

theorem frame_of_le (h : C.count ≤ (insert i (a.held C.cotKey)).card) (ok : Bool) :
    a.frame C i ok = ⟨Function.update a.held C.cotKey ∅,
      bif ok then a.missing.erase i else a.missing, a.stores ++ [ok]⟩ := by
  have hfull : a.full C.cotKey i = true := decide_eq_true h
  simp [frame, part, hfull]

def Waiting (C : Cut) (joined missing : Finset ℕ) (stores : List Bool) : Prop :=
  stores = [] ∧ missing ⊆ C.frames ∧ joined = C.frames \ missing

/-- No more than one fragment can still come together, and none when the event is stored. -/
def Tried (ok : Bool) (joined missing : Finset ℕ) (stores : List Bool) : Prop :=
  stores = [ok] ∧ missing.card + joined.card ≤ bif ok then 0 else 1

theorem waiting_frame (h : a.Sat C (Waiting C)) (hi : i ∈ a.missing) (ok : Bool) :
    (a.frame C i ok).Sat C (Waiting C) ∨ (a.frame C i ok).Sat C (Tried ok) := by
  obtain ⟨hstores, hsub, hjoined⟩ := h
  have hinsert : insert i (a.held C.cotKey) = C.frames \ a.missing.erase i := by
    rw [hjoined, Finset.sdiff_erase (hsub hi)]
  have hsub' := (Finset.erase_subset i a.missing).trans hsub
  have hcard : (insert i (a.held C.cotKey)).card = C.count - (a.missing.card - 1) := by
    rw [hinsert, Finset.card_sdiff_of_subset hsub', Finset.card_erase_of_mem hi]
    simp [Cut.frames]
  have hpos := Finset.card_pos.mpr ⟨i, hi⟩
  have hle := Finset.card_le_card hsub
  rw [Cut.frames, Nat.card_Icc] at hle
  rcases lt_or_ge (insert i (a.held C.cotKey)).card C.count with hlt | hge
  · rw [frame_of_lt hlt]
    exact Or.inl ⟨hstores, hsub', by simp [hinsert]⟩
  · rw [frame_of_le hge]
    refine Or.inr ⟨by simp [hstores], ?_⟩
    have herase := Finset.card_erase_of_mem hi
    simp only [Function.update_self, Finset.card_empty]
    cases ok with
    | true => show (a.missing.erase i).card + 0 ≤ 0; omega
    | false => show a.missing.card + 0 ≤ 1; omega

/-- **Once the storage was tried** not enough fragments are left for another time. -/
theorem tried_frame {tried : Bool} (h : a.Sat C (Tried tried)) (hmore : tried = false → 2 ≤ C.count)
    (hi : i ∈ a.missing) (ok : Bool) : (a.frame C i ok).Sat C (Tried tried) := by
  obtain ⟨hstores, hleft⟩ := h
  have hpos := Finset.card_pos.mpr ⟨i, hi⟩
  have hinsert := Finset.card_insert_le i (a.held C.cotKey)
  cases tried with
  | true =>
    have hzero : a.missing.card + (a.held C.cotKey).card ≤ 0 := hleft
    omega
  | false =>
    have htwo := hmore rfl
    simp only [cond_false] at hleft
    rw [frame_of_lt (by omega)]
    refine ⟨hstores, ?_⟩
    simp only [Function.update_self, Finset.card_erase_of_mem hi, cond_false]
    omega

/-- An event of several frames, or with a storage that works, is tried once at most. -/
theorem waiting_or_tried (hmore : ∀ x ∈ h, x.ok = false → 2 ≤ C.count) :
    ((init C).after C h).Sat C (Waiting C) ∨ ∃ ok, (∃ x ∈ h, x.ok = ok) ∧
      ((init C).after C h).Sat C (Tried ok) := by
  refine sat_after (P := fun joined missing stores => Waiting C joined missing stores ∨
    ∃ ok, (∃ x ∈ h, x.ok = ok) ∧ Tried ok joined missing stores)
    (Or.inl ⟨rfl, Finset.Subset.refl _, (Finset.sdiff_self _).symm⟩) fun b x hx hnew hb => ?_
  rcases hb with hw | ⟨ok, ⟨y, hy, rfl⟩, ht⟩
  · exact (waiting_frame hw hnew x.ok).imp_right fun ht => ⟨_, ⟨x, hx, rfl⟩, ht⟩
  · exact Or.inr ⟨_, ⟨y, hy, rfl⟩, tried_frame ht (hmore y hy) hnew x.ok⟩

/-- A single frame is handled only with a store that worked. -/
theorem stored_of_handled (hone : C.count = 1) (hi : i ∈ C.frames)
    (hdone : i ∉ ((init C).after C h).missing) : true ∈ ((init C).after C h).stores := by
  refine sat_after (P := fun _ missing stores => i ∉ missing → true ∈ stores)
    (fun hnot => absurd hi hnot) (fun b x _ _ hb => ?_) hdone
  rw [frame_of_le (hone ▸ Finset.card_pos.mpr ⟨_, Finset.mem_insert_self _ _⟩)]
  intro hnot
  cases hok : x.ok with
  | true => simp
  | false => exact List.mem_append_left _ (hb (by simpa [hok] using hnot))

/-- With a storage that works a chunk that came in waits for others, or its frame is handled. -/
theorem covered_after (hinj : ∀ i ∈ C.frames, ∀ j ∈ C.frames, C.envKey i = C.envKey j → i = j)
    (hmem : ∀ x ∈ h, x.frame ∈ C.frames) (hok : ∀ x ∈ h, x.ok = true) (hx : x ∈ h) :
    x.frame ∉ (a.after C h).missing ∨ x.seq ∈ (a.after C h).held (C.envKey x.frame) := by
  induction h using List.reverseRecOn with
  | nil => cases hx
  | append_singleton h y ih =>
    have hy : y ∈ h ++ [y] := List.mem_concat_self
    have hold : x ∈ h → _ := ih (fun z hz => hmem z (List.mem_append_left _ hz))
      (fun z hz => hok z (List.mem_append_left _ hz))
    rw [after, List.foldl_append]
    change _ ∉ ((a.after C h).arrive C y).missing ∨ _ ∈ ((a.after C h).arrive C y).held _
    generalize a.after C h = b at hold ⊢
    have hheld : ∀ i, (b.arrive C y).held (C.envKey i) =
        (b.part (C.envKey y.frame) y.seq).held (C.envKey i) := by
      intro i
      unfold arrive
      split_ifs
      · exact held_frame (envKey_ne_cotKey C i) y.ok
      · rfl
    have hmissing : (b.arrive C y).missing ⊆ b.missing ∧
        (b.full (C.envKey y.frame) y.seq = true → y.frame ∉ (b.arrive C y).missing) := by
      unfold arrive
      split_ifs with hout
      · rw [frame, hok y hy]
        split_ifs <;> exact ⟨Finset.erase_subset .., fun _ => Finset.notMem_erase _ _⟩
      · exact ⟨Finset.Subset.refl _, fun hfull hin => hout ⟨hfull, hin⟩⟩
    rw [hheld]
    by_cases hsame : x.frame = y.frame
    · rw [hsame]
      cases hfull : b.full (C.envKey y.frame) y.seq with
      | true => exact Or.inl (hmissing.2 hfull)
      | false =>
        rw [held_part_self, hfull]
        rcases List.mem_append.mp hx with hx | hx
        · rw [← hsame]
          exact (hold hx).imp (fun hn hin => hn (hmissing.1 hin)) Finset.mem_insert_of_mem
        · exact Or.inr (List.mem_singleton.mp hx ▸ Finset.mem_insert_self ..)
    · have hx' : x ∈ h := (List.mem_append.mp hx).resolve_right fun hx =>
        hsame (congrArg _ (List.mem_singleton.mp hx))
      rw [held_part fun hk => hsame (hinj _ (hmem x hx) _ (hmem y hy) hk)]
      exact (hold hx').imp_left fun hn hin => hn (hmissing.1 hin)

end Progress

/-! ### One call on what is young enough -/

/-- What is held came in at `lo` or later, and the frames were handled at `lo'` or later. -/
structure Since (lo lo' : ℚ) (s : State) : Prop where
  pending : ∀ k p, s.pending.get? k = some p → lo ≤ p.created
  seen : ∀ key t, s.seen.get key = some t → lo' ≤ t

/-- Nothing has run out. -/
def Within (now : ℚ) (s : State) : Prop :=
  Since (now - atakReassembler.ttlS) (now - atakReassembler.dedupTtlS) s

/-- The parts of a key that are held. -/
def held (k : Key) (s : State) : Finset ℕ := (s.pending.get? k).elim ∅ (fun p => seqs p.parts)

variable {now lo lo' : ℚ} {s t : State} {k : Key} {i : ℕ} {M : Messages}

theorem expire_of_within (h : Within now s) : expire atakReassembler now s = s := by
  obtain ⟨⟨entries, hnodup⟩, seen⟩ := s
  have hpending : entries.filter
      (fun e => !decide (atakReassembler.ttlS < now - e.2.created)) = entries := by
    refine List.filter_eq_self.mpr fun e he => ?_
    have hle := h.pending e.1 e.2 (OrderedDict.get?_eq_some_iff.mpr he)
    simp only [Bool.not_eq_true', decide_eq_false_iff_not, not_lt]
    linarith
  have hseen : seen.keep (fun t => decide (now - t ≤ atakReassembler.dedupTtlS)) = seen := by
    funext key
    show (seen key).filter _ = seen key
    cases hkey : seen key with
    | none => rfl
    | some t =>
      have hle := h.seen key t hkey
      exact if_pos (decide_eq_true (by linarith))
  simp only [expire, OrderedDict.eraseIf, hpending, hseen]

/-- What a part of its message does under the key. -/
structure Added (M : Messages) (k : Key) (now : ℚ) (i : ℕ) (s t : State) : Prop where
  seen : t.seen = s.seen
  other : ∀ k', k' ≠ k → t.pending.get? k' = s.pending.get? k'
  created : ∀ p, t.pending.get? k = some p →
    p.created = now ∨ ∃ q, s.pending.get? k = some q ∧ q.created = p.created
  sound : Sound M t
  holds : held k t = if (insert i (held k s)).card < k.total then insert i (held k s) else ∅

theorem Added.since (h : Added M k now i s t) (hs : Since lo lo' s) (hle : lo ≤ now) :
    Since lo lo' t := by
  refine ⟨fun k' p hp => ?_, fun key => h.seen ▸ hs.seen key⟩
  by_cases hk : k' = k
  · subst hk
    rcases h.created p hp with rfl | ⟨q, hq, heq⟩
    · exact hle
    · exact heq ▸ hs.pending k' q hq
  · exact hs.pending k' p (h.other k' hk ▸ hp)

theorem Added.of_put {p : Pending} (hs : Sound M s) (hi : i ∈ Finset.Icc 1 k.total)
    (hp : seqs p.parts = held k s) (hparts : PartsIn M k p.parts)
    (hcreated : p.created = now ∨ ∃ q, s.pending.get? k = some q ∧ q.created = p.created) :
    Added M k now i s (put k i k.total (M k i) p s).1 ∧ (put k i k.total (M k i) p s).2 =
      .ok (if (insert i (held k s)).card < k.total then none else some (frameOf M k)) := by
  have hsound := (put_sound hs hparts hi).1
  rw [put_eq s hparts hi, hp] at hsound ⊢
  split_ifs with hfull
  · rw [if_pos hfull] at hsound
    refine ⟨⟨rfl, fun k' hk => OrderedDict.get?_set_of_ne hk, ?_, hsound, ?_⟩, rfl⟩
    · intro p' hp'
      rw [OrderedDict.get?_set_self, Option.some.injEq] at hp'
      exact hp' ▸ hcreated
    · rw [if_pos hfull, held, OrderedDict.get?_set_self]
      exact (seqs_set p.parts i (M k i)).trans (congrArg _ hp)
  · rw [if_neg hfull] at hsound
    refine ⟨⟨rfl, fun k' hk => OrderedDict.get?_erase_of_ne hk, ?_, hsound, ?_⟩, rfl⟩
    · intro p' hp'
      rw [OrderedDict.get?_erase, if_pos rfl] at hp'
      cases hp'
    · rw [if_neg hfull, held, OrderedDict.get?_erase, if_pos rfl]
      rfl

theorem Added.of_one (hs : Sound M s) (hone : k.total = 1) (hlt : (held k s).card < k.total) :
    Added M k now i s s where
  seen := rfl
  other := fun k' _ => rfl
  created := fun p hp => Or.inr ⟨p, hp, rfl⟩
  sound := hs
  holds := by
    rw [hone, Nat.lt_one_iff, Finset.card_eq_zero] at hlt
    simp [hlt, hone]

/-- **One part**: it joins what is held, or brings out the frame. -/
theorem add_spec (hin : Within now s) (hs : Sound M s) (hi : i ∈ Finset.Icc 1 k.total)
    (hlt : (held k s).card < k.total)
    (hroom : s.pending.get? k = none → s.pending.size < atakReassembler.maxPending) :
    Added M k now i s (add atakReassembler now k i k.total (M k i) s).1 ∧
      (add atakReassembler now k i k.total (M k i) s).2 =
        .ok (if (insert i (held k s)).card < k.total then none else some (frameOf M k)) := by
  unfold add
  rw [expire_of_within hin]
  dsimp only
  by_cases hone : k.total = 1
  · obtain rfl : i = 1 := by
      rw [hone, Finset.mem_Icc] at hi
      omega
    rw [if_pos hone, frameOf_of_total_one M hone, if_neg (by simp [hone])]
    exact ⟨.of_one hs hone hlt, rfl⟩
  rw [if_neg hone]
  cases hget : s.pending.get? k with
  | some p =>
    exact Added.of_put hs hi (by rw [held, hget]; rfl) (hs k p hget) (Or.inr ⟨p, hget, rfl⟩)
  | none =>
    rw [makeRoom_of_lt _ (hroom hget)]
    exact Added.of_put hs hi (by rw [held, hget]; rfl) (PartsIn.empty M k) (Or.inl rfl)

/-- A datagram with one of the chunks. -/
structure Arrival {sha256 : Bytes → Bytes} {D : Readers G E} (S : Sent sha256 D) extends Part where
  now : ℚ
  text : String
  frame_mem : frame ∈ S.frames
  seq_mem : seq ∈ Finset.Icc 1 (S.chunks frame)
  parses : D.parseEnvelope text =
    some ⟨S.msgId frame, seq, S.chunks frame, S.parts (S.envKey frame) seq⟩

namespace Sent

variable {sha256 : Bytes → Bytes} {D : Readers G E} (S : Sent sha256 D)

def item : Item G E := .cot S.src S.event

def handle (s : Trackers G E) (x : Arrival S) : Trackers G E :=
  handleEnvelopeText sha256 D x.now x.ok S.channelKey x.text s

def run (h : List (Arrival S)) : Trackers G E := h.foldl S.handle Trackers.init

/-- At no datagram anything has run out. -/
def InLimits (h : List (Arrival S)) : Prop :=
  ∀ pre x, pre ++ [x] <+: h → Within x.now (S.run pre).reassembler

/-- Every chunk of every frame comes in. -/
def AllArrive (h : List (Arrival S)) : Prop :=
  ∀ i ∈ S.frames, ∀ j ∈ Finset.Icc 1 (S.chunks i), ∃ x ∈ h, x.frame = i ∧ x.seq = j

/-- The handler's state shows the progress of the event. -/
structure Follows (lo lo' : ℚ) (s : Trackers G E) (a : Progress) : Prop where
  since : Since lo lo' s.reassembler
  sound : Sound S.parts s.reassembler
  keys : ∀ k p, s.reassembler.pending.get? k = some p → k ∈ S.keys
  held : ∀ k ∈ S.keys, held k s.reassembler = a.held k ∧ (a.held k).card < k.total
  handled : ∀ i ∈ S.frames,
    (s.reassembler.seen.get (S.channelKey, sha256 (S.raw i))).isSome = true ↔ i ∉ a.missing
  stores : s.stores = a.stores.map (fun ok => (S.item, ok))

variable {S} {s : Trackers G E} {a : Progress} {t : State} {ok : Bool} {j : ℕ}

theorem total_pos (hk : k ∈ S.keys) : 0 < k.total := by
  rcases Finset.mem_insert.mp hk with rfl | hk
  · exact S.count_pos
  · obtain ⟨i, hi, rfl⟩ := Finset.mem_image.mp hk
    exact S.chunks_pos i hi

theorem envKey_mem (hi : i ∈ S.frames) : S.envKey i ∈ S.keys :=
  Finset.mem_insert_of_mem (Finset.mem_image_of_mem _ hi)

/-- A key of the event that is not open finds room. -/
theorem Follows.room (h : S.Follows lo lo' s a) (hk : k ∈ S.keys)
    (hnone : s.reassembler.pending.get? k = none) :
    s.reassembler.pending.size < atakReassembler.maxPending := by
  have hsub : s.reassembler.pending.keys.toFinset ⊆ S.keys.erase k := by
    intro k' hk'
    obtain ⟨p, hp⟩ := Option.ne_none_iff_exists'.mp
      (fun hn => OrderedDict.get?_eq_none_iff.mp hn (List.mem_toFinset.mp hk'))
    refine Finset.mem_erase.mpr ⟨?_, h.keys k' p hp⟩
    rintro rfl
    cases hnone.symm.trans hp
  have hle := Finset.card_le_card hsub
  have hkeys : S.keys.card ≤ S.count + 1 := (Finset.card_insert_le _ _).trans
    (Nat.succ_le_succ (Finset.card_image_le.trans (Nat.card_Icc 1 S.count).le))
  have hcount := S.count_le
  rw [card_keys, Finset.card_erase_of_mem hk] at hle
  show _ < 256
  omega

/-- **A part** of the event, a chunk or a fragment. -/
theorem Follows.part (h : S.Follows lo lo' s a) (hin : Within now s.reassembler) (hle : lo ≤ now)
    (hk : k ∈ S.keys) (hj : j ∈ Finset.Icc 1 k.total) :
    S.Follows lo lo' ⟨(add atakReassembler now k j k.total (S.parts k j) s.reassembler).1, s.stores⟩
        (a.part k j) ∧
      (add atakReassembler now k j k.total (S.parts k j) s.reassembler).2 =
        .ok (if a.full k j then some (frameOf S.parts k) else none) := by
  obtain ⟨hheld, hlt⟩ := h.held k hk
  obtain ⟨hadd, hans⟩ := add_spec hin h.sound hj (hheld ▸ hlt) (h.room hk)
  generalize add atakReassembler now k j k.total (S.parts k j) s.reassembler = r at hadd hans
  have hholds := hadd.holds
  rw [hheld] at hans hholds
  have hfull : a.full k j = !decide ((insert j (a.held k)).card < k.total) := by
    rw [Progress.full, ← decide_not, decide_eq_decide, not_lt]
  refine ⟨⟨hadd.since h.since hle, hadd.sound, fun k' p hp => ?_, fun k' hk' => ?_,
    hadd.seen ▸ h.handled, h.stores⟩, ?_⟩
  · by_cases hne : k' = k
    · exact hne ▸ hk
    · exact h.keys k' p (hadd.other k' hne ▸ hp)
  · by_cases hne : k' = k
    · subst hne
      rw [Progress.held_part_self, hfull, hholds]
      split_ifs with hlt' <;> simp_all [total_pos hk]
    · rw [Progress.held_part hne, Atak.held, hadd.other k' hne]
      exact h.held k' hk'
  · rw [hans, hfull]
    split_ifs <;> simp_all

/-- The frames that count as handled change in one place. -/
theorem Follows.ofSeen (h : S.Follows lo lo' s a) (hi : i ∈ S.frames)
    {seen : Table (String × Bytes) ℚ} {missing : Finset ℕ}
    (hsince : ∀ key t, seen.get key = some t → lo' ≤ t)
    (hother : ∀ key, key ≠ (S.channelKey, sha256 (S.raw i)) →
      seen.get key = s.reassembler.seen.get key)
    (hself : (seen.get (S.channelKey, sha256 (S.raw i))).isSome = true ↔ i ∉ missing)
    (hmissing : ∀ j, j ≠ i → (j ∈ missing ↔ j ∈ a.missing)) :
    S.Follows lo lo' ⟨⟨s.reassembler.pending, seen⟩, s.stores⟩ { a with missing := missing } where
  since := ⟨h.since.pending, hsince⟩
  sound := h.sound
  keys := h.keys
  held := h.held
  handled := by
    intro j hj
    by_cases heq : j = i
    · exact heq ▸ hself
    · rw [hmissing j heq, ← h.handled j hj, ← hother]
      intro hkey
      exact heq (S.apart j hj i hi (Or.inr (Prod.mk.inj hkey).2))
  stores := h.stores

theorem Follows.seen (h : S.Follows lo lo' s a) (hi : i ∈ S.frames) (hle : lo' ≤ now) :
    S.Follows lo lo' ⟨⟨s.reassembler.pending,
      s.reassembler.seen.set (S.channelKey, sha256 (S.raw i)) now⟩, s.stores⟩
      { a with missing := a.missing.erase i } := by
  refine h.ofSeen hi (fun key t hget => ?_) (fun key hne => Table.get_set_of_ne _ _ hne)
    (by simp) (fun j hne => by simp [hne])
  rcases Table.get_set_eq_some hget with ⟨-, rfl⟩ | ⟨-, hold⟩
  · exact hle
  · exact h.since.seen key t hold

theorem Follows.forget (h : S.Follows lo lo' s a) (hi : i ∈ S.frames) :
    S.Follows lo lo' ⟨forgetFrame sha256 S.channelKey (S.raw i) s.reassembler, s.stores⟩
      { a with missing := insert i a.missing } :=
  h.ofSeen hi (fun key t hget => h.since.seen key t (Table.get_erase_eq_some hget).2)
    (fun key hne => Table.get_erase_of_ne _ hne) (by simp) (fun j hne => by simp [hne])

theorem Follows.store (h : S.Follows lo lo' s a) (ok : Bool) :
    S.Follows lo lo' ⟨s.reassembler, s.stores ++ [(S.item, ok)]⟩
      { a with stores := a.stores ++ [ok] } :=
  { h with stores := by simp [h.stores] }

theorem handleCot_whole (s : Trackers G E) :
    handleCot D ok S.src (frameOf S.parts S.cotKey) s = s.store S.item ok := by
  obtain ⟨hne, hdecode, hkeeps⟩ := S.whole
  simp [handleCot, hne, hdecode, hkeeps, item]

/-- The fragment of a frame goes in, and the event to the storage when it is whole. -/
theorem Follows.process (h : S.Follows lo lo' s a) (hin : Within now s.reassembler) (hle : lo ≤ now)
    (hi : i ∈ S.frames) (ok : Bool) : ∃ info,
    decodeAx25 (S.raw i) = some ⟨atakDestCallsign, S.src, info⟩ ∧
    S.Follows lo lo' (processFrame D now ok ⟨atakDestCallsign, S.src, info⟩ s).1
      (if a.full S.cotKey i then { a.part S.cotKey i with stores := a.stores ++ [ok] }
        else a.part S.cotKey i) ∧
    (processFrame D now ok ⟨atakDestCallsign, S.src, info⟩ s).2 =
      if a.full S.cotKey i then ok else true := by
  obtain ⟨info, tlv, hax25, hplain, htlv, hcarries⟩ := S.carries i hi
  refine ⟨info, hax25, ?_⟩
  obtain ⟨hpart, hans⟩ := h.part hin hle (k := S.cotKey) (Finset.mem_insert_self ..) hi
  generalize hr : add atakReassembler now S.cotKey i S.cotKey.total (S.parts S.cotKey i)
    s.reassembler = r at hpart hans
  obtain ⟨t, ans⟩ := r
  have hprocess : processFrame D now ok ⟨atakDestCallsign, S.src, info⟩ s = match (t, ans) with
      | (t, .error _) => (⟨t, s.stores⟩, false)
      | (t, .ok none) => (⟨t, s.stores⟩, true)
      | (t, .ok (some gz)) => handleCot D ok S.src gz ⟨t, s.stores⟩ := by
    rw [processFrame, if_neg (ne_true_of_eq_false hplain), htlv]
    rcases hcarries with ⟨rfl, hone⟩ | ⟨htype, hfragment⟩
    · -- the only frame carries the whole event
      rw [add, if_pos (show S.cotKey.total = 1 from hone), expire_of_within hin] at hr
      cases hr
      rfl
    · change add atakReassembler now S.cotKey i S.cotKey.total (S.parts S.cotKey i) _ = _ at hr
      simp only [htype, hfragment]
      rw [if_neg (by decide), if_neg (by decide), if_neg (by decide), if_pos trivial,
        show addCotFragment atakReassembler now S.src ⟨S.fragId, i, S.count, S.parts S.cotKey i⟩
          s.reassembler = (t, ans) from hr]
  rw [hprocess]
  obtain rfl := hans
  split_ifs
  · dsimp only
    rw [handleCot_whole]
    exact ⟨hpart.store ok, rfl⟩
  · exact ⟨hpart, rfl⟩

/-- **A frame** that comes out, as often as it does. -/
theorem Follows.frame (h : S.Follows lo lo' s a) (hin : Within now s.reassembler) (hle : lo ≤ now)
    (hle' : lo' ≤ now) (hi : i ∈ S.frames) (ok : Bool) :
    S.Follows lo lo' (handleFrame sha256 D now ok S.channelKey (S.raw i) s)
      (if i ∈ a.missing then a.frame S.C i ok else a) := by
  have hsince : S.Follows (now - atakReassembler.ttlS) (now - atakReassembler.dedupTtlS) s a :=
    { h with since := hin }
  have hin' := (hsince.seen hi (sub_le_self now (by decide +kernel))).since
  obtain ⟨info, hax25, hprocess⟩ := (h.seen hi hle').process hin' hle hi ok
  rw [handleFrame, hax25]
  dsimp only
  rw [if_neg (not_not_intro rfl), seenFrame, expire_of_within hin]
  by_cases hnew : i ∈ a.missing
  swap
  · rw [if_pos ((h.handled i hi).mpr hnew), if_neg hnew]
    exact h
  rw [if_neg fun hseen => (h.handled i hi).mp hseen hnew, if_pos hnew]
  revert hprocess
  dsimp only
  rcases processFrame D now ok ⟨atakDestCallsign, S.src, info⟩ _ with ⟨u, returned⟩
  rintro ⟨hpart, hans⟩
  change returned = if a.full S.cotKey i then ok else true at hans
  change S.Follows lo lo' u (if a.full S.cotKey i then
    ⟨(a.part S.cotKey i).held, a.missing.erase i, a.stores ++ [ok]⟩
    else ⟨(a.part S.cotKey i).held, a.missing.erase i, a.stores⟩) at hpart
  rw [Progress.frame]
  split_ifs at hpart hans with hfull
  · subst hans
    rw [if_pos hfull]
    cases returned with
    | true => exact hpart
    | false =>
      have hforget := hpart.forget hi
      rw [Finset.insert_erase hnew] at hforget
      exact hforget
  · subst hans
    rw [if_neg hfull]
    exact hpart

/-- **One datagram.** -/
theorem Follows.step (h : S.Follows lo lo' s a) (x : Arrival S) (hin : Within x.now s.reassembler)
    (hle : lo ≤ x.now) (hle' : lo' ≤ x.now) :
    S.Follows lo lo' (S.handle s x) (a.arrive S.C x.toPart) := by
  have hkey := envKey_mem x.frame_mem
  obtain ⟨hpart, hans⟩ := h.part hin hle hkey x.seq_mem
  have hin' := (Follows.part { h with since := hin } hin (sub_le_self x.now (by decide +kernel))
    hkey x.seq_mem).1.since
  rw [handle, handleEnvelopeText, x.parses]
  change S.Follows lo lo' (match add atakReassembler x.now (S.envKey x.frame) x.seq
      (S.envKey x.frame).total (S.parts (S.envKey x.frame) x.seq) s.reassembler with
    | (t, .ok (some raw)) => handleFrame sha256 D x.now x.ok S.channelKey raw ⟨t, s.stores⟩
    | (t, _) => ⟨t, s.stores⟩) _
  revert hpart hans hin'
  rcases add atakReassembler x.now (S.envKey x.frame) x.seq _ _ _ with ⟨t, ans⟩
  rintro hpart hans hin'
  obtain rfl := hans
  have hframe := hpart.frame hin' hle hle' x.frame_mem x.ok
  rw [Progress.arrive]
  cases hfull : a.full (S.envKey x.frame) x.seq with
  | true =>
    change S.Follows lo lo' (handleFrame sha256 D x.now x.ok S.channelKey (S.raw x.frame) _) _
    by_cases hnew : x.frame ∈ a.missing
    · rw [if_pos ⟨rfl, hnew⟩]
      rwa [if_pos (show x.frame ∈ (a.part _ _).missing from hnew)] at hframe
    · rw [if_neg fun h => hnew h.2]
      rwa [if_neg (show x.frame ∉ (a.part _ _).missing from hnew)] at hframe
  | false => simpa using hpart

/-- **The handler follows the event** over every run within the limits. -/
theorem follows_run {h : List (Arrival S)} (hin : S.InLimits h)
    (hle : ∀ x ∈ h, lo ≤ x.now ∧ lo' ≤ x.now) :
    S.Follows lo lo' (S.run h) ((Progress.init S.C).after S.C (h.map Arrival.toPart)) := by
  induction h using List.reverseRecOn with
  | nil =>
    exact ⟨⟨nofun, nofun⟩, nofun, nofun, fun k hk => ⟨rfl, total_pos hk⟩,
      fun i hi => iff_of_false nofun (not_not_intro hi), rfl⟩
  | append_singleton h x ih =>
    have hold := ih (fun pre y hpre => hin pre y (hpre.trans (List.prefix_append h [x])))
      fun y hy => hle y (List.mem_append_left _ hy)
    obtain ⟨hx, hx'⟩ := hle x (List.mem_append_right _ List.mem_cons_self)
    rw [run, List.foldl_append, List.map_append, Progress.after, List.foldl_append]
    exact hold.step x (hin h x List.prefix_rfl) hx hx'

/-- Datagrams of one minute are within the limits. -/
theorem inLimits_of_minute {h : List (Arrival S)}
    (hle : ∀ x ∈ h, lo ≤ x.now ∧ x.now ≤ lo + atakReassembler.ttlS) : S.InLimits h := by
  induction h using List.reverseRecOn with
  | nil => exact fun pre x hpre => by simp at hpre
  | append_singleton h x ih =>
    have hold := ih fun y hy => hle y (List.mem_append_left _ hy)
    intro pre y hpre
    rcases List.prefix_concat_iff.mp hpre with heq | hpre
    · obtain ⟨rfl, hlast⟩ := List.append_inj' heq rfl
      obtain rfl := List.singleton_inj.mp hlast
      have hfollows : S.Follows lo lo _ _ := follows_run hold fun z hz =>
        have hz := (hle z (List.mem_append_left _ hz)).1
        ⟨hz, hz⟩
      have hy := (hle y (List.mem_append_right _ List.mem_cons_self)).2
      have hlonger : atakReassembler.ttlS ≤ atakReassembler.dedupTtlS := by decide +kernel
      exact ⟨fun k p hp => by linarith [hfollows.since.pending k p hp],
        fun key t ht => by linarith [hfollows.since.seen key t ht]⟩
    · exact hold pre y hpre

/-- With all chunks in and a storage that works every frame is handled. -/
theorem Follows.none_missing {h : List (Arrival S)}
    (hf : S.Follows lo lo' s (a.after S.C (h.map Arrival.toPart)))
    (hok : ∀ x ∈ h, x.ok = true) (hall : S.AllArrive h) (hi : i ∈ S.frames) :
    i ∉ (a.after S.C (h.map Arrival.toPart)).missing := by
  intro hin
  have hheld : Finset.Icc 1 (S.chunks i) ⊆
      (a.after S.C (h.map Arrival.toPart)).held (S.envKey i) := by
    intro j hj
    obtain ⟨x, hx, rfl, rfl⟩ := hall i hi j hj
    exact (Progress.covered_after (x := x.toPart)
      (fun i hi j hj hk => S.apart i hi j hj (Or.inl hk))
      (List.forall_mem_map.mpr fun y _ => y.frame_mem) (List.forall_mem_map.mpr hok)
      (List.mem_map_of_mem hx)).resolve_left (not_not_intro hin)
  have hcard := Finset.card_le_card hheld
  rw [Nat.card_Icc, Nat.add_sub_cancel] at hcard
  exact absurd (hf.held _ (envKey_mem hi)).2 (Nat.not_lt.mpr hcard)

end Sent

variable {sha256 : Bytes → Bytes} {D : Readers G E}

/-- **A failed store is made up for by a repeat exactly when the event is in one frame.** Without
a failure it is stored once. -/
theorem stored_again_iff (S : Sent sha256 D) :
    (∀ h, S.InLimits h → (∀ x ∈ h, x.ok = true) → S.AllArrive h →
      (S.run h).stores = [(S.item, true)]) ∧
    ∀ h₁ h₂, S.InLimits (h₁ ++ h₂) → (S.run h₁).stores = [(S.item, false)] →
      (∀ x ∈ h₂, x.ok = true) → S.AllArrive h₂ →
      ((S.item, true) ∈ (S.run (h₁ ++ h₂)).stores ↔ S.count = 1) := by
  have hfollows : ∀ h, S.InLimits h → ∃ lo, S.Follows lo lo (S.run h)
      ((Progress.init S.C).after S.C (h.map Arrival.toPart)) := by
    intro h hin
    obtain ⟨lo, hlo⟩ := (h.map Arrival.now).toFinset.bddBelow
    have hle : ∀ x ∈ h, lo ≤ x.now := fun x hx =>
      hlo (List.mem_toFinset.mpr (List.mem_map_of_mem hx))
    exact ⟨lo, Sent.follows_run hin fun x hx => ⟨hle x hx, hle x hx⟩⟩
  refine ⟨fun h hin hok hall => ?_, fun h₁ h₂ hin hfail hok hall => ?_⟩
  · obtain ⟨lo, hf⟩ := hfollows h hin
    rcases Progress.waiting_or_tried (C := S.C) (h := h.map Arrival.toPart)
      (List.forall_mem_map.mpr fun x hx hfalse => by cases (hok x hx).symm.trans hfalse)
      with ⟨-, hsub, hjoined⟩ | ⟨ok, ⟨y, hy, rfl⟩, hstores, -⟩
    · -- no frame is missing, so all the fragments wait: they would have come together
      have hnone := Finset.eq_empty_of_forall_notMem fun i hi =>
        hf.none_missing hok hall (hsub hi) hi
      have hlt := (hf.held S.cotKey (Finset.mem_insert_self ..)).2
      rw [hjoined, hnone, Finset.sdiff_empty] at hlt
      simp [Cut.frames, Cut.cotKey, Key.total] at hlt
    · obtain ⟨x, hx, rfl⟩ := List.mem_map.mp hy
      rw [hf.stores, hstores, hok x hx]
      rfl
  · obtain ⟨lo, hf₁⟩ := hfollows h₁ fun pre x hpre => hin pre x (hpre.trans (List.prefix_append ..))
    obtain ⟨lo', hf⟩ := hfollows (h₁ ++ h₂) hin
    rw [hf₁.stores] at hfail
    obtain ⟨b, hb, hitem⟩ := List.map_eq_singleton_iff.mp hfail
    obtain rfl := (Prod.mk.inj hitem).2
    have hmem : (S.item, true) ∈ (S.run (h₁ ++ h₂)).stores ↔
        true ∈ ((Progress.init S.C).after S.C ((h₁ ++ h₂).map Arrival.toPart)).stores := by
      rw [hf.stores]
      simp
    have hsplit : (Progress.init S.C).after S.C ((h₁ ++ h₂).map Arrival.toPart) =
        ((Progress.init S.C).after S.C (h₁.map Arrival.toPart)).after S.C
          (h₂.map Arrival.toPart) := by
      rw [List.map_append, Progress.after, List.foldl_append]
      rfl
    rw [hmem]
    constructor
    · intro htrue
      by_contra hone
      have hmore : 2 ≤ S.count := by
        have hpos := S.count_pos
        omega
      rcases Progress.waiting_or_tried (C := S.C) (h := h₁.map Arrival.toPart) (fun _ _ _ => hmore)
        with hw | ⟨ok, -, ht⟩
      · cases hw.1.symm.trans hb
      · obtain rfl := List.singleton_inj.mp (ht.1.symm.trans hb)
        have hafter := Progress.sat_after (h := h₂.map Arrival.toPart) ht fun b x _ hnew hb =>
          Progress.tried_frame hb (fun _ => hmore) hnew x.ok
        rw [hsplit, hafter.1] at htrue
        cases List.mem_singleton.mp htrue
    · intro hone
      have hfirst : 1 ∈ S.frames := Finset.mem_Icc.mpr ⟨le_rfl, hone.ge⟩
      rw [hsplit] at hf
      exact Progress.stored_of_handled hone hfirst (hsplit ▸ hf.none_missing hok hall hfirst)

/-! ### An event in one frame -/

def hexBytes (s : String) : Bytes := (fromHex s.toList).getD []

/-- The gzip of `<event uid="M1" type="b-m-p"><point lat="52" lon="4"/></event>`. -/
def markerGzip : Bytes := hexBytes
  ("1f8b0800000000000203b3492d4bcd2b5128cd4cb155f235545228a92c48b5554ad2cdd52d50b2" ++
    "b329c8cf044ae62496d82a991a2929e4e4e7d92a9928e9dbd9e883b5d9010017292e333e000000")

/-- From `NODE1` to `OPENRL`. -/
def markerFrame : Bytes :=
  hexBytes "9ea08a9ca498609c9e888a62406103f0" ++ [0x01, 0x00, 0x4e] ++ markerGzip

def markerSha256 (_ : Bytes) : Bytes :=
  hexBytes "07a5993a10a443461184da5b192b6d8253e77def7391c1d3dcaa9e927d0f9bd9"

def markerText : String := "UVAX1|a1|1|1|" ++
  "nqCKnKSYYJyeiIpiQGED8AEATh+LCAAAAAAAAgOzSS1LzStRKM1MsVXyNVRSKKksSLVVStLN1S1Qsr" ++
  "MpyM8ESuYkltgqmRopKeTk59kqmSjp29nog7XZAQAXKS4zPgAAAA=="

def markerReaders : Readers Unit String where
  parseEnvelope := fun text => if text = markerText then some ⟨"a1", 1, 1, markerFrame⟩ else none
  decodeGps := fun _ => none
  decodeChat := fun _ => none
  decodeCot := fun gz => if gz = markerGzip then some "M1" else none
  keeps := fun _ => true

def marker : Sent markerSha256 markerReaders where
  channelKey := "A3741E6A529CCF31D04B89FE1763B82D"
  src := "NODE1"
  fragId := 0
  count := 1
  msgId := fun _ => "a1"
  chunks := fun _ => 1
  parts := fun k _ =>
    match k with
    | .cot .. => markerGzip
    | .env .. => markerFrame
  event := "M1"
  count_pos := Nat.one_pos
  count_le := by decide
  chunks_pos := fun _ _ => Nat.one_pos
  apart := fun i hi j hj _ => (Finset.mem_singleton.mp hi).trans (Finset.mem_singleton.mp hj).symm
  carries := fun _ hi => by
    obtain rfl := Finset.mem_singleton.mp hi
    exact ⟨[0x01, 0x00, 0x4e] ++ markerGzip, ⟨tlvCot, markerGzip⟩, by decide +kernel⟩
  whole := by decide +kernel

/-- The chunk comes in, and the storage works then or not. -/
def markerArrival (ok : Bool) : Arrival marker where
  frame := 1
  seq := 1
  ok := ok
  now := 0
  text := markerText
  frame_mem := Finset.mem_singleton_self 1
  seq_mem := Finset.mem_singleton_self 1
  parses := by decide +kernel

theorem inLimits_markerArrivals (oks : List Bool) : marker.InLimits (oks.map markerArrival) := by
  refine Sent.inLimits_of_minute fun x hx => (?_ : 0 ≤ x.now ∧ x.now ≤ 0 + atakReassembler.ttlS)
  obtain ⟨ok, -, rfl⟩ := List.mem_map.mp hx
  show (0 : ℚ) ≤ 0 ∧ (0 : ℚ) ≤ 0 + atakReassembler.ttlS
  decide +kernel

theorem allArrive_markerArrival : marker.AllArrive [markerArrival true] := by
  intro i hi j hj
  obtain rfl := Finset.mem_singleton.mp hi
  obtain rfl := Finset.mem_singleton.mp (show j ∈ ({1} : Finset ℕ) from hj)
  exact ⟨_, List.mem_cons_self, rfl, rfl⟩

/-- The store fails and the frame comes in again. -/
theorem stored_again_iff_marker :
    (marker.run [markerArrival true]).stores = [(marker.item, true)] ∧
    ((marker.item, true) ∈ (marker.run [markerArrival false, markerArrival true]).stores ↔
      marker.count = 1) :=
  ⟨(stored_again_iff marker).1 _ (inLimits_markerArrivals [true]) (by decide)
      allArrive_markerArrival,
    (stored_again_iff marker).2 [markerArrival false] _ (inLimits_markerArrivals [false, true])
      (by decide +kernel) (by decide) allArrive_markerArrival⟩

end RtfmEv.Atak
