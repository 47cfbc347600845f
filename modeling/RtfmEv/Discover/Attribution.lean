import Mathlib.Algebra.Group.Nat.Defs
import Mathlib.Data.List.Nodup
import Mathlib.Data.Set.Subsingleton
import RtfmEv.Lib.Run

/-!
# Which node an answer comes from

A trace ping names its target by one byte and a response by a one-byte source hash. The engine
remembers the pings and the directed asks of the last 30 seconds and names a node only where one
of them can be meant. Pings, telemetry asks and anonymous asks are three lists, each pruned when
it is written and matched on its own.

An ask is the radio's answer to its frame here; the contact that it sets to zero hops before is
in `RouteBack`. Times are milliseconds of the page's clock. What a node answers, the sweep and the
frames themselves are left out.
-/

namespace RtfmEv.Asks

open RtfmEv.Lib

abbrev Text := List Char

def traceTtlMs : ℤ := 30000
def askTtlMs : ℤ := 30000

/-! ### asks.ts -/

def isSpace (c : Char) : Bool :=
  c.toNat ∈ [9, 10, 11, 12, 13, 32, 0xa0, 0x1680, 0x2028, 0x2029, 0x202f, 0x205f, 0x3000, 0xfeff] ||
    (0x2000 ≤ c.toNat && c.toNat ≤ 0x200a)

def trim (s : Text) : Text := ((s.dropWhile isSpace).reverse.dropWhile isSpace).reverse

/-- `toLowerCase`; a text that passes one of the tests below has ASCII letters only. -/
def toLowerCase (s : Text) : Text := s.map Char.toLower

def isHexDigit (c : Char) : Bool := ('0' ≤ c && c ≤ '9') || ('a' ≤ c && c ≤ 'f')

/-- `PUBKEY` and `FULL_KEY` -/
def isPubkey (s : Text) : Bool := s.length == 64 && s.all isHexDigit

structure Ping where
  /-- Which object it is: `!==` tells pings with equal fields apart. -/
  ref : ℕ
  tag : Text
  targetId : Text
  sentAt : ℤ
deriving DecidableEq

structure Ask where
  pubkey : Text
  sentAt : ℤ
deriving DecidableEq

def padTag (s : Text) : Text := List.replicate (8 - s.length) '0' ++ s

/-- `normalizeTag` of the number sent. -/
def normalizeTagNumber (tag : ℕ) : Option Text :=
  if tag ≤ 0xffffffff then some (padTag (Nat.toDigits 16 tag)) else none

/-- `normalizeTag` of the decoder's text. -/
def normalizeTag (tag : Text) : Option Text :=
  let t := toLowerCase (trim tag)
  if 1 ≤ t.length ∧ t.length ≤ 8 ∧ t.all isHexDigit then some (padTag t) else none

def live {α : Type} (sentAt : α → ℤ) (list : List α) (now ttl : ℤ) : List α :=
  list.filter (fun p => decide (now - sentAt p < ttl))

def rememberPing (pending : List Ping) (ref tag : ℕ) (targetId : Text) (sentAt : ℤ) : List Ping :=
  match normalizeTagNumber tag with
  | none => pending
  | some t =>
    if targetId = [] then pending
    else live Ping.sentAt pending sentAt traceTtlMs ++ [⟨ref, t, toLowerCase targetId, sentAt⟩]

def matchTraceTarget (pending : List Ping) (tag : Text) (now : ℤ) : Option Text :=
  match normalizeTag tag with
  | none => none
  | some t =>
    let opened := live Ping.sentAt pending now traceTtlMs
    match opened.find? (·.tag = t) with
    | none => none
    | some hit =>
      if opened.any (fun p => p.ref ≠ hit.ref ∧ p.targetId.take 2 = hit.targetId.take 2) then none
      else some hit.targetId

def pruneAsks (pending : List Ask) (now : ℤ) : List Ask := live Ask.sentAt pending now askTtlMs

def rememberAsk (pending : List Ask) (pubkeyHex : Text) (sentAt : ℤ) : List Ask :=
  let pk := toLowerCase (trim pubkeyHex)
  if ¬ isPubkey pk then pending
  else (pruneAsks pending sentAt).filter (fun a => a.pubkey ≠ pk) ++ [⟨pk, sentAt⟩]

/-- The source hash of a response, as it is compared. -/
def hashOf (srcHash : Text) : Option Text :=
  let h := toLowerCase (trim srcHash)
  if h.length = 2 ∧ h.all isHexDigit then some h else none

def matchAskTarget (pending : List Ask) (srcHash : Text) (now : ℤ) : Option Text :=
  match hashOf srcHash with
  | none => none
  | some h =>
    match (pruneAsks pending now).filter (fun a => h.isPrefixOf a.pubkey) with
    | [a] => some a.pubkey
    | _ => none

/-! ### The engine -/

inductive AskKind
  | telemetry
  | anon
deriving DecidableEq

/-- What happened. A ping counts from the time it was handed to the radio, an ask from the time
the radio took it, with a direct route. -/
inductive Entry
  | pinged (p : Ping)
  | refused (ref : ℕ)
  | asked (kind : AskKind) (pubkey : Text) (time : ℤ)
  | stopped
deriving DecidableEq

structure State where
  enabled : Bool
  pings : List Ping
  telemetryAsks : List Ask
  anonAsks : List Ask
  log : List Entry
  clock : ℤ

def State.init : State :=
  { enabled := false, pings := [], telemetryAsks := [], anonAsks := [], log := [], clock := 0 }

namespace State

def asks (s : State) : AskKind → List Ask
  | .telemetry => s.telemetryAsks
  | .anon => s.anonAsks

def start (s : State) : State := { s with enabled := true }

def stop (s : State) : State :=
  { s with enabled := false, telemetryAsks := [], anonAsks := [], log := s.log ++ [.stopped] }

/-- `tracePing`, up to the radio's answer. -/
def tracePing (s : State) (id : Text) (tag : ℕ) (now : ℤ) : State :=
  if ¬ s.enabled then s
  else
    let pings := rememberPing s.pings s.log.length tag id now
    match pings.getLast? with
    | none => s
    | some mine => { s with pings := pings, log := s.log ++ [.pinged mine] }

/-- The radio refused a ping: only this one goes. -/
def pingRefused (s : State) (ref : ℕ) : State :=
  { s with pings := s.pings.filter (·.ref ≠ ref), log := s.log ++ [.refused ref] }

/-- The radio answered the frame of an ask: whether it took it, and whether the route was a flood
where it said so. -/
def askTelemetry (s : State) (pubkey : Text) (sent : Bool) (isFlood : Option Bool) (now : ℤ) :
    State :=
  if ¬ isPubkey pubkey ∨ ¬ sent ∨ isFlood ≠ some false then s
  else
    { s with
      telemetryAsks := rememberAsk s.telemetryAsks pubkey now
      log := s.log ++ [.asked .telemetry pubkey now] }

def askAnon (s : State) (pubkey : Text) (sent : Bool) (isFlood : Option Bool) (now : ℤ) : State :=
  if ¬ isPubkey pubkey ∨ ¬ sent ∨ isFlood ≠ some false then s
  else
    { s with
      anonAsks := rememberAsk s.anonAsks pubkey now
      log := s.log ++ [.asked .anon pubkey now] }

end State

inductive SenderKind
  | directHash
  | traceReply
  | telemetryReply
  | anonReply
  | other
deriving DecidableEq

structure Sender where
  kind : SenderKind
  id : Option Text
deriving DecidableEq

structure Attributable (Snr : Type) where
  packetType : String
  sender : Sender
  traceTag : Option Text
  heardUsSnr : Option Snr

/-- The sender of an answer, its `label` and `role` being null. -/
structure Attribution (Snr : Type) where
  kind : SenderKind
  id : Text
  heardUsSnr : Option Snr

variable {Snr : Type}

def State.attribute (s : State) (d : Attributable Snr) (now : ℤ) : Option (Attribution Snr) :=
  match d.sender.id, d.traceTag.filter (· ≠ []) with
  | none, some tag =>
    (matchTraceTarget s.pings tag now).map (⟨.traceReply, ·, d.heardUsSnr⟩)
  | none, none => none
  | some id, _ =>
    if d.packetType = "Response" ∧ d.sender.kind = .directHash ∧ id ≠ [] then
      match matchAskTarget s.telemetryAsks id now, matchAskTarget s.anonAsks id now with
      | some t, _ => some ⟨.telemetryReply, t, none⟩
      | none, some a => some ⟨.anonReply, a, none⟩
      | none, none => none
    else none

/-! ### Runs -/

inductive Label
  | start (now : ℤ)
  | stop (now : ℤ)
  | tracePing (now : ℤ) (id : Text) (tag : ℕ)
  | pingRefused (now : ℤ) (ref : ℕ)
  | askTelemetry (now : ℤ) (pubkey : Text) (sent : Bool) (isFlood : Option Bool)
  | askAnon (now : ℤ) (pubkey : Text) (sent : Bool) (isFlood : Option Bool)

def Label.now : Label → ℤ
  | start now | stop now | tracePing now _ _ | pingRefused now _ | askTelemetry now _ _ _
  | askAnon now _ _ _ => now

/-- One step, where it is possible: a ping has a target, and the radio refuses a ping that went
to it. -/
def act (s : State) : Label → Option State
  | .start _ => some s.start
  | .stop _ => some s.stop
  | .tracePing now id tag =>
    if id ≠ [] ∧ tag < 2 ^ 32 then some (s.tracePing id tag now) else none
  | .pingRefused _ ref => if ref < s.log.length then some (s.pingRefused ref) else none
  | .askTelemetry now pubkey sent isFlood => some (s.askTelemetry pubkey sent isFlood now)
  | .askAnon now pubkey sent isFlood => some (s.askAnon pubkey sent isFlood now)

/-- The clock does not go back. -/
def step (s : State) (l : Label) : Option State :=
  if l.now < s.clock then none else act { s with clock := l.now } l

/-! ### No answer is guessed -/

/-- The ping went out less than `traceTtlMs` ago, and the radio did not refuse it. -/
def State.Pinged (s : State) (now : ℤ) (p : Ping) : Prop :=
  .pinged p ∈ s.log ∧ .refused p.ref ∉ s.log ∧ now - p.sentAt < traceTtlMs

/-- What happened since the last stop. -/
def sinceStop (log : List Entry) : List Entry := (log.reverse.takeWhile (· ≠ .stopped)).reverse

/-- The node was sent a directed ask less than `askTtlMs` ago and since the last stop. -/
def State.Asked (s : State) (now : ℤ) (kind : AskKind) (pubkey : Text) : Prop :=
  ∃ t, .asked kind pubkey t ∈ sinceStop s.log ∧ now - t < askTtlMs

/-- The nodes that a response with this source hash can come from, after an ask of this kind. -/
def State.candidates (s : State) (now : ℤ) (hash : Text) (kind : AskKind) : Set Text :=
  {key | s.Asked now kind key ∧ hash <+: key}

/-- The two kinds of asks do not get in each other's way: no telemetry ask can be meant; or only
those of one node, and no anonymous ask of another; or those of several nodes, and not just one
node's anonymous asks. -/
def State.Clear (s : State) (now : ℤ) (hash : Text) : Prop :=
  s.candidates now hash .telemetry = ∅ ∨
    (∃ t, s.candidates now hash .telemetry = {t} ∧ s.candidates now hash .anon ⊆ {t}) ∨
    (s.candidates now hash .telemetry).Nontrivial ∧ ∀ a, s.candidates now hash .anon ≠ {a}

/-- The source hash of a response that may answer an ask. -/
def Attributable.responseHash (d : Attributable Snr) : Option Text :=
  if d.packetType = "Response" ∧ d.sender.kind = .directHash then d.sender.id.bind hashOf else none

/-- **An answer is refused rather than guessed.** -/
structure State.NeverGuesses (s : State) (now : ℤ) (d : Attributable Snr) : Prop where
  trace : ∀ tag a, d.sender.id = none → d.traceTag = some tag → s.attribute d now = some a →
    ∃ p, normalizeTag tag = some p.tag ∧ s.Pinged now p ∧ p.targetId = a.id ∧
      ∀ q, s.Pinged now q → q ≠ p → q.targetId.take 2 ≠ p.targetId.take 2
  response : ∀ hash a, d.responseHash = some hash → s.attribute d now = some a →
    ∃ kind, a.id ∈ s.candidates now hash kind ∧ ∀ kind', s.candidates now hash kind' ⊆ {a.id}

/-! ### What the lists hold -/

variable {log : List Entry} {now : ℤ} {kind : AskKind} {s t : State} {pk id hash : Text}

theorem sinceStop_stopped : sinceStop (log ++ [.stopped]) = [] := by
  simp [sinceStop]

theorem mem_sinceStop_concat {e l : Entry} (hl : l ≠ .stopped) :
    e ∈ sinceStop (log ++ [l]) ↔ e ∈ sinceStop log ∨ e = l := by
  simp [sinceStop, hl, or_comm]

theorem mem_live {α : Type} {sentAt : α → ℤ} {list : List α} {ttl : ℤ} {a : α} :
    a ∈ live sentAt list now ttl ↔ a ∈ list ∧ now - sentAt a < ttl := by
  simp [live]

theorem toLower_of_hex {c : Char} (hc : isHexDigit c = true) :
    c.toLower = c ∧ isSpace c = false := by
  have hbounds : (48 ≤ c.toNat ∧ c.toNat ≤ 57) ∨ (97 ≤ c.toNat ∧ c.toNat ≤ 102) := by
    simp only [isHexDigit, Bool.or_eq_true, Bool.and_eq_true, decide_eq_true_eq] at hc
    exact hc
  constructor
  · refine dif_neg ?_
    rintro ⟨hlow, hhigh⟩
    have hupper : 65 ≤ c.toNat ∧ c.toNat ≤ 90 := ⟨hlow, hhigh⟩
    omega
  · simp only [isSpace, List.mem_cons, List.not_mem_nil, or_false, Bool.or_eq_false_iff,
      decide_eq_false_iff_not, Bool.and_eq_false_imp, decide_eq_true_eq]
    omega

/-- A full key is compared as it is. -/
theorem toLowerCase_trim (hpk : isPubkey pk = true) : toLowerCase (trim pk) = pk := by
  have hall : ∀ c ∈ pk, isHexDigit c = true := List.all_eq_true.mp (Bool.and_eq_true_iff.mp hpk).2
  have hkeep : ∀ l : Text, (∀ c ∈ l, isHexDigit c = true) → l.dropWhile isSpace = l := by
    intro l hl
    cases l with
    | nil => rfl
    | cons c l =>
      exact List.dropWhile_cons_of_neg (by simp [(toLower_of_hex (hl c List.mem_cons_self)).2])
  rw [trim, hkeep pk hall, hkeep _ (fun c hc => hall c (List.mem_reverse.mp hc)),
    List.reverse_reverse]
  calc pk.map Char.toLower
      = pk.map id := List.map_congr_left (fun c hc => (toLower_of_hex (hall c hc)).1)
    _ = pk := List.map_id pk

theorem mem_rememberAsk {list : List Ask} (hpk : isPubkey pk = true) {a : Ask} :
    a ∈ rememberAsk list pk now ↔
      (a ∈ list ∧ now - a.sentAt < askTtlMs) ∧ a.pubkey ≠ pk ∨ a = ⟨pk, now⟩ := by
  rw [rememberAsk, toLowerCase_trim hpk, if_neg (not_not_intro hpk), List.mem_append,
    List.mem_filter, pruneAsks, mem_live, decide_eq_true_iff, List.mem_singleton]

theorem nodup_rememberAsk {list : List Ask} (h : (list.map Ask.pubkey).Nodup) (pk : Text) :
    ((rememberAsk list pk now).map Ask.pubkey).Nodup := by
  rw [rememberAsk]
  split_ifs
  · rw [List.map_append, List.nodup_append]
    refine ⟨h.sublist ((List.filter_sublist.trans List.filter_sublist).map _),
      List.nodup_singleton _, fun k hk k' hk' => ?_⟩
    obtain ⟨a, ha, rfl⟩ := List.mem_map.mp hk
    rw [List.mem_singleton.mp hk']
    exact of_decide_eq_true (List.mem_filter.mp ha).2
  · exact h

/-- The lists hold what the log says of pings and asks, from now on. -/
structure Inv (s : State) : Prop where
  pings : ∀ now p, s.clock ≤ now →
    (p ∈ s.pings ∧ now - p.sentAt < traceTtlMs ↔ s.Pinged now p)
  place : ∀ p, .pinged p ∈ s.log → s.log[p.ref]? = some (.pinged p)
  refused : ∀ ref, .refused ref ∈ s.log → ref < s.log.length
  nodup : ∀ kind, ((s.asks kind).map Ask.pubkey).Nodup
  asks : ∀ kind now key, s.clock ≤ now →
    ((∃ a ∈ s.asks kind, a.pubkey = key ∧ now - a.sentAt < askTtlMs) ↔ s.Asked now kind key)
  times : ∀ kind key time, .asked kind key time ∈ sinceStop s.log → time ≤ s.clock

theorem inv_init : Inv .init where
  pings := by simp [State.init, State.Pinged]
  place := nofun
  refused := nofun
  nodup := fun kind => by cases kind <;> exact List.nodup_nil
  asks := fun kind => by cases kind <;> simp [State.init, State.asks, State.Asked, sinceStop]
  times := nofun

/-- The pings stand in the log by their numbers, also after one more entry. -/
theorem Inv.place_concat (h : Inv s) (e : Entry) (he : ∀ p, e = .pinged p → p.ref = s.log.length)
    {p : Ping} (hp : .pinged p ∈ s.log ++ [e]) : (s.log ++ [e])[p.ref]? = some (.pinged p) := by
  rcases List.mem_append.mp hp with hp | hp
  · have hin := h.place p hp
    rwa [List.getElem?_append_left (List.getElem?_eq_some_iff.mp hin).1]
  · obtain rfl := List.mem_singleton.mp hp
    rw [he p rfl, List.getElem?_concat_length]

/-- One more entry that is not about an ask. -/
theorem Inv.concat (h : Inv s) (e : Entry) (hasked : ∀ kind key time, e ≠ .asked kind key time)
    (hstop : e ≠ .stopped) (hlog : t.log = s.log ++ [e]) (hasks : t.asks = s.asks)
    (hclock : t.clock = s.clock)
    (hpings : ∀ now p, s.clock ≤ now →
      (p ∈ t.pings ∧ now - p.sentAt < traceTtlMs ↔ t.Pinged now p))
    (hplace : ∀ p, e = .pinged p → p.ref = s.log.length)
    (hrefused : ∀ ref, e = .refused ref → ref < s.log.length) : Inv t where
  pings := hclock ▸ hpings
  place := hlog ▸ fun _ => h.place_concat e hplace
  refused := by
    intro ref hr
    rw [hlog, List.mem_append, List.mem_singleton] at hr
    rw [hlog, List.length_append]
    rcases hr with hr | hr
    · exact Nat.lt_add_right _ (h.refused ref hr)
    · exact Nat.lt_add_right _ (hrefused ref hr.symm)
  nodup := hasks ▸ h.nodup
  asks := by
    simpa [hasks, hclock, State.Asked, hlog, mem_sinceStop_concat hstop, (hasked _ _ _).symm]
      using h.asks
  times := by
    simpa [hclock, hlog, mem_sinceStop_concat hstop, (hasked _ _ _).symm] using h.times

theorem Inv.stop (h : Inv s) : Inv s.stop where
  pings := by simpa [State.stop, State.Pinged] using h.pings
  place := fun _ => h.place_concat .stopped nofun
  refused := by
    intro ref hr
    have hlt := h.refused ref (by simpa [State.stop] using hr)
    exact hlt.trans_le (List.length_append ▸ Nat.le_add_right _ _)
  nodup := fun kind => by cases kind <;> exact List.nodup_nil
  asks := fun kind => by
    cases kind <;> simp [State.stop, State.asks, State.Asked, sinceStop_stopped]
  times := by simp [State.stop, sinceStop_stopped]

/-- A ping that goes out is the newest one. -/
theorem rememberPing_eq (hne : id ≠ []) {tag : ℕ} (htag : tag < 2 ^ 32)
    (pending : List Ping) (ref : ℕ) (sentAt : ℤ) :
    rememberPing pending ref tag id sentAt = live Ping.sentAt pending sentAt traceTtlMs ++
      [⟨ref, padTag (Nat.toDigits 16 tag), toLowerCase id, sentAt⟩] := by
  rw [rememberPing, normalizeTagNumber, if_pos (by omega)]
  exact if_neg hne

theorem Inv.tracePing (h : Inv s) (hne : id ≠ []) {tag : ℕ} (htag : tag < 2 ^ 32) :
    Inv (s.tracePing id tag s.clock) := by
  rw [State.tracePing]
  by_cases hoff : s.enabled = true
  swap
  · rwa [if_pos hoff]
  rw [if_neg (not_not_intro hoff), rememberPing_eq hne htag]
  simp only [List.getLast?_concat]
  refine h.concat (.pinged _) nofun nofun rfl rfl rfl (fun now p hle => ?_)
    (fun p hp => by rw [← Entry.pinged.inj hp]) nofun
  have hold := h.pings now p hle
  have hnew : ∀ ref, .refused ref ∈ s.log → ref ≠ s.log.length := fun ref hr =>
    (h.refused ref hr).ne
  simp only [State.Pinged, List.mem_append, List.mem_singleton, mem_live, reduceCtorEq, or_false,
    Entry.pinged.injEq] at hold ⊢
  constructor
  · rintro ⟨⟨hp, -⟩ | rfl, hfresh⟩
    · exact ⟨Or.inl (hold.mp ⟨hp, hfresh⟩).1, (hold.mp ⟨hp, hfresh⟩).2⟩
    · exact ⟨Or.inr rfl, fun hr => hnew _ hr rfl, hfresh⟩
  · rintro ⟨hp | rfl, hnot, hfresh⟩
    · exact ⟨Or.inl ⟨(hold.mpr ⟨hp, hnot, hfresh⟩).1, by omega⟩, hfresh⟩
    · exact ⟨Or.inr rfl, hfresh⟩

theorem Inv.pingRefused (h : Inv s) {ref : ℕ} (href : ref < s.log.length) :
    Inv (s.pingRefused ref) := by
  refine h.concat (.refused ref) nofun nofun rfl rfl rfl (fun now p hle => ?_) nofun
    (fun r hr => by rwa [← Entry.refused.inj hr])
  have hold := h.pings now p hle
  simp only [State.Pinged, State.pingRefused, List.mem_append, List.mem_singleton, List.mem_filter,
    reduceCtorEq, or_false, Entry.refused.injEq, decide_eq_true_iff] at hold ⊢
  tauto

/-- **An ask that the radio took joins the asks of its kind**, in the place of an older one to the
node. -/
theorem Inv.asked (h : Inv s) (hpk : isPubkey pk = true) (hpings : t.pings = s.pings)
    (hlog : t.log = s.log ++ [.asked kind pk s.clock]) (hclock : t.clock = s.clock)
    (hself : t.asks kind = rememberAsk (s.asks kind) pk s.clock)
    (hother : ∀ kind', kind' ≠ kind → t.asks kind' = s.asks kind') : Inv t where
  pings := by simpa [State.Pinged, hpings, hlog, hclock] using h.pings
  place := hlog ▸ fun _ => h.place_concat (.asked kind pk s.clock) nofun
  refused := by
    intro ref hr
    have hlt := h.refused ref (by simpa [hlog] using hr)
    rw [hlog]
    exact hlt.trans_le (List.length_append ▸ Nat.le_add_right _ _)
  nodup := by
    intro kind'
    by_cases hkind : kind' = kind
    · rw [hkind, hself]
      exact nodup_rememberAsk (h.nodup kind) pk
    · rw [hother kind' hkind]
      exact h.nodup kind'
  asks := by
    intro kind' now key hle
    rw [hclock] at hle
    have hold := h.asks kind' now key hle
    simp only [State.Asked, hlog, mem_sinceStop_concat (l := .asked kind pk s.clock) nofun,
      Entry.asked.injEq] at hold ⊢
    by_cases hkind : kind' = kind
    swap
    · simpa [hother kind' hkind, hkind] using hold
    subst hkind
    simp only [hself, mem_rememberAsk hpk, true_and]
    constructor
    · rintro ⟨a, ⟨⟨ha, -⟩, -⟩ | rfl, rfl, hfresh⟩
      · obtain ⟨time, hin, hlive⟩ := hold.mp ⟨a, ha, rfl, hfresh⟩
        exact ⟨time, Or.inl hin, hlive⟩
      · exact ⟨_, Or.inr ⟨rfl, rfl⟩, hfresh⟩
    · rintro ⟨time, hin | ⟨rfl, rfl⟩, hlive⟩
      · by_cases hkey : key = pk
        · -- the node was asked just now, no earlier than before
          have hle' := h.times kind' key time hin
          exact ⟨⟨pk, s.clock⟩, Or.inr rfl, hkey.symm, by show now - s.clock < _; omega⟩
        · obtain ⟨a, ha, rfl, hfresh⟩ := hold.mpr ⟨time, hin, hlive⟩
          exact ⟨a, Or.inl ⟨⟨ha, by omega⟩, hkey⟩, rfl, hfresh⟩
      · exact ⟨⟨key, s.clock⟩, Or.inr rfl, rfl, hlive⟩
  times := by
    intro kind' key time hin
    rw [hlog, mem_sinceStop_concat (l := .asked kind pk s.clock) nofun] at hin
    rw [hclock]
    rcases hin with hin | hin
    · exact h.times kind' key time hin
    · exact (Entry.asked.inj hin).2.2.le

/-- **Every step keeps the invariant.** -/
theorem Inv.step {l : Label} (h : Inv s) (hstep : step s l = some t) : Inv t := by
  rw [Asks.step] at hstep
  split_ifs at hstep with hback
  have hle : s.clock ≤ l.now := by omega
  have hc : Inv { s with clock := l.now } :=
    ⟨fun later p hlater => h.pings later p (hle.trans hlater), h.place, h.refused, h.nodup,
      fun kind later key hlater => h.asks kind later key (hle.trans hlater),
      fun kind key time hin => (h.times kind key time hin).trans hle⟩
  cases l with
  | start now =>
    obtain rfl := Option.some.inj hstep
    exact ⟨hc.pings, hc.place, hc.refused, hc.nodup, hc.asks, hc.times⟩
  | stop now =>
    obtain rfl := Option.some.inj hstep
    exact hc.stop
  | tracePing now id tag =>
    rw [act] at hstep
    split_ifs at hstep with hok
    obtain rfl := Option.some.inj hstep
    exact hc.tracePing hok.1 hok.2
  | pingRefused now ref =>
    rw [act] at hstep
    split_ifs at hstep with href
    obtain rfl := Option.some.inj hstep
    exact hc.pingRefused href
  | askTelemetry now pubkey sent isFlood | askAnon now pubkey sent isFlood =>
    obtain rfl := Option.some.inj hstep
    simp only [State.askTelemetry, State.askAnon]
    split_ifs with hno
    · exact hc
    · refine hc.asked (of_not_not (not_or.mp hno).1) rfl rfl rfl rfl fun kind hne => ?_
      cases kind <;> first | rfl | exact absurd rfl hne

/-! ### What the lists answer -/

/-- **A list of asks names a node just when it is the only candidate.** -/
theorem matchAskTarget_eq_some (h : Inv s) (hnow : s.clock ≤ now) {key : Text}
    (hhash : hashOf id = some hash) :
    matchAskTarget (s.asks kind) id now = some key ↔ s.candidates now hash kind = {key} := by
  generalize hhits : (pruneAsks (s.asks kind) now).filter (fun a => hash.isPrefixOf a.pubkey) = hits
  have hnodup : (hits.map Ask.pubkey).Nodup := by
    rw [← hhits]
    exact (h.nodup kind).sublist ((List.filter_sublist.trans List.filter_sublist).map _)
  have hmem : ∀ k, k ∈ s.candidates now hash kind ↔ k ∈ hits.map Ask.pubkey := by
    intro k
    rw [State.candidates, Set.mem_ofPred_eq, ← h.asks kind now k hnow, ← hhits]
    simp only [List.mem_map, List.mem_filter, pruneAsks, mem_live, List.isPrefixOf_iff_prefix]
    grind
  have hset : s.candidates now hash kind = {key} ↔ ∀ k, k ∈ hits.map Ask.pubkey ↔ k = key := by
    rw [Set.ext_iff]
    exact forall_congr' fun k => iff_congr (hmem k) Set.mem_singleton_iff
  rw [hset, matchAskTarget, hhash]
  simp only [hhits]
  match hits, hnodup with
  | [], _ => simp
  | [a], _ =>
    refine ⟨fun heq k => ?_, fun hall => ?_⟩
    · rw [← Option.some.inj heq]
      exact List.mem_singleton
    · rw [← (hall a.pubkey).mp (List.mem_singleton_self _)]
  | a :: b :: rest, hnodup =>
    refine iff_of_false nofun fun hall => ?_
    have ha := (hall a.pubkey).mp (by simp)
    have hb := (hall b.pubkey).mp (by simp)
    simp [ha, hb] at hnodup

/-- A trace reply is never guessed. -/
theorem Inv.trace (h : Inv s) (hnow : s.clock ≤ now) {tag target : Text}
    (hmatch : matchTraceTarget s.pings tag now = some target) :
    ∃ p, normalizeTag tag = some p.tag ∧ s.Pinged now p ∧ p.targetId = target ∧
      ∀ q, s.Pinged now q → q ≠ p → q.targetId.take 2 ≠ p.targetId.take 2 := by
  unfold matchTraceTarget at hmatch
  split at hmatch
  · cases hmatch
  rename_i wanted hwanted
  dsimp only at hmatch
  split at hmatch
  · cases hmatch
  rename_i hit hfind
  split_ifs at hmatch with hclash
  have hhit := (h.pings now hit hnow).mp (mem_live.mp (List.mem_of_find?_eq_some hfind))
  have htag := List.find?_some hfind
  refine ⟨hit, ?_, hhit, Option.some.inj hmatch, fun q hq hne heq => ?_⟩
  · rw [hwanted, of_decide_eq_true htag]
  · refine hclash (List.any_eq_true.mpr ⟨q, mem_live.mpr ((h.pings now q hnow).mpr hq),
      decide_eq_true ⟨fun href => hne ?_, heq⟩⟩)
    have hsame := (h.place q hq.1).symm.trans (href ▸ h.place hit hhit.1)
    exact Entry.pinged.inj (Option.some.inj hsame)

/-- A response is looked up in the telemetry asks first. -/
theorem attribute_of_response {d : Attributable Snr}
    (hresp : d.responseHash = some hash) (s : State) (now : ℤ) :
    ∃ id, hashOf id = some hash ∧ ∀ key, (∃ a, s.attribute d now = some a ∧ a.id = key) ↔
      matchAskTarget (s.asks .telemetry) id now = some key ∨
        matchAskTarget (s.asks .telemetry) id now = none ∧
          matchAskTarget (s.asks .anon) id now = some key := by
  rw [Attributable.responseHash] at hresp
  split_ifs at hresp with hkind
  obtain ⟨id, hid, hhash⟩ := Option.bind_eq_some_iff.mp hresp
  have hne : id ≠ [] := by
    intro hnil
    rw [hnil] at hhash
    cases hhash
  refine ⟨id, hhash, fun key => ?_⟩
  simp only [State.attribute, hid, hkind.1, hkind.2, ne_eq, hne, not_false_eq_true, and_self,
    if_true, State.asks]
  cases matchAskTarget s.telemetryAsks id now <;>
    cases matchAskTarget s.anonAsks id now <;> simp

/-- The sets of candidates that leave nothing to guess. -/
theorem clear_iff {T A : Set Text} {tele anon : Option Text} (htele : ∀ k, tele = some k ↔ T = {k})
    (hanon : ∀ k, anon = some k ↔ A = {k}) :
    (∀ key, tele = some key ∨ tele = none ∧ anon = some key →
        (key ∈ T ∨ key ∈ A) ∧ T ⊆ {key} ∧ A ⊆ {key}) ↔
      T = ∅ ∨ (∃ t, T = {t} ∧ A ⊆ {t}) ∨ T.Nontrivial ∧ ∀ a, A ≠ {a} := by
  have hnone : tele = none ↔ ∀ k, T ≠ {k} := by
    rw [Option.eq_none_iff_forall_ne_some]
    exact forall_congr' fun k => not_congr (htele k)
  constructor
  · intro hall
    rcases T.eq_empty_or_nonempty with hempty | hsome
    · exact Or.inl hempty
    rcases hsome.exists_eq_singleton_or_nontrivial with ⟨t, ht⟩ | hmany
    · exact Or.inr (Or.inl ⟨t, ht, (hall t (Or.inl ((htele t).mpr ht))).2.2⟩)
    · -- the telemetry asks name nobody, so one anonymous ask would be the answer
      refine Or.inr (Or.inr ⟨hmany, fun a ha => ?_⟩)
      have hname := hall a (Or.inr ⟨hnone.mpr fun k hk => hmany.ne_singleton hk, (hanon a).mpr ha⟩)
      exact hmany.not_subset_singleton hname.2.1
  · rintro (hempty | ⟨t, ht, hsub⟩ | ⟨hmany, hnot⟩) key (hkey | ⟨hno, hkey⟩)
    · exact absurd ((htele key).mp hkey).symm (hempty ▸ Set.singleton_ne_empty key)
    · have hA := (hanon key).mp hkey
      exact ⟨Or.inr (hA ▸ rfl), hempty ▸ Set.empty_subset _, hA.subset⟩
    · obtain rfl := Set.singleton_injective (ht.symm.trans ((htele key).mp hkey))
      exact ⟨Or.inl (ht ▸ rfl), ht.subset, hsub⟩
    · exact absurd ht (hnone.mp hno t)
    · exact absurd ((htele key).mp hkey) hmany.ne_singleton
    · exact absurd ((hanon key).mp hkey) (hnot key)

/-- **An answer is refused rather than guessed just when the kinds of asks do not get in each
other's way**: in every state that pings, asks and stops lead to, for every reception. -/
theorem neverGuesses_iff {h : List (Event State Label)}
    (r : Run (fun s l t => step s l = some t) .init h s) (hnow : s.clock ≤ now)
    (d : Attributable Snr) :
    s.NeverGuesses now d ↔ ∀ hash, d.responseHash = some hash → s.Clear now hash := by
  have hinv : Inv s :=
    r.invariant (C := fun _ => True) (fun _ _ => trivial) (fun e he _ hi => hi.step he) inv_init
  have htrace : ∀ tag a, d.sender.id = none → d.traceTag = some tag → s.attribute d now = some a →
      ∃ p, normalizeTag tag = some p.tag ∧ s.Pinged now p ∧ p.targetId = a.id ∧
        ∀ q, s.Pinged now q → q ≠ p → q.targetId.take 2 ≠ p.targetId.take 2 := by
    intro tag a hid htag ha
    have hfilter : d.traceTag.filter (· ≠ []) = if tag = [] then none else some tag := by
      simp [htag, Option.filter]
    simp only [State.attribute, hid, hfilter] at ha
    split_ifs at ha
    obtain ⟨target, htarget, rfl⟩ := Option.map_eq_some_iff.mp ha
    exact hinv.trace hnow htarget
  have hresp : ∀ hash, d.responseHash = some hash →
      ((∀ a, s.attribute d now = some a → ∃ kind, a.id ∈ s.candidates now hash kind ∧
        ∀ kind', s.candidates now hash kind' ⊆ {a.id}) ↔ s.Clear now hash) := by
    intro hash hhash
    obtain ⟨id, hid, hattr⟩ := attribute_of_response hhash s now
    rw [State.Clear, ← clear_iff
      (fun _ => (matchAskTarget_eq_some hinv hnow hid : matchAskTarget (s.asks .telemetry) .. = _ ↔ _))
      (fun _ => (matchAskTarget_eq_some hinv hnow hid : matchAskTarget (s.asks .anon) .. = _ ↔ _))]
    simp only [← hattr]
    constructor
    · rintro hall key ⟨a, ha, rfl⟩
      obtain ⟨kind, hin, honly⟩ := hall a ha
      refine ⟨?_, honly .telemetry, honly .anon⟩
      cases kind with
      | telemetry => exact Or.inl hin
      | anon => exact Or.inr hin
    · intro hall a ha
      obtain ⟨hin, hT, hA⟩ := hall a.id ⟨a, ha, rfl⟩
      have honly : ∀ kind, s.candidates now hash kind ⊆ {a.id} := by
        intro kind
        cases kind with
        | telemetry => exact hT
        | anon => exact hA
      exact hin.elim (fun hin => ⟨_, hin, honly⟩) (fun hin => ⟨_, hin, honly⟩)
  constructor
  · exact fun hg hash hhash => (hresp hash hhash).mp fun a => hg.response hash a hhash
  · exact fun hclear => ⟨htrace, fun hash a hhash => (hresp hash hhash).mpr (hclear hash hhash) a⟩

/-! ### One ask -/

/-- A telemetry ask to one node. -/
def oneAsk : List Label := [.askTelemetry 100 (List.replicate 64 '0') true (some false)]

def response : Attributable ℤ := ⟨"Response", ⟨.directHash, some ['0', '0']⟩, none, none⟩

theorem neverGuesses_oneAsk : ∃ (h : List (Event State Label)) (s : State),
    Run (fun s l t => step s l = some t) .init h s ∧ (s.NeverGuesses 300 response ↔
      ∀ hash, response.responseHash = some hash → s.Clear 300 hash) := by
  obtain ⟨h, s, hrun, -, hends⟩ := Run.exists_of_trace step .init oneAsk
    (fun r => r.2.clock ≤ 300) (by decide +kernel)
  exact ⟨h, s, hrun, neverGuesses_iff hrun (of_decide_eq_true hends) response⟩

end RtfmEv.Asks
