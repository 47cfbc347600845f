import RtfmEv.HostRepeater.Forwarding
import RtfmEv.Spam.BlockEdits
import RtfmEv.Spam.Ledger

/-!
# What a removed block comes back from

A removed block stays away in one of two ways. Its key is held off, and then nothing
brings it back before that time is over. A block on duplicates or repeats is not held
off: the copies it was made from are marked as released, which covers copies on its
own channel that contain what it stopped. Copies that give the same key and are not
marked put the block straight back.
-/

namespace RtfmEv.Spam

open RtfmEv.Lib RtfmEv.HostRepeater

/-- The release of a block marks a message. -/
def Block.marks (b : Block) (e : Event) : Prop :=
  b.channel = some e.channel ∧ (b.senderOnly = true → b.sender = some e.sender) ∧
    b.body.pieces.all (fun piece => textContains e.text piece) = true

instance (b : Block) (e : Event) : Decidable (b.marks e) :=
  inferInstanceAs (Decidable (_ ∧ _ ∧ _))

/-- The same message, released if it was before. -/
structure Event.Same (e e' : Event) : Prop where
  channel : e'.channel = e.channel
  sender : e'.sender = e.sender
  text : e'.text = e.text
  exempt : e'.exempt = e.exempt
  released : e.released = true → e'.released = true

namespace Event.Same

theorem refl (e : Event) : e.Same e := ⟨rfl, rfl, rfl, rfl, fun h => h⟩

theorem trans {e e' e'' : Event} (h : e.Same e') (h' : e'.Same e'') : e.Same e'' where
  channel := h'.channel.trans h.channel
  sender := h'.sender.trans h.sender
  text := h'.text.trans h.text
  exempt := h'.exempt.trans h.exempt
  released := fun hreleased => h'.released (h.released hreleased)

end Event.Same

namespace Detector

variable {key : String}

/-- The key is held off. -/
def HeldOff (d : Detector) (key : String) : Prop := d.clock < (d.suppressed.get? key).getD 0

/-- A step that puts no block under the key, and keeps what keeps it away. -/
structure Leaves (key : String) (d d' : Detector) : Prop where
  blocks : d.blocks.get? key = none → d'.blocks.get? key = none
  clock : d'.clock = d.clock
  config : d'.config = d.config
  allowSenders : d'.allowSenders = d.allowSenders
  held : d.blocks.get? key = none → d.HeldOff key →
    (d'.suppressed.get? key).getD 0 = (d.suppressed.get? key).getD 0
  events : ∀ e' ∈ d'.events, ∃ e ∈ d.events, e.Same e'

namespace Leaves

variable (d : Detector) {d' : Detector} (now : ℚ) (e : Event)

theorem refl : Leaves key d d where
  blocks := id
  clock := rfl
  config := rfl
  allowSenders := rfl
  held := fun _ _ => rfl
  events := fun e he => ⟨e, he, .refl e⟩

theorem heldOff {d : Detector} (h : Leaves key d d') (hnone : d.blocks.get? key = none)
    (hheld : d.HeldOff key) : d'.HeldOff key := by
  unfold HeldOff
  rw [h.held hnone hheld, h.clock]
  exact hheld

theorem trans {d d'' : Detector} (h : Leaves key d d') (h' : Leaves key d' d'') :
    Leaves key d d'' where
  blocks := fun hnone => h'.blocks (h.blocks hnone)
  clock := h'.clock.trans h.clock
  config := h'.config.trans h.config
  allowSenders := h'.allowSenders.trans h.allowSenders
  held := fun hnone hheld =>
    (h'.held (h.blocks hnone) (h.heldOff hnone hheld)).trans (h.held hnone hheld)
  events := by
    intro e'' he''
    obtain ⟨e', he', hsame'⟩ := h'.events e'' he''
    obtain ⟨e, he, hsame⟩ := h.events e' he'
    exact ⟨e, he, hsame.trans hsame'⟩

theorem foldl {α : Type} {f : Detector → α → Detector} {xs : List α}
    (hf : ∀ d, ∀ x ∈ xs, Leaves key d (f d x)) (d : Detector) : Leaves key d (xs.foldl f d) := by
  induction xs generalizing d with
  | nil => exact refl d
  | cons x xs ih =>
    exact (hf d x List.mem_cons_self).trans
      (ih (fun d y hy => hf d y (List.mem_cons_of_mem _ hy)) _)

theorem stepIf {on : Bool} {f : Detector → Detector} {d : Detector}
    (hf : on = true → Leaves key d (f d)) : Leaves key d (d.stepIf on f) := by
  cases on with
  | true => exact hf rfl
  | false => exact refl d

/-- Blocks, messages and held-off keys stay as they are. -/
theorem of_eq {d : Detector} (hblocks : d'.blocks = d.blocks) (hclock : d'.clock = d.clock)
    (hconfig : d'.config = d.config) (hallow : d'.allowSenders = d.allowSenders)
    (hsuppressed : d'.suppressed = d.suppressed) (hevents : d'.events = d.events) :
    Leaves key d d' where
  blocks := fun hnone => by rw [hblocks, hnone]
  clock := hclock
  config := hconfig
  allowSenders := hallow
  held := fun _ _ => by rw [hsuppressed]
  events := fun e he => ⟨e, hevents ▸ he, .refl e⟩

theorem of_events {d : Detector} {f : Event → Event} (hf : ∀ e : Event, e.Same (f e)) :
    Leaves key d { d with events := d.events.map f } where
  blocks := id
  clock := rfl
  config := rfl
  allowSenders := rfl
  held := fun _ _ => rfl
  events := by
    intro e' he'
    obtain ⟨e, he, rfl⟩ := List.mem_map.mp he'
    exact ⟨e, he, hf e⟩

theorem setBlock {d : Detector} {k : String} {b : Block}
    (hk : k ≠ key ∨ (d.blocks.get? k).isSome = true) : Leaves key d (d.setBlock k b) where
  blocks := by
    intro hnone
    show (d.blocks.set k b).get? key = none
    rw [OrderedDict.get?_set]
    split_ifs with heq
    · rcases hk with hne | hsome
      · exact absurd heq.symm hne
      · rw [← heq, hnone] at hsome
        cases hsome
    · exact hnone
  clock := rfl
  config := rfl
  allowSenders := rfl
  held := fun _ _ => rfl
  events := fun e he => ⟨e, he, .refl e⟩

theorem dropBlock (k : String) : Leaves key d (d.dropBlock k) where
  blocks := by
    intro hnone
    show (d.blocks.erase k).get? key = none
    rw [OrderedDict.get?_erase]
    split_ifs
    · rfl
    · exact hnone
  clock := rfl
  config := rfl
  allowSenders := rfl
  held := fun _ _ => rfl
  events := fun e he => ⟨e, he, .refl e⟩

/-! ### Orders -/

theorem addBlock {d : Detector} {o : BlockOrder} (ho : o.key ≠ key) :
    Leaves key d (d.addBlock o) := by
  unfold Detector.addBlock
  split_ifs
  · exact refl d
  · cases d.blocks.get? o.key with
    | none => exact setBlock (Or.inl ho)
    | some b =>
      show Leaves key d (if _ then d.setBlock o.key _ else d)
      split_ifs
      · exact setBlock (Or.inl ho)
      · exact refl d

theorem want {d : Detector} {o : BlockOrder} (ho : d.HeldOff key ∨ o.key ≠ key) :
    Leaves key d (d.want o) := by
  unfold Detector.want
  split_ifs with hheld
  · exact refl d
  · apply addBlock
    rcases ho with hkey | hne
    · rintro rfl
      exact hheld hkey
    · exact hne

theorem wantAll {d : Detector} {orders : List BlockOrder} (hnone : d.blocks.get? key = none)
    (ho : d.HeldOff key ∨ ∀ o ∈ orders, o.key ≠ key) : Leaves key d (d.wantAll orders) := by
  unfold Detector.wantAll
  induction orders generalizing d with
  | nil => exact refl d
  | cons o orders ih =>
    rw [List.foldl_cons]
    rcases ho with hheld | hother
    · have hfirst : Leaves key d (d.want o) := want (Or.inl hheld)
      exact hfirst.trans (ih (hfirst.blocks hnone) (Or.inl (hfirst.heldOff hnone hheld)))
    · have hfirst : Leaves key d (d.want o) := want (Or.inr (hother o List.mem_cons_self))
      exact hfirst.trans (ih (hfirst.blocks hnone)
        (Or.inr (fun o ho => hother o (List.mem_cons_of_mem _ ho))))

/-! ### The other steps of a call -/

theorem withCampaigns : Leaves key d (d.withCampaigns now) := by
  refine ⟨id, rfl, rfl, rfl, fun _ _ => rfl, ?_⟩
  intro e' he'
  obtain ⟨e, he, rfl⟩ := List.mem_map.mp he'
  refine ⟨e, he, ?_⟩
  split_ifs
  · exact ⟨rfl, rfl, rfl, rfl, fun h => h⟩
  · exact .refl e

theorem suppress {k : String} (hk : k ≠ key) (until_ : ℚ) :
    Leaves key d (d.suppress k until_) where
  blocks := id
  clock := rfl
  config := rfl
  allowSenders := rfl
  held := by
    intro _ _
    show ((d.suppressed.set k until_).get? key).getD 0 = _
    rw [OrderedDict.get?_set_of_ne hk.symm]
  events := fun e he => ⟨e, he, .refl e⟩

theorem correctCampaigns {d : Detector} (hnone : d.blocks.get? key = none)
    (longWindow : List Event) (now : ℚ) : Leaves key d (d.correctCampaigns longWindow now) := by
  refine foldl (fun acc entry hentry => ?_) d
  split_ifs
  · have hne : entry.1 ≠ key := by
      rintro rfl
      exact OrderedDict.get?_eq_none_iff.mp hnone (List.mem_map.mpr ⟨entry, hentry, rfl⟩)
    exact (dropBlock acc entry.1).trans (suppress _ hne _)
  · exact refl acc

theorem learnPath : Leaves key d (d.learnPath e) := by
  unfold Detector.learnPath
  split_ifs
  · exact refl d
  · cases hget : d.blocks.get? ("hop:" ++ e.firstHop) with
    | none => exact refl d
    | some b =>
      show Leaves key d (if _ then d else d.setBlock _ _)
      split_ifs
      · exact refl d
      · exact setBlock (Or.inr (by rw [hget]; rfl))

theorem updateEvent (id : ℕ) {f : Event → Event} (hf : ∀ e : Event, e.Same (f e)) :
    Leaves key d (d.updateEvent id f) := by
  apply of_events
  intro e
  split_ifs
  · exact hf e
  · exact .refl e

theorem settleOne : Leaves key d (d.settleOne now e) := by
  have hhome : ∀ d : Detector, Leaves key d (d.recordHome e) := by
    intro d
    unfold recordHome
    split_ifs
    · exact refl d
    · exact of_eq rfl rfl rfl rfl rfl rfl
  have hsender : ∀ d : Detector, Leaves key d (d.learnSender e) := by
    intro d
    unfold learnSender
    split_ifs
    · exact refl d
    · exact refl d
    · exact of_eq rfl rfl rfl rfl rfl rfl
  have hroute : ∀ d : Detector, Leaves key d (d.learnRoute e) := by
    intro d
    unfold learnRoute
    split_ifs
    · exact refl d
    · exact of_eq rfl rfl rfl rfl rfl rfl
  unfold Detector.settleOne
  split_ifs
  · exact refl d
  · have hsettled : Leaves key d (d.updateEvent e.id (fun e => { e with settled := true })) :=
      updateEvent d e.id (fun e => ⟨rfl, rfl, rfl, rfl, fun h => h⟩)
    exact ((hsettled.trans (hhome _)).trans (hsender _)).trans (hroute _)

theorem allowOriginOf : Leaves key d (d.allowOriginOf e) := by
  unfold Detector.allowOriginOf
  split_ifs
  · exact refl d
  · cases hget : d.blocks.get? ("suffix:" ++ joinPath (e.path.drop 1)) with
    | none =>
      simp only [hget]
      exact refl d
    | some b =>
      simp only [hget]
      split_ifs
      · exact refl d
      · exact setBlock (Or.inr (by rw [hget]; rfl))

theorem dropOldLinks : Leaves key d d.dropOldLinks := by
  unfold Detector.dropOldLinks
  split_ifs
  · exact dropBlock d linksKey
  · exact refl d

theorem expire {now : ℚ} (hnow : d.clock = now) : Leaves key d (d.expire now) := by
  subst hnow
  refine ⟨?_, rfl, rfl, rfl, ?_, fun e he => ⟨e, he, .refl e⟩⟩
  · intro hnone
    show (d.blocks.eraseIf _).get? key = none
    rw [OrderedDict.get?_eraseIf, hnone]
    rfl
  · intro _ hheld
    show ((d.suppressed.eraseIf _).get? key).getD 0 = _
    rw [OrderedDict.get?_eraseIf]
    unfold HeldOff at hheld
    cases hget : d.suppressed.get? key with
    | none => rfl
    | some until_ =>
      rw [hget] at hheld
      have hlater : d.clock < until_ := hheld
      rw [Option.filter_some, if_pos (by simpa using hlater)]

theorem forgetOld : Leaves key d (d.forgetOld now) :=
  of_eq rfl rfl rfl rfl rfl rfl

theorem matchEvent : Leaves key d (d.matchEvent e) := by
  unfold Detector.matchEvent
  cases d.catching e with
  | none => exact refl d
  | some b =>
    have hupdate : Leaves key d (d.updateEvent e.id (d.caughtEvent b)) :=
      updateEvent d e.id (fun e => ⟨rfl, rfl, rfl, rfl, fun h => h⟩)
    refine hupdate.trans ?_
    show Leaves key _ (hitBlock _ b e.ts)
    unfold hitBlock
    cases hfind : (d.updateEvent e.id (d.caughtEvent b)).blocks.entries.find?
        (fun entry => entry.2 = b) with
    | none => exact refl _
    | some entry =>
      have hget := OrderedDict.get?_eq_some_iff.mpr (List.mem_of_find?_eq_some hfind)
      exact setBlock (Or.inr (by rw [hget]; rfl))

theorem rematch (judged : Option Event) : Leaves key d (d.rematch judged) := by
  unfold Detector.rematch
  cases judged with
  | none => exact refl d
  | some e =>
    show Leaves key d (if _ then d else _)
    split_ifs
    · exact refl d
    · exact matchEvent d _

end Leaves

/-! ### Keys of the passes -/

/-- The key is one for a text, for words or for repeats. -/
def messageKey (key : String) : Prop :=
  ∃ rest, key = "text:" ++ rest ∨ key = "words:" ++ rest ∨ key = "repeat:" ++ rest

theorem messageKey.head {key : String} (h : messageKey key) :
    key.toList.head? = some 't' ∨ key.toList.head? = some 'w' ∨ key.toList.head? = some 'r' := by
  obtain ⟨rest, rfl | rfl | rfl⟩ := h
  · left
    rw [String.toList_append]
    rfl
  · right; left
    rw [String.toList_append]
    rfl
  · right; right
    rw [String.toList_append]
    rfl

theorem ne_messageKey {key k : String} (h : messageKey key)
    (hk : k.toList.head? = some 'h' ∨ k.toList.head? = some 's' ∨ k.toList.head? = some 'l') :
    k ≠ key := by
  rintro rfl
  rcases h.head with h | h | h <;> rw [h] at hk <;> revert hk <;> decide

theorem mem_groupBy {α κ : Type} [DecidableEq κ] {f : α → κ} {xs : List α} {group : κ × List α}
    {x : α} (hgroup : group ∈ groupBy f xs) (hx : x ∈ group.2) : x ∈ xs ∧ f x = group.1 := by
  obtain ⟨k, _, rfl⟩ := List.mem_map.mp hgroup
  have h := List.mem_filter.mp hx
  exact ⟨h.1, of_decide_eq_true h.2⟩

/-- The key of the duplicate block that a message alone gives. -/
def copyKey (d : Detector) (P : Primitives) (T : TextTools) (e : Event) : Option String :=
  if e.exempt || d.allowSenders.contains e.sender then none
  else
    (d.duplicatePiece T e).map (fun piece =>
      textKey P (if d.tunables.dedupeScope = .same then e.sender ++ "|" ++ piece else piece))

/-- The key of the repeat block that a message gives when it is the last copy. -/
def repeatKey (d : Detector) (P : Primitives) (T : TextTools) (e : Event) : Option String :=
  (d.repeatedContent T e).map (fun content =>
    "repeat:" ++ digest P (e.sender ++ "|" ++ d.rulePiece content))

/-- What is asked for because of messages that were sent again with small changes. -/
def changedOrders (d : Detector) (P : Primitives) (T : TextTools) (recent : List Event) :
    List BlockOrder :=
  (groupBy (fun e => (e.norm, d.dedupeSlot e)) ((d.usableCopies recent).filter (fun e =>
    6 * d.tunables.dedupeMinChars ≤ 10 * e.norm.toList.length))).flatMap
    (fun group => d.resentOrders P T group.2)

variable {d : Detector} {recent : List Event} {o : BlockOrder} {P : Primitives} {T : TextTools}
  {now : ℚ} {window : List Event} {d' : Detector} {b : Block} (channel : String)

/-- A copy that counts is neither released nor exempt, and nobody trusted sent it. -/
theorem mem_usableCopies {e : Event}
    (h : e ∈ d.usableCopies recent) :
    e ∈ recent ∧ e.released = false ∧ e.exempt = false ∧ e.sender ∉ d.allowSenders := by
  obtain ⟨hmem, husable⟩ := List.mem_filter.mp h
  simp only [Bool.and_eq_true, Bool.not_eq_true'] at husable
  exact ⟨hmem, husable.1.1.2, husable.1.1.1, by simpa using husable.1.2⟩

/-- An order for duplicates comes from changed copies or from a copy with its key. -/
theorem mem_duplicateOrders
    {judged : Option ℕ} {freshSeconds : ℚ}
    (h : o ∈ d.duplicateOrders P T recent judged freshSeconds) :
    o ∈ d.changedOrders P T recent ∨
      ∃ e ∈ recent, e.released = false ∧ d.copyKey P T e = some o.key := by
  unfold duplicateOrders at h
  rcases List.mem_append.mp h with h | h
  · exact Or.inl h
  · right
    obtain ⟨group, hgroup, ho⟩ := List.mem_filterMap.mp h
    simp only at ho
    split_ifs at ho
    unfold holdOrder at ho
    cases hcopies : group.2 with
    | nil =>
      rw [hcopies] at ho
      cases ho
    | cons first rest =>
      obtain ⟨hmem, hslot⟩ := mem_groupBy hgroup (hcopies ▸ List.mem_cons_self : first ∈ group.2)
      obtain ⟨e, he, hfirst⟩ := List.mem_filterMap.mp hmem
      obtain ⟨piece, hpiece, rfl⟩ := Option.map_eq_some_iff.mp hfirst
      obtain ⟨hrecent, hreleased, hexempt, htrusted⟩ := mem_usableCopies he
      refine ⟨e, hrecent, hreleased, ?_⟩
      rw [hcopies] at ho
      simp only [List.map_cons, ← hslot] at ho
      have howner : ownerOf "duplicate" (e :: rest.map Prod.snd) = some e.sender := by
        simp [ownerOf]
      rw [howner] at ho
      simp only [Option.isNone_some, Bool.and_false, Bool.false_eq_true, if_false,
        Option.some.injEq] at ho
      rw [copyKey, if_neg (by simp [hexempt, htrusted]), hpiece, ← ho]
      cases d.tunables.dedupeScope <;> rfl

theorem mem_repeatOrders (h : o ∈ d.repeatOrders P T recent) :
    ∃ e ∈ recent, e.released = false ∧ d.repeatKey P T e = some o.key := by
  obtain ⟨group, hgroup, ho⟩ := List.mem_filterMap.mp h
  split_ifs at ho
  obtain ⟨last, hlast, rfl⟩ := Option.map_eq_some_iff.mp ho
  obtain ⟨hmem, hslot⟩ := mem_groupBy hgroup (List.mem_of_getLast? hlast)
  obtain ⟨e, he, hpair⟩ := List.mem_filterMap.mp hmem
  obtain ⟨content, hcontent, rfl⟩ := Option.map_eq_some_iff.mp hpair
  refine ⟨e, he, ?_, ?_⟩
  · by_contra hreleased
    rw [Bool.not_eq_false] at hreleased
    simp [repeatedContent, hreleased] at hcontent
  · rw [repeatKey, hcontent, ← hslot]
    rfl

theorem repeaterOrders_key {longWindow : List Event}
    (h : o ∈ d.repeaterOrders window longWindow now) :
    o.key.toList.head? = some 'h' := by
  obtain ⟨hop, _, ho⟩ := List.mem_filterMap.mp h
  split_ifs at ho
  obtain ⟨reason, _, rfl⟩ := Option.map_eq_some_iff.mp ho
  show ("hop:" ++ hop).toList.head? = some 'h'
  rw [String.toList_append]
  rfl

theorem rotationOrders_key
    (h : o ∈ d.rotationOrders window) : o.key.toList.head? = some 's' := by
  obtain ⟨group, _, ho⟩ := List.mem_filterMap.mp h
  have hkey : o.key = "suffix:" ++ joinPath group.1 := by
    simp only at ho
    split_ifs at ho <;> rw [← Option.some.inj ho]
  rw [hkey, String.toList_append]
  rfl

theorem lockdownOrders_key
    (h : o ∈ d.lockdownOrders window now) : o.key.toList.head? = some 'l' := by
  unfold lockdownOrders at h
  simp only at h
  split_ifs at h
  · rw [List.mem_singleton.mp h]
    rfl
  · exact absurd h List.not_mem_nil

theorem linkOrders_key (h : o ∈ d.linkOrders now) :
    o.key.toList.head? = some 'l' := by
  unfold linkOrders at h
  cases hmode : d.tunables.holdLinks with
  | always =>
    rw [hmode] at h
    rw [List.mem_singleton.mp h]
    rfl
  | campaign =>
    rw [hmode] at h
    simp only at h
    split_ifs at h
    · rw [List.mem_singleton.mp h]
      show linksKey.toList.head? = some 'l'
      rfl
    · exact absurd h List.not_mem_nil
  | off =>
    rw [hmode] at h
    exact absurd h List.not_mem_nil

/-! ### Nothing is left to make the block from -/

/-- No message that counts gives the key. -/
def NoCopies (P : Primitives) (T : TextTools) (key : String) (d : Detector) : Prop :=
  ∀ e ∈ d.events, e.released = false → d.copyKey P T e ≠ some key ∧ d.repeatKey P T e ≠ some key

/-- In a call now, neither a campaign nor copies that were sent again with small changes
ask for the key. -/
structure NoGroups (P : Primitives) (T : TextTools) (key : String) (d : Detector) : Prop where
  campaigns : d.tunables.enableTextRules = true →
    ∀ o ∈ (d.withCampaigns d.clock).allCampaignOrders P T, o.key ≠ key
  changed : d.tunables.dedupeEnabled = true →
    let corrected := (d.decideCampaigns P T d.clock).correctCampaigns
      ((d.decideCampaigns P T d.clock).longEvents d.clock) d.clock
    ∀ o ∈ corrected.changedOrders P T (corrected.eventsSince (max (corrected.longStart d.clock)
      (d.clock - d.tunables.dedupeSeconds))), o.key ≠ key

theorem tunables_congr (h : d'.config = d.config) : d'.tunables = d.tunables := by
  rw [tunables, tunables, h]

theorem rulePiece_congr (h : d'.config = d.config) (text : String) :
    d'.rulePiece text = d.rulePiece text := by
  rw [rulePiece, rulePiece, tunables_congr h]

/-- The keys that a message gives depend on nothing that a call changes. -/
theorem Leaves.noCopies (h : Leaves key d d')
    (hd : d.NoCopies P T key) : d'.NoCopies P T key := by
  intro e' he' hreleased'
  obtain ⟨e, he, hsame⟩ := h.events e' he'
  have hreleased : e.released = false := by
    by_contra hreleased
    rw [hsame.released (Bool.not_eq_false _ ▸ hreleased)] at hreleased'
    cases hreleased'
  have hcopy : d'.copyKey P T e' = d.copyKey P T e := by
    simp only [copyKey, duplicatePiece, rulePiece_congr h.config, tunables_congr h.config,
      h.allowSenders, hsame.exempt, hsame.sender, hsame.text]
  have hrepeat : d'.repeatKey P T e' = d.repeatKey P T e := by
    simp only [repeatKey, repeatedContent, rulePiece_congr h.config, h.allowSenders, hsame.exempt,
      hsame.sender, hsame.text, hreleased, hreleased']
  rw [hcopy, hrepeat]
  exact hd e he hreleased

/-- Why a key stays away in a call now. -/
def StaysAway (P : Primitives) (T : TextTools) (key : String) (d : Detector) : Prop :=
  d.HeldOff key ∨ (messageKey key ∧ d.NoCopies P T key ∧ d.NoGroups P T key)

/-- **One call** puts no block under a key that stays away. -/
theorem StaysAway.decide
    (h : d.StaysAway P T key) (hnone : d.blocks.get? key = none) (judged : Option Event)
    (freshSeconds : ℚ) :
    Leaves key d (d.decide P T judged freshSeconds) := by
  have hwant : ∀ {d' : Detector} {orders : List BlockOrder}, Leaves key d d' →
      (messageKey key → d'.NoCopies P T key → d.NoGroups P T key → ∀ o ∈ orders, o.key ≠ key) →
      Leaves key d' (d'.wantAll orders) := by
    intro d' orders hbefore hother
    apply Leaves.wantAll (hbefore.blocks hnone)
    rcases h with hheld | ⟨hmessage, hcopies, hgroups⟩
    · exact Or.inl (hbefore.heldOff hnone hheld)
    · exact Or.inr (hother hmessage (hbefore.noCopies hcopies) hgroups)
  -- the state before each pass, in the order of the passes
  unfold Detector.decide decideOthers
  extract_lets now campaigns corrected tun duplicates repeats repeaters learnt settled rotation links
    others
  have hfound : Leaves key d (d.withCampaigns now) := Leaves.withCampaigns d now
  have hcampaigns : Leaves key d campaigns :=
    hfound.trans (Leaves.stepIf fun hon => hwant hfound fun _ _ hgroups => hgroups.campaigns hon)
  have hcorrected : Leaves key d corrected :=
    hcampaigns.trans (Leaves.correctCampaigns (hcampaigns.blocks hnone) _ now)
  have htunables : tun = d.tunables := tunables_congr hcorrected.config
  have hduplicates : Leaves key d duplicates := by
    refine hcorrected.trans (Leaves.stepIf fun hon => hwant hcorrected ?_)
    intro _ hcopies hgroups o ho
    rcases mem_duplicateOrders ho with hchanged | ⟨e, he, hreleased, hkey⟩
    · refine hgroups.changed (htunables ▸ hon) o ?_
      rw [tunables_congr hcorrected.config] at hchanged
      exact hchanged
    · rintro rfl
      exact (hcopies e (List.mem_filter.mp he).1 hreleased).1 hkey
  have hrepeats : Leaves key d repeats := by
    refine hduplicates.trans (Leaves.stepIf fun _ => hwant hduplicates ?_)
    intro _ hcopies _ o ho
    obtain ⟨e, he, hreleased, hkey⟩ := mem_repeatOrders ho
    rintro rfl
    exact (hcopies e (List.mem_filter.mp he).1 hreleased).2 hkey
  have hrepeaters : Leaves key d repeaters :=
    hrepeats.trans (Leaves.stepIf fun _ => hwant hrepeats fun hmessage _ _ o ho =>
      ne_messageKey hmessage (Or.inl (repeaterOrders_key ho)))
  have hlearnt : Leaves key d learnt :=
    hrepeaters.trans (Leaves.foldl (fun d e _ => Leaves.learnPath d e) repeaters)
  have hsettled : Leaves key d settled :=
    hlearnt.trans (Leaves.foldl (fun d e _ => Leaves.settleOne d now e) learnt)
  have hrotation : Leaves key d rotation := by
    refine hsettled.trans (Leaves.stepIf fun _ => ?_)
    exact (hwant hsettled fun hmessage _ _ o ho =>
      ne_messageKey hmessage (Or.inr (Or.inl (rotationOrders_key ho)))).trans
        (Leaves.foldl (fun d e _ => Leaves.allowOriginOf d e) _)
  have hlinks : Leaves key d links := by
    have hdropped := hrotation.trans (Leaves.dropOldLinks rotation)
    exact hdropped.trans (hwant hdropped fun hmessage _ _ o ho =>
      ne_messageKey hmessage (Or.inr (Or.inr (linkOrders_key ho))))
  have hothers : Leaves key d others :=
    hlinks.trans (Leaves.stepIf fun _ => hwant hlinks fun hmessage _ _ o ho =>
      ne_messageKey hmessage (Or.inr (Or.inr (lockdownOrders_key ho))))
  have hexpired : Leaves key d (others.expire now) :=
    hothers.trans (Leaves.expire others hothers.clock)
  exact (hexpired.trans (Leaves.forgetOld _ now)).trans (Leaves.rematch _ judged)

/-! ### Runs of `decide` -/

/-- A call of `decide`. -/
structure DecideCall where
  now : ℚ
  judged : Option Event := none
  freshSeconds : ℚ := 0

def DecideStep (P : Primitives) (T : TextTools) (d : Detector) (c : DecideCall) (d' : Detector) :
    Prop :=
  d.clock ≤ c.now ∧ d' = d.call P T c.now (.decide c.judged c.freshSeconds)

abbrev DecideEvent := Lib.Event Detector DecideCall

/-- The call finds neither a campaign nor changed copies that ask for the key. -/
def FindsNoGroups (P : Primitives) (T : TextTools) (key : String) (ev : DecideEvent) : Prop :=
  NoGroups P T key { ev.pre with clock := ev.label.now }

/-- The release of a block marks every message that gives its key. -/
structure Forgives (P : Primitives) (T : TextTools) (key : String) (b : Block) (d : Detector) :
    Prop where
  message : messageKey key
  copies : ∀ e ∈ d.events, e.released = false →
    (d.copyKey P T e = some key ∨ d.repeatKey P T e = some key) → b.marks e

theorem Forgives.noCopies
    (h : d.Forgives P T key b) : ((d.dropBlock key).release b).NoCopies P T key := by
  intro e' he' hreleased
  obtain ⟨e, he, rfl⟩ := List.mem_map.mp he'
  replace he : e ∈ d.events := he
  split_ifs at hreleased ⊢ with hmarks
  have hunmarked : ¬ (d.copyKey P T e = some key ∨ d.repeatKey P T e = some key) :=
    fun hkey => hmarks (h.copies e he hreleased hkey)
  exact not_or.mp hunmarked

/-- There is no block, and what keeps the key away is there: the copies are released, or
the key is held off until a time. -/
structure Away (P : Primitives) (T : TextTools) (key : String) (b : Block) (until_ : ℚ)
    (d : Detector) : Prop where
  none : d.blocks.get? key = none
  copies : b.source.onlyRepeats = true → messageKey key ∧ d.NoCopies P T key
  held : b.source.onlyRepeats = false → (d.suppressed.get? key).getD 0 = until_

theorem away_doUnblock
    (hget : d.blocks.get? key = some b) (hlockdown : b.source ≠ .lockdown)
    (hforgives : b.source.onlyRepeats = true → d.Forgives P T key b) :
    Away P T key b (d.clock + suppressSeconds) (d.doUnblock key suppressSeconds) := by
  have hnone : (d.dropBlock key).blocks.get? key = Option.none := by
    show (d.blocks.erase key).get? key = Option.none
    rw [OrderedDict.get?_erase, if_pos rfl]
  have hunblock : d.doUnblock key suppressSeconds =
      if b.source.onlyRepeats then (d.dropBlock key).release b
      else (d.dropBlock key).suppress key (d.clock + suppressSeconds) := by
    rw [doUnblock, hget]
    simp only [if_neg hlockdown]
  rw [hunblock]
  split_ifs with hrepeats
  · exact ⟨hnone, fun _ => ⟨(hforgives hrepeats).message, (hforgives hrepeats).noCopies⟩,
      fun hother => absurd hrepeats (by rw [hother]; decide)⟩
  · refine ⟨hnone, fun hother => absurd hother hrepeats, fun _ => ?_⟩
    show ((d.suppressed.set key (d.clock + suppressSeconds)).get? key).getD 0 = _
    rw [OrderedDict.get?_set_self]
    rfl

/-- One call before the key comes back. -/
theorem Away.step {until_ : ℚ} {ev : DecideEvent}
    (h : Away P T key b until_ ev.pre) (hstep : DecideStep P T ev.pre ev.label ev.post)
    (hsoon : ev.label.now < until_)
    (hgroups : b.source.onlyRepeats = true → FindsNoGroups P T key ev) :
    Away P T key b until_ ev.post := by
  let later : Detector := { ev.pre with clock := ev.label.now }
  have hstays : later.StaysAway P T key := by
    cases hrepeats : b.source.onlyRepeats with
    | true => exact Or.inr ⟨(h.copies hrepeats).1, (h.copies hrepeats).2, hgroups hrepeats⟩
    | false =>
      left
      show ev.label.now < (ev.pre.suppressed.get? key).getD 0
      rw [h.held hrepeats]
      exact hsoon
  have hleaves := hstays.decide h.none ev.label.judged ev.label.freshSeconds
  rw [hstep.2]
  refine ⟨hleaves.blocks h.none, fun hrepeats => ?_, fun hrepeats => ?_⟩
  · exact ⟨(h.copies hrepeats).1, hleaves.noCopies (h.copies hrepeats).2⟩
  · have hheld : later.HeldOff key := by
      show ev.label.now < (ev.pre.suppressed.get? key).getD 0
      rw [h.held hrepeats]
      exact hsoon
    exact (hleaves.held h.none hheld).trans (h.held hrepeats)

/-- **An unblock sticks.** After an automatic block is removed, no call of `decide` puts
a block under its key before a day is over; for a block on duplicates or repeats this
needs that its release marks every message that gives the key, and that no call finds a
campaign or changed copies that give it. -/
theorem unblock_sticks {P : Primitives} {T : TextTools} {d d' : Detector} {b : Block}
    {h : List DecideEvent} (hget : d.blocks.get? key = some b)
    (hlockdown : b.source ≠ .lockdown)
    (hrun : Run (DecideStep P T) (d.doUnblock key suppressSeconds) h d')
    (hsoon : ∀ ev ∈ h, ev.label.now < d.clock + suppressSeconds)
    (hforgives : b.source.onlyRepeats = true →
      d.Forgives P T key b ∧ ∀ ev ∈ h, FindsNoGroups P T key ev) :
    ∀ ev ∈ h, ev.post.blocks.get? key = none := by
  intro ev hev
  obtain ⟨before, after, rfl⟩ := List.append_of_mem hev
  obtain ⟨hbefore, hstep, _⟩ := hrun.at_event
  have hstart := away_doUnblock hget hlockdown (fun hrepeats => (hforgives hrepeats).1)
  let allowed : DecideEvent → Prop := fun ev => ev.label.now < d.clock + suppressSeconds ∧
    (b.source.onlyRepeats = true → FindsNoGroups P T key ev)
  have hallowed : ∀ e ∈ before ++ ev :: after, allowed e :=
    fun e he => ⟨hsoon e he, fun hrepeats => (hforgives hrepeats).2 e he⟩
  have hpre : Away P T key b (d.clock + suppressSeconds) ev.pre :=
    hbefore.invariant (C := allowed) (fun e he => hallowed e (List.mem_append_left _ he))
      (fun e hstep hC hpre => hpre.step hstep hC.1 hC.2) hstart
  exact (hpre.step hstep (hallowed ev hev).1 (hallowed ev hev).2).none

/-! ### The same text on one channel, and on two -/

def spamText : String := "free tokens"

/-- Its hash is the only one that the example needs. -/
def spamPrimitives : Primitives :=
  fixedPrimitives
    [0x82, 0x01, 0x60, 0xb2, 0xcc, 0x13, 0x47, 0x03, 0x8d, 0x14, 0x35, 0x78, 0x0e, 0xe6, 0x24, 0x52,
      0x0e, 0x9d, 0xb8, 0x76, 0x0c, 0xaa, 0x9c, 0x93, 0xd8, 0xae, 0x22, 0x7a, 0x02, 0x4b, 0xc3, 0xb8]

def spamKey : String := "text:820160b2cc"

/-- Duplicates count from ten characters on. -/
def shortConfig : SpamConfig := { tunables := { dedupeMinChars := 10 } }

/-- Two people send the text, the second one on the channel given. -/
@[irreducible] def sentTwice (channel : String) : Detector :=
  (((start shortConfig 0).call spamPrimitives plainTools 10
    (.ingest { ts := 10, path := ["AA"], sender := "alice", text := spamText, channel := "C1" })).call
    spamPrimitives plainTools 20
    (.ingest { ts := 20, path := ["BB"], sender := "bob", text := spamText, channel := channel })).call
    spamPrimitives plainTools 30 (.decide none 0)

/-- The call of `decide` after the block was removed. -/
def decideAgain (channel : String) : DecideEvent where
  pre := (sentTwice channel).doUnblock spamKey suppressSeconds
  label := { now := 40 }
  post := ((sentTwice channel).doUnblock spamKey suppressSeconds).call spamPrimitives plainTools 40
    (.decide none 0)

theorem ingest_clock (d : Detector) (P : Primitives) (T : TextTools) (now : ℚ) (m : Message) :
    (d.call P T now (.ingest m)).clock = now :=
  (@edits_ingest (fun _ => True) (fun _ _ => True) { d with clock := now } T m).clock

theorem reachable_sentTwice :
    Reachable spamPrimitives plainTools (sentTwice channel) := by
  unfold sentTwice
  have hfirst : (Detector.start shortConfig 0).clock ≤ 10 := by
    show (0 : ℚ) ≤ 10
    norm_num
  refine .call (.call (.call (.start shortConfig 0) hfirst _) (?_ : _ ≤ (20 : ℚ)) _)
    (?_ : _ ≤ (30 : ℚ)) _
  · rw [ingest_clock]
    norm_num
  · rw [ingest_clock]
    norm_num

theorem decide_clock (d : Detector) (P : Primitives) (T : TextTools) (now : ℚ)
    (judged : Option Event) (freshSeconds : ℚ) :
    (d.call P T now (.decide judged freshSeconds)).clock = now :=
  (@edits_decide (fun _ _ => True) { d with clock := now } P T judged freshSeconds
    (fun _ _ => trivial)).clock

theorem sentTwice_clock : (sentTwice channel).clock = 30 := by
  unfold sentTwice
  exact decide_clock _ _ _ _ _ _

theorem doUnblock_clock (d : Detector) (key : String) (seconds : ℚ) :
    (d.doUnblock key seconds).clock = d.clock := by
  unfold doUnblock
  cases d.blocks.get? key with
  | none => rfl
  | some b =>
    simp only
    split_ifs <;> rfl

theorem decideAgain_step :
    DecideStep spamPrimitives plainTools (decideAgain channel).pre (decideAgain channel).label
      (decideAgain channel).post := by
  simp only [DecideStep, decideAgain, and_true]
  rw [doUnblock_clock, sentTwice_clock]
  norm_num

theorem decideAgain_now :
    ∀ ev ∈ [decideAgain channel], ev.label.now < (sentTwice channel).clock + suppressSeconds := by
  intro ev hev
  rw [List.mem_singleton.mp hev, sentTwice_clock]
  show (40 : ℚ) < 30 + (86400 : ℕ)
  norm_num

/-- The copy that is not released makes the block again. -/
theorem not_forall_unblock_sticks :
    ¬ ∀ (P : Primitives) (T : TextTools) (d d' : Detector) (key : String) (b : Block)
      (h : List DecideEvent), Reachable P T d → d.blocks.get? key = some b →
      b.source ≠ .manual → b.source ≠ .lockdown →
      Run (DecideStep P T) (d.doUnblock key suppressSeconds) h d' →
      (∀ ev ∈ h, ev.label.now < d.clock + suppressSeconds) →
      ∀ ev ∈ h, ev.post.blocks.get? key = none := by
  intro hall
  have hblock : ((sentTwice "C2").blocks.get? spamKey).any (fun b => b.source = .dedupe) = true := by
    decide +kernel
  obtain ⟨b, hget, hsource⟩ := (Option.any_eq_true _ _).mp hblock
  have hdedupe : b.source = .dedupe := of_decide_eq_true hsource
  have hgone := hall spamPrimitives plainTools (sentTwice "C2") _ spamKey b [decideAgain "C2"]
    (reachable_sentTwice "C2") hget (by rw [hdedupe]; decide) (by rw [hdedupe]; decide)
    (Run.single (decideAgain_step "C2"))
    (decideAgain_now "C2") (decideAgain "C2") (List.mem_singleton_self _)
  have hback : ((decideAgain "C2").post.blocks.get? spamKey).isSome = true := by decide +kernel
  rw [hgone, Option.isSome_none] at hback
  exact Bool.false_ne_true hback

/-- Copies on the block's channel are all released. -/
theorem unblock_sticks_oneChannel :
    ((sentTwice "C1").blocks.get? spamKey).isSome = true ∧
      (decideAgain "C1").post.blocks.get? spamKey = none := by
  have hblock : ((sentTwice "C1").blocks.get? spamKey).any (fun b => b.source = .dedupe &&
      (sentTwice "C1").events.all (fun e => Decidable.decide (b.marks e))) = true := by
    decide +kernel
  obtain ⟨b, hget, hsource⟩ := (Option.any_eq_true _ _).mp hblock
  obtain ⟨hdedupe, hmarks⟩ := Bool.and_eq_true_iff.mp hsource
  have hforgives : (sentTwice "C1").Forgives spamPrimitives plainTools spamKey b :=
    ⟨⟨"820160b2cc", Or.inl (by decide)⟩,
      fun e he _ _ => of_decide_eq_true (List.all_eq_true.mp hmarks e he)⟩
  have hgroups : FindsNoGroups spamPrimitives plainTools spamKey (decideAgain "C1") :=
    ⟨fun _ => by decide +kernel, fun _ => by decide +kernel⟩
  refine ⟨by rw [hget]; rfl, ?_⟩
  exact unblock_sticks hget (by rw [of_decide_eq_true hdedupe]; decide) (Run.single (decideAgain_step "C1"))
    (decideAgain_now "C1")
    (fun _ => ⟨hforgives, fun ev hev => by rw [List.mem_singleton.mp hev]; exact hgroups⟩)
    (decideAgain "C1") (List.mem_singleton_self _)

end Detector

end RtfmEv.Spam
