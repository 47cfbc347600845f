import Mathlib.Tactic.Linarith
import RtfmEv.Atak.Reassembly

/-!
# Order independence of reassembly

Over the table of open keys stands what each key gathers on its own: the parts
since its last completion, given up when the first of them is too old. As long
as no more keys are open than the table holds, the table answers each call as
the key's own gathering does, whatever the other keys, repeats and late repeats
among them, are doing.
-/

namespace RtfmEv.Atak

open RtfmEv.Lib

/-! ## What a key gathers on its own -/

/-- The parts of a key since its last completion, and when the first came. -/
structure Gathering where
  started : ℚ
  seqs : Finset ℕ

/-- The gathering with one more part; one that is too old is started again. -/
def Gathering.with (ttlS now : ℚ) (seq : ℕ) (g : Option Gathering) : Gathering :=
  match g.filter (fun g => decide (now - g.started ≤ ttlS)) with
  | none => ⟨now, {seq}⟩
  | some g => ⟨g.started, insert seq g.seqs⟩

/-- What is left open after one more part. -/
def deliver (ttlS : ℚ) (total : ℕ) (g : Option Gathering) (part : ℚ × ℕ) : Option Gathering :=
  let g := Gathering.with ttlS part.1 part.2 g
  if g.seqs.card < total then some g else none

/-- When which parts of a key come in. -/
def deliveries (k : Key) (h : List (ℚ × Call)) : List (ℚ × ℕ) :=
  h.filterMap (fun call => (call.2.delivery?.filter (fun d => d.key = k)).map
    (fun d => (call.1, d.seq)))

/-- What a key has gathered in a run. -/
def gather (ttlS : ℚ) (k : Key) (h : List (ℚ × Call)) : Option Gathering :=
  (deliveries k h).foldl (deliver ttlS k.total) none

/-- The keys of a run, open or not. -/
def keysOf (h : List (ℚ × Call)) : List Key :=
  h.filterMap (fun call => call.2.delivery?.map Delivery.key)

/-- The keys that are still waiting for parts. -/
def openKeys (ttlS now : ℚ) (h : List (ℚ × Call)) : Finset Key :=
  (keysOf h).toFinset.filter
    (fun k => (gather ttlS k h).any (fun g => decide (now - g.started ≤ ttlS)))

/-- The numbers of the parts of a key that came in. -/
def received (k : Key) (h : List (ℚ × Call)) : Finset ℕ :=
  ((deliveries k h).map Prod.snd).toFinset

/-- Every part of the key came in. -/
def Complete (k : Key) (h : List (ℚ × Call)) : Prop := received k h = Finset.Icc 1 k.total

instance (k : Key) (h : List (ℚ × Call)) : Decidable (Complete k h) :=
  inferInstanceAs (Decidable (_ = _))

/-! ## The runs the reassembler is meant for -/

/-- The clock never goes back. -/
def Ordered (h : List (ℚ × Call)) : Prop := h.Pairwise (fun a b => a.1 ≤ b.1)

/-- Every part that comes in is a part of its key's message. -/
def PartsOf (M : Messages) (h : List (ℚ × Call)) : Prop :=
  ∀ call ∈ h, ∀ d, call.2.delivery? = some d →
    d.seq ∈ Finset.Icc 1 d.key.total ∧ d.data = M d.key d.seq

/-- At most `max_pending` keys are open at once. -/
def HasRoom (c : Config) (h : List (ℚ × Call)) : Prop :=
  ∀ pre call, pre ++ [call] <+: h → (openKeys c.ttlS call.1 (pre ++ [call])).card ≤ c.maxPending

/-- All parts of the key arrive within `ttl_s` of its first. -/
def InTime (ttlS : ℚ) (k : Key) (h : List (ℚ × Call)) : Prop :=
  ∀ first ∈ (deliveries k h).head?, ∀ part ∈ deliveries k h, part.1 - first.1 ≤ ttlS

/-- No part of the key comes in after it is complete. -/
def RepeatsBefore (k : Key) (h : List (ℚ × Call)) : Prop :=
  ∀ pre call d, pre ++ [call] <+: h → call.2.delivery? = some d → d.key = k → ¬Complete k pre

variable {h' h : List (ℚ × Call)} {k : Key} {g : Gathering} {s : State} {M : Messages} {c : Config}
  {ttlS now : ℚ} {call : Call} {maxPending i : ℕ}

theorem Ordered.of_prefix (ho : Ordered h) (hp : h' <+: h) : Ordered h' :=
  List.Pairwise.sublist hp.sublist ho

theorem PartsOf.of_prefix (hparts : PartsOf M h) (hp : h' <+: h) : PartsOf M h' :=
  fun call hc => hparts call (hp.subset hc)

theorem HasRoom.of_prefix (hroom : HasRoom c h) (hp : h' <+: h) : HasRoom c h' :=
  fun pre call hpre => hroom pre call (hpre.trans hp)

theorem InTime.of_prefix (hin : InTime ttlS k h) (hp : h' <+: h) : InTime ttlS k h' := by
  obtain ⟨t, rfl⟩ := hp
  have hsplit : deliveries k (h' ++ t) = deliveries k h' ++ deliveries k t := List.filterMap_append
  intro first hfirst part hpart
  apply hin first _ part (hsplit ▸ List.mem_append_left _ hpart)
  rw [hsplit, List.head?_append, hfirst]
  rfl

theorem RepeatsBefore.of_prefix (hrep : RepeatsBefore k h) (hp : h' <+: h) : RepeatsBefore k h' :=
  fun pre call d hpre => hrep pre call d (hpre.trans hp)

/-! ### One more call -/

theorem deliveries_append (k : Key) (h h' : List (ℚ × Call)) :
    deliveries k (h ++ h') = deliveries k h ++ deliveries k h' := List.filterMap_append

theorem deliveries_of_key (now : ℚ) {d : Delivery} (hd : call.delivery? = some d) (hk : d.key = k) :
    deliveries k [(now, call)] = [(now, d.seq)] := by
  simp [deliveries, hd, hk]

theorem deliveries_of_ne (now : ℚ) {d : Delivery}
    (hd : call.delivery? = some d) (hk : d.key ≠ k) : deliveries k [(now, call)] = [] := by
  simp [deliveries, hd, hk]

theorem deliveries_of_none (now : ℚ) (hd : call.delivery? = none) :
    deliveries k [(now, call)] = [] := by
  simp [deliveries, hd]

theorem gather_concat (ttlS : ℚ) (k : Key) (h : List (ℚ × Call)) (call : ℚ × Call) :
    gather ttlS k (h ++ [call]) =
      (deliveries k [call]).foldl (deliver ttlS k.total) (gather ttlS k h) := by
  rw [gather, deliveries_append, List.foldl_append]
  rfl

theorem mem_keysOf_of_gather (hg : gather ttlS k h = some g) : k ∈ keysOf h := by
  have hne : deliveries k h ≠ [] := by
    intro hnil
    rw [gather, hnil] at hg
    cases hg
  obtain ⟨part, hpart⟩ := List.exists_mem_of_ne_nil _ hne
  obtain ⟨call, hcall, hdel⟩ := List.mem_filterMap.mp hpart
  obtain ⟨d, hd, -⟩ := Option.map_eq_some_iff.mp hdel
  obtain ⟨hd, hk⟩ := Option.filter_eq_some_iff.mp hd
  exact List.mem_filterMap.mpr ⟨call, hcall, by simpa [hd] using hk⟩

theorem mem_openKeys :
    k ∈ openKeys ttlS now h ↔ ∃ g, gather ttlS k h = some g ∧ now - g.started ≤ ttlS := by
  rw [openKeys, Finset.mem_filter, List.mem_toFinset, Option.any_eq_true]
  constructor
  · rintro ⟨-, g, hg, hlive⟩
    exact ⟨g, hg, of_decide_eq_true hlive⟩
  · rintro ⟨g, hg, hlive⟩
    exact ⟨mem_keysOf_of_gather hg, g, hg, decide_eq_true hlive⟩

/-! ## Safety: only whole messages come out -/

/-- Every stored part is a part of its key's message. -/
def Sound (M : Messages) (s : State) : Prop :=
  ∀ k p, s.pending.get? k = some p → PartsIn M k p.parts

theorem get?_expire (c : Config) (now : ℚ) (s : State) (k : Key) :
    (expire c now s).pending.get? k =
      (s.pending.get? k).filter (fun p => decide (now - p.created ≤ c.ttlS)) := by
  show (s.pending.eraseIf _).get? k = _
  rw [OrderedDict.get?_eraseIf]
  simp only [← decide_not, not_lt]

theorem Sound.after_expire (hs : Sound M s) (c : Config) (now : ℚ) : Sound M (expire c now s) := by
  intro k p hp
  rw [get?_expire] at hp
  exact hs k p (Option.filter_eq_some_iff.mp hp).1

theorem makeRoom_get? {n : ℕ} {d d' : OrderedDict Key Pending}
    (h : makeRoom maxPending n d = some d') (k : Key) (p : Pending) (hp : d'.get? k = some p) :
    d.get? k = some p := by
  induction n generalizing d with
  | zero =>
    rw [makeRoom] at h
    split_ifs at h
    exact Option.some.inj h ▸ hp
  | succ n ih =>
    rw [makeRoom] at h
    split_ifs at h
    · exact Option.some.inj h ▸ hp
    · obtain ⟨k', -, hrest⟩ := Option.bind_eq_some_iff.mp h
      have hleft := ih hrest
      rw [OrderedDict.get?_erase] at hleft
      split_ifs at hleft
      exact hleft

theorem makeRoom_of_lt {d : OrderedDict Key Pending} (n : ℕ)
    (h : d.size < maxPending) : makeRoom maxPending n d = some d := by
  cases n with
  | zero => exact if_pos h
  | succ n => exact if_pos h

/-- A part goes in under a key: nothing but the key's own message comes out. -/
theorem put_sound (hs : Sound M s) {p : Pending}
    (hp : PartsIn M k p.parts) (hi : i ∈ Finset.Icc 1 k.total) :
    Sound M (put k i k.total (M k i) p s).1 ∧
      ((put k i k.total (M k i) p s).2 = .ok none ∨
        (put k i k.total (M k i) p s).2 = .ok (some (frameOf M k))) := by
  rw [put_eq s hp hi]
  split_ifs
  · refine ⟨?_, Or.inl rfl⟩
    intro k' p' hp'
    rw [OrderedDict.get?_set] at hp'
    split_ifs at hp' with hk
    · rw [hk, ← Option.some.inj hp']
      exact hp.set hi
    · exact hs k' p' hp'
  · refine ⟨?_, Or.inr rfl⟩
    intro k' p' hp'
    rw [OrderedDict.get?_erase] at hp'
    split_ifs at hp'
    exact hs k' p' hp'

theorem frameOf_of_total_one (M : Messages) (h : k.total = 1) : frameOf M k = M k 1 := by
  simp [frameOf, h]

theorem add_sound (c : Config) (now : ℚ) {M : Messages} (hs : Sound M s) (hi : i ∈ Finset.Icc 1 k.total) :
    Sound M (add c now k i k.total (M k i) s).1 ∧
      ∀ b, (add c now k i k.total (M k i) s).2 = .ok (some b) → b = frameOf M k := by
  have hs' := hs.after_expire c now
  unfold add
  dsimp only
  split_ifs with hone
  · refine ⟨hs', ?_⟩
    intro b hb
    have hi1 : i = 1 := by
      rw [hone, Finset.mem_Icc] at hi
      omega
    cases hb
    rw [frameOf_of_total_one M hone, hi1]
  · have hput : ∀ p s', PartsIn M k p.parts → Sound M s' →
        Sound M (put k i k.total (M k i) p s').1 ∧
          ∀ b, (put k i k.total (M k i) p s').2 = .ok (some b) → b = frameOf M k := by
      intro p s' hp hs'
      obtain ⟨hsound, hans⟩ := put_sound hs' hp hi
      refine ⟨hsound, ?_⟩
      intro b hb
      rcases hans with hans | hans
      · rw [hans] at hb
        cases hb
      · rw [hans] at hb
        cases hb
        rfl
    cases hget : (expire c now s).pending.get? k with
    | some p => exact hput p _ (hs' k p hget) hs'
    | none =>
      dsimp only
      cases hroom : makeRoom c.maxPending (expire c now s).pending.size
          (expire c now s).pending with
      | none =>
        constructor
        · intro k' p' hp'
          cases hp'
        · intro b hb
          cases hb
      | some d =>
        exact hput _ _ (PartsIn.empty M k)
          (fun k' p' hp' => hs' k' p' (makeRoom_get? hroom k' p' hp'))

/-! ## The table follows the gatherings -/

theorem Gathering.with_of_live {seq : ℕ} (h : now - g.started ≤ ttlS) :
    Gathering.with ttlS now seq (some g) = ⟨g.started, insert seq g.seqs⟩ := by
  simp [Gathering.with, Option.filter, h]

theorem Gathering.with_of_not_live (seq : ℕ) {g : Option Gathering}
    (h : ∀ x, g = some x → ¬now - x.started ≤ ttlS) :
    Gathering.with ttlS now seq g = ⟨now, {seq}⟩ := by
  cases g with
  | none => rfl
  | some x =>
    have hx := h x rfl
    simp only [Gathering.with, Option.filter, decide_eq_false hx]
    rfl

theorem Gathering.with_pos (ttlS now : ℚ) (seq : ℕ) (g : Option Gathering) :
    0 < (Gathering.with ttlS now seq g).seqs.card := by
  apply Finset.card_pos.mpr
  refine ⟨seq, ?_⟩
  unfold Gathering.with
  cases g.filter (fun g => decide (now - g.started ≤ ttlS)) with
  | none => exact Finset.mem_singleton_self seq
  | some g => exact Finset.mem_insert_self seq g.seqs

/-- What is open has some of its parts and not all. -/
theorem card_of_gather
    (hg : gather ttlS k h = some g) : 0 < g.seqs.card ∧ g.seqs.card < k.total := by
  unfold gather at hg
  generalize deliveries k h = l at hg
  induction l using List.reverseRecOn with
  | nil => cases hg
  | append_singleton l part _ =>
    rw [List.foldl_append, List.foldl_cons, List.foldl_nil, deliver] at hg
    split_ifs at hg with hopen
    rw [← Option.some.inj hg]
    exact ⟨Gathering.with_pos .., hopen⟩

/-- The table holds the gatherings that are not too old at `now`, and nothing else. -/
structure Tracks (c : Config) (M : Messages) (h : List (ℚ × Call)) (now : ℚ) (s : State) : Prop where
  kept : ∀ k p, s.pending.get? k = some p →
    PartsIn M k p.parts ∧ gather c.ttlS k h = some ⟨p.created, seqs p.parts⟩
  present : ∀ k g, gather c.ttlS k h = some g → now - g.started ≤ c.ttlS →
    ∃ p, s.pending.get? k = some p

theorem Tracks.empty (c : Config) (M : Messages) (now : ℚ) : Tracks c M [] now State.empty where
  kept k p hp := by cases hp
  present k g hg := by cases hg

theorem Tracks.later {now' : ℚ}
    (ht : Tracks c M h now s) (hle : now ≤ now') : Tracks c M h now' s where
  kept := ht.kept
  present k g hg hlive := ht.present k g hg (by linarith)

theorem Tracks.after_expire (ht : Tracks c M h now s) : Tracks c M h now (expire c now s) where
  kept k p hp := by
    rw [get?_expire] at hp
    exact ht.kept k p (Option.filter_eq_some_iff.mp hp).1
  present k g hg hlive := by
    obtain ⟨p, hp⟩ := ht.present k g hg hlive
    refine ⟨p, ?_⟩
    have hsame : g = ⟨p.created, seqs p.parts⟩ :=
      Option.some.inj (hg.symm.trans (ht.kept k p hp).2)
    rw [hsame] at hlive
    rw [get?_expire, hp]
    simp [Option.filter, hlive]

theorem live_of_expire {p : Pending}
    (hp : (expire c now s).pending.get? k = some p) : now - p.created ≤ c.ttlS := by
  rw [get?_expire] at hp
  exact of_decide_eq_true (Option.filter_eq_some_iff.mp hp).2

theorem Tracks.of_none
    (ht : Tracks c M h now s) {call : ℚ × Call} (hnone : call.2.delivery? = none) :
    Tracks c M (h ++ [call]) now s := by
  have hsame : ∀ k, gather c.ttlS k (h ++ [call]) = gather c.ttlS k h := by
    intro k
    rw [gather_concat, deliveries_of_none call.1 hnone]
    rfl
  constructor
  · intro k p hp
    rw [hsame]
    exact ht.kept k p hp
  · intro k g hg
    rw [hsame] at hg
    exact ht.present k g hg

section

variable {c : Config} {M : Messages} {h : List (ℚ × Call)} {now : ℚ} {call : Call} {d : Delivery}
  {s s' : State}

theorem gather_of_key (hd : call.delivery? = some d) :
    gather c.ttlS d.key (h ++ [(now, call)]) =
      deliver c.ttlS d.key.total (gather c.ttlS d.key h) (now, d.seq) := by
  rw [gather_concat, deliveries_of_key now hd rfl]
  rfl

theorem gather_of_ne (hd : call.delivery? = some d) {k : Key} (hk : k ≠ d.key) :
    gather c.ttlS k (h ++ [(now, call)]) = gather c.ttlS k h := by
  rw [gather_concat, deliveries_of_ne now hd hk.symm]
  rfl

/-- The table after a part of one key: the key's own entry is as its gathering
says, the others are as they were. -/
theorem Tracks.of_key (ht : Tracks c M h now s) (hd : call.delivery? = some d)
    (hothers : ∀ k, k ≠ d.key → s'.pending.get? k = s.pending.get? k)
    (hself : ∀ p, s'.pending.get? d.key = some p → PartsIn M d.key p.parts ∧
      gather c.ttlS d.key (h ++ [(now, call)]) = some ⟨p.created, seqs p.parts⟩)
    (hthere : ∀ g, gather c.ttlS d.key (h ++ [(now, call)]) = some g →
      ∃ p, s'.pending.get? d.key = some p) :
    Tracks c M (h ++ [(now, call)]) now s' := by
  constructor
  · intro k p hp
    by_cases hk : k = d.key
    · subst hk
      exact hself p hp
    · rw [hothers k hk] at hp
      rw [gather_of_ne hd hk]
      exact ht.kept k p hp
  · intro k g hg hlive
    by_cases hk : k = d.key
    · subst hk
      exact hthere g hg
    · rw [gather_of_ne hd hk] at hg
      rw [hothers k hk]
      exact ht.present k g hg hlive

/-- A part joins the entry of its key. -/
theorem Tracks.after_put (ht : Tracks c M h now s) (hd : call.delivery? = some d)
    (hseq : d.seq ∈ Finset.Icc 1 d.key.total) {p : Pending} (hparts : PartsIn M d.key p.parts)
    (hothers : ∀ k, k ≠ d.key → s'.pending.get? k = s.pending.get? k)
    (hwith : Gathering.with c.ttlS now d.seq (gather c.ttlS d.key h) =
      ⟨p.created, insert d.seq (seqs p.parts)⟩) :
    Tracks c M (h ++ [(now, call)]) now
        (put d.key d.seq d.key.total (M d.key d.seq) p s').1 ∧
      (put d.key d.seq d.key.total (M d.key d.seq) p s').2 =
        .ok (if (Gathering.with c.ttlS now d.seq (gather c.ttlS d.key h)).seqs.card < d.key.total
          then none else some (frameOf M d.key)) := by
  have hgather : gather c.ttlS d.key (h ++ [(now, call)]) =
      deliver c.ttlS d.key.total (gather c.ttlS d.key h) (now, d.seq) := gather_of_key hd
  rw [deliver, hwith] at hgather
  rw [put_eq s' hparts hseq, hwith]
  dsimp only at hgather ⊢
  split_ifs with hopen
  · rw [if_pos hopen] at hgather
    refine ⟨?_, rfl⟩
    apply ht.of_key hd
    · intro k hk
      rw [OrderedDict.get?_set_of_ne hk]
      exact hothers k hk
    · intro p' hp'
      rw [OrderedDict.get?_set_self] at hp'
      rw [← Option.some.inj hp', hgather]
      exact ⟨hparts.set hseq, by rw [seqs_set]⟩
    · intro g _
      exact ⟨_, OrderedDict.get?_set_self _ _ _⟩
  · rw [if_neg hopen] at hgather
    refine ⟨?_, rfl⟩
    apply ht.of_key hd
    · intro k hk
      rw [OrderedDict.get?_erase_of_ne hk]
      exact hothers k hk
    · intro p' hp'
      rw [OrderedDict.get?_erase, if_pos rfl] at hp'
      cases hp'
    · intro g hg
      rw [hgather] at hg
      cases hg

/-- A new key fits into the table when the open keys do. -/
theorem size_lt_of_room (ht : Tracks c M h now s) (hd : call.delivery? = some d)
    (hlive : ∀ k p, s.pending.get? k = some p → now - p.created ≤ c.ttlS)
    (habsent : s.pending.get? d.key = none)
    (hopen : ∃ g, gather c.ttlS d.key (h ++ [(now, call)]) = some g ∧ now - g.started ≤ c.ttlS)
    (hroom : (openKeys c.ttlS now (h ++ [(now, call)])).card ≤ c.maxPending) :
    s.pending.size < c.maxPending := by
  have hnot : d.key ∉ s.pending.keys.toFinset := by
    rw [List.mem_toFinset]
    exact OrderedDict.get?_eq_none_iff.mp habsent
  have hsub : insert d.key s.pending.keys.toFinset ⊆ openKeys c.ttlS now (h ++ [(now, call)]) := by
    intro k hk
    rw [mem_openKeys]
    rcases Finset.mem_insert.mp hk with rfl | hk
    · exact hopen
    · have hne : k ≠ d.key := fun he => hnot (he ▸ hk)
      obtain ⟨p, hp⟩ := Option.ne_none_iff_exists'.mp
        (fun hnone => OrderedDict.get?_eq_none_iff.mp hnone (List.mem_toFinset.mp hk))
      refine ⟨_, (gather_of_ne hd hne).trans (ht.kept k p hp).2, hlive k p hp⟩
  have hcard := Finset.card_le_card hsub
  rw [Finset.card_insert_of_notMem hnot, card_keys] at hcard
  exact Nat.lt_of_lt_of_le hcard hroom

/-- **One part.** With room for the open keys, the table goes on following the
gatherings and the frame comes out with the part that fills the gathering. -/
theorem Tracks.after_add (httl : 0 ≤ c.ttlS) (ht : Tracks c M h now s)
    (hd : call.delivery? = some d)
    (hseq : d.seq ∈ Finset.Icc 1 d.key.total)
    (hroom : (openKeys c.ttlS now (h ++ [(now, call)])).card ≤ c.maxPending) :
    Tracks c M (h ++ [(now, call)]) now
        (add c now d.key d.seq d.key.total (M d.key d.seq) s).1 ∧
      (add c now d.key d.seq d.key.total (M d.key d.seq) s).2 =
        .ok (if (Gathering.with c.ttlS now d.seq (gather c.ttlS d.key h)).seqs.card < d.key.total
          then none else some (frameOf M d.key)) := by
  have ht' := ht.after_expire
  have hpos := Gathering.with_pos c.ttlS now d.seq (gather c.ttlS d.key h)
  by_cases hone : d.key.total = 1
  · -- a message of one part never opens a gathering
    have hnever : ∀ h' g, gather c.ttlS d.key h' ≠ some g := by
      intro h' g hg
      have hcard := card_of_gather hg
      omega
    have hone' : d.seq = 1 := by
      rw [hone, Finset.mem_Icc] at hseq
      omega
    have hadd : add c now d.key d.seq d.key.total (M d.key d.seq) s =
        (expire c now s, .ok (some (M d.key d.seq))) := if_pos hone
    rw [hadd, if_neg (by omega), frameOf_of_total_one M hone, hone']
    refine ⟨?_, rfl⟩
    apply ht'.of_key hd
    · intro k _
      rfl
    · intro p hp
      exact absurd (ht'.kept d.key p hp).2 (hnever h _)
    · intro g hg
      exact absurd hg (hnever _ g)
  · unfold add
    dsimp only
    rw [if_neg hone]
    cases hget : (expire c now s).pending.get? d.key with
    | some p =>
      obtain ⟨hparts, hg⟩ := ht'.kept d.key p hget
      have hwith : Gathering.with c.ttlS now d.seq (gather c.ttlS d.key h) =
          ⟨p.created, insert d.seq (seqs p.parts)⟩ := by
        rw [hg, Gathering.with_of_live (live_of_expire hget)]
      exact ht'.after_put hd hseq hparts (fun k _ => rfl) hwith
    | none =>
      have hstale : ∀ g, gather c.ttlS d.key h = some g → ¬now - g.started ≤ c.ttlS := by
        intro g hg hlive
        obtain ⟨p, hp⟩ := ht'.present d.key g hg hlive
        rw [hget] at hp
        cases hp
      have hwith := Gathering.with_of_not_live d.seq hstale
      -- the key opens with this part, and there is a place for it
      have hopens : gather c.ttlS d.key (h ++ [(now, call)]) = some ⟨now, {d.seq}⟩ := by
        rw [gather_of_key hd, deliver, hwith]
        have hmem := Finset.mem_Icc.mp hseq
        exact if_pos (by rw [Finset.card_singleton]; omega)
      have hlt : (expire c now s).pending.size < c.maxPending := by
        apply size_lt_of_room ht' hd (fun k p hp => live_of_expire hp) hget ⟨_, hopens, ?_⟩ hroom
        rw [sub_self]
        exact httl
      dsimp only
      rw [makeRoom_of_lt _ hlt]
      exact ht'.after_put hd hseq (PartsIn.empty M d.key) (fun k _ => rfl) hwith

end

section

variable (sha256 : Bytes → Bytes) {c : Config} {M : Messages} {h : List (ℚ × Call)}

/-- Calls without a part leave the open keys alone, expiry apart. -/
theorem pending_of_none (s : State) {call : ℚ × Call} (hnone : call.2.delivery? = none) :
    (step sha256 c s call).1.pending = s.pending ∨
      (step sha256 c s call).1.pending = (expire c call.1 s).pending := by
  obtain ⟨now, call⟩ := call
  cases call with
  | addChunk channelKey chunk => cases hnone
  | addCotFragment sender frag => cases hnone
  | seenFrame channelKey frame =>
    right
    show (seenFrame sha256 c now channelKey frame s).1.pending = _
    unfold seenFrame
    dsimp only
    split_ifs <;> rfl
  | forgetFrame channelKey frame => exact Or.inl rfl

/-- The step of one call with a part. -/
theorem step_part (hparts : PartsOf M h) {now : ℚ} {call : Call} (hc : (now, call) ∈ h)
    {d : Delivery} (hd : call.delivery? = some d) (s : State) :
    step sha256 c s (now, call) =
      ((add c now d.key d.seq d.key.total (M d.key d.seq) s).1,
        .joined (add c now d.key d.seq d.key.total (M d.key d.seq) s).2) := by
  rw [step_of_delivery sha256 c s hd, (hparts _ hc d hd).2]

theorem sound_after (hparts : PartsOf M h) : Sound M (after sha256 c h) := by
  induction h using List.reverseRecOn with
  | nil =>
    intro k p hp
    cases hp
  | append_singleton h call ih =>
    have hs := ih (hparts.of_prefix (List.prefix_append h [call]))
    rw [after_concat]
    have hmem : call ∈ h ++ [call] := List.mem_append_right h List.mem_cons_self
    cases hd : call.2.delivery? with
    | some d =>
      rw [step_part sha256 hparts hmem hd]
      exact (add_sound c call.1 hs (hparts call hmem d hd).1).1
    | none =>
      intro k p hp
      rcases pending_of_none sha256 (c := c) (after sha256 c h) hd with hsame | hsame
      · rw [hsame] at hp
        exact hs k p hp
      · rw [hsame] at hp
        exact hs.after_expire c call.1 k p hp

/-- **The table follows the gatherings** in every run with room for the open keys. -/
theorem tracks_after (httl : 0 ≤ c.ttlS) (hordered : Ordered h) (hparts : PartsOf M h)
    (hroom : HasRoom c h) {now : ℚ} (hnow : ∀ call ∈ h, call.1 ≤ now) :
    Tracks c M h now (after sha256 c h) := by
  induction h using List.reverseRecOn generalizing now with
  | nil => exact Tracks.empty c M now
  | append_singleton h call ih =>
    have hprefix := List.prefix_append h [call]
    have hmem : call ∈ h ++ [call] := List.mem_append_right h List.mem_cons_self
    have hbefore : ∀ e ∈ h, e.1 ≤ call.1 := by
      intro e he
      exact (List.pairwise_append.mp hordered).2.2 e he call List.mem_cons_self
    have ht := ih (hordered.of_prefix hprefix) (hparts.of_prefix hprefix)
      (hroom.of_prefix hprefix) hbefore
    rw [after_concat]
    apply Tracks.later _ (hnow call hmem)
    cases hd : call.2.delivery? with
    | some d =>
      rw [step_part sha256 hparts hmem hd]
      exact (ht.after_add httl hd (hparts call hmem d hd).1
        (hroom h call List.prefix_rfl)).1
    | none =>
      have hboth : Tracks c M (h ++ [call]) call.1 (after sha256 c h) ∧
          Tracks c M (h ++ [call]) call.1 (expire c call.1 (after sha256 c h)) :=
        ⟨ht.of_none hd, ht.after_expire.of_none hd⟩
      rcases pending_of_none sha256 (c := c) (after sha256 c h) hd with hsame | hsame
      · exact ⟨fun k p hp => hboth.1.kept k p (hsame ▸ hp),
          fun k g hg hlive => hsame ▸ hboth.1.present k g hg hlive⟩
      · exact ⟨fun k p hp => hboth.2.kept k p (hsame ▸ hp),
          fun k g hg hlive => hsame ▸ hboth.2.present k g hg hlive⟩

end

/-! ## A key whose parts are in time -/

/-- The gathering that begins with the first part and never starts again. -/
def whole (l : List (ℚ × ℕ)) : Option Gathering :=
  l.head?.map (fun first => ⟨first.1, (l.map Prod.snd).toFinset⟩)

variable {l : List (ℚ × ℕ)}

theorem seqs_of_whole (hg : whole l = some g) :
    g.seqs = (l.map Prod.snd).toFinset := by
  obtain ⟨first, -, rfl⟩ := Option.map_eq_some_iff.mp hg
  rfl

theorem whole_concat {part : ℚ × ℕ} (hin : ∀ first ∈ (l ++ [part]).head?, part.1 - first.1 ≤ ttlS) :
    whole (l ++ [part]) = some (Gathering.with ttlS part.1 part.2 (whole l)) := by
  cases l with
  | nil => rfl
  | cons first l =>
    have hlive : part.1 - first.1 ≤ ttlS := hin first rfl
    have hwith : Gathering.with ttlS part.1 part.2 (whole (first :: l)) =
        ⟨first.1, insert part.2 ((first :: l).map Prod.snd).toFinset⟩ :=
      Gathering.with_of_live hlive
    rw [hwith]
    show some (Gathering.mk first.1 (((first :: l) ++ [part]).map Prod.snd).toFinset) = _
    rw [List.map_append, List.toFinset_append]
    congr 2
    rw [Finset.insert_eq, Finset.union_comm]
    rfl

/-- While parts are missing, the gathering is the whole of what came in. -/
theorem foldl_deliver_eq_whole {total : ℕ}
    (hin : ∀ first ∈ l.head?, ∀ part ∈ l, part.1 - first.1 ≤ ttlS)
    (hmissing : (l.map Prod.snd).toFinset.card < total) :
    l.foldl (deliver ttlS total) none = whole l := by
  induction l using List.reverseRecOn with
  | nil => rfl
  | append_singleton l part ih =>
    have hin' : ∀ first ∈ l.head?, ∀ part ∈ l, part.1 - first.1 ≤ ttlS := by
      intro first hfirst e he
      refine hin first ?_ e (List.mem_append_left _ he)
      rw [List.head?_append, hfirst]
      rfl
    have hsub : (l.map Prod.snd).toFinset ⊆ ((l ++ [part]).map Prod.snd).toFinset := by
      rw [List.map_append, List.toFinset_append]
      exact Finset.subset_union_left
    have hfold := ih hin' (Nat.lt_of_le_of_lt (Finset.card_le_card hsub) hmissing)
    have hnext := whole_concat (l := l)
      (fun first hf => hin first hf part (List.mem_append_right l List.mem_cons_self))
    rw [List.foldl_append, hfold, List.foldl_cons, List.foldl_nil, deliver, hnext]
    exact if_pos (seqs_of_whole hnext ▸ hmissing)

theorem received_subset (hparts : PartsOf M h) (k : Key) : received k h ⊆ Finset.Icc 1 k.total := by
  intro i hi
  obtain ⟨part, hpart, rfl⟩ := List.mem_map.mp (List.mem_toFinset.mp hi)
  obtain ⟨call, hcall, hdel⟩ := List.mem_filterMap.mp hpart
  obtain ⟨d, hfilter, rfl⟩ := Option.map_eq_some_iff.mp hdel
  obtain ⟨hd, hk⟩ := Option.filter_eq_some_iff.mp hfilter
  have hseq := (hparts call hcall d hd).1
  rwa [of_decide_eq_true hk] at hseq

theorem complete_iff (hparts : PartsOf M h) (k : Key) :
    Complete k h ↔ ¬(received k h).card < k.total := by
  have hcard : (Finset.Icc 1 k.total).card = k.total := by
    rw [Nat.card_Icc]
    omega
  constructor
  · intro hc
    rw [hc, hcard]
    exact lt_irrefl _
  · intro hnot
    exact Finset.eq_of_subset_of_card_le (received_subset hparts k) (by omega)

section

variable {ttlS : ℚ} {M : Messages} {h : List (ℚ × Call)} {now : ℚ} {call : Call} {d : Delivery}

/-- The part that fills the gathering is the one that completes the key. -/
theorem with_gather_of_missing (hparts : PartsOf M (h ++ [(now, call)]))
    (hin : InTime ttlS d.key (h ++ [(now, call)])) (hd : call.delivery? = some d)
    (hmissing : ¬Complete d.key h) :
    (Gathering.with ttlS now d.seq (gather ttlS d.key h)).seqs =
      received d.key (h ++ [(now, call)]) := by
  have hlast : deliveries d.key (h ++ [(now, call)]) = deliveries d.key h ++ [(now, d.seq)] := by
    rw [deliveries_append, deliveries_of_key now hd rfl]
  have hcard : (received d.key h).card < d.key.total := by
    by_contra hnot
    exact hmissing ((complete_iff (hparts.of_prefix (List.prefix_append h _)) d.key).mpr hnot)
  unfold InTime at hin
  rw [hlast] at hin
  have hfold : gather ttlS d.key h = whole (deliveries d.key h) := by
    apply foldl_deliver_eq_whole _ hcard
    intro first hfirst part hpart
    refine hin first ?_ part (List.mem_append_left _ hpart)
    rw [List.head?_append, hfirst]
    rfl
  have hnext := whole_concat (l := deliveries d.key h)
    (fun first hf => hin first hf _ List.mem_concat_self)
  rw [hfold, received, hlast]
  exact seqs_of_whole hnext

end

section

variable (sha256 : Bytes → Bytes) {c : Config} {M : Messages}

/-- **Until a key is complete**, its calls answer `None`, and the call that
completes it answers the frame. -/
theorem answer_of_missing {h : List (ℚ × Call)} {now : ℚ} {call : Call} {d : Delivery}
    (hordered : Ordered (h ++ [(now, call)])) (hparts : PartsOf M (h ++ [(now, call)]))
    (hroom : HasRoom c (h ++ [(now, call)])) (hd : call.delivery? = some d)
    (hin : InTime c.ttlS d.key (h ++ [(now, call)])) (hmissing : ¬Complete d.key h) :
    answer sha256 c h (now, call) =
      .joined (.ok (if Complete d.key (h ++ [(now, call)]) then some (frameOf M d.key)
        else none)) := by
  have hmem : (now, call) ∈ h ++ [(now, call)] := List.mem_append_right h List.mem_cons_self
  have httl : 0 ≤ c.ttlS := by
    have hpart : (now, d.seq) ∈ deliveries d.key (h ++ [(now, call)]) := by
      rw [deliveries_append, deliveries_of_key now hd rfl]
      exact List.mem_concat_self
    obtain ⟨first, hfirst⟩ : ∃ first, first ∈ (deliveries d.key (h ++ [(now, call)])).head? := by
      apply Option.isSome_iff_exists.mp
      rw [List.isSome_head?]
      exact List.ne_nil_of_mem hpart
    have hself := hin first hfirst first (List.mem_of_mem_head? hfirst)
    rwa [sub_self] at hself
  have hprefix := List.prefix_append h [(now, call)]
  have ht : Tracks c M h now (after sha256 c h) :=
    tracks_after sha256 httl (hordered.of_prefix hprefix) (hparts.of_prefix hprefix)
      (hroom.of_prefix hprefix)
      (fun e he => (List.pairwise_append.mp hordered).2.2 e he _ List.mem_cons_self)
  have hadd := (ht.after_add httl hd (hparts _ hmem d hd).1 (hroom h _ List.prefix_rfl)).2
  rw [with_gather_of_missing hparts hin hd hmissing] at hadd
  rw [answer, step_part sha256 hparts hmem hd, hadd]
  by_cases hc : Complete d.key (h ++ [(now, call)])
  · rw [if_pos hc, if_neg ((complete_iff hparts d.key).mp hc)]
  · rw [if_neg hc, if_pos (by
      by_contra hnot
      exact hc ((complete_iff hparts d.key).mpr hnot))]

end

end RtfmEv.Atak
