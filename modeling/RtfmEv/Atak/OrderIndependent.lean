import RtfmEv.Atak.ReassemblyRuns

/-!
# Reassembly is exact

Each key answers `None` until the part that completes it, and with that part
the frame, in whatever order the parts of all keys come in. Late repeats can
bring out the same frame again and nothing else. A frame counts as seen as long
as its last recording is recent and not forgotten.
-/

namespace RtfmEv.Atak

open RtfmEv.Lib

section

variable (sha256 : Bytes → Bytes) {c : Config} {M : Messages} {h : List (ℚ × Call)} {k : Key}

/-! ## The answers to one key's calls -/

/-- The answers to the calls with a part of the key, in their order. -/
def answersFrom (c : Config) (k : Key) : State → List (ℚ × Call) → List Answer
  | _, [] => []
  | s, call :: h =>
    let r := step sha256 c s call
    if call.2.delivery?.any (fun d => d.key = k) then r.2 :: answersFrom c k r.1 h
    else answersFrom c k r.1 h

def answersFor (c : Config) (k : Key) (h : List (ℚ × Call)) : List Answer :=
  answersFrom sha256 c k State.empty h

theorem answersFor_concat (call : ℚ × Call) :
    answersFor sha256 c k (h ++ [call]) = answersFor sha256 c k h ++
      if call.2.delivery?.any (fun d => d.key = k) then [answer sha256 c h call] else [] := by
  unfold answersFor answer after
  generalize State.empty = s
  induction h generalizing s with
  | nil =>
    show answersFrom sha256 c k s [call] = _
    rw [answersFrom]
    rfl
  | cons e h ih =>
    rw [List.cons_append, answersFrom, answersFrom, ih, List.foldl_cons]
    by_cases he : e.2.delivery?.any (fun d => d.key = k) = true
    · rw [if_pos he, if_pos he]
      rfl
    · rw [if_neg he, if_neg he]

theorem deliveries_concat_of_not {call : ℚ × Call}
    (hnot : ¬call.2.delivery?.any (fun d => d.key = k) = true) :
    deliveries k (h ++ [call]) = deliveries k h := by
  rw [deliveries_append]
  cases hd : call.2.delivery? with
  | none => rw [deliveries_of_none call.1 hd, List.append_nil]
  | some d =>
    have hk : d.key ≠ k := by
      intro hk
      apply hnot
      rw [hd]
      exact decide_eq_true hk
    rw [deliveries_of_ne call.1 hd hk, List.append_nil]

theorem Complete.append {t : List (ℚ × Call)} (hparts : PartsOf M (h ++ t)) (hc : Complete k h) :
    Complete k (h ++ t) := by
  apply Finset.Subset.antisymm (received_subset hparts k)
  rw [← hc]
  unfold received
  rw [deliveries_append, List.map_append, List.toFinset_append]
  exact Finset.subset_union_left

/-- While parts are missing every answer is `None`. -/
theorem answersFor_of_missing (hordered : Ordered h) (hparts : PartsOf M h) (hroom : HasRoom c h)
    (hin : InTime c.ttlS k h) (hmissing : ¬Complete k h) :
    answersFor sha256 c k h = List.replicate (deliveries k h).length (.joined (.ok none)) := by
  induction h using List.reverseRecOn with
  | nil => rfl
  | append_singleton h call ih =>
    have hp := List.prefix_append h [call]
    have hmissing' : ¬Complete k h := fun hc => hmissing (Complete.append hparts hc)
    have hbefore := ih (hordered.of_prefix hp) (hparts.of_prefix hp) (hroom.of_prefix hp)
      (hin.of_prefix hp) hmissing'
    rw [answersFor_concat, hbefore]
    by_cases hany : call.2.delivery?.any (fun d => d.key = k) = true
    · obtain ⟨d, hd, hk⟩ := (Option.any_eq_true _ _).mp hany
      obtain rfl := of_decide_eq_true hk
      have hans := answer_of_missing sha256 hordered hparts hroom hd hin hmissing'
      rw [if_neg hmissing] at hans
      rw [if_pos hany, hans, deliveries_append, deliveries_of_key call.1 hd rfl,
        List.length_append, List.length_singleton, List.replicate_succ']
    · rw [if_neg hany, List.append_nil, deliveries_concat_of_not hany]

/-- **Exactly once.** When no part comes in after its key is complete, the last
call of the key answers the frame and all others `None`. -/
theorem answersFor_of_complete (hordered : Ordered h) (hparts : PartsOf M h) (hroom : HasRoom c h)
    (hin : InTime c.ttlS k h) (hrep : RepeatsBefore k h) (hpos : 0 < k.total)
    (hc : Complete k h) :
    ∃ n, answersFor sha256 c k h =
      List.replicate n (.joined (.ok none)) ++ [.joined (.ok (some (frameOf M k)))] := by
  induction h using List.reverseRecOn with
  | nil =>
    have hcard := (complete_iff hparts k).mp hc
    exact absurd hpos hcard
  | append_singleton h call ih =>
    have hp := List.prefix_append h [call]
    rw [answersFor_concat]
    by_cases hany : call.2.delivery?.any (fun d => d.key = k) = true
    · obtain ⟨d, hd, hk⟩ := (Option.any_eq_true _ _).mp hany
      obtain rfl := of_decide_eq_true hk
      have hmissing := hrep h call d List.prefix_rfl hd rfl
      have hans := answer_of_missing sha256 hordered hparts hroom hd hin hmissing
      rw [if_pos hc] at hans
      refine ⟨(deliveries d.key h).length, ?_⟩
      rw [if_pos hany, hans, answersFor_of_missing sha256 (hordered.of_prefix hp)
        (hparts.of_prefix hp) (hroom.of_prefix hp) (hin.of_prefix hp) hmissing]
    · have hsame : Complete k h := by
        unfold Complete received at hc ⊢
        rwa [deliveries_concat_of_not hany] at hc
      rw [if_neg hany, List.append_nil]
      exact ih (hordered.of_prefix hp) (hparts.of_prefix hp) (hroom.of_prefix hp)
        (hin.of_prefix hp) (hrep.of_prefix hp) hsame

/-- Whatever comes late, expires or is evicted, only whole messages come out. -/
theorem eq_frameOf_of_answer (hparts : PartsOf M h) {pre : List (ℚ × Call)} {call : ℚ × Call}
    (hpre : pre ++ [call] <+: h) {d : Delivery} (hd : call.2.delivery? = some d) {frame : Bytes}
    (hans : answer sha256 c pre call = .joined (.ok (some frame))) : frame = frameOf M d.key := by
  have hparts' := hparts.of_prefix hpre
  have hmem : call ∈ pre ++ [call] := List.mem_append_right pre List.mem_cons_self
  have hs := sound_after sha256 (c := c) (hparts'.of_prefix (List.prefix_append pre [call]))
  rw [answer, step_part sha256 hparts' hmem hd] at hans
  exact (add_sound c call.1 hs (hparts' call hmem d hd).1).2 frame (Answer.joined.inj hans)

end

/-! ## Frames that were handled -/

/-- The frame that a call asks about. -/
def Call.frame? : Call → Option Bytes
  | addChunk _ _ => none
  | addCotFragment _ _ => none
  | seenFrame _ frame => some frame
  | forgetFrame _ frame => some frame

/-- No two frames of the run have the same digest. -/
def NoCollision (sha256 : Bytes → Bytes) (h : List (ℚ × Call)) : Prop :=
  ∀ call ∈ h, ∀ call' ∈ h, ∀ frame ∈ call.2.frame?, ∀ frame' ∈ call'.2.frame?,
    sha256 frame = sha256 frame' → frame = frame'

/-- The frame was recorded at time `t`, by a call that answered `False`, and has
not been forgotten since. -/
def Recorded (sha256 : Bytes → Bytes) (c : Config) (h : List (ℚ × Call)) (channelKey : String)
    (frame : Bytes) (t : ℚ) : Prop :=
  ∃ pre mid, h = pre ++ (t, .seenFrame channelKey frame) :: mid ∧
    answer sha256 c pre (t, .seenFrame channelKey frame) = .seen false ∧
    ∀ call ∈ mid, call.2 ≠ .forgetFrame channelKey frame

section

variable {sha256 : Bytes → Bytes} {c : Config} {h : List (ℚ × Call)} {channelKey : String}
  {frame : Bytes}

theorem Recorded.concat {t : ℚ} (hr : Recorded sha256 c h channelKey frame t) {call : ℚ × Call}
    (hne : call.2 ≠ .forgetFrame channelKey frame) :
    Recorded sha256 c (h ++ [call]) channelKey frame t := by
  obtain ⟨pre, mid, rfl, hans, hmid⟩ := hr
  refine ⟨pre, mid ++ [call], by simp, hans, ?_⟩
  intro e he
  rcases List.mem_append.mp he with he | he
  · exact hmid e he
  · exact List.mem_singleton.mp he ▸ hne

theorem seen_put (k : Key) (seq total : ℕ) (data : Bytes) (p : Pending) (s : State) :
    (put k seq total data p s).1.seen = s.seen := by
  unfold put
  dsimp only
  split_ifs <;> rfl

theorem seen_add (now : ℚ) (k : Key) (seq total : ℕ) (data : Bytes) (s : State) :
    (add c now k seq total data s).1.seen = (expire c now s).seen := by
  unfold add
  dsimp only
  split_ifs
  · rfl
  · cases (expire c now s).pending.get? k with
    | some p => exact seen_put k seq total data p _
    | none =>
      dsimp only
      cases makeRoom c.maxPending (expire c now s).pending.size (expire c now s).pending with
      | none => rfl
      | some d => exact seen_put k seq total data _ _

theorem get_expire_seen {now : ℚ} {s : State} {key : String × Bytes} {t : ℚ} :
    (expire c now s).seen.get key = some t ↔ s.seen.get key = some t ∧ now - t ≤ c.dedupTtlS := by
  show (s.seen.keep _).get key = some t ↔ _
  rw [Table.get_keep_eq_some, decide_eq_true_iff]

/-- The frames of the run that have the digest of `frame` are `frame`. -/
def Apart (sha256 : Bytes → Bytes) (h : List (ℚ × Call)) (frame : Bytes) : Prop :=
  ∀ call ∈ h, ∀ frame' ∈ call.2.frame?, sha256 frame' = sha256 frame → frame' = frame

theorem Apart.of_prefix {h' : List (ℚ × Call)} (ha : Apart sha256 h frame)
    (hp : h' <+: h) : Apart sha256 h' frame :=
  fun call hc => ha call (hp.subset hc)

theorem recorded_of_get (ha : Apart sha256 h frame) {t : ℚ}
    (hget : (after sha256 c h).seen.get (channelKey, sha256 frame) = some t) :
    Recorded sha256 c h channelKey frame t := by
  induction h using List.reverseRecOn generalizing t with
  | nil => cases hget
  | append_singleton h call ih =>
    have ih' := fun {t} => @ih (ha.of_prefix (List.prefix_append h [call])) t
    have hmem : call ∈ h ++ [call] := List.mem_append_right h List.mem_cons_self
    rw [after_concat] at hget
    obtain ⟨now, call⟩ := call
    cases call with
    | addChunk channelKey' chunk | addCotFragment sender frag =>
      have hold : (expire c now (after sha256 c h)).seen.get (channelKey, sha256 frame)
          = some t := by
        rw [← seen_add]
        exact hget
      exact (ih' (get_expire_seen.mp hold).1).concat (by intro hcall; cases hcall)
    | seenFrame channelKey' frame' =>
      have hold : (expire c now (after sha256 c h)).seen.get (channelKey, sha256 frame)
            = some t → Recorded sha256 c (h ++ [(now, .seenFrame channelKey' frame')])
              channelKey frame t :=
        fun hg => (ih' (get_expire_seen.mp hg).1).concat (by intro hcall; cases hcall)
      change (seenFrame sha256 c now channelKey' frame' (after sha256 c h)).1.seen.get _ = _
        at hget
      unfold seenFrame at hget
      dsimp only at hget
      by_cases hthere : ((expire c now (after sha256 c h)).seen.get
          (channelKey', sha256 frame')).isSome = true
      · rw [if_pos hthere] at hget
        exact hold hget
      · rw [if_neg hthere] at hget
        rcases Table.get_set_eq_some hget with ⟨hkey, rfl⟩ | ⟨-, hg⟩
        · -- this very call records the frame
          obtain ⟨rfl, hdigest⟩ := Prod.mk.inj hkey
          obtain rfl := ha _ hmem frame' rfl hdigest.symm
          refine ⟨h, [], rfl, ?_, fun e he => absurd he List.not_mem_nil⟩
          show Answer.seen (seenFrame sha256 c t channelKey frame' (after sha256 c h)).2 = _
          unfold seenFrame
          dsimp only
          rw [if_neg hthere]
        · exact hold hg
    | forgetFrame channelKey' frame' =>
      obtain ⟨hne, hg⟩ := Table.get_erase_eq_some hget
      apply (ih' hg).concat
      intro hcall
      cases hcall
      exact hne rfl

/-- A recording that is recent enough is in the table. -/
theorem get_of_recorded (hordered : Ordered h)
    (ha : Apart sha256 h frame) {t now : ℚ} (hr : Recorded sha256 c h channelKey frame t)
    (hnow : ∀ call ∈ h, call.1 ≤ now) (hrecent : now - t ≤ c.dedupTtlS) :
    (after sha256 c h).seen.get (channelKey, sha256 frame) = some t := by
  obtain ⟨pre, mid, rfl, hans, hmid⟩ := hr
  induction mid using List.reverseRecOn generalizing now with
  | nil =>
    rw [after_concat]
    change Answer.seen (seenFrame sha256 c t channelKey frame (after sha256 c pre)).2 = _ at hans
    show (seenFrame sha256 c t channelKey frame (after sha256 c pre)).1.seen.get _ = _
    unfold seenFrame at hans ⊢
    dsimp only at hans ⊢
    by_cases hthere : ((expire c t (after sha256 c pre)).seen.get
        (channelKey, sha256 frame)).isSome = true
    · rw [if_pos hthere] at hans
      cases hans
    · rw [if_neg hthere]
      exact Table.get_set_self ..
  | append_singleton mid call ih =>
    have hsplit : pre ++ (t, Call.seenFrame channelKey frame) :: (mid ++ [call])
        = (pre ++ (t, Call.seenFrame channelKey frame) :: mid) ++ [call] := by simp
    rw [hsplit] at hordered ha hnow ⊢
    have hp := List.prefix_append (pre ++ (t, Call.seenFrame channelKey frame) :: mid) [call]
    have hmem : call ∈ (pre ++ (t, Call.seenFrame channelKey frame) :: mid) ++ [call] :=
      List.mem_concat_self
    have hcall : call.1 - t ≤ c.dedupTtlS := by
      have hle := hnow call hmem
      linarith
    have hg := ih hcall (hordered.of_prefix hp) (ha.of_prefix hp)
      (fun e he => (List.pairwise_append.mp hordered).2.2 e he call List.mem_cons_self)
      (fun e he => hmid e (List.mem_append_left _ he))
    have hnotforget := hmid call List.mem_concat_self
    have hexpire := get_expire_seen.mpr ⟨hg, hcall⟩
    rw [after_concat]
    obtain ⟨now', call⟩ := call
    cases call with
    | addChunk channelKey' chunk | addCotFragment sender frag =>
      rw [← hexpire]
      exact congrFun (seen_add ..) _
    | seenFrame channelKey' frame' =>
      show (seenFrame sha256 c now' channelKey' frame' _).1.seen.get _ = _
      unfold seenFrame
      dsimp only
      split_ifs with hthere
      · exact hexpire
      · rw [Table.get_set_of_ne _ _ ?_]
        · exact hexpire
        · intro hkey
          apply hthere
          rw [← hkey, hexpire]
          rfl
    | forgetFrame channelKey' frame' =>
      show (forgetFrame sha256 channelKey' frame' _).seen.get _ = _
      rw [forgetFrame, Table.get_erase_of_ne _ ?_]
      · exact hg
      · intro hkey
        obtain ⟨rfl, hdigest⟩ := Prod.mk.inj hkey
        apply hnotforget
        rw [ha _ hmem frame' rfl hdigest.symm]

/-- `seen_frame` answers `True` exactly for a frame that was recorded at most
`dedup_ttl_s` ago and not forgotten since. -/
theorem answer_seenFrame_iff {now : ℚ}
    (hordered : Ordered (h ++ [(now, .seenFrame channelKey frame)]))
    (ha : Apart sha256 h frame) :
    answer sha256 c h (now, .seenFrame channelKey frame) = .seen true ↔
      ∃ t, Recorded sha256 c h channelKey frame t ∧ now - t ≤ c.dedupTtlS := by
  have hp := List.prefix_append h [(now, Call.seenFrame channelKey frame)]
  have hnow : ∀ e ∈ h, e.1 ≤ now :=
    fun e he => (List.pairwise_append.mp hordered).2.2 e he _ List.mem_cons_self
  have hans : answer sha256 c h (now, .seenFrame channelKey frame) = .seen true ↔
      ∃ t, (expire c now (after sha256 c h)).seen.get (channelKey, sha256 frame) = some t := by
    rw [← Option.isSome_iff_exists]
    show Answer.seen (seenFrame sha256 c now channelKey frame (after sha256 c h)).2 = _ ↔ _
    unfold seenFrame
    dsimp only
    split_ifs with hthere
    · exact iff_of_true rfl hthere
    · exact iff_of_false (by intro hans; cases hans) hthere
  rw [hans]
  constructor
  · rintro ⟨t, ht⟩
    obtain ⟨hget, hrecent⟩ := get_expire_seen.mp ht
    exact ⟨t, recorded_of_get ha hget, hrecent⟩
  · rintro ⟨t, hr, hrecent⟩
    exact ⟨t, get_expire_seen.mpr
      ⟨get_of_recorded (hordered.of_prefix hp) ha hr hnow hrecent, hrecent⟩⟩

end

/-- **Reassembly is exact.** In every run of calls with parts of the messages
`M`: the frame of a key comes out with the last of its calls and `None` with the
others, as long as no more keys are open than the table holds, its parts are in
time and none comes after it is complete; late parts bring out no other bytes;
and a frame counts as seen exactly while its recording is recent and not
forgotten. -/
theorem reassembly_exact (sha256 : Bytes → Bytes) (c : Config) (M : Messages)
    (h : List (ℚ × Call)) (hordered : Ordered h) (hparts : PartsOf M h)
    (hno : NoCollision sha256 h) :
    (HasRoom c h → ∀ k, 0 < k.total → Complete k h → InTime c.ttlS k h → RepeatsBefore k h →
      ∃ n, answersFor sha256 c k h =
        List.replicate n (.joined (.ok none)) ++ [.joined (.ok (some (frameOf M k)))]) ∧
    (∀ pre call d frame, pre ++ [call] <+: h → call.2.delivery? = some d →
      answer sha256 c pre call = .joined (.ok (some frame)) → frame = frameOf M d.key) ∧
    (∀ pre now channelKey frame, pre ++ [(now, .seenFrame channelKey frame)] <+: h →
      (answer sha256 c pre (now, .seenFrame channelKey frame) = .seen true ↔
        ∃ t, Recorded sha256 c pre channelKey frame t ∧ now - t ≤ c.dedupTtlS)) := by
  refine ⟨?_, ?_, ?_⟩
  · intro hroom k hpos hc hin hrep
    exact answersFor_of_complete sha256 hordered hparts hroom hin hrep hpos hc
  · intro pre call d frame hpre hd hans
    exact eq_frameOf_of_answer sha256 hparts hpre hd hans
  · intro pre now channelKey frame hpre
    apply answer_seenFrame_iff (hordered.of_prefix hpre)
    intro call hcall frame' hframe' hdigest
    exact hno call (hpre.subset (List.mem_append_left _ hcall)) _
      (hpre.subset (List.mem_append_right pre List.mem_cons_self)) frame' hframe' frame rfl hdigest

/-! ### Two messages that cross -/

theorem HasRoom.of_length {c : Config} {h : List (ℚ × Call)} (hlen : h.length ≤ c.maxPending) :
    HasRoom c h := by
  intro pre call hpre
  calc (openKeys c.ttlS call.1 (pre ++ [call])).card
      ≤ (keysOf (pre ++ [call])).toFinset.card := Finset.card_filter_le _ _
    _ ≤ (keysOf (pre ++ [call])).length := List.toFinset_card_le _
    _ ≤ (pre ++ [call]).length := List.length_filterMap_le _ _
    _ ≤ c.maxPending := hpre.length_le.trans hlen

theorem RepeatsBefore.of_take {k : Key} {h : List (ℚ × Call)}
    (htake : ∀ i < h.length, (h[i]?.any fun call => call.2.delivery?.any fun d => d.key = k) = true →
      ¬Complete k (h.take i)) : RepeatsBefore k h := by
  intro pre call d hpre hd hk
  obtain ⟨t, rfl⟩ := hpre
  rw [List.append_assoc] at htake
  have hlt : pre.length < (pre ++ ([call] ++ t)).length := by simp
  have hget : (pre ++ ([call] ++ t))[pre.length]? = some call := by simp
  have hnot := htake pre.length hlt (by rw [hget]; simp [hd, hk])
  rwa [List.take_left] at hnot

/-- Two messages of two parts each, the parts of one between those of the other,
and then the first frame twice. -/
def crossing : List (ℚ × Call) :=
  [(0, .addChunk "CH" ⟨"9", 2, 2, [0x62]⟩), (1, .addChunk "CH" ⟨"8", 2, 2, [0x64]⟩),
    (2, .addChunk "CH" ⟨"9", 2, 2, [0x62]⟩), (3, .addChunk "CH" ⟨"8", 1, 2, [0x63]⟩),
    (4, .addChunk "CH" ⟨"9", 1, 2, [0x61]⟩), (4, .seenFrame "CH" [0x61, 0x62]),
    (9, .seenFrame "CH" [0x61, 0x62])]

def crossingMessages : Messages
  | .env _ "9" _, 1 => [0x61]
  | .env _ "9" _, _ => [0x62]
  | _, 1 => [0x63]
  | _, _ => [0x64]

/-- The digest of the first frame. -/
def crossingSha256 (data : Bytes) : Bytes :=
  if data = [0x61, 0x62] then
    [0xfb, 0x8e, 0x20, 0xfc, 0x2e, 0x4c, 0x3f, 0x24, 0x8c, 0x60, 0xc3,
      0x9b, 0xd6, 0x52, 0xf3, 0xc1, 0x34, 0x72, 0x98, 0xbb, 0x97, 0x7b,
      0x8b, 0x4d, 0x59, 0x03, 0xb8, 0x50, 0x55, 0x62, 0x06, 0x03]
  else []

/-- The first message comes out whole with its last part. -/
theorem reassembly_exact_crossing : ∃ n, answersFor crossingSha256 ⟨60, 256, 120⟩
    (.env "CH" "9" 2) crossing =
      List.replicate n (.joined (.ok none)) ++ [.joined (.ok (some [0x61, 0x62]))] := by
  have hparts : PartsOf crossingMessages crossing := by
    intro call hcall d hd
    simp only [crossing, List.mem_cons, List.not_mem_nil, or_false] at hcall
    rcases hcall with rfl | rfl | rfl | rfl | rfl | rfl | rfl <;>
      first
      | (obtain rfl := Option.some.inj hd; exact ⟨by decide, rfl⟩)
      | cases hd
  have hno : NoCollision crossingSha256 crossing := by
    intro call hcall call' hcall' frame hframe frame' hframe' _
    have hone : ∀ e ∈ crossing, ∀ f ∈ e.2.frame?, f = [0x61, 0x62] := by
      intro e he f hf
      simp only [crossing, List.mem_cons, List.not_mem_nil, or_false] at he
      rcases he with rfl | rfl | rfl | rfl | rfl | rfl | rfl <;>
        first
        | exact (Option.some.inj hf).symm
        | cases hf
    rw [hone call hcall frame hframe, hone call' hcall' frame' hframe']
  have hordered : Ordered crossing := by
    unfold Ordered
    decide +kernel
  have hin : InTime 60 (.env "CH" "9" 2) crossing := by
    unfold InTime
    decide +kernel
  exact (reassembly_exact crossingSha256 ⟨60, 256, 120⟩ crossingMessages crossing hordered
    hparts hno).1 (HasRoom.of_length (by decide)) (.env "CH" "9" 2) (by decide) (by decide +kernel)
    hin (RepeatsBefore.of_take (by decide +kernel))

end RtfmEv.Atak
