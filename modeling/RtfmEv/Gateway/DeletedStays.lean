import RtfmEv.Gateway.ChannelSync

/-!
# A deleted channel stays deleted

After the gateway has noted a delete, every radio that still has the channel is
marked to delete it, and no add of the channel is under way: then none ever starts
again, and one pass that every radio answers clears the channel everywhere. The note
has to find things in order, though. A pass that has already planned to add the
channel goes on with its plan; the origin itself is not marked, so the channel must
not have been added to it again; and a reply on its way takes away a mark.
-/

namespace RtfmEv.Gateway

open RtfmEv.Lib

variable {ρ : Type} {key : String}

/-! ### Effects on one channel -/

section Holds

variable [DecidableEq ρ] {s : State ρ} {radio other : ρ} {key : String} {channels : List Channel}

theorem mem_channelKeys_upsert {channel : Channel} :
    key ∈ channelKeys (upsert channels channel) ↔ key = channel.key ∨ key ∈ channelKeys channels := by
  simp only [channelKeys, upsert, List.map_append, List.mem_append, List.mem_map, List.mem_filter,
    List.map_cons, List.map_nil, List.mem_singleton, decide_not, Bool.not_eq_true',
    decide_eq_false_iff_not]
  constructor
  · rintro (⟨c, ⟨hmem, -⟩, rfl⟩ | rfl)
    · exact Or.inr ⟨c, hmem, rfl⟩
    · exact Or.inl rfl
  · rintro (rfl | ⟨c, hmem, rfl⟩)
    · exact Or.inr rfl
    · by_cases heq : c.key = channel.key
      · exact Or.inr heq
      · exact Or.inl ⟨c, ⟨hmem, heq⟩, rfl⟩

theorem mem_channelKeys_foldl_upsert {added : List Channel} :
    key ∈ channelKeys (added.foldl upsert channels) ↔
      key ∈ channelKeys added ∨ key ∈ channelKeys channels := by
  induction added generalizing channels with
  | nil => simp [channelKeys]
  | cons channel rest ih =>
    rw [List.foldl_cons, ih, mem_channelKeys_upsert]
    simp only [channelKeys, List.map_cons, List.mem_cons]
    tauto

theorem holds_addChannels : (s.addChannels radio channels).Holds other key ↔
      s.Holds other key ∨ (other = radio ∧ key ∈ channelKeys channels) := by
  rw [State.Holds, State.addChannels, State.setWorker]
  by_cases heq : other = radio
  · subst heq
    simp only [Function.update_self, mem_channelKeys_foldl_upsert, State.Holds]
    tauto
  · simp only [Function.update_of_ne heq, heq, false_and, or_false, State.Holds]

theorem holds_dropKeys {keys : List String} :
    (s.dropKeys radio keys).Holds other key ↔
      s.Holds other key ∧ ¬ (other = radio ∧ key ∈ keys) := by
  rw [State.Holds, State.dropKeys, State.setWorker]
  by_cases heq : other = radio
  · subst heq
    simp only [Function.update_self, State.Holds, channelKeys, List.mem_map, List.mem_filter,
      decide_not, Bool.not_eq_true', decide_eq_false_iff_not, true_and]
    constructor
    · rintro ⟨c, ⟨hmem, hnot⟩, rfl⟩
      exact ⟨⟨c, hmem, rfl⟩, hnot⟩
    · rintro ⟨⟨c, hmem, rfl⟩, hnot⟩
      exact ⟨c, ⟨hmem, hnot⟩, rfl⟩
  · simp only [Function.update_of_ne heq, heq, false_and, not_false_eq_true, and_true, State.Holds]

theorem mem_pending_addPending {radios : List ρ} {keys : List String} :
    key ∈ (s.addPendingChannelDeletes radios keys).pending other ↔
      key ∈ s.pending other ∨ (other ∈ radios ∧ key ∈ keys) := by
  rw [State.addPendingChannelDeletes]
  by_cases hmem : other ∈ radios
  · simp only [hmem, if_true, List.mem_append, List.mem_filter, decide_not, Bool.not_eq_true',
      decide_eq_false_iff_not, true_and]
    tauto
  · simp only [hmem, if_false, false_and, or_false]

theorem mem_pending_clear {cleared : String} :
    key ∈ (s.clearPendingChannelDelete radio cleared).pending other ↔
      key ∈ s.pending other ∧ ¬ (other = radio ∧ key = cleared) := by
  rw [State.clearPendingChannelDelete]
  by_cases heq : other = radio
  · subst heq
    simp only [Function.update_self, List.mem_filter, decide_not, Bool.not_eq_true',
      decide_eq_false_iff_not, true_and]
  · simp only [Function.update_of_ne heq, heq, false_and, not_false_eq_true, and_true]

end Holds

/-! ### What a pass offers -/

/-- **A channel is offered when some list has it whose radio need not delete it.** -/
theorem mem_offer {pending : List String} {union channels : List Channel} :
    key ∈ channelKeys (offer pending union channels) ↔
      key ∈ channelKeys union ∨ (key ∈ channelKeys channels ∧ key ∉ pending) := by
  induction channels generalizing union with
  | nil => simp [offer, channelKeys]
  | cons c rest ih =>
    rw [offer, List.foldl_cons, ← offer, ih]
    have hcons : key ∈ channelKeys (c :: rest) ↔ key = c.key ∨ key ∈ channelKeys rest := by
      simp [channelKeys]
    rw [hcons]
    split_ifs with hskip
    · constructor
      · tauto
      · rintro (hunion | ⟨rfl | hrest, hnot⟩)
        · exact Or.inl hunion
        · exact Or.inl (hskip.resolve_left hnot)
        · exact Or.inr ⟨hrest, hnot⟩
    · push Not at hskip
      have happend : key ∈ channelKeys (union ++ [c]) ↔ key ∈ channelKeys union ∨ key = c.key := by
        simp [channelKeys]
      rw [happend]
      constructor
      · rintro ((hunion | rfl) | hrest)
        · exact Or.inl hunion
        · exact Or.inr ⟨Or.inl rfl, hskip.1⟩
        · exact Or.inr ⟨Or.inr hrest.1, hrest.2⟩
      · tauto

theorem mem_offered {pending : ρ → List String} {lists : List (ρ × List Channel)} :
    key ∈ channelKeys (offered pending lists) ↔
      ∃ entry ∈ lists, key ∈ channelKeys entry.2 ∧ key ∉ pending entry.1 := by
  have hfold (union : List Channel) :
      key ∈ channelKeys (lists.foldl (fun union entry => offer (pending entry.1) union entry.2) union) ↔
        key ∈ channelKeys union ∨
          ∃ entry ∈ lists, key ∈ channelKeys entry.2 ∧ key ∉ pending entry.1 := by
    induction lists generalizing union with
    | nil => simp
    | cons entry rest ih =>
      rw [List.foldl_cons, ih, mem_offer]
      simp only [List.mem_cons, exists_eq_or_imp]
      tauto
  rw [offered, hfold]
  simp [channelKeys]

theorem mem_of_addRequests {S : Site ρ} {channels : List Channel} {request : AddRequest} (h : request ∈ addRequests S channels)
    (hkey : key ∈ channelKeys request.channels) : key ∈ channelKeys channels := by
  rw [addRequests] at h
  rcases List.mem_append.mp h with hdirect | himport
  · obtain ⟨c, hmem, rfl⟩ := List.mem_map.mp hdirect
    have heq : key = c.key := by simpa [channelKeys, AddRequest.channels] using hkey
    rw [heq]
    exact List.mem_map_of_mem (List.mem_of_mem_filter hmem)
  · split_ifs at himport
    · cases himport
    · rw [List.mem_singleton.mp himport] at hkey
      obtain ⟨c, hmem, rfl⟩ := List.mem_map.mp hkey
      exact List.mem_map_of_mem (List.mem_of_mem_filter hmem)

variable [DecidableEq ρ]

/-- The pass may still ask this radio to add the key. -/
def Plan.Wants (plan : Plan ρ) (radio : ρ) (key : String) : Prop :=
  key ∈ channelKeys plan.union ∧ plan.listed radio key = false ∧ key ∉ plan.pending radio

theorem wants_of_missing {plan : Plan ρ} {s : State ρ} {radio : ρ}
    (h : key ∈ channelKeys (plan.missing s radio)) : plan.Wants radio key := by
  obtain ⟨c, hmem, rfl⟩ := List.mem_map.mp h
  obtain ⟨hunion, htest⟩ := List.mem_filter.mp hmem
  simp only [Bool.and_eq_true, Bool.not_eq_true', decide_not, decide_eq_false_iff_not] at htest
  exact ⟨List.mem_map_of_mem hunion, htest.1.1, htest.1.2⟩

/-! ### Gone for good -/

/-- The requests that no worker has served yet. -/
def unserved (requests : List AddRequest) (reply : Option Reply) : List AddRequest :=
  if reply.isSome then requests.tail else requests

/-- No add of the key is under way, and no mark of it is about to be taken away from a
radio that has it. -/
def PhaseClear (s : State ρ) (origin : ρ) (key : String) : Phase ρ → Prop
  | .idle => True
  | .deleting _ radio keys _ reply =>
    ∀ r, reply = some r → settles r = true → keys.head? = some key → ¬ s.Holds radio key
  | .listing _ _ lists =>
    (∀ entry ∈ lists, key ∈ channelKeys entry.2 → key ∈ s.pending entry.1) ∨
      ∀ radio, radio ≠ origin → key ∈ s.pending radio
  | .adding plan _ requests todo reply =>
    (∀ request ∈ unserved requests reply, key ∉ channelKeys request.channels) ∧
      ∀ radio ∈ todo, ¬ plan.Wants radio key

/-- Every radio that has the key is marked to delete it, and will. -/
structure Gone (S : Site ρ) (origin : ρ) (key : String) (s : State ρ) : Prop where
  marked : ∀ radio, s.Holds radio key → key ∈ s.pending radio ∧ S.refuses radio key = false
  phase : PhaseClear s origin key s.phase

/-- What the note of a delete has to find: the origin does not have the channel, no
radio that has it refuses to delete it, no add of it is planned or on its way, and no
reply is on its way that clears the mark of a radio that has it. -/
structure InOrder (S : Site ρ) (origin : ρ) (key : String) (s : State ρ) : Prop where
  gone : ¬ s.Holds origin key
  accepted : ∀ radio, s.Holds radio key → S.refuses radio key = false
  noReply : ∀ running radio keys todo r, s.phase = .deleting running radio keys todo (some r) →
    settles r = true → keys.head? = some key → ¬ s.Holds radio key
  noAdd : ∀ plan radio requests todo reply, s.phase = .adding plan radio requests todo reply →
    (∀ request ∈ unserved requests reply, key ∉ channelKeys request.channels) ∧
      ∀ radio ∈ todo, ¬ plan.Wants radio key

/-! ### One step -/

section Clear

variable {S : Site ρ} {s t : State ρ} {origin : ρ} {key : String} {todo : List ρ}
  {lists : List (ρ × List Channel)}

/-- Fewer holders and more marks keep a phase clear. -/
theorem PhaseClear.mono {phase : Phase ρ} (h : PhaseClear s origin key phase)
    (hholds : ∀ radio, t.Holds radio key → s.Holds radio key)
    (hmarks : ∀ radio, key ∈ s.pending radio → key ∈ t.pending radio) :
    PhaseClear t origin key phase := by
  cases phase with
  | idle => trivial
  | deleting running radio keys todo reply =>
    intro r hr hsettles hhead hholdsT
    exact h r hr hsettles hhead (hholds radio hholdsT)
  | listing radio todo lists =>
    rcases h with hlists | hall
    · exact Or.inl (fun entry hentry hkey => hmarks _ (hlists entry hentry hkey))
    · exact Or.inr (fun radio hne => hmarks _ (hall radio hne))
  | adding plan radio requests todo reply => exact h

theorem beginAdds_clear {plan : Plan ρ} (h : ∀ radio ∈ todo, ¬ plan.Wants radio key) :
    PhaseClear s origin key (beginAdds S s plan todo) := by
  induction todo with
  | nil => trivial
  | cons radio rest ih =>
    have hrest : ∀ other ∈ rest, ¬ plan.Wants other key :=
      fun other hother => h other (List.mem_cons_of_mem _ hother)
    rw [beginAdds]
    split_ifs
    · exact ih hrest
    · refine ⟨?_, hrest⟩
      intro request hrequest hkey
      exact h radio List.mem_cons_self (wants_of_missing (mem_of_addRequests hrequest hkey))

/-- **Lists that are in order lead to no add of the key.** -/
theorem finishLists_clear
    (h : (∀ entry ∈ lists, key ∈ channelKeys entry.2 → key ∈ s.pending entry.1) ∨
      ∀ radio, radio ≠ origin → key ∈ s.pending radio) :
    PhaseClear s origin key (finishLists S s lists) := by
  rw [finishLists]
  split_ifs
  · trivial
  · apply beginAdds_clear
    intro radio _ hwants
    obtain ⟨hunion, hlisted, hpending⟩ := hwants
    obtain ⟨entry, hentry, hkey, hunmarked⟩ := mem_offered.mp hunion
    rcases h with hlists | hall
    · exact hunmarked (hlists entry hentry hkey)
    · -- only the origin is unmarked, so it is both the one that offers and the one that lacks
      have hradio : radio = origin := by
        by_contra hne
        exact hpending (hall radio hne)
      have horigin : entry.1 = origin := by
        by_contra hne
        exact hunmarked (hall _ hne)
      rw [Plan.listed, List.any_eq_false] at hlisted
      apply hlisted entry hentry
      simp [horigin, hradio, hkey]

theorem beginLists_clear
    (h : (∀ entry ∈ lists, key ∈ channelKeys entry.2 → key ∈ s.pending entry.1) ∨
      ∀ radio, radio ≠ origin → key ∈ s.pending radio) :
    PhaseClear s origin key (beginLists S s lists todo) := by
  cases todo with
  | nil => exact finishLists_clear h
  | cons radio rest => exact h

theorem beginDeletes_clear {running : List ρ} :
    PhaseClear s origin key (beginDeletes S s running todo) := by
  induction todo with
  | nil => exact beginLists_clear (Or.inl (by simp))
  | cons radio rest ih =>
    rw [beginDeletes]
    split_ifs
    · exact ih
    · intro r hr
      cases hr

/-- A worker's answer to a delete: nothing new is held, and what was settled is gone. -/
theorem serveDelete_clear (radio : ρ) (head : String) (outcome : Outcome)
    (hgone : Gone S origin key s) :
    (∀ other, (serveDelete S s radio head outcome).1.Holds other key → s.Holds other key) ∧
      (serveDelete S s radio head outcome).1.pending = s.pending ∧
      (settles (serveDelete S s radio head outcome).2 = true → head = key →
        ¬ (serveDelete S s radio head outcome).1.Holds radio key) := by
  have hdrop : ∀ other, (s.dropKeys radio [head]).Holds other key → s.Holds other key :=
    fun other hother => (holds_dropKeys.mp hother).1
  cases outcome with
  | served =>
    by_cases hrefuses : S.refuses radio head = true
    · simp only [serveDelete, hrefuses, if_true]
      refine ⟨fun _ h => h, trivial, ?_⟩
      rintro - rfl hholds
      rw [(hgone.marked radio hholds).2] at hrefuses
      exact Bool.false_ne_true hrefuses
    · simp only [serveDelete, if_neg hrefuses]
      refine ⟨hdrop, rfl, ?_⟩
      rintro - rfl hholds
      exact (holds_dropKeys.mp hholds).2 (by simp)
  | failed => exact ⟨fun _ h => h, rfl, fun hsettles => absurd hsettles Bool.false_ne_true⟩
  | broken done =>
    simp only [serveDelete]
    refine ⟨?_, ?_, fun hsettles => absurd hsettles Bool.false_ne_true⟩
    · split_ifs
      · exact fun _ h => h
      · exact hdrop
    · split_ifs
      · rfl
      · rfl

/-- A request without the key gives it to nobody. -/
theorem serveAdd_clear (s : State ρ) (radio : ρ) {request : AddRequest} (outcome : Outcome)
    (hkey : key ∉ channelKeys request.channels) :
    (∀ other, (serveAdd s radio request outcome).1.Holds other key → s.Holds other key) ∧
      (serveAdd s radio request outcome).1.pending = s.pending := by
  have hadd : ∀ channels, channels ⊆ request.channels → ∀ other,
      (s.addChannels radio channels).Holds other key → s.Holds other key := by
    intro channels hsub other hother
    rcases holds_addChannels.mp hother with hold | ⟨-, hnew⟩
    · exact hold
    · obtain ⟨c, hmem, hc⟩ := List.mem_map.mp hnew
      exact absurd (hc ▸ List.mem_map_of_mem (hsub hmem)) hkey
  cases outcome with
  | served => exact ⟨hadd _ (List.Subset.refl _), rfl⟩
  | failed => exact ⟨fun _ hother => hother, rfl⟩
  | broken done => exact ⟨hadd _ (List.take_subset _ _), rfl⟩

theorem gone_serve {outcome : Outcome} (hgone : Gone S origin key s)
    (h : serve S s outcome = some t) : Gone S origin key t := by
  have hphase := hgone.phase
  unfold serve at h
  split at h
  · rename_i running radio head keys todo hs
    rw [hs] at hphase
    cases h
    obtain ⟨hholds, hpending, hsettled⟩ := serveDelete_clear radio head outcome hgone
    refine ⟨?_, ?_⟩
    · intro other hother
      have hmark := hgone.marked other (hholds other hother)
      refine ⟨?_, hmark.2⟩
      show key ∈ (serveDelete S s radio head outcome).1.pending other
      rw [hpending]
      exact hmark.1
    · intro r hr hsettles hhead
      cases hr
      exact hsettled hsettles (by simpa using hhead)
  · rename_i radio todo lists hs
    rw [hs] at hphase
    cases h
    refine ⟨hgone.marked, ?_⟩
    apply beginLists_clear
    rcases hphase with hlists | hall
    · left
      intro entry hentry hkey
      split_ifs at hentry
      · rcases List.mem_append.mp hentry with hold | hnew
        · exact hlists entry hold hkey
        · rw [List.mem_singleton.mp hnew] at hkey ⊢
          exact (hgone.marked radio hkey).1
      · exact hlists entry hentry hkey
    · exact Or.inr hall
  · rename_i plan radio request requests todo hs
    rw [hs] at hphase
    cases h
    obtain ⟨hrequests, htodo⟩ := hphase
    obtain ⟨hholds, hpending⟩ := serveAdd_clear s radio outcome
      (hrequests request List.mem_cons_self)
    refine ⟨?_, ?_, htodo⟩
    · intro other hother
      have hmark := hgone.marked other (hholds other hother)
      refine ⟨?_, hmark.2⟩
      show key ∈ (serveAdd s radio request outcome).1.pending other
      rw [hpending]
      exact hmark.1
    · intro other hother
      exact hrequests other (List.mem_cons_of_mem _ hother)
  · cases h

theorem Gone.withPhase (h : Gone S origin key s) {phase : Phase ρ}
    (hphase : PhaseClear s origin key phase) : Gone S origin key { s with phase := phase } :=
  ⟨h.marked, hphase.mono (fun _ h => h) (fun _ h => h)⟩

/-- Once a delete is settled its mark is not needed any more. -/
theorem gone_clear {radio : ρ} {head : String} (hgone : Gone S origin key s)
    (hsettled : head = key → ¬ s.Holds radio key) :
    Gone S origin key ({ s with phase := .idle }.clearPendingChannelDelete radio head) := by
  refine ⟨?_, trivial⟩
  intro other hother
  have hold : s.Holds other key := hother
  obtain ⟨hmark, hrefuses⟩ := hgone.marked other hold
  refine ⟨mem_pending_clear.mpr ⟨hmark, ?_⟩, hrefuses⟩
  rintro ⟨rfl, rfl⟩
  exact hsettled rfl hold

theorem gone_answer (hgone : Gone S origin key s) (h : answer S s = some t) :
    Gone S origin key t := by
  have hphase := hgone.phase
  unfold answer at h
  split at h
  · rename_i running radio head keys todo reply hs
    rw [hs] at hphase
    cases h
    have hnext : ∀ u : State ρ, Gone S origin key { u with phase := .idle } →
        Gone S origin key
          { u with
            phase :=
              if keys = [] then beginDeletes S u running todo
              else .deleting running radio keys todo none } := by
      intro u hu
      apply hu.withPhase
      split_ifs
      · exact beginDeletes_clear
      · intro r hr
        cases hr
    apply hnext
    split_ifs with hsettles
    · exact gone_clear hgone (fun heq => hphase reply rfl hsettles (by rw [heq]; rfl))
    · exact hgone.withPhase trivial
  · rename_i plan radio request requests todo reply hs
    rw [hs] at hphase
    cases h
    obtain ⟨hrequests, htodo⟩ := hphase
    have hnext : ∀ u : State ρ, Gone S origin key { u with phase := .idle } →
        Gone S origin key
          { u with
            phase :=
              if requests = [] then beginAdds S u plan todo
              else .adding plan radio requests todo none } := by
      intro u hu
      apply hu.withPhase
      split_ifs
      · exact beginAdds_clear htodo
      · exact ⟨hrequests, htodo⟩
    apply hnext
    split_ifs
    · exact ⟨hgone.marked, trivial⟩
    · exact hgone.withPhase trivial
  · cases h

theorem gone_noteDeleted {radio : ρ} {keys : List String} (hgone : Gone S origin key s) :
    Gone S origin key (noteDeleted S s radio keys) := by
  rw [noteDeleted]
  split_ifs
  · have hmarks : ∀ other, key ∈ s.pending other →
        key ∈ (s.addPendingChannelDeletes
          (S.radios.filter (fun radio' => radio' ≠ radio)) keys).pending other :=
      fun other hother => mem_pending_addPending.mpr (Or.inl hother)
    exact ⟨fun other hother => ⟨hmarks _ (hgone.marked other hother).1, (hgone.marked other hother).2⟩,
      hgone.phase.mono (fun _ h => h) hmarks⟩
  · exact hgone

/-- The step adds the key on a worker, the gateway aside. -/
def AddsKey (key : String) : Label ρ → Prop
  | .localAdd _ channel => channel.key = key
  | _ => False

/-- **A step by nobody who adds the channel leaves it gone.** -/
theorem gone_step {l : Label ρ} (hgone : Gone S origin key s) (h : s.step S l = some t)
    (hadds : ¬ AddsKey key l) : Gone S origin key t := by
  cases l with
  | setWorker radio running token =>
    cases h
    have hholds : ∀ other, (s.setWorker radio (fun w =>
        { w with running := running, token := token })).Holds other key → s.Holds other key := by
      intro other hother
      rw [State.Holds, State.setWorker] at hother
      by_cases heq : other = radio
      · subst heq
        simpa [State.Holds] using hother
      · simpa [State.Holds, Function.update_of_ne heq] using hother
    exact ⟨fun other hother => hgone.marked other (hholds other hother),
      hgone.phase.mono hholds (fun _ h => h)⟩
  | localAdd radio channel =>
    cases h
    have hholds : ∀ other, (s.addChannels radio [channel]).Holds other key →
        s.Holds other key := by
      intro other hother
      rcases holds_addChannels.mp hother with hold | ⟨-, hnew⟩
      · exact hold
      · have heq : channel.key = key := by simpa [channelKeys, eq_comm] using hnew
        exact absurd heq hadds
    exact ⟨fun other hother => hgone.marked other (hholds other hother),
      hgone.phase.mono hholds (fun _ h => h)⟩
  | userDelete radio keys delivered =>
    cases h
    have hdropped : Gone S origin key
        (s.dropKeys radio (keys.filter (fun k => !S.refuses radio k))) := by
      have hholds : ∀ other, (s.dropKeys radio (keys.filter (fun k => !S.refuses radio k))).Holds
          other key → s.Holds other key := fun other hother => (holds_dropKeys.mp hother).1
      exact ⟨fun other hother => hgone.marked other (hholds other hother),
        hgone.phase.mono hholds (fun _ h => h)⟩
    split_ifs
    · exact ⟨hdropped.marked, hdropped.phase⟩
    · exact hdropped
  | noteDeleted radio keys =>
    rw [State.step] at h
    split_ifs at h
    cases h
    exact gone_noteDeleted ⟨hgone.marked, hgone.phase⟩
  | startPass =>
    rw [State.step] at h
    split at h
    · cases h
      exact ⟨hgone.marked, beginDeletes_clear⟩
    · cases h
  | serve outcome => exact gone_serve hgone h
  | answer => exact gone_answer hgone h
  | abort =>
    rw [State.step] at h
    split at h
    · cases h
    · cases h
      exact ⟨hgone.marked, trivial⟩

end Clear

/-! ### The note -/

section Note

variable {S : Site ρ} {s : State ρ} {origin : ρ} {key : String}

theorem pending_noteDeleted {keys : List String} (hkey : key ∈ keys) {radio : ρ}
    (hne : radio ≠ origin) : key ∈ (noteDeleted S s origin keys).pending radio := by
  have hmem : radio ∈ S.radios.filter (fun radio => radio ≠ origin) :=
    List.mem_filter.mpr ⟨S.complete radio, decide_eq_true hne⟩
  rw [noteDeleted]
  rw [if_pos ⟨List.ne_nil_of_mem hkey, List.ne_nil_of_mem hmem⟩]
  exact mem_pending_addPending.mpr (Or.inr ⟨hmem, hkey⟩)

theorem noteDeleted_worker (keys : List String) :
    (noteDeleted S s origin keys).worker = s.worker := by
  rw [noteDeleted]
  split_ifs <;> rfl

theorem noteDeleted_phase (keys : List String) : (noteDeleted S s origin keys).phase = s.phase := by
  rw [noteDeleted]
  split_ifs <;> rfl

/-- **A note that finds things in order makes the channel gone.** -/
theorem gone_of_inOrder {keys : List String} (hkey : key ∈ keys) (h : InOrder S origin key s) :
    Gone S origin key (noteDeleted S s origin keys) := by
  have hholds : ∀ radio, (noteDeleted S s origin keys).Holds radio key → s.Holds radio key := by
    intro radio hradio
    rw [State.Holds, noteDeleted_worker] at hradio
    exact hradio
  refine ⟨?_, ?_⟩
  · intro radio hradio
    have hold := hholds radio hradio
    refine ⟨pending_noteDeleted hkey ?_, h.accepted radio hold⟩
    rintro rfl
    exact h.gone hold
  · rw [noteDeleted_phase]
    cases hphase : s.phase with
    | idle => trivial
    | deleting running radio heads todo reply =>
      intro r hr hsettles hhead hradio
      rw [hr] at hphase
      exact h.noReply running radio heads todo r hphase hsettles hhead (hholds radio hradio)
    | listing radio todo lists => exact Or.inr (fun other hne => pending_noteDeleted hkey hne)
    | adding plan radio requests todo reply => exact h.noAdd plan radio requests todo reply hphase

end Note

/-! ### A pass that every radio answers -/

/-- The radios a pass has gone by do not have the key. -/
def Swept (s : State ρ) (key : String) : Prop :=
  match s.phase with
  | .deleting _ radio keys todo reply =>
    ∀ other, s.Holds other key → other ∈ todo ∨
      (other = radio ∧ key ∈ if reply.isSome then keys.tail else keys)
  | _ => ∀ other, ¬ s.Holds other key

section Sweep

variable {S : Site ρ} {s t : State ρ} {origin : ρ} {key : String}

theorem beginAdds_not_deleting (S : Site ρ) (s : State ρ) (plan : Plan ρ) (todo : List ρ) :
    ∀ running radio keys rest reply,
      beginAdds S s plan todo ≠ .deleting running radio keys rest reply := by
  intro running radio keys rest reply
  induction todo with
  | nil =>
    rw [beginAdds]
    exact fun h => nomatch h
  | cons other todo ih =>
    rw [beginAdds]
    split_ifs
    · exact ih
    · exact fun h => nomatch h

theorem beginLists_not_deleting (S : Site ρ) (s : State ρ) (lists : List (ρ × List Channel))
    (todo : List ρ) : ∀ running radio keys rest reply,
      beginLists S s lists todo ≠ .deleting running radio keys rest reply := by
  intro running radio keys rest reply
  cases todo with
  | nil =>
    rw [beginLists, finishLists]
    split_ifs
    · exact fun h => nomatch h
    · exact beginAdds_not_deleting _ _ _ _ _ _ _ _ _
  | cons other todo =>
    rw [beginLists]
    exact fun h => nomatch h

omit [DecidableEq ρ] in
/-- Outside the deletes of a pass, swept means that nobody has the key. -/
theorem swept_of_not_deleting {phase : Phase ρ}
    (hphase : ∀ running radio keys rest reply, phase ≠ .deleting running radio keys rest reply)
    (h : ∀ other, ¬ s.Holds other key) : Swept { s with phase := phase } key := by
  cases phase with
  | deleting running radio keys rest reply => exact absurd rfl (hphase running radio keys rest reply)
  | idle => exact h
  | listing radio todo lists => exact h
  | adding plan radio requests todo reply => exact h

theorem swept_beginDeletes (hmarked : ∀ radio, s.Holds radio key → key ∈ s.pending radio)
    {running todo : List ρ} (htodo : ∀ other, s.Holds other key → other ∈ todo) :
    Swept { s with phase := beginDeletes S s running todo } key := by
  induction todo with
  | nil =>
    exact swept_of_not_deleting (beginLists_not_deleting _ _ _ _)
      (fun other hother => absurd (htodo other hother) List.not_mem_nil)
  | cons radio rest ih =>
    rw [beginDeletes]
    split_ifs with hnone
    · apply ih
      intro other hother
      rcases List.mem_cons.mp (htodo other hother) with rfl | hrest
      · have hmark := hmarked other hother
        rw [hnone] at hmark
        cases hmark
      · exact hrest
    · intro other hother
      rcases List.mem_cons.mp (htodo other hother) with rfl | hrest
      · exact Or.inr ⟨rfl, hmarked other hother⟩
      · exact Or.inl hrest

omit [DecidableEq ρ] in
theorem Swept.mono (h : Swept s key) (hphase : t.phase = s.phase)
    (hholds : ∀ radio, t.Holds radio key → s.Holds radio key) : Swept t key := by
  rw [Swept] at h ⊢
  rw [hphase]
  split
  · rename_i running radio keys todo reply hs
    rw [hs] at h
    exact fun other hother => h other (hholds other hother)
  · rename_i hs
    intro other hother
    split at h
    · rename_i running radio keys todo reply heq
      exact absurd heq (hs running radio keys todo reply)
    · exact h other (hholds other hother)

theorem swept_serve (hgone : Gone S origin key s) (hswept : Swept s key)
    (h : serve S s .served = some t) : Swept t key := by
  have hphase := hgone.phase
  rw [Swept] at hswept
  unfold serve at h
  split at h
  · rename_i running radio head keys todo hs
    rw [hs] at hswept
    cases h
    intro other hother
    obtain ⟨hholds, -, hsettled⟩ := serveDelete_clear radio head .served hgone
    have hserved : (serveDelete S s radio head .served).1.Holds other key := hother
    have hsettles : settles (serveDelete S s radio head .served).2 = true := by
      rw [serveDelete]
      split_ifs <;> rfl
    have hcases : s.Holds other key ∧ (other = radio → head ≠ key) := by
      refine ⟨hholds other hserved, ?_⟩
      rintro rfl heq
      exact hsettled hsettles heq hserved
    rcases hswept other hcases.1 with htodo | ⟨rfl, hmem⟩
    · exact Or.inl htodo
    · refine Or.inr ⟨rfl, ?_⟩
      have hne := hcases.2 rfl
      simp only [Option.isSome_none, Bool.false_eq_true, if_false, List.mem_cons] at hmem
      rcases hmem with heq | htail
      · exact absurd heq.symm hne
      · exact htail
  · rename_i radio todo lists hs
    rw [hs] at hswept
    cases h
    exact swept_of_not_deleting (beginLists_not_deleting _ _ _ _) hswept
  · rename_i plan radio request requests todo hs
    rw [hs] at hswept hphase
    cases h
    obtain ⟨hholds, -⟩ := serveAdd_clear s radio .served
      (hphase.1 request List.mem_cons_self)
    exact fun other hother => hswept other (hholds other hother)
  · cases h

theorem swept_answer (hgone : Gone S origin key s) (hswept : Swept s key)
    (h : answer S s = some t) : Swept t key := by
  have hgoneT := gone_answer hgone h
  rw [Swept] at hswept
  unfold answer at h
  split at h
  · rename_i running radio head keys todo reply hs
    rw [hs] at hswept
    cases h
    have hkeep : ∀ u : State ρ, u.worker = s.worker →
        (∀ other, u.Holds other key → key ∈ u.pending other) →
          Swept { u with
            phase :=
              if keys = [] then beginDeletes S u running todo
              else .deleting running radio keys todo none } key := by
      intro u hworker hmarked
      have hholds : ∀ other, u.Holds other key → s.Holds other key := by
        intro other hother
        rw [State.Holds, hworker] at hother
        exact hother
      split_ifs with hnil
      · apply swept_beginDeletes hmarked
        intro other hother
        rcases hswept other (hholds other hother) with htodo | ⟨-, hmem⟩
        · exact htodo
        · simp [hnil] at hmem
      · intro other hother
        exact hswept other (hholds other hother)
    apply hkeep
    · split_ifs <;> rfl
    · exact fun other hother => (hgoneT.marked other hother).1
  · rename_i plan radio request requests todo reply hs
    rw [hs] at hswept
    cases h
    have hkeep : ∀ u : State ρ, u.worker = s.worker →
        Swept { u with
          phase :=
            if requests = [] then beginAdds S u plan todo
            else .adding plan radio requests todo none } key := by
      intro u hworker
      have hnone : ∀ other, ¬ u.Holds other key := by
        intro other hother
        rw [State.Holds, hworker] at hother
        exact hswept other hother
      split_ifs
      · exact swept_of_not_deleting (beginAdds_not_deleting _ _ _ _) hnone
      · exact hnone
    apply hkeep
    split_ifs <;> rfl
  · cases h

end Sweep

/-! ### Runs -/

abbrev SyncEvent (ρ : Type) := Event (State ρ) (Label ρ)

/-- The worker of a radio is asked to add the key. -/
def Receives (e : SyncEvent ρ) (radio : ρ) (key : String) : Prop :=
  ∃ outcome plan request requests todo, e.label = .serve outcome ∧
    e.pre.phase = .adding plan radio (request :: requests) todo none ∧
      key ∈ channelKeys request.channels

/-- A pass that finds every worker running and has every request served. -/
structure AnsweredPass (pass : List (SyncEvent ρ)) : Prop where
  begins : ∃ first rest, pass = first :: rest ∧ first.label = .startPass ∧
    (∀ radio, (first.pre.worker radio).running = true) ∧
      ∀ e ∈ rest, e.label ≠ .startPass ∧ e.label ≠ .abort ∧
        ∀ outcome, e.label = .serve outcome → outcome = .served

/-- No radio without the channel is asked to add it, and a pass that every radio answers
leaves it on no radio that would delete it. -/
structure StaysDeleted (S : Site ρ) (key : String) (h : List (SyncEvent ρ)) : Prop where
  safe : ∀ e ∈ h, ∀ radio, Receives e radio key → e.pre.Holds radio key
  cleared : ∀ before pass after last, h = before ++ pass ++ after → AnsweredPass pass →
    pass.getLast? = some last → last.post.phase = .idle →
      ∀ radio, S.refuses radio key = false → ¬ last.post.Holds radio key

section Runs

variable {S : Site ρ} {s t : State ρ} {origin : ρ} {key : String} {h : List (SyncEvent ρ)}

theorem gone_run (r : Run (Step S) s h t) (hadds : ∀ e ∈ h, ¬ AddsKey key e.label)
    (hgone : Gone S origin key s) : Gone S origin key t :=
  r.invariant hadds (fun _ hstep hnot hpre => gone_step hpre hstep hnot) hgone

theorem not_receives (hgone : Gone S origin key s) {e : SyncEvent ρ} (hpre : e.pre = s)
    (radio : ρ) : ¬ Receives e radio key := by
  rintro ⟨outcome, plan, request, requests, todo, -, hphase, hkey⟩
  have hclear := hgone.phase
  rw [← hpre, hphase] at hclear
  exact hclear.1 request List.mem_cons_self hkey

/-- **A step of an answered pass goes on sweeping.** -/
theorem swept_step {e : SyncEvent ρ} (hstep : Step S e.pre e.label e.post)
    (hadds : ¬ AddsKey key e.label) (hstart : e.label ≠ .startPass) (habort : e.label ≠ .abort)
    (hserved : ∀ outcome, e.label = .serve outcome → outcome = .served)
    (hgone : Gone S origin key e.pre) (hswept : Swept e.pre key) : Swept e.post key := by
  obtain ⟨pre, label, post⟩ := e
  simp only at hstep hadds hstart habort hserved hgone hswept ⊢
  cases label with
  | setWorker radio running token =>
    cases hstep
    refine hswept.mono rfl (fun other hother => ?_)
    rw [State.Holds, State.setWorker] at hother
    by_cases heq : other = radio
    · subst heq
      simpa [State.Holds] using hother
    · simpa [State.Holds, Function.update_of_ne heq] using hother
  | localAdd radio channel =>
    cases hstep
    refine hswept.mono rfl (fun other hother => ?_)
    rcases holds_addChannels.mp hother with hold | ⟨-, hnew⟩
    · exact hold
    · have heq : channel.key = key := by simpa [channelKeys, eq_comm] using hnew
      exact absurd heq hadds
  | userDelete radio keys delivered =>
    cases hstep
    have hdropped := hswept.mono (show (pre.dropKeys radio (keys.filter (fun k =>
      !S.refuses radio k))).phase = pre.phase from rfl) (fun other hother => (holds_dropKeys.mp hother).1)
    split_ifs
    · exact hdropped.mono rfl (fun _ hother => hother)
    · exact hdropped
  | noteDeleted radio keys =>
    rw [Step, State.step] at hstep
    split_ifs at hstep
    cases hstep
    refine hswept.mono (noteDeleted_phase keys) (fun other hother => ?_)
    rw [State.Holds, noteDeleted_worker] at hother
    exact hother
  | startPass => exact absurd rfl hstart
  | serve outcome =>
    cases hserved outcome rfl
    exact swept_serve hgone hswept hstep
  | answer => exact swept_answer hgone hswept hstep
  | abort => exact absurd rfl habort

/-- **The first request of a pass finds every radio still ahead.** -/
theorem swept_startPass (hgone : Gone S origin key s)
    (hrunning : ∀ radio, (s.worker radio).running = true)
    (hstep : Step S s .startPass t) : Swept t key := by
  rw [Step, State.step] at hstep
  split at hstep
  · cases hstep
    apply swept_beginDeletes (fun radio hradio => (hgone.marked radio hradio).1)
    exact fun other _ => List.mem_filter.mpr ⟨S.complete other, hrunning other⟩
  · cases hstep

theorem swept_run {u : State ρ} (r : Run (Step S) s h u) (hadds : ∀ e ∈ h, ¬ AddsKey key e.label)
    (hpass : ∀ e ∈ h, e.label ≠ .startPass ∧ e.label ≠ .abort ∧
      ∀ outcome, e.label = .serve outcome → outcome = .served)
    (hgone : Gone S origin key s) (hswept : Swept s key) : Swept u key := by
  have hboth : Gone S origin key u ∧ Swept u key := by
    refine r.invariant (P := fun u => Gone S origin key u ∧ Swept u key)
      (C := fun e => ¬ AddsKey key e.label ∧ (e.label ≠ .startPass ∧ e.label ≠ .abort ∧
        ∀ outcome, e.label = .serve outcome → outcome = .served))
      (fun e he => ⟨hadds e he, hpass e he⟩) ?_ ⟨hgone, hswept⟩
    intro e hstep hC hpre
    exact ⟨gone_step hpre.1 hstep hC.1,
      swept_step hstep hC.1 hC.2.1 hC.2.2.1 hC.2.2.2 hpre.1 hpre.2⟩
  exact hboth.2

/-- **A channel that is gone stays deleted.** -/
theorem staysDeleted_of_gone (r : Run (Step S) s h t) (hadds : ∀ e ∈ h, ¬ AddsKey key e.label)
    (hgone : Gone S origin key s) : StaysDeleted S key h := by
  refine ⟨?_, ?_⟩
  · intro e he radio hreceives
    obtain ⟨h₁, h₂, rfl⟩ := List.append_of_mem he
    obtain ⟨r₁, -, -⟩ := r.at_event
    have hpre := gone_run r₁ (fun x hx => hadds x (List.mem_append_left _ hx)) hgone
    exact absurd hreceives (not_receives hpre rfl radio)
  · intro before pass after last hsplit hanswered hlast hidle radio _ hholds
    subst hsplit
    obtain ⟨first, rest, rfl, hstart, hrunning, hrest⟩ := hanswered.begins
    obtain ⟨u, rpass, -⟩ := r.split
    obtain ⟨v, rbefore, rpass⟩ := rpass.split
    obtain ⟨rnil, hstep, rrest⟩ : Run (Step S) v [] first.pre ∧
        Step S first.pre first.label first.post ∧ Run (Step S) first.post rest u :=
      Run.at_event (show Run (Step S) v ([] ++ first :: rest) u from rpass)
    have hgoneV : Gone S origin key first.pre := by
      refine gone_run (rbefore.append rnil) ?_ hgone
      intro e he
      rw [List.append_nil] at he
      exact hadds e (by simp [he])
    rw [hstart] at hstep
    have hgonePost := gone_step hgoneV hstep (show ¬ AddsKey key (Label.startPass : Label ρ) from id)
    have hswept := swept_run rrest (fun e he => hadds e (by simp [he])) hrest hgonePost
      (swept_startPass hgoneV hrunning hstep)
    have hend : last.post = u := rpass.post_of_getLast hlast
    rw [Swept, ← hend, hidle] at hswept
    exact hswept radio hholds

/-- **A deleted channel stays deleted if its note finds things in order.** -/
theorem stays_deleted {h₁ h₂ : List (SyncEvent ρ)} {before after : State ρ} {keys : List String}
    (r : Run (Step S) s (h₁ ++ ⟨before, .noteDeleted origin keys, after⟩ :: h₂) t)
    (hkey : key ∈ keys) (horder : InOrder S origin key before)
    (hadds : ∀ e ∈ h₂, ¬ AddsKey key e.label) : StaysDeleted S key h₂ := by
  obtain ⟨-, hstep, r₂⟩ := r.at_event
  have hgone : Gone S origin key after := by
    have hstep : before.step S (.noteDeleted origin keys) = some after := hstep
    rw [State.step] at hstep
    split_ifs at hstep
    rw [← Option.some.inj hstep]
    exact gone_of_inOrder hkey ⟨horder.gone, horder.accepted, horder.noReply, horder.noAdd⟩
  exact staysDeleted_of_gone r₂ hadds hgone

end Runs

/-! ### Two radios -/

def twoRadios : Site Bool where
  radios := [false, true]
  complete := by decide
  hashtagKey := id
  refuses := fun _ _ => false

def family : Channel := { key := "AA", name := "Family", isHashtag := false }

/-- One radio has deleted the channel, the other still has it. -/
def halfDeleted : State Bool where
  worker := fun radio => { channels := if radio then [family] else [] }
  answered := [(false, ["AA"])]

theorem inOrder_halfDeleted : InOrder twoRadios false "AA" halfDeleted where
  gone := by decide
  accepted := fun _ _ => rfl
  noReply := fun _ _ _ _ _ h => nomatch h
  noAdd := fun _ _ _ _ _ h => nomatch h

theorem stays_deleted_twoRadios :
    ∃ (after t : State Bool) (pass : List (SyncEvent Bool)),
      Run (Step twoRadios) halfDeleted
        ([] ++ ⟨halfDeleted, .noteDeleted false ["AA"], after⟩ :: pass) t ∧
      pass.map Event.label = [.startPass, .serve .served, .answer, .serve .served, .serve .served] ∧
      StaysDeleted twoRadios "AA" pass := by
  obtain ⟨after, hafter⟩ : ∃ after, halfDeleted.step twoRadios (.noteDeleted false ["AA"]) =
      some after := ⟨_, rfl⟩
  obtain ⟨pass, t, r, hlabels, -⟩ := Run.exists_of_trace (State.step twoRadios) after
    [.startPass, .serve .served, .answer, .serve .served, .serve .served] (fun _ => true)
    (by cases hafter; decide +kernel)
  have hrun : Run (Step twoRadios) halfDeleted
      ([] ++ ⟨halfDeleted, .noteDeleted false ["AA"], after⟩ :: pass) t :=
    (Run.single hafter).append r
  have hadds : ∀ e ∈ pass, ¬ AddsKey "AA" e.label := by
    intro e he
    have hmem := List.mem_map_of_mem (f := Event.label) he
    rw [hlabels] at hmem
    simp only [List.mem_cons, List.not_mem_nil, or_false] at hmem
    rcases hmem with h | h | h | h | h <;> rw [h] <;> exact id
  exact ⟨after, t, pass, hrun, hlabels,
    stays_deleted hrun (by decide) inOrder_halfDeleted hadds⟩

/-- Whether the event asks a worker without the channel to add it. -/
def bringsBack (e : SyncEvent Bool) : Bool :=
  match e.pre.phase with
  | .adding _ radio (request :: _) _ none =>
    (channelKeys request.channels).contains "AA" && !(e.pre.Holds radio "AA")
  | _ => false

/-- The delete is noted after a pass has found the channel on one list and missing on the
other: the pass gives it back to the radio that deleted it. -/
theorem not_forall_stays_deleted :
    ¬ ∀ (S : Site Bool) (s t : State Bool) (h₁ h₂ h₃ : List (SyncEvent Bool))
      (deleted noted : SyncEvent Bool) (origin : Bool) (keys : List String) (key : String),
      s.phase = .idle → Run (Step S) s (h₁ ++ deleted :: (h₂ ++ noted :: h₃)) t →
        deleted.label = .userDelete origin keys true → noted.label = .noteDeleted origin keys →
          key ∈ keys → (∀ radio, S.refuses radio key = false) →
            (∀ e ∈ h₂ ++ h₃, ¬ AddsKey key e.label) → StaysDeleted S key h₃ := by
  intro hall
  let shared : State Bool := { worker := fun _ => { channels := [family] } }
  obtain ⟨h, t, r, hlabels, hbad⟩ := Run.exists_of_trace (State.step twoRadios) shared
    [.startPass, .userDelete false ["AA"] true, .serve .served, .serve .served,
      .noteDeleted false ["AA"], .serve .served]
    (fun x => (x.1.getLast?.map bringsBack).getD false) (by decide +kernel)
  obtain ⟨e₁, h, rfl, he₁, hlabels⟩ := List.map_eq_cons_iff.mp hlabels
  obtain ⟨e₂, h, rfl, he₂, hlabels⟩ := List.map_eq_cons_iff.mp hlabels
  obtain ⟨e₃, h, rfl, he₃, hlabels⟩ := List.map_eq_cons_iff.mp hlabels
  obtain ⟨e₄, h, rfl, he₄, hlabels⟩ := List.map_eq_cons_iff.mp hlabels
  obtain ⟨e₅, h, rfl, he₅, hlabels⟩ := List.map_eq_cons_iff.mp hlabels
  obtain ⟨e₆, h, rfl, he₆, hlabels⟩ := List.map_eq_cons_iff.mp hlabels
  rw [List.map_eq_nil_iff] at hlabels
  subst hlabels
  have hadds : ∀ e ∈ [e₃, e₄] ++ [e₆], ¬ AddsKey "AA" e.label := by
    intro e he
    simp only [List.cons_append, List.nil_append, List.mem_cons, List.not_mem_nil, or_false] at he
    rcases he with rfl | rfl | rfl
    · rw [he₃]; exact id
    · rw [he₄]; exact id
    · rw [he₆]; exact id
  have hstays := hall twoRadios shared t [e₁] [e₃, e₄] [e₆] e₂ e₅ false ["AA"] "AA" rfl r he₂ he₅
    (by decide) (fun _ => rfl) hadds
  have hbrings : bringsBack e₆ = true := hbad
  unfold bringsBack at hbrings
  split at hbrings
  · rename_i plan radio request requests todo hphase
    simp only [Bool.and_eq_true, List.contains_iff_mem, Bool.not_eq_true',
      decide_eq_false_iff_not] at hbrings
    exact hbrings.2 (hstays.safe e₆ (by simp) radio
      ⟨.served, plan, request, requests, todo, he₆, hphase, hbrings.1⟩)
  · cases hbrings

end RtfmEv.Gateway
