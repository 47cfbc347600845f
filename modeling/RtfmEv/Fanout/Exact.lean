import RtfmEv.Fanout.Manager

/-!
# What keeps the running modules registered

The lock of a configuration keeps its reloads and restarts apart. A delete request,
`load_from_db` and `stop_all` do not take it, so a step of theirs is asked to leave alone
a start that is under way. The invariant says who will stop a module that runs and is
not registered, and who will remove a module whose row is gone or disabled.
-/

namespace RtfmEv.Fanout

/-! ### Phases -/

namespace Phase

/-- The lock that a call has. -/
def lock? : Phase → Option ℕ
  | removing lock _ => lock
  | reading l => some l
  | read l _ => some l
  | starting l _ => some l
  | stopping l _ => some l
  | restarting l _ => some l
  | _ => none

/-- A new module is to be registered if its start succeeds. -/
def brings : Phase → Bool
  | read _ enabled => enabled
  | starting _ _ => true
  | _ => false

/-- A reload that has removed the old module and may start a new one. -/
def reloads : Phase → Bool
  | removing lock _ => lock.isSome
  | reading _ => true
  | phase => phase.brings

/-- The module that is being restarted. -/
def restarts : Phase → Option ℕ
  | stopping _ m => some m
  | restarting _ m => some m
  | _ => none

/-- A start is under way that nothing but its failure prevents. -/
def underWay (phase : Phase) : Bool := phase.brings || phase.restarts.isSome

/-- The module that `remove_config` is stopping. -/
def removes : Phase → Option ℕ
  | removing _ m => some m
  | _ => none

end Phase

namespace Call

/-- A delete request between the removal of the module and that of the row. -/
def deleting : Call → Bool
  | ⟨_, .removing none _⟩ => true
  | ⟨.update _ _, .writing⟩ => false
  | ⟨_, .writing⟩ => true
  | _ => false

/-- A call that is certain to remove the module that it will find. -/
def toRemove : Call → Bool
  | ⟨.create enabled, .written _⟩ => enabled
  | ⟨.update _ _, .written found⟩ => found
  | ⟨.restart _, .waiting _⟩ => false
  | ⟨_, .waiting _⟩ => true
  | ⟨.delete, .checked found⟩ => found
  | _ => false

/-- A delete request that goes on to remove the module. -/
def goesToDelete : Call → Bool
  | ⟨.delete, .checked found⟩ => found
  | _ => false

/-- A reload that goes on to read the row. -/
def goesToRead : Call → Bool
  | ⟨_, .reading _⟩ => true
  | _ => false

end Call

/-! ### What is asked of a step -/

namespace Config

/-- A delete request removes the module while no start is under way, and a reload does not
read an enabled row while a delete request is about to delete it. When a call gets a lock,
no other one works under a lock that `stop_all` has forgotten. -/
def Calm (s : Config) : ConfigOp → Prop
  | .resumes i => (s.calls[i]?).any Call.goesToDelete = true →
      ∀ call ∈ s.calls, call.phase.underWay = false
  | .reads i => (s.calls[i]?).any Call.goesToRead = true → s.row = some true →
      ∀ call ∈ s.calls, call.deleting = false
  | .acquires i => ∀ call ∈ s.calls, call.phase.lock?.all
      (fun l => (s.calls[i]?).any (fun call => call.phase = .waiting l)) = true
  | _ => True

/-- A start outside the lock ends well only where it is alone: no module is registered, no
call has removed one and goes on, and the row is enabled or a call will remove the module. -/
structure Free (s : Config) : Prop where
  registered : s.registered = none
  reloads : ∀ call ∈ s.calls, call.phase.reloads = false
  deleting : ∀ call ∈ s.calls, call.deleting = false
  row : s.row = some true ∨ ∃ call ∈ s.calls, call.toRemove = true

/-- A configuration that `stop_all` may forget: its module has been stopped, and is not
being started again. -/
structure Stopped (s : Config) : Prop where
  registered : s.registered.all (fun m => !s.running m) = true
  restarts : ∀ call ∈ s.calls, call.phase.restarts = none

end Config

/-- `stop_all` comes to its end only where every configuration may be forgotten. -/
def State.MayClear (s : State) (rest : List (ℕ × ℕ)) : Prop :=
  rest = [] → ∀ config ∈ s.configs, config.Stopped

/-- What the theorem asks of a step. -/
def State.Calm (s : State) : Op → Prop
  | .on c op => ∀ config ∈ s.configs[c]?, config.Calm op
  | .loadStarted k false => ∀ load ∈ s.loads[k]?, load.starting.isSome = true →
      ∀ c ∈ load.rest.bind List.head?, ∀ config ∈ s.configs[c]?, config.Free
  | .stopsAll => s.MayClear s.snapshot
  | .allStopped k _ => ∀ rest ∈ s.shutdowns[k]?, ∀ p ∈ rest.head?, ∀ config ∈ s.configs[p.1]?,
      (s.setConfig p.1 (config.setRunning p.2 false)).MayClear rest.tail
  | _ => True

/-! ### The invariant of a configuration -/

namespace Config

/-- Call `i` of the configuration. -/
def At (s : Config) (i : ℕ) (call : Call) : Prop := s.calls[i]? = some call

variable {i j : ℕ} {call call' : Call} {s : Config}

theorem At.mem (h : s.At i call) : call ∈ s.calls :=
  List.mem_of_getElem? h

theorem exists_at (h : call ∈ s.calls) : ∃ i, s.At i call :=
  List.mem_iff_getElem?.mp h

theorem At.unique (h : s.At i call) (h' : s.At i call') :
    call = call' := Option.some.inj (h.symm.trans h')

theorem at_setPhase {phase : Phase} : (s.setPhase i phase).At j call ↔
      ∃ call', s.At j call' ∧ call = if i = j then { call' with phase := phase } else call' := by
  unfold At setPhase
  rw [List.getElem?_modify]
  cases s.calls[j]? with
  | none => simp
  | some call' => simp [eq_comm]

theorem At.setPhase (h : s.At i call) (phase : Phase) :
    (s.setPhase i phase).At i { call with phase := phase } :=
  at_setPhase.mpr ⟨call, h, by rw [if_pos rfl]⟩

theorem At.setPhase_other (h : s.At j call) (hij : i ≠ j)
    (phase : Phase) : (s.setPhase i phase).At j call :=
  at_setPhase.mpr ⟨call, h, by rw [if_neg hij]⟩

theorem At.cases {phase : Phase} (h : s.At i call) (hj : (s.setPhase i phase).At j call') :
    i = j ∧ call' = { call with phase := phase } ∨ i ≠ j ∧ s.At j call' := by
  obtain ⟨call₀, hcall₀, rfl⟩ := at_setPhase.mp hj
  by_cases hij : i = j
  · rw [if_pos hij]
    subst hij
    exact Or.inl ⟨rfl, by rw [h.unique hcall₀]⟩
  · rw [if_neg hij]
    exact Or.inr ⟨hij, hcall₀⟩

/-- Some call is certain to remove the module that it will find. -/
def ToRemove (s : Config) : Prop := ∃ i call, s.At i call ∧ call.toRemove = true

/-- No start of a reload is under way. -/
def NoneBrought (s : Config) : Prop := ∀ i call, s.At i call → call.phase.brings = false

/-- The calls on a configuration do not come into each other's way. -/
structure Apart (s : Config) : Prop where
  locked : ∀ i call l, s.At i call → call.phase.lock? = some l → s.locked l = true
  /-- one call at most has a lock -/
  one : ∀ i j call call', s.At i call → s.At j call' → call.phase.lock?.isSome = true →
    call'.phase.lock?.isSome = true → i = j
  reloads : ∀ i call, s.At i call → call.phase.reloads = true → s.registered = none
  restarts : ∀ i call m, s.At i call → call.phase.restarts = some m → s.registered = some m
  deleting : ∀ i call, s.At i call → call.deleting = true → s.registered = none ∧ s.NoneBrought
  row : s.row ≠ some true → s.registered = none ∨ s.ToRemove
  brings : ∀ i call, s.At i call → call.phase.brings = true → s.row = some true ∨ s.ToRemove

/-- Between any two steps. A module that runs is registered, or about to be stopped. -/
structure Sound (s : Config) : Prop extends s.Apart where
  running : ∀ m, s.running m = true →
    s.registered = some m ∨ ∃ i call, s.At i call ∧ call.phase.removes = some m

/-- What a call may go on to without a change of the configuration. -/
structure MayGo (s : Config) (call : Call) (phase : Phase) : Prop where
  lock : ∀ l, phase.lock? = some l → call.phase.lock? = some l ∨
    s.locked l = true ∧ ∀ i call, s.At i call → call.phase.lock? = none
  reloads : phase.reloads = true → s.registered = none
  restarts : ∀ m, phase.restarts = some m → s.registered = some m
  deleting : ({ call with phase := phase } : Call).deleting = true →
    s.registered = none ∧ s.NoneBrought ∧ phase.brings = false
  brings : phase.brings = true → call.phase.brings = true ∨
    s.row = some true ∧ ∀ i call, s.At i call → call.deleting = false
  toRemove : call.toRemove = true → ({ call with phase := phase } : Call).toRemove = true ∨
    s.registered = none ∧ s.NoneBrought

/-! ### Small changes keep the invariant -/

section

variable {s : Config} {phase : Phase} {call : Call} {i m : ℕ}

theorem MayGo.toRemove_or (hgo : s.MayGo call phase) (hi : s.At i call) (h : s.ToRemove) :
    (s.setPhase i phase).ToRemove ∨ s.registered = none ∧ s.NoneBrought := by
  obtain ⟨j, call', hj, hremove⟩ := h
  by_cases hij : i = j
  · subst hij
    rw [← hi.unique hj] at hremove
    rcases hgo.toRemove hremove with hremove | hnone
    · exact Or.inl ⟨i, _, hi.setPhase phase, hremove⟩
    · exact Or.inr hnone
  · exact Or.inl ⟨j, call', hj.setPhase_other hij phase, hremove⟩

/-- **A call goes on** without a change of the configuration. -/
theorem Apart.goes (h : s.Apart) (hi : s.At i call)
    (hgo : s.MayGo call phase) : (s.setPhase i phase).Apart := by
  refine ⟨fun j call' l hj hl => ?_, fun j j' call' call'' hj hj' hl hl' => ?_,
    fun j call' hj hreloads => ?_, fun j call' m hj hm => ?_, fun j call' hj hdeleting => ?_,
    fun hrow => ?_, fun j call' hj hbrings => ?_⟩
  · show s.locked l = true
    rcases hi.cases hj with ⟨rfl, rfl⟩ | ⟨_, hj⟩
    · rcases hgo.lock l hl with hlock | ⟨hlocked, _⟩
      · exact h.locked i call l hi hlock
      · exact hlocked
    · exact h.locked j call' l hj hl
  · have hothers : ∀ j call', s.At j call' → i ≠ j → phase.lock?.isSome = true →
        call'.phase.lock?.isSome = true → False := by
      intro j call' hj hij hphase hcall'
      obtain ⟨l, hl⟩ := Option.isSome_iff_exists.mp hphase
      rcases hgo.lock l hl with hlock | ⟨_, hnone⟩
      · exact hij (h.one i j call call' hi hj (by rw [hlock]; rfl) hcall')
      · rw [hnone j call' hj] at hcall'
        cases hcall'
    rcases hi.cases hj with ⟨rfl, rfl⟩ | ⟨hij, hj⟩
    · rcases hi.cases hj' with ⟨rfl, rfl⟩ | ⟨hij', hj'⟩
      · rfl
      · exact (hothers j' call'' hj' hij' hl hl').elim
    · rcases hi.cases hj' with ⟨rfl, rfl⟩ | ⟨_, hj'⟩
      · exact (hothers j call' hj hij hl' hl).elim
      · exact h.one j j' call' call'' hj hj' hl hl'
  · show s.registered = none
    rcases hi.cases hj with ⟨rfl, rfl⟩ | ⟨_, hj⟩
    · exact hgo.reloads hreloads
    · exact h.reloads j call' hj hreloads
  · show s.registered = some m
    rcases hi.cases hj with ⟨rfl, rfl⟩ | ⟨_, hj⟩
    · exact hgo.restarts m hm
    · exact h.restarts j call' m hj hm
  · have hnone : s.registered = none ∧ s.NoneBrought ∧ phase.brings = false := by
      rcases hi.cases hj with ⟨rfl, rfl⟩ | ⟨hij, hj⟩
      · exact hgo.deleting hdeleting
      · obtain ⟨hregistered, hnone⟩ := h.deleting j call' hj hdeleting
        refine ⟨hregistered, hnone, ?_⟩
        by_contra hbrings
        rcases hgo.brings (by simpa using hbrings) with hold | ⟨_, hnot⟩
        · exact absurd (hold.symm.trans (hnone i call hi)) (by simp)
        · exact absurd (hdeleting.symm.trans (hnot j call' hj)) (by simp)
    refine ⟨hnone.1, fun j' call'' hj' => ?_⟩
    rcases hi.cases hj' with ⟨rfl, rfl⟩ | ⟨_, hj'⟩
    · exact hnone.2.2
    · exact hnone.2.1 j' call'' hj'
  · rcases h.row hrow with hregistered | hremove
    · exact Or.inl hregistered
    · rcases hgo.toRemove_or hi hremove with hremove | ⟨hregistered, _⟩
      · exact Or.inr hremove
      · exact Or.inl hregistered
  · have hold : s.row = some true ∨ s.ToRemove ∧ ¬ s.NoneBrought := by
      rcases hi.cases hj with ⟨rfl, rfl⟩ | ⟨_, hj⟩
      · rcases hgo.brings hbrings with hbrings | ⟨hrow, _⟩
        · refine (h.brings i call hi hbrings).imp_right (fun hremove => ⟨hremove, fun hnone => ?_⟩)
          exact absurd (hbrings.symm.trans (hnone i call hi)) (by simp)
        · exact Or.inl hrow
      · refine (h.brings j call' hj hbrings).imp_right (fun hremove => ⟨hremove, fun hnone => ?_⟩)
        exact absurd (hbrings.symm.trans (hnone j call' hj)) (by simp)
    rcases hold with hrow | ⟨hremove, hsome⟩
    · exact Or.inl hrow
    · rcases hgo.toRemove_or hi hremove with hremove | ⟨_, hnone⟩
      · exact Or.inr hremove
      · exact absurd hnone hsome

/-- The call that goes on has not been stopping a module that runs. -/
theorem Sound.goes (h : s.Sound) (hi : s.At i call)
    (hremoves : ∀ m, call.phase.removes = some m → s.running m = false)
    (hgo : s.MayGo call phase) : (s.setPhase i phase).Sound := by
  refine ⟨h.toApart.goes hi hgo, fun m hm => ?_⟩
  rcases h.running m hm with hregistered | ⟨j, call', hj, hcall'⟩
  · exact Or.inl hregistered
  · by_cases hij : i = j
    · subst hij
      rw [← hi.unique hj] at hcall'
      exact absurd (hm.symm.trans (hremoves m hcall')) (by simp)
    · exact Or.inr ⟨j, call', hj.setPhase_other hij phase, hcall'⟩

/-- The invariant does not speak of what makes new locks and new modules. -/
theorem Sound.of_eq {s' : Config} (h : s.Sound) (hrow : s'.row = s.row)
    (hregistered : s'.registered = s.registered) (hrunning : s'.running = s.running)
    (hlocked : s'.locked = s.locked) (hcalls : s'.calls = s.calls) : s'.Sound := by
  cases s
  cases s'
  subst hrow hregistered hrunning hlocked hcalls
  exact ⟨⟨h.locked, h.one, h.reloads, h.restarts, h.deleting, h.row, h.brings⟩, h.running⟩

theorem Sound.stops (h : s.Sound) (m : ℕ) : (s.setRunning m false).Sound := by
  refine ⟨⟨h.locked, h.one, h.reloads, h.restarts, h.deleting, h.row, h.brings⟩,
    fun m' hm' => ?_⟩
  have hrunning : Function.update s.running m false m' = true := hm'
  rw [Function.update_apply] at hrunning
  split_ifs at hrunning
  exact h.running m' hrunning

theorem running_setRunning (s : Config) (m : ℕ) (running : Bool) :
    (s.setRunning m running).running m = running := Function.update_self ..

theorem Sound.restarts_running (h : s.Sound) (hm : s.registered = some m) :
    (s.setRunning m true).Sound := by
  refine ⟨⟨h.locked, h.one, h.reloads, h.restarts, h.deleting, h.row, h.brings⟩,
    fun m' hm' => ?_⟩
  have hrunning : Function.update s.running m true m' = true := hm'
  rw [Function.update_apply] at hrunning
  split_ifs at hrunning with heq
  · rw [heq]
    exact Or.inl hm
  · exact h.running m' hrunning

theorem Sound.setLocked (h : s.Sound) {l : ℕ} (locked : Bool)
    (hfree : ∀ i call, s.At i call → call.phase.lock? ≠ some l) :
    (s.setLocked l locked).Sound := by
  refine ⟨⟨fun i call l' hi hl => ?_, h.one, h.reloads, h.restarts, h.deleting, h.row, h.brings⟩,
    h.running⟩
  have hne : l' ≠ l := by
    rintro rfl
    exact hfree i call hi hl
  show Function.update s.locked l locked l' = true
  rw [Function.update_of_ne hne]
  exact h.locked i call l' hi hl

theorem Apart.forgets (h : s.Apart)
    (hrestarts : ∀ i call, s.At i call → call.phase.restarts = none) :
    ({ s with registered := none } : Config).Apart := by
  refine ⟨h.locked, h.one, fun _ _ _ _ => rfl, fun i call m hi hm => ?_,
    fun i call hi hdeleting => ⟨rfl, (h.deleting i call hi hdeleting).2⟩, fun _ => Or.inl rfl,
    h.brings⟩
  exact absurd (hm.symm.trans (hrestarts i call hi)) (by simp)

theorem Sound.forgets (h : s.Sound) (hstopped : ∀ m, s.registered = some m → s.running m = false)
    (hrestarts : ∀ i call, s.At i call → call.phase.restarts = none) :
    ({ s with registered := none } : Config).Sound := by
  refine ⟨h.toApart.forgets hrestarts, fun m hm => ?_⟩
  rcases h.running m hm with hregistered | hremoves
  · exact absurd (hm.symm.trans (hstopped m hregistered)) (by simp)
  · exact Or.inr hremoves

/-- A module is registered where no other one is, and none is removed meanwhile. -/
theorem Sound.registers (h : s.Sound) (hfree : s.registered = none)
    (hreloads : ∀ i call, s.At i call → call.phase.reloads = false)
    (hdeleting : ∀ i call, s.At i call → call.deleting = false)
    (hrow : s.row = some true ∨ s.ToRemove) (m : ℕ) :
    ((s.setRunning m true).register m).Sound := by
  refine ⟨⟨h.locked, h.one, fun i call hi hcall => ?_, fun i call m' hi hm' => ?_,
    fun i call hi hcall => ?_, fun hnot => ?_, h.brings⟩, fun m' hm' => ?_⟩
  · exact absurd (hcall.symm.trans (hreloads i call hi)) (by simp)
  · have hregistered := h.restarts i call m' hi hm'
    rw [hfree] at hregistered
    cases hregistered
  · exact absurd (hcall.symm.trans (hdeleting i call hi)) (by simp)
  · exact hrow.elim (fun hrow => absurd hrow hnot) Or.inr
  · have hrunning : Function.update s.running m true m' = true := hm'
    rw [Function.update_apply] at hrunning
    split_ifs at hrunning with heq
    · exact Or.inl (by rw [heq]; rfl)
    · rcases h.running m' hrunning with hregistered | hremoves
      · rw [hfree] at hregistered
        cases hregistered
      · exact Or.inr hremoves

/-- `remove_config` takes the module, and a call is to stop it. -/
theorem Sound.pops (h : s.Sound) (hi : s.At i call)
    (hm : s.registered = some m) (hphase : phase.removes = some m)
    (hremoves : call.phase.removes = none)
    (hgo : ({ s with registered := none } : Config).MayGo call phase)
    (hrestarts : ∀ i call, s.At i call → call.phase.restarts = none) :
    (({ s with registered := none } : Config).setPhase i phase).Sound := by
  have hi' : ({ s with registered := none } : Config).At i call := hi
  refine ⟨(h.toApart.forgets hrestarts).goes hi' hgo, fun m' hm' => Or.inr ?_⟩
  rcases h.running m' hm' with hregistered | ⟨j, call', hj, hcall'⟩
  · obtain rfl : m = m' := Option.some.inj (hm.symm.trans hregistered)
    exact ⟨i, _, hi'.setPhase phase, hphase⟩
  · have hij : i ≠ j := by
      rintro rfl
      rw [← hi.unique hj, hremoves] at hcall'
      cases hcall'
    exact ⟨j, call', At.setPhase_other (s := { s with registered := none }) hj hij phase, hcall'⟩

end

end Config

end RtfmEv.Fanout

/-!
## The calls on a configuration keep the invariant

One lemma for each thing that a call does between two of its waits, and from them
what one step of a configuration keeps.
-/

namespace RtfmEv.Fanout

variable {phase : Phase}

theorem Phase.reloads_of_brings (h : phase.brings = true) : phase.reloads = true := by
  cases phase <;> first | exact h | cases h

theorem Phase.lock_of_reloads (h : phase.reloads = true) : phase.lock?.isSome = true := by
  cases phase <;> first | exact h | rfl

theorem Phase.lock_of_restarts {m : ℕ} (h : phase.restarts = some m) :
    phase.lock?.isSome = true := by
  cases phase <;> first | rfl | cases h

/-- A call with the lock does not count as one that is to remove a module. -/
theorem Call.not_toRemove {call : Call} (h : call.phase.lock?.isSome = true) :
    call.toRemove = false := by
  obtain ⟨kind, phase⟩ := call
  cases phase <;> cases kind <;> first | rfl | cases h

namespace Config

section

variable {s : Config} {i l m : ℕ} {call : Call} {phase : Phase} {kind : Kind}

/-- A phase outside the lock, in which nothing is removed or started. -/
structure Idle (kind : Kind) (phase : Phase) : Prop where
  lock : phase.lock? = none
  reloads : phase.reloads = false
  restarts : phase.restarts = none
  deleting : (⟨kind, phase⟩ : Call).deleting = false

theorem Idle.brings (h : Idle kind phase) : phase.brings = false := by
  by_contra hbrings
  have hreloads := @Phase.reloads_of_brings phase (by simpa using hbrings)
  rw [h.reloads] at hreloads
  cases hreloads

theorem Idle.mayGo (h : Idle call.kind phase)
    (hremove : call.toRemove = true → (⟨call.kind, phase⟩ : Call).toRemove = true) :
    s.MayGo call phase := by
  refine ⟨fun l hl => ?_, fun hreloads => ?_, fun m hm => ?_, fun hdeleting => ?_,
    fun hbrings => ?_, fun hcall => Or.inl (hremove hcall)⟩
  · rw [h.lock] at hl
    cases hl
  · rw [h.reloads] at hreloads
    cases hreloads
  · rw [h.restarts] at hm
    cases hm
  · exact absurd (hdeleting.symm.trans h.deleting) (by simp)
  · rw [h.brings] at hbrings
    cases hbrings

theorem idle_finished (kind : Kind) : Idle kind .finished := by
  refine ⟨rfl, rfl, rfl, ?_⟩
  cases kind <;> rfl

theorem idle_waiting (kind : Kind) (l : ℕ) : Idle kind (.waiting l) := by
  refine ⟨rfl, rfl, rfl, ?_⟩
  cases kind <;> rfl

/-! #### Beginning and ending -/

theorem at_begin {j : ℕ} :
    (s.begin kind phase).At j call ↔ s.At j call ∨ j = s.calls.length ∧ call = ⟨kind, phase⟩ := by
  unfold At begin
  rw [List.getElem?_append]
  split_ifs with hlt
  · refine ⟨Or.inl, fun h => h.resolve_right (fun h => ?_)⟩
    omega
  · have hnone : s.calls[j]? = none := List.getElem?_eq_none (by omega)
    rw [hnone]
    rcases Nat.lt_or_eq_of_le (Nat.not_lt.mp hlt) with hlt | heq
    · have hpos : j - s.calls.length ≠ 0 := by omega
      obtain ⟨k, hk⟩ := Nat.exists_eq_succ_of_ne_zero hpos
      rw [hk]
      simp
      omega
    · subst heq
      simp [eq_comm]

theorem Sound.begin (h : s.Sound) (hidle : Idle kind phase) :
    (s.begin kind phase).Sound := by
  have hremove : s.ToRemove → (s.begin kind phase).ToRemove := by
    rintro ⟨j, call, hj, hcall⟩
    exact ⟨j, call, at_begin.mpr (Or.inl hj), hcall⟩
  refine ⟨⟨fun j call l hj hl => ?_, fun j j' call call' hj hj' hl hl' => ?_,
    fun j call hj hreloads => ?_, fun j call m hj hm => ?_, fun j call hj hdeleting => ?_,
    fun hrow => (h.row hrow).imp_right hremove, fun j call hj hbrings => ?_⟩, fun m hm => ?_⟩
  · rcases at_begin.mp hj with hj | ⟨_, rfl⟩
    · exact h.locked j call l hj hl
    · exact absurd (hl.symm.trans hidle.lock) (by simp)
  · rcases at_begin.mp hj with hj | ⟨_, rfl⟩
    · rcases at_begin.mp hj' with hj' | ⟨_, rfl⟩
      · exact h.one j j' call call' hj hj' hl hl'
      · rw [hidle.lock] at hl'
        cases hl'
    · rw [hidle.lock] at hl
      cases hl
  · rcases at_begin.mp hj with hj | ⟨_, rfl⟩
    · exact h.reloads j call hj hreloads
    · exact absurd (hreloads.symm.trans hidle.reloads) (by simp)
  · rcases at_begin.mp hj with hj | ⟨_, rfl⟩
    · exact h.restarts j call m hj hm
    · exact absurd (hm.symm.trans hidle.restarts) (by simp)
  · rcases at_begin.mp hj with hj | ⟨_, rfl⟩
    · obtain ⟨hregistered, hnone⟩ := h.deleting j call hj hdeleting
      refine ⟨hregistered, fun j' call' hj' => ?_⟩
      rcases at_begin.mp hj' with hj' | ⟨_, rfl⟩
      · exact hnone j' call' hj'
      · exact hidle.brings
    · exact absurd (hdeleting.symm.trans hidle.deleting) (by simp)
  · rcases at_begin.mp hj with hj | ⟨_, rfl⟩
    · exact (h.brings j call hj hbrings).imp_right hremove
    · exact absurd (hbrings.symm.trans hidle.brings) (by simp)
  · rcases h.running m hm with hregistered | ⟨j, call, hj, hcall⟩
    · exact Or.inl hregistered
    · exact Or.inr ⟨j, call, at_begin.mpr (Or.inl hj), hcall⟩

theorem Sound.awaitLock (h : s.Sound) (hi : s.At i call) (hremoves : call.phase.removes = none) :
    (s.awaitLock i).Sound := by
  have hgo : ∀ l, s.MayGo call (.waiting l) := by
    intro l
    refine (idle_waiting call.kind l).mayGo (fun hremove => ?_)
    obtain ⟨kind, phase⟩ := call
    cases kind <;> first | rfl | (cases phase <;> cases hremove)
  have hnone : ∀ m, call.phase.removes = some m → s.running m = false := by
    intro m hm
    rw [hremoves] at hm
    cases hm
  unfold Config.awaitLock
  cases s.lock with
  | some l => exact h.goes hi hnone (hgo l)
  | none => exact (h.goes hi hnone (hgo s.lockCount)).of_eq rfl rfl rfl rfl rfl

/-- A call with the lock gives it back, and no call has it afterwards. -/
theorem Sound.release (h : s.Sound) (hi : s.At i call) (hl : call.phase.lock? = some l)
    (hremoves : call.phase.removes = none) :
    (s.release i l).Sound ∧ ∀ j call, (s.release i l).At j call → call.phase.lock? = none := by
  have hfree : ∀ j call', (s.setPhase i .finished).At j call' → call'.phase.lock? = none := by
    intro j call' hj
    rcases hi.cases hj with ⟨_, rfl⟩ | ⟨hij, hj⟩
    · rfl
    · by_contra hlock
      refine hij (h.one i j call call' hi hj (by rw [hl]; rfl) ?_)
      exact Option.isSome_iff_ne_none.mpr hlock
  have hfinished : (s.setPhase i .finished).Sound := by
    refine h.goes hi (fun m hm => ?_) ((idle_finished call.kind).mayGo (fun hremove => ?_))
    · rw [hremoves] at hm
      cases hm
    · rw [Call.not_toRemove (by rw [hl]; rfl)] at hremove
      cases hremove
  refine ⟨hfinished.setLocked false (fun j call' hj => ?_), hfree⟩
  rw [hfree j call' hj]
  simp

/-! #### Removing -/

/-- What `remove_config` goes on to when the module is gone. -/
theorem mayGo_removed (hregistered : s.registered = none) (hnone : s.NoneBrought)
    (hbrings : phase.brings = false) (hrestarts : phase.restarts = none)
    (hlock : ∀ l, phase.lock? = some l → call.phase.lock? = some l ∨
      s.locked l = true ∧ ∀ i call, s.At i call → call.phase.lock? = none) :
    s.MayGo call phase := by
  refine ⟨hlock, fun _ => hregistered, fun m hm => ?_, fun _ => ⟨hregistered, hnone, hbrings⟩,
    fun h => ?_, fun _ => Or.inr ⟨hregistered, hnone⟩⟩
  · rw [hrestarts] at hm
    cases hm
  · rw [hbrings] at h
    cases h

/-- **The removal of a module** while no start is under way. -/
theorem Sound.removePart (h : s.Sound) (lock : Option ℕ) (hi : s.At i call)
    (hremoves : call.phase.removes = none) (hnone : s.NoneBrought)
    (hrestarts : ∀ j call, s.At j call → call.phase.restarts = none)
    (hlock : ∀ l, lock = some l →
      s.locked l = true ∧ ∀ j call, s.At j call → call.phase.lock? = none) :
    (s.removePart i lock (afterRemove lock)).Sound := by
  unfold Config.removePart
  cases hm : s.registered with
  | some m =>
    refine h.pops hi hm rfl hremoves ?_ hrestarts
    exact mayGo_removed rfl hnone rfl rfl (fun l hl => Or.inr (hlock l hl))
  | none =>
    refine h.goes hi (fun m hm => ?_) (mayGo_removed hm hnone ?_ ?_ (fun l hl => Or.inr ?_))
    · rw [hremoves] at hm
      cases hm
    · cases lock <;> rfl
    · cases lock <;> rfl
    · cases lock with
      | none => cases hl
      | some l' => exact hlock l hl

theorem Sound.locksIn (h : s.Sound) (hi : s.At i ⟨kind, .waiting l⟩)
    (hfree : ∀ j call, s.At j call → call.phase.lock? = none) : (s.locksIn i l kind).Sound := by
  have hnone : s.NoneBrought := by
    intro j call hj
    by_contra hbrings
    have hlock := Phase.lock_of_reloads (@Phase.reloads_of_brings call.phase
      (by simpa using hbrings))
    rw [hfree j call hj] at hlock
    cases hlock
  have hrestarts : ∀ j call, s.At j call → call.phase.restarts = none := by
    intro j call hj
    by_contra hrestarts
    obtain ⟨m, hm⟩ := Option.ne_none_iff_exists'.mp hrestarts
    have hlock := Phase.lock_of_restarts hm
    rw [hfree j call hj] at hlock
    cases hlock
  have htaken : (s.setLocked l true).Sound := by
    refine h.setLocked true (fun j call hj => ?_)
    rw [hfree j call hj]
    simp
  have hlocked : (s.setLocked l true).locked l = true := Function.update_self ..
  have hremoved : ((s.setLocked l true).removePart i (some l) (.reading l)).Sound := by
    refine htaken.removePart (some l) hi rfl hnone hrestarts (fun l' hl' => ?_)
    obtain rfl := Option.some.inj hl'
    exact ⟨hlocked, hfree⟩
  unfold Config.locksIn
  cases kind with
  | create _ => exact hremoved
  | update _ _ => exact hremoved
  | delete => exact hremoved
  | restart m =>
    show Config.Sound (if (s.setLocked l true).registered = some m
      then (s.setLocked l true).setPhase i (.stopping l m) else (s.setLocked l true).release i l)
    split_ifs with hm
    · refine htaken.goes hi (fun _ hm => nomatch hm) ⟨fun l' hl' => Or.inr ?_, (nomatch ·),
        fun m' hm' => ?_, (nomatch ·), (nomatch ·), (nomatch ·)⟩
      · obtain rfl : l = l' := Option.some.inj hl'
        exact ⟨hlocked, hfree⟩
      · obtain rfl : m = m' := Option.some.inj hm'
        exact hm
    · have hfinished : (s.setPhase i .finished).Sound :=
        h.goes hi (fun m hm => nomatch hm) ((idle_finished _).mayGo (fun h => nomatch h))
      have hnot : ∀ j call, (s.setPhase i .finished).At j call → call.phase.lock? ≠ some l := by
        intro j call hj
        rcases hi.cases hj with ⟨_, rfl⟩ | ⟨_, hj⟩
        · simp [Phase.lock?]
        · rw [hfree j call hj]
          simp
      exact (hfinished.setLocked true hnot).setLocked false hnot

/-! #### Reads and writes of the row -/

theorem Sound.reads (h : s.Sound) (hi : s.At i ⟨kind, .reading l⟩)
    (hcalm : s.row = some true → ∀ call ∈ s.calls, call.deleting = false) :
    (s.setPhase i (.read l (s.row = some true))).Sound := by
  refine h.goes hi (fun _ hm => nomatch hm) ⟨fun l' hl' => Or.inl hl',
    fun _ => h.reloads i _ hi rfl, fun _ hm => (nomatch hm), fun hdeleting => ?_, fun hrow => Or.inr ?_,
    fun hremove => ?_⟩
  · cases kind <;> cases hdeleting
  · have hrow : s.row = some true := of_decide_eq_true hrow
    exact ⟨hrow, fun j call hj => hcalm hrow call hj.mem⟩
  · cases kind <;> cases hremove

/-- A request writes the row while some call is to remove the module. -/
theorem Sound.rewrites (h : s.Sound) (hremove : s.ToRemove) (row : Option Bool) :
    ({ s with row := row } : Config).Sound :=
  ⟨⟨h.locked, h.one, h.reloads, h.restarts, h.deleting, fun _ => Or.inr hremove,
    fun _ _ _ _ => Or.inr hremove⟩, h.running⟩

theorem Sound.deletes (h : s.Sound) (hregistered : s.registered = none) (hnone : s.NoneBrought) :
    ({ s with row := none } : Config).Sound :=
  ⟨⟨h.locked, h.one, h.reloads, h.restarts, h.deleting, fun _ => Or.inl hregistered,
    fun j call hj hbrings => absurd (hbrings.symm.trans (hnone j call hj)) (by simp)⟩, h.running⟩

theorem Sound.write (h : s.Sound) (hi : s.At i ⟨kind, .writing⟩) :
    (s.write i kind).Sound := by
  have hidle : ∀ found, Idle kind (.written found) := by
    intro found
    refine ⟨rfl, rfl, rfl, ?_⟩
    cases kind <;> rfl
  have hwritten : ∀ found, (s.setPhase i (.written found)).Sound := by
    intro found
    refine h.goes hi (fun _ hm => nomatch hm) ((hidle found).mayGo (fun hremove => ?_))
    cases kind <;> cases hremove
  have hdeleted : (⟨kind, .writing⟩ : Call).deleting = true →
      ({ s with row := none }.setPhase i (.written true)).Sound := by
    intro hdeleting
    obtain ⟨hregistered, hnone⟩ := h.deleting i _ hi hdeleting
    refine (hwritten true).deletes hregistered (fun j call hj => ?_)
    rcases hi.cases hj with ⟨_, rfl⟩ | ⟨_, hj⟩
    · rfl
    · exact hnone j call hj
  cases kind with
  | create _ => exact hdeleted rfl
  | delete => exact hdeleted rfl
  | restart _ => exact hdeleted rfl
  | update enabled valid =>
    unfold Config.write
    cases hrow : s.row with
    | none => exact hwritten false
    | some old =>
      exact (hwritten true).rewrites ⟨i, _, hi.setPhase (.written true), rfl⟩ _

theorem Sound.finishes (h : s.Sound) (hi : s.At i call) (hremoves : call.phase.removes = none)
    (hremove : call.toRemove = false) : (s.setPhase i .finished).Sound := by
  refine h.goes hi (fun m hm => ?_) ((idle_finished _).mayGo (fun hcall => ?_))
  · rw [hremoves] at hm
    cases hm
  · rw [hremove] at hcall
    cases hcall

theorem Sound.afterWrite (h : s.Sound) {found : Bool}
    (hi : s.At i ⟨kind, .written found⟩) : (s.afterWrite i kind found).Sound := by
  cases kind with
  | create enabled =>
    cases enabled with
    | true => exact h.awaitLock hi rfl
    | false => exact h.finishes hi rfl rfl
  | update _ _ =>
    cases found with
    | true => exact h.awaitLock hi rfl
    | false => exact h.finishes hi rfl rfl
  | delete => exact h.finishes hi rfl rfl
  | restart _ => exact h.finishes hi rfl rfl

theorem Sound.afterCheck (h : s.Sound) {found : Bool}
    (hi : s.At i ⟨kind, .checked found⟩)
    (hcalm : (⟨kind, .checked found⟩ : Call).goesToDelete = true →
      ∀ call ∈ s.calls, call.phase.underWay = false) :
    (s.afterCheck i kind found).Sound := by
  cases found with
  | false => cases kind <;> exact h.finishes hi rfl rfl
  | true =>
    cases kind with
    | create _ => exact h.finishes hi rfl rfl
    | restart _ => exact h.finishes hi rfl rfl
    | update enabled valid =>
      cases valid with
      | false => exact h.finishes hi rfl rfl
      | true =>
        exact h.goes hi (fun _ hm => nomatch hm)
          (Idle.mayGo ⟨rfl, rfl, rfl, rfl⟩ (fun hremove => nomatch hremove))
    | delete =>
      have hquiet : ∀ j call, s.At j call →
          call.phase.brings = false ∧ call.phase.restarts = none := by
        intro j call hj
        have hcall := hcalm rfl call hj.mem
        rw [Phase.underWay, Bool.or_eq_false_iff, Option.isSome_eq_false_iff,
          Option.isNone_iff_eq_none] at hcall
        exact hcall
      exact h.removePart none hi rfl (fun j call hj => (hquiet j call hj).1)
        (fun j call hj => (hquiet j call hj).2) (fun _ hl => nomatch hl)

/-! #### Starts and stops -/

theorem Sound.startPart (h : s.Sound) (hi : s.At i ⟨kind, .read l true⟩)
    (made : Bool) : (s.startPart i l made).Sound := by
  cases made with
  | false => exact (h.release hi rfl rfl).1
  | true =>
    have hstarting : (s.setPhase i (.starting l s.moduleCount)).Sound := by
      refine h.goes hi (fun _ hm => nomatch hm) ⟨fun l' hl' => Or.inl hl',
        fun _ => h.reloads i _ hi rfl, fun _ hm => (nomatch hm), fun hdeleting => ?_, fun _ => Or.inl rfl,
        fun hremove => ?_⟩
      · cases kind <;> cases hdeleting
      · cases kind <;> cases hremove
    exact hstarting.of_eq rfl rfl rfl rfl rfl

theorem Sound.removed (h : s.Sound) {lock : Option ℕ}
    (hi : s.At i ⟨kind, .removing lock m⟩) :
    ((s.setRunning m false).setPhase i (afterRemove lock)).Sound := by
  refine (h.stops m).goes hi (fun m' hm' => ?_) ?_
  · obtain rfl : m = m' := Option.some.inj hm'
    exact running_setRunning s m false
  · cases lock with
    | some l =>
      have hregistered : s.registered = none := h.reloads i _ hi rfl
      refine ⟨fun l' hl' => Or.inl hl', fun _ => hregistered, fun _ hm => (nomatch hm), fun hdeleting => ?_,
        (nomatch ·), fun hremove => ?_⟩
      · cases kind <;> cases hdeleting
      · cases kind <;> cases hremove
    | none =>
      have hdeleting : (⟨kind, .removing none m⟩ : Call).deleting = true := by
        cases kind <;> rfl
      obtain ⟨hregistered, hnone⟩ := h.deleting i _ hi hdeleting
      exact ⟨fun _ hl => (nomatch hl), (nomatch ·), fun _ hm => (nomatch hm), fun _ => ⟨hregistered, hnone, rfl⟩,
        (nomatch ·), fun _ => Or.inr ⟨hregistered, hnone⟩⟩

theorem Sound.restartFails (h : s.Sound) (hi : s.At i call) (hm : call.phase.restarts = some m)
    (hl : call.phase.lock? = some l) (hremoves : call.phase.removes = none) :
    ({ s.setRunning m false with registered := none }.release i l).Sound := by
  obtain ⟨hreleased, hfree⟩ := (h.stops m).release (l := l) hi hl hremoves
  refine hreleased.forgets (fun m' hm' => ?_) (fun j call' hj => ?_)
  · obtain rfl : m = m' := Option.some.inj ((h.restarts i call m hi hm).symm.trans hm')
    exact running_setRunning s m false
  · by_contra hrestarts
    obtain ⟨m', hm'⟩ := Option.ne_none_iff_exists'.mp hrestarts
    have hlock := Phase.lock_of_restarts hm'
    rw [hfree j call' hj] at hlock
    cases hlock

theorem Sound.stopped (h : s.Sound) (hi : s.At i ⟨kind, .stopping l m⟩) :
    ((s.setRunning m false).setPhase i (.restarting l m)).Sound := by
  refine (h.stops m).goes hi (fun _ hm => nomatch hm) ⟨fun l' hl' => Or.inl hl', (nomatch ·),
    fun m' hm' => h.restarts i _ m' hi hm', fun hdeleting => ?_, (nomatch ·), fun hremove => ?_⟩
  · cases kind <;> cases hdeleting
  · cases kind <;> cases hremove

/-- **A reload registers what it has started.** The lock has kept other reloads away. -/
theorem Sound.started (h : s.Sound) (hi : s.At i ⟨kind, .starting l m⟩)
    (raised : Bool) : ((s.started m raised).release i l).Sound := by
  cases raised with
  | true => exact ((h.stops m).release hi rfl rfl).1
  | false =>
    obtain ⟨hreleased, hfree⟩ := h.release hi rfl rfl
    refine hreleased.registers (h.reloads i _ hi rfl) (fun j call hj => ?_) (fun j call hj => ?_)
      ?_ m
    · by_contra hreloads
      have hlock := @Phase.lock_of_reloads call.phase (by simpa using hreloads)
      rw [hfree j call hj] at hlock
      cases hlock
    · by_contra hdeleting
      have hnone := (hreleased.deleting j call hj (by simpa using hdeleting))
      rcases hi.cases hj with ⟨_, rfl⟩ | ⟨_, hj⟩
      · cases kind <;> exact hdeleting rfl
      · have hbrings := (h.deleting j call hj (by simpa using hdeleting)).2 i _ hi
        cases hbrings
    · refine (h.brings i _ hi rfl).imp_right (fun hremove => ?_)
      obtain ⟨j, call, hj, hcall⟩ := hremove
      refine ⟨j, call, hj.setPhase_other (fun hij => ?_) .finished, hcall⟩
      subst hij
      rw [← hi.unique hj] at hcall
      cases kind <;> cases hcall

theorem Sound.restarted (h : s.Sound) (hi : s.At i ⟨kind, .restarting l m⟩)
    (raised : Bool) : ((s.restarted m raised).release i l).Sound := by
  cases raised with
  | true => exact h.restartFails hi rfl rfl rfl
  | false => exact ((h.restarts_running (h.restarts i _ m hi rfl)).release hi rfl rfl).1

end

/-! #### One step -/

/-- **What one step of a configuration keeps.** -/
theorem Sound.apply {s s' : Config} (h : s.Sound) {op : ConfigOp} (hcalm : s.Calm op)
    (hstep : s.apply op = some s') : s'.Sound := by
  cases op with
  | request kind =>
    cases kind with
    | create _ => cases hstep
    | restart _ => cases hstep
    | update enabled valid | delete =>
      rw [← Option.some.inj hstep]
      exact h.begin ⟨rfl, rfl, rfl, rfl⟩
  | timesOut m =>
    simp only [Config.apply, Option.ite_none_right_eq_some] at hstep
    rw [← Option.some.inj hstep.2]
    exact (h.begin (idle_finished (.restart m))).awaitLock (at_begin.mpr (Or.inr ⟨rfl, rfl⟩)) rfl
  | reads i =>
    simp only [Config.apply] at hstep
    split at hstep
    case h_1 kind hi =>
      rw [← Option.some.inj hstep]
      refine h.goes hi (fun _ hm => nomatch hm) (Idle.mayGo ⟨rfl, rfl, rfl, ?_⟩ (fun hremove => ?_))
      · cases kind <;> rfl
      · cases kind <;> cases hremove
    case h_2 kind l hi =>
      rw [← Option.some.inj hstep]
      exact h.reads hi (hcalm (by rw [hi]; rfl))
    case h_3 => cases hstep
  | writes i =>
    simp only [Config.apply] at hstep
    split at hstep
    case h_1 kind hi =>
      rw [← Option.some.inj hstep]
      exact h.write hi
    case h_2 => cases hstep
  | resumes i =>
    simp only [Config.apply] at hstep
    split at hstep
    case h_1 kind found hi =>
      rw [← Option.some.inj hstep]
      exact h.afterCheck hi (fun hdelete => hcalm (by rw [hi]; exact hdelete))
    case h_2 kind found hi =>
      rw [← Option.some.inj hstep]
      exact h.afterWrite hi
    case h_3 kind l hi =>
      rw [← Option.some.inj hstep]
      exact (h.release hi rfl rfl).1
    case h_4 => cases hstep
  | makes i made =>
    simp only [Config.apply] at hstep
    split at hstep
    case h_1 kind l hi =>
      rw [← Option.some.inj hstep]
      exact h.startPart hi made
    case h_2 => cases hstep
  | acquires i =>
    simp only [Config.apply] at hstep
    split at hstep
    case h_2 => cases hstep
    case h_1 kind l hi =>
      rw [Option.ite_none_left_eq_some] at hstep
      obtain ⟨hfree, hstep⟩ := hstep
      rw [← Option.some.inj hstep]
      refine h.locksIn hi (fun j call hj => ?_)
      -- a call with a lock has this one, which is free
      by_contra hlock
      obtain ⟨l', hl'⟩ := Option.ne_none_iff_exists'.mp hlock
      have hsame := hcalm call hj.mem
      rw [hl', Option.all_some, hi, Option.any_some, decide_eq_true_eq] at hsame
      obtain rfl : l = l' := Phase.waiting.inj hsame
      exact hfree (h.locked j call l hj hl')
  | stopped i raised =>
    simp only [Config.apply] at hstep
    split at hstep
    case h_1 kind lock m hi =>
      rw [← Option.some.inj hstep]
      exact h.removed hi
    case h_2 kind l m hi =>
      split_ifs at hstep
      · rw [← Option.some.inj hstep]
        exact h.restartFails hi rfl rfl rfl
      · rw [← Option.some.inj hstep]
        exact h.stopped hi
    case h_3 => cases hstep
  | started i raised =>
    simp only [Config.apply] at hstep
    split at hstep
    case h_1 kind l m hi =>
      rw [← Option.some.inj hstep]
      exact h.started hi raised
    case h_2 kind l m hi =>
      rw [← Option.some.inj hstep]
      exact h.restarted hi raised
    case h_3 => cases hstep

end Config

end RtfmEv.Fanout
