import RtfmEv.Fanout.Exact

/-!
# Running modules are registered ones, in any run

The invariant over all configurations, and what a program does that leaves a start
alone when it removes a module.
-/

namespace RtfmEv.Fanout

open RtfmEv.Lib

namespace Config

variable {s : Config}

theorem sound_of_idle (hregistered : s.registered = none) (hrunning : ∀ m, s.running m = false)
    (hidle : ∀ i call, s.At i call → Idle call.kind call.phase) : s.Sound := by
  refine ⟨⟨fun i call l hi hl => ?_, fun i j call _ hi _ hl _ => ?_, fun _ _ _ _ => hregistered,
    fun i call m hi hm => ?_, fun i call hi hdeleting => ?_, fun _ => Or.inl hregistered,
    fun i call hi hbrings => ?_⟩, fun m hm => ?_⟩
  · rw [(hidle i call hi).lock] at hl
    cases hl
  · rw [(hidle i call hi).lock] at hl
    cases hl
  · rw [(hidle i call hi).restarts] at hm
    cases hm
  · exact absurd (hdeleting.symm.trans (hidle i call hi).deleting) (by simp)
  · rw [(hidle i call hi).brings] at hbrings
    cases hbrings
  · rw [hrunning m] at hm
    cases hm

/-- `load_from_db` registers what it has started. -/
theorem Sound.loadStarted (h : s.Sound) (m : ℕ) {raised : Bool}
    (hfree : raised = false → s.Free) : (s.started m raised).Sound := by
  cases raised with
  | true => exact h.stops m
  | false =>
    have hfree := hfree rfl
    refine h.registers hfree.registered (fun i call hi => hfree.reloads call hi.mem)
      (fun i call hi => hfree.deleting call hi.mem) (hfree.row.imp_right ?_) m
    rintro ⟨call, hmem, hremove⟩
    obtain ⟨i, hi⟩ := exists_at hmem
    exact ⟨i, call, hi, hremove⟩

/-- `stop_all` forgets a configuration that has been stopped. -/
theorem Sound.cleared (h : s.Sound) (hstopped : s.Stopped) :
    ({ s with registered := none, lock := none } : Config).Sound := by
  refine Sound.of_eq (h.forgets (fun m hm => ?_) (fun i call hi => hstopped.restarts call hi.mem))
    rfl rfl rfl rfl rfl
  have hrunning := hstopped.registered
  rw [hm, Option.all_some] at hrunning
  simpa using hrunning

/-- **The invariant answers for a configuration that no call works on.** -/
theorem Sound.exact (h : s.Sound) (hquiet : ∀ call ∈ s.calls, call.phase = .finished) :
    s.Exact := by
  have hregistered : ∀ m, s.running m = true → s.registered = some m := by
    intro m hm
    rcases h.running m hm with hm | ⟨i, call, hi, hremoves⟩
    · exact hm
    · rw [hquiet call hi.mem] at hremoves
      cases hremoves
  refine ⟨hregistered, fun m m' hm hm' => ?_, fun hrow m => ?_⟩
  · exact Option.some.inj ((hregistered m hm).symm.trans (hregistered m' hm'))
  · by_contra hm
    have hm := hregistered m (by simpa using hm)
    rcases h.row hrow with hnone | ⟨i, call, hi, hremove⟩
    · rw [hnone] at hm
      cases hm
    · obtain ⟨kind, phase⟩ := call
      obtain rfl : phase = .finished := hquiet _ hi.mem
      cases kind <;> cases hremove

end Config

namespace State

/-- Every configuration is sound. -/
def Sound (s : State) : Prop := ∀ config ∈ s.configs, config.Sound

theorem Sound.setConfig {s : State} (h : s.Sound) {config : Config} (hconfig : config.Sound)
    (c : ℕ) : (s.setConfig c config).Sound := by
  intro config' hmem
  rcases List.mem_or_eq_of_mem_set hmem with hmem | rfl
  · exact h config' hmem
  · exact hconfig

theorem Sound.stopNext {s : State} (h : s.Sound) {rest : List (ℕ × ℕ)}
    (hclear : s.MayClear rest) (k : ℕ) : (s.stopNext k rest).Sound := by
  unfold State.stopNext
  show State.Sound (if rest = [] then _ else _)
  split_ifs with hrest
  · intro config hmem
    obtain ⟨old, hold, rfl⟩ := List.mem_map.mp hmem
    exact (h old hold).cleared (hclear hrest old hold)
  · exact h

/-- **What one step keeps.** -/
theorem Sound.apply {s s' : State} (h : s.Sound) {op : Op} (hcalm : s.Calm op)
    (hstep : s.apply op = some s') : s'.Sound := by
  cases op with
  | create enabled =>
    rw [← Option.some.inj hstep]
    intro config hmem
    rcases List.mem_append.mp hmem with hmem | hmem
    · exact h config hmem
    · obtain rfl := List.mem_singleton.mp hmem
      refine Config.sound_of_idle rfl (fun _ => rfl) (fun i call hi => ?_)
      obtain rfl := List.mem_singleton.mp hi.mem
      exact ⟨rfl, rfl, rfl, rfl⟩
  | on c op =>
    simp only [State.apply] at hstep
    split at hstep
    case h_2 => cases hstep
    case h_1 config hconfig =>
      obtain ⟨config', hop, hs'⟩ := Option.map_eq_some_iff.mp hstep
      rw [← hs']
      exact h.setConfig ((h config (List.mem_of_getElem? hconfig)).apply
        (hcalm config hconfig) hop) c
  | loads =>
    rw [← Option.some.inj hstep]
    exact h
  | loadReads k =>
    simp only [State.apply] at hstep
    split at hstep
    case h_1 =>
      rw [← Option.some.inj hstep]
      exact h
    case h_2 => cases hstep
  | loadMakes k made =>
    simp only [State.apply] at hstep
    split at hstep
    case h_2 => cases hstep
    case h_1 c rest hload =>
      split at hstep
      case h_2 => cases hstep
      case h_1 config hconfig =>
        have hsound := h config (List.mem_of_getElem? hconfig)
        split_ifs at hstep
        · rw [← Option.some.inj hstep]
          have hmade : ({ config with moduleCount := config.moduleCount + 1 } : Config).Sound :=
            hsound.of_eq rfl rfl rfl rfl rfl
          exact h.setConfig hmade c
        · rw [← Option.some.inj hstep]
          exact h
  | loadStarted k raised =>
    simp only [State.apply] at hstep
    split at hstep
    case h_2 => cases hstep
    case h_1 c rest m hload =>
      split at hstep
      case h_2 => cases hstep
      case h_1 config hconfig =>
        rw [← Option.some.inj hstep]
        refine h.setConfig ((h config (List.mem_of_getElem? hconfig)).loadStarted m
          (fun hraised => ?_)) c
        rw [hraised] at hcalm
        exact hcalm _ hload rfl c rfl config hconfig
  | stopsAll =>
    rw [← Option.some.inj hstep]
    exact Sound.stopNext (s := { s with shutdowns := s.shutdowns ++ [s.snapshot] }) h hcalm _
  | allStopped k raised =>
    simp only [State.apply] at hstep
    split at hstep
    case h_2 => cases hstep
    case h_1 c m rest hshutdown =>
      split at hstep
      case h_2 => cases hstep
      case h_1 config hconfig =>
        rw [← Option.some.inj hstep]
        exact (h.setConfig ((h config (List.mem_of_getElem? hconfig)).stops m) c).stopNext
          (hcalm _ hshutdown (c, m) rfl config hconfig) k

theorem sound_starting (rows : List (Option Bool)) : (starting rows).Sound := by
  intro config hmem
  obtain ⟨row, _, rfl⟩ := List.mem_map.mp hmem
  refine Config.sound_of_idle rfl (fun _ => rfl) (fun i call hi => ?_)
  exact absurd hi.mem (List.not_mem_nil)

end State

/-! ### Any run -/

/-- **Running modules are exactly the registered ones** whenever no call is in progress, after
any run in which the steps outside the lock leave the starts under way alone. -/
theorem modules_exact {rows : List (Option Bool)} {s : State} {events : List FanoutEvent}
    (hrun : Lib.Run FanoutStep (State.starting rows) events s)
    (hcalm : ∀ e ∈ events, e.pre.Calm e.label) (hquiet : s.Quiet) :
    ∀ config ∈ s.configs, config.Exact := by
  intro config hmem
  have hsound : s.Sound := hrun.invariant hcalm (fun _ hstep hcalm h => h.apply hcalm hstep)
    (State.sound_starting rows)
  exact (hsound config hmem).exact (hquiet.calls config hmem)

instance (s : Config) (op : ConfigOp) : Decidable (s.Calm op) := by
  cases op <;> unfold Config.Calm <;> infer_instance

/-- A configuration is created and its module started, then the request of another one has it
replaced: the new module is the registered one, and the old one is stopped. -/
theorem modules_exact_replaced : ∃ (events : List FanoutEvent) (s : State),
    Lib.Run FanoutStep (State.starting []) events s ∧
      ∃ config ∈ s.configs, config.running 1 = true ∧ config.Exact := by
  obtain ⟨events, s, hrun, hlabels, hend⟩ := Lib.Run.exists_of_trace State.apply (State.starting [])
    [.create true, .on 0 (.resumes 0), .on 0 (.acquires 0), .on 0 (.reads 0), .on 0 (.makes 0 true),
      .on 0 (.started 0 false), .on 0 (.request (.update none true)), .on 0 (.reads 1),
      .on 0 (.resumes 1), .on 0 (.writes 1), .on 0 (.resumes 1), .on 0 (.acquires 1),
      .on 0 (.stopped 1 false), .on 0 (.reads 1), .on 0 (.makes 1 true), .on 0 (.started 1 false)]
    (fun p => p.1.all (fun e => match e.label with
        | .on c op => (e.pre.configs[c]?).all (fun config => decide (config.Calm op))
        | _ => true) &&
      p.2.configs.all (fun config => config.calls.all (fun call => call.phase = .finished) &&
        config.running 1) && p.2.configs.length == 1 && p.2.loads.isEmpty && p.2.shutdowns.isEmpty)
    (by decide +kernel)
  simp only [Bool.and_eq_true, List.all_eq_true, decide_eq_true_eq, beq_iff_eq,
    List.isEmpty_iff] at hend
  obtain ⟨⟨⟨⟨hcalm, hconfigs⟩, hlength⟩, hloads⟩, hshutdowns⟩ := hend
  obtain ⟨config, hconfig⟩ := List.length_eq_one_iff.mp hlength
  have hmem : config ∈ s.configs := by rw [hconfig]; exact List.mem_singleton_self config
  refine ⟨events, s, hrun, config, hmem, (hconfigs config hmem).2,
    modules_exact hrun (fun e he => ?_) ⟨fun config hmem => (hconfigs config hmem).1, ?_, ?_⟩
      config hmem⟩
  · have hlabel : e.label ∈ events.map Event.label := List.mem_map_of_mem he
    rw [hlabels] at hlabel
    have hcalm := hcalm e he
    cases hop : e.label with
    | on c op =>
      rw [hop] at hcalm
      have hcalm : (e.pre.configs[c]?).all (fun config => decide (config.Calm op)) = true := hcalm
      intro config hconfig
      rw [Option.mem_def.mp hconfig, Option.all_some, decide_eq_true_eq] at hcalm
      exact hcalm
    | create _ => exact trivial
    | loads => exact trivial
    | loadReads _ => exact trivial
    | loadMakes _ _ => exact trivial
    | loadStarted _ _ | stopsAll | allStopped _ _ =>
      rw [hop] at hlabel
      simp at hlabel
  · rw [hloads]
    exact fun load hload => nomatch hload
  · rw [hshutdowns]
    exact fun rest hrest => nomatch hrest

/-- **A delete request that does not wait for a reload.** It finds nothing to stop while the
reload is starting the module, and deletes the row. The module runs from then on. -/
theorem not_forall_modules_exact : ¬ ∀ (rows : List (Option Bool)) (events : List FanoutEvent)
    (s : State), Lib.Run FanoutStep (State.starting rows) events s → s.Quiet →
      ∀ config ∈ s.configs, config.Exact := by
  intro h
  obtain ⟨events, s, hrun, _, hend⟩ := Lib.Run.exists_of_trace State.apply (State.starting [])
    [.create true, .on 0 (.resumes 0), .on 0 (.acquires 0), .on 0 (.reads 0), .on 0 (.makes 0 true),
      .on 0 (.request .delete), .on 0 (.reads 1), .on 0 (.resumes 1), .on 0 (.writes 1),
      .on 0 (.resumes 1), .on 0 (.started 0 false)]
    (fun p => p.2.configs.all (fun config => config.calls.all (fun call => call.phase = .finished) &&
        config.running 0 && config.row.isNone) && p.2.configs.length == 1 && p.2.loads.isEmpty &&
      p.2.shutdowns.isEmpty)
    (by decide +kernel)
  simp only [Bool.and_eq_true, List.all_eq_true, decide_eq_true_eq, beq_iff_eq,
    List.isEmpty_iff, Option.isNone_iff_eq_none] at hend
  obtain ⟨⟨⟨hconfigs, hlength⟩, hloads⟩, hshutdowns⟩ := hend
  obtain ⟨config, hconfig⟩ := List.length_eq_one_iff.mp hlength
  have hmem : config ∈ s.configs := by rw [hconfig]; exact List.mem_singleton_self config
  obtain ⟨⟨_, hrunning⟩, hrow⟩ := hconfigs config hmem
  have hexact := h [] events s hrun ⟨fun config hmem => (hconfigs config hmem).1.1, ?_, ?_⟩ config hmem
  · have hnot := hexact.none (by rw [hrow]; simp) 0
    rw [hrunning] at hnot
    cases hnot
  · rw [hloads]
    exact fun load hload => nomatch hload
  · rw [hshutdowns]
    exact fun rest hrest => nomatch hrest

end RtfmEv.Fanout
