import RtfmEv.SensorPush.Subscribe

/-!
# Pushes under a live grant

A subscribe call writes its tag to the row before it sends the request, and again
when the sensor has granted it. The sensor changes its tag only when the request
arrives. So a push is found under the sensor's row unless an attempt with another
tag has written to the row and the attempt of the push has not done so since.
-/

namespace RtfmEv.SensorPush

open RtfmEv.Lib

/-- A tag written to the row of a sensor, before its request is sent or after the
sensor has granted it. -/
inductive Note
  | marked (key : PublicKey) (tag : Bytes)
  | granted (key : PublicKey) (tag : Bytes)
  deriving DecidableEq

def Note.writes (key : PublicKey) : Note → Option Bytes
  | marked key' tag => if key = key' then some tag else none
  | granted key' tag => if key = key' then some tag else none

def noteOfReply (key : PublicKey) (a : Attempt) : Option Bytes → Option Note
  | none => none
  | some data => if (parseSubscribeReply data).1 = 0 then none else some (.granted key a.tag)

def noteOfStage (key : PublicKey) : Stage → Outcome → Option Note
  | .mark a, .done => some (.marked key a.tag)
  | .record a reply, .done => noteOfReply key a reply
  | _, _ => none

def noteOfCall : Call → Outcome → Option Note
  | .subscribe _ key stage, o => noteOfStage key stage o
  | _, _ => none

def noteOf (s : State) : Label → Option Note
  | .turn id o => (s.calls id).bind (fun call => noteOfCall call o)
  | _ => none

/-- The tags written to rows during a run. -/
def notes (h : List (Event State Label)) : List Note :=
  h.filterMap (fun e => noteOf e.pre e.label)

/-- The tags written to the row of one sensor. -/
def writesOf (key : PublicKey) (ns : List Note) : List Bytes := ns.filterMap (Note.writes key)

def lastWrite (key : PublicKey) (ns : List Note) : Option Bytes := (writesOf key ns).getLast?

/-- An attempt with another tag has written to the row of the sensor, and none with
this tag has done so since. -/
def Superseded (key : PublicKey) (tag : Bytes) (ns : List Note) : Prop :=
  ∃ a t b, writesOf key ns = a ++ t :: b ∧ t ≠ tag ∧ tag ∉ b

/-- An enabled row that was inserted before the sensor's got the same tag. -/
def HasTwin (key : PublicKey) (tag : Bytes) (ns : List Note) (rows : Rows) : Prop :=
  ∃ e ∈ rowsBefore key rows, e.2.enabled = true ∧ lastWrite e.1 ns = some tag

def Enabled (key : PublicKey) (s : State) : Prop := (s.rows.get? key).any Row.enabled = true

instance (key : PublicKey) (s : State) : Decidable (Enabled key s) :=
  inferInstanceAs (Decidable (_ = true))

/-- Once on, the subscription is not turned off. -/
def StaysEnabled (key : PublicKey) (h : List (Event State Label)) : Prop :=
  ∀ e ∈ h, Enabled key e.pre → Enabled key e.post

/-- After the events `f` of the run, a push is looked up that the sensor has sent
with this tag. -/
def LooksUp (h f : List (Event State Label)) (e : Event State Label) (key : PublicKey)
    (tag : Bytes) : Prop :=
  (∃ g, h = f ++ e :: g) ∧
    ∃ id data, e.label = .turn id .done ∧ e.pre.calls id = some (.find (some key) tag data)

/-- Every push of the sensor is found under the sensor's row. -/
def PushesMatch (key : PublicKey) (h : List (Event State Label)) : Prop :=
  StaysEnabled key h → ∀ f e tag, LooksUp h f e key tag → Enabled key e.pre →
    (findEnabledByTag tag e.pre.rows).map Prod.fst = some key

/-- No push of the sensor is superseded when it is looked up, nor has it a twin. -/
def PushesCurrent (key : PublicKey) (h : List (Event State Label)) : Prop :=
  StaysEnabled key h → ∀ f e tag, LooksUp h f e key tag → Enabled key e.pre →
    ¬Superseded key tag (notes f) ∧ ¬HasTwin key tag (notes f) e.pre.rows

/-! ## What has been written -/

theorem notes_append_singleton (h : List (Event State Label)) (e : Event State Label) :
    notes (h ++ [e]) = notes h ++ (noteOf e.pre e.label).toList := by
  rw [notes, List.filterMap_append]
  cases hn : noteOf e.pre e.label with
  | none => simp [notes, hn]
  | some n => simp [notes, hn]

theorem writesOf_append (key : PublicKey) (ns ms : List Note) :
    writesOf key (ns ++ ms) = writesOf key ns ++ writesOf key ms := List.filterMap_append

theorem lastWrite_append_toList (key : PublicKey) (ns : List Note) (note : Option Note) :
    lastWrite key (ns ++ note.toList) = (note.bind (Note.writes key)).or (lastWrite key ns) := by
  rw [lastWrite, writesOf_append]
  cases note with
  | none => simp [writesOf, lastWrite]
  | some n =>
    cases hn : n.writes key with
    | none => simp [writesOf, lastWrite, hn]
    | some tag => simp [writesOf, hn]

variable (ms : List Note) {tag : Bytes} {key : PublicKey} {ns : List Note} {rows : Rows} {s : State}
  {next : Option Call} {L : LppTools} {s' : State} {h : List (Event State Label)}

theorem mem_writesOf_append
    (h : tag ∈ writesOf key ns) : tag ∈ writesOf key (ns ++ ms) := by
  rw [writesOf_append]
  exact List.mem_append_left _ h

/-- A tag that was written is the last one unless it is superseded. -/
theorem lastWrite_eq_iff
    (hw : tag ∈ writesOf key ns) : lastWrite key ns = some tag ↔ ¬Superseded key tag ns := by
  unfold lastWrite Superseded
  constructor
  · rintro hlast ⟨a, t, b, hsplit, hne, hnot⟩
    rw [hsplit, List.getLast?_append_cons] at hlast
    cases b with
    | nil => exact hne (Option.some.inj hlast)
    | cons t' b =>
      rw [List.getLast?_cons_cons] at hlast
      exact hnot (List.mem_of_getLast? hlast)
  · intro hno
    cases hlast : (writesOf key ns).getLast? with
    | none =>
      rw [List.getLast?_eq_none_iff.mp hlast] at hw
      cases hw
    | some t =>
      by_cases ht : t = tag
      · rw [ht]
      · obtain ⟨a, ha⟩ := List.getLast?_eq_some_iff.mp hlast
        exact absurd ⟨a, t, [], ha, ht, List.not_mem_nil⟩ hno

/-! ## What a run keeps -/

/-- A subscribe call whose row is there, with its tag in its request and, once it
sends, in the row's history. -/
def StageOk (ns : List Note) (rows : Rows) (key : PublicKey) : Stage → Prop
  | .readRow => True
  | .readContact row => row.isSome → (rows.get? key).isSome
  | .mark a => (rows.get? key).isSome ∧ a.tag.length = 4 ∧ tagOfBody a.body = a.tag
  | .send a =>
    (rows.get? key).isSome ∧ a.tag.length = 4 ∧ tagOfBody a.body = a.tag ∧
      a.tag ∈ writesOf key ns
  | .await a _ => (rows.get? key).isSome ∧ a.tag.length = 4
  | .record a _ => (rows.get? key).isSome ∧ a.tag.length = 4
  | .disable _ => (rows.get? key).isSome

def CallOk (ns : List Note) (rows : Rows) : Call → Prop
  | .subscribe _ key stage => StageOk ns rows key stage
  | .find (some key) tag _ => tag ∈ writesOf key ns
  | _ => True

/-- A request whose tag was written to the row of its sensor. -/
def MessageOk (ns : List Note) : Message → Prop
  | .request _ key body => tagOfBody body ∈ writesOf key ns
  | .reply _ _ => True

/-- What the tags written so far say about a state. -/
structure Tracks (ns : List Note) (s : State) : Prop where
  four : ∀ key, ∀ tag ∈ writesOf key ns, tag.length = 4
  stored : ∀ key, storedTag key s.rows = lastWrite key ns
  calls : ∀ id call, s.calls id = some call → CallOk ns s.rows call
  air : ∀ m ∈ s.air, MessageOk ns m
  held : ∀ key tag, s.sensors key = some tag → tag ∈ writesOf key ns

theorem tracks_empty : Tracks [] State.empty where
  four _ _ h := nomatch h
  stored _ := rfl
  calls _ _ h := nomatch h
  air _ h := nomatch h
  held _ _ h := nomatch h

theorem StageOk.mono {rows' : Rows} {stage : Stage}
    (hkept : ∀ key, (rows.get? key).isSome → (rows'.get? key).isSome)
    (h : StageOk ns rows key stage) : StageOk (ns ++ ms) rows' key stage := by
  cases stage with
  | readRow => trivial
  | readContact row => exact fun hrow => hkept key (h hrow)
  | mark a | await a request | record a reply => exact ⟨hkept key h.1, h.2⟩
  | send a => exact ⟨hkept key h.1, h.2.1, h.2.2.1, mem_writesOf_append ms h.2.2.2⟩
  | disable a => exact hkept key h

theorem CallOk.mono {rows' : Rows} {call : Call}
    (hkept : ∀ key, (rows.get? key).isSome → (rows'.get? key).isSome)
    (h : CallOk ns rows call) : CallOk (ns ++ ms) rows' call := by
  cases call with
  | subscribe caller key stage => exact StageOk.mono ms hkept h
  | find sender tag data =>
    cases sender with
    | none => trivial
    | some key => exact mem_writesOf_append ms h
  | renew now rest => trivial
  | telemetry key sensors => trivial
  | recordPush key => trivial

theorem MessageOk.mono {m : Message} (h : MessageOk ns m) :
    MessageOk (ns ++ ms) m := by
  cases m with
  | request number key body => exact mem_writesOf_append ms h
  | reply number data => trivial

theorem callOk_resume (ns : List Note) (rows : Rows) (caller : Caller) (call : Call)
    (h : caller.resume = some call) : CallOk ns rows call := by
  cases caller with
  | route => cases h
  | renewal now rest =>
    cases h
    trivial

/-- What a turn of a call did, with the tag it wrote and what is called next. -/
structure Turn (ns : List Note) (note : Option Note) (s s' : State) (next : Option Call) :
    Prop where
  four : ∀ key, ∀ tag ∈ note.bind (Note.writes key), tag.length = 4
  calls : s'.calls = s.calls
  sensors : s'.sensors = s.sensors
  kept : ∀ key, (s.rows.get? key).isSome → (s'.rows.get? key).isSome
  stored : ∀ key, storedTag key s'.rows = (note.bind (Note.writes key)).or (storedTag key s.rows)
  air : ∀ m ∈ s'.air, m ∈ s.air ∨ MessageOk ns m
  next : ∀ call, next = some call → CallOk (ns ++ note.toList) s'.rows call

theorem Turn.quiet
    (hnext : ∀ call, next = some call → CallOk ns s.rows call) : Turn ns none s s next where
  four _ _ h := nomatch h
  calls := rfl
  sensors := rfl
  kept _ h := h
  stored _ := rfl
  air _ h := Or.inl h
  next call h := by
    rw [Option.toList_none, List.append_nil]
    exact hnext call h

theorem Turn.write
    (hsame : SameTags s.rows rows) (hnext : ∀ call, next = some call → CallOk ns rows call) :
    Turn ns none s { s with rows := rows } next where
  four _ _ h := nomatch h
  calls := rfl
  sensors := rfl
  kept := hsame.kept
  stored := hsame.tags
  air _ h := Or.inl h
  next call h := by
    rw [Option.toList_none, List.append_nil]
    exact hnext call h

/-- A turn that writes a tag to a row that is there. -/
theorem Turn.tagged {note : Note} {f : Row → Row} (hf : ∀ row, (f row).pushTag = some tag)
    (hnote : ∀ key', note.writes key' = if key' = key then some tag else none)
    (hrow : (s.rows.get? key).isSome) (hfour : tag.length = 4)
    (hnext : ∀ call, next = some call → CallOk (ns ++ [note]) (updateRow key f s.rows) call) :
    Turn ns (some note) s { s with rows := updateRow key f s.rows } next where
  four key' tag' h := by
    rw [Option.bind_some, hnote, Option.mem_def] at h
    split at h
    · rw [← Option.some.inj h]
      exact hfour
    · cases h
  calls := rfl
  sensors := rfl
  kept key' h := (isSome_updateRow key key' f s.rows).symm ▸ h
  stored key' := by
    rw [storedTag_updateRow hf hrow, Option.bind_some, hnote]
    by_cases h : key' = key
    · rw [if_pos h, if_pos h, Option.some_or]
    · rw [if_neg h, if_neg h, Option.none_or]
  air _ h := Or.inl h
  next := hnext

theorem writes_marked (key key' : PublicKey) (tag : Bytes) :
    (Note.marked key tag).writes key' = if key' = key then some tag else none := rfl

theorem writes_granted (key key' : PublicKey) (tag : Bytes) :
    (Note.granted key tag).writes key' = if key' = key then some tag else none := rfl

/-- The attempt of a call whose row was there. -/
theorem stageOk_of_prepareAttempt
    {row : Option Row} {contact : Bool} {now : ℤ} {a : Attempt}
    (htag : tag.length = 4) (hok : StageOk ns rows key (.readContact row))
    (h : prepareAttempt L row contact tag now = .ok a) : StageOk ns rows key (.mark a) := by
  cases row with
  | none => cases h
  | some row =>
    cases contact with
    | false => cases h
    | true =>
      simp only [prepareAttempt] at h
      cases henc : encodeThresholds L row.thresholds with
      | error e =>
        rw [henc] at h
        cases h
      | ok thresholds =>
        rw [henc] at h
        cases h
        exact ⟨hok rfl, htag, tagOfBody_buildSubscribeBody htag _ _⟩

theorem turn_recordReply {caller : Caller}
    {a : Attempt} {reply : Option Bytes} (hok : (s.rows.get? key).isSome)
    (hfour : a.tag.length = 4) :
    Turn ns (noteOfReply key a reply) s (recordReply s caller key a reply).1
      (recordReply s caller key a reply).2 := by
  cases reply with
  | none => exact Turn.write (sameTags_setError key _ _ _) (callOk_resume _ _ caller)
  | some data =>
    by_cases hzero : (parseSubscribeReply data).1 = 0
    · simp only [recordReply, noteOfReply, if_pos hzero]
      have hsame := sameTags_setError key .refused a.now s.rows
      refine Turn.write hsame (fun call hc => ?_)
      cases hc
      exact hsame.kept key hok
    · simp only [recordReply, noteOfReply, if_neg hzero]
      refine Turn.tagged ?_ (writes_granted key · a.tag) hok hfour
        (callOk_resume _ _ caller)
      exact fun _ => rfl

/-- **A turn of a subscribe call.** -/
theorem turn_stepSubscribe {caller : Caller}
    {stage : Stage} {o : Outcome} (hok : StageOk ns s.rows key stage)
    (h : stepSubscribe L s caller key stage o = some (s', next)) :
    Turn ns (noteOfStage key stage o) s s' next := by
  have hresume := callOk_resume ns s.rows caller
  cases o with
  | raised =>
    have heq : (s, caller.resume) = (s', next) := by
      cases stage <;> exact Option.some.inj h
    cases heq
    cases stage <;> exact Turn.quiet hresume
  | cancelled =>
    have heq : (s, none) = (s', next) := by
      cases stage <;> exact Option.some.inj h
    cases heq
    have hnone : ∀ call, (none : Option Call) = some call → CallOk ns s.rows call :=
      fun _ hc => nomatch hc
    cases stage <;> exact Turn.quiet hnone
  | contact known => cases stage <;> cases h
  | clock now => cases stage <;> cases h
  | prepared contact tag now =>
    cases stage with
    | readContact row =>
      rw [stepSubscribe] at h
      split at h
      · rename_i htag
        cases hprep : prepareAttempt L row contact tag now with
        | error e =>
          rw [hprep] at h
          cases h
          exact Turn.quiet hresume
        | ok a =>
          rw [hprep] at h
          cases h
          refine Turn.quiet (fun call hc => ?_)
          cases hc
          exact stageOk_of_prepareAttempt htag.1 hok hprep
      · cases h
    | _ => cases h
  | replied i =>
    cases stage with
    | await a request =>
      rw [stepSubscribe] at h
      split at h
      · split at h
        · cases h
          exact
            { four := fun _ _ h => nomatch h
              calls := rfl
              sensors := rfl
              kept := fun _ h => h
              stored := fun _ => rfl
              air := fun m hm => Or.inl (List.mem_of_mem_eraseIdx hm)
              next := by
                rintro call ⟨⟩
                exact hok }
        · cases h
      · cases h
    | _ => cases h
  | gone =>
    cases stage with
    | send a =>
      cases h
      refine Turn.quiet (fun call hc => ?_)
      cases hc
      exact ⟨hok.1, hok.2.1⟩
    | await a request =>
      cases h
      refine Turn.quiet (fun call hc => ?_)
      cases hc
      exact hok
    | _ => cases h
  | done =>
    cases stage with
    | readRow =>
      cases h
      refine Turn.quiet (fun call hc => ?_)
      cases hc
      exact id
    | readContact row => cases h
    | mark a =>
      cases h
      refine Turn.tagged ?_ (writes_marked key · a.tag) hok.1 hok.2.1
        (fun call hc => ?_)
      · exact fun _ => rfl
      cases hc
      refine ⟨?_, hok.2.1, hok.2.2, ?_⟩
      · rw [isSome_updateRow]
        exact hok.1
      · rw [writesOf_append]
        refine List.mem_append_right _ ?_
        simp [writesOf, Note.writes]
    | send a =>
      cases h
      exact
        { four := fun _ _ h => nomatch h
          calls := rfl
          sensors := rfl
          kept := fun _ h => h
          stored := fun _ => rfl
          air := by
            intro m hm
            rcases List.mem_append.mp hm with hm | hm
            · exact Or.inl hm
            · rw [List.mem_singleton.mp hm]
              right
              show tagOfBody a.body ∈ writesOf key ns
              rw [hok.2.2.1]
              exact hok.2.2.2
          next := by
            rintro call ⟨⟩
            exact ⟨hok.1, hok.2.1⟩ }
    | await a request => cases h
    | record a reply =>
      have heq : recordReply s caller key a reply = (s', next) := Option.some.inj h
      have hturn : Turn ns (noteOfReply key a reply) s (recordReply s caller key a reply).1
          (recordReply s caller key a reply).2 := turn_recordReply hok.1 hok.2
      rw [heq] at hturn
      exact hturn
    | disable a =>
      cases h
      exact Turn.write (sameTags_setEnabled key _ _ _) (callOk_resume _ _ caller)

theorem turn_stepCall {call : Call} {o : Outcome} (hok : CallOk ns s.rows call)
    (h : stepCall L s call o = some (s', next)) : Turn ns (noteOfCall call o) s s' next := by
  have hnone : ∀ c, (none : Option Call) = some c → CallOk ns s.rows c := fun _ hc => nomatch hc
  cases call with
  | subscribe caller key stage => exact turn_stepSubscribe hok h
  | renew now rest =>
    cases o with
    | done =>
      cases rest with
      | nil =>
        cases h
        exact Turn.quiet hnone
      | cons e rest =>
        rw [stepCall] at h
        split at h
        · cases h
          refine Turn.quiet (fun call hc => ?_)
          cases hc
          trivial
        · cases h
          refine Turn.quiet (fun call hc => ?_)
          cases hc
          trivial
    | raised | cancelled =>
      cases rest <;>
      · cases h
        exact Turn.quiet hnone
    | _ => cases rest <;> cases h
  | find sender tag data =>
    cases o with
    | done =>
      rw [stepCall] at h
      split at h
      · cases h
        exact Turn.quiet hnone
      · split at h
        · cases h
          exact Turn.quiet hnone
        · split at h
          · cases h
            exact Turn.quiet hnone
          · cases h
            exact Turn.quiet hnone
          · cases h
            refine Turn.quiet (fun call hc => ?_)
            cases hc
            trivial
    | raised | cancelled =>
      cases h
      exact Turn.quiet hnone
    | _ => cases h
  | telemetry key sensors =>
    cases o with
    | contact known =>
      cases h
      exact
        { four := fun _ _ h => nomatch h
          calls := rfl
          sensors := rfl
          kept := fun _ h => h
          stored := fun _ => rfl
          air := fun _ h => Or.inl h
          next := by
            rintro call ⟨⟩
            trivial }
    | raised | cancelled =>
      cases h
      exact Turn.quiet hnone
    | _ => cases h
  | recordPush key =>
    cases o with
    | clock now =>
      cases h
      exact Turn.write (sameTags_recordPush key now s.rows) (fun _ hc => nomatch hc)
    | raised | cancelled =>
      cases h
      exact Turn.quiet hnone
    | _ => cases h

/-! ### Steps -/

theorem Tracks.turn {note : Option Note}
    (ht : Tracks ns s) (hturn : Turn ns note s s' next) (id : ℕ) :
    Tracks (ns ++ note.toList) (s'.put id next) where
  four key tag h := by
    rw [writesOf_append] at h
    rcases List.mem_append.mp h with hold | hnew
    · exact ht.four key tag hold
    · obtain ⟨n, hn, hw⟩ := List.mem_filterMap.mp hnew
      exact hturn.four key tag (Option.bind_eq_some_iff.mpr ⟨n, Option.mem_toList.mp hn, hw⟩)
  stored key := by
    rw [lastWrite_append_toList, ← ht.stored]
    exact hturn.stored key
  calls id' call h := by
    have hcalls : Function.update s'.calls id next id' = some call := h
    by_cases hid : id' = id
    · rw [hid, Function.update_self] at hcalls
      exact hturn.next call hcalls
    · rw [Function.update_of_ne hid, hturn.calls] at hcalls
      exact (ht.calls id' call hcalls).mono note.toList hturn.kept
  air m hm := by
    rcases hturn.air m hm with hold | hnew
    · exact (ht.air m hold).mono note.toList
    · exact hnew.mono note.toList
  held key tag h := by
    have hs : s.sensors key = some tag := hturn.sensors ▸ h
    exact mem_writesOf_append note.toList (ht.held key tag hs)

theorem Tracks.start (ht : Tracks ns s) {id : ℕ} (call : Call)
    (hok : CallOk ns s.rows call) (h : s.start id call = some s') : Tracks ns s' := by
  unfold State.start at h
  split at h
  · cases h
    have hturn : Turn ns none s s (some call) := Turn.quiet (fun c hc => by
      cases hc
      exact hok)
    have := ht.turn hturn id
    rwa [Option.toList_none, List.append_nil] at this
  · cases h

theorem Tracks.write (ht : Tracks ns s)
    (hsame : SameTags s.rows rows) : Tracks ns { s with rows := rows } where
  four := ht.four
  stored key := (hsame.tags key).trans (ht.stored key)
  calls id call h := by
    have := (ht.calls id call h).mono [] hsame.kept
    rwa [List.append_nil] at this
  air := ht.air
  held := ht.held

theorem Tracks.deliver (ht : Tracks ns s) (i number : ℕ)
    (data : Bytes) : ∀ m ∈ s.air.eraseIdx i ++ [.reply number data], MessageOk ns m := by
  intro m hm
  rcases List.mem_append.mp hm with hm | hm
  · exact ht.air m (List.mem_of_mem_eraseIdx hm)
  · rw [List.mem_singleton.mp hm]
    trivial

/-- **Every step keeps track.** -/
theorem Tracks.step {l : Label} (ht : Tracks ns s)
    (h : Step L s l s') : Tracks (ns ++ (noteOf s l).toList) s' := by
  have hnil : noteOf s l = none → Tracks ns s' → Tracks (ns ++ (noteOf s l).toList) s' := by
    intro hno ht'
    rwa [hno, Option.toList_none, List.append_nil]
  cases l with
  | subscribe id key =>
    exact hnil rfl (ht.start (.subscribe .route key .readRow) trivial h)
  | renewDue id now optedIn connected =>
    refine hnil rfl ?_
    rw [Step, SensorPush.step] at h
    split at h
    · exact ht.start (.renew now (listEnabled s.rows)) trivial h
    · cases h
      exact ht
  | turn id o =>
    rw [Step, SensorPush.step] at h
    cases hcall : s.calls id with
    | none =>
      rw [hcall] at h
      cases h
    | some call =>
      rw [hcall] at h
      obtain ⟨r, hr, hs'⟩ := Option.map_eq_some_iff.mp h
      rw [← hs']
      have hnote : noteOf s (.turn id o) = noteOfCall call o := by
        rw [noteOf, hcall, Option.bind_some]
      rw [hnote]
      exact ht.turn (turn_stepCall (ht.calls id call hcall) hr) id
  | lose i =>
    refine hnil rfl ?_
    rw [Step, SensorPush.step] at h
    split at h
    · cases h
      exact { ht with air := fun m hm => ht.air m (List.mem_of_mem_eraseIdx hm) }
    · cases h
  | accept i data =>
    refine hnil rfl ?_
    rw [Step, SensorPush.step] at h
    split at h
    · rename_i number key body hget
      split at h
      · cases h
      · cases h
        have hbody : MessageOk ns (.request number key body) :=
          ht.air _ (List.mem_of_getElem? hget)
        refine { ht with air := ht.deliver i number data, held := ?_ }
        intro key' tag htag
        have hup : Function.update s.sensors key (some (tagOfBody body)) key' = some tag := htag
        by_cases hk : key' = key
        · rw [hk, Function.update_self] at hup
          rw [hk, ← Option.some.inj hup]
          exact hbody
        · rw [Function.update_of_ne hk] at hup
          exact ht.held key' tag hup
    · cases h
  | refuse i data =>
    refine hnil rfl ?_
    rw [Step, SensorPush.step] at h
    split at h
    · rename_i number key body hget
      split at h
      · cases h
        exact { ht with air := ht.deliver i number data }
      · cases h
    · cases h
  | push id key data =>
    refine hnil rfl ?_
    rw [Step, SensorPush.step] at h
    split at h
    · cases h
    · rename_i tag htag
      exact ht.start (.find (some key) tag data) (ht.held key tag htag) h
  | response id tag data =>
    exact hnil rfl (ht.start (.find none tag data) trivial h)
  | saveConfig key thresholds now =>
    cases h
    exact hnil rfl (ht.write (sameTags_saveConfig key thresholds now s.rows))
  | setEnabled key enabled now =>
    cases h
    exact hnil rfl (ht.write (sameTags_setEnabled key enabled now s.rows))

/-- **Every run keeps track.** -/
theorem tracks_of_run
    (r : Run (Step L) State.empty h s) : Tracks (notes h) s := by
  refine Run.history (P := fun h s => Tracks (notes h) s) (C := fun _ => True) r
    (fun _ _ => trivial) tracks_empty ?_
  intro h e hstep _ ht
  rw [notes_append_singleton]
  exact ht.step hstep

/-! ## Pushes are found unless they are superseded -/

/-- A push is found under its sensor's enabled row exactly when it is not
superseded and has no twin. -/
theorem findEnabledByTag_iff_current
    (ht : Tracks ns s) (hw : tag ∈ writesOf key ns) (hon : Enabled key s) :
    (findEnabledByTag tag s.rows).map Prod.fst = some key ↔
      ¬Superseded key tag ns ∧ ¬HasTwin key tag ns s.rows := by
  obtain ⟨row, hget, hen⟩ := (Option.any_eq_true _ _).mp hon
  rw [findEnabledByTag_key_iff hget hen, ht.stored, lastWrite_eq_iff hw]
  refine and_congr_right (fun _ => ⟨?_, ?_⟩)
  · rintro hno ⟨e, he, hen', hlast⟩
    exact hno e he hen' ((ht.stored e.1).trans hlast)
  · intro hno e he hen' hlast
    exact hno ⟨e, he, hen', (ht.stored e.1).symm.trans hlast⟩

theorem mem_writesOf_of_looksUp {f : List (Event State Label)}
    {e : Event State Label} (r : Run (Step L) State.empty h s)
    (hl : LooksUp h f e key tag) : Tracks (notes f) e.pre ∧ tag ∈ writesOf key (notes f) := by
  obtain ⟨⟨g, hg⟩, id, data, _, hcall⟩ := hl
  have ht : Tracks (notes f) e.pre := tracks_of_run ((hg ▸ r).at_event).1
  exact ⟨ht, ht.calls id _ hcall⟩

def sampleTools : LppTools where
  typeName code := if code = 103 then some "temperature" else none
  parse _ := some [⟨1, "temperature", [20]⟩]
  scale _ mult := mult

/-- A sensor grants an hour. Ten minutes before its end the renewal is sent and
lost, and the sensor pushes with the tag that it has. -/
def lostRenewal : List Label :=
  [.saveConfig [1] [⟨1, "temperature", 1⟩] 0, .setEnabled [1] true 0, .subscribe 0 [1],
    .turn 0 .done, .turn 0 (.prepared true [1, 2, 3, 4] 0), .turn 0 .done, .turn 0 .done,
    .accept 0 [0x10, 0x0E, 0, 0], .turn 0 (.replied 0), .turn 0 .done,
    .renewDue 0 3000 true true, .turn 0 .done, .turn 0 .done,
    .turn 0 (.prepared true [5, 6, 7, 8] 3000), .turn 0 .done, .turn 0 .done, .lose 0,
    .push 1 [1] [0, 0, 0, 0, 1, 103, 0, 200], .turn 1 .done]

/-- The subscription stays enabled and the last step looks up a push in vain. -/
def dropsLast (r : List (Event State Label) × State) : Bool :=
  decide (∀ e ∈ r.1, Enabled [1] e.pre → Enabled [1] e.post) &&
    r.1.getLast?.any (fun e =>
      decide (e.label = .turn 1 .done) &&
      decide (e.pre.calls 1 = some (.find (some [1]) [1, 2, 3, 4] [0, 0, 0, 0, 1, 103, 0, 200])) &&
      decide (Enabled [1] e.pre) && (findEnabledByTag [1, 2, 3, 4] e.pre.rows).isNone)

theorem exists_run_lostRenewal :
    ∃ h s, Run (Step sampleTools) State.empty h s ∧ h.map Event.label = lostRenewal ∧
      ¬PushesMatch [1] h := by
  obtain ⟨h, s, r, hlabels, hdrops⟩ :=
    Run.exists_of_trace (step sampleTools) State.empty lostRenewal dropsLast (by decide)
  refine ⟨h, s, r, hlabels, fun hmatch => ?_⟩
  simp only [dropsLast, Bool.and_eq_true, decide_eq_true_eq] at hdrops
  obtain ⟨hstays, hlast⟩ := hdrops
  obtain ⟨e, he, hprops⟩ := (Option.any_eq_true _ _).mp hlast
  simp only [Bool.and_eq_true, decide_eq_true_eq] at hprops
  obtain ⟨⟨⟨hlabel, hcall⟩, hon⟩, hnone⟩ := hprops
  obtain ⟨f, hf⟩ := List.getLast?_eq_some_iff.mp he
  have hfound := hmatch hstays f e [1, 2, 3, 4] ⟨⟨[], hf⟩, 1, _, hlabel, hcall⟩ hon
  rw [Option.isNone_iff_eq_none.mp hnone] at hfound
  cases hfound

end RtfmEv.SensorPush
