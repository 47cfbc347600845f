import RtfmEv.Lib.Run

/-!
# The fanout modules (`app/fanout/manager.py`, `app/routers/fanout.py`)

The manager keeps one running module for each enabled configuration. Requests change a
row and have its module reloaded or removed, a handler that times out has its module
restarted, and the modules are all loaded at the start and all stopped at the end. A call
stops at its awaits: a read or a write of the row, the lock of the configuration, the
start or the stop of a module.

What belongs to one configuration is kept together. Its modules and its lock objects go
by number. Scopes, names, error texts and what a module does with its events are left out:
no step depends on them.
-/

namespace RtfmEv.Fanout

open RtfmEv.Lib

/-- Who works on a configuration: a request, or a handler that has timed out. -/
inductive Kind
  | create (enabled : Bool)
  /-- with the new value of `enabled`, if any, and whether the body passes validation -/
  | update (enabled : Option Bool) (valid : Bool)
  | delete
  | restart (module : ℕ)
  deriving DecidableEq

/-- What a call waits for. -/
inductive Phase
  /-- the row, to answer 404 when there is none -/
  | checking
  | checked (found : Bool)
  | writing
  | written (found : Bool)
  | waiting (lock : ℕ)
  /-- `module.stop()` in `remove_config` -/
  | removing (lock : Option ℕ) (module : ℕ)
  /-- the row, in `reload_config` -/
  | reading (lock : ℕ)
  | read (lock : ℕ) (enabled : Bool)
  /-- `module.start()` in `_start_module` -/
  | starting (lock module : ℕ)
  /-- `module.stop()` and `module.start()` in `_restart_module` -/
  | stopping (lock module : ℕ)
  | restarting (lock module : ℕ)
  | finished
  deriving DecidableEq

structure Call where
  kind : Kind
  phase : Phase
  deriving DecidableEq

/-- What belongs to one configuration: its row, of which only `enabled` is kept, its entry
in `_modules`, its modules with those that have been registered and those whose last start
succeeded without a later stop, its lock in `_restart_locks` and every lock that there was,
and the calls that work on it. -/
structure Config where
  row : Option Bool := none
  registered : Option ℕ := none
  moduleCount : ℕ := 0
  listed : ℕ → Bool := fun _ => false
  running : ℕ → Bool := fun _ => false
  lock : Option ℕ := none
  lockCount : ℕ := 0
  locked : ℕ → Bool := fun _ => false
  calls : List Call := []

namespace Config

variable (s : Config)

def setPhase (i : ℕ) (phase : Phase) : Config :=
  { s with calls := s.calls.modify i (fun call => { call with phase := phase }) }

def setRunning (m : ℕ) (running : Bool) : Config :=
  { s with running := Function.update s.running m running }

def setLocked (l : ℕ) (locked : Bool) : Config :=
  { s with locked := Function.update s.locked l locked }

/-- `self._modules[config_id] = (module, scope)`. -/
def register (m : ℕ) : Config :=
  { s with registered := some m, listed := Function.update s.listed m true }

/-- A call begins. -/
def begin (kind : Kind) (phase : Phase) : Config := { s with calls := s.calls ++ [⟨kind, phase⟩] }

/-- `self._restart_locks.setdefault(config_id, asyncio.Lock())`, and the wait for it. -/
def awaitLock (i : ℕ) : Config :=
  match s.lock with
  | some l => s.setPhase i (.waiting l)
  | none =>
    { s with lock := some s.lockCount, lockCount := s.lockCount + 1 }.setPhase i
      (.waiting s.lockCount)

/-- A call ends that has the lock. -/
def release (i l : ℕ) : Config := (s.setLocked l false).setPhase i .finished

/-- `remove_config`, up to its await, with what follows when there is no module. -/
def removePart (i : ℕ) (lock : Option ℕ) (next : Phase) : Config :=
  match s.registered with
  | some m => { s with registered := none }.setPhase i (.removing lock m)
  | none => s.setPhase i next

/-- What follows `remove_config`: `reload_config` reads the row, the request deletes it. -/
def afterRemove : Option ℕ → Phase
  | some l => .reading l
  | none => .writing

/-- A call has got the lock. -/
def locksIn (i l : ℕ) (kind : Kind) : Config :=
  let s := s.setLocked l true
  match kind with
  | .restart m =>
    if s.registered = some m then s.setPhase i (.stopping l m) else s.release i l
  | _ => s.removePart i (some l) (.reading l)

/-- A write of the row takes effect. -/
def write (i : ℕ) : Kind → Config
  | .update enabled _ =>
    match s.row with
    | some old => { s with row := some (enabled.getD old) }.setPhase i (.written true)
    | none => s.setPhase i (.written false)
  | _ => { s with row := none }.setPhase i (.written true)

/-- What follows a write of the row. -/
def afterWrite (i : ℕ) (kind : Kind) (found : Bool) : Config :=
  match kind with
  | .create enabled => if enabled then s.awaitLock i else s.setPhase i .finished
  | .update _ _ => if found then s.awaitLock i else s.setPhase i .finished
  | _ => s.setPhase i .finished

/-- What follows the check that the row is there. -/
def afterCheck (i : ℕ) (kind : Kind) (found : Bool) : Config :=
  match found, kind with
  | true, .update _ valid => s.setPhase i (if valid then .writing else .finished)
  | true, .delete => s.removePart i none .writing
  | _, _ => s.setPhase i .finished

/-- `_start_module`, up to its await. The type may be unknown, and the construction of the
module may raise. -/
def startPart (i l : ℕ) (made : Bool) : Config :=
  if made then
    { s with moduleCount := s.moduleCount + 1 }.setPhase i (.starting l s.moduleCount)
  else s.release i l

/-- The end of `_start_module`. -/
def started (m : ℕ) (raised : Bool) : Config :=
  if raised then s.setRunning m false else (s.setRunning m true).register m

/-- The end of `_restart_module` after the start. -/
def restarted (m : ℕ) (raised : Bool) : Config :=
  if raised then { s.setRunning m false with registered := none } else s.setRunning m true

end Config

/-! ### Steps of one configuration -/

inductive ConfigOp
  | request (kind : Kind)
  | timesOut (m : ℕ)
  /-- a read or a write of the row takes effect -/
  | reads (i : ℕ)
  | writes (i : ℕ)
  /-- the call goes on after it -/
  | resumes (i : ℕ)
  | makes (i : ℕ) (made : Bool)
  | acquires (i : ℕ)
  | stopped (i : ℕ) (raised : Bool)
  | started (i : ℕ) (raised : Bool)
  deriving DecidableEq

namespace Config

/-- One step, when it is possible. -/
def apply (s : Config) : ConfigOp → Option Config
  | .request (.update enabled valid) => some (s.begin (.update enabled valid) .checking)
  | .request .delete => some (s.begin .delete .checking)
  | .request _ => none
  | .timesOut m =>
    if s.listed m then
      some ((s.begin (.restart m) .finished).awaitLock s.calls.length)
    else none
  | .reads i =>
    match s.calls[i]? with
    | some ⟨_, .checking⟩ => some (s.setPhase i (.checked s.row.isSome))
    | some ⟨_, .reading l⟩ => some (s.setPhase i (.read l (s.row = some true)))
    | _ => none
  | .writes i =>
    match s.calls[i]? with
    | some ⟨kind, .writing⟩ => some (s.write i kind)
    | _ => none
  | .resumes i =>
    match s.calls[i]? with
    | some ⟨kind, .checked found⟩ => some (s.afterCheck i kind found)
    | some ⟨kind, .written found⟩ => some (s.afterWrite i kind found)
    | some ⟨_, .read l false⟩ => some (s.release i l)
    | _ => none
  | .makes i made =>
    match s.calls[i]? with
    | some ⟨_, .read l true⟩ => some (s.startPart i l made)
    | _ => none
  | .acquires i =>
    match s.calls[i]? with
    | some ⟨kind, .waiting l⟩ => if s.locked l then none else some (s.locksIn i l kind)
    | _ => none
  | .stopped i raised =>
    match s.calls[i]? with
    | some ⟨_, .removing lock m⟩ => some ((s.setRunning m false).setPhase i (afterRemove lock))
    | some ⟨_, .stopping l m⟩ =>
      if raised then some ({ s.setRunning m false with registered := none }.release i l)
      else some ((s.setRunning m false).setPhase i (.restarting l m))
    | _ => none
  | .started i raised =>
    match s.calls[i]? with
    | some ⟨_, .starting l m⟩ => some ((s.started m raised).release i l)
    | some ⟨_, .restarting l m⟩ => some ((s.restarted m raised).release i l)
    | _ => none

end Config

/-! ### All configurations -/

/-- `load_from_db`: the configurations that are still to be started, once they are read, and
the module of the first of them that is being started. -/
structure Load where
  rest : Option (List ℕ) := none
  starting : Option ℕ := none
  deriving DecidableEq

/-- The configurations in the order of their creation, those with a module in the order of
`_modules`, the calls of `load_from_db`, and for each call of `stop_all` the modules that it
has still to stop. -/
structure State where
  configs : List Config := []
  order : List ℕ := []
  loads : List Load := []
  shutdowns : List (List (ℕ × ℕ)) := []

inductive Op
  | create (enabled : Bool)
  | on (c : ℕ) (op : ConfigOp)
  | loads
  | loadReads (k : ℕ)
  | loadMakes (k : ℕ) (made : Bool)
  | loadStarted (k : ℕ) (raised : Bool)
  | stopsAll
  | allStopped (k : ℕ) (raised : Bool)
  deriving DecidableEq

namespace State

variable (s : State)

def setConfig (c : ℕ) (config : Config) : State :=
  { s with
    configs := s.configs.set c config
    order :=
      if config.registered.isSome then if c ∈ s.order then s.order else s.order ++ [c]
      else s.order.filter (· ≠ c) }

def setLoad (k : ℕ) (load : Load) : State := { s with loads := s.loads.set k load }

/-- `FanoutConfigRepository.get_enabled()`. -/
def enabledConfigs : List ℕ :=
  (List.range s.configs.length).filter (fun c => (s.configs[c]?).any (fun config =>
    config.row = some true))

/-- `list(self._modules.items())`. -/
def snapshot : List (ℕ × ℕ) :=
  s.order.filterMap (fun c => (s.configs[c]?).bind (fun config =>
    config.registered.map (fun m => (c, m))))

/-- The end of `stop_all`. -/
def clear : State :=
  { s with
    configs := s.configs.map (fun config => { config with registered := none, lock := none })
    order := [] }

/-- `stop_all` goes on: it stops the next module, or comes to its end. -/
def stopNext (k : ℕ) (rest : List (ℕ × ℕ)) : State :=
  let s := { s with shutdowns := s.shutdowns.set k rest }
  if rest = [] then s.clear else s

/-- One step, when it is possible. -/
def apply : Op → Option State
  | .create enabled =>
    some { s with configs := s.configs ++ [{ row := some enabled
                                             calls := [⟨.create enabled, .written true⟩] }] }
  | .on c op =>
    match s.configs[c]? with
    | some config => (config.apply op).map (s.setConfig c)
    | none => none
  | .loads => some { s with loads := s.loads ++ [{}] }
  | .loadReads k =>
    match s.loads[k]? with
    | some ⟨none, _⟩ => some (s.setLoad k { rest := some s.enabledConfigs })
    | _ => none
  | .loadMakes k made =>
    match s.loads[k]? with
    | some ⟨some (c :: rest), none⟩ =>
      match s.configs[c]? with
      | some config =>
        if made then
          some ((s.setConfig c { config with moduleCount := config.moduleCount + 1 }).setLoad k
            ⟨some (c :: rest), some config.moduleCount⟩)
        else some (s.setLoad k { rest := some rest })
      | none => none
    | _ => none
  | .loadStarted k raised =>
    match s.loads[k]? with
    | some ⟨some (c :: rest), some m⟩ =>
      match s.configs[c]? with
      | some config =>
        some ((s.setConfig c (config.started m raised)).setLoad k { rest := some rest })
      | none => none
    | _ => none
  | .stopsAll =>
    some ({ s with shutdowns := s.shutdowns ++ [s.snapshot] }.stopNext s.shutdowns.length
      s.snapshot)
  | .allStopped k _ =>
    match s.shutdowns[k]? with
    | some ((c, m) :: rest) =>
      match s.configs[c]? with
      | some config => some ((s.setConfig c (config.setRunning m false)).stopNext k rest)
      | none => none
    | _ => none

/-- A program starts: there are rows, and nothing runs. -/
def starting (rows : List (Option Bool)) : State :=
  { configs := rows.map (fun row => { row := row }) }

end State

abbrev FanoutEvent := Lib.Event State Op

def FanoutStep (s : State) (op : Op) (s' : State) : Prop := s.apply op = some s'

/-! ### What is asked -/

/-- The running modules of a configuration are what is registered, and there is none when
the last request that came to its end has left the row deleted or disabled. -/
structure Config.Exact (s : Config) : Prop where
  registered : ∀ m, s.running m = true → s.registered = some m
  one : ∀ m m', s.running m = true → s.running m' = true → m = m'
  none : s.row ≠ some true → ∀ m, s.running m = false

/-- No call is in progress. -/
structure State.Quiet (s : State) : Prop where
  calls : ∀ config ∈ s.configs, ∀ call ∈ config.calls, call.phase = .finished
  loads : ∀ load ∈ s.loads, load.rest = some []
  shutdowns : ∀ rest ∈ s.shutdowns, rest = []

end RtfmEv.Fanout
