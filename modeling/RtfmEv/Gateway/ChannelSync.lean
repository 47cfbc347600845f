import Mathlib.Data.List.Basic
import RtfmEv.Lib.Run

/-!
# The shared channel list

The gateway keeps the channels of all radios the same. A reconcile pass asks every
running worker to delete what is still to be deleted there, reads all lists, and asks
each worker to add what it lacks. The pass is cut at its awaits: a request is served
by the worker in one step and its reply is taken up in another, and between any two
steps users may change channels, workers may stop and start, and the gateway may note
a delete that a worker has answered.
-/

namespace RtfmEv.Gateway

open RtfmEv.Lib

structure Channel where
  key : String
  name : String
  isHashtag : Bool
  deriving DecidableEq, Repr

def channelKeys (channels : List Channel) : List String := channels.map Channel.key

/-- A worker: whether it runs, the token of its run, the channels in its database. -/
structure Worker where
  running : Bool := true
  token : String := ""
  channels : List Channel := []
  deriving DecidableEq, Repr

/-- The registered radios and what does not change: the key a name stands for, and
which deletes a worker refuses. -/
structure Site (ρ : Type) where
  radios : List ρ
  complete : ∀ radio, radio ∈ radios
  hashtagKey : String → String
  refuses : ρ → String → Bool

/-- One request of a pass that adds channels. -/
inductive AddRequest where
  | create (channel : Channel)
  | importAll (channels : List Channel)
  deriving DecidableEq, Repr

def AddRequest.channels : AddRequest → List Channel
  | .create channel => [channel]
  | .importAll channels => channels

variable {ρ : Type}

/-- What a pass found: the lists it read, the deletes that were pending then, and the
channels that are offered to every radio. -/
structure Plan (ρ : Type) where
  lists : List (ρ × List Channel)
  pending : ρ → List String
  union : List Channel

/-- A reply on its way: lost, or with a status. -/
abbrev Reply := Option ℕ

/-- Where a pass stands. The head of `keys` or `requests` is the request that is made;
it has been served when there is a reply. -/
inductive Phase (ρ : Type) where
  | idle
  | deleting (running : List ρ) (radio : ρ) (keys : List String) (todo : List ρ)
      (reply : Option Reply)
  | listing (radio : ρ) (todo : List ρ) (lists : List (ρ × List Channel))
  | adding (plan : Plan ρ) (radio : ρ) (requests : List AddRequest) (todo : List ρ)
      (reply : Option Reply)

structure State (ρ : Type) where
  worker : ρ → Worker
  pending : ρ → List String := fun _ => []
  failedAdds : List (String × String) := []
  /-- Deletes a worker has answered that the gateway has not noted yet. -/
  answered : List (ρ × List String) := []
  phase : Phase ρ := .idle

/-- The radio has the channel. -/
def State.Holds (s : State ρ) (radio : ρ) (key : String) : Prop :=
  key ∈ channelKeys (s.worker radio).channels

instance (s : State ρ) (radio : ρ) (key : String) : Decidable (s.Holds radio key) :=
  inferInstanceAs (Decidable (_ ∈ _))

/-! ### Workers -/

/-- `ChannelRepository.upsert`. -/
def upsert (channels : List Channel) (channel : Channel) : List Channel :=
  channels.filter (fun c => c.key ≠ channel.key) ++ [channel]

variable [DecidableEq ρ]

def State.setWorker (s : State ρ) (radio : ρ) (f : Worker → Worker) : State ρ :=
  { s with worker := Function.update s.worker radio (f (s.worker radio)) }

def State.addChannels (s : State ρ) (radio : ρ) (channels : List Channel) : State ρ :=
  s.setWorker radio (fun w => { w with channels := channels.foldl upsert w.channels })

def State.dropKeys (s : State ρ) (radio : ρ) (keys : List String) : State ρ :=
  s.setWorker radio
    (fun w => { w with channels := w.channels.filter (fun c => c.key ∉ keys) })

/-! ### The registry -/

def State.addPendingChannelDeletes (s : State ρ) (radios : List ρ) (keys : List String) : State ρ :=
  { s with
    pending := fun radio =>
      if radio ∈ radios then s.pending radio ++ keys.filter (fun k => k ∉ s.pending radio)
      else s.pending radio }

def State.clearPendingChannelDelete (s : State ρ) (radio : ρ) (key : String) : State ρ :=
  { s with
    pending := Function.update s.pending radio ((s.pending radio).filter (fun k => k ≠ key)) }

/-- `note_deleted`: every radio but the origin has to delete the channels too. -/
def noteDeleted (S : Site ρ) (s : State ρ) (origin : ρ) (keys : List String) : State ρ :=
  let others := S.radios.filter (fun radio => radio ≠ origin)
  if keys ≠ [] ∧ others ≠ [] then s.addPendingChannelDeletes others keys else s

/-! ### A reconcile pass -/

/-- Whether a channel is added by the request that takes a name alone, or a name and a
key. -/
def direct (S : Site ρ) (channel : Channel) : Bool :=
  (!channel.isHashtag && !channel.name.startsWith "#") ||
    (channel.name.startsWith "#" && S.hashtagKey channel.name = channel.key)

/-- The requests of `_add`. -/
def addRequests (S : Site ρ) (channels : List Channel) : List AddRequest :=
  let byImport := channels.filter (fun c => !direct S c)
  (channels.filter (direct S)).map .create ++
    (if byImport = [] then [] else [.importAll byImport])

/-- Offer the channels of one list that its radio does not still have to delete. -/
def offer (pending : List String) (union : List Channel) (channels : List Channel) :
    List Channel :=
  channels.foldl (fun union c =>
    if c.key ∈ pending ∨ c.key ∈ channelKeys union then union else union ++ [c]) union

def offered (pending : ρ → List String) (lists : List (ρ × List Channel)) : List Channel :=
  lists.foldl (fun union entry => offer (pending entry.1) union entry.2) []

/-- Whether the list read from a radio has the key. -/
def Plan.listed (plan : Plan ρ) (radio : ρ) (key : String) : Bool :=
  plan.lists.any (fun entry => entry.1 = radio && (channelKeys entry.2).contains key)

def Plan.missing (plan : Plan ρ) (s : State ρ) (radio : ρ) : List Channel :=
  plan.union.filter (fun c => !plan.listed radio c.key && c.key ∉ plan.pending radio &&
    ((s.worker radio).token, c.key) ∉ s.failedAdds)

/-- Go on with the next radio that lacks something. -/
def beginAdds (S : Site ρ) (s : State ρ) (plan : Plan ρ) : List ρ → Phase ρ
  | [] => .idle
  | radio :: todo =>
    if plan.missing s radio = [] then beginAdds S s plan todo
    else .adding plan radio (addRequests S (plan.missing s radio)) todo none

def finishLists (S : Site ρ) (s : State ρ) (lists : List (ρ × List Channel)) : Phase ρ :=
  if lists.length < 2 then .idle
  else
    beginAdds S s { lists := lists, pending := s.pending, union := offered s.pending lists }
      (lists.map Prod.fst)

def beginLists (S : Site ρ) (s : State ρ) (lists : List (ρ × List Channel)) : List ρ → Phase ρ
  | [] => finishLists S s lists
  | radio :: todo => .listing radio todo lists

/-- Go on with the next radio that has pending deletes. -/
def beginDeletes (S : Site ρ) (s : State ρ) (running : List ρ) : List ρ → Phase ρ
  | [] => beginLists S s [] running
  | radio :: todo =>
    if s.pending radio = [] then beginDeletes S s running todo
    else .deleting running radio (s.pending radio) todo none

/-! ### Steps -/

/-- What becomes of a request: served and answered, answered with an error, or broken
off after some of its effects, without a reply. -/
inductive Outcome where
  | served
  | failed
  | broken (done : ℕ)
  deriving DecidableEq, Repr

inductive Label (ρ : Type) where
  | setWorker (radio : ρ) (running : Bool) (token : String)
  /-- A user, the radio or a community adds a channel on a worker. -/
  | localAdd (radio : ρ) (channel : Channel)
  /-- A worker deletes channels; `delivered` when its answer gets to the gateway. -/
  | userDelete (radio : ρ) (keys : List String) (delivered : Bool)
  | noteDeleted (radio : ρ) (keys : List String)
  | startPass
  | serve (outcome : Outcome)
  | answer
  /-- The pass ends with an exception. -/
  | abort
  deriving DecidableEq

/-- The worker serves the delete of one key. -/
def serveDelete (S : Site ρ) (s : State ρ) (radio : ρ) (key : String) : Outcome → State ρ × Reply
  | .served => if S.refuses radio key then (s, some 400) else (s.dropKeys radio [key], some 200)
  | .failed => (s, some 500)
  | .broken done =>
    (if done = 0 ∨ S.refuses radio key then s else s.dropKeys radio [key], none)

/-- The worker serves an add. -/
def serveAdd (s : State ρ) (radio : ρ) (request : AddRequest) : Outcome → State ρ × Reply
  | .served => (s.addChannels radio request.channels, some 200)
  | .failed => (s, some 500)
  | .broken done => (s.addChannels radio (request.channels.take done), none)

/-- The request that is waiting is served. -/
def serve (S : Site ρ) (s : State ρ) (outcome : Outcome) : Option (State ρ) :=
  match s.phase with
  | .deleting running radio (key :: keys) todo none =>
    let (s, reply) := serveDelete S s radio key outcome
    some { s with phase := .deleting running radio (key :: keys) todo (some reply) }
  | .listing radio todo lists =>
    let lists :=
      if outcome = .served then lists ++ [(radio, (s.worker radio).channels)] else lists
    some { s with phase := beginLists S s lists todo }
  | .adding plan radio (request :: requests) todo none =>
    let (s, reply) := serveAdd s radio request outcome
    some { s with phase := .adding plan radio (request :: requests) todo (some reply) }
  | _ => none

/-- Whether a reply settles a delete: a refusal does, an error of the worker does not. -/
def settles : Reply → Bool
  | some status => status < 500
  | none => false

/-- Whether a reply says that the add failed. -/
def addFailed : Reply → Bool
  | some status => status ≥ 300
  | none => true

/-- The reply is taken up. -/
def answer (S : Site ρ) (s : State ρ) : Option (State ρ) :=
  match s.phase with
  | .deleting running radio (key :: keys) todo (some reply) =>
    let s := if settles reply then s.clearPendingChannelDelete radio key else s
    some
      { s with
        phase :=
          if keys = [] then beginDeletes S s running todo
          else .deleting running radio keys todo none }
  | .adding plan radio (request :: requests) todo (some reply) =>
    let s :=
      if addFailed reply then
        { s with
          failedAdds := s.failedAdds ++
            request.channels.map (fun c => ((s.worker radio).token, c.key)) }
      else s
    some
      { s with
        phase :=
          if requests = [] then beginAdds S s plan todo
          else .adding plan radio requests todo none }
  | _ => none

def State.step (S : Site ρ) (s : State ρ) : Label ρ → Option (State ρ)
  | .setWorker radio running token =>
    some (s.setWorker radio (fun w => { w with running := running, token := token }))
  | .localAdd radio channel => some (s.addChannels radio [channel])
  | .userDelete radio keys delivered =>
    let s := s.dropKeys radio (keys.filter (fun k => !S.refuses radio k))
    some (if delivered then { s with answered := s.answered ++ [(radio, keys)] } else s)
  | .noteDeleted radio keys =>
    if (radio, keys) ∈ s.answered then
      some (noteDeleted S { s with answered := s.answered.erase (radio, keys) } radio keys)
    else none
  | .startPass =>
    match s.phase with
    | .idle =>
      let running := S.radios.filter (fun radio => (s.worker radio).running)
      some { s with phase := beginDeletes S s running running }
    | _ => none
  | .serve outcome => serve S s outcome
  | .answer => answer S s
  | .abort =>
    match s.phase with
    | .idle => none
    | _ => some { s with phase := .idle }

abbrev Step (S : Site ρ) : State ρ → Label ρ → State ρ → Prop := fun s l t => s.step S l = some t

end RtfmEv.Gateway
