import Mathlib.Data.List.Sort
import RtfmEv.Lib.Bytes
import RtfmEv.Lib.OrderedDict
import RtfmEv.Lib.Run

/-!
# The cache of map tiles (`app/services/tile_cache.py`)

`get`, `evict_if_needed`, `stats` and `clear` are cut at their awaits. What one of
them hands to a worker thread is one step, and what it does with the result when it
runs again is another. The running total is written only in the latter.

The answers of the tile server come with the steps, with their freshness parsed, and
so do the clock and the times of files. What the calls return is left out.

`changes` notes how much each change of the files has added to their sizes, which
the code does not keep. A call that has measured the files remembers how many changes
there were before.
-/

namespace RtfmEv.TileCache

open RtfmEv.Lib

structure Meta where
  ct : String
  fetched : ℚ
  expires : ℚ
  sie : Option ℤ
  mr : Bool
  etag : Option String
  lm : Option String
  deriving DecidableEq

structure Entry where
  info : Meta
  body : Bytes
  deriving DecidableEq

/-- A tile file. Its entry is `none` when it cannot be parsed. -/
structure File where
  size : ℕ
  mtime : ℚ
  entry : Option Entry
  deriving DecidableEq

/-- The directory of a tile file's source, and its path in there. -/
abbrev Path := String × String

abbrev Files := OrderedDict Path File

/-- What the cache takes from elsewhere: where the file of a key is, how long the
JSON of an entry is, and the settings. -/
structure Setup where
  pathFor : String → Path
  metaLength : Meta → ℕ
  maxBytes : ℕ
  maxAgeDays : ℕ

/-- The sizes of the tile files together. -/
def diskSize (files : Files) : ℕ := files.total File.size

structure Freshness where
  ttlS : ℚ
  staleIfErrorS : Option ℤ
  mustRevalidate : Bool
  noStore : Bool
  deriving DecidableEq

structure Response where
  status : ℕ
  fresh : Freshness
  ct : String
  etag : Option String
  lm : Option String
  body : Bytes
  deriving DecidableEq

/-- Whose eviction it is: that of a store, or of a call of `evict_if_needed`. -/
inductive After
  | store (key : String)
  | call
  deriving DecidableEq

/-- What a call does next. `written` and `deleted` have changed a file that is still
to be booked, and so has a store that scans. `scanned`, `evicted` and `cleared` have
measured the files, after `mark` changes. -/
inductive Op
  | read (key : String)
  | check (key : String) (entry : Option Entry)
  | delete (key : String)
  | deleted (key : String) (freed : ℕ)
  | touch (key : String)
  | fetch (key : String) (entry : Option Entry)
  | write (key : String) (info : Meta) (body : Bytes)
  | written (key : String) (new previous : ℕ)
  | storeScan (key : String) (new previous : ℕ)
  | storeScanned (key : String) (new previous : ℕ) (sum mark : ℕ)
  | evictScan
  | evictScanned (sum mark : ℕ)
  | lock (a : After)
  | evict (a : After)
  | evicted (a : After) (remaining mark : ℕ)
  | statsScan
  | statsScanned (sum mark : ℕ)
  | clear
  | cleared (mark : ℕ)
  | finish (key : String)
  deriving DecidableEq

structure State where
  files : Files
  total : Option ℤ
  locked : Bool
  inflight : List String
  ops : OrderedDict ℕ Op
  nextOp : ℕ
  changes : List ℤ

/-- A cache that has just been started over the files that are there. -/
def State.fresh (files : Files) : State :=
  { files := files, total := none, locked := false, inflight := [], ops := OrderedDict.empty
    nextOp := 0, changes := [] }

/-- The state with other files. -/
def State.change (s : State) (files : Files) : State :=
  { s with files := files, changes := s.changes ++ [(diskSize files : ℤ) - diskSize s.files] }

def fileSize (files : Files) (path : Path) : ℕ := ((files.get? path).map File.size).getD 0

/-- `json.dumps` behind a magic number and a length, then the body. -/
def blobSize (S : Setup) (info : Meta) (body : Bytes) : ℕ := 8 + S.metaLength info + body.length

def readEntry (S : Setup) (files : Files) (key : String) : Option Entry :=
  (files.get? (S.pathFor key)).bind File.entry

def writeFile (S : Setup) (files : Files) (key : String) (info : Meta) (body : Bytes)
    (mtime : ℚ) : Files :=
  files.set (S.pathFor key) ⟨blobSize S info body, mtime, some ⟨info, body⟩⟩

def touchFile (files : Files) (path : Path) (mtime : ℚ) : Files :=
  match files.get? path with
  | none => files
  | some file => files.set path { file with mtime := mtime }

/-- The loop of `_evict` over the files, the least recently used first: the paths it
unlinks and what is left then. -/
def evictLoop (target : ℕ) : ℕ → List (Path × File) → List Path × ℕ
  | left, [] => ([], left)
  | left, (path, file) :: rest =>
    if left ≤ target then ([], left)
    else
      let r := evictLoop target (left - file.size) rest
      (path :: r.1, r.2)

/-- Nine tenths of the cap. -/
def evictTarget (S : Setup) : ℕ := S.maxBytes * 9 / 10

def evictFiles (S : Setup) (files : Files) : Files × ℕ :=
  let entries := files.entries.insertionSort (fun e e' => e.2.mtime ≤ e'.2.mtime)
  let r := evictLoop (evictTarget S) (entries.map (fun e => e.2.size)).sum entries
  (files.eraseIf (fun e => r.1.contains e.1), r.2)

/-- `a or b` of two header values. -/
def orElse (a b : Option String) : Option String := if a = none ∨ a = some "" then b else a

def metaFrom (fresh : Freshness) (resp : Response) (now : ℚ) (ct : String)
    (keep : Option Meta) : Meta :=
  { ct := ct
    fetched := now
    expires := now + fresh.ttlS
    sie := fresh.staleIfErrorS
    mr := fresh.mustRevalidate
    etag := orElse resp.etag (keep.bind Meta.etag)
    lm := orElse resp.lm (keep.bind Meta.lm) }

/-- What `_refresh` stores when the server has answered, if anything. -/
def storedOf (entry : Option Entry) (resp : Response) (now : ℚ) : Option (Meta × Bytes) :=
  match entry with
  | some e =>
    if resp.status = 304 then
      some (metaFrom resp.fresh resp now e.info.ct (some e.info), e.body)
    else if resp.status = 200 ∧ ¬resp.fresh.noStore then
      some (metaFrom resp.fresh resp now resp.ct none, resp.body)
    else none
  | none =>
    if resp.status = 200 ∧ ¬resp.fresh.noStore then
      some (metaFrom resp.fresh resp now resp.ct none, resp.body)
    else none

/-- A `get` has joined the fetch of its key, or has started one. -/
def State.joinFetch (s : State) (key : String) (entry : Option Entry) : State :=
  if key ∈ s.inflight then s
  else
    { s with
      inflight := s.inflight ++ [key]
      ops := s.ops.set s.nextOp (.fetch key entry)
      nextOp := s.nextOp + 1 }

/-- What comes after an eviction. -/
def After.next : After → Option Op
  | store key => some (.finish key)
  | call => none

/-- The total of a delete, which is not below zero. -/
def bookFreed (total : Option ℤ) (freed : ℕ) : Option ℤ := total.map (fun t => max 0 (t - freed))

/-- Evict when the total is over the cap. -/
def evictIfOver (S : Setup) (total : ℤ) (a : After) : Option Op :=
  if total ≤ S.maxBytes then a.next else some (.lock a)

/-- What an await gave: a time, or the answer of the server. -/
inductive Outcome
  | done
  | clock (now : ℚ)
  | answer (resp : Response) (now : ℚ)
  | failed
  deriving DecidableEq

/-- One turn of a call: the state it leaves and what it does next. -/
def turn (S : Setup) (s : State) : Op → Outcome → Option (State × Option Op)
  | .read key, .done => some (s, some (.check key (readEntry S s.files key)))
  | .check key entry, .clock now =>
    match entry with
    | none => some (s.joinFetch key none, none)
    | some e =>
      if now - e.info.fetched > S.maxAgeDays * 86400 then some (s, some (.delete key))
      else if now < e.info.expires then some (s, some (.touch key))
      else some (s.joinFetch key (some e), none)
  | .delete key, .done =>
    some (s.change (s.files.erase (S.pathFor key)),
      some (.deleted key (fileSize s.files (S.pathFor key))))
  | .deleted key freed, .done =>
    some (State.joinFetch { s with total := bookFreed s.total freed } key none, none)
  | .touch key, .clock now =>
    some ({ s with files := touchFile s.files (S.pathFor key) now }, none)
  | .fetch key entry, .answer resp now =>
    match storedOf entry resp now with
    | some (info, body) => some (s, some (.write key info body))
    | none => some (s, some (.finish key))
  | .fetch key _, .failed => some (s, some (.finish key))
  | .write key info body, .clock mtime =>
    some (s.change (writeFile S s.files key info body mtime),
      some (.written key (blobSize S info body) (fileSize s.files (S.pathFor key))))
  | .written key new previous, .done =>
    match s.total with
    | none => some (s, some (.storeScan key new previous))
    | some t =>
      some ({ s with total := some (t + new - previous) },
        evictIfOver S (t + new - previous) (.store key))
  | .storeScan key new previous, .done =>
    some (s, some (.storeScanned key new previous (diskSize s.files) s.changes.length))
  | .storeScanned key new previous sum _, .done =>
    some ({ s with total := some (sum + new - previous) },
      evictIfOver S (sum + new - previous) (.store key))
  | .evictScan, .done =>
    some (s, some (.evictScanned (diskSize s.files) s.changes.length))
  | .evictScanned sum _, .done =>
    some ({ s with total := some (sum : ℤ) }, evictIfOver S sum .call)
  | .lock a, .done => if s.locked then none else some ({ s with locked := true }, some (.evict a))
  | .evict a, .done =>
    some (s.change (evictFiles S s.files).1,
      some (.evicted a (evictFiles S s.files).2 (s.changes.length + 1)))
  | .evicted a remaining _, .done =>
    some ({ s with total := some (remaining : ℤ), locked := false }, a.next)
  | .statsScan, .done => some (s, some (.statsScanned (diskSize s.files) s.changes.length))
  | .statsScanned sum _, .done => some ({ s with total := some (sum : ℤ) }, none)
  | .clear, .done => some (s.change OrderedDict.empty, some (.cleared (s.changes.length + 1)))
  | .cleared _, .done => some ({ s with total := some 0 }, none)
  | .finish key, .done => some ({ s with inflight := s.inflight.filter (fun k => k ≠ key) }, none)
  | _, _ => none

/-- The state with another operation, or none, in a place. -/
def State.put (s : State) (id : ℕ) : Option Op → State
  | none => { s with ops := s.ops.erase id }
  | some op => { s with ops := s.ops.set id op }

/-- The calls that somebody starts. -/
inductive Call
  | get (key : String)
  | evictIfNeeded
  | stats
  | clear
  deriving DecidableEq

/-- A call up to its first await. `evict_if_needed` has none when the total is known
and under the cap. -/
def Call.begin (S : Setup) (total : Option ℤ) : Call → Option Op
  | get key => some (.read key)
  | evictIfNeeded =>
    match total with
    | none => some .evictScan
    | some t => evictIfOver S t .call
  | stats => some .statsScan
  | clear => some .clear

inductive Label
  | call (c : Call)
  | turn (id : ℕ) (o : Outcome)
  deriving DecidableEq

def step (S : Setup) (s : State) : Label → Option State
  | .call c =>
    some (State.put { s with nextOp := s.nextOp + 1 } s.nextOp (c.begin S s.total))
  | .turn id o =>
    match s.ops.get? id with
    | none => none
    | some op => (TileCache.turn S s op o).map (fun r => r.1.put id r.2)

def Step (S : Setup) (s : State) (l : Label) (s' : State) : Prop := step S s l = some s'

/-! ## What the worker threads do to the sizes -/

variable (S : Setup) (files : Files)

theorem diskSize_erase (path : Path) :
    diskSize (files.erase path) + fileSize files path = diskSize files :=
  (OrderedDict.total_eq_erase File.size files path).symm

theorem diskSize_writeFile (key : String) (info : Meta) (body : Bytes)
    (mtime : ℚ) : diskSize (writeFile S files key info body mtime) +
      fileSize files (S.pathFor key) = diskSize files + blobSize S info body :=
  OrderedDict.total_set File.size files (S.pathFor key) _

theorem diskSize_touchFile (path : Path) (mtime : ℚ) :
    diskSize (touchFile files path mtime) = diskSize files := by
  unfold touchFile
  cases hfile : files.get? path with
  | none => rfl
  | some file =>
    have h := OrderedDict.total_set File.size files path { file with mtime := mtime }
    rw [hfile] at h
    exact Nat.add_right_cancel h

/-- The loop keeps the end of the list, whose sizes it knows, and stops at the
target. -/
theorem evictLoop_spec (target : ℕ) (l : List (Path × File)) :
    ∃ kept, (∃ gone, l = gone ++ kept ∧
        (evictLoop target (l.map (fun e => e.2.size)).sum l).1 = gone.map Prod.fst) ∧
      (evictLoop target (l.map (fun e => e.2.size)).sum l).2 =
        (kept.map (fun e => e.2.size)).sum ∧
      (kept.map (fun e => e.2.size)).sum ≤ target := by
  induction l with
  | nil => exact ⟨[], ⟨[], rfl, rfl⟩, rfl, Nat.zero_le _⟩
  | cons e rest ih =>
    obtain ⟨path, file⟩ := e
    rw [evictLoop]
    split
    · rename_i hle
      exact ⟨(path, file) :: rest, ⟨[], rfl, rfl⟩, rfl, hle⟩
    · obtain ⟨kept, ⟨gone, hsplit, hgone⟩, hleft, hkept⟩ := ih
      have hsub : (((path, file) :: rest).map (fun e => e.2.size)).sum - file.size =
          (rest.map (fun e => e.2.size)).sum := by
        rw [List.map_cons, List.sum_cons]
        exact Nat.add_sub_cancel_left _ _
      rw [hsub]
      refine ⟨kept, ⟨(path, file) :: gone, ?_, ?_⟩, hleft, hkept⟩
      · rw [hsplit, List.cons_append]
      · rw [List.map_cons, ← hgone]

/-- **What `_evict` reports is what is left**, and it is at most the target. -/
theorem diskSize_evictFiles :
    diskSize (evictFiles S files).1 = (evictFiles S files).2 ∧
      (evictFiles S files).2 ≤ evictTarget S := by
  have hperm := List.perm_insertionSort (fun e e' : Path × File => e.2.mtime ≤ e'.2.mtime)
    files.entries
  obtain ⟨kept, ⟨gone, hsplit, hgone⟩, hleft, hkept⟩ := evictLoop_spec (evictTarget S)
    (files.entries.insertionSort (fun e e' => e.2.mtime ≤ e'.2.mtime))
  rw [hsplit] at hperm
  have hnodup : ((gone ++ kept).map Prod.fst).Nodup :=
    (hperm.map Prod.fst).nodup_iff.mpr files.nodup
  rw [List.map_append, List.nodup_append] at hnodup
  refine ⟨?_, ?_⟩
  · show ((files.entries.filter _).map (fun e => e.2.size)).sum = _
    rw [show (evictFiles S files).2 = _ from hleft]
    refine List.Perm.sum_eq (List.Perm.map _ ?_)
    refine (hperm.filter _).symm.trans ?_
    rw [hgone, List.filter_append]
    have hout : gone.filter (fun e => !(gone.map Prod.fst).contains e.1) = [] := by
      rw [List.filter_eq_nil_iff]
      intro e he
      simp [List.mem_map_of_mem he]
    have hin : kept.filter (fun e => !(gone.map Prod.fst).contains e.1) = kept := by
      rw [List.filter_eq_self]
      intro e he
      have hno : e.1 ∉ gone.map Prod.fst := fun hmem =>
        hnodup.2.2 e.1 hmem e.1 (List.mem_map_of_mem he) rfl
      simpa using hno
    rw [hout, hin, List.nil_append]
  · rw [show (evictFiles S files).2 = _ from hleft]
    exact hkept

theorem evictTarget_le : evictTarget S ≤ S.maxBytes := by
  unfold evictTarget
  omega

end RtfmEv.TileCache
