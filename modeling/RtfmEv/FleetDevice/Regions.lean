import Mathlib.Data.List.DropRight
import RtfmEv.Lib.Text

/-!
# Region trees of a device (`app/services/fleet_device_cli.py`)

The firmware dumps its regions one in a line, indented by their depth. The parser keeps for each
depth the region that was read last there, and puts a region below the one before its depth. It
passes over lines that look like an error, and a region may be called so. The `def` text names
the regions in the order of the dump, and behind a region that has nothing below it the one that
the next is below.
-/

namespace RtfmEv.FleetDevice

open RtfmEv.Lib

abbrev Text := List Char

/-- The regions below one, in their order: the first of them with what is below it, and the
rest. -/
inductive Regions
  | none
  | node (name : Text) (flood : Bool) (children rest : Regions)
deriving DecidableEq

/-- A tree. Its root is called `*`. -/
structure RegionTree where
  flood : Bool
  children : Regions
deriving DecidableEq

namespace Regions

def names : Regions → List Text
  | none => []
  | node name _ children rest => name :: (names children ++ names rest)

def append : Regions → Regions → Regions
  | none, other => other
  | node name flood children rest, other => node name flood children (append rest other)

def count : Regions → ℕ
  | none => 0
  | node _ _ _ rest => count rest + 1

/-- What is below one of the regions. -/
def childrenOf : Regions → ℕ → Regions
  | none, _ => none
  | node _ _ children _, 0 => children
  | node _ _ _ rest, k + 1 => childrenOf rest k

def modifyChildren (f : Regions → Regions) : Regions → ℕ → Regions
  | none, _ => none
  | node name flood children rest, 0 => node name flood (f children) rest
  | node name flood children rest, k + 1 => node name flood children (modifyChildren f rest k)

/-- What is below a region deeper down, which is named by its place at each level. -/
def childrenAt : List ℕ → Regions → Regions
  | [], regions => regions
  | k :: path, regions => childrenAt path (regions.childrenOf k)

def modifyAt (f : Regions → Regions) : List ℕ → Regions → Regions
  | [], regions => f regions
  | k :: path, regions => regions.modifyChildren (modifyAt f path) k

end Regions

/-! ### The parser -/

/-- `re.IGNORECASE` for a letter of a pattern in lower case. -/
def matchIgnoreCase (p c : Char) : Bool := c.toLower == p || (p == 'k' && c == '\u212a')

def startsIgnoreCase : Text → Text → Bool
  | [], _ => true
  | _ :: _, [] => false
  | p :: pattern, c :: line => matchIgnoreCase p c && startsIgnoreCase pattern line

def searchIgnoreCase (pattern : Text) : Text → Bool
  | [] => startsIgnoreCase pattern []
  | c :: line => startsIgnoreCase pattern (c :: line) || searchIgnoreCase pattern line

def regionSkip (line : Text) : Bool :=
  searchIgnoreCase "unknown command".toList line || searchIgnoreCase "error".toList line ||
    searchIgnoreCase "-none-".toList line

/-- `str.rstrip` of one letter. -/
def rstripOf (c : Char) (s : Text) : Text := s.rdropWhile (fun d => d == c)

/-- `str.removeprefix("#")`. -/
def removeHash (s : Text) : Text := if s.head? = some '#' then s.tail else s

def withoutFlag (flood : Bool) (body : Text) : Text :=
  if flood then rstripChars body.dropLast else body

def lineName (body : Text) : Text := stripChars (removeHash (rstripOf '^' body))

/-- What a line names: its depth, the region and its flood flag. -/
def lineFields (raw : Text) : Option (ℕ × Text × Bool) :=
  let line := rstripOf '\r' raw
  if stripChars line = [] ∨ regionSkip line then none
  else
    let depth := line.length - (lstripChars line).length
    let body := stripChars line
    let flood := decide (1 < body.length) && decide (body.getLast? = some 'F') &&
      body.dropLast.getLast?.any isSpaceChar
    let name := lineName (withoutFlag flood body)
    if name = [] then none else some (depth, name, flood)

/-- The tree so far, and for each depth the region that was read last there. A region is known by
its path. -/
structure Reading where
  tree : RegionTree
  stack : List (Option (List ℕ))

/-- One line of `parse_region_tree`. -/
def parseLine (s : Reading) (raw : Text) : Reading :=
  match lineFields raw with
  | none => s
  | some (depth, name, flood) =>
    if name = ['*'] then ⟨{ s.tree with flood := flood }, [some []]⟩
    else
      let parent := if 1 ≤ depth ∧ depth ≤ s.stack.length then s.stack[depth - 1]?.join else none
      -- without a parent the region goes below the root
      let path := parent.getD []
      let node := path ++ [(Regions.childrenAt path s.tree.children).count]
      ⟨{ s.tree with
          children := Regions.modifyAt (fun regions =>
            regions.append (.node name flood .none .none)) path s.tree.children },
        (s.stack ++ List.replicate (depth - s.stack.length) none).take depth ++ [some node]⟩

def parseRegionTree (reply : Option Text) : RegionTree :=
  (((reply.getD []).splitOn '\n').foldl parseLine ⟨⟨false, .none⟩, []⟩).tree

/-- `emit` of `tree_to_def`. -/
def emit (parent : Text) : Regions → List Text → List Text
  | .none, tokens => tokens
  | .node name _ children rest, tokens =>
    let tokens := emit name children (tokens ++ [name])
    let tokens := if rest = .none then tokens
      else tokens.dropLast ++ (tokens.getLast?.map (fun token => token ++ '|' :: parent)).toList
    emit parent rest tokens

def treeToDef (tree : RegionTree) : Text := [' '].intercalate (emit ['*'] tree.children [])

/-! ### The dump -/

/-- A line of the firmware's dump. -/
def dumpLine (depth : ℕ) (name : Text) (home flood : Bool) : Text :=
  List.replicate depth ' ' ++ (name ++ (if home then ['^'] else []) ++
    (if flood then [' ', 'F'] else []))

/-- The lines of some regions at a depth, with any of them marked as home. -/
inductive Dumped : ℕ → Regions → List Text → Prop
  | none (depth : ℕ) : Dumped depth .none []
  | node {depth : ℕ} {name : Text} {flood : Bool} {children rest : Regions}
      {inside after : List Text} (home : Bool) (hinside : Dumped (depth + 1) children inside)
      (hafter : Dumped depth rest after) :
      Dumped depth (.node name flood children rest)
        (dumpLine depth name home flood :: (inside ++ after))

/-- The whole dump of a tree. -/
def DumpOf (tree : RegionTree) (reply : Text) : Prop :=
  ∃ home lines, Dumped 1 tree.children lines ∧
    reply = ['\n'].intercalate (dumpLine 0 ['*'] home tree.flood :: lines)

/-- A name that a region can have. -/
structure IsRegionName (name : Text) : Prop where
  nonempty : name ≠ []
  noSpace : ∀ c ∈ name, isSpaceChar c = false
  noCaret : '^' ∉ name
  noHash : name.head? ≠ some '#'
  notRoot : name ≠ ['*']

theorem noSpace_of_any {name : Text} (h : name.any isSpaceChar = false) :
    ∀ c ∈ name, isSpaceChar c = false := fun c hc =>
  Bool.eq_false_iff.mpr (List.any_eq_false.mp h c hc)

/-- The name does not look like an error. -/
def Unsuspicious (name : Text) : Prop :=
  searchIgnoreCase "error".toList name = false ∧ searchIgnoreCase "-none-".toList name = false

instance (name : Text) : Decidable (Unsuspicious name) := inferInstanceAs (Decidable (_ ∧ _))

/-- The regions without their flood flags. -/
def Regions.plain : Regions → Regions
  | .none => .none
  | .node name _ children rest => .node name false children.plain rest.plain

/-! ### Letters -/

section Search

variable {pattern line t u : Text} {c : Char}

theorem startsIgnoreCase_append (h : startsIgnoreCase pattern t = true) :
    startsIgnoreCase pattern (t ++ u) = true := by
  induction pattern generalizing t with
  | nil => cases t <;> cases u <;> rfl
  | cons p pattern ih =>
    cases t with
    | nil => cases h
    | cons c t =>
      rw [startsIgnoreCase, Bool.and_eq_true] at h
      rw [List.cons_append, startsIgnoreCase, h.1, ih h.2]
      rfl

theorem searchIgnoreCase_of_inside (h : t <:+: line) (hfound : searchIgnoreCase pattern t = true) :
    searchIgnoreCase pattern line = true := by
  obtain ⟨a, b, rfl⟩ := h
  have hright : searchIgnoreCase pattern (t ++ b) = true := by
    induction t with
    | nil =>
      cases b with
      | nil => exact hfound
      | cons c b =>
        rw [List.nil_append, searchIgnoreCase, Bool.or_eq_true]
        exact Or.inl (startsIgnoreCase_append (t := []) hfound)
    | cons c t ih =>
      rw [searchIgnoreCase, Bool.or_eq_true] at hfound
      rw [List.cons_append, searchIgnoreCase, Bool.or_eq_true]
      exact hfound.imp (fun hstart => startsIgnoreCase_append hstart) ih
  rw [List.append_assoc]
  induction a with
  | nil => exact hright
  | cons c a ih =>
    rw [List.cons_append, searchIgnoreCase, Bool.or_eq_true]
    exact Or.inr ih

theorem startsIgnoreCase_split {a b : Text} {q : Char}
    (h : startsIgnoreCase (a ++ q :: b) t = true) : ∃ u c v, t = u ++ c :: v ∧
      matchIgnoreCase q c = true ∧ startsIgnoreCase b v = true := by
  induction a generalizing t with
  | nil =>
    cases t with
    | nil => cases h
    | cons c t =>
      rw [List.nil_append, startsIgnoreCase, Bool.and_eq_true] at h
      exact ⟨[], c, t, rfl, h.1, h.2⟩
  | cons p a ih =>
    cases t with
    | nil => cases h
    | cons c t =>
      rw [List.cons_append, startsIgnoreCase, Bool.and_eq_true] at h
      obtain ⟨u, d, v, rfl, hmatch, hrest⟩ := ih h.2
      exact ⟨c :: u, d, v, rfl, hmatch, hrest⟩

theorem length_le_of_startsIgnoreCase (h : startsIgnoreCase pattern t = true) :
    pattern.length ≤ t.length := by
  induction pattern generalizing t with
  | nil => exact Nat.zero_le _
  | cons p pattern ih =>
    cases t with
    | nil => cases h
    | cons c t =>
      rw [startsIgnoreCase, Bool.and_eq_true] at h
      exact Nat.succ_le_succ (ih h.2)

theorem exists_start_of_search (h : searchIgnoreCase pattern t = true) :
    ∃ u v, t = u ++ v ∧ startsIgnoreCase pattern v = true := by
  induction t with
  | nil => exact ⟨[], [], rfl, h⟩
  | cons c t ih =>
    rw [searchIgnoreCase, Bool.or_eq_true] at h
    rcases h with hstart | hlater
    · exact ⟨[], c :: t, rfl, hstart⟩
    · obtain ⟨u, v, rfl, hstart⟩ := ih hlater
      exact ⟨c :: u, v, rfl, hstart⟩

/-- A letter that is not in the pattern parts the places where it is found. -/
theorem searchIgnoreCase_append_cons
    (hc : ∀ p ∈ pattern, matchIgnoreCase p c = false)
    (h : searchIgnoreCase pattern (t ++ c :: u) = true) :
    searchIgnoreCase pattern t = true ∨ searchIgnoreCase pattern u = true := by
  have hstart : ∀ (pattern t : Text), (∀ p ∈ pattern, matchIgnoreCase p c = false) →
      startsIgnoreCase pattern (t ++ c :: u) = true → startsIgnoreCase pattern t = true := by
    intro pattern
    induction pattern with
    | nil => exact fun t _ _ => by cases t <;> rfl
    | cons p pattern ih =>
      intro t hc h
      cases t with
      | nil =>
        rw [List.nil_append, startsIgnoreCase, hc p List.mem_cons_self] at h
        cases h
      | cons d t =>
        rw [List.cons_append, startsIgnoreCase, Bool.and_eq_true] at h
        rw [startsIgnoreCase, h.1, ih t (fun q hq => hc q (List.mem_cons_of_mem _ hq)) h.2]
        rfl
  induction t with
  | nil =>
    rw [List.nil_append, searchIgnoreCase, Bool.or_eq_true] at h
    exact h.imp (fun h => hstart pattern [] hc h) id
  | cons d t ih =>
    rw [List.cons_append, searchIgnoreCase, Bool.or_eq_true] at h
    rw [searchIgnoreCase, Bool.or_eq_true, or_assoc]
    exact h.imp (fun h => hstart pattern (d :: t) hc h) ih

theorem eq_space_of_match (h : matchIgnoreCase ' ' c = true) : c = ' ' := by
  have hlower : c.toLower = ' ' := by
    rw [matchIgnoreCase, Bool.or_eq_true] at h
    rcases h with h | h
    · exact eq_of_beq h
    · exact absurd h (by simp)
  have hupper : ∀ n < 91, 65 ≤ n → (Char.ofNat n).toLower ≠ ' ' := by decide
  by_cases hrange : 65 ≤ c.toNat ∧ c.toNat ≤ 90
  · refine absurd ?_ (hupper c.toNat (by omega) hrange.1)
    rw [Char.ofNat_toNat, hlower]
  · have hsame : c.toLower = c := dif_neg hrange
    exact hsame.symm.trans hlower

end Search

/-! ### A line of the dump -/

section Line

variable {name : Text} {depth : ℕ} {home flood : Bool}

/-- What a line has behind its name. -/
def ending (home flood : Bool) : Text :=
  (if home then ['^'] else []) ++ (if flood then [' ', 'F'] else [])

theorem dumpLine_eq (depth : ℕ) (name : Text) (home flood : Bool) :
    dumpLine depth name home flood = List.replicate depth ' ' ++ (name ++ ending home flood) := by
  rw [dumpLine, ending, List.append_assoc]

/-- A pattern without a space or a caret is found in the name if it is found in the line. -/
theorem searchIgnoreCase_dumpLine {pattern : Text}
    (hspaces : pattern.any (matchIgnoreCase · ' ') = false)
    (hcarets : pattern.any (matchIgnoreCase · '^') = false)
    (hend : searchIgnoreCase pattern [] = false ∧ searchIgnoreCase pattern ['F'] = false)
    (hname : searchIgnoreCase pattern name = false) :
    searchIgnoreCase pattern (dumpLine depth name home flood) = false := by
  have hspace : ∀ t u, searchIgnoreCase pattern t = false → searchIgnoreCase pattern u = false →
      searchIgnoreCase pattern (t ++ ' ' :: u) = false := fun t u ht hu => by
    rw [← Bool.not_eq_true] at ht hu ⊢
    exact fun h => (searchIgnoreCase_append_cons (fun p hp => Bool.eq_false_iff.mpr
      (List.any_eq_false.mp hspaces p hp)) h).elim ht hu
  have hcaret : ∀ t u, searchIgnoreCase pattern t = false → searchIgnoreCase pattern u = false →
      searchIgnoreCase pattern (t ++ '^' :: u) = false := fun t u ht hu => by
    rw [← Bool.not_eq_true] at ht hu ⊢
    exact fun h => (searchIgnoreCase_append_cons (fun p hp => Bool.eq_false_iff.mpr
      (List.any_eq_false.mp hcarets p hp)) h).elim ht hu
  rw [dumpLine_eq]
  induction depth with
  | zero =>
    rw [List.replicate_zero, List.nil_append]
    cases home <;> cases flood
    · exact (List.append_nil name).symm ▸ hname
    · exact hspace name ['F'] hname hend.2
    · exact hcaret name [] hname hend.1
    · exact hcaret name [' ', 'F'] hname (hspace [] ['F'] hend.1 hend.2)
  | succ depth ih => exact hspace [] _ hend.1 ih

/-- The only space behind a name stands before the last letter. -/
theorem length_after_space {y w : Text} (hspace : ' ' ∉ name)
    (h : name ++ ending home flood = y ++ ' ' :: w) : w.length ≤ 1 := by
  have hbehind : ∃ a, ending home flood = a ++ ' ' :: w := by
    rcases List.append_eq_append_iff.mp h with ⟨a, -, ha⟩ | ⟨a, hname, ha⟩
    · exact ⟨a, ha⟩
    · cases a with
      | nil => exact ⟨[], ha.symm⟩
      | cons c a =>
        cases (List.cons.inj ha).1
        exact absurd (hname ▸ List.mem_append_right _ List.mem_cons_self) hspace
  obtain ⟨a, ha⟩ := hbehind
  have hlength := congrArg List.length ha
  rw [List.length_append, List.length_cons] at hlength
  cases home <;> cases flood
  · cases (List.append_eq_nil_iff.mp ha.symm).2
  · have htwo : (ending false true).length = 2 := rfl
    omega
  · have hone : (ending true false).length = 1 := rfl
    omega
  · cases a with
    | nil => cases ha
    | cons c a =>
      have hthree : (ending true true).length = 3 := rfl
      rw [List.length_cons] at hlength
      omega

theorem regionSkip_dumpLine (depth : ℕ) (home flood : Bool)
    (hspace : ∀ c ∈ name, isSpaceChar c = false)
    (h : Unsuspicious name) : regionSkip (dumpLine depth name home flood) = false := by
  have hspace : ' ' ∉ name := fun hin => absurd (hspace _ hin) (by decide)
  rw [regionSkip, Bool.or_eq_false_iff, Bool.or_eq_false_iff]
  refine ⟨⟨?_, searchIgnoreCase_dumpLine (by decide) (by decide) (by decide) h.1⟩,
    searchIgnoreCase_dumpLine (by decide) (by decide) (by decide) h.2⟩
  rw [← Bool.not_eq_true, dumpLine_eq]
  induction depth with
  | zero =>
    rw [List.replicate_zero, List.nil_append]
    intro hfound
    obtain ⟨u, v, hsplit, hstart⟩ := exists_start_of_search hfound
    obtain ⟨x, c, w, rfl, hmatch, hrest⟩ := startsIgnoreCase_split
      (a := "unknown".toList) (q := ' ') (b := "command".toList) hstart
    rw [eq_space_of_match hmatch, ← List.append_assoc] at hsplit
    have hshort := length_after_space hspace hsplit
    exact absurd ((length_le_of_startsIgnoreCase hrest).trans hshort) (by decide)
  | succ depth ih =>
    rw [List.replicate_succ, List.cons_append, searchIgnoreCase, Bool.or_eq_true]
    exact fun h => h.elim (fun hstart => by cases hstart) ih

theorem lineFields_dumpLine (hne : name ≠ []) (hspace : ∀ c ∈ name, isSpaceChar c = false)
    (hcaret : '^' ∉ name) (hhash : name.head? ≠ some '#') (h : Unsuspicious name) :
    lineFields (dumpLine depth name home flood) = some (depth, name, flood) := by
  have hrstrip : ∀ {p : Char → Bool} {s : Text}, (∀ c ∈ s.getLast?, p c = false) →
      s.rdropWhile p = s := by
    intro p s hs
    rw [List.rdropWhile_eq_self_iff]
    intro hl
    rw [hs _ (List.getLast?_eq_some_getLast hl)]
    exact Bool.false_ne_true
  have hname : ∀ c ∈ name.getLast?, isSpaceChar c = false := fun c hc =>
    hspace c (List.mem_of_getLast? hc)
  -- the name with its caret, and the line behind its indent
  obtain ⟨marked, hmarked⟩ : ∃ marked, marked = name ++ (if home then ['^'] else []) := ⟨_, rfl⟩
  have hmarkedSpace : ∀ c ∈ marked, isSpaceChar c = false := by
    intro c hc
    rw [hmarked] at hc
    rcases List.mem_append.mp hc with hc | hc
    · exact hspace c hc
    · cases home
      · cases hc
      · rw [List.mem_singleton.mp hc]
        decide
  have hmarkedNe : marked ≠ [] := hmarked ▸ List.append_ne_nil_of_left_ne_nil hne _
  obtain ⟨body, hbody⟩ : ∃ body, body = marked ++ (if flood then [' ', 'F'] else []) := ⟨_, rfl⟩
  have hline : dumpLine depth name home flood = List.replicate depth ' ' ++ body := by
    rw [dumpLine, hbody, hmarked]
  have hlast : ∀ c ∈ body.getLast?, isSpaceChar c = false := by
    intro c hc
    rw [hbody] at hc
    cases flood
    · rw [if_neg Bool.false_ne_true, List.append_nil] at hc
      exact hmarkedSpace c (List.mem_of_getLast? hc)
    · rw [if_pos rfl, List.getLast?_append_of_ne_nil _ (by decide)] at hc
      cases hc
      decide
  have hlstrip : lstripChars (List.replicate depth ' ' ++ body) = body := by
    rw [lstripChars, List.dropWhile_append_of_pos (fun c hc => List.eq_of_mem_replicate hc ▸ rfl)]
    refine lstripChars_eq fun c hc => hmarkedSpace c (List.mem_of_head? ?_)
    rwa [hbody, List.head?_append_of_ne_nil _ hmarkedNe] at hc
  have hstrip : stripChars (List.replicate depth ' ' ++ body) = body := by
    rw [stripChars, hlstrip, rstripChars_eq hlast]
  have hbodyNe : body ≠ [] := hbody ▸ List.append_ne_nil_of_left_ne_nil hmarkedNe _
  have hcr : rstripOf '\r' (List.replicate depth ' ' ++ body) = List.replicate depth ' ' ++ body := by
    refine hrstrip fun c hc => ?_
    rw [List.getLast?_append_of_ne_nil _ hbodyNe] at hc
    rw [beq_eq_false_iff_ne]
    rintro rfl
    exact absurd (hlast _ hc) (by decide)
  have hskip := hline ▸ regionSkip_dumpLine depth home flood hspace h
  have hdropLast : (marked ++ [' ', 'F']).dropLast = marked ++ [' '] := by
    rw [List.dropLast_append_of_ne_nil (List.cons_ne_nil _ _)]
    rfl
  have hflag : (decide (1 < body.length) && decide (body.getLast? = some 'F') &&
      body.dropLast.getLast?.any isSpaceChar) = flood := by
    cases flood
    · rw [hbody, if_neg Bool.false_ne_true, List.append_nil, Bool.and_eq_false_iff]
      refine Or.inr ?_
      rw [← Bool.not_eq_true, Option.any_eq_true]
      rintro ⟨c, hc, hin⟩
      rw [hmarkedSpace c (List.mem_of_mem_dropLast (List.mem_of_getLast? hc))] at hin
      cases hin
    · rw [hbody, if_pos rfl, hdropLast, List.getLast?_append_of_ne_nil _ (by decide),
        List.getLast?_append_of_ne_nil _ (by decide), List.length_append]
      simp only [List.length_cons, List.length_nil, Bool.and_eq_true, decide_eq_true_eq]
      exact ⟨⟨by omega, rfl⟩, by decide⟩
  have hunflagged : withoutFlag flood body = marked := by
    cases flood
    · exact hbody.trans (List.append_nil marked)
    · rw [withoutFlag, hbody, if_pos rfl, if_pos rfl, hdropLast]
      have hblank : rstripChars (marked ++ [' ']) = rstripChars marked := by
        rw [rstripChars, List.reverse_append]
        rfl
      rw [hblank]
      exact rstripChars_eq fun c hc => hmarkedSpace c (List.mem_of_getLast? hc)
  have huncaret : rstripOf '^' marked = name := by
    have hbare : rstripOf '^' name = name := hrstrip fun c hc => by
      rw [beq_eq_false_iff_ne]
      rintro rfl
      exact hcaret (List.mem_of_getLast? hc)
    cases home
    · rw [hmarked, if_neg Bool.false_ne_true, List.append_nil, hbare]
    · rw [hmarked, if_pos rfl, rstripOf, List.rdropWhile_concat_pos _ _ _ (by decide)]
      exact hbare
  have hbare : stripChars name = name :=
    stripChars_eq (fun c hc => hspace c (List.mem_of_head? hc)) hname
  have hdepth : (List.replicate depth ' ' ++ body).length - body.length = depth := by
    rw [List.length_append, List.length_replicate, Nat.add_sub_cancel]
  rw [hline, lineFields]
  dsimp only
  rw [hcr, if_neg (by rw [hstrip, hskip]; exact fun h => h.elim hbodyNe Bool.false_ne_true),
    hstrip, hlstrip, hflag, hunflagged, lineName, huncaret, removeHash, if_neg hhash, hbare,
    if_neg hne, hdepth]

end Line

/-! ### Places in a tree -/

namespace Regions

variable {F : Regions} {f g : Regions → Regions} {path : List ℕ} {k : ℕ}

@[simp] theorem append_none : F.append none = F := by
  induction F with
  | none => rfl
  | node name flood children rest _ ih => rw [append, ih]

theorem append_assoc (F G H : Regions) : (F.append G).append H = F.append (G.append H) := by
  induction F with
  | none => rfl
  | node name flood children rest _ ih => rw [append, append, append, ih]

theorem modifyChildren_id (F : Regions) (k : ℕ) : F.modifyChildren id k = F := by
  induction F generalizing k with
  | none => rfl
  | node name flood children rest _ ih =>
    cases k with
    | zero => rfl
    | succ k => rw [modifyChildren, ih]

theorem modifyAt_id : modifyAt id path = id := by
  induction path with
  | nil => rfl
  | cons k path ih =>
    funext F
    rw [modifyAt, ih, modifyChildren_id]
    rfl

theorem modifyAt_append (path' : List ℕ) :
    modifyAt f (path ++ path') = modifyAt (modifyAt f path') path := by
  induction path with
  | nil => rfl
  | cons k path ih =>
    funext F
    rw [List.cons_append, modifyAt, modifyAt, ih]

theorem modifyChildren_comp (F : Regions) (k : ℕ) :
    (F.modifyChildren g k).modifyChildren f k = F.modifyChildren (f ∘ g) k := by
  induction F generalizing k with
  | none => rfl
  | node name flood children rest _ ih =>
    cases k with
    | zero => rfl
    | succ k => rw [modifyChildren, modifyChildren, modifyChildren, ih]

theorem modifyAt_comp (f g : Regions → Regions) (path : List ℕ) :
    modifyAt f path ∘ modifyAt g path = modifyAt (f ∘ g) path := by
  induction path with
  | nil => rfl
  | cons k path ih =>
    funext F
    rw [Function.comp_apply, modifyAt, modifyAt, modifyAt, modifyChildren_comp, ih]

theorem modifyAt_congr (h : f (childrenAt path F) = g (childrenAt path F)) :
    modifyAt f path F = modifyAt g path F := by
  have hchild : ∀ (f g : Regions → Regions) (F : Regions) (k : ℕ),
      f (F.childrenOf k) = g (F.childrenOf k) → F.modifyChildren f k = F.modifyChildren g k := by
    intro f g F
    induction F with
    | none => exact fun _ _ => rfl
    | node name flood children rest _ ih =>
      intro k h
      cases k with
      | zero => exact congrArg (fun c => node name flood c rest) h
      | succ k => exact congrArg (node name flood children) (ih k h)
  induction path generalizing F with
  | nil => exact h
  | cons k path ih => exact hchild _ _ F k (ih h)

theorem modifyChildren_last (F : Regions) (name : Text) (flood : Bool) (children : Regions) :
    (F.append (node name flood children none)).modifyChildren f F.count =
      F.append (node name flood (f children) none) := by
  induction F with
  | none => rfl
  | node name' flood' children' rest _ ih => rw [append, count, modifyChildren, ih, append]

/-- Regions that are put in one after the other: one, what is below it, and those behind it. -/
theorem modifyAt_node (path : List ℕ) (F : Regions) (name : Text) (flood : Bool)
    (children rest : Regions) :
    modifyAt (fun G => G.append rest) path
        (modifyAt (fun G => G.append children) (path ++ [(childrenAt path F).count])
          (modifyAt (fun G => G.append (node name flood none none)) path F)) =
      modifyAt (fun G => G.append (node name flood children rest)) path F := by
  rw [modifyAt_append]
  simp only [← Function.comp_apply (f := modifyAt _ path), modifyAt_comp]
  refine modifyAt_congr ?_
  simp only [Function.comp_apply]
  rw [modifyAt, modifyChildren_last, append_assoc]
  rfl

theorem names_append (F G : Regions) : (F.append G).names = F.names ++ G.names := by
  induction F with
  | none => rfl
  | node name flood children rest _ ih =>
    rw [append, names, names, ih, List.cons_append, List.append_assoc]

/-- A change brings no other names than those of what is put in its place. -/
theorem forall_names_modifyAt {P : Text → Prop} (hF : ∀ name ∈ F.names, P name)
    (hf : ∀ G : Regions, (∀ name ∈ G.names, P name) → ∀ name ∈ (f G).names, P name) :
    ∀ name ∈ (modifyAt f path F).names, P name := by
  have hchild : ∀ (f : Regions → Regions), (∀ G : Regions, (∀ name ∈ G.names, P name) →
      ∀ name ∈ (f G).names, P name) → ∀ (F : Regions) (k : ℕ), (∀ name ∈ F.names, P name) →
        ∀ name ∈ (F.modifyChildren f k).names, P name := by
    intro f hf F
    induction F with
    | none => exact fun _ hF => hF
    | node name flood children rest _ ih =>
      intro k hF
      rw [names, List.forall_mem_cons, List.forall_mem_append] at hF
      obtain ⟨hname, hchildren, hrest⟩ := hF
      cases k with
      | zero =>
        rw [modifyChildren, names, List.forall_mem_cons, List.forall_mem_append]
        exact ⟨hname, hf children hchildren, hrest⟩
      | succ k =>
        rw [modifyChildren, names, List.forall_mem_cons, List.forall_mem_append]
        exact ⟨hname, hchildren, ih k hrest⟩
  induction path generalizing F with
  | nil => exact hf F hF
  | cons k path ih => exact hchild _ (fun G hG => ih hG) F k hF

end Regions

/-! ### Reading a dump -/

section Dump

variable {depth : ℕ} {F : Regions} {lines : List Text} {name : Text} {home flood : Bool}

/-- A region is put below the one that was read before its depth. -/
theorem parseLine_dumpLine (home flood : Bool) (hname : IsRegionName name) (hclear : Unsuspicious name)
    (hdepth : 0 < depth) {s : Reading} {path : List ℕ}
    (hparent : s.stack[depth - 1]? = some (some path)) :
    parseLine s (dumpLine depth name home flood) =
      ⟨{ s.tree with
          children := Regions.modifyAt (fun G => G.append (.node name flood .none .none)) path
            s.tree.children },
        s.stack.take depth ++ [some (path ++ [(Regions.childrenAt path s.tree.children).count])]⟩ := by
  have hlength : depth ≤ s.stack.length := by
    have hlt := (List.getElem?_eq_some_iff.mp hparent).1
    omega
  rw [parseLine, lineFields_dumpLine hname.nonempty hname.noSpace hname.noCaret hname.noHash hclear]
  dsimp only
  rw [if_neg hname.notRoot, if_pos ⟨hdepth, hlength⟩, hparent, Nat.sub_eq_zero_of_le hlength,
    List.replicate_zero, List.append_nil]
  rfl

/-- **The lines of some regions put all of them below the one before their depth.** -/
theorem foldl_parseLine (h : Dumped depth F lines)
    (hnames : ∀ name ∈ F.names, IsRegionName name ∧ Unsuspicious name) (hdepth : 0 < depth)
    {s : Reading} {path : List ℕ} (hparent : s.stack[depth - 1]? = some (some path)) :
    (lines.foldl parseLine s).tree = { s.tree with
        children := Regions.modifyAt (fun G => G.append F) path s.tree.children } ∧
      (lines.foldl parseLine s).stack.take depth = s.stack.take depth := by
  induction h generalizing s path with
  | none depth =>
    have hid : (fun G : Regions => G.append .none) = id := funext fun G => Regions.append_none
    rw [hid, Regions.modifyAt_id]
    exact ⟨rfl, rfl⟩
  | @node depth name flood children rest inside after home _ _ ihinside ihafter =>
    rw [Regions.names, List.forall_mem_cons, List.forall_mem_append] at hnames
    obtain ⟨⟨hname, hclear⟩, hchildren, hrest⟩ := hnames
    rw [List.foldl_cons, List.foldl_append]
    have hfirst := parseLine_dumpLine home flood hname hclear hdepth hparent
    generalize parseLine s (dumpLine depth name home flood) = s₁ at hfirst
    have htree := congrArg Reading.tree hfirst
    have hstack₁ := congrArg Reading.stack hfirst
    dsimp only at htree hstack₁
    have hlength : depth ≤ s.stack.length := by
      have hlt := (List.getElem?_eq_some_iff.mp hparent).1
      omega
    have htake : (s.stack.take depth).length = depth := by
      rw [List.length_take, min_eq_left hlength]
    have hself : s₁.stack[depth + 1 - 1]? =
        some (some (path ++ [(Regions.childrenAt path s.tree.children).count])) := by
      rw [hstack₁, Nat.add_sub_cancel, List.getElem?_append_right htake.le, htake, Nat.sub_self]
      rfl
    obtain ⟨hchild, hstack⟩ := ihinside hchildren (Nat.succ_pos depth) hself
    -- the region before this depth is still the same
    have hkeep := congrArg (List.take depth) hstack
    rw [List.take_take, List.take_take, min_eq_left (Nat.le_succ depth), hstack₁,
      List.take_append_of_le_length htake.ge, List.take_take, min_self] at hkeep
    have hparent' := congrArg (fun l => l[depth - 1]?) hkeep
    simp only [List.getElem?_take_of_lt (Nat.sub_lt hdepth Nat.one_pos)] at hparent'
    obtain ⟨hafter, hstack'⟩ := ihafter hrest hdepth (hparent'.trans hparent)
    rw [hafter, hstack', hkeep, hchild, htree]
    dsimp only
    rw [Regions.modifyAt_node]
    exact ⟨rfl, rfl⟩

theorem newline_not_mem_dumpLine (hspace : ∀ c ∈ name, isSpaceChar c = false) :
    '\n' ∉ dumpLine depth name home flood := by
  rw [dumpLine, List.mem_append, List.mem_append, List.mem_append, not_or, not_or, not_or]
  refine ⟨fun hin => ?_, ⟨fun hin => ?_, ?_⟩, ?_⟩
  · exact absurd (List.eq_of_mem_replicate hin) (by decide)
  · exact absurd (hspace _ hin) (by decide)
  · cases home <;> decide
  · cases flood <;> decide

theorem newline_not_mem_of_dumped (h : Dumped depth F lines)
    (hnames : ∀ name ∈ F.names, IsRegionName name) : ∀ line ∈ lines, '\n' ∉ line := by
  induction h with
  | none => exact fun _ hin => (nomatch hin)
  | node _ _ _ ihinside ihafter =>
    rw [Regions.names, List.forall_mem_cons, List.forall_mem_append] at hnames
    rw [List.forall_mem_cons, List.forall_mem_append]
    exact ⟨newline_not_mem_dumpLine hnames.1.noSpace, ihinside hnames.2.1, ihafter hnames.2.2⟩

/-- **A dump is read back**, where no name looks like an error. -/
theorem parseRegionTree_dump {tree : RegionTree} {reply : Text} (h : DumpOf tree reply)
    (hnames : ∀ name ∈ tree.children.names, IsRegionName name ∧ Unsuspicious name) :
    parseRegionTree (some reply) = tree := by
  obtain ⟨home, lines, hdump, rfl⟩ := h
  have hstar : ∀ c ∈ ['*'], isSpaceChar c = false := noSpace_of_any rfl
  have hsplit : (['\n'].intercalate (dumpLine 0 ['*'] home tree.flood :: lines)).splitOn '\n' =
      dumpLine 0 ['*'] home tree.flood :: lines := by
    refine List.splitOn_intercalate '\n' ?_ (List.cons_ne_nil _ _)
    rw [List.forall_mem_cons]
    exact ⟨newline_not_mem_dumpLine hstar,
      newline_not_mem_of_dumped hdump fun name hname => (hnames name hname).1⟩
  have hroot : parseLine ⟨⟨false, .none⟩, []⟩ (dumpLine 0 ['*'] home tree.flood) =
      ⟨⟨tree.flood, .none⟩, [some []]⟩ := by
    rw [parseLine, lineFields_dumpLine (by decide) hstar (by decide) (by decide) (by decide)]
    exact if_pos rfl
  rw [parseRegionTree, Option.getD_some, hsplit, List.foldl_cons, hroot]
  have hstack : (⟨⟨tree.flood, .none⟩, [some []]⟩ : Reading).stack[1 - 1]? = some (some []) := rfl
  exact (foldl_parseLine hdump hnames Nat.one_pos hstack).1

theorem stripChars_inside (s : Text) : stripChars s <:+: s :=
  (List.rdropWhile_prefix _ _).isInfix.trans (List.dropWhile_suffix _).isInfix

theorem lineName_inside (flood : Bool) (body : Text) : lineName (withoutFlag flood body) <:+: body := by
  have hflag : withoutFlag flood body <:+: body := by
    rw [withoutFlag]
    split_ifs
    · exact (List.rdropWhile_prefix _ _).isInfix.trans (List.dropLast_prefix body).isInfix
    · exact List.infix_rfl
  have hhash : ∀ s : Text, removeHash s <:+: s := fun s => by
    rw [removeHash]
    split_ifs
    · exact (List.tail_suffix s).isInfix
    · exact List.infix_rfl
  exact (stripChars_inside _).trans ((hhash _).trans ((List.rdropWhile_prefix _ _).isInfix.trans hflag))

theorem regionSkip_of_inside {t line : Text} (h : t <:+: line) (hline : regionSkip line = false) :
    regionSkip t = false := by
  rw [regionSkip, Bool.or_eq_false_iff, Bool.or_eq_false_iff] at hline ⊢
  have hfind : ∀ pattern, searchIgnoreCase pattern line = false →
      searchIgnoreCase pattern t = false := fun pattern hnot =>
    Bool.eq_false_iff.mpr fun hfound =>
      Bool.eq_false_iff.mp hnot (searchIgnoreCase_of_inside h hfound)
  exact ⟨⟨hfind _ hline.1.1, hfind _ hline.1.2⟩, hfind _ hline.2⟩

/-- The name of a line that is not passed over does not look like an error either. -/
theorem regionSkip_of_lineFields {raw : Text} (h : lineFields raw = some (depth, name, flood)) :
    regionSkip name = false := by
  rw [lineFields] at h
  dsimp only at h
  split_ifs at h with hskip
  cases Option.some.inj h
  have hline := Bool.eq_false_iff.mpr (not_or.mp hskip).2
  exact regionSkip_of_inside ((lineName_inside _ _).trans (stripChars_inside _)) hline

theorem unsuspicious_of_parse (reply : Option Text) :
    ∀ name ∈ (parseRegionTree reply).children.names, Unsuspicious name := by
  have hfold : ∀ (raws : List Text) (s : Reading),
      (∀ name ∈ s.tree.children.names, Unsuspicious name) →
        ∀ name ∈ (raws.foldl parseLine s).tree.children.names, Unsuspicious name := by
    intro raws
    induction raws with
    | nil => exact fun _ hs => hs
    | cons raw raws ih =>
      intro s hs
      refine ih _ ?_
      rw [parseLine]
      cases hfields : lineFields raw with
      | none => exact hs
      | some fields =>
        obtain ⟨depth, name, flood⟩ := fields
        have hskip := regionSkip_of_lineFields hfields
        rw [regionSkip, Bool.or_eq_false_iff, Bool.or_eq_false_iff] at hskip
        dsimp only
        by_cases hroot : name = ['*']
        · rw [if_pos hroot]
          exact hs
        · rw [if_neg hroot]
          refine Regions.forall_names_modifyAt hs fun G hG => ?_
          rw [Regions.names_append, List.forall_mem_append]
          refine ⟨hG, fun name' hin => ?_⟩
          rw [List.mem_singleton.mp hin]
          exact ⟨hskip.1.2, hskip.2⟩
  exact hfold _ _ fun _ hin => (nomatch hin)

end Dump

/-! ### The `def` text -/

section Def

/-- The regions in the order of the dump, each behind the one that it is below. -/
def edges (parent : Text) : Regions → List (Text × Text)
  | .none => []
  | .node name _ children rest => (parent, name) :: (edges name children ++ edges parent rest)

/-- A name, with the region that the next one is below when it is another. -/
def token (name : Text) : Option Text → Text
  | none => name
  | some above => if above = name then name else name ++ '|' :: above

/-- The tokens of some edges, before an edge that starts at `next`. -/
def tokensOf : List (Text × Text) → Option Text → List Text
  | [], _ => []
  | (_, name) :: es, next =>
    token name ((es.head?.map Prod.fst).or next) :: tokensOf es next

variable {F G : Regions} {parent name : Text} {es es' : List (Text × Text)}

theorem tokensOf_append (next : Option Text) :
    tokensOf (es ++ es') next = tokensOf es ((es'.head?.map Prod.fst).or next) ++ tokensOf es' next := by
  induction es with
  | nil => rfl
  | cons e es ih =>
    rw [List.cons_append, tokensOf, tokensOf, ih, List.head?_append, Option.map_or, Option.or_assoc]
    rfl

theorem head?_edges : (edges parent F).head?.map Prod.fst = if F = .none then none else some parent := by
  cases F <;> rfl

theorem snd_mem_names {e : Text × Text} (h : e ∈ edges parent F) : e.2 ∈ F.names := by
  induction F generalizing parent with
  | none => cases h
  | node name flood children rest ihc ihr =>
    rw [Regions.names]
    rcases List.mem_cons.mp h with rfl | h
    · exact List.mem_cons_self
    · refine List.mem_cons_of_mem _ (List.mem_append.mpr ?_)
      exact (List.mem_append.mp h).imp ihc ihr

theorem fst_mem_names {e : Text × Text} (h : e ∈ edges parent F) :
    e.1 = parent ∨ e.1 ∈ F.names := by
  induction F generalizing parent with
  | none => cases h
  | node name flood children rest ihc ihr =>
    rw [Regions.names, List.mem_cons, List.mem_append]
    rcases List.mem_cons.mp h with rfl | h
    · exact Or.inl rfl
    · rcases List.mem_append.mp h with h | h
      · exact Or.inr ((ihc h).imp_right Or.inl)
      · exact (ihr h).imp_right (fun hin => Or.inr (Or.inr hin))

theorem emit_eq (hnodup : F.names.Nodup) (hparent : parent ∉ F.names) (tokens : List Text) :
    emit parent F tokens = tokens ++ tokensOf (edges parent F) none := by
  induction F generalizing parent tokens with
  | none => exact (List.append_nil tokens).symm
  | node name flood children rest ihc ihr =>
    rw [Regions.names, List.nodup_cons, List.nodup_append] at hnodup
    rw [Regions.names, List.mem_cons, List.mem_append, not_or, not_or] at hparent
    obtain ⟨hname, hchildren, hrest, hdisjoint⟩ := hnodup
    rw [List.mem_append, not_or] at hname
    obtain ⟨hne, hparentc, hparentr⟩ := hparent
    have hfirst : emit name children (tokens ++ [name]) =
        tokens ++ tokensOf ((parent, name) :: edges name children) none := by
      rw [ihc hchildren hname.1, tokensOf, List.append_assoc, head?_edges]
      split_ifs
      · rfl
      · rw [Option.some_or, token, if_pos rfl]
        rfl
    rw [emit, hfirst, edges]
    split_ifs with hlast
    · rw [hlast, edges, List.append_nil]
      rfl
    · obtain ⟨init, last, hsplit⟩ : ∃ init last,
          (parent, name) :: edges name children = init ++ [last] :=
        ⟨_, _, (List.dropLast_append_getLast (List.cons_ne_nil _ _)).symm⟩
      have hlastne : last.2 ≠ parent := by
        have hin : last ∈ (parent, name) :: edges name children :=
          hsplit ▸ List.mem_append_right _ (List.mem_singleton_self last)
        rcases List.mem_cons.mp hin with rfl | hin
        · exact Ne.symm hne
        · exact fun heq => hparentc (heq ▸ snd_mem_names hin)
      have hlastToken : ∀ next, tokensOf (init ++ [last]) next =
          tokensOf init (some last.1) ++ [token last.2 next] := fun next => tokensOf_append next
      rw [hsplit, hlastToken, ← List.append_assoc, List.dropLast_concat, List.getLast?_concat,
        Option.map_some, Option.toList_some, ihr hrest hparentr, ← List.cons_append, hsplit,
        tokensOf_append, head?_edges, if_neg hlast, Option.some_or, hlastToken, token,
        token, if_neg (Ne.symm hlastne), List.append_assoc, List.append_assoc, List.append_assoc]

/-- A token shows the name, and the region above the next one when it is not the name. -/
theorem token_inj {name' : Text} {next next' : Option Text} (hbar : '|' ∉ name)
    (hbar' : '|' ∉ name') (h : token name next = token name' next') :
    name = name' ∧ ∀ above ∈ next, ∀ above' ∈ next', above = above' := by
  have hplain : ∀ (name : Text) next, (token name next = name ∧ ∀ above ∈ next, above = name) ∨
      ∃ above, next = some above ∧ token name next = name ++ '|' :: above := by
    intro name next
    cases next with
    | none => exact Or.inl ⟨rfl, fun _ h => (nomatch h)⟩
    | some above =>
      by_cases heq : above = name
      · exact Or.inl ⟨if_pos heq, fun _ h => Option.some.inj h ▸ heq⟩
      · exact Or.inr ⟨above, rfl, if_neg heq⟩
  rcases hplain name next with ⟨ht, hn⟩ | ⟨above, rfl, ht⟩ <;>
    rcases hplain name' next' with ⟨ht', hn'⟩ | ⟨above', rfl, ht'⟩ <;> rw [ht, ht'] at h
  · exact ⟨h, fun a ha a' ha' => (hn a ha).trans (h.trans (hn' a' ha').symm)⟩
  · exact absurd (h ▸ List.mem_append_right _ List.mem_cons_self) hbar
  · exact absurd (h ▸ List.mem_append_right _ List.mem_cons_self) hbar'
  · have hsame : name = name' ∧ above = above' := by
      rcases List.append_eq_append_iff.mp h with ⟨a, rfl, ha⟩ | ⟨a, rfl, ha⟩
      · cases a with
        | nil => exact ⟨(List.append_nil name).symm, (List.cons.inj ha).2⟩
        | cons c a =>
          cases (List.cons.inj ha).1
          exact absurd (List.mem_append_right _ List.mem_cons_self) hbar'
      · cases a with
        | nil => exact ⟨List.append_nil name', (List.cons.inj ha).2.symm⟩
        | cons c a =>
          cases (List.cons.inj ha).1
          exact absurd (List.mem_append_right _ List.mem_cons_self) hbar
    refine ⟨hsame.1, fun a ha a' ha' => ?_⟩
    cases ha
    cases ha'
    exact hsame.2

theorem tokensOf_inj (hbar : ∀ e ∈ es, '|' ∉ e.2) (hbar' : ∀ e ∈ es', '|' ∉ e.2)
    (hfirst : ∀ e ∈ es.head?, ∀ e' ∈ es'.head?, e.1 = e'.1)
    (h : tokensOf es none = tokensOf es' none) : es = es' := by
  induction es generalizing es' with
  | nil =>
    cases es' with
    | nil => rfl
    | cons e' es' => cases h
  | cons e es ih =>
    cases es' with
    | nil => cases h
    | cons e' es' =>
      obtain ⟨above, name⟩ := e
      obtain ⟨above', name'⟩ := e'
      rw [tokensOf, tokensOf, List.cons.injEq, Option.or_none, Option.or_none] at h
      obtain ⟨hname, hnext⟩ := token_inj (hbar _ List.mem_cons_self) (hbar' _ List.mem_cons_self) h.1
      have habove : above = above' := hfirst _ rfl _ rfl
      have hname : name = name' := hname
      rw [habove, hname, ih (fun e he => hbar e (List.mem_cons_of_mem _ he))
        (fun e he => hbar' e (List.mem_cons_of_mem _ he)) (fun e he e' he' =>
          hnext _ (Option.mem_map_of_mem _ he) _ (Option.mem_map_of_mem _ he')) h.2]

/-- The edges tell the tree, when each region has a name of its own. -/
theorem plain_eq_of_edges (hF : F.names.Nodup) (hG : G.names.Nodup) (hparent : parent ∉ F.names)
    (hparent' : parent ∉ G.names) (h : edges parent F = edges parent G) : F.plain = G.plain := by
  induction F generalizing G parent with
  | none =>
    cases G with
    | none => rfl
    | node _ _ _ _ => cases h
  | node name flood children rest ihc ihr =>
    cases G with
    | none => cases h
    | node name' flood' children' rest' =>
      rw [edges, edges, List.cons.injEq, Prod.mk.injEq] at h
      obtain ⟨⟨-, rfl⟩, h⟩ := h
      rw [Regions.names, List.nodup_cons, List.nodup_append, List.mem_append, not_or] at hF hG
      rw [Regions.names, List.mem_cons, List.mem_append, not_or, not_or] at hparent hparent'
      -- what is below the region is what comes before the next edge of the parent
      have hcut : ∀ children rest : Regions, parent ∉ children.names →
          (edges name children ++ edges parent rest).takeWhile (fun e => e.1 != parent) =
            edges name children := by
        intro children rest hnot
        rw [List.takeWhile_append_of_pos]
        · cases rest with
          | none => exact List.append_nil _
          | node _ _ _ _ =>
            rw [edges, List.takeWhile_cons_of_neg (by simp), List.append_nil]
        · intro e he
          rw [bne_iff_ne]
          rintro rfl
          exact (fst_mem_names he).elim hparent.1 hnot
      have hchildren : edges name children = edges name children' := by
        rw [← hcut children rest hparent.2.1, h, hcut children' rest' hparent'.2.1]
      rw [hchildren, List.append_cancel_left_eq] at h
      rw [Regions.plain, Regions.plain, ihc hF.2.1 hG.2.1 hF.1.1 hG.1.1 hchildren,
        ihr hF.2.2.1 hG.2.2.1 hparent.2.2 hparent'.2.2 h]

/-- Texts without a space can be told apart when they are joined with spaces. -/
theorem intercalate_inj {tokens tokens' : List Text} (h : ∀ t ∈ tokens, t ≠ [] ∧ ' ' ∉ t)
    (h' : ∀ t ∈ tokens', t ≠ [] ∧ ' ' ∉ t)
    (heq : [' '].intercalate tokens = [' '].intercalate tokens') : tokens = tokens' := by
  have hsplit : ∀ ts : List Text, (∀ t ∈ ts, t ≠ [] ∧ ' ' ∉ t) → ts ≠ [] →
      ([' '].intercalate ts).splitOn ' ' = ts := fun ts hts hne =>
    List.splitOn_intercalate ' ' (fun t ht => (hts t ht).2) hne
  have hnil : ∀ ts : List Text, (∀ t ∈ ts, t ≠ [] ∧ ' ' ∉ t) → [' '].intercalate ts = [] →
      ts = [] := fun ts hts htext => by
    by_contra hne
    have hts' := hsplit ts hts hne
    rw [htext] at hts'
    exact (hts [] (hts' ▸ List.mem_singleton_self _)).1 rfl
  by_cases hne : tokens = []
  · subst hne
    exact (hnil tokens' h' heq.symm).symm
  · have hne' : tokens' ≠ [] := by
      rintro rfl
      exact hne (hnil tokens h heq)
    rw [← hsplit tokens h hne, heq, hsplit tokens' h' hne']

/-- A tree that a `def` text can be made of: names of their own, without a bar. -/
structure IsDefTree (tree : RegionTree) : Prop where
  names : ∀ name ∈ tree.children.names, IsRegionName name ∧ '|' ∉ name
  nodup : tree.children.names.Nodup

theorem IsDefTree.emit {tree : RegionTree} (h : IsDefTree tree) :
    FleetDevice.emit ['*'] tree.children [] = tokensOf (edges ['*'] tree.children) none ∧
      ∀ t ∈ tokensOf (edges ['*'] tree.children) none, t ≠ [] ∧ ' ' ∉ t := by
  have hroot : ['*'] ∉ tree.children.names := fun hin => (h.names _ hin).1.notRoot rfl
  refine ⟨(emit_eq h.nodup hroot []).trans (List.nil_append _), ?_⟩
  have hspace : ∀ name ∈ tree.children.names, ' ' ∉ name := fun name hname hin =>
    absurd ((h.names name hname).1.noSpace _ hin) (by decide)
  have htokens : ∀ (es : List (Text × Text)) (next : Option Text),
      (∀ e ∈ es, (e.2 ≠ [] ∧ ' ' ∉ e.2) ∧ ' ' ∉ e.1) → (∀ above ∈ next, ' ' ∉ above) →
        ∀ t ∈ tokensOf es next, t ≠ [] ∧ ' ' ∉ t := by
    intro es next hes hnext
    induction es with
    | nil => exact fun _ ht => (nomatch ht)
    | cons e es ih =>
      obtain ⟨above, name⟩ := e
      rw [List.forall_mem_cons] at hes
      obtain ⟨⟨⟨hne, hname⟩, -⟩, hes⟩ := hes
      rw [tokensOf, List.forall_mem_cons]
      refine ⟨?_, ih hes⟩
      have hafter : ∀ above ∈ (es.head?.map Prod.fst).or next, ' ' ∉ above := by
        intro above habove
        rcases Option.or_eq_some_iff.mp habove with hhead | ⟨-, hnone⟩
        · obtain ⟨e, he, rfl⟩ := Option.map_eq_some_iff.mp hhead
          exact (hes e (List.mem_of_head? he)).2
        · exact hnext above hnone
      cases hcase : (es.head?.map Prod.fst).or next with
      | none => exact ⟨hne, hname⟩
      | some above =>
        rw [token]
        split_ifs
        · exact ⟨hne, hname⟩
        · refine ⟨List.append_ne_nil_of_left_ne_nil hne _, ?_⟩
          rw [List.mem_append, List.mem_cons, not_or, not_or]
          exact ⟨hname, by decide, hafter above hcase⟩
  refine htokens _ none (fun e he => ?_) (fun _ h => (nomatch h))
  have hname := h.names e.2 (snd_mem_names he)
  refine ⟨⟨hname.1.nonempty, hspace _ (snd_mem_names he)⟩, ?_⟩
  rcases fst_mem_names he with hstar | hin
  · rw [hstar]
    decide
  · exact hspace _ hin

/-- **Trees of different shape or names have different texts.** -/
theorem treeToDef_inj {tree tree' : RegionTree} (h : IsDefTree tree) (h' : IsDefTree tree')
    (heq : treeToDef tree = treeToDef tree') : tree.children.plain = tree'.children.plain := by
  obtain ⟨hemit, htokens⟩ := h.emit
  obtain ⟨hemit', htokens'⟩ := h'.emit
  rw [treeToDef, treeToDef, hemit, hemit'] at heq
  have hedges : edges ['*'] tree.children = edges ['*'] tree'.children := by
    refine tokensOf_inj (fun e he => (h.names _ (snd_mem_names he)).2)
      (fun e he => (h'.names _ (snd_mem_names he)).2) (fun e he e' he' => ?_)
      (intercalate_inj htokens htokens' heq)
    have hstar : ∀ (F : Regions), ∀ e ∈ (edges ['*'] F).head?, e.1 = ['*'] := fun F e he => by
      cases F with
      | none => cases he
      | node _ _ _ _ => exact Option.some.inj he ▸ rfl
    exact (hstar _ e he).trans (hstar _ e' he').symm
  exact plain_eq_of_edges h.nodup h'.nodup (fun hin => (h.names _ hin).1.notRoot rfl)
    (fun hin => (h'.names _ hin).1.notRoot rfl) hedges

end Def

/-! ### Both texts -/

/-- **A dump is read back just when no name looks like an error**, and the `def` text tells the
tree. -/
theorem region_texts (tree : RegionTree) :
    (∀ reply : Text, (∀ name ∈ tree.children.names, IsRegionName name) → DumpOf tree reply →
      (parseRegionTree (some reply) = tree ↔ ∀ name ∈ tree.children.names, Unsuspicious name)) ∧
    ∀ tree' : RegionTree, IsDefTree tree → IsDefTree tree' →
      tree.children.plain ≠ tree'.children.plain → treeToDef tree ≠ treeToDef tree' := by
  refine ⟨fun reply hnames hdump => ⟨fun heq => ?_, fun hclear => ?_⟩,
    fun tree' h h' hne heq => hne (treeToDef_inj h h' heq)⟩
  · rw [← heq]
    exact unsuspicious_of_parse (some reply)
  · exact parseRegionTree_dump hdump fun name hin => ⟨hnames name hin, hclear name hin⟩

/-- A home region that does not flood, and one below it. -/
theorem region_texts_home : parseRegionTree (some "* F\n eu^\n  nl F".toList) =
    ⟨true, .node "eu".toList false (.node "nl".toList true .none .none) .none⟩ := by
  refine ((region_texts _).1 _ ?_ ⟨false, _, .node true (.node false (.none 3) (.none 2)) (.none 1),
    by decide +kernel⟩).mpr (by decide +kernel)
  intro name hin
  rcases List.mem_pair.mp hin with rfl | rfl <;>
    exact ⟨by decide, noSpace_of_any (by decide), by decide, by decide, by decide⟩

/-- A region that is called after an error is lost. -/
theorem not_forall_region_texts : ¬ ∀ (tree : RegionTree) (reply : Text),
    (∀ name ∈ tree.children.names, IsRegionName name) → DumpOf tree reply →
      parseRegionTree (some reply) = tree := by
  intro hall
  have hname : IsRegionName "error".toList :=
    ⟨by decide, noSpace_of_any (by decide), by decide, by decide, by decide⟩
  have hlost := hall ⟨true, .node "error".toList true .none .none⟩ "* F\n error F".toList
    (fun name hin => List.mem_singleton.mp hin ▸ hname)
    ⟨false, _, .node false (.none 2) (.none 1), by decide +kernel⟩
  exact absurd hlost (by decide +kernel)

end RtfmEv.FleetDevice
