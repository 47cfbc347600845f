import RtfmEv.PathUtils

/-!
# Stored routes (`normalize_contact_route`, `parse_explicit_hop_route`)

A route is stored as hexadecimal text, a hop count and a hash mode. The normaliser repairs rows
in which the packed path byte stands where the hop count belongs. It cuts a text that is too
long and lowers a hop count that is too high, but it passes on what it cannot repair.
-/

namespace RtfmEv.PathUtils

open RtfmEv.Lib

/-! ### The source -/

/-- What the hop count and the mode of a stored row say, `none` for a row without a route. -/
def storedHops (pathLen pathHashMode : Option ℤ) : Option (ℤ × ℤ) :=
  let normalizedLen := pathLen.getD (-1)
  let packed := normalizedLen % 256
  let unpacked : Option (ℤ × Option ℤ) :=
    if normalizedLen < -1 ∨ normalizedLen > 63 then
      if packed = 255 then none
      else if packed / 64 % 4 ≠ 3 then some (packed % 64, some (packed / 64 % 4))
      else some (normalizedLen, pathHashMode)
    else some (normalizedLen, pathHashMode)
  match unpacked with
  | none => none
  | some (len, mode) =>
    if len = -1 then none
    else
      some (len, match mode with
        | some m => if m = 0 ∨ m = 1 ∨ m = 2 then m else 0
        | none => 0)

/-- Fit the text and the hop count to each other. -/
def fitPath (path : String) (len mode : ℤ) : String × ℤ × ℤ :=
  if path = "" then (path, len, mode)
  else
    let bytesPerHop := mode + 1
    let actualBytes : ℤ := (path.toList.length / 2 : ℕ)
    let expectedBytes := len * bytesPerHop
    if actualBytes > expectedBytes ∧ expectedBytes ≥ 0 then
      (String.ofList (path.toList.take (expectedBytes * 2).toNat), len, mode)
    else if actualBytes < expectedBytes ∧ bytesPerHop > 0 ∧ actualBytes % bytesPerHop = 0 then
      (path, actualBytes / bytesPerHop, mode)
    else (path, len, mode)

/-- `normalize_contact_route`: text, hop count and hash mode. -/
def normalizeContactRoute (pathHex : Option String) (pathLen pathHashMode : Option ℤ) :
    String × ℤ × ℤ :=
  match storedHops pathLen pathHashMode with
  | none => ("", -1, -1)
  | some (len, mode) => fitPath (pathHex.getD "") len mode

/-- The hops of an explicit route, `lower` for `str.lower`. -/
def explicitHops (lower : String → String) (routeText : String) : List String :=
  ((splitText ',' routeText).filter (fun hop => strip hop ≠ "")).map (fun hop => lower (strip hop))

/-- The checks of one hop. -/
def checkHop (hopChars : ℕ) (hop : String) : Except String Unit :=
  if hop.toList.length ≠ hopChars then .error "All hops must use the same width"
  else if fromHex hop.toList = none then .error "Each hop must be valid hex"
  else .ok ()

/-- `parse_explicit_hop_route`: text, hop count and hash mode. -/
def parseExplicitHopRoute (lower : String → String) (routeText : String) :
    Except String (String × ℕ × ℕ) :=
  match explicitHops lower routeText with
  | [] => .error "Explicit path must include at least one hop"
  | first :: rest =>
    let hops := first :: rest
    let hopChars := first.toList.length
    if hopChars ≠ 2 ∧ hopChars ≠ 4 ∧ hopChars ≠ 6 then
      .error "Each hop must be 1, 2, or 3 bytes of hex"
    else
      match hops.forM (checkHop hopChars) with
      | .error e => .error e
      | .ok () =>
        let hashSize := hopChars / 2
        if pathWireLen hops.length hashSize > maxPathSize then
          .error ("Explicit path exceeds MAX_PATH_SIZE=" ++ toString maxPathSize ++ " bytes")
        else .ok (String.join hops, hops.length, hashSize - 1)

/-! ### What a route is meant to be -/

/-- A hexadecimal digit of either case. -/
def isHexDigit (c : Char) : Bool := (hexValue c).isSome

/-- A hexadecimal text of so many bytes, with nothing between the digits. -/
structure HexPath (path : String) (n : ℕ) : Prop where
  digits : ∀ c ∈ path.toList, isHexDigit c = true
  length : path.toList.length = 2 * n

/-- A parsed route has the text it says, its path byte is read back, and the normaliser leaves
it as it is. -/
structure ParsedRoute (path : String) (n mode : ℕ) : Prop where
  text : HexPath path (n * (mode + 1))
  pathByte : validatePathByte (mode <<< 6 ||| n) = .ok (n, mode + 1, n * (mode + 1))
  normal : normalizeContactRoute (some path) (some n) (some mode) = (path, (n : ℤ), (mode : ℤ))

/-- No route, or a route that the radio can be given. -/
def StoredRoute (r : String × ℤ × ℤ) : Prop :=
  r = ("", -1, -1) ∨ ∃ n mode : ℕ, r.2.1 = n ∧ r.2.2 = mode ∧ n ≤ 63 ∧ mode ≤ 2 ∧
    n * (mode + 1) ≤ maxPathSize ∧ (r.1 = "" ∨ HexPath r.1 (n * (mode + 1)))

/-- The parser gives sendable routes only. -/
def ParsesSendable (lower : String → String) (routeText : String) : Prop :=
  ∀ path n mode, parseExplicitHopRoute lower routeText = .ok (path, n, mode) →
    ParsedRoute path n mode

/-- The normaliser gives a sendable route, and leaves that as it is. -/
def NormalizesSendable (pathHex : Option String) (pathLen pathHashMode : Option ℤ) : Prop :=
  let r := normalizeContactRoute pathHex pathLen pathHashMode
  normalizeContactRoute (some r.1) (some r.2.1) (some r.2.2) = r ∧ StoredRoute r

/-! ### Where it is -/

/-- The route has fewer than 64 hops, and none of them has white space inside. -/
def PlainHops (hops : List String) : Prop :=
  hops.length ≤ 63 ∧ ∀ hop ∈ hops, ∀ c ∈ hop.toList, isAsciiSpace c = false

/-- A stored row that can be repaired: it has no route; or it has no text and its hops fit into
a packet; or its text has no white space in the part that is kept, and that part is the hops it
says, or it is shorter and made of whole hops. -/
def Repairable (path : String) : Option (ℤ × ℤ) → Prop
  | none => True
  | some (len, mode) =>
    let bytes : ℤ := (path.toList.length / 2 : ℕ)
    if path = "" then 0 ≤ len ∧ len ≤ 63 ∧ len * (mode + 1) ≤ maxPathSize
    else if len * (mode + 1) < bytes then
      0 ≤ len ∧ len ≤ 63 ∧ len * (mode + 1) ≤ maxPathSize ∧
        ∀ c ∈ path.toList.take (len * (mode + 1) * 2).toNat, isAsciiSpace c = false
    else
      (len * (mode + 1) = bytes ∨ bytes % (mode + 1) = 0) ∧ bytes / (mode + 1) ≤ 63 ∧
        bytes ≤ maxPathSize ∧ ∀ c ∈ path.toList, isAsciiSpace c = false

/-! ### Hexadecimal text -/

theorem isAsciiSpace_of_isHexDigit {c : Char} (h : isHexDigit c = true) :
    isAsciiSpace c = false := by
  rw [isHexDigit, hexValue] at h
  rw [isAsciiSpace, Bool.eq_false_iff]
  intro hspace
  simp only [Bool.or_eq_true, Bool.and_eq_true, decide_eq_true_eq, beq_iff_eq] at hspace
  split_ifs at h with hdigit hupper hlower
  · omega
  · omega
  · omega
  · cases h

variable {s : List Char} {path : String} {n mode hopChars : ℕ} {pathHashMode pathLen : Option ℤ}

theorem hexPath_of_fromHex {bs : Bytes} (h : fromHex s = some bs)
    (hspace : ∀ c ∈ s, isAsciiSpace c = false) :
    (∀ c ∈ s, isHexDigit c = true) ∧ s.length = 2 * bs.length := by
  induction s using fromHex.induct generalizing bs with
  | case1 =>
    obtain rfl := Option.some.inj h
    exact ⟨fun c hc => absurd hc List.not_mem_nil, rfl⟩
  | case2 c rest hc ih =>
    rw [hspace c List.mem_cons_self] at hc
    cases hc
  | case3 c hc =>
    simp [fromHex, hc] at h
  | case4 c hc d rest ih =>
    rw [fromHex, if_neg hc] at h
    simp only [Option.bind_eq_bind, Option.bind_eq_some_iff, Option.pure_def] at h
    obtain ⟨high, hhigh, low, hlow, bytes, hbytes, hcons⟩ := h
    obtain rfl := Option.some.inj hcons
    have hrest : ∀ c ∈ rest, isAsciiSpace c = false := fun c hmem =>
      hspace c (List.mem_cons_of_mem _ (List.mem_cons_of_mem _ hmem))
    obtain ⟨hdigits, hlength⟩ := ih hbytes hrest
    refine ⟨?_, ?_⟩
    · intro x hx
      rcases List.mem_cons.mp hx with rfl | hx
      · rw [isHexDigit, hhigh, Option.isSome_some]
      · rcases List.mem_cons.mp hx with rfl | hx
        · rw [isHexDigit, hlow, Option.isSome_some]
        · exact hdigits x hx
    · simp only [List.length_cons, hlength]
      omega

/-- A part of valid text that starts where it starts is digits, where it has no white space. -/
theorem digits_of_prefix (h : fromHex s ≠ none) (k : ℕ)
    (hspace : ∀ c ∈ s.take (2 * k), isAsciiSpace c = false) :
    ∀ c ∈ s.take (2 * k), isHexDigit c = true := by
  induction s using fromHex.induct generalizing k with
  | case1 =>
    intro c hc
    simp at hc
  | case2 c rest hc ih =>
    cases k with
    | zero =>
      intro x hx
      simp at hx
    | succ k =>
      have hfirst := hspace c (by simp [Nat.mul_succ])
      rw [hfirst] at hc
      cases hc
  | case3 c hc =>
    exact absurd (by simp [fromHex, hc]) h
  | case4 c hc d rest ih =>
    cases k with
    | zero =>
      intro x hx
      simp at hx
    | succ k =>
      obtain ⟨bs, hbs⟩ := Option.ne_none_iff_exists'.mp h
      rw [fromHex, if_neg hc] at hbs
      simp only [Option.bind_eq_bind, Option.bind_eq_some_iff, Option.pure_def] at hbs
      obtain ⟨high, hhigh, low, hlow, bytes, hbytes, -⟩ := hbs
      have htake : (c :: d :: rest).take (2 * (k + 1)) = c :: d :: rest.take (2 * k) := by
        rw [Nat.mul_succ]
        rfl
      rw [htake] at hspace ⊢
      have hrest := ih (by rw [hbytes]; exact Option.some_ne_none _) k (fun x hx =>
        hspace x (List.mem_cons_of_mem _ (List.mem_cons_of_mem _ hx)))
      intro x hx
      rcases List.mem_cons.mp hx with rfl | hx
      · rw [isHexDigit, hhigh, Option.isSome_some]
      · rcases List.mem_cons.mp hx with rfl | hx
        · rw [isHexDigit, hlow, Option.isSome_some]
        · exact hrest x hx

theorem HexPath.not_space (h : HexPath path n) : ∀ c ∈ path.toList, isAsciiSpace c = false :=
  fun c hc => isAsciiSpace_of_isHexDigit (h.digits c hc)

/-! ### Explicit routes -/

theorem checkHop_eq_ok {hop : String} (h : checkHop hopChars hop = .ok ()) :
    hop.toList.length = hopChars ∧ fromHex hop.toList ≠ none := by
  unfold checkHop at h
  split_ifs at h with hwidth hhex
  exact ⟨not_not.mp hwidth, hhex⟩

theorem checkHop_of_forM {hops : List String} (h : hops.forM (checkHop hopChars) = .ok ()) :
    ∀ hop ∈ hops, checkHop hopChars hop = .ok () := by
  induction hops with
  | nil => exact fun hop hhop => absurd hhop List.not_mem_nil
  | cons first rest ih =>
    change (checkHop hopChars first >>= fun _ => rest.forM (checkHop hopChars)) = _ at h
    cases hfirst : checkHop hopChars first with
    | error e =>
      rw [hfirst] at h
      cases h
    | ok u =>
      rw [hfirst] at h
      intro hop hhop
      rcases List.mem_cons.mp hhop with rfl | hhop
      · exact hfirst
      · exact ih h hop hhop

/-- What an accepted route is made of. -/
structure Accepted (hops : List String) (size : ℕ) (path : String) (n mode : ℕ) : Prop where
  text : path = String.join hops
  count : n = hops.length
  size_eq : size = mode + 1
  pos : 0 < hops.length
  small : mode ≤ 2
  bytes : hops.length * size ≤ 64
  width : ∀ hop ∈ hops, hop.toList.length = 2 * size
  valid : ∀ hop ∈ hops, fromHex hop.toList ≠ none

theorem accepted_of_parse {lower : String → String} {routeText path : String}
    (h : parseExplicitHopRoute lower routeText = .ok (path, n, mode)) :
    ∃ size, Accepted (explicitHops lower routeText) size path n mode := by
  unfold parseExplicitHopRoute at h
  cases hhops : explicitHops lower routeText with
  | nil =>
    rw [hhops] at h
    cases h
  | cons first rest =>
    rw [hhops] at h
    simp only at h
    split at h
    · cases h
    rename_i hwidth
    cases hcheck : (first :: rest).forM (checkHop first.toList.length) with
    | error e =>
      rw [hcheck] at h
      cases h
    | ok u =>
      rw [hcheck] at h
      simp only at h
      split_ifs at h with hlong
      obtain ⟨rfl, rfl, rfl⟩ : String.join (first :: rest) = path ∧
          (first :: rest).length = n ∧ first.toList.length / 2 - 1 = mode := by
        simpa using h
      have hchars : first.toList.length = 2 ∨ first.toList.length = 4 ∨
          first.toList.length = 6 := by omega
      have hall := checkHop_of_forM hcheck
      refine ⟨first.toList.length / 2, rfl, rfl, by omega, by simp, by omega,
        not_lt.mp hlong, ?_, fun hop hhop => (checkHop_eq_ok (hall hop hhop)).2⟩
      intro hop hhop
      rw [(checkHop_eq_ok (hall hop hhop)).1]
      omega

namespace Accepted

variable {hops : List String} {size n mode : ℕ} {path : String}

theorem length (h : Accepted hops size path n mode) :
    path.toList.length = 2 * (n * (mode + 1)) := by
  have hsum : ∀ texts : List String, (∀ hop ∈ texts, hop.toList.length = 2 * size) →
      (texts.flatMap String.toList).length = texts.length * (2 * size) := by
    intro texts htexts
    induction texts with
    | nil => simp
    | cons text texts ih =>
      rw [List.flatMap_cons, List.length_append, htexts text List.mem_cons_self,
        ih (fun hop hhop => htexts hop (List.mem_cons_of_mem _ hhop)), List.length_cons]
      ring
  rw [h.text, String.toList_join, hsum hops h.width, h.count, ← h.size_eq]
  ring

theorem digits (h : Accepted hops size path n mode)
    (hplain : ∀ hop ∈ hops, ∀ c ∈ hop.toList, isAsciiSpace c = false) :
    ∀ c ∈ path.toList, isHexDigit c = true := by
  intro c hc
  rw [h.text, String.toList_join, List.mem_flatMap] at hc
  obtain ⟨hop, hhop, hc⟩ := hc
  obtain ⟨bs, hbs⟩ := Option.ne_none_iff_exists'.mp (h.valid hop hhop)
  exact (hexPath_of_fromHex hbs (hplain hop hhop)).1 c hc

/-- White space inside a hop is in the text of the route. -/
theorem plain (h : Accepted hops size path n mode)
    (hspace : ∀ c ∈ path.toList, isAsciiSpace c = false) :
    ∀ hop ∈ hops, ∀ c ∈ hop.toList, isAsciiSpace c = false := by
  intro hop hhop c hc
  refine hspace c ?_
  rw [h.text, String.toList_join, List.mem_flatMap]
  exact ⟨hop, hhop, hc⟩

end Accepted

/-! ### Stored rows -/

theorem storedHops_mode {len mode : ℤ} (h : storedHops pathLen pathHashMode = some (len, mode)) :
    len ≠ -1 ∧ (mode = 0 ∨ mode = 1 ∨ mode = 2) := by
  unfold storedHops at h
  simp only at h
  split at h
  · cases h
  rename_i l m _
  split_ifs at h with hlen
  obtain ⟨rfl, hmode⟩ := Prod.mk.inj (Option.some.inj h)
  refine ⟨hlen, ?_⟩
  cases m with
  | none => exact Or.inl hmode.symm
  | some m =>
    simp only at hmode
    split_ifs at hmode with hvalid
    · rw [← hmode]
      exact hvalid
    · exact Or.inl hmode.symm

theorem storedHops_small (hn : n ≤ 63) (hmode : mode ≤ 2) :
    storedHops (some n) (some mode) = some ((n : ℤ), (mode : ℤ)) := by
  have hvalid : (mode : ℤ) = 0 ∨ (mode : ℤ) = 1 ∨ (mode : ℤ) = 2 := by omega
  unfold storedHops
  simp only [Option.getD_some]
  rw [if_neg (by omega)]
  simp only
  rw [if_neg (by omega), if_pos hvalid]

/-- A text of just the hops it says is left as it is. -/
theorem fitPath_eq (h : path = "" ∨ HexPath path (n * (mode + 1))) :
    fitPath path n mode = (path, (n : ℤ), (mode : ℤ)) := by
  unfold fitPath
  split_ifs with hempty
  · rfl
  · have hpath := h.resolve_left hempty
    have hbytes : ((path.toList.length / 2 : ℕ) : ℤ) = (n : ℤ) * ((mode : ℤ) + 1) := by
      rw [hpath.length, Nat.mul_div_cancel_left _ (by decide)]
      push_cast
      rfl
    simp only
    rw [hbytes, if_neg (fun hlt => absurd hlt.1 (lt_irrefl _)),
      if_neg (fun hlt => absurd hlt.1 (lt_irrefl _))]

/-- **A sendable route is left as it is.** -/
theorem normalizeContactRoute_eq (hn : n ≤ 63) (hmode : mode ≤ 2)
    (h : path = "" ∨ HexPath path (n * (mode + 1))) :
    normalizeContactRoute (some path) (some n) (some mode) = (path, (n : ℤ), (mode : ℤ)) := by
  rw [normalizeContactRoute, storedHops_small hn hmode]
  exact fitPath_eq h

theorem StoredRoute.idempotent {r : String × ℤ × ℤ} (h : StoredRoute r) :
    normalizeContactRoute (some r.1) (some r.2.1) (some r.2.2) = r := by
  rcases h with rfl | ⟨n, mode, hn, hmode, hhops, hsmall, -, hpath⟩
  · rfl
  · obtain ⟨path, len, m⟩ := r
    simp only at hn hmode hpath
    subst hn hmode
    exact normalizeContactRoute_eq hhops hsmall hpath

theorem storedRoute_iff {len : ℤ} (hmode : mode ≤ 2) :
    StoredRoute (path, len, (mode : ℤ)) ↔ 0 ≤ len ∧ len ≤ 63 ∧
      len * ((mode : ℤ) + 1) ≤ maxPathSize ∧
        (path = "" ∨ HexPath path (len * ((mode : ℤ) + 1)).toNat) := by
  constructor
  · rintro (hnone | ⟨n, m, hn, hm, hhops, -, hsmall, hpath⟩)
    · have hminus : (mode : ℤ) = -1 := congrArg (fun r : String × ℤ × ℤ => r.2.2) hnone
      omega
    · simp only at hn hm hpath
      obtain rfl : mode = m := by exact_mod_cast hm
      subst hn
      have hcast : ((n : ℤ) * ((mode : ℤ) + 1)).toNat = n * (mode + 1) := by
        rw [← Int.toNat_natCast (n * (mode + 1))]
        push_cast
        rfl
      rw [hcast]
      exact ⟨by omega, by omega, by exact_mod_cast hsmall, hpath⟩
  · rintro ⟨hnonneg, hhops, hsmall, hpath⟩
    obtain ⟨n, rfl⟩ := Int.eq_ofNat_of_zero_le hnonneg
    have hcast : ((n : ℤ) * ((mode : ℤ) + 1)).toNat = n * (mode + 1) := by
      rw [← Int.toNat_natCast (n * (mode + 1))]
      push_cast
      rfl
    rw [hcast] at hpath
    exact Or.inr ⟨n, mode, rfl, rfl, by omega, hmode, by exact_mod_cast hsmall, hpath⟩

/-- Valid text is a path of the bytes it has room for exactly when it has no white space. -/
theorem hexPath_iff (hvalid : fromHex path.toList ≠ none) (n : ℕ) :
    HexPath path n ↔ path.toList.length / 2 = n ∧ ∀ c ∈ path.toList, isAsciiSpace c = false := by
  constructor
  · intro h
    refine ⟨?_, h.not_space⟩
    rw [h.length, Nat.mul_div_cancel_left _ (by decide)]
  · rintro ⟨rfl, hspace⟩
    obtain ⟨bs, hbs⟩ := Option.ne_none_iff_exists'.mp hvalid
    obtain ⟨hdigits, hlength⟩ := hexPath_of_fromHex hbs hspace
    exact ⟨hdigits, by omega⟩

theorem hexPath_take_iff (hvalid : fromHex path.toList ≠ none)
    (hlong : n ≤ path.toList.length / 2) :
    HexPath (String.ofList (path.toList.take (2 * n))) n ↔
      ∀ c ∈ path.toList.take (2 * n), isAsciiSpace c = false := by
  constructor
  · intro h c hc
    exact h.not_space c (by rwa [String.toList_ofList])
  · intro hspace
    refine ⟨?_, ?_⟩
    · rw [String.toList_ofList]
      exact digits_of_prefix hvalid n hspace
    · rw [String.toList_ofList, List.length_take]
      omega

theorem ofList_eq_empty_iff {cs : List Char} : String.ofList cs = "" ↔ cs = [] := by
  rw [← String.toList_inj, String.toList_ofList]
  rfl

/-- **The fitted route is sendable exactly where the row can be repaired.** -/
theorem storedRoute_fitPath_iff (hvalid : fromHex path.toList ≠ none) (len : ℤ) (hmode : mode ≤ 2) :
    StoredRoute (fitPath path len mode) ↔ Repairable path (some (len, (mode : ℤ))) := by
  have hpos : (0 : ℤ) < (mode : ℤ) + 1 := by omega
  unfold fitPath Repairable
  by_cases hempty : path = ""
  · simp only [if_pos hempty]
    rw [storedRoute_iff hmode]
    simp [hempty]
  · simp only [if_neg hempty]
    rcases lt_trichotomy (len * ((mode : ℤ) + 1)) ((path.toList.length / 2 : ℕ) : ℤ) with
      hlt | heq | hgt
    · rw [if_pos hlt]
      by_cases hnonneg : 0 ≤ len * ((mode : ℤ) + 1)
      · -- the text is cut
        rw [if_pos ⟨hlt, hnonneg⟩, storedRoute_iff hmode]
        obtain ⟨n, hn⟩ := Int.eq_ofNat_of_zero_le hnonneg
        rw [hn] at hlt ⊢
        have htake : ((n : ℤ) * 2).toNat = 2 * n := by omega
        rw [htake, Int.toNat_natCast, hexPath_take_iff hvalid (by omega), ofList_eq_empty_iff]
        refine and_congr_right fun _ => and_congr_right fun _ => and_congr_right fun _ => ?_
        refine ⟨?_, Or.inr⟩
        rintro (hnil | hspace)
        · rw [hnil]
          exact fun c hc => absurd hc List.not_mem_nil
        · exact hspace
      · -- a negative hop count is passed on
        rw [if_neg (fun h => hnonneg h.2), if_neg (fun h => absurd h.1 (by omega)),
          storedRoute_iff hmode]
        refine iff_of_false (fun h => hnonneg ?_) (fun h => hnonneg ?_)
        · exact mul_nonneg h.1 hpos.le
        · exact mul_nonneg h.1 hpos.le
    · -- the text is the hops it says
      rw [if_neg (fun h => absurd h.1 (by omega)), if_neg (fun h => absurd h.1 (by omega)),
        if_neg (by omega), storedRoute_iff hmode, ← heq, Int.mul_ediv_cancel _ hpos.ne']
      have hhex : (len * ((mode : ℤ) + 1)).toNat = path.toList.length / 2 := by omega
      rw [hhex, hexPath_iff hvalid]
      have hlen : 0 ≤ len := by
        by_contra hneg
        have := mul_neg_of_neg_of_pos (not_le.mp hneg) hpos
        omega
      simp [hempty, hlen]
    · have hshort : ¬len * ((mode : ℤ) + 1) < ((path.toList.length / 2 : ℕ) : ℤ) := by omega
      rw [if_neg (fun h => hshort h.1), if_neg hshort]
      by_cases hwhole : ((path.toList.length / 2 : ℕ) : ℤ) % ((mode : ℤ) + 1) = 0
      · -- the hop count is lowered
        rw [if_pos ⟨hgt, hpos, hwhole⟩, storedRoute_iff hmode,
          Int.ediv_mul_cancel (Int.dvd_of_emod_eq_zero hwhole), Int.toNat_natCast,
          hexPath_iff hvalid]
        have hnonneg : 0 ≤ ((path.toList.length / 2 : ℕ) : ℤ) / ((mode : ℤ) + 1) :=
          Int.ediv_nonneg (by omega) hpos.le
        constructor
        · rintro ⟨-, hhops, hsmall, hpath⟩
          exact ⟨Or.inr hwhole, hhops, hsmall, (hpath.resolve_left hempty).2⟩
        · rintro ⟨-, hhops, hsmall, hspace⟩
          exact ⟨hnonneg, hhops, hsmall, Or.inr ⟨rfl, hspace⟩⟩
      · -- the text is not made of whole hops
        rw [if_neg (fun h => hwhole h.2.2), storedRoute_iff hmode]
        refine iff_of_false ?_ ?_
        · rintro ⟨-, -, -, hpath⟩
          have hlength := ((hexPath_iff hvalid _).mp (hpath.resolve_left hempty)).1
          omega
        · rintro ⟨heq | hzero, -⟩
          · omega
          · exact hwhole hzero

theorem normalizesSendable_iff {pathHex : Option String}
    (hvalid : fromHex (pathHex.getD "").toList ≠ none) :
    NormalizesSendable pathHex pathLen pathHashMode ↔
      Repairable (pathHex.getD "") (storedHops pathLen pathHashMode) := by
  have hidem : NormalizesSendable pathHex pathLen pathHashMode ↔
      StoredRoute (normalizeContactRoute pathHex pathLen pathHashMode) :=
    ⟨fun h => h.2, fun h => ⟨h.idempotent, h⟩⟩
  rw [hidem, normalizeContactRoute]
  cases hstored : storedHops pathLen pathHashMode with
  | none => exact iff_of_true (Or.inl rfl) trivial
  | some hops =>
    obtain ⟨len, mode⟩ := hops
    obtain ⟨-, hmode⟩ := storedHops_mode hstored
    obtain ⟨m, rfl⟩ := Int.eq_ofNat_of_zero_le (show 0 ≤ mode by omega)
    exact storedRoute_fitPath_iff hvalid len (by omega)

theorem parsesSendable_iff (lower : String → String) (routeText : String) :
    ParsesSendable lower routeText ↔
      ((∃ r, parseExplicitHopRoute lower routeText = .ok r) →
        PlainHops (explicitHops lower routeText)) := by
  constructor
  · rintro h ⟨⟨path, n, mode⟩, hparse⟩
    obtain ⟨htext, hbyte, -⟩ := h path n mode hparse
    obtain ⟨size, haccepted⟩ := accepted_of_parse hparse
    refine ⟨?_, haccepted.plain htext.not_space⟩
    have hhops := (validatePathByte_eq_ok.mp hbyte).2.1
    rw [← haccepted.count]
    omega
  · intro hplain path n mode hparse
    obtain ⟨size, haccepted⟩ := accepted_of_parse hparse
    obtain ⟨hhops, hspace⟩ := hplain ⟨_, hparse⟩
    rw [← haccepted.count] at hhops
    have htext : HexPath path (n * (mode + 1)) :=
      ⟨haccepted.digits hspace, haccepted.length⟩
    refine ⟨htext, ?_, normalizeContactRoute_eq hhops haccepted.small (Or.inr htext)⟩
    have hsmall := haccepted.small
    have hbytes := haccepted.bytes
    rw [← haccepted.count, haccepted.size_eq] at hbytes
    rw [shiftLeft_six_or (by omega), validatePathByte_eq_ok]
    have hmod : (64 * mode + n) % 64 = n := by omega
    have hdiv : (64 * mode + n) / 64 % 4 = mode := by omega
    rw [hmod, hdiv]
    exact ⟨by omega, rfl, rfl, rfl, hbytes⟩

/-- **Parsed and stored routes are sendable** exactly where an accepted route has fewer than 64
hops and no white space inside a hop, and the stored row can be repaired. -/
theorem routes_sendable_iff (lower : String → String) (routeText : String)
    {pathHex : Option String} {pathLen pathHashMode : Option ℤ}
    (hvalid : fromHex (pathHex.getD "").toList ≠ none) :
    (ParsesSendable lower routeText ↔
      ((∃ r, parseExplicitHopRoute lower routeText = .ok r) →
        PlainHops (explicitHops lower routeText))) ∧
    (NormalizesSendable pathHex pathLen pathHashMode ↔
      Repairable (pathHex.getD "") (storedHops pathLen pathHashMode)) :=
  ⟨parsesSendable_iff lower routeText, normalizesSendable_iff hvalid⟩

theorem not_space_of_all (h : s.all (fun c => !isAsciiSpace c) = true) :
    ∀ c ∈ s, isAsciiSpace c = false := by
  intro c hc
  simpa using List.all_eq_true.mp h c hc

/-- An explicit route of two hops, and a row with a packed path byte. -/
theorem routes_sendable_plain :
    ParsesSendable lowerAscii "AB, cd" ∧ NormalizesSendable (some "aabbccdd") (some 66) none := by
  have hvalid : fromHex ((some "aabbccdd").getD "").toList ≠ none := by decide +kernel
  obtain ⟨hparses, hnormalizes⟩ : _ ∧ (NormalizesSendable (some "aabbccdd") (some 66) none ↔ _) :=
    routes_sendable_iff lowerAscii "AB, cd" hvalid
  refine ⟨hparses.mpr (fun _ => ?_), hnormalizes.mpr ?_⟩
  · have hhops : explicitHops lowerAscii "AB, cd" = ["ab", "cd"] := by decide +kernel
    rw [hhops]
    refine ⟨by decide, ?_⟩
    intro hop hhop
    rcases List.mem_cons.mp hhop with rfl | hhop
    · exact not_space_of_all (by decide +kernel)
    · rw [List.mem_singleton.mp hhop]
      exact not_space_of_all (by decide +kernel)
  · have hstored : storedHops (some 66) none = some (2, 1) := by decide
    rw [hstored]
    unfold Repairable
    simp only [Option.getD_some]
    rw [if_neg (show ¬("aabbccdd" = "") by decide), if_neg (by decide +kernel)]
    exact ⟨Or.inl (by decide +kernel), by decide +kernel, by decide +kernel,
      not_space_of_all (by decide +kernel)⟩

/-- Two blanks inside a hop count as a byte. -/
theorem not_forall_routes_sendable :
    ¬∀ (lower : String → String) (routeText : String) (pathHex : Option String)
        (pathLen pathHashMode : Option ℤ), fromHex (pathHex.getD "").toList ≠ none →
      ParsesSendable lower routeText ∧ NormalizesSendable pathHex pathLen pathHashMode := by
  intro hall
  have hparsed := (hall lowerAscii "ab  cd" none none none (by decide +kernel)).1
  have hok : parseExplicitHopRoute lowerAscii "ab  cd" = .ok ("ab  cd", 1, 2) := by decide +kernel
  have hdigits := (hparsed _ _ _ hok).text.digits ' ' (by decide +kernel)
  exact absurd hdigits (by decide)

end RtfmEv.PathUtils
