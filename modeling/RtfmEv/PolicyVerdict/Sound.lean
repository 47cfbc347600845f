import RtfmEv.PolicyVerdict.NodePolicy

/-!
# What a verdict says about the node

The node knows all fields, and decides by the first enabled rule that holds. A verdict that is given
without the fields that only the node knows is the node's, whatever their values are there.
-/

namespace RtfmEv.PolicyVerdict

open RtfmEv.Lib

/-! ### The full evaluation -/

/-- The context with the fields that the node knows. -/
def fullContext (ctx : Context) (mode rxRadioId : Json) : Context :=
  ctx ++ [("mode", mode), ("rx_radio_id", rxRadioId)]

/-- A rule holds: all conditions of its branch, or any of them. -/
def ruleHolds (conditionHolds : Json → Bool) (rule : Json) : Bool :=
  match ruleBranch rule with
  | none => false
  | some (branch, false) => branch.all conditionHolds
  | some (branch, true) => branch.any conditionHolds

/-- **The evaluation with all fields known**: the first enabled rule that holds, else the default
action. -/
def NodePolicy.fullEvaluate (T : NodeTools) (p : NodePolicy) (packet : PacketInfo)
    (ctx : Context) : Verdict :=
  match p.rules.find? (fun rule =>
    isEnabled rule && ruleHolds (p.conditionMatches T packet ctx) rule) with
  | some rule => ⟨ruleAction T rule, some (ruleName T rule)⟩
  | none => ⟨p.defaultAction, none⟩

/-! ### One branch -/

/-- **What a branch that is judged says.** Either a known condition settled it, or all conditions
are known and none does. -/
theorem branchMatches_spec {conditionHolds : Json → Bool} {settles result : Bool}
    {unknowable : Bool} {items : List Json}
    (h : branchMatches conditionHolds settles unknowable items = .ok result) :
    (result = settles ∧
      ∃ item ∈ items, isUnknowable item = .ok false ∧ conditionHolds item = settles) ∨
    (result = !settles ∧ unknowable = false ∧
      ∀ item ∈ items, isUnknowable item = .ok false ∧ conditionHolds item = !settles) := by
  induction items generalizing unknowable with
  | nil =>
    rw [branchMatches] at h
    cases unknowable with
    | true => cases h
    | false =>
      refine Or.inr ⟨(Except.ok.inj h).symm, rfl, fun item hitem => ?_⟩
      exact absurd hitem List.not_mem_nil
  | cons item items ih =>
    rw [branchMatches] at h
    cases hitem : isUnknowable item with
    | error stop =>
      rw [hitem] at h
      cases h
    | ok unknown =>
      rw [hitem] at h
      cases unknown with
      | true =>
        dsimp only at h
        rcases ih h with ⟨hresult, item', hmem, hsettled⟩ | ⟨-, hflag, -⟩
        · exact Or.inl ⟨hresult, item', List.mem_cons_of_mem _ hmem, hsettled⟩
        · cases hflag
      | false =>
        dsimp only at h
        by_cases hsettles : conditionHolds item = settles
        · rw [if_pos hsettles] at h
          exact Or.inl ⟨(Except.ok.inj h).symm, item, List.mem_cons_self, hitem, hsettles⟩
        · rw [if_neg hsettles] at h
          have hother : conditionHolds item = !settles := Bool.eq_not_of_ne hsettles
          rcases ih h with ⟨hresult, item', hmem, hsettled⟩ | ⟨hresult, hflag, hall⟩
          · exact Or.inl ⟨hresult, item', List.mem_cons_of_mem _ hmem, hsettled⟩
          · refine Or.inr ⟨hresult, hflag, fun item' hmem => ?_⟩
            rcases List.mem_cons.mp hmem with rfl | hmem
            · exact ⟨hitem, hother⟩
            · exact hall item' hmem

/-! ### Known fields -/

section Evaluation

variable {T : NodeTools} {p : NodePolicy} {packet : PacketInfo} {ctx : Context}
  {mode rxRadioId : Json}

theorem field_append {ctx extra : List (String × Json)} {name : String}
    (h : ∀ e ∈ extra, e.1 ≠ name) : Json.field (ctx ++ extra) name = Json.field ctx name := by
  unfold Json.field
  rw [List.find?_append]
  have hnone : extra.find? (fun f => f.1 == name) = none :=
    List.find?_eq_none.mpr (fun e he heq => h e he (beq_iff_eq.mp heq))
  rw [hnone, Option.or_none]

variable (mode rxRadioId) in
/-- A condition on another field reads the same with all fields known. -/
theorem conditionMatches_full {item : Json} (h : isUnknowable item = .ok false) :
    p.conditionMatches T packet (fullContext ctx mode rxRadioId) item =
      p.conditionMatches T packet ctx item := by
  cases item with
  | obj fields =>
    have hfield : p.field T packet (fullContext ctx mode rxRadioId)
        ((Json.field fields "field").getD .null) =
        p.field T packet ctx ((Json.field fields "field").getD .null) := by
      unfold isUnknowable at h
      dsimp only at h
      generalize (Json.field fields "field").getD .null = field at h ⊢
      cases field with
      | str name =>
        have hname : name ∉ unknowableFields := by
          intro hmem
          have htrue := Except.ok.inj h
          rw [List.contains_iff_mem.mpr hmem] at htrue
          cases htrue
        have hlookup : Json.field (fullContext ctx mode rxRadioId) name =
            Json.field ctx name := by
          refine field_append (fun e he heq => hname ?_)
          rcases List.mem_cons.mp he with rfl | he
          · exact heq ▸ List.mem_cons_self
          · rw [List.mem_singleton.mp he] at heq
            exact heq ▸ List.mem_cons_of_mem _ (List.mem_singleton_self _)
        unfold NodePolicy.field
        dsimp only
        rw [hlookup]
      | null => rfl
      | bool b => rfl
      | int n => rfl
      | float x => rfl
      | arr xs => rfl
      | obj fs => rfl
    unfold NodePolicy.conditionMatches
    dsimp only
    rw [hfield]
  | null => rfl
  | bool b => rfl
  | int n => rfl
  | float x => rfl
  | str s => rfl
  | arr xs => rfl

variable (mode rxRadioId) in
/-- **A rule that is judged is judged as the node does.** -/
theorem ruleHolds_of_ruleMatches {rule : Json} {result : Bool}
    (h : p.ruleMatches T packet ctx rule = .ok result) :
    ruleHolds (p.conditionMatches T packet (fullContext ctx mode rxRadioId)) rule = result := by
  unfold NodePolicy.ruleMatches at h
  unfold ruleHolds
  cases hbranch : ruleBranch rule with
  | none =>
    rw [hbranch] at h
    exact Except.ok.inj h
  | some branch =>
    obtain ⟨items, settles⟩ := branch
    rw [hbranch] at h
    dsimp only at h
    rcases branchMatches_spec h with ⟨rfl, item, hmem, hknown, hsettled⟩ | ⟨rfl, -, hall⟩
    · have hfull := (conditionMatches_full mode rxRadioId hknown).trans
        hsettled
      cases result with
      | true => exact List.any_eq_true.mpr ⟨item, hmem, hfull⟩
      | false => exact List.all_eq_false.mpr ⟨item, hmem, fun htrue => by
        rw [hfull] at htrue
        cases htrue⟩
    · have hfull : ∀ item ∈ items,
          p.conditionMatches T packet (fullContext ctx mode rxRadioId) item = !settles :=
        fun item hmem => (conditionMatches_full mode rxRadioId (hall item hmem).1).trans (hall item hmem).2
      cases settles with
      | true => exact List.any_eq_false.mpr (fun item hmem htrue => by
        rw [hfull item hmem] at htrue
        cases htrue)
      | false => exact List.all_eq_true.mpr hfull

variable (mode rxRadioId) in
/-- The first match that is judged is the node's. -/
theorem find?_of_firstMatch {rules : List Json} {found : Option Verdict}
    (h : p.firstMatch T packet ctx rules = .ok found) :
    (rules.find? (fun rule => isEnabled rule && ruleHolds
      (p.conditionMatches T packet (fullContext ctx mode rxRadioId)) rule)).map
        (fun rule => (⟨ruleAction T rule, some (ruleName T rule)⟩ : Verdict)) = found := by
  induction rules with
  | nil => exact Except.ok.inj h
  | cons rule rules ih =>
    rw [NodePolicy.firstMatch] at h
    by_cases henabled : isEnabled rule = true
    · rw [if_pos henabled] at h
      cases hmatch : p.ruleMatches T packet ctx rule with
      | error stop =>
        rw [hmatch] at h
        cases h
      | ok result =>
        rw [hmatch] at h
        have hholds := ruleHolds_of_ruleMatches mode rxRadioId hmatch
        cases result with
        | true =>
          rw [List.find?_cons_of_pos (by rw [henabled, hholds]; rfl)]
          exact Except.ok.inj h
        | false =>
          rw [List.find?_cons_of_neg (by rw [hholds, Bool.and_false]; decide)]
          exact ih h
    · rw [if_neg henabled] at h
      rw [List.find?_cons_of_neg (by
        rw [Bool.eq_false_iff.mpr henabled, Bool.false_and]
        decide)]
      exact ih h

end Evaluation

/-- **A verdict is the node's**, and where there is none for a policy that is switched on and can be
judged from here, the node lets the packet through with no rule. -/
theorem verdict_sound (T : NodeTools) (engine : List (String × Json)) (packet : PacketInfo)
    (rssi : Option ℤ) (snr : Option ℚ) (mode rxRadioId : Json) :
    let p := NodePolicy.new T engine
    let full := p.fullEvaluate T packet (fullContext (context packet rssi snr) mode rxRadioId)
    (∀ v, p.evaluate T packet rssi snr = .ok (some v) → full = v) ∧
    (p.enabled = true → p.judge T packet (context packet rssi snr) ≠ .error .unknowable →
      p.evaluate T packet rssi snr = .ok none → full.rule = none ∧ full.action ≠ "drop") := by
  intro p full
  have hfull : ∀ result, p.judge T packet (context packet rssi snr) = .ok result →
      (∀ v, result = some v → full = v) ∧
        (result = none → full.rule = none ∧ full.action ≠ "drop") := by
    intro result hjudge
    unfold NodePolicy.judge at hjudge
    cases hfirst : p.firstMatch T packet (context packet rssi snr) p.rules with
    | error stop =>
      rw [hfirst] at hjudge
      cases hjudge
    | ok found =>
      rw [hfirst] at hjudge
      have hfind := find?_of_firstMatch mode rxRadioId hfirst
      have hresult := (Except.ok.inj hjudge).symm
      subst hresult
      show (∀ v, _ = some v → p.fullEvaluate T packet _ = v) ∧
        (_ = none → (p.fullEvaluate T packet _).rule = none ∧
          (p.fullEvaluate T packet _).action ≠ "drop")
      unfold NodePolicy.fullEvaluate
      cases hrule : p.rules.find? (fun rule => isEnabled rule && ruleHolds (p.conditionMatches T
        packet (fullContext (context packet rssi snr) mode rxRadioId)) rule) with
      | some rule =>
        rw [hrule] at hfind
        rw [← hfind]
        exact ⟨fun v hv => Option.some.inj hv, fun hnone => (nomatch hnone)⟩
      | none =>
        rw [hrule] at hfind
        rw [← hfind]
        dsimp only [Option.map_none]
        split_ifs with hdrop
        · refine ⟨fun v hv => ?_, fun hnone => (nomatch hnone)⟩
          rw [← Option.some.inj hv, hdrop]
        · exact ⟨fun v hv => (nomatch hv), fun _ => ⟨rfl, hdrop⟩⟩
  constructor
  · intro v hv
    unfold NodePolicy.evaluate at hv
    split_ifs at hv with hswitch
    · cases hv
    · cases hjudge : p.judge T packet (context packet rssi snr) with
      | error stop =>
        rw [hjudge] at hv
        cases stop <;> cases hv
      | ok result =>
        rw [hjudge] at hv
        exact (hfull result hjudge).1 v (Except.ok.inj hv)
  · intro henabled hjudgeable hnone
    unfold NodePolicy.evaluate at hnone
    rw [henabled] at hnone
    cases hjudge : p.judge T packet (context packet rssi snr) with
    | error stop =>
      rw [hjudge] at hnone hjudgeable
      cases stop with
      | unknowable => exact absurd rfl hjudgeable
      | typeError => cases hnone
    | ok result =>
      rw [hjudge] at hnone
      exact (hfull result hjudge).2 (Except.ok.inj hnone)

end RtfmEv.PolicyVerdict
