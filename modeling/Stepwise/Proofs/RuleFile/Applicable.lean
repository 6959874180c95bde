import Stepwise.Proofs.RuleFile.Spellings

namespace Stepwise

/-- A name that a definition can give to its rule. -/
def IsRuleName (name : String) : Prop :=
  Token.isIdentifier name = true ∧ Keyword.ofWord? name = none

instance (name : String) : Decidable (IsRuleName name) :=
  inferInstanceAs (Decidable (_ ∧ _))

/-- Some text applies the rule of the name, whatever else it says. -/
def IsApplicable (name : String) : Prop :=
  ∃ text statements depth, readProgram text = .ok statements ∧ .apply name depth ∈ statements

section Names

variable {name : String} {depth : Nat}

theorem isRuleName_of_apply {text : String} {statements : List Statement}
    (h : readProgram text = .ok statements) (hmem : .apply name depth ∈ statements) :
    IsRuleName name := by
  obtain ⟨hidentifier, hfree, -⟩ := isReadable_of_readProgram h _ hmem
  exact ⟨hidentifier, hfree⟩

theorem readProgram_applySource_iff (few : Number.HasFewDigits depth) :
    readProgram (applySource name depth) = .ok [.apply name depth] ↔ IsRuleName name := by
  constructor
  · intro h
    exact isRuleName_of_apply h (List.mem_singleton_self _)
  · rintro ⟨hidentifier, hfree⟩
    exact readProgram_applySource hidentifier hfree few

theorem isApplicable_iff : IsApplicable name ↔ IsRuleName name := by
  constructor
  · rintro ⟨text, statements, depth, h, hmem⟩
    exact isRuleName_of_apply h hmem
  · rintro ⟨hidentifier, hfree⟩
    exact ⟨_, _, 0, readProgram_applySource hidentifier hfree Number.hasFewDigits_zero,
      List.mem_singleton_self _⟩

/-- A JSON rule file gives a rule any name that is not empty. -/
theorem readRuleObject_of_named (rule : Rule) (hname : rule.name = some name)
    (hempty : name.isEmpty = false) (h : rule.IsPrintable) (layout : Json.Layout) :
    readRuleObject (Json.write layout
      (ruleObject name rule.pattern.render rule.replacement.render)) = .ok [rule.asRead] := by
  have hrule := makeRule_asRead rule
  rw [hname] at hrule
  rw [readRuleObject_ruleObject hempty (readTerm_render_eq h.1) (readTerm_render_eq h.2)
    (Json.read_write isPlain_ruleObject layout), hrule]
  rfl

end Names

/-- A rule of a JSON rule file is applied by its name, at every depth that can be written, just when
a definition could have given it the name, and by no text at all otherwise. A rule of a text of
definitions always is. -/
theorem applied_iff_isRuleName (text : String) (rules : List Rule) :
    (readRuleObject text = .ok rules → ∀ rule ∈ rules, ∃ name,
      rule.name = some name ∧ (IsApplicable name ↔ IsRuleName name) ∧
        ∀ depth, Number.HasFewDigits depth →
          (readProgram (applySource name depth) = .ok [.apply name depth] ↔ IsRuleName name)) ∧
    (readDefinitions text = .ok rules → ∀ rule ∈ rules, ∃ name,
      rule.name = some name ∧ IsRuleName name ∧
        ∀ depth, Number.HasFewDigits depth →
          readProgram (applySource name depth) = .ok [.apply name depth]) := by
  refine ⟨fun h rule hrule => ?_, fun h rule hrule => ?_⟩
  · obtain ⟨⟨name, hname, -⟩, -⟩ := named_and_printable_of_readRuleObject h rule hrule
    exact ⟨name, hname, isApplicable_iff, fun depth => readProgram_applySource_iff⟩
  · obtain ⟨name, hidentifier, hfree, hname, -⟩ := isReadable_of_readDefinitions h rule hrule
    exact ⟨name, hname, ⟨hidentifier, hfree⟩,
      fun depth => readProgram_applySource hidentifier hfree⟩

/-- A rule of each kind of file, applied at a depth of two digits. -/
theorem applied_iff_isRuleName_swap :
    let swap : Rule :=
      { pattern := .app "pair" [.var "x", .var "y"], replacement := .app "pair" [.var "y", .var "x"]
        name := some "swap", closed := by decide }
    let registry : Registry := { entries := [("swap", swap)] }
    readRuleObject (Json.write none (ruleObject "swap" "pair(x, y)" "pair(y, x)")) = .ok [swap] ∧
      readDefinitions (registry.toText none) = .ok [swap] ∧ IsRuleName "swap" ∧
      IsApplicable "swap" ∧ readProgram "swap at 12" = .ok [.apply "swap" 12] := by
  intro swap registry
  have hprintable : swap.IsPrintable := by
    unfold Rule.IsPrintable
    decide +kernel
  have hobject : readRuleObject (Json.write none (ruleObject "swap" "pair(x, y)" "pair(y, x)")) =
      .ok [swap] := readRuleObject_of_named swap rfl rfl hprintable none
  have hdefinitions : readDefinitions (registry.toText none) = .ok [swap] := by
    refine Registry.readDefinitions_toText ?_ ?_ (by simp)
    · intro entry hentry
      cases List.mem_singleton.mp hentry
      exact ⟨rfl, rfl⟩
    · unfold Registry.IsDefinable Rule.IsPrintable
      decide +kernel
  have hname : IsRuleName "swap" := by decide
  have few : Number.HasFewDigits 12 := by
    unfold Number.HasFewDigits
    decide
  obtain ⟨name, hswap, happlicable, -⟩ :=
    (applied_iff_isRuleName _ _).1 hobject swap (List.mem_singleton_self swap)
  cases hswap
  obtain ⟨name, hswap, -, happlies⟩ :=
    (applied_iff_isRuleName _ _).2 hdefinitions swap (List.mem_singleton_self swap)
  cases hswap
  exact ⟨hobject, hdefinitions, hname, happlicable.mpr hname, happlies 12 few⟩

/-- No text applies the rule of this file. -/
theorem not_isApplicable_hyphen :
    let cancel : Rule :=
      { pattern := .app "f" [.var "x"], replacement := .var "x", name := some "f-of"
        closed := by decide }
    readRuleObject (Json.write none (ruleObject "f-of" "f(x)" "x")) = .ok [cancel] ∧
      ¬IsApplicable "f-of" ∧ readProgram "f-of at 0" =
        .error (.malformed (.ruleNameExpected "sub(f, of)" 5)) := by
  intro cancel
  have hprintable : cancel.IsPrintable := by
    unfold Rule.IsPrintable
    decide +kernel
  have htokens : tokenize "f-of at 0" = .ok [⟨.name, "f", 0⟩, ⟨.operator .sub, "-", 1⟩,
      ⟨.name, "of", 2⟩, ⟨.keyword .depth, "at", 5⟩, ⟨.number, "0", 8⟩] :=
    ok_of_toOption (by decide +kernel)
  refine ⟨readRuleObject_of_named cancel rfl rfl hprintable none, ?_, ?_⟩
  · rw [isApplicable_iff]
    decide
  · rw [readProgram, tokensOf, htokens]
    rfl

end Stepwise
