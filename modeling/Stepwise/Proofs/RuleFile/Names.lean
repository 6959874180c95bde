import Stepwise.Interpreter.Load
import Stepwise.Proofs.Language.Printable

namespace Stepwise

/-- The rule has a name, and there is something in it. -/
def Rule.IsNamed (rule : Rule) : Prop := ∃ name, rule.name = some name ∧ name.isEmpty = false

/-- A definition gives its own name to its rule, and there is something in it. -/
def Statement.NamesRule : Statement → Prop
  | .define name rule => rule.name = some name ∧ name.isEmpty = false
  | _ => True

theorem Token.isEmpty_of_isIdentifier {name : String} (h : isIdentifier name = true) :
    name.isEmpty = false := by
  rw [Bool.eq_false_iff]
  intro hempty
  rw [String.isEmpty_iff] at hempty
  subst hempty
  cases h

theorem Statement.IsReadable.namesRule {statement : Statement} (h : statement.IsReadable) :
    statement.NamesRule := by
  cases statement with
  | define name rule =>
    obtain ⟨hidentifier, -, hname, -⟩ := h
    exact ⟨hname, Token.isEmpty_of_isIdentifier hidentifier⟩
  | _ => trivial

theorem readProgram_named {text : String} {statements : List Statement}
    (h : readProgram text = .ok statements) : ∀ statement ∈ statements, statement.NamesRule :=
  fun statement hmem => (isReadable_of_readProgram h statement hmem).namesRule

/-- The rules that a text defines come from definitions in it. -/
theorem isReadable_of_readDefinitions {text : String} {rules : List Rule}
    (h : readDefinitions text = .ok rules) :
    ∀ rule ∈ rules, ∃ name, (Statement.define name rule).IsReadable := by
  intro rule hrule
  obtain ⟨statements, hprogram, h⟩ := ok_of_bind h
  obtain ⟨statement, hmem, hdefinition⟩ := exists_ok_of_mapM h rule hrule
  have hreadable := isReadable_of_readProgram hprogram statement hmem
  cases statement with
  | define name made =>
    cases hdefinition
    exact ⟨name, hreadable⟩
  | _ => cases hdefinition

theorem readDefinitions_named {text : String} {rules : List Rule}
    (h : readDefinitions text = .ok rules) : ∀ rule ∈ rules, rule.IsNamed := by
  intro rule hrule
  obtain ⟨name, hreadable⟩ := isReadable_of_readDefinitions h rule hrule
  exact ⟨name, hreadable.namesRule⟩

namespace RuleEntry

theorem isEmpty_of_name {entry : Json} {name : String} (h : RuleEntry.name entry = .ok name) :
    name.isEmpty = false := by
  unfold RuleEntry.name at h
  split at h
  · split at h
    · cases h
    · rename_i hempty
      cases h
      exact Bool.eq_false_iff.mpr hempty
  · cases h

theorem named_and_printable_of_rule {entry : Json} {rule : Rule} (h : RuleEntry.rule entry = .ok rule) :
    rule.IsNamed ∧ rule.IsPrintable := by
  unfold RuleEntry.rule at h
  split at h
  · obtain ⟨name, hname, h⟩ := ok_of_bind h
    obtain ⟨_, -, h⟩ := ok_of_bind h
    obtain ⟨_, -, h⟩ := ok_of_bind h
    obtain ⟨p, hp, h⟩ := ok_of_bind h
    obtain ⟨q, hq, h⟩ := ok_of_bind h
    have hrule := ok_of_mapError h
    exact ⟨⟨name, (eq_of_makeRule hrule).2.2, isEmpty_of_name hname⟩,
      isPrintable_of_makeRule (isPrintable_of_readTerm (ok_of_mapError hp))
        (isPrintable_of_readTerm (ok_of_mapError hq)) hrule⟩
  · cases h

end RuleEntry

theorem named_and_printable_of_readRuleObject {text : String} {rules : List Rule}
    (h : readRuleObject text = .ok rules) : ∀ rule ∈ rules, rule.IsNamed ∧ rule.IsPrintable := by
  obtain ⟨value, -, h⟩ := ok_of_bind h
  unfold rulesOfJson at h
  split at h
  · split at h
    · intro rule hrule
      obtain ⟨entry, -, hentry⟩ := exists_ok_of_mapM h rule hrule
      exact RuleEntry.named_and_printable_of_rule hentry
    · cases h
  · cases h

/-- The rules of a file. Those of a file that is not JSON come from definitions. -/
theorem Files.Store.readRules_cases {store : Files.Store} {path : Files.Path} {rules : List Rule}
    (h : store.readRules path = .ok rules) :
    (path.extension? = some "json" ∧ ∀ rule ∈ rules, rule.IsNamed ∧ rule.IsPrintable) ∨
      ∀ rule ∈ rules, ∃ name, (Statement.define name rule).IsReadable := by
  obtain ⟨text, -, h⟩ := ok_of_bind h
  have hrules := ok_of_mapError h
  unfold Stepwise.readRules at hrules
  split at hrules
  · exact Or.inl ⟨‹_›, named_and_printable_of_readRuleObject hrules⟩
  · exact Or.inr (isReadable_of_readDefinitions (ok_of_mapError hrules))

theorem Files.Store.readRules_named {store : Files.Store} {path : Files.Path} {rules : List Rule}
    (h : store.readRules path = .ok rules) : ∀ rule ∈ rules, rule.IsNamed := by
  intro rule hrule
  rcases readRules_cases h with ⟨-, hobject⟩ | hdefinitions
  · exact (hobject rule hrule).1
  · obtain ⟨name, hreadable⟩ := hdefinitions rule hrule
    exact ⟨name, hreadable.namesRule⟩

theorem Files.Store.isPrintable_of_readRules {store : Files.Store} {path : Files.Path}
    {rules : List Rule} (h : store.readRules path = .ok rules) :
    ∀ rule ∈ rules, rule.IsPrintable := by
  intro rule hrule
  rcases readRules_cases h with ⟨-, hobject⟩ | hdefinitions
  · exact (hobject rule hrule).2
  · obtain ⟨name, -, -, -, hprintable⟩ := hdefinitions rule hrule
    exact hprintable

end Stepwise
