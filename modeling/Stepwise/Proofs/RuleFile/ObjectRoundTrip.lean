import Stepwise.Proofs.Json.RoundTrip
import Stepwise.Proofs.Registry.Rebuilding

namespace Stepwise

/-- Both sides of every rule have a text. -/
def Registry.IsPrintable (registry : Registry) : Prop :=
  ∀ entry ∈ registry.entries, entry.2.IsPrintable

/-- The entry of a rule file with these texts in its fields. -/
def RuleEntry.ofTexts (name pattern replacement : String) : Json :=
  .object [("name", .text name), ("pattern", .text pattern), ("replacement", .text replacement)]

/-- An entry is read by its three fields, whose texts make the rule. -/
theorem RuleEntry.rule_ofTexts {name pattern replacement : String} {t u : Term}
    (hempty : name.isEmpty = false) (hpattern : readTerm pattern = .ok t)
    (hreplacement : readTerm replacement = .ok u) :
    RuleEntry.rule (ofTexts name pattern replacement) =
      (makeRule t u name).mapError .unreadable := by
  have hname' : RuleEntry.name (ofTexts name pattern replacement) = .ok name := by
    have hfield : (ofTexts name pattern replacement).field? "name" = some (.text name) := rfl
    simp [RuleEntry.name, hfield, hempty]
  have hpattern' : text (ofTexts name pattern replacement) name "pattern" = .ok pattern := rfl
  have hreplacement' : text (ofTexts name pattern replacement) name "replacement" =
      .ok replacement := rfl
  rw [ofTexts] at hname' hpattern' hreplacement' ⊢
  simp only [RuleEntry.rule, hname', hpattern', hreplacement', hpattern, hreplacement, mapError_ok,
    bind, Except.bind]

theorem RuleEntry.isPlain_ofTexts (name pattern replacement : String) :
    (ofTexts name pattern replacement).isPlain = true := by
  simp [ofTexts, Json.isPlain, Json.fieldsPlain]

namespace Registry

variable {registry : Registry}

theorem isPlain_toJson : registry.toJson.isPlain = true := by
  have hentries : Json.allPlain
      (registry.entries.map fun entry => entryJson entry.1 entry.2) = true := by
    rw [Json.allPlain_iff, List.forall_mem_map]
    exact fun entry _ => RuleEntry.isPlain_ofTexts _ _ _
  simp [toJson, Json.isPlain, Json.fieldsPlain, hentries]

theorem rule_entryJson {name : String} {rule : Rule} (hname : rule.name = some name)
    (hempty : name.isEmpty = false) (h : rule.IsPrintable) :
    RuleEntry.rule (entryJson name rule) = .ok rule.asRead := by
  have hrule := makeRule_asRead rule
  rw [hname] at hrule
  have hentry : RuleEntry.rule (entryJson name rule) = _ :=
    RuleEntry.rule_ofTexts hempty (readTerm_render_eq h.1) (readTerm_render_eq h.2)
  rw [hentry, hrule]
  rfl

theorem rulesOfJson_toJson (hnamed : registry.WellNamed) (h : registry.IsPrintable) :
    rulesOfJson registry.toJson = .ok registry.asRead.values := by
  have hrules : ∀ entry ∈ registry.entries,
      RuleEntry.rule (entryJson entry.1 entry.2) = .ok entry.2.asRead := fun entry hentry =>
    rule_entryJson (hnamed entry hentry).1 (hnamed entry hentry).2 (h entry hentry)
  rw [values_asRead, Table.values, List.map_map]
  exact mapM_map_ok hrules

theorem readRuleObject_toJson_eq (hnamed : registry.WellNamed) (h : registry.IsPrintable)
    (layout : Json.Layout) :
    readRuleObject (Json.write layout registry.toJson) = .ok registry.asRead.values := by
  simp only [readRuleObject, Json.read_write isPlain_toJson, mapError_ok, bind, Except.bind,
    rulesOfJson_toJson hnamed h]

end Registry

/-- A registry that operations have built names its rules as it stores them; and such a registry,
written as JSON in any layout, is read back as equal rules in the same order, which give an equal
registry. Constants keep their values, though an integral binary64 number comes back as an
integer. -/
theorem readRuleObject_toJson :
    (∀ ops, (Workspace.run {} ops).registry.WellNamed) ∧
    ∀ registry : Registry, registry.WellNamed → registry.IsPrintable → ∀ layout : Json.Layout,
      ∃ rules, readRuleObject (Json.write layout registry.toJson) = .ok rules ∧
        List.Forall₂ (fun rule rule' => (rule == rule') = true) rules registry.values ∧
        ((∅ : Registry).defineAll rules).Same registry := by
  refine ⟨Workspace.wellNamed_run Registry.wellNamed_empty, ?_⟩
  intro registry hnamed hprintable layout
  refine ⟨registry.asRead.values, Registry.readRuleObject_toJson_eq hnamed hprintable layout,
    ?_, ?_⟩
  · rw [Registry.values_asRead, List.forall₂_map_left_iff, List.forall₂_same]
    exact fun rule _ => rule.same_asRead
  · rw [Registry.defineAll_values hnamed.asRead]
    exact Registry.same_asRead

/-- Names with a quotation mark, a backslash, line ends and a character beyond the first 65536, on
indented lines. -/
theorem readRuleObject_toJson_names :
    let swap : Rule :=
      { pattern := .app "as" [.var "x", .var "y"], replacement := .app "def" [.var "y", .var "x"]
        closed := by decide }
    let halve : Rule :=
      { pattern := .app "at" [.var "x'", .const (.float ⟨true, 4503599627370496, -53, by decide⟩)]
        replacement := .app "sub" [.const (.int (-2)), .app "end" []], closed := by decide }
    let registry := (Workspace.run {}
      [.define "a \"b\" \\u0041" swap, .define "\r\n\x7f\u2028" halve, .define "𝒮→" halve]).registry
    registry.WellNamed ∧ registry.IsPrintable ∧
      ∃ rules, readRuleObject (Json.write (some 0) registry.toJson) = .ok rules ∧
        List.Forall₂ (fun rule rule' => (rule == rule') = true) rules registry.values ∧
        ((∅ : Registry).defineAll rules).Same registry := by
  intro swap halve registry
  have hnamed : registry.WellNamed := readRuleObject_toJson.1 _
  have hprintable : registry.IsPrintable := by
    unfold Registry.IsPrintable Rule.IsPrintable
    decide +kernel
  exact ⟨hnamed, hprintable, readRuleObject_toJson.2 registry hnamed hprintable (some 0)⟩

end Stepwise
