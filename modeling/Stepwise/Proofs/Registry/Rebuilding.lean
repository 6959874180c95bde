import Stepwise.Proofs.Language.FunctorRoundTrip
import Stepwise.Proofs.RuleFile.Names
import Stepwise.Proofs.Session.Operations

namespace Stepwise

theorem Rule.named_of_name {rule : Rule} {name : String} (h : rule.name = some name) :
    rule.named name = rule := by
  rw [named, ← h]

namespace Registry

/-- Each rule carries the name that it is stored under, and there is something in it. -/
def WellNamed (registry : Registry) : Prop :=
  ∀ entry ∈ registry.entries, entry.2.name = some entry.1 ∧ entry.1.isEmpty = false

variable {registry : Registry}

theorem defineAll_cons {name : String} {rule : Rule} (h : rule.name = some name)
    (rules : List Rule) :
    registry.defineAll (rule :: rules) = (registry.define name rule).defineAll rules := by
  simp only [defineAll, List.foldl_cons, h, Option.getD_some]

theorem wellNamed_empty : (∅ : Registry).WellNamed := nofun

theorem WellNamed.define {name : String} (h : registry.WellNamed) (hname : name.isEmpty = false)
    (rule : Rule) : (registry.define name rule).WellNamed := by
  intro entry hentry
  rcases mem_putEntry hentry with rfl | hold
  · exact ⟨rfl, hname⟩
  · exact h entry hold

theorem WellNamed.defineAll {rules : List Rule} (h : registry.WellNamed)
    (hrules : ∀ rule ∈ rules, rule.IsNamed) : (registry.defineAll rules).WellNamed := by
  induction rules generalizing registry with
  | nil => exact h
  | cons rule rules ih =>
    rw [List.forall_mem_cons] at hrules
    obtain ⟨⟨name, hname, hempty⟩, hrest⟩ := hrules
    rw [defineAll_cons hname]
    exact ih (h.define hempty rule) hrest

/-- Rules under new names that differ come behind the old ones, in their order. -/
theorem entries_defineAll {entries : List (String × Rule)}
    (hnames : ∀ entry ∈ entries, entry.2.name = some entry.1)
    (hnodup : (registry.names ++ entries.map Prod.fst).Nodup) :
    (registry.defineAll (entries.map Prod.snd)).entries = registry.entries ++ entries := by
  induction entries generalizing registry with
  | nil => simp [defineAll]
  | cons entry entries ih =>
    obtain ⟨name, rule⟩ := entry
    rw [List.forall_mem_cons] at hnames
    obtain ⟨hname, hrest⟩ := hnames
    have hfresh : name ∉ registry.names := by
      intro hmem
      exact (List.nodup_append.mp hnodup).2.2 name hmem name (by simp) rfl
    have hentries : (registry.define name rule).entries = registry.entries ++ [(name, rule)] := by
      rw [define, Rule.named_of_name hname, Table.entries_put_of_notMem hfresh]
    have hkeys : (registry.define name rule).names = registry.names ++ [name] := by
      rw [Table.names, hentries, List.map_append]
      rfl
    rw [List.map_cons, defineAll_cons hname, ih hrest (by simpa [hkeys] using hnodup), hentries,
      List.append_assoc, List.singleton_append]

/-- The rules of a registry, defined one after another, give the registry again. -/
theorem defineAll_values (h : registry.WellNamed) :
    (∅ : Registry).defineAll registry.values = registry := by
  obtain ⟨entries, nodup⟩ := registry
  have hentries : ((∅ : Registry).defineAll (entries.map Prod.snd)).entries = [] ++ entries :=
    entries_defineAll (fun entry hentry => (h entry hentry).1) nodup
  exact Table.ext hentries

/-- Equal rules under the same names in the same order. -/
def Same (registry other : Registry) : Prop :=
  List.Forall₂ (fun entry entry' => entry.1 = entry'.1 ∧ (entry.2 == entry'.2) = true)
    registry.entries other.entries

/-- The registry with each constant as its text is read. -/
def asRead (registry : Registry) : Registry where
  entries := registry.entries.map fun entry => (entry.1, entry.2.asRead)
  nodup := by simpa [Function.comp_def] using registry.nodup

theorem values_asRead : registry.asRead.values = registry.values.map Rule.asRead := by
  simp [asRead, Table.values]

theorem WellNamed.asRead (h : registry.WellNamed) : registry.asRead.WellNamed := by
  intro entry hentry
  obtain ⟨old, hold, rfl⟩ := List.mem_map.mp hentry
  exact h old hold

theorem same_asRead : registry.asRead.Same registry := by
  rw [Same, Registry.asRead, List.forall₂_map_left_iff, List.forall₂_same]
  exact fun entry _ => ⟨rfl, entry.2.same_asRead⟩

end Registry

namespace Workspace

variable {w : Workspace}

theorem wellNamed_next (h : w.registry.WellNamed) (op : Operation) :
    (w.next op).registry.WellNamed := by
  unfold next
  cases hop : w.perform op with
  | error e => exact h
  | ok result =>
    obtain ⟨answer, after⟩ := result
    cases op with
    | start expression =>
      cases expression <;> cases hop
      exact h
    | step | undo | findMatches | derivation | finish =>
      obtain ⟨_, -, hk⟩ := ok_of_bind_mapError hop
      cases hk
      exact h
    | define name rule =>
      simp only [perform, Registry.define?] at hop
      split at hop
      · rename_i registry hdefined
        cases hop
        split at hdefined
        · cases hdefined
        · rename_i hempty
          cases hdefined
          exact h.define (Bool.eq_false_iff.mpr hempty) rule
      · cases hop
    | loadText text =>
      obtain ⟨rules, hrules, hk⟩ := ok_of_bind_mapError hop
      cases hk
      exact h.defineAll (readDefinitions_named hrules)
    | loadFile store path =>
      obtain ⟨rules, hrules, hk⟩ := ok_of_bind_mapError hop
      cases hk
      exact h.defineAll (Files.Store.readRules_named hrules)
    | clear =>
      cases hop
      exact Registry.wellNamed_empty

theorem wellNamed_run (h : w.registry.WellNamed) (ops : List Operation) :
    (w.run ops).registry.WellNamed := by
  induction ops generalizing w with
  | nil => exact h
  | cons op ops ih => exact ih (wellNamed_next h op)

end Workspace

end Stepwise
