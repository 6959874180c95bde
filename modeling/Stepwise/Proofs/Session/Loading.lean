import Stepwise.Proofs.Registry.Rebuilding
import Stepwise.Proofs.Session.InPlace

namespace Stepwise

namespace InPlace

open Workspace (Failure)

variable {o : Slots}

theorem runOn_pure {α : Type} (a : α) : (pure a : InPlace α).runOn o = (.ok a, o) := rfl

/-- Each rule is defined under its own name, by an operation of its own. -/
def defineEach (rules : List Rule) : InPlace (List Workspace.Answer) :=
  rules.mapM fun rule => perform (.define (rule.name.getD "") rule)

/-- Rules that have names can be defined one by one, and none of them is renamed. -/
theorem runOn_defineEach {rules : List Rule} (h : ∀ rule ∈ rules, rule.IsNamed) :
    (defineEach rules).runOn o =
      (.ok (rules.map .rule), { o with registry := o.registry.defineAll rules }) := by
  induction rules generalizing o with
  | nil => rfl
  | cons rule rules ih =>
    rw [List.forall_mem_cons] at h
    obtain ⟨⟨name, hname, hempty⟩, hrules⟩ := h
    rw [defineEach, List.mapM_cons, ← defineEach]
    simp only [perform, runOn_bind, runOn_pure, hname, Option.getD_some, runOn_define hempty,
      ih hrules, Rule.named_of_name hname, List.map_cons, Registry.defineAll, List.foldl_cons]

/-- Where no rules can be read, the load fails for that reason and leaves the fields as they were;
where rules can be read, the load and a definition of each of them in their order both succeed and
leave the same fields. -/
def LoadsFrom (source : Except Failure (List Rule)) (load : InPlace Workspace.Answer) (o : Slots) :
    Prop :=
  match source with
  | .error e => load.runOn o = (.error e, o)
  | .ok rules => ∃ registry, load.runOn o = (.ok .done, { o with registry }) ∧
      (defineEach rules).runOn o = (.ok (rules.map .rule), { o with registry })

theorem loadsFrom_lift {source : Except Failure (List Rule)}
    (h : ∀ rules, source = .ok rules → ∀ rule ∈ rules, rule.IsNamed) :
    LoadsFrom source (do defineAll (← source); return .done) o := by
  unfold LoadsFrom
  rw [runOn_load h]
  cases source with
  | error e => rfl
  | ok rules => exact ⟨o.registry.defineAll rules, rfl, runOn_defineEach (h rules rfl)⟩

/-- A load defines every rule of a text or a file, in their order, or fails before the first. A rule
without a name would stop it halfway, but no text and no file yields one. -/
theorem load_defines_all_or_none (o : Slots) :
    (∀ text, LoadsFrom ((readDefinitions text).mapError Failure.text)
      (perform (.loadText text)) o) ∧
    ∀ store path, LoadsFrom ((Files.Store.readRules store path).mapError Failure.file)
      (perform (.loadFile store path)) o :=
  ⟨fun _ => loadsFrom_lift fun _ h => readDefinitions_named (ok_of_mapError h),
    fun _ _ => loadsFrom_lift fun _ h => Files.Store.readRules_named (ok_of_mapError h)⟩

end InPlace

end Stepwise
