import Stepwise.Proofs.Rule.Reduction
import Stepwise.Proofs.Session.Operations

namespace Stepwise

/-- Making the step again gives what it gave, and it replaces something. -/
structure Step.Sound (s : Step) : Prop where
  reduct : s.rule.reduct s.before s.depth = .ok ⟨s.after, s.paths⟩
  paths_ne_nil : s.paths ≠ []

/-- The steps lead from the first term to the last, and each can be made again. -/
def Replays : Term → List Step → Term → Prop
  | t, [], u => t = u
  | t, s :: steps, u => s.before = t ∧ s.Sound ∧ Replays s.after steps u

theorem Replays.append {t u : Term} {steps : List Step} {s : Step} (h : Replays t steps u)
    (hb : s.before = u) (hs : s.Sound) : Replays t (steps ++ [s]) s.after := by
  induction steps generalizing t with
  | nil => exact ⟨hb.trans h.symm, hs, rfl⟩
  | cons r steps ih => exact ⟨h.1, h.2.1, ih h.2.2⟩

theorem Replays.before_last {t u : Term} {steps : List Step} {s : Step}
    (h : Replays t (steps ++ [s]) u) : Replays t steps s.before := by
  induction steps generalizing t with
  | nil => exact h.1.symm
  | cons r steps ih => exact ⟨h.1, h.2.1, ih h.2.2⟩

namespace Session

/-- Idle, or at the end of steps that can be made again. -/
def Replayable : Session → Prop
  | .idle => True
  | .active initial steps current => Replays initial steps.reverse current

theorem sound_of_step {s s' : Session} {registry : Registry} {ref : RuleRef} {depth : Int}
    {made : Step} (h : s.step registry ref depth = .ok (made, s')) : made.Sound ∧
      ∃ initial steps, s = .active initial steps made.before ∧
        s' = .active initial (made :: steps) made.after := by
  cases s with
  | idle => cases h
  | active initial steps current =>
    rw [step_active] at h
    split at h
    · cases h
    split at h
    · cases h
    · rename_i rule _ r hreduct
      cases h
      obtain ⟨d, path, rfl, -, -⟩ := Rule.exists_applies_of_reduct hreduct
      exact ⟨⟨hreduct, Rule.paths_ne_nil hreduct⟩, initial, steps, rfl, rfl⟩

theorem Replayable.of_moves {registry : Registry} {s s' : Session} (h : s.Moves registry s')
    (hs : s.Replayable) : s'.Replayable := by
  cases h with
  | kept => exact hs
  | begun t => exact rfl
  | stepped h =>
    obtain ⟨hsound, initial, steps, rfl, rfl⟩ := sound_of_step h
    rw [Replayable, List.reverse_cons]
    exact hs.append rfl hsound
  | undone h =>
    obtain ⟨initial, made, steps, current, rfl, rfl, -⟩ := shape_of_undo h
    rw [Replayable, List.reverse_cons] at hs
    exact hs.before_last
  | finished => trivial

theorem Replayable.derivation {s : Session} {d : Derivation} (hs : s.Replayable)
    (h : s.derivation = .ok d) : Replays d.initial d.steps d.final := by
  cases s with
  | idle => cases h
  | active initial steps current =>
    cases h
    exact hs

end Session

/-- After any operations, failed ones among them, a session is idle, or its steps lead from its
initial term to its current one. So do those of every derivation that it hands out. -/
theorem replays_of_run (registry : Registry) (ops : List Workspace.Operation) :
    let w := Workspace.run { registry } ops
    ((w.session = .idle ∧ w.session.history = []) ∨
      ∃ initial steps current, w.session = .active initial steps current ∧
        Replays initial w.session.history current) ∧
    ∀ op d w', w.perform op = .ok (.derivation d, w') → Replays d.initial d.steps d.final := by
  intro w
  have hidle : Session.Replayable .idle := trivial
  have hw : w.session.Replayable := Workspace.session_of_run Session.Replayable.of_moves hidle ops
  refine ⟨?_, fun op d w' h => hw.derivation (Workspace.derivation_of_perform h)⟩
  cases hs : w.session with
  | idle => exact Or.inl ⟨rfl, rfl⟩
  | active initial steps current =>
    rw [hs] at hw
    exact Or.inr ⟨initial, steps, current, rfl, hw⟩

/-- One step is taken back, one fails, and the rule is gone before the derivation is asked for. -/
theorem replays_of_run_cleared :
    let rule : Rule :=
      { pattern := .app "add" [.var "x", .const (.int 0)], replacement := .var "x",
        closed := by decide }
    let t := Term.app "add" [.app "add" [.var "y", .const (.int 0)], .const (.int 0)]
    let w := Workspace.run {} [.define "zero" rule, .start (.term t), .step (.named "zero") 0,
      .step (.named "zero") 0, .undo, .step (.inline rule) 4, .clear]
    ∃ d w', w.perform .finish = .ok (.derivation d, w') ∧ d.steps.length = 1 ∧
      Replays d.initial d.steps d.final := by
  intro rule t w
  have h : (match w.perform .finish with
    | .ok (.derivation d, _) => d.steps.length == 1
    | _ => false) = true := by decide +kernel
  split at h
  · rename_i d w' hfinish
    obtain ⟨-, hreplays⟩ := replays_of_run ∅ [.define "zero" rule, .start (.term t),
      .step (.named "zero") 0, .step (.named "zero") 0, .undo, .step (.inline rule) 4, .clear]
    exact ⟨d, w', hfinish, beq_iff_eq.mp h, hreplays .finish d w' hfinish⟩
  · cases h

end Stepwise
