import Stepwise.Proofs.Rule.Variables
import Stepwise.Proofs.Session.Replay

namespace Stepwise

namespace Session

/-- Under way from the term, and every term in it has variables of that term only. -/
def Within (t : Term) : Session → Prop
  | .idle => False
  | .active initial steps current => initial = t ∧ current.vars ⊆ t.vars ∧
      ∀ made ∈ steps, made.before.vars ⊆ t.vars ∧ made.after.vars ⊆ t.vars

theorem Within.of_continues {t : Term} {registry : Registry} {s s' : Session}
    (h : s.Continues registry s') (hs : s.Within t) : s'.Within t := by
  cases h with
  | kept => exact hs
  | stepped h =>
    obtain ⟨hsound, initial, steps, rfl, rfl⟩ := sound_of_step h
    obtain ⟨hinitial, hcurrent, hsteps⟩ := hs
    have hafter := List.Subset.trans (Rule.vars_reduct_subset hsound.reduct) hcurrent
    exact ⟨hinitial, hafter, List.forall_mem_cons.mpr ⟨⟨hcurrent, hafter⟩, hsteps⟩⟩
  | undone h =>
    obtain ⟨initial, made, steps, current, rfl, rfl, -⟩ := shape_of_undo h
    obtain ⟨hinitial, -, hsteps⟩ := hs
    rw [List.forall_mem_cons] at hsteps
    exact ⟨hinitial, hsteps.1.1, hsteps.2⟩

end Session

/-- From the start of a session until it is ended or started anew, the variables of the current term
and of the terms in the history are variables of the term it was started on. Rules may be in-line or
named, and the registry may change meanwhile. -/
theorem vars_subset_of_run (w : Workspace) (t : Term) {ops : List Workspace.Operation}
    (hops : ∀ op ∈ ops, op.continues = true) :
    let s := ((w.next (.start (.term t))).run ops).session
    (∃ steps current, s = .active t steps current ∧ current.vars ⊆ t.vars) ∧
    ∀ made ∈ s.history, made.before.vars ⊆ t.vars ∧ made.after.vars ⊆ t.vars := by
  intro s
  have hbegin : (Session.begin t).Within t :=
    ⟨rfl, List.Subset.refl _, fun made hmade => absurd hmade List.not_mem_nil⟩
  have hs : s.Within t := Workspace.session_of_continued_run Session.Within.of_continues hbegin hops
  cases hsession : s with
  | idle =>
    rw [hsession] at hs
    exact hs.elim
  | active initial steps current =>
    rw [hsession] at hs
    obtain ⟨rfl, hcurrent, hsteps⟩ := hs
    exact ⟨⟨steps, current, rfl, hcurrent⟩, fun made hmade => hsteps made (List.mem_reverse.mp hmade)⟩

/-- The rule has a variable `n` that the term has not, and a variable `x` that stands for another term
than the `x` of the term; one step fails, one is taken back, and the rule is gone at the end. -/
theorem vars_subset_of_run_power :
    let rule : Rule :=
      { pattern := .app "pow" [.var "x", .var "n"]
        replacement := .app "mul" [.var "n", .app "pow" [.var "x", .app "pred" [.var "n"]]]
        closed := by decide }
    let t := Term.app "mul" [.var "x", .app "pow" [.app "s" [.var "y"], .var "x"]]
    let w : Workspace := { registry := Registry.define ∅ "power" rule }
    let ops : List Workspace.Operation := [.step (.named "power") 1, .step (.named "power") 0,
      .step (.inline rule) 2, .undo, .step (.named "power") 2, .clear]
    let s := ((w.next (.start (.term t))).run ops).session
    (∀ op ∈ ops, op.continues = true) ∧ s.history.length = 2 ∧
      (∃ steps current, s = .active t steps current ∧ current.vars ⊆ ["x", "y", "x"]) ∧
      ∀ made ∈ s.history, made.before.vars ⊆ ["x", "y", "x"] ∧ made.after.vars ⊆ ["x", "y", "x"] := by
  intro rule t w ops s
  have hops : ∀ op ∈ ops, op.continues = true := by decide
  obtain ⟨hcurrent, hhistory⟩ := vars_subset_of_run w t hops
  exact ⟨hops, by decide +kernel, hcurrent, hhistory⟩

end Stepwise
