import Stepwise.Proofs.Session.Replay

namespace Stepwise

/-- The term that taking back the steps, the last one first, leads to. -/
def takenBack (current : Term) : List Step → Term
  | [] => current
  | made :: steps => takenBack made.before steps

namespace Session

/-- Steps may have been made since, but taking them back leads to the session as it was. -/
def Extends (s base : Session) : Prop :=
  ∃ initial later steps current, s = .active initial (later ++ steps) current ∧
    base = .active initial steps (takenBack current later)

theorem Extends.refl {s : Session} (h : s ≠ .idle) : s.Extends s := by
  cases s with
  | idle => exact absurd rfl h
  | active initial steps current => exact ⟨initial, [], steps, current, rfl, rfl⟩

/-- Without a further step the session is the same. -/
theorem Extends.eq_of_length {s base : Session} (h : s.Extends base)
    (hlength : s.history.length = base.history.length) : s = base := by
  obtain ⟨initial, later, steps, current, rfl, rfl⟩ := h
  have hlater : later = [] := by simpa [history] using hlength
  subst hlater
  rfl

/-- A step comes on top, and the last one can be taken back as long as the earlier ones stay. -/
theorem Extends.of_continues {registry : Registry} {s s' base : Session}
    (h : s.Continues registry s') (hs : s.Extends base)
    (hlength : base.history.length ≤ s'.history.length) : s'.Extends base := by
  cases h with
  | kept => exact hs
  | stepped h =>
    obtain ⟨-, initial, steps, rfl, rfl⟩ := sound_of_step h
    obtain ⟨_, later, below, _, hactive, rfl⟩ := hs
    cases hactive
    exact ⟨initial, _ :: later, below, _, rfl, rfl⟩
  | undone h =>
    obtain ⟨initial, made, steps, current, rfl, rfl, -⟩ := shape_of_undo h
    obtain ⟨_, later, below, _, hactive, rfl⟩ := hs
    cases later with
    | nil =>
      cases hactive
      simp only [history, List.length_reverse, List.length_cons] at hlength
      omega
    | cons last later =>
      cases hactive
      exact ⟨initial, later, below, _, rfl, rfl⟩

end Session

namespace Workspace

variable {w : Workspace}

theorem extends_run {base : Session} (h : w.session.Extends base) {ops : List Operation}
    (hops : ∀ op ∈ ops, op.continues = true)
    (hlow : ∀ first, first <+: ops →
      base.history.length ≤ (w.run first).session.history.length) :
    (w.run ops).session.Extends base := by
  induction ops generalizing w with
  | nil => exact h
  | cons op ops ih =>
    rw [List.forall_mem_cons] at hops
    have hfirst := hlow [op] (List.prefix_append [op] ops)
    refine ih (h.of_continues (continues_next w hops.1) hfirst) hops.2 ?_
    intro first hprefix
    exact hlow (op :: first) (List.cons_prefix_cons.mpr ⟨rfl, hprefix⟩)

/-- Whether every operation succeeds where its turn comes. -/
def succeeds (w : Workspace) : List Operation → Bool
  | [] => true
  | op :: ops => (w.perform op).isOk && (w.next op).succeeds ops

theorem run_append (ops later : List Operation) : w.run (ops ++ later) = (w.run ops).run later :=
  List.foldl_append

theorem succeeds_append {ops later : List Operation} :
    w.succeeds (ops ++ later) = (w.succeeds ops && (w.run ops).succeeds later) := by
  induction ops generalizing w with
  | nil => rfl
  | cons op ops ih =>
    rw [List.cons_append, succeeds, succeeds, ih, Bool.and_assoc]
    rfl

/-- Taking back a step that has just been made restores everything. -/
theorem perform_undo_of_step {ref : RuleRef} {depth : Int} {answer : Answer} {after : Workspace}
    (h : w.perform (.step ref depth) = .ok (answer, after)) :
    ∃ t, after.perform .undo = .ok (.term t, w) := by
  obtain ⟨⟨made, session⟩, hstep, hk⟩ := ok_of_bind_mapError h
  cases hk
  refine ⟨made.before, ?_⟩
  simp only [perform, Session.undo_of_step hstep]
  rfl

/-- As many undos as there were steps succeed after them, and restore everything. -/
theorem undone_of_steps {steps : List (RuleRef × Int)}
    (h : w.succeeds (steps.map fun s => .step s.1 s.2) = true) :
    let stepped := w.run (steps.map fun s => .step s.1 s.2)
    stepped.succeeds (List.replicate steps.length .undo) = true ∧
      stepped.run (List.replicate steps.length .undo) = w := by
  induction steps generalizing w with
  | nil => exact ⟨rfl, rfl⟩
  | cons s steps ih =>
    rw [List.map_cons, succeeds, Bool.and_eq_true] at h
    obtain ⟨⟨answer, after⟩, hstep⟩ := exists_of_isOk h.1
    have hnext : w.next (.step s.1 s.2) = after := by rw [next, hstep]
    obtain ⟨t, hundo⟩ := perform_undo_of_step hstep
    rw [hnext] at h
    obtain ⟨hsucceeds, hrestored⟩ := ih h.2
    have hrun : w.run ((s :: steps).map fun s => .step s.1 s.2) =
        after.run (steps.map fun s => .step s.1 s.2) := by
      rw [← hnext]
      rfl
    rw [hrun, List.length_cons, List.replicate_succ']
    constructor
    · rw [succeeds_append, hrestored, hsucceeds, succeeds, hundo]
      rfl
    · rw [run_append, hrestored]
      change after.next .undo = w
      rw [next, hundo]

end Workspace

/-- While a session lasts and no step made before is taken back, it is what it was as soon as it has as
many steps again, in all its parts; operations may fail in between, and rules may change. So as many
undos as there were steps succeed, and bring everything back. -/
theorem session_of_run_balanced (w : Workspace) (hactive : w.session ≠ .idle) :
    (∀ ops : List Workspace.Operation, (∀ op ∈ ops, op.continues = true) →
      (∀ first, first <+: ops →
        w.session.history.length ≤ (w.run first).session.history.length) →
      (w.run ops).session.history.length = w.session.history.length →
      (w.run ops).session = w.session) ∧
    ∀ steps : List (RuleRef × Int), w.succeeds (steps.map fun s => .step s.1 s.2) = true →
      let stepped := w.run (steps.map fun s => .step s.1 s.2)
      stepped.succeeds (List.replicate steps.length .undo) = true ∧
        stepped.run (List.replicate steps.length .undo) = w := by
  refine ⟨?_, fun steps hsteps => Workspace.undone_of_steps hsteps⟩
  intro ops hops hlow hlength
  have hextends : (w.run ops).session.Extends w.session :=
    Workspace.extends_run (Session.Extends.refl hactive) hops hlow
  exact hextends.eq_of_length hlength

/-- After one step: a step that is taken back, one under a name that no rule has, a rule redefined
and applied, all rules removed, and the last step taken back. -/
theorem session_of_run_balanced_redefined :
    let zero : Rule :=
      { pattern := .app "add" [.var "x", .const (.int 0)], replacement := .var "x"
        closed := by decide }
    let swap : Rule :=
      { pattern := .app "add" [.var "x", .var "y"], replacement := .app "add" [.var "y", .var "x"]
        closed := by decide }
    let t := Term.app "add" [.app "add" [.var "a", .const (.int 0)], .const (.int 0)]
    let w := Workspace.run {} [.define "rule" zero, .start (.term t), .step (.named "rule") 0]
    let ops : List Workspace.Operation := [.step (.inline swap) 0, .step (.named "other") 0, .undo,
      .define "rule" swap, .step (.named "rule") 0, .findMatches (.named "rule") 0, .clear, .undo]
    let steps : List (RuleRef × Int) := [(.inline swap, 0), (.inline swap, 0), (.named "rule", 0)]
    w.session ≠ .idle ∧ w.session.history.length = 1 ∧ w.succeeds ops = false ∧
      (w.run ops).session = w.session ∧
      w.succeeds (steps.map fun s => .step s.1 s.2) = true ∧
      (w.run (steps.map fun s => .step s.1 s.2)).run [.undo, .undo, .undo] = w := by
  intro zero swap t w ops steps
  have hactive : w.session ≠ .idle := by
    intro hidle
    have hisActive : w.session.isActive = true := by decide +kernel
    rw [hidle] at hisActive
    cases hisActive
  have hlow : ∀ n < ops.length + 1,
      w.session.history.length ≤ (w.run (ops.take n)).session.history.length := by decide +kernel
  have hsteps : w.succeeds (steps.map fun s => .step s.1 s.2) = true := by decide +kernel
  obtain ⟨hbalanced, hundone⟩ := session_of_run_balanced w hactive
  refine ⟨hactive, by decide +kernel, by decide +kernel, ?_, hsteps, (hundone steps hsteps).2⟩
  refine hbalanced ops (by decide) ?_ (by decide +kernel)
  intro first hfirst
  rw [List.prefix_iff_eq_take.mp hfirst]
  exact hlow first.length (Nat.lt_succ_of_le hfirst.length_le)

end Stepwise
