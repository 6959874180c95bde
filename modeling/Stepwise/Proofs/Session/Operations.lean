import Stepwise.Session
import Stepwise.Term.Checked
import Stepwise.Interpreter.Load
import Stepwise.Proofs.Failure

namespace Stepwise

/-- A registry and the session that looks its rules up in it. -/
structure Workspace where
  registry : Registry := ∅
  session : Session := .idle

namespace Workspace

inductive Operation
  | start (expression : Argument)
  | step (rule : RuleRef) (depth : Int)
  | undo
  | findMatches (rule : RuleRef) (depth : Int)
  | derivation
  | finish
  | define (name : String) (rule : Rule)
  | loadText (text : String)
  /-- The store holds the files as they are when the operation takes place. -/
  | loadFile (store : Files.Store) (path : Files.Path)
  | clear

inductive Answer
  | done
  | term (t : Term)
  | found (places : List (Path × Bindings))
  | derivation (d : Derivation)
  | rule (rule : Rule)

inductive Failure
  | notATerm (value : Json)
  | step (error : StepError)
  | unnamedRule
  | text (error : ReadError)
  | file (error : LoadError)

def perform (w : Workspace) : Operation → Except Failure (Answer × Workspace)
  | .start (.term t) => .ok (.done, { w with session := .begin t })
  | .start (.data value) => .error (.notATerm value)
  | .step rule depth => do
    let (made, session) ← (w.session.step w.registry rule depth).mapError .step
    return (.term made.after, { w with session })
  | .undo => do
    let (t, session) ← w.session.undo.mapError .step
    return (.term t, { w with session })
  | .findMatches rule depth => do
    let places ← (w.session.findMatches w.registry rule depth).mapError .step
    return (.found places, w)
  | .derivation => do
    let d ← w.session.derivation.mapError .step
    return (.derivation d, w)
  | .finish => do
    let d ← w.session.derivation.mapError .step
    return (.derivation d, { w with session := .idle })
  | .define name rule => match w.registry.define? name rule with
    | some registry => .ok (.rule (rule.named name), { w with registry })
    | none => .error .unnamedRule
  | .loadText text => do
    let rules ← (readDefinitions text).mapError .text
    return (.done, { w with registry := w.registry.defineAll rules })
  | .loadFile store path => do
    let rules ← (store.readRules path).mapError .file
    return (.done, { w with registry := w.registry.defineAll rules })
  | .clear => .ok (.done, { w with registry := ∅ })

/-- The workspace after an operation, whether it succeeds or fails. -/
def next (w : Workspace) (op : Operation) : Workspace :=
  match w.perform op with
  | .ok (_, after) => after
  | .error _ => w

def run (w : Workspace) (ops : List Operation) : Workspace := ops.foldl next w

end Workspace

/-- Whether the operation neither starts nor ends a session. -/
def Workspace.Operation.continues : Workspace.Operation → Bool
  | .start _ | .finish => false
  | _ => true

/-- How an operation that neither starts nor ends a session can change it. -/
inductive Session.Continues (registry : Registry) (session : Session) : Session → Prop
  | kept : Continues registry session session
  | stepped {rule : RuleRef} {depth : Int} {made : Step} {after : Session}
      (h : session.step registry rule depth = .ok (made, after)) : Continues registry session after
  | undone {t : Term} {after : Session} (h : session.undo = .ok (t, after)) :
      Continues registry session after

/-- How an operation can change a session. -/
inductive Session.Moves (registry : Registry) (session : Session) : Session → Prop
  | kept : Moves registry session session
  | begun (t : Term) : Moves registry session (.begin t)
  | stepped {rule : RuleRef} {depth : Int} {made : Step} {after : Session}
      (h : session.step registry rule depth = .ok (made, after)) : Moves registry session after
  | undone {t : Term} {after : Session} (h : session.undo = .ok (t, after)) :
      Moves registry session after
  | finished : Moves registry session .idle

theorem Session.Continues.moves {registry : Registry} {s s' : Session}
    (h : s.Continues registry s') : s.Moves registry s' := by
  cases h with
  | kept => exact .kept
  | stepped h => exact .stepped h
  | undone h => exact .undone h

theorem Session.step_active (registry : Registry) (ref : RuleRef) (depth : Int)
    (initial current : Term) (steps : List Step) :
    (Session.active initial steps current).step registry ref depth =
      match registry.resolve ref with
      | .error e => .error e
      | .ok rule => match rule.reduct current depth with
        | .error e => .error e
        | .ok r =>
          let made : Step := ⟨current, rule, depth.toNat, r.term, r.paths⟩
          .ok (made, .active initial (made :: steps) made.after) := by
  rw [step]
  cases registry.resolve ref with
  | error e => rfl
  | ok rule =>
    simp only [bind, Except.bind]
    cases rule.reduct current depth <;> rfl

/-- What taking a step back finds and leaves. -/
theorem Session.shape_of_undo {s s' : Session} {t : Term} (h : s.undo = .ok (t, s')) :
    ∃ initial made steps current, s = .active initial (made :: steps) current ∧
      s' = .active initial steps made.before ∧ t = made.before := by
  cases s with
  | idle => cases h
  | active initial steps current =>
    cases steps with
    | nil => cases h
    | cons made steps =>
      cases h
      exact ⟨initial, made, steps, current, rfl, rfl, rfl⟩

namespace Workspace

variable {w w' : Workspace} {op : Operation} {answer : Answer}

theorem continues_of_perform (hop : op.continues = true) (h : w.perform op = .ok (answer, w')) :
    w.session.Continues w.registry w'.session := by
  cases op with
  | start expression => cases hop
  | finish => cases hop
  | step rule depth =>
    obtain ⟨⟨made, session⟩, hstep, hk⟩ := ok_of_bind_mapError h
    cases hk
    exact .stepped hstep
  | undo =>
    obtain ⟨⟨t, session⟩, hundo, hk⟩ := ok_of_bind_mapError h
    cases hk
    exact .undone hundo
  | findMatches rule depth =>
    obtain ⟨places, -, hk⟩ := ok_of_bind_mapError h
    cases hk
    exact .kept
  | derivation =>
    obtain ⟨d, -, hk⟩ := ok_of_bind_mapError h
    cases hk
    exact .kept
  | define name rule =>
    simp only [perform] at h
    split at h
    · cases h
      exact .kept
    · cases h
  | loadText text =>
    obtain ⟨rules, -, hk⟩ := ok_of_bind_mapError h
    cases hk
    exact .kept
  | loadFile store path =>
    obtain ⟨rules, -, hk⟩ := ok_of_bind_mapError h
    cases hk
    exact .kept
  | clear =>
    cases h
    exact .kept

theorem moves_of_perform (h : w.perform op = .ok (answer, w')) :
    w.session.Moves w.registry w'.session := by
  cases op with
  | start expression =>
    cases expression with
    | term t =>
      cases h
      exact .begun t
    | data value => cases h
  | finish =>
    obtain ⟨d, -, hk⟩ := ok_of_bind_mapError h
    cases hk
    exact .finished
  | step _ _ | undo | findMatches _ _ | derivation | define _ _ | loadText _ | loadFile _ _
  | clear => exact (continues_of_perform rfl h).moves

theorem continues_next (w : Workspace) (hop : op.continues = true) :
    w.session.Continues w.registry (w.next op).session := by
  unfold next
  split
  · rename_i h
    exact continues_of_perform hop h
  · exact .kept

theorem moves_next (w : Workspace) (op : Operation) :
    w.session.Moves w.registry (w.next op).session := by
  unfold next
  split
  · rename_i h
    exact moves_of_perform h
  · exact .kept

/-- What every operation keeps, whatever the registry holds by then, every run keeps. -/
theorem session_of_run {P : Session → Prop} (hP : ∀ {registry : Registry} {s s' : Session},
    s.Moves registry s' → P s → P s') (h : P w.session) (ops : List Operation) :
    P (w.run ops).session := by
  induction ops generalizing w with
  | nil => exact h
  | cons op ops ih => exact ih (hP (moves_next w op) h)

/-- The same of a session that is neither ended nor started anew. -/
theorem session_of_continued_run {P : Session → Prop} (hP : ∀ {registry : Registry}
    {s s' : Session}, s.Continues registry s' → P s → P s') (h : P w.session)
    {ops : List Operation} (hops : ∀ op ∈ ops, op.continues = true) : P (w.run ops).session := by
  induction ops generalizing w with
  | nil => exact h
  | cons op ops ih =>
    rw [List.forall_mem_cons] at hops
    exact ih (hP (continues_next w hops.1) h) hops.2

theorem derivation_of_perform {d : Derivation} (h : w.perform op = .ok (.derivation d, w')) :
    w.session.derivation = .ok d := by
  cases op with
  | derivation =>
    obtain ⟨d', hd, hk⟩ := ok_of_bind_mapError h
    cases hk
    exact hd
  | finish =>
    obtain ⟨d', hd, hk⟩ := ok_of_bind_mapError h
    cases hk
    exact hd
  | start expression => cases expression <;> cases h
  | step rule depth =>
    obtain ⟨made, -, hk⟩ := ok_of_bind_mapError h
    cases hk
  | undo =>
    obtain ⟨t, -, hk⟩ := ok_of_bind_mapError h
    cases hk
  | findMatches rule depth =>
    obtain ⟨places, -, hk⟩ := ok_of_bind_mapError h
    cases hk
  | define name rule =>
    simp only [perform] at h
    split at h <;> cases h
  | loadText text =>
    obtain ⟨rules, -, hk⟩ := ok_of_bind_mapError h
    cases hk
  | loadFile store path =>
    obtain ⟨rules, -, hk⟩ := ok_of_bind_mapError h
    cases hk
  | clear => cases h

end Workspace

end Stepwise
