import Stepwise.Proofs.Rule.Reduction
import Stepwise.Proofs.Term.Equality

namespace Stepwise

theorem mem_insertName {x y : String} {names : List String} :
    x ∈ insertName y names ↔ x = y ∨ x ∈ names := by
  induction names with
  | nil => simp [insertName]
  | cons z zs ih =>
    rw [insertName]
    split
    · rename_i heq
      simp [heq]
    split
    · simp
    · simp only [List.mem_cons, ih]
      exact or_left_comm

theorem mem_sortedNames {x : String} {names : List String} :
    x ∈ sortedNames names ↔ x ∈ names := by
  induction names with
  | nil => simp [sortedNames]
  | cons y ys ih =>
    rw [sortedNames, List.foldr_cons, mem_insertName, List.mem_cons]
    exact or_congr_right ih

namespace Term

mutual

/-- The variables of an instance are those of the terms that take the places of the variables. -/
theorem vars_instantiate (s : String → Option Term) : (t : Term) →
    (t.instantiate s).vars = t.vars.flatMap fun x => ((s x).getD (.var x)).vars
  | .const _ => rfl
  | .var x => by simp [instantiate, vars]
  | .app f args => varsAll_instantiateAll s args

theorem varsAll_instantiateAll (s : String → Option Term) : (ts : List Term) →
    varsAll (instantiateAll s ts) = (varsAll ts).flatMap fun x => ((s x).getD (.var x)).vars
  | [] => rfl
  | t :: ts => by
    rw [instantiateAll, varsAll, varsAll, vars_instantiate s t, varsAll_instantiateAll s ts,
      List.flatMap_append]

end

theorem mem_varsAll {x : String} {ts : List Term} : x ∈ varsAll ts ↔ ∃ t ∈ ts, x ∈ t.vars := by
  rw [varsAll_eq_flatMap, List.mem_flatMap]

end Term

namespace Rule

variable {rule : Rule} {t u : Term}

/-- The replacement is filled in with the same terms that make the pattern equal to the term. -/
theorem vars_contract?_subset (h : rule.contract? t = some u) : u.vars ⊆ t.vars := by
  obtain ⟨b, hmatch, rfl⟩ := Option.map_eq_some_iff.mp h
  have hpattern : (rule.pattern.instantiate b.find?).vars = t.vars :=
    Term.vars_of_same (Term.instantiate_of_matchWith? rule.pattern t hmatch)
  rw [← hpattern, Term.vars_instantiate, Term.vars_instantiate]
  intro x hx
  obtain ⟨y, hy, hxy⟩ := List.mem_flatMap.mp hx
  exact List.mem_flatMap.mpr ⟨y, rule.closed y hy, hxy⟩

theorem vars_rewriteAt_subset (d : Nat) (t : Term) : (rule.rewriteAt d t).vars ⊆ t.vars := by
  induction d generalizing t with
  | zero =>
    rw [rewriteAt]
    cases h : rule.contract? t with
    | none => exact List.Subset.refl _
    | some u => exact vars_contract?_subset h
  | succ d ih =>
    cases t with
    | const a => exact List.Subset.refl _
    | var y => exact List.Subset.refl _
    | app f args =>
      intro x hx
      rw [rewriteAt, Term.vars, Term.mem_varsAll] at hx
      obtain ⟨u, hu, hxu⟩ := hx
      obtain ⟨a, ha, rfl⟩ := List.mem_map.mp hu
      exact Term.mem_varsAll.mpr ⟨a, ha, ih a hxu⟩

theorem vars_reduct_subset {depth : Int} {r : Reduct} (h : rule.reduct t depth = .ok r) :
    r.term.vars ⊆ t.vars := by
  obtain ⟨d, path, -, -, rfl⟩ := exists_applies_of_reduct h
  exact vars_rewriteAt_subset d t

/-- The rule has the two sides, or names that the replacement alone uses refuse it. -/
theorem make?_cases (t u : Term) :
    (∃ closed, ∀ name, make? t u name = .ok ⟨t, u, name, closed⟩) ∨
      ∃ e : UnboundVariables, (∃ x, x ∈ e.names) ∧
        (∀ x, x ∈ e.names ↔ x ∈ u.vars ∧ x ∉ t.vars) ∧
        ∀ name, make? t u name = .error e := by
  have hnames (x : String) : x ∈ sortedNames (u.vars.filter fun x => !t.vars.contains x) ↔
      x ∈ u.vars ∧ x ∉ t.vars := by
    simp [mem_sortedNames]
  by_cases closed : ∀ x ∈ u.vars, x ∈ t.vars
  · exact Or.inl ⟨closed, fun name => dif_pos closed⟩
  · refine Or.inr ⟨_, ?_, hnames, fun name => dif_neg closed⟩
    obtain ⟨x, hx⟩ := not_forall.mp closed
    obtain ⟨hreplacement, hpattern⟩ := Classical.not_imp.mp hx
    exact ⟨x, (hnames x).mpr ⟨hreplacement, hpattern⟩⟩

end Rule

end Stepwise
