import Stepwise.Proofs.Rule.Equality
import Stepwise.Proofs.Term.Substitution

namespace Stepwise

namespace Rule

variable {rule : Rule} {t u : Term} {s : String → Option Term}

theorem exists_fits_of_contract? (h : rule.contract? t = some u) :
    ∃ s, Term.Fits rule.pattern t ∅ s ∧ u = rule.replacement.instantiate s := by
  obtain ⟨b, hmatch, rfl⟩ := Option.map_eq_some_iff.mp h
  exact ⟨b.find?, Term.fits_of_matchWith? hmatch, rfl⟩

/-- Of a term that a substitution makes the pattern equal to, the rule makes what the substitution
makes of the replacement. -/
theorem contract?_of_fits (h : Term.Fits rule.pattern t ∅ s) :
    ∃ w, rule.contract? t = some w ∧ w.same (rule.replacement.instantiate s) = true := by
  obtain ⟨b, hb, hagrees⟩ := Term.match?_of_fits h
  refine ⟨rule.replacement.instantiate b.find?, by rw [contract?, hb]; rfl, ?_⟩
  refine Term.instantiate_of_same (Term.same_refl _) fun x hx => ?_
  exact hagrees.same ((Term.fits_of_matchWith? hb).total x (rule.closed x hx))

/-- What a rule makes of an instance is the instance of what it makes of the term. -/
theorem contract?_instantiate (h : rule.contract? t = some u) (θ : String → Option Term) :
    ∃ w, rule.contract? (t.instantiate θ) = some w ∧ w.same (u.instantiate θ) = true := by
  obtain ⟨s, hs, rfl⟩ := exists_fits_of_contract? h
  rw [Term.instantiate_instantiate]
  exact contract?_of_fits (hs.instantiate θ)

/-- Every match of an expression is a match of its instances, at the same path, and what a step on
the instance puts there is the instance of what the step on the expression puts there. Beside these
the instance may have further matches. -/
theorem reduct_instantiate {rule : Rule} {t : Term} {depth : Int} {found : List (Path × Bindings)}
    {path : Path} (h : t.findMatches rule.pattern depth = .ok found)
    (hpath : path ∈ found.map Prod.fst) (θ : String → Option Term) :
    ∃ found' r r' u u',
      (t.instantiate θ).findMatches rule.pattern depth = .ok found' ∧
      path ∈ found'.map Prod.fst ∧
      rule.reduct t depth = .ok r ∧ rule.reduct (t.instantiate θ) depth = .ok r' ∧
      r.term.subtermAt path = .ok u ∧ r'.term.subtermAt path = .ok u' ∧
      (u' == u.instantiate θ) = true := by
  obtain ⟨d, rfl, rfl⟩ := Term.findMatches_eq_ok h
  have happlies := mem_matchesAt.mp hpath
  obtain ⟨v, w, hoccurs, rfl, hcontract⟩ := applies_iff.mp happlies
  obtain ⟨w', hcontract', hsame⟩ := contract?_instantiate hcontract θ
  have hoccurs' := hoccurs.instantiate θ
  have happlies' : rule.Applies (t.instantiate θ) path.length path :=
    applies_iff.mpr ⟨_, w', hoccurs', rfl, hcontract'⟩
  have hafter := occurs_rewriteAt rule hoccurs
  have hafter' := occurs_rewriteAt rule hoccurs'
  rw [hcontract, Option.getD_some] at hafter
  rw [hcontract', Option.getD_some] at hafter'
  exact ⟨_, _, _, w, w', Term.findMatches_natCast _ _ _, mem_matchesAt.mpr happlies',
    reduct_of_applies happlies, reduct_of_applies happlies',
    (Term.occurs_iff_subtermAt.mp hafter).2, (Term.occurs_iff_subtermAt.mp hafter').2, hsame⟩

/-- The instance matches beside the old place as well, where the two sub-terms have become equal:
the repeated variable of the pattern meets `2` and `2.0`. -/
theorem reduct_instantiate_beside :
    let rule : Rule :=
      { pattern := .app "f" [.var "a", .var "a"], replacement := .app "g" [.var "a"],
        closed := by decide }
    let t := Term.app "pair" [.app "f" [.var "x", .var "x"], .app "f" [.var "x", .var "y"]]
    let θ : String → Option Term := fun x =>
      if x = "x" then some (.const (.int 2))
      else some (.const (.float ⟨false, 4503599627370496, -51, by decide⟩))
    [0] ∈ (t.matchesAt rule.pattern 1).map Prod.fst ∧
      [1] ∉ (t.matchesAt rule.pattern 1).map Prod.fst ∧
      [1] ∈ ((t.instantiate θ).matchesAt rule.pattern 1).map Prod.fst ∧
      ∃ r r' u u', rule.reduct t 1 = .ok r ∧ rule.reduct (t.instantiate θ) 1 = .ok r' ∧
        r.term.subtermAt [0] = .ok u ∧ r'.term.subtermAt [0] = .ok u' ∧
        (u' == u.instantiate θ) = true := by
  intro rule t θ
  have hpath : [0] ∈ (t.matchesAt rule.pattern 1).map Prod.fst := by decide +kernel
  obtain ⟨found', r, r', u, u', -, -, hr, hr', hu, hu', hsame⟩ :=
    reduct_instantiate (Term.findMatches_natCast t rule.pattern 1) hpath θ
  exact ⟨hpath, by decide +kernel, by decide +kernel, r, r', u, u', hr, hr', hu, hu', hsame⟩

end Rule

end Stepwise
