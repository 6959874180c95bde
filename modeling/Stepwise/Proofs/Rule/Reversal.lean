import Mathlib.Data.List.Sort
import Stepwise.Proofs.Rule.Instances

namespace Stepwise

/-- The pattern matches at the paths, and nowhere else at the depth. -/
def Term.MatchesOnly (t pattern : Term) (depth : Int) (paths : List Path) : Prop :=
  ∃ found, t.findMatches pattern depth = .ok found ∧
    ∀ path, path ∈ found.map Prod.fst ↔ path ∈ paths

namespace Rule

/-- The two sides exchanged, where both have the same variables. -/
def reversed (rule : Rule) (h : ∀ x ∈ rule.pattern.vars, x ∈ rule.replacement.vars) : Rule where
  pattern := rule.replacement
  replacement := rule.pattern
  closed := h

variable {rule : Rule} {t u w : Term} {d : Nat} {path : Path} {s : String → Option Term}
  {h : ∀ x ∈ rule.pattern.vars, x ∈ rule.replacement.vars}

/-- What a rule made of a term, the reversed rule makes into an equal term. -/
theorem contract?_reversed (hw : rule.contract? u = some w) :
    ∃ v, (rule.reversed h).contract? w = some v ∧ v.same u = true := by
  obtain ⟨s, hs, rfl⟩ := exists_fits_of_contract? hw
  have hback : Term.Fits (rule.reversed h).pattern (rule.replacement.instantiate s) ∅ s :=
    ⟨hs.agrees, fun x hx => hs.total x (rule.closed x hx), Term.same_refl _⟩
  obtain ⟨v, hv, hsame⟩ := contract?_of_fits hback
  exact ⟨v, hv, Term.same_trans _ _ _ hsame hs.equal⟩

/-- If a second rule takes back what the first does to each sub-term at the depth, it does so to the
term. -/
theorem rewriteAt_rewriteAt {back : Rule}
    (hback : ∀ path u, Term.Occurs t path u → path.length = d →
      (back.rewriteAt 0 (rule.rewriteAt 0 u)).same u = true) :
    (back.rewriteAt d (rule.rewriteAt d t)).same t = true := by
  induction d generalizing t with
  | zero => exact hback [] t .root rfl
  | succ d ih =>
    cases t with
    | const a => exact Term.same_refl _
    | var x => exact Term.same_refl _
    | app f args =>
      rw [rewriteAt, rewriteAt, List.map_map, Term.same, beq_self_eq_true, Bool.true_and,
        Term.sameAll_iff_forall₂, List.forall₂_map_left_iff, List.forall₂_same]
      intro a ha
      obtain ⟨k, hk⟩ := List.mem_iff_getElem?.mp ha
      refine ih fun path u hoccurs hlength => ?_
      exact hback (k :: path) u (.argument hk hoccurs) (by rw [List.length_cons, hlength])

theorem matchesOnly_iff {pattern : Term} {paths : List Path} :
    t.MatchesOnly pattern (d : Int) paths ↔
      ∀ path, path ∈ (t.matchesAt pattern d).map Prod.fst ↔ path ∈ paths := by
  rw [Term.MatchesOnly, Term.findMatches_natCast]
  constructor
  · rintro ⟨found, hfound, hpaths⟩
    rw [Except.ok.injEq] at hfound
    rwa [hfound]
  · intro hpaths
    exact ⟨_, rfl, hpaths⟩

/-- A rule and its reverse give the term back, if the reverse matches nothing that the rule did not
make. -/
theorem reversed_rewriteAt_same (honly : ∀ path,
      (rule.reversed h).Applies (rule.rewriteAt d t) d path → rule.Applies t d path) :
    ((rule.reversed h).rewriteAt d (rule.rewriteAt d t)).same t = true := by
  apply rewriteAt_rewriteAt
  rintro path u hoccurs rfl
  have hafter := occurs_rewriteAt rule hoccurs
  rw [rewriteAt, rewriteAt]
  cases hu : rule.contract? u with
  | some w =>
    obtain ⟨v, hv, hsame⟩ := contract?_reversed (h := h) hu
    rw [Option.getD_some, hv]
    exact hsame
  | none =>
    -- The sub-term is still there, so a match of the reverse would be one at a path of the step.
    rw [hu, Option.getD_none] at hafter
    rw [Option.getD_none]
    cases hback : (rule.reversed h).contract? u with
    | none => exact Term.same_refl _
    | some v =>
      have happlies := honly path (applies_iff.mpr ⟨u, v, hafter, rfl, hback⟩)
      obtain ⟨u', w, hoccurs', -, hw⟩ := applies_iff.mp happlies
      rw [hoccurs.unique hoccurs', hw] at hu
      cases hu

/-- What was replaced matches the replacement. -/
theorem reversed_applies (happlies : rule.Applies t d path) :
    (rule.reversed h).Applies (rule.rewriteAt d t) d path := by
  obtain ⟨u, w, hoccurs, rfl, hw⟩ := applies_iff.mp happlies
  obtain ⟨v, hv, -⟩ := contract?_reversed (h := h) hw
  have hafter := occurs_rewriteAt rule hoccurs
  rw [hw, Option.getD_some] at hafter
  exact applies_iff.mpr ⟨w, v, hafter, rfl, hv⟩

/-- If the replacement matches at the replaced paths only, then the reversed rule replaces the
sub-terms at these paths, and the term before the step is back, up to equal constants. At the root
there is no other path. -/
theorem reduct_reversed (rule : Rule) (h : ∀ x ∈ rule.pattern.vars, x ∈ rule.replacement.vars)
    {t : Term} {depth : Int} {r : Reduct} (hr : rule.reduct t depth = .ok r) :
    (r.term.MatchesOnly rule.replacement depth r.paths →
      ∃ r', (rule.reversed h).reduct r.term depth = .ok r' ∧ r'.paths = r.paths ∧
        (r'.term == t) = true) ∧
    (depth = 0 → r.term.MatchesOnly rule.replacement depth r.paths) := by
  obtain ⟨d, path, rfl, happlies, rfl⟩ := exists_applies_of_reduct hr
  rw [matchesOnly_iff]
  constructor
  · intro hpaths
    refine ⟨_, reduct_of_applies (reversed_applies (h := h) happlies), ?_, ?_⟩
    · exact pairwise_matchesAt.eq_of_mem_iff pairwise_matchesAt hpaths
    · apply reversed_rewriteAt_same
      intro path hpath
      exact mem_matchesAt.mp ((hpaths path).mp (mem_matchesAt.mpr hpath))
  · intro hdepth path'
    obtain rfl : d = 0 := Int.natCast_eq_zero.mp hdepth
    have hback : path' ∈ ((rule.rewriteAt 0 t).matchesAt rule.replacement 0).map Prod.fst ↔
        (rule.reversed h).Applies (rule.rewriteAt 0 t) 0 path' :=
      @mem_matchesAt (rule.reversed h) _ _ _
    rw [hback]
    constructor
    · rintro ⟨-, -, hlength', -⟩
      obtain ⟨-, -, hlength, -⟩ := id happlies
      rw [List.length_eq_zero_iff] at hlength hlength'
      rw [hlength', ← hlength]
      exact mem_matchesAt.mpr happlies
    · intro hpath'
      exact reversed_applies (mem_matchesAt.mp hpath')

/-- The sum of `2` and `2.0` becomes the double of `2`, and the step back gives `2` twice. -/
theorem reduct_reversed_double :
    let rule : Rule :=
      { pattern := .app "add" [.var "x", .var "x"],
        replacement := .app "double" [.var "x"], closed := by decide }
    let two := Term.const (.int 2)
    let two' := Term.const (.float ⟨false, 4503599627370496, -51, by decide⟩)
    let t := Term.app "f" [.app "add" [two, two'], .var "y"]
    ∃ r r', rule.reduct t 1 = .ok r ∧ r.term.MatchesOnly rule.replacement 1 r.paths ∧
      (rule.reversed (by decide)).reduct r.term 1 = .ok r' ∧ r'.paths = [[0]] ∧
      (r'.term == t) = true := by
  intro rule two two' t
  have happlies : rule.Applies t 1 [0] :=
    ⟨.app "add" [two, two'], .argument (k := 0) rfl .root, rfl, by decide +kernel⟩
  have hr := reduct_of_applies happlies
  have hpaths : ((rule.rewriteAt 1 t).matchesAt rule.replacement 1).map Prod.fst =
      (t.matchesAt rule.pattern 1).map Prod.fst := by decide +kernel
  have honly := matchesOnly_iff.mpr fun path => by rw [hpaths]
  obtain ⟨r', hr', hpaths', hsame⟩ := (reduct_reversed rule (by decide) hr).1 honly
  refine ⟨_, r', hr, honly, hr', ?_, hsame⟩
  rw [hpaths']
  decide +kernel

end Rule

end Stepwise
