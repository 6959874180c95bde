import Stepwise.Rule.Reduction
import Stepwise.Proofs.Term.Position

namespace Stepwise

namespace Rule

/-- What the rule makes of a term that its pattern matches. -/
def contract? (rule : Rule) (t : Term) : Option Term :=
  (rule.pattern.match? t).map fun b => rule.replacement.instantiate b.find?

/-- Rewriting by recursion: a match at the depth is replaced, and everything else is kept. -/
def rewriteAt (rule : Rule) : Nat → Term → Term
  | 0, t => (rule.contract? t).getD t
  | d + 1, .app f args => .app f (args.map (rule.rewriteAt d))
  | _ + 1, t => t

end Rule

theorem checkedDepth_natCast (d : Nat) : checkedDepth (d : Int) = .ok d := by
  rw [checkedDepth, if_neg (by omega), Int.toNat_natCast]

namespace Term

theorem findMatches_natCast (t p : Term) (d : Nat) :
    t.findMatches p (d : Int) = .ok (t.matchesAt p d) := by
  rw [findMatches, checkedDepth_natCast]
  rfl

theorem findMatches_eq_ok {t p : Term} {depth : Int} {found : List (Path × Bindings)}
    (h : t.findMatches p depth = .ok found) : ∃ d : Nat, depth = d ∧ found = t.matchesAt p d := by
  rcases Int.lt_or_le depth 0 with hneg | hdepth
  · rw [findMatches, checkedDepth, if_pos hneg] at h
    cases h
  · obtain ⟨d, rfl⟩ := Int.eq_ofNat_of_zero_le hdepth
    rw [findMatches_natCast, Except.ok.injEq] at h
    exact ⟨d, rfl, h.symm⟩

/-- Putting the images back at their paths is rewriting by recursion. -/
theorem replace_imagesOf_atDepth (rule : Rule) (t : Term) (d : Nat) :
    t.replace (imagesOf rule.contract? (t.atDepth d)) = rule.rewriteAt d t := by
  induction d generalizing t with
  | zero =>
    rw [atDepth_zero, Rule.rewriteAt]
    cases h : rule.contract? t with
    | none =>
      have himages : imagesOf rule.contract? [([], t)] = [] := by simp [imagesOf, h]
      rw [himages, replace_nil]
      rfl
    | some u =>
      have himages : imagesOf rule.contract? [([], t)] = [([], u)] := by simp [imagesOf, h]
      rw [himages, replace_root]
      rfl
  | succ d ih =>
    cases t with
    | app f args =>
      have hroot : rootReplacement? (imagesOf rule.contract? (atDepthFrom 0 args d)) = none :=
        rootReplacement?_eq_none fun p hp => by
          obtain ⟨j, rest, hpath, -⟩ := head_of_mem_imagesOf hp
          exact ⟨j, rest, hpath⟩
      have hargs : replaceFrom 0 args ([] ++ imagesOf rule.contract? (atDepthFrom 0 args d)) =
          args.map (rule.rewriteAt d) := replaceFrom_atDepthFrom (fun a _ => ih a) (by simp)
      rw [List.nil_append] at hargs
      rw [atDepth_app_succ, replace, hroot, Rule.rewriteAt, hargs]
      rfl
    | const a => rfl
    | var x => rfl

end Term

namespace Rule

variable {rule : Rule} {t : Term} {d : Nat}

/-- The path leads to a sub-term at the depth that the rule applies to. -/
def Applies (rule : Rule) (t : Term) (d : Nat) (path : Path) : Prop :=
  ∃ u, Term.Occurs t path u ∧ path.length = d ∧ (rule.pattern.match? u).isSome = true

theorem mem_matchesAt {path : Path} :
    path ∈ (t.matchesAt rule.pattern d).map Prod.fst ↔ rule.Applies t d path := by
  simp only [Term.matchesAt, List.mem_map, List.mem_filterMap, Prod.exists, Option.map_eq_some_iff,
    Prod.mk.injEq]
  constructor
  · rintro ⟨_, b, ⟨path', u, hmem, b', hmatch, rfl, rfl⟩, rfl⟩
    obtain ⟨hoccurs, hlength⟩ := Term.mem_atDepth.mp hmem
    exact ⟨u, hoccurs, hlength, by rw [hmatch]; rfl⟩
  · rintro ⟨u, hoccurs, hlength, hmatch⟩
    obtain ⟨b, hb⟩ := Option.isSome_iff_exists.mp hmatch
    exact ⟨path, b, ⟨path, u, Term.mem_atDepth.mpr ⟨hoccurs, hlength⟩, b, hb, rfl, rfl⟩, rfl⟩

theorem pairwise_matchesAt : ((t.matchesAt rule.pattern d).map Prod.fst).Pairwise (· < ·) := by
  have hpaths := Term.pairwise_atDepth t d
  rw [List.pairwise_map] at hpaths
  rw [Term.matchesAt, List.pairwise_map, List.pairwise_filterMap]
  refine hpaths.imp ?_
  intro p q hlt x hx y hy
  obtain ⟨b, -, rfl⟩ := Option.map_eq_some_iff.mp hx
  obtain ⟨c, -, rfl⟩ := Option.map_eq_some_iff.mp hy
  exact hlt

/-- The instances that a step puts back are the images of what is listed at the depth. -/
theorem map_matchesAt : (t.matchesAt rule.pattern d).map
      (fun (path, b) => (path, rule.replacement.instantiate b.find?)) =
    Term.imagesOf rule.contract? (t.atDepth d) := by
  rw [Term.matchesAt, Term.imagesOf, List.map_filterMap]
  congr 1
  funext p
  rw [contract?, Option.map_map, Option.map_map]
  rfl

/-- What a step gives depends only on what the rule makes of the single sub-terms. -/
theorem reduct?_eq_imagesOf : rule.reduct? t d =
    let images := Term.imagesOf rule.contract? (t.atDepth d)
    if images.isEmpty then none
    else some { term := t.replace images, paths := images.map Prod.fst } := by
  rw [← map_matchesAt, reduct?]
  simp only [List.isEmpty_map, List.map_map]
  rfl

theorem reduct?_congr {rule' : Rule} (h : ∀ u, rule'.contract? u = rule.contract? u) :
    rule'.reduct? t d = rule.reduct? t d := by
  rw [reduct?_eq_imagesOf, reduct?_eq_imagesOf, funext h]

theorem reduct?_eq_rewriteAt : rule.reduct? t d =
    if (t.matchesAt rule.pattern d).isEmpty then none
    else some ⟨rule.rewriteAt d t, (t.matchesAt rule.pattern d).map Prod.fst⟩ := by
  simp only [reduct?]
  rw [map_matchesAt, Term.replace_imagesOf_atDepth]

theorem reduct?_of_applies {path : Path} (h : rule.Applies t d path) :
    rule.reduct? t d =
      some ⟨rule.rewriteAt d t, (t.matchesAt rule.pattern d).map Prod.fst⟩ := by
  obtain ⟨p, hp, -⟩ := List.mem_map.mp (mem_matchesAt.mpr h)
  have hne : (t.matchesAt rule.pattern d).isEmpty = false :=
    List.isEmpty_eq_false_iff.mpr (List.ne_nil_of_mem hp)
  rw [reduct?_eq_rewriteAt, hne, if_neg Bool.false_ne_true]

theorem reduct?_of_not_applies (h : ∀ path, ¬ rule.Applies t d path) :
    rule.reduct? t d = none := by
  have hnil : t.matchesAt rule.pattern d = [] := by
    rw [← List.map_eq_nil_iff (f := Prod.fst)]
    exact List.eq_nil_iff_forall_not_mem.mpr fun path hpath => h path (mem_matchesAt.mp hpath)
  simp [reduct?, hnil]

theorem applies_iff {path : Path} : rule.Applies t d path ↔
    ∃ u w, Term.Occurs t path u ∧ path.length = d ∧ rule.contract? u = some w := by
  simp only [Applies, contract?, Option.isSome_iff_exists, Option.map_eq_some_iff]
  constructor
  · rintro ⟨u, hoccurs, hlength, b, hb⟩
    exact ⟨u, _, hoccurs, hlength, b, hb, rfl⟩
  · rintro ⟨u, w, hoccurs, hlength, b, hb, -⟩
    exact ⟨u, hoccurs, hlength, b, hb⟩

/-- Rewriting leaves the way to its depth as it is. -/
theorem occurs_rewriteAt (rule : Rule) {path : Path} {u : Term} (h : Term.Occurs t path u) :
    Term.Occurs (rule.rewriteAt path.length t) path ((rule.contract? u).getD u) := by
  induction h with
  | root => exact .root
  | argument arg rest ih =>
    rw [List.length_cons, rewriteAt]
    exact .argument (by rw [List.getElem?_map, arg, Option.map_some]) ih

theorem reduct_natCast : rule.reduct t (d : Int) = match rule.reduct? t d with
    | some result => .ok result
    | none => .error (.noMatch rule d) := by
  rw [reduct, checkedDepth_natCast]
  rfl

theorem reduct_of_applies {path : Path} (h : rule.Applies t d path) : rule.reduct t (d : Int) =
    .ok ⟨rule.rewriteAt d t, (t.matchesAt rule.pattern d).map Prod.fst⟩ := by
  rw [reduct_natCast, reduct?_of_applies h]

theorem reduct_of_not_applies (h : ∀ path, ¬ rule.Applies t d path) :
    rule.reduct t (d : Int) = .error (.noMatch rule d) := by
  rw [reduct_natCast, reduct?_of_not_applies h]

theorem reduct_of_negative {depth : Int} (h : depth < 0) :
    rule.reduct t depth = .error (.negativeDepth depth) := by
  rw [reduct, checkedDepth, if_pos h]
  rfl

/-- A step that succeeds has a match, and is rewriting by recursion. -/
theorem exists_applies_of_reduct {depth : Int} {r : Reduct} (h : rule.reduct t depth = .ok r) :
    ∃ (d : Nat) (path : Path), depth = d ∧ rule.Applies t d path ∧
      r = ⟨rule.rewriteAt d t, (t.matchesAt rule.pattern d).map Prod.fst⟩ := by
  rcases Int.lt_or_le depth 0 with hneg | hdepth
  · rw [reduct_of_negative hneg] at h
    cases h
  · obtain ⟨d, rfl⟩ := Int.eq_ofNat_of_zero_le hdepth
    by_cases happlies : ∃ path, rule.Applies t d path
    · obtain ⟨path, hpath⟩ := happlies
      rw [reduct_of_applies hpath, Except.ok.injEq] at h
      exact ⟨d, path, rfl, hpath, h.symm⟩
    · rw [reduct_of_not_applies fun path hpath => happlies ⟨path, hpath⟩] at h
      cases h

/-- A step that succeeds replaces something. -/
theorem paths_ne_nil {depth : Int} {r : Reduct} (h : rule.reduct t depth = .ok r) :
    r.paths ≠ [] := by
  obtain ⟨d, path, -, happlies, rfl⟩ := exists_applies_of_reduct h
  exact List.ne_nil_of_mem (mem_matchesAt.mpr happlies)

end Rule

end Stepwise
