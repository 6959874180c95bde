import Mathlib.Data.Set.Operations
import Stepwise.Proofs.Rule.Reduction
import Stepwise.Proofs.Term.Matching

namespace Stepwise

variable {ρ : String → String} {xs : List String}

namespace Term

mutual

def rename (ρ : String → String) : Term → Term
  | .const a => .const a
  | .var x => .var (ρ x)
  | .app f args => .app f (renameAll ρ args)

def renameAll (ρ : String → String) : List Term → List Term
  | [] => []
  | t :: ts => t.rename ρ :: renameAll ρ ts

end

mutual

theorem vars_rename : (t : Term) → (t.rename ρ).vars = t.vars.map ρ
  | .const _ => rfl
  | .var _ => rfl
  | .app _ args => varsAll_renameAll args

theorem varsAll_renameAll : (ts : List Term) → varsAll (renameAll ρ ts) = (varsAll ts).map ρ
  | [] => rfl
  | t :: ts => by
    rw [renameAll, varsAll, varsAll, vars_rename t, varsAll_renameAll ts, List.map_append]

end

theorem length_renameAll (ts : List Term) : (renameAll ρ ts).length = ts.length := by
  induction ts with
  | nil => rfl
  | cons t ts ih => rw [renameAll, List.length_cons, List.length_cons, ih]

end Term

/-- What one table binds to the names, the other binds to their new names. -/
def Bindings.Renamed (ρ : String → String) (xs : List String) (b b' : Bindings) : Prop :=
  ∀ x ∈ xs, b'.find? (ρ x) = b.find? x

/-- A further name binds the same term on both sides, and no other new name is taken by it. -/
theorem Bindings.Renamed.put {b b' : Bindings} {x : String} (hρ : Set.InjOn ρ {y | y ∈ xs})
    (h : b.Renamed ρ xs b') (hx : x ∈ xs) (t : Term) :
    Renamed ρ xs (b.put x t) (b'.put (ρ x) t) := by
  intro y hy
  rw [Table.find?_put, Table.find?_put]
  by_cases hyx : y = x
  · rw [if_pos hyx, if_pos (congrArg ρ hyx)]
  · rw [if_neg hyx, if_neg fun hρy => hyx (hρ hy hx hρy), h y hy]

namespace Term

mutual

/-- Matching goes the same way with the new names, and succeeds or fails together. -/
theorem matchWith?_rename {b b' : Bindings} (hρ : Set.InjOn ρ {y | y ∈ xs})
    (hb : b.Renamed ρ xs b') : (p t : Term) → (∀ x ∈ p.vars, x ∈ xs) →
    Option.Rel (Bindings.Renamed ρ xs) (p.matchWith? t b) ((p.rename ρ).matchWith? t b')
  | .var x, t, hp => by
    have hx : x ∈ xs := hp x (by simp [vars])
    rw [rename, matchWith?, matchWith?, hb x hx]
    cases b.find? x with
    | none => exact .some (hb.put hρ hx t)
    | some u =>
      by_cases hu : (u == t) = true
      · simp only [hu, if_true]
        exact .some hb
      · simp only [hu]
        exact .none
  | .const a, .const c, _ => by
    rw [rename, matchWith?, matchWith?]
    split
    · exact .some hb
    · exact .none
  | .app f ps, .app g ts, hp => by
    rw [rename, matchWith?, matchWith?, length_renameAll]
    split
    · exact matchAll?_rename hρ hb ps ts hp
    · exact .none
  | .const _, .var _, _ | .const _, .app _ _, _ | .app _ _, .const _, _ | .app _ _, .var _, _ => by
    simp only [rename, matchWith?]
    exact .none

theorem matchAll?_rename {b b' : Bindings} (hρ : Set.InjOn ρ {y | y ∈ xs})
    (hb : b.Renamed ρ xs b') : (ps ts : List Term) → (∀ x ∈ varsAll ps, x ∈ xs) →
    Option.Rel (Bindings.Renamed ρ xs) (matchAll? ps ts b) (matchAll? (renameAll ρ ps) ts b')
  | [], [], _ => .some hb
  | p :: ps, t :: ts, hp => by
    rw [varsAll, List.forall_mem_append] at hp
    rw [renameAll, matchAll?, matchAll?]
    have hfirst := matchWith?_rename hρ hb p t hp.1
    generalize p.matchWith? t b = c, (p.rename ρ).matchWith? t b' = c' at hfirst
    cases hfirst with
    | none => exact .none
    | some hc => exact matchAll?_rename hρ hc ps ts hp.2
  | [], _ :: _, _ | _ :: _, [], _ => by
    simp only [renameAll, matchAll?]
    exact .none

end

mutual

/-- An instance depends on what the names are bound to, and not on the names. -/
theorem instantiate_rename {s s' : String → Option Term} : (q : Term) →
    (∀ x ∈ q.vars, s' (ρ x) = s x ∧ (s x).isSome = true) →
    (q.rename ρ).instantiate s' = q.instantiate s
  | .const _, _ => rfl
  | .var x, h => by
    obtain ⟨hx, hsome⟩ := h x (by simp [vars])
    obtain ⟨u, hu⟩ := Option.isSome_iff_exists.mp hsome
    rw [rename, instantiate, instantiate, hx, hu, Option.getD_some, Option.getD_some]
  | .app f args, h => by
    rw [rename, instantiate, instantiate, instantiateAll_renameAll args h]

theorem instantiateAll_renameAll {s s' : String → Option Term} : (qs : List Term) →
    (∀ x ∈ varsAll qs, s' (ρ x) = s x ∧ (s x).isSome = true) →
    instantiateAll s' (renameAll ρ qs) = instantiateAll s qs
  | [], _ => rfl
  | q :: qs, h => by
    rw [varsAll, List.forall_mem_append] at h
    rw [renameAll, instantiateAll, instantiateAll, instantiate_rename q h.1,
      instantiateAll_renameAll qs h.2]

end

end Term

namespace Rule

/-- The rule with new names for its variables. -/
def rename (rule : Rule) (ρ : String → String) : Rule where
  pattern := rule.pattern.rename ρ
  replacement := rule.replacement.rename ρ
  name := rule.name
  closed := by
    rw [Term.vars_rename, Term.vars_rename]
    exact List.map_subset ρ rule.closed

variable {rule : Rule}

theorem contract?_rename (hρ : Set.InjOn ρ {x | x ∈ rule.pattern.vars}) (t : Term) :
    (rule.rename ρ).contract? t = rule.contract? t := by
  have hempty : Bindings.Renamed ρ rule.pattern.vars ∅ ∅ := fun x _ => rfl
  have hmatch := Term.matchWith?_rename hρ hempty rule.pattern t fun x hx => hx
  have htotal : ∀ b, rule.pattern.matchWith? t ∅ = some b →
      ∀ x ∈ rule.pattern.vars, (b.find? x).isSome = true :=
    fun b hb => (Term.fits_of_matchWith? hb).total
  change ((rule.pattern.rename ρ).matchWith? t ∅).map
      (fun b => (rule.replacement.rename ρ).instantiate b.find?) =
    (rule.pattern.matchWith? t ∅).map fun b => rule.replacement.instantiate b.find?
  generalize rule.pattern.matchWith? t ∅ = found at hmatch htotal
  generalize (rule.pattern.rename ρ).matchWith? t ∅ = found' at hmatch
  cases hmatch with
  | none => rfl
  | @some b b' hb =>
    refine congrArg some (Term.instantiate_rename rule.replacement fun x hx => ?_)
    have hpattern := rule.closed x hx
    exact ⟨hb x hpattern, htotal b rfl x hpattern⟩

/-- With new names for its variables a rule makes the same step, replaces nothing, or refuses the
depth, as it does with the old ones. -/
theorem reduct_rename (hρ : Set.InjOn ρ {x | x ∈ rule.pattern.vars}) (t : Term) (depth : Int) :
    (∃ r, rule.reduct t depth = .ok r ∧ (rule.rename ρ).reduct t depth = .ok r) ∨
    (∃ d, rule.reduct t depth = .error (.noMatch rule d) ∧
      (rule.rename ρ).reduct t depth = .error (.noMatch (rule.rename ρ) d)) ∨
    (depth < 0 ∧ rule.reduct t depth = .error (.negativeDepth depth) ∧
      (rule.rename ρ).reduct t depth = .error (.negativeDepth depth)) := by
  rcases Int.lt_or_le depth 0 with hneg | hdepth
  · refine Or.inr (Or.inr ⟨hneg, ?_, ?_⟩) <;> rw [reduct, checkedDepth, if_pos hneg] <;> rfl
  · obtain ⟨d, rfl⟩ := Int.eq_ofNat_of_zero_le hdepth
    rw [reduct_natCast, reduct_natCast, reduct?_congr (contract?_rename hρ)]
    cases rule.reduct? t d with
    | none => exact Or.inr (Or.inl ⟨d, rfl, rfl⟩)
    | some r => exact Or.inl ⟨r, rfl, rfl⟩

/-- The names `x` and `y` change places, while the expression binds `x` to `y`, and `y` to a term
with both in it. -/
theorem reduct_rename_exchanged :
    let rule : Rule :=
      { pattern := .app "pair" [.var "x", .app "s" [.var "y"]]
        replacement := .app "pair" [.app "s" [.var "y"], .var "x"], closed := by decide }
    let ρ : String → String := fun x => if x = "x" then "y" else "x"
    let t := Term.app "pair" [.var "y", .app "s" [.app "f" [.var "x", .var "y"]]]
    Set.InjOn ρ {x | x ∈ rule.pattern.vars} ∧
      ∃ r, rule.reduct t 0 = .ok r ∧ (rule.rename ρ).reduct t 0 = .ok r := by
  intro rule ρ t
  have hρ : Set.InjOn ρ {x | x ∈ rule.pattern.vars} := by
    have hall : ∀ x ∈ rule.pattern.vars, ∀ y ∈ rule.pattern.vars, ρ x = ρ y → x = y := by decide
    exact fun x hx y hy => hall x hx y hy
  have hfound : (t.matchesAt rule.pattern 0).isEmpty = false := by decide +kernel
  refine ⟨hρ, ?_⟩
  rcases reduct_rename hρ t 0 with hok | ⟨d, hfail, -⟩ | ⟨hneg, -⟩
  · exact hok
  · rw [show (0 : Int) = (0 : Nat) from rfl, reduct_natCast, reduct?, hfound] at hfail
    cases hfail
  · exact absurd hneg (by decide)

end Rule

end Stepwise
