import Stepwise.Proofs.Rule.Reduction
import Stepwise.Proofs.Language.FunctorRoundTrip

namespace Stepwise

/-- Everything that is bound has a text. -/
def Bindings.IsPrintable (b : Bindings) : Prop :=
  ∀ x u, b.find? x = some u → u.isPrintable = true

namespace Term

mutual

theorem isPrintable_of_matchWith? {b b' : Bindings} : (p t : Term) → p.matchWith? t b = some b' →
    t.isPrintable = true → b.IsPrintable → b'.IsPrintable
  | .var x, t, h, ht, hb => by
    rw [matchWith?] at h
    split at h
    · cases h
      intro y u hu
      rw [Table.find?_put] at hu
      split at hu
      · cases hu
        exact ht
      · exact hb y u hu
    · simp only [Option.ite_none_right_eq_some, Option.some.injEq] at h
      exact h.2 ▸ hb
  | .const a, .const c, h, _, hb => by
    simp only [matchWith?, Option.ite_none_right_eq_some, Option.some.injEq] at h
    exact h.2 ▸ hb
  | .app f ps, .app g ts, h, ht, hb => by
    simp only [matchWith?, Option.ite_none_right_eq_some] at h
    rw [isPrintable, Bool.and_eq_true] at ht
    exact isPrintable_of_matchAll? ps ts h.2 ht.2 hb
  | .const _, .var _, h, _, _ | .const _, .app _ _, h, _, _ | .app _ _, .const _, h, _, _
  | .app _ _, .var _, h, _, _ => by simp [matchWith?] at h

theorem isPrintable_of_matchAll? {b b' : Bindings} : (ps ts : List Term) →
    matchAll? ps ts b = some b' → allPrintable ts = true → b.IsPrintable → b'.IsPrintable
  | [], [], h, _, hb => by
    rw [matchAll?, Option.some.injEq] at h
    exact h ▸ hb
  | p :: ps, t :: ts, h, ht, hb => by
    rw [matchAll?] at h
    rw [allPrintable, Bool.and_eq_true] at ht
    split at h
    · rename_i hp
      exact isPrintable_of_matchAll? ps ts h ht.2 (isPrintable_of_matchWith? p t hp ht.1 hb)
    · cases h
  | [], _ :: _, h, _, _ | _ :: _, [], h, _, _ => by simp [matchAll?] at h

end

mutual

theorem isPrintable_instantiate {b : Bindings} (hb : b.IsPrintable) : (t : Term) → t.isPrintable = true →
    (t.instantiate b.find?).isPrintable = true
  | .const _, h => h
  | .var x, h => by
    rw [instantiate]
    cases hx : b.find? x with
    | none => exact h
    | some u => exact hb x u hx
  | .app f args, h => by
    rw [isPrintable, Bool.and_eq_true] at h
    rw [instantiate, isPrintable, h.1, allPrintable_instantiateAll hb args h.2, Bool.and_self]

theorem allPrintable_instantiateAll {b : Bindings} (hb : b.IsPrintable) : (ts : List Term) →
    allPrintable ts = true → allPrintable (instantiateAll b.find? ts) = true
  | [], _ => rfl
  | t :: ts, h => by
    rw [allPrintable, Bool.and_eq_true] at h
    rw [instantiateAll, allPrintable, isPrintable_instantiate hb t h.1,
      allPrintable_instantiateAll hb ts h.2, Bool.and_self]

end

theorem allPrintable_iff {ts : List Term} :
    allPrintable ts = true ↔ ∀ t ∈ ts, t.isPrintable = true := by
  induction ts with
  | nil => simp [allPrintable]
  | cons t ts ih => rw [allPrintable, Bool.and_eq_true, List.forall_mem_cons, ih]

end Term

namespace Rule

variable {rule : Rule} {t u : Term}

theorem isPrintable_of_contract? (hrule : rule.IsPrintable) (ht : t.isPrintable = true)
    (h : rule.contract? t = some u) : u.isPrintable = true := by
  obtain ⟨b, hmatch, rfl⟩ := Option.map_eq_some_iff.mp h
  have hempty : Bindings.IsPrintable ∅ := by
    intro x u hu
    cases hu
  have hb := Term.isPrintable_of_matchWith? rule.pattern t hmatch ht hempty
  exact Term.isPrintable_instantiate hb rule.replacement hrule.2

/-- Induction on the depth: only the sub-terms there are replaced. -/
theorem isPrintable_rewriteAt (hrule : rule.IsPrintable) (d : Nat) (ht : t.isPrintable = true) :
    (rule.rewriteAt d t).isPrintable = true := by
  induction d generalizing t with
  | zero =>
    rw [rewriteAt]
    cases h : rule.contract? t with
    | none => exact ht
    | some u => exact isPrintable_of_contract? hrule ht h
  | succ d ih =>
    cases t with
    | const a => exact ht
    | var x => exact ht
    | app f args =>
      rw [Term.isPrintable, Bool.and_eq_true, Term.allPrintable_iff] at ht
      rw [rewriteAt, Term.isPrintable, Bool.and_eq_true, Term.allPrintable_iff]
      refine ⟨ht.1, fun u hu => ?_⟩
      obtain ⟨a, ha, rfl⟩ := List.mem_map.mp hu
      exact ih (ht.2 a ha)

theorem isPrintable_reduct {depth : Int} {r : Reduct} (hrule : rule.IsPrintable)
    (ht : t.isPrintable = true) (h : rule.reduct t depth = .ok r) : r.term.isPrintable = true := by
  obtain ⟨d, path, -, -, rfl⟩ := exists_applies_of_reduct h
  exact isPrintable_rewriteAt hrule d ht

end Rule

end Stepwise
