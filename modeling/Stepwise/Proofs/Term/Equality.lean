import Mathlib.Data.List.Forall2
import Stepwise.Proofs.Language.InfixRoundTrip
import Stepwise.Proofs.Number.Equality
import Stepwise.Proofs.Term.Matching
import Stepwise.Proofs.Term.Position

namespace Stepwise

theorem map_eq_of_forall₂ {α β : Type} {g : α → β} {as bs : List α}
    (h : List.Forall₂ (fun a b => g a = g b) as bs) : as.map g = bs.map g := by
  induction h with
  | nil => rfl
  | cons hfirst _ ih => rw [List.map_cons, List.map_cons, hfirst, ih]

namespace Term

section Induction

variable {motive : (t u : Term) → t.same u = true → Prop}

mutual

/-- Induction on two equal terms at once. -/
theorem same_induction (const : ∀ a b h, motive (.const a) (.const b) h)
    (var : ∀ x h, motive (.var x) (.var x) h)
    (app : ∀ f ts us h, List.Forall₂ (fun t u => ∃ h, motive t u h) ts us →
      motive (.app f ts) (.app f us) h) : {t u : Term} → (h : t.same u = true) → motive t u h
  | .const a, .const b, h => const a b h
  | .var x, .var y, h => by
    obtain rfl : x = y := by rwa [same, beq_iff_eq] at h
    exact var x h
  | .app f ts, .app g us, h => by
    have hparts := h
    rw [same, Bool.and_eq_true, beq_iff_eq] at hparts
    obtain ⟨rfl, hargs⟩ := hparts
    exact app f ts us h (sameAll_induction const var app ts us hargs)
  | .const _, .var _, h | .const _, .app _ _, h | .var _, .const _, h | .var _, .app _ _, h
  | .app _ _, .const _, h | .app _ _, .var _, h => by simp [same] at h

theorem sameAll_induction (const : ∀ a b h, motive (.const a) (.const b) h)
    (var : ∀ x h, motive (.var x) (.var x) h)
    (app : ∀ f ts us h, List.Forall₂ (fun t u => ∃ h, motive t u h) ts us →
      motive (.app f ts) (.app f us) h) :
    (ts us : List Term) → sameAll ts us = true → List.Forall₂ (fun t u => ∃ h, motive t u h) ts us
  | [], [], _ => .nil
  | t :: ts, u :: us, h => by
    rw [sameAll, Bool.and_eq_true] at h
    exact .cons ⟨h.1, same_induction const var app h.1⟩
      (sameAll_induction const var app ts us h.2)
  | [], _ :: _, h | _ :: _, [], h => by simp [sameAll] at h

end

end Induction

theorem sameAll_iff_forall₂ {ts us : List Term} :
    sameAll ts us = true ↔ List.Forall₂ (fun t u => t.same u = true) ts us := by
  induction ts generalizing us with
  | nil => cases us <;> simp [sameAll]
  | cons t ts ih => cases us <;> simp [sameAll, ih]

theorem varsAll_eq_flatMap (ts : List Term) : varsAll ts = ts.flatMap vars := by
  induction ts with
  | nil => rfl
  | cons t ts ih => rw [varsAll, ih, List.flatMap_cons]

theorem writtenAll_eq_map (ts : List Term) : writtenAll ts = ts.map written := by
  induction ts with
  | nil => rfl
  | cons t ts ih => rw [writtenAll, ih, List.map_cons]

variable {t u : Term}

theorem same_cases (h : t.same u = true) :
    (∃ a b, t = .const a ∧ u = .const b ∧ a.same b = true) ∨
    (∃ x, t = .var x ∧ u = .var x) ∨
    ∃ f ts us, t = .app f ts ∧ u = .app f us ∧
      List.Forall₂ (fun t u => t.same u = true) ts us := by
  induction h using same_induction with
  | const a b h => exact Or.inl ⟨a, b, rfl, rfl, h⟩
  | var x h => exact Or.inr (Or.inl ⟨x, rfl, rfl⟩)
  | app f ts us h hargs =>
    exact Or.inr (Or.inr ⟨f, ts, us, rfl, rfl, hargs.imp fun _ _ hpair => hpair.1⟩)

/-- Equal terms have their variables at the same places. -/
theorem vars_of_same (h : t.same u = true) : t.vars = u.vars := by
  induction h using same_induction with
  | const a b h => rfl
  | var x h => rfl
  | app f ts us h hargs =>
    have hvars := map_eq_of_forall₂ (hargs.imp fun _ _ ⟨_, hvars⟩ => hvars)
    rw [vars, vars, varsAll_eq_flatMap, varsAll_eq_flatMap, List.flatMap_def, hvars,
      List.flatMap_def]

theorem written_of_same (h : t.same u = true) : t.written = u.written := by
  induction h using same_induction with
  | const a b h => rw [written, written, Number.text_of_same h]
  | var x h => rfl
  | app f ts us h hargs =>
    have hwritten := map_eq_of_forall₂ (hargs.imp fun _ _ ⟨_, hwritten⟩ => hwritten)
    rw [written, written, writtenAll_eq_map, writtenAll_eq_map, hwritten]

theorem isConstant_of_same (h : t.same u = true) : t.isConstant = u.isConstant := by
  rcases same_cases h with ⟨a, b, rfl, rfl, -⟩ | ⟨x, rfl, rfl⟩ | ⟨f, ts, us, rfl, rfl, -⟩ <;> rfl

theorem precedence_of_same (h : t.same u = true) : t.precedence = u.precedence := by
  rcases same_cases h with ⟨a, b, rfl, rfl, hab⟩ | ⟨x, rfl, rfl⟩ | ⟨f, ts, us, rfl, rfl, hargs⟩
  · rw [precedence, precedence, Number.isNegative_of_same hab]
  · rfl
  · rw [precedence_app, precedence_app, hargs.length_eq]

theorem isRunOf_of_same (h : t.same u = true) (o : Operator) : t.isRunOf o = u.isRunOf o := by
  rcases same_cases h with ⟨a, b, rfl, rfl, -⟩ | ⟨x, rfl, rfl⟩ | ⟨f, ts, us, rfl, rfl, hargs⟩
  · rfl
  · rfl
  · rw [isRunOf, isRunOf, hargs.length_eq]

end Term

/-- Equal operands that are written alike themselves. -/
def WrittenAlike (p q : Term × List Char) : Prop := p.1.same q.1 = true ∧ p.2 = q.2

/-- The layout depends on no more of the operands than equal ones have in common. -/
theorem layoutInfix_congr {f : String} {ps qs : List (Term × List Char)}
    (h : List.Forall₂ WrittenAlike ps qs) : layoutInfix f ps = layoutInfix f qs := by
  have hcall : writtenCall f (ps.map Prod.snd) = writtenCall f (qs.map Prod.snd) := by
    rw [map_eq_of_forall₂ (h.imp fun _ _ hpq => hpq.2)]
  unfold layoutInfix
  rw [h.length_eq]
  cases infixShape? f qs.length with
  | none => exact hcall
  | some shape =>
    cases shape with
    | negation =>
      cases h with
      | nil => exact hcall
      | @cons p q _ _ hpq hrest =>
        cases hrest with
        | nil =>
          simp only [Term.precedence_of_same hpq.1, Term.isConstant_of_same hpq.1, hpq.2]
        | cons _ _ => exact hcall
    | power =>
      cases h with
      | nil => exact hcall
      | @cons p q _ _ hpq hrest =>
        cases hrest with
        | nil => exact hcall
        | @cons p' q' _ _ hpq' hrest =>
          cases hrest with
          | nil =>
            simp only [Term.precedence_of_same hpq.1, hpq.2, Term.precedence_of_same hpq'.1, hpq'.2]
          | cons _ _ => exact hcall
    | chain o =>
      cases h with
      | nil => exact hcall
      | @cons p q ps qs hpq hrest =>
        have hlater := map_eq_of_forall₂
          (g := fun r : Term × List Char => spaced o ++
            wrapped (r.1.precedence ≤ (InfixShape.chain o).precedence) r.2)
          (hrest.imp fun _ _ hr => by simp only [Term.precedence_of_same hr.1, hr.2])
        simp only [Term.precedence_of_same hpq.1, Term.isRunOf_of_same hpq.1, hpq.2]
        rw [List.flatMap_def, List.flatMap_def]
        exact congrArg _ (congrArg List.flatten hlater)

namespace Term

variable {t u : Term}

theorem writtenInfix_of_same (h : t.same u = true) : t.writtenInfix = u.writtenInfix := by
  induction h using same_induction with
  | const a b h => rw [writtenInfix, writtenInfix, Number.text_of_same h]
  | var x h => rfl
  | app f ts us h hargs =>
    rw [writtenInfix, writtenInfix, zip_writtenInfixAll, zip_writtenInfixAll]
    apply layoutInfix_congr
    rw [List.forall₂_map_left_iff, List.forall₂_map_right_iff]
    exact hargs.imp fun _ _ ⟨hsame, hwritten⟩ => ⟨hsame, hwritten⟩

theorem render_of_same (h : t.same u = true) : t.render = u.render := by
  rw [render, render, written_of_same h]

theorem renderInfix_of_same (h : t.same u = true) : t.renderInfix = u.renderInfix := by
  rw [renderInfix, renderInfix, writtenInfix_of_same h]

theorem hasInfix_of_same (h : t.same u = true) : t.hasInfix = u.hasInfix := by
  induction h using same_induction with
  | const a b h => rfl
  | var x h => rfl
  | app f ts us h hargs =>
    have hlength := hargs.length_eq
    have hany : anyHasInfix ts = anyHasInfix us := by
      clear h hlength
      induction hargs with
      | nil => rfl
      | cons hfirst _ ih =>
        obtain ⟨-, hinfix⟩ := hfirst
        rw [anyHasInfix, anyHasInfix, hinfix, ih]
    rw [hasInfix, hasInfix, hlength, hany]

theorem instantiate_of_same {s s' : String → Option Term} (h : t.same u = true)
    (hs : ∀ x ∈ t.vars, ((s x).getD (.var x)).same ((s' x).getD (.var x)) = true) :
    (t.instantiate s).same (u.instantiate s') = true := by
  induction h using same_induction with
  | const a b h => exact h
  | var x h => exact hs x (by simp [vars])
  | app f ts us h hargs =>
    rw [vars] at hs
    rw [instantiate, instantiate, same, beq_self_eq_true, Bool.true_and]
    clear h
    induction hargs with
    | nil => rfl
    | cons hfirst _ ih =>
      obtain ⟨-, hinstance⟩ := hfirst
      rw [varsAll, List.forall_mem_append] at hs
      rw [instantiateAll, instantiateAll, sameAll, Bool.and_eq_true]
      exact ⟨hinstance hs.1, ih hs.2⟩

/-- What makes a pattern equal to a term makes an equal pattern equal to an equal term. -/
theorem Fits.of_same {p p' t t' : Term} (hp : p.same p' = true) (ht : t.same t' = true) {b : Bindings}
    {s : String → Option Term} (h : Fits p t b s) : Fits p' t' b s where
  agrees := h.agrees
  total x hx := h.total x (by rwa [vars_of_same hp])
  equal := by
    have hpatterns : (p'.instantiate s).same (p.instantiate s) = true :=
      instantiate_of_same (same_symm p p' hp) fun x _ => same_refl _
    exact same_trans _ _ _ (same_trans _ _ _ hpatterns h.equal) ht

/-- Equal terms at one path. -/
def SamePlace (p q : Path × Term) : Prop := p.1 = q.1 ∧ p.2.same q.2 = true

theorem forall₂_belowArgument {ps qs : List (Path × Term)} (h : List.Forall₂ SamePlace ps qs)
    (i : Int) : List.Forall₂ SamePlace (belowArgument i ps) (belowArgument i qs) := by
  rw [belowArgument, belowArgument, List.forall₂_map_left_iff, List.forall₂_map_right_iff]
  exact h.imp fun _ _ hpq => ⟨congrArg (i :: ·) hpq.1, hpq.2⟩

theorem forall₂_atDepth (h : t.same u = true) (d : Nat) :
    List.Forall₂ SamePlace (t.atDepth d) (u.atDepth d) := by
  induction d generalizing t u with
  | zero =>
    rw [atDepth_zero, atDepth_zero]
    exact .cons ⟨rfl, h⟩ .nil
  | succ d ih =>
    rcases same_cases h with ⟨a, b, rfl, rfl, -⟩ | ⟨x, rfl, rfl⟩ | ⟨f, ts, us, rfl, rfl, hargs⟩
    · exact .nil
    · exact .nil
    · rw [atDepth_app_succ, atDepth_app_succ]
      clear h
      generalize (0 : Int) = i
      induction hargs generalizing i with
      | nil => exact .nil
      | cons hfirst _ ihargs =>
        exact List.rel_append (forall₂_belowArgument (ih hfirst) i) (ihargs (i + 1))

end Term

end Stepwise
