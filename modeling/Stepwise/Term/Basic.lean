import Stepwise.Number.Basic

namespace Stepwise

/-- A numeric constant, a variable, or a functor applied to any number of arguments. -/
inductive Term
  | const (value : Number)
  | var (name : String)
  | app (functor : String) (args : List Term)

instance : Inhabited Term := ⟨.var "x"⟩

namespace Term

mutual

/-- Two terms are equal when they have the same shape and names and their constants are the same
numbers; `f(2)` equals `f(2.0)`, though each keeps the constant it was built with. -/
def same : Term → Term → Bool
  | .const a, .const b => a.same b
  | .var x, .var y => x == y
  | .app f as, .app g bs => f == g && sameAll as bs
  | _, _ => false

def sameAll : List Term → List Term → Bool
  | [], [] => true
  | a :: as, b :: bs => same a b && sameAll as bs
  | _, _ => false

end

instance : BEq Term := ⟨same⟩

mutual

theorem same_refl : (t : Term) → t.same t = true
  | .const a => by simp [same, Number.same]
  | .var x => by simp [same]
  | .app f args => by simp [same, sameAll_refl args]

theorem sameAll_refl : (ts : List Term) → sameAll ts ts = true
  | [] => by simp [sameAll]
  | t :: ts => by simp [sameAll, same_refl t, sameAll_refl ts]

end

mutual

theorem same_symm : (t u : Term) → t.same u = true → u.same t = true
  | .const a, .const b, h => by
    simp only [same, Number.same_iff] at h ⊢
    exact h.symm
  | .var x, .var y, h => by
    simp only [same, beq_iff_eq] at h ⊢
    exact h.symm
  | .app f ts, .app g us, h => by
    simp only [same, Bool.and_eq_true, beq_iff_eq] at h ⊢
    exact ⟨h.1.symm, sameAll_symm ts us h.2⟩
  | .const _, .var _, h | .const _, .app _ _, h | .var _, .const _, h | .var _, .app _ _, h
  | .app _ _, .const _, h | .app _ _, .var _, h => by simp [same] at h

theorem sameAll_symm : (ts us : List Term) → sameAll ts us = true → sameAll us ts = true
  | [], [], _ => rfl
  | [], _ :: _, h | _ :: _, [], h => by simp [sameAll] at h
  | t :: ts, u :: us, h => by
    simp only [sameAll, Bool.and_eq_true] at h ⊢
    exact ⟨same_symm t u h.1, sameAll_symm ts us h.2⟩

end

mutual

theorem same_trans : (t u v : Term) → t.same u = true → u.same v = true → t.same v = true
  | .const a, .const b, .const c, h, k => by
    simp only [same, Number.same_iff] at h k ⊢
    exact h.trans k
  | .var x, .var y, .var z, h, k => by
    simp only [same, beq_iff_eq] at h k ⊢
    exact h.trans k
  | .app f ts, .app g us, .app i vs, h, k => by
    simp only [same, Bool.and_eq_true, beq_iff_eq] at h k ⊢
    exact ⟨h.1.trans k.1, sameAll_trans ts us vs h.2 k.2⟩
  | .const _, .var _, _, h, _ | .const _, .app _ _, _, h, _ | .var _, .const _, _, h, _
  | .var _, .app _ _, _, h, _ | .app _ _, .const _, _, h, _ | .app _ _, .var _, _, h, _ => by
    simp [same] at h
  | _, .const _, .var _, _, k | _, .const _, .app _ _, _, k | _, .var _, .const _, _, k
  | _, .var _, .app _ _, _, k | _, .app _ _, .const _, _, k | _, .app _ _, .var _, _, k => by
    simp [same] at k

theorem sameAll_trans :
    (ts us vs : List Term) → sameAll ts us = true → sameAll us vs = true → sameAll ts vs = true
  | [], [], [], _, _ => rfl
  | [], _ :: _, _, h, _ | _ :: _, [], _, h, _ => by simp [sameAll] at h
  | _, [], _ :: _, _, k | _, _ :: _, [], _, k => by simp [sameAll] at k
  | t :: ts, u :: us, v :: vs, h, k => by
    simp only [sameAll, Bool.and_eq_true] at h k ⊢
    exact ⟨same_trans t u v h.1 k.1, sameAll_trans ts us vs h.2 k.2⟩

end

/-- Equality of terms is an equivalence, though equal terms need not be identical. -/
instance : EquivBEq Term where
  rfl := same_refl _
  symm := same_symm _ _
  trans := same_trans _ _ _

mutual

/-- The variables from left to right, each as often as it occurs. -/
def vars : Term → List String
  | .const _ => []
  | .var x => [x]
  | .app _ args => varsAll args

def varsAll : List Term → List String
  | [] => []
  | a :: as => a.vars ++ varsAll as

end

mutual

/-- The depth of the deepest node; atoms and functors without arguments have height 0. -/
def height : Term → Nat
  | .app _ (a :: as) => 1 + heightAll (a :: as)
  | _ => 0

def heightAll : List Term → Nat
  | [] => 0
  | a :: as => max a.height (heightAll as)

end

def isConstant : Term → Bool
  | .const _ => true
  | _ => false

def isVariable : Term → Bool
  | .var _ => true
  | _ => false

def isCompound : Term → Bool
  | .app _ _ => true
  | _ => false

def isAtom (t : Term) : Bool := t.isConstant || t.isVariable

mutual

/-- Replaces each variable that the bindings hold by its term, all at once. -/
def instantiate (bindings : String → Option Term) : Term → Term
  | .const a => .const a
  | .var x => (bindings x).getD (.var x)
  | .app f args => .app f (instantiateAll bindings args)

def instantiateAll (bindings : String → Option Term) : List Term → List Term
  | [] => []
  | a :: as => a.instantiate bindings :: instantiateAll bindings as

end

end Term

/-- Puts a name into an ascending list without repeats. -/
def insertName (name : String) : List String → List String
  | [] => [name]
  | x :: xs =>
    if name = x then x :: xs
    else if name < x then name :: x :: xs
    else x :: insertName name xs

/-- The names in ascending order of their code points, each once. -/
def sortedNames (names : List String) : List String := names.foldr insertName []

end Stepwise
