import Stepwise.Proofs.Term.Equality

namespace Stepwise

section Lists

variable {α β : Type}

/-- The first operand is treated apart from the others. -/
def operands (f : Bool → α → β) : List α → List β
  | [] => []
  | a :: as => f true a :: as.map (f false)

theorem operands_append (f : Bool → α → β) (l : List α) (a : α) (r : List α) :
    operands f (l ++ a :: r) = operands f l ++ f l.isEmpty a :: r.map (f false) := by
  cases l with
  | nil => rfl
  | cons b l => simp [operands]

theorem operands_map {γ : Type} (f : Bool → β → γ) (g : α → β) (l : List α) :
    operands f (l.map g) = operands (fun first a => f first (g a)) l := by
  cases l with
  | nil => rfl
  | cons a l => simp [operands, Function.comp_def]

theorem mem_operands {f : Bool → α → β} {l : List α} {b : β} (h : b ∈ operands f l) :
    ∃ first, ∃ a ∈ l, f first a = b := by
  cases l with
  | nil => cases h
  | cons a l =>
    rcases List.mem_cons.mp h with rfl | h
    · exact ⟨true, a, by simp, rfl⟩
    · obtain ⟨a', ha', rfl⟩ := List.mem_map.mp h
      exact ⟨false, a', by simp [ha'], rfl⟩

theorem forall₂_operands {γ : Type} {R : β → γ → Prop} {f : Bool → α → β} {g : Bool → α → γ}
    {l : List α} (h : ∀ first, ∀ a ∈ l, R (f first a) (g first a)) :
    List.Forall₂ R (operands f l) (operands g l) := by
  cases l with
  | nil => exact .nil
  | cons a l =>
    refine .cons (h true a (by simp)) ?_
    rw [List.forall₂_map_left_iff, List.forall₂_map_right_iff, List.forall₂_same]
    exact fun b hb => h false b (by simp [hb])

theorem operands_congr {f : Bool → α → β} {l l' : List α}
    (h : List.Forall₂ (fun a b => ∀ first, f first a = f first b) l l') :
    operands f l = operands f l' := by
  cases h with
  | nil => rfl
  | cons hfirst hrest =>
    rw [operands, operands, hfirst, map_eq_of_forall₂ (hrest.imp fun _ _ hab => hab false)]

/-- What is between separators, taken apart at one of its parts. -/
theorem intercalate_append (separator x : List α) (ls rs : List (List α)) :
    separator.intercalate (ls ++ x :: rs) =
      ls.flatMap (· ++ separator) ++ x ++ rs.flatMap (separator ++ ·) := by
  induction ls with
  | nil =>
    induction rs generalizing x with
    | nil => simp
    | cons y rs ih =>
      have hrest := ih y
      simp only [List.nil_append] at hrest
      simp [List.intercalate_cons_cons, hrest]
  | cons l ls ih =>
    cases ls with
    | nil =>
      simp only [List.nil_append] at ih
      simp [List.intercalate_cons_cons, ih]
    | cons l' ls =>
      simp only [List.cons_append] at ih ⊢
      simp [List.intercalate_cons_cons, ih]

end Lists

/-- Whether the operand of an application, the first or a later one, is in parentheses. -/
abbrev Grouping := Option InfixShape → Bool → Term → Bool

namespace InfixShape

/-- The operator that is written. -/
def operator : InfixShape → Operator
  | .negation => .sub
  | .power => .pow
  | .chain o => o

/-- Whether the operand, the first or a later one, is printed in parentheses. -/
def wraps (shape : InfixShape) (first : Bool) (operand : Term) : Bool :=
  match shape, first with
  | .negation, _ => operand.precedence < 4 || operand.isConstant
  | .power, true => operand.precedence ≤ 4
  | .power, false => operand.precedence < 3
  | .chain o, true => operand.precedence < shape.precedence || operand.isRunOf o
  | .chain _, false => operand.precedence ≤ shape.precedence

end InfixShape

/-- The arguments of a call have no parentheses of their own. -/
def printed : Grouping := fun shape first operand => shape.any (·.wraps first operand)

/-- What stands in front of the first operand, by how the application is written. -/
def openingText (functor : String) : Option InfixShape → List Char
  | none => functor.toList ++ ['(']
  | some .negation => ['-']
  | some _ => []

def separatorText : Option InfixShape → List Char
  | none => [',', ' ']
  | some (.chain o) => spaced o
  | some shape => [shape.operator.symbol]

def closingText : Option InfixShape → List Char
  | none => [')']
  | some _ => []

/-- The written operand as it stands in the text. -/
def operandText (shape : Option InfixShape) (first : Bool) (operand : Term × List Char) :
    List Char :=
  wrapped (printed shape first operand.1) operand.2

theorem layoutInfix_eq (f : String) (args : List (Term × List Char)) :
    layoutInfix f args = openingText f (infixShape? f args.length) ++
      (separatorText (infixShape? f args.length)).intercalate
        (operands (operandText (infixShape? f args.length)) args) ++
      closingText (infixShape? f args.length) := by
  unfold layoutInfix
  cases hshape : infixShape? f args.length with
  | none =>
    have hcall : operands (operandText none) args = args.map Prod.snd := by
      cases args <;> simp [operands, operandText, printed, wrapped]
    simp [hcall, openingText, closingText, separatorText, writtenCall, commaSeparated]
  | some shape =>
    rcases infixShape?_cases hshape with ⟨o, ho, rfl, -, hlen, -⟩ | ⟨rfl, -, hlen⟩ | ⟨rfl, -, hlen⟩
    · obtain _ | ⟨⟨t, first⟩, rest⟩ := args
      · simp at hlen
      have hsplit := intercalate_append (spaced o) (operandText (some (.chain o)) true (t, first))
        [] (rest.map (operandText (some (.chain o)) false))
      simp only [List.nil_append, List.flatMap_nil, List.flatMap_map] at hsplit
      simp only [operands, openingText, closingText, separatorText, hsplit, List.nil_append,
        List.append_nil]
      rfl
    · obtain ⟨b, e, rfl⟩ := List.length_eq_two.mp hlen
      simp [operands, openingText, closingText, separatorText, InfixShape.operator, operandText,
        printed, InfixShape.wraps, Operator.symbol, List.intercalate_cons_cons]
    · obtain ⟨t, rfl⟩ := List.length_eq_one_iff.mp hlen
      simp [operands, openingText, closingText, operandText, printed, InfixShape.wraps]

namespace Term

/-- An operand with its infix form. -/
def withInfix (t : Term) : Term × List Char := (t, t.writtenInfix)

end Term

/-- The text in front of an operand of an application, behind those that come before it. -/
def frontText (functor : String) (shape : Option InfixShape) (before : List Term) : List Char :=
  openingText functor shape ++
    (operands (operandText shape) (before.map Term.withInfix)).flatMap (· ++ separatorText shape)

/-- The text behind an operand of an application, in front of those that come after it. -/
def backText (shape : Option InfixShape) (after : List Term) : List Char :=
  (after.map fun t => operandText shape false t.withInfix).flatMap (separatorText shape ++ ·) ++
    closingText shape

/-- The application is laid out around any of its operands, however that is written. -/
theorem layoutInfix_append {f : String} {l r : List Term} {a : Term} {text : List Char}
    {shape : Option InfixShape} (h : infixShape? f (l ++ a :: r).length = shape) :
    layoutInfix f (l.map Term.withInfix ++ (a, text) :: r.map Term.withInfix) =
      frontText f shape l ++ operandText shape l.isEmpty (a, text) ++ backText shape r := by
  have hlength : (l.map Term.withInfix ++ (a, text) :: r.map Term.withInfix).length =
      (l ++ a :: r).length := by simp
  rw [layoutInfix_eq, hlength, h, operands_append, intercalate_append]
  simp [frontText, backText, Function.comp_def]

theorem writtenInfix_append {f : String} {l r : List Term} {a : Term}
    {shape : Option InfixShape} (h : infixShape? f (l ++ a :: r).length = shape) :
    (Term.app f (l ++ a :: r)).writtenInfix =
      frontText f shape l ++ operandText shape l.isEmpty a.withInfix ++ backText shape r := by
  rw [Term.writtenInfix, Term.zip_writtenInfixAll]
  have hmap : (l ++ a :: r).map (fun t => (t, t.writtenInfix)) =
      l.map Term.withInfix ++ (a, a.writtenInfix) :: r.map Term.withInfix := List.map_append
  rw [hmap, layoutInfix_append h]
  rfl

end Stepwise
