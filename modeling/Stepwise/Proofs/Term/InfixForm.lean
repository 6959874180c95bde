import Stepwise.Interpreter.Display
import Stepwise.Proofs.Term.Operands

namespace Stepwise

/-- Functors that operators stand for are written without their letters. -/
def letters (cs : List Char) : Nat := cs.countP Token.isLetter

/-- The letters of several texts together. -/
def lettersOf (parts : List (List Char)) : Nat := (parts.map letters).sum

theorem letters_append (cs ds : List Char) : letters (cs ++ ds) = letters cs + letters ds :=
  List.countP_append

theorem letters_cons_of_not {c : Char} (h : Token.isLetter c = false) (cs : List Char) :
    letters (c :: cs) = letters cs :=
  List.countP_cons_of_neg (by simp [h])

theorem lettersOf_cons (cs : List Char) (parts : List (List Char)) :
    lettersOf (cs :: parts) = letters cs + lettersOf parts := rfl

theorem letters_intercalate {separator : List Char} (h : letters separator = 0)
    (parts : List (List Char)) : letters (separator.intercalate parts) = lettersOf parts := by
  induction parts with
  | nil => rfl
  | cons cs parts ih =>
    cases parts with
    | nil => simp [lettersOf]
    | cons ds parts =>
      rw [List.intercalate_cons_cons, letters_append, letters_append, ih, h, Nat.add_zero,
        lettersOf_cons cs]

theorem letters_writtenCall (f : String) (parts : List (List Char)) :
    letters (writtenCall f parts) = letters f.toList + lettersOf parts := by
  have hparts : letters (commaSeparated parts) = lettersOf parts :=
    letters_intercalate (by decide) parts
  rw [writtenCall, List.append_assoc, letters_append, List.cons_append,
    letters_cons_of_not (by decide), letters_append, hparts]
  rfl

theorem letters_wrapped (b : Bool) (cs : List Char) : letters (wrapped b cs) = letters cs := by
  cases b with
  | false => rfl
  | true =>
    rw [wrapped, if_pos rfl, List.cons_append, letters_cons_of_not (by decide), letters_append]
    rfl

theorem letters_separatorText (shape : Option InfixShape) : letters (separatorText shape) = 0 := by
  obtain _ | _ | _ | o := shape
  · decide
  · decide
  · decide
  · cases o <;> decide

theorem lettersOf_operands (shape : Option InfixShape) (ps : List (Term × List Char)) :
    lettersOf (operands (operandText shape) ps) = lettersOf (ps.map Prod.snd) := by
  cases ps with
  | nil => rfl
  | cons p ps => simp [lettersOf, operands, operandText, letters_wrapped, Function.comp_def]

/-- The operators of a layout have no letters, and its parentheses have none. -/
theorem letters_layoutInfix {f : String} {ps : List (Term × List Char)} {shape : InfixShape}
    (h : infixShape? f ps.length = some shape) :
    letters (layoutInfix f ps) = lettersOf (ps.map Prod.snd) := by
  have hopening : letters (openingText f (some shape)) = 0 := by cases shape <;> rfl
  rw [layoutInfix_eq, h, closingText, List.append_nil, letters_append, hopening, Nat.zero_add,
    letters_intercalate (letters_separatorText _), lettersOf_operands]

theorem letters_pos_of_infixShape? {f : String} {n : Nat} {shape : InfixShape}
    (h : infixShape? f n = some shape) : 0 < letters f.toList := by
  rcases infixShape?_cases h with ⟨o, -, -, rfl, -⟩ | ⟨-, rfl, -⟩ | ⟨-, rfl, -⟩
  · cases o <;> decide
  · decide
  · decide

namespace Term

theorem writtenInfix_app (f : String) (args : List Term) : (app f args).writtenInfix =
    layoutInfix f (args.map fun t => (t, t.writtenInfix)) := by
  rw [writtenInfix, zip_writtenInfixAll]

theorem written_app (f : String) (args : List Term) :
    (app f args).written = writtenCall f (args.map written) := by
  rw [written, writtenAll_eq_map]

theorem writtenInfix_of_no_shape {f : String} {args : List Term}
    (h : infixShape? f args.length = none) :
    (app f args).writtenInfix = writtenCall f (args.map writtenInfix) := by
  rw [writtenInfix_app]
  unfold layoutInfix
  rw [List.length_map, h, List.map_map]
  rfl

mutual

/-- The form with operators has no more letters than the functor form, and fewer if an operator is
written. -/
theorem letters_writtenInfix : (t : Term) → letters t.writtenInfix ≤ letters t.written ∧
    (t.hasInfix = true → letters t.writtenInfix < letters t.written)
  | .const _ | .var _ => ⟨Nat.le_refl _, nofun⟩
  | .app f args => by
    obtain ⟨hle, hlt⟩ := lettersOf_writtenInfix args
    rw [written_app, letters_writtenCall]
    cases hshape : infixShape? f args.length with
    | none =>
      rw [writtenInfix_of_no_shape hshape, letters_writtenCall]
      refine ⟨Nat.add_le_add_left hle _, fun h => Nat.add_lt_add_left (hlt ?_) _⟩
      rwa [hasInfix, hshape] at h
    | some shape =>
      have hpos := letters_pos_of_infixShape? hshape
      have hlayout : letters (app f args).writtenInfix = lettersOf (args.map writtenInfix) := by
        rw [writtenInfix_app, letters_layoutInfix (by rwa [List.length_map]), List.map_map]
        rfl
      omega

theorem lettersOf_writtenInfix : (ts : List Term) →
    lettersOf (ts.map writtenInfix) ≤ lettersOf (ts.map written) ∧
      (anyHasInfix ts = true → lettersOf (ts.map writtenInfix) < lettersOf (ts.map written))
  | [] => ⟨Nat.le_refl _, nofun⟩
  | t :: ts => by
    obtain ⟨hle, hlt⟩ := letters_writtenInfix t
    obtain ⟨hles, hlts⟩ := lettersOf_writtenInfix ts
    rw [List.map_cons, List.map_cons, lettersOf_cons, lettersOf_cons, anyHasInfix, Bool.or_eq_true]
    refine ⟨Nat.add_le_add hle hles, ?_⟩
    rintro (h | h)
    · exact Nat.add_lt_add_of_lt_of_le (hlt h) hles
    · exact Nat.add_lt_add_of_le_of_lt hle (hlts h)

end

mutual

/-- Without operators both forms are the same. -/
theorem writtenInfix_of_not_hasInfix :
    (t : Term) → t.hasInfix = false → t.writtenInfix = t.written
  | .const _, _ | .var _, _ => rfl
  | .app f args, h => by
    rw [hasInfix, Bool.or_eq_false_iff, Option.isSome_eq_false_iff, Option.isNone_iff_eq_none] at h
    rw [writtenInfix_of_no_shape h.1, map_writtenInfix_of_not_hasInfix args h.2, written_app]

theorem map_writtenInfix_of_not_hasInfix :
    (ts : List Term) → anyHasInfix ts = false → ts.map writtenInfix = ts.map written
  | [], _ => rfl
  | t :: ts, h => by
    rw [anyHasInfix, Bool.or_eq_false_iff] at h
    rw [List.map_cons, List.map_cons, writtenInfix_of_not_hasInfix t h.1,
      map_writtenInfix_of_not_hasInfix ts h.2]

end

theorem hasInfix_iff_ne {t : Term} : t.hasInfix = true ↔ t.renderInfix ≠ t.render := by
  have hforms : t.renderInfix = t.render ↔ t.writtenInfix = t.written := String.ofList_inj
  rw [ne_eq, hforms]
  constructor
  · intro h hsame
    have hlt := (letters_writtenInfix t).2 h
    rw [hsame] at hlt
    exact Nat.lt_irrefl _ hlt
  · intro h
    rw [← Bool.not_eq_false]
    exact fun hinfix => h (writtenInfix_of_not_hasInfix t hinfix)

end Term

/-- A term is written with an operator somewhere if and only if its two forms differ, so the functor
form is added to the form with operators exactly where it says something else. -/
theorem functorForm_shown_iff_differs (t : Term) :
    (t.hasInfix = true ↔ t.renderInfix ≠ t.render) ∧
    ∀ title : String, Display.operators.present title t =
      if t.renderInfix = t.render then title ++ t.renderInfix
      else title ++ t.renderInfix ++ "\n" ++ String.ofList (List.replicate title.length ' ') ++
        "As functor: " ++ t.render := by
  refine ⟨Term.hasInfix_iff_ne, ?_⟩
  intro title
  by_cases h : t.renderInfix = t.render
  · have hinfix : ¬ t.hasInfix = true := fun hinfix => Term.hasInfix_iff_ne.mp hinfix h
    rw [if_pos h, Display.present, if_neg hinfix]
  · rw [if_neg h, Display.present, if_pos (Term.hasInfix_iff_ne.mpr h)]

end Stepwise
