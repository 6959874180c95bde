import Stepwise.Proofs.Term.Operands

namespace Stepwise

namespace Token.Kind

/-- Whether the token is no parenthesis. -/
def isSolid : Kind → Bool
  | .opening | .closing => false
  | _ => true

/-- A word or a numeral weighs more than a sign, for a call takes a word where the infix form takes
a sign. -/
def weight : Kind → Nat
  | .opening | .closing => 0
  | .number | .name | .keyword _ | .string => 2
  | _ => 1

end Token.Kind

def weigh (ks : List Token.Kind) : Nat := (ks.map Token.Kind.weight).sum

/-- How many parentheses open right in front of each word and sign, if some are open already. -/
def openings : Nat → List Token.Kind → List Nat
  | _, [] => []
  | n, k :: ks =>
    if k = .opening then openings (n + 1) ks
    else if k = .closing then openings 0 ks
    else n :: openings 0 ks

/-- How many parentheses open at the end. -/
def openingsLeft : Nat → List Token.Kind → Nat
  | n, [] => n
  | n, k :: ks => openingsLeft (if k = .opening then n + 1 else 0) ks

/-- In parentheses if need be. -/
def grouped (parentheses : Bool) (ks : List Token.Kind) : List Token.Kind :=
  if parentheses then .opening :: ks ++ [.closing] else ks

/-- Nothing is left open in front of what follows. -/
def Closed (ks : List Token.Kind) : Prop := ∀ n, openingsLeft n ks = 0

section Kinds

variable {n : Nat} {k : Token.Kind} {ks ls : List Token.Kind} {b : Bool}

@[simp] theorem weigh_nil : weigh [] = 0 := rfl

@[simp] theorem weigh_cons : weigh (k :: ks) = k.weight + weigh ks := rfl

@[simp] theorem weigh_append : weigh (ks ++ ls) = weigh ks + weigh ls := by simp [weigh]

@[simp] theorem grouped_false : grouped false ks = ks := rfl

@[simp] theorem weigh_grouped : weigh (grouped b ks) = weigh ks := by
  cases b <;> simp [grouped, Token.Kind.weight]

@[simp] theorem openings_opening : openings n (.opening :: ks) = openings (n + 1) ks := by
  simp [openings]

theorem openings_solid (h : k.isSolid = true) : openings n (k :: ks) = n :: openings 0 ks := by
  cases k with
  | opening | closing => cases h
  | _ => simp [openings]

theorem openings_append :
    openings n (ks ++ ls) = openings n ks ++ openings (openingsLeft n ks) ls := by
  induction ks generalizing n with
  | nil => rfl
  | cons k ks ih =>
    simp only [List.cons_append, openings, openingsLeft]
    split
    · exact ih
    · split
      · exact ih
      · rw [ih, List.cons_append]

theorem openings_grouped : openings n (grouped b ks) = openings (n + b.toNat) ks := by
  cases b with
  | false => rfl
  | true => simp [grouped, openings_append, openings]

theorem openingsLeft_append : openingsLeft n (ks ++ ls) = openingsLeft (openingsLeft n ks) ls := by
  induction ks generalizing n with
  | nil => rfl
  | cons k ks ih => exact ih

theorem Closed.append (h : Closed ls) : Closed (ks ++ ls) := fun n => by
  rw [openingsLeft_append, h]

theorem closed_singleton (h : k ≠ .opening) : Closed [k] := fun n => by simp [openingsLeft, h]

theorem Closed.cons (h : Closed ks) : Closed (k :: ks) :=
  show Closed ([k] ++ ks) from h.append

theorem Closed.grouped (h : Closed ks) : Closed (grouped b ks) := by
  cases b with
  | false => exact h
  | true => exact (closed_singleton (by decide)).append

theorem closed_intercalate {separator : List Token.Kind} {parts : List (List Token.Kind)}
    (hne : parts ≠ []) (h : ∀ ks ∈ parts, Closed ks) : Closed (separator.intercalate parts) := by
  induction parts with
  | nil => exact absurd rfl hne
  | cons ks parts ih =>
    cases parts with
    | nil =>
      rw [List.intercalate_singleton]
      exact h ks (by simp)
    | cons ls parts =>
      rw [List.intercalate_cons_cons]
      exact (ih (by simp) fun ms hms => h ms (by simp [hms])).append

end Kinds

/-- The tokens weigh no less than the fewest, and if no more, then nowhere fewer parentheses open
in front of their words and signs. -/
structure Covers (fewest ks : List Token.Kind) : Prop where
  weight : weigh fewest ≤ weigh ks
  openings : weigh ks ≤ weigh fewest →
    ∀ n, List.Forall₂ (· ≤ ·) (openings n fewest) (openings n ks)

theorem forall₂_openings_of_le {n m : Nat} (h : n ≤ m) {ks : List Token.Kind} {counts : List Nat}
    (hm : List.Forall₂ (· ≤ ·) (openings m ks) counts) :
    List.Forall₂ (· ≤ ·) (openings n ks) counts := by
  induction ks generalizing n m counts with
  | nil => exact hm
  | cons k ks ih =>
    simp only [openings] at hm ⊢
    split at hm
    · rw [if_pos ‹_›]
      exact ih (by omega) hm
    · rw [if_neg ‹_›]
      split at hm
      · rw [if_pos ‹_›]
        exact hm
      · rw [if_neg ‹_›]
        cases hm with
        | cons hcount hrest => exact .cons (h.trans hcount) hrest

namespace Covers

variable {k : Token.Kind} {fewest fewest' ks ls : List Token.Kind} {b b' : Bool}

theorem refl : Covers ks ks := ⟨Nat.le_refl _, fun _ _ => List.forall₂_refl _⟩

/-- What is covered with more parentheses is covered with fewer. -/
theorem of_imp (h : Covers (grouped b fewest) ks) (hb : b' = true → b = true) :
    Covers (grouped b' fewest) ks := by
  have hle : b'.toNat ≤ b.toNat := by
    cases b' with
    | false => exact Nat.zero_le _
    | true => rw [hb rfl]
  refine ⟨by simpa using h.weight, fun hweight n => ?_⟩
  have hopenings := h.openings (by simpa using hweight) n
  rw [openings_grouped] at hopenings ⊢
  exact forall₂_openings_of_le (by omega) hopenings

theorem ungrouped (h : Covers (grouped b fewest) ks) : Covers fewest ks := by
  have hfewest : Covers (grouped false fewest) ks := h.of_imp nofun
  exact hfewest

theorem group (h : Covers fewest ks) :
    Covers (grouped true fewest) (.opening :: (ks ++ [.closing])) := by
  have hks : .opening :: (ks ++ [.closing]) = grouped true ks := rfl
  rw [hks]
  refine ⟨by simpa using h.weight, fun hweight n => ?_⟩
  rw [openings_grouped, openings_grouped]
  exact h.openings (by simpa using hweight) _

/-- With the same sign between them. -/
theorem join (h : Covers fewest ks) (h' : Covers fewest' ls) (solid : k.isSolid = true)
    (closed : Closed fewest) (closed' : Closed ks) :
    Covers (fewest ++ k :: fewest') (ks ++ k :: ls) := by
  have hweight := h.weight
  have hweight' := h'.weight
  constructor
  · simp only [weigh_append, weigh_cons]
    omega
  · intro hle n
    simp only [weigh_append, weigh_cons] at hle
    simp only [openings_append, closed n, closed' n, openings_solid solid]
    exact List.rel_append (h.openings (by omega) n)
      (.cons (Nat.le_refl 0) (h'.openings (by omega) 0))

/-- With a sign or a word in front. -/
theorem cons {k' : Token.Kind} (h : Covers fewest ks) (weight : k.weight = k'.weight)
    (solid : k.isSolid = true) (solid' : k'.isSolid = true) : Covers (k :: fewest) (k' :: ks) := by
  refine ⟨by simpa [weight] using h.weight, fun hle n => ?_⟩
  rw [openings_solid solid, openings_solid solid']
  exact .cons (Nat.le_refl n) (h.openings (by simpa [weight] using hle) 0)

theorem of_lt (h : weigh fewest < weigh ks) : Covers fewest ks :=
  ⟨h.le, fun hle => absurd h hle.not_gt⟩

end Covers

/-- The tokens in front of the first operand of an application. -/
def openingKinds (functor : String) : Option InfixShape → List Token.Kind
  | none => [Token.wordKind functor.toList, .opening]
  | some .negation => [.operator .sub]
  | some _ => []

def separatorKind : Option InfixShape → Token.Kind
  | none => .comma
  | some shape => .operator shape.operator

def closingKinds : Option InfixShape → List Token.Kind
  | none => [.closing]
  | some _ => []

/-- The tokens of an operand as it stands in an application. -/
def operandKinds (groups : Grouping) (shape : Option InfixShape) (first : Bool)
    (operand : Term × List Token.Kind) : List Token.Kind :=
  grouped (groups shape first operand.1) operand.2

/-- The tokens of an application whose operands have these tokens. -/
def layoutKinds (groups : Grouping) (functor : String) (args : List (Term × List Token.Kind)) :
    List Token.Kind :=
  let shape := infixShape? functor args.length
  openingKinds functor shape ++
    [separatorKind shape].intercalate (operands (operandKinds groups shape) args) ++
    closingKinds shape

/-- The parentheses that are needed: all that are printed, but for those around a negation or a
negative constant that is negated. -/
def needed : Grouping := fun shape first operand =>
  printed shape first operand && !(shape == some .negation && operand.precedence == 3)

namespace Term

mutual

/-- The kinds of the tokens of the term's infix form, with these operands in parentheses. -/
def kinds (groups : Grouping) : Term → List Token.Kind
  | .const a => if a.isNegative then [.operator .sub, .number] else [.number]
  | .var _ => [.name]
  | .app f args => layoutKinds groups f (args.zip (kindsAll groups args))

def kindsAll (groups : Grouping) : List Term → List (List Token.Kind)
  | [] => []
  | t :: ts => t.kinds groups :: kindsAll groups ts

end

variable {groups : Grouping} {f : String} {args : List Term} {t u : Term} {o : Operator}

/-- An operand with its tokens. -/
def withKinds (groups : Grouping) (t : Term) : Term × List Token.Kind := (t, t.kinds groups)

theorem zip_kindsAll (ts : List Term) :
    ts.zip (kindsAll groups ts) = ts.map (withKinds groups) := by
  induction ts with
  | nil => rfl
  | cons t ts ih => rw [kindsAll, List.zip_cons_cons, ih, List.map_cons]; rfl

theorem kinds_app {shape : Option InfixShape} (h : infixShape? f args.length = shape) :
    (app f args).kinds groups = openingKinds f shape ++ [separatorKind shape].intercalate
      (operands (operandKinds groups shape) (args.map (withKinds groups))) ++
      closingKinds shape := by
  rw [kinds, zip_kindsAll, layoutKinds, List.length_map, h]

theorem kinds_negation : (app negationFunctor [t]).kinds groups =
    .operator .sub :: grouped (groups (some .negation) true t) (t.kinds groups) := by
  have hshape : infixShape? negationFunctor [t].length = some .negation := rfl
  rw [kinds_app hshape]
  simp [operands, openingKinds, closingKinds, operandKinds, withKinds]

theorem kinds_power : (app Operator.pow.functor [t, u]).kinds groups =
    grouped (groups (some .power) true t) (t.kinds groups) ++
      .operator .pow :: grouped (groups (some .power) false u) (u.kinds groups) := by
  have hshape : infixShape? Operator.pow.functor [t, u].length = some .power := rfl
  rw [kinds_app hshape]
  simp [operands, openingKinds, closingKinds, operandKinds, withKinds, separatorKind,
    InfixShape.operator, List.intercalate_cons_cons]

theorem kinds_call (h : infixShape? f args.length = none) : (app f args).kinds groups =
    Token.wordKind f.toList :: .opening ::
      ([.comma].intercalate (operands (operandKinds groups none) (args.map (withKinds groups))) ++
        [.closing]) := by
  rw [kinds_app h]
  simp [openingKinds, closingKinds, separatorKind]

end Term

theorem infixShape?_zero (f : String) : infixShape? f 0 = none := by simp [infixShape?]

theorem infixShape?_functor {o : Operator} {n : Nat} (ho : o ≠ .pow) (hn : 2 ≤ n)
    (h : o.isFlat = true ∨ n = 2) : infixShape? o.functor n = some (.chain o) := by
  cases o with
  | pow => exact absurd rfl ho
  | add | mul => simp [infixShape?, Operator.functor, hn]
  | sub | div =>
    obtain rfl : n = 2 := h.resolve_left (by decide)
    rfl

namespace Term

variable {groups : Grouping} {args : List Term} {t u : Term} {o : Operator}

theorem two_le_of_lastOperator (h : (app o.functor args).lastOperator = some o) :
    2 ≤ args.length := by
  rw [lastOperator_app] at h
  split at h
  · rename_i hshape
    obtain ⟨-, -, -, -, hlen, -⟩ | ⟨hshape, -⟩ | ⟨hshape, -⟩ := infixShape?_cases hshape
    · exact hlen
    · cases hshape
    · cases hshape
  · cases h

theorem lastOperator_pair (ho : o ≠ .pow) : (app o.functor [t, u]).lastOperator = some o := by
  have hshape : infixShape? o.functor [t, u].length = some (.chain o) :=
    infixShape?_functor ho (Nat.le_refl 2) (Or.inr rfl)
  rw [lastOperator_app, hshape]

theorem lastOperator_snoc (flat : o.isFlat = true) (hlen : 2 ≤ args.length) :
    (app o.functor (args ++ [u])).lastOperator = some o := by
  have ho : o ≠ .pow := by
    rintro rfl
    cases flat
  have hshape : infixShape? o.functor (args ++ [u]).length = some (.chain o) :=
    infixShape?_functor ho (by rw [List.length_append]; omega) (Or.inl flat)
  rw [lastOperator_app, hshape]

theorem kinds_pair (ho : o ≠ .pow) : (app o.functor [t, u]).kinds groups =
    grouped (groups (some (.chain o)) true t) (t.kinds groups) ++
      .operator o :: grouped (groups (some (.chain o)) false u) (u.kinds groups) := by
  have hshape : infixShape? o.functor [t, u].length = some (.chain o) :=
    infixShape?_functor ho (Nat.le_refl 2) (Or.inr rfl)
  rw [kinds_app hshape]
  simp [operands, openingKinds, closingKinds, operandKinds, withKinds, separatorKind,
    InfixShape.operator, List.intercalate_cons_cons]

/-- A run goes on with its operator and a later operand. -/
theorem kinds_snoc (flat : o.isFlat = true) (hlen : 2 ≤ args.length) :
    (app o.functor (args ++ [u])).kinds groups = (app o.functor args).kinds groups ++
      .operator o :: grouped (groups (some (.chain o)) false u) (u.kinds groups) := by
  have ho : o ≠ .pow := by
    rintro rfl
    cases flat
  have hlen' : 2 ≤ (args ++ [u]).length := by
    rw [List.length_append]
    omega
  rw [kinds_app (infixShape?_functor ho hlen (Or.inl flat)),
    kinds_app (infixShape?_functor ho hlen' (Or.inl flat))]
  obtain ⟨t, rest, rfl⟩ : ∃ t rest, args = t :: rest := by
    cases args with
    | nil => cases hlen
    | cons t rest => exact ⟨t, rest, rfl⟩
  have hsplit := intercalate_append [separatorKind (some (.chain o))]
    (operandKinds groups (some (.chain o)) true (t.withKinds groups)) []
  simp only [List.nil_append, List.flatMap_nil] at hsplit
  simp [operands, openingKinds, closingKinds, hsplit]
  exact ⟨rfl, rfl⟩

end Term

namespace Token

variable {w : List Char} {t : Token}

@[simp] theorem weight_wordKind : (wordKind w).weight = 2 := by
  rcases wordKind_cases w with h | ⟨keyword, h⟩ <;> rw [h] <;> rfl

theorem isSolid_wordKind : (wordKind w).isSolid = true := by
  rcases wordKind_cases w with h | ⟨keyword, h⟩ <;> rw [h] <;> rfl

theorem weight_kind_of_isCallable (h : t.isCallable = true) : t.kind.weight = 2 := by
  rcases kind_of_isCallable h with h | ⟨keyword, h⟩ <;> rw [h] <;> rfl

theorem isSolid_kind_of_isCallable (h : t.isCallable = true) : t.kind.isSolid = true := by
  rcases kind_of_isCallable h with h | ⟨keyword, h⟩ <;> rw [h] <;> rfl

end Token

namespace Phrase

/-- What ends in an operator is printed as a chain of that operator. -/
theorem lastOperator {n : Nat} {ts : List Token} {t : Term} {last : Option Operator} :
    Phrase n ts t last → last = none ∨
      ∃ o, last = some o ∧ t.lastOperator = some o ∧ o.level = n
  | .extended left flat _ _ => by
    obtain hnone | ⟨o, ho, hleft, -⟩ := left.lastOperator
    · cases hnone
    · cases ho
      exact Or.inr ⟨_, rfl, Term.lastOperator_snoc flat (Term.two_le_of_lastOperator hleft), rfl⟩
  | .nested _ chain _ _ _ => Or.inr ⟨_, rfl, Term.lastOperator_pair chain, rfl⟩
  | .looser .. | .negative .. | .negation .. | .power .. | .number .. | .name .. | .nullary ..
  | .call .. | .group .. => Or.inl rfl

theorem lastOperator_of_some {n : Nat} {ts : List Token} {t : Term} {o : Operator}
    (h : Phrase n ts t (some o)) : t.lastOperator = some o := by
  obtain hnone | ⟨o', ho, hlast, -⟩ := h.lastOperator
  · cases hnone
  · cases ho
    exact hlast

/-- A constant that begins with its numeral is that numeral. -/
theorem tail_of_numeral {n : Nat} {ts : List Token} {t : Term} {last : Option Operator} :
    Phrase n ts t last → t.isConstant = true → Token.hasKind .number ts = true → ts.tail = []
  | .looser h _, ht, hk => h.tail_of_numeral ht hk
  | .extended .., ht, _ | .nested .., ht, _ | .power .., ht, _ | .negation .., ht, _
  | .nullary .., ht, _ | .call .., ht, _ => by cases ht
  | .negative kind .., _, hk => by simp [Token.hasKind_cons, kind] at hk
  | .number .., _, _ | .name .., _, _ => rfl
  | .group opens .., _, hk => by simp [Token.hasKind_cons, opens] at hk

theorem closed {n : Nat} {ts : List Token} {t : Term} {last : Option Operator} :
    Phrase n ts t last → Closed (ts.map Token.kind)
  | .group _ _ closes => by
    rw [List.map_cons, List.map_append]
    exact (closed_singleton (by simp [closes])).append.cons
  | .call _ _ _ closes => by
    rw [List.map_cons, List.map_cons, List.map_append]
    exact (closed_singleton (by simp [closes])).append.cons.cons
  | .nullary _ _ closes => (closed_singleton (by simp [closes])).cons.cons
  | .name kind => closed_singleton (by simp [kind])
  | .number kind _ _ => closed_singleton (by simp [kind])
  | .negative _ digits _ _ => (closed_singleton (by simp [digits])).cons
  | .negation _ _ h => h.closed.cons
  | .extended _ _ _ right | .nested _ _ _ _ right | .power _ _ right => by
    rw [List.map_append, List.map_cons]
    exact right.closed.cons.append
  | .looser h _ => h.closed

end Phrase

theorem weigh_intercalate {k : Token.Kind} (hk : k.weight = 1) (parts : List (List Token.Kind)) :
    weigh ([k].intercalate parts) = (parts.map weigh).sum + (parts.length - 1) := by
  induction parts with
  | nil => rfl
  | cons ks parts ih =>
    cases parts with
    | nil => simp
    | cons ls parts =>
      simp only [List.intercalate_cons_cons, weigh_append, weigh_cons, weigh_nil, hk, ih]
      simp only [List.map_cons, List.sum_cons, List.length_cons]
      omega

/-- The tokens of arguments with commas between them. -/
def argumentKinds (args : List Term) : List Token.Kind :=
  [.comma].intercalate (args.map (Term.kinds needed))

namespace Term

variable {f : String} {args : List Term}

theorem kinds_call_needed (h : infixShape? f args.length = none) : (app f args).kinds needed =
    Token.wordKind f.toList :: .opening :: (argumentKinds args ++ [.closing]) := by
  have hoperands : operands (operandKinds needed none) (args.map (withKinds needed)) =
      args.map (kinds needed) := by
    cases args with
    | nil => rfl
    | cons t rest => simp [operands, operandKinds, needed, printed, withKinds, grouped]
  rw [kinds_call h, hoperands, argumentKinds]

/-- Written with an operator, an application weighs less than as a call. -/
theorem weigh_kinds_le {shape : InfixShape} (h : infixShape? f args.length = some shape) :
    weigh ((app f args).kinds needed) ≤ 1 + weigh (argumentKinds args) := by
  have hopening : weigh (openingKinds f (some shape)) ≤ 1 := by
    cases shape <;> simp [openingKinds, Token.Kind.weight]
  have hweights : (operands (operandKinds needed (some shape))
      (args.map (withKinds needed))).map weigh = (args.map (kinds needed)).map weigh := by
    cases args with
    | nil => rfl
    | cons t rest => simp [operands, operandKinds, withKinds]
  have hlength := congrArg List.length hweights
  simp only [List.length_map] at hlength
  rw [kinds_app h, argumentKinds, weigh_append, weigh_append,
    weigh_intercalate (show (separatorKind (some shape)).weight = 1 from rfl),
    weigh_intercalate (show Token.Kind.comma.weight = 1 from rfl), hweights, hlength,
    List.length_map]
  simp only [closingKinds, weigh_nil]
  omega

mutual

theorem closed_kinds (groups : Grouping) : (t : Term) → Closed (t.kinds groups)
  | .const a => by
    rw [kinds]
    split
    · exact (closed_singleton (by decide)).cons
    · exact closed_singleton (by decide)
  | .var _ => closed_singleton (by decide)
  | .app f args => by
    cases hshape : infixShape? f args.length with
    | none =>
      rw [kinds_call hshape]
      exact (closed_singleton (by decide)).append.cons.cons
    | some shape =>
      obtain _ | ⟨t, rest⟩ := args
      · rw [List.length_nil, infixShape?_zero] at hshape
        cases hshape
      rw [kinds_app hshape, closingKinds, List.append_nil]
      refine Closed.append (closed_intercalate (by simp [operands]) fun ks hks => ?_)
      obtain ⟨first, p, hp, rfl⟩ := mem_operands hks
      obtain ⟨u, hu, rfl⟩ := List.mem_map.mp hp
      exact (closed_kinds_of_mem groups (t :: rest) u hu).grouped

theorem closed_kinds_of_mem (groups : Grouping) : (ts : List Term) →
    ∀ t ∈ ts, Closed (t.kinds groups)
  | [] => by simp
  | t :: ts => List.forall_mem_cons.mpr ⟨closed_kinds groups t, closed_kinds_of_mem groups ts⟩

end

/-- Whether the term is in parentheses where it is a phrase of the level: it does not hold together
well enough, or it is a chain that would go on, or it is a constant that does not begin with its
numeral. -/
def isGrouped (t : Term) (n : Nat) (last : Option Operator) (ts : List Token) : Bool :=
  t.precedence < n || (last.isNone && n ≤ 2 && t.precedence ≤ n) ||
    (t.isConstant && t.precedence == 5 && !Token.hasKind .number ts)

variable {n : Nat} {o : Operator} {t u : Term} {ts : List Token} {before last : Option Operator}

theorem isGrouped_of_lt (h : t.precedence < n) : t.isGrouped n last ts = true := by
  simp [isGrouped, h]

/-- A chain that stands on its own level with its last operator is in no parentheses. -/
theorem isGrouped_of_last (h : t.precedence = n) (ht : t.isConstant = false) :
    t.isGrouped n (some o) ts = false := by
  simp [isGrouped, h, ht]

theorem precedence_of_lastOperator (h : t.lastOperator = some o) : t.precedence = o.level := by
  cases t with
  | const a => cases h
  | var x => cases h
  | app f args =>
    rw [lastOperator_app] at h
    split at h
    · rename_i hshape
      cases h
      rw [precedence_app, hshape, Operator.level_eq]
    · cases h

/-- In front of the first operator of a chain stands no chain that the operator would extend. -/
theorem isGrouped_of_needed_first (left : Phrase o.level ts t before)
    (fresh : ¬ (o.isFlat = true ∧ before = some o))
    (h : needed (some (.chain o)) true t = true) : t.isGrouped o.level before ts = true := by
  have hwraps := (Bool.and_eq_true_iff.mp h).1
  rcases Bool.or_eq_true_iff.mp hwraps with hlevel | hrun
  · exact isGrouped_of_lt (by rw [Operator.level_eq]; exact of_decide_eq_true hlevel)
  · obtain ⟨hflat, hlast⟩ := isRunOf_iff.mp hrun
    rcases left.lastOperator with rfl | ⟨o', rfl, hlast', -⟩
    · have hlevel := Operator.level_of_isFlat hflat
      simp [isGrouped, precedence_of_lastOperator hlast, hlevel.2]
    · rw [hlast, Option.some.injEq] at hlast'
      exact absurd ⟨hflat, congrArg some hlast'.symm⟩ fresh

theorem isGrouped_succ (h : t.isGrouped n none ts = true) :
    t.isGrouped (n + 1) last ts = true := by
  simp only [isGrouped, Bool.or_eq_true, Bool.and_eq_true, decide_eq_true_eq] at h ⊢
  rcases h with (hlt | ⟨-, hle⟩) | hconstant
  · exact Or.inl (Or.inl (by omega))
  · exact Or.inl (Or.inl (by omega))
  · exact Or.inr hconstant

theorem isGrouped_of_needed_base (h : needed (some .power) true t = true) :
    t.isGrouped 5 last ts = true :=
  isGrouped_of_lt (Nat.lt_succ_of_le (of_decide_eq_true (Bool.and_eq_true_iff.mp h).1))

theorem isGrouped_of_needed_exponent (h : needed (some .power) false t = true) :
    t.isGrouped 3 last ts = true :=
  isGrouped_of_lt (of_decide_eq_true (Bool.and_eq_true_iff.mp h).1)

theorem isGrouped_of_needed_later (h : needed (some (.chain o)) false u = true) :
    u.isGrouped (o.level + 1) last ts = true := by
  have hwraps := of_decide_eq_true (Bool.and_eq_true_iff.mp h).1
  rw [← Operator.level_eq] at hwraps
  exact isGrouped_of_lt (Nat.lt_succ_of_le hwraps)

/-- A minus sign in front of a constant or of a looser term. -/
theorem isGrouped_of_needed_negation (phrase : Phrase 3 ts t last)
    (operand : Token.hasKind .number ts = true → Token.hasKind (.operator .pow) ts.tail = true)
    (h : needed (some .negation) true t = true) : t.isGrouped 3 last ts = true := by
  obtain ⟨hwraps, hloose⟩ := Bool.and_eq_true_iff.mp h
  have hne : t.precedence ≠ 3 := by simpa using hloose
  by_cases hlt : t.precedence < 3
  · exact isGrouped_of_lt hlt
  · have hconstant : t.isConstant = true := by
      rcases Bool.or_eq_true_iff.mp hwraps with hlevel | hconstant
      · have := of_decide_eq_true hlevel
        omega
      · exact hconstant
    have hatom : t.precedence = 5 := by
      cases t with
      | const a =>
        rw [precedence] at hne ⊢
        split at hne
        · exact absurd rfl hne
        · exact if_neg ‹_›
      | var x => cases hconstant
      | app f args => cases hconstant
    have hnumeral : Token.hasKind .number ts = false := by
      rw [Bool.eq_false_iff]
      intro hnumber
      have hpow := operand hnumber
      rw [phrase.tail_of_numeral hconstant hnumber] at hpow
      cases hpow
    simp [isGrouped, hconstant, hatom, hnumeral]

end Term

theorem Term.kinds_const {groups : Grouping} {a : Number} (h : a.isNegative = false) :
    (Term.const a).kinds groups = [.number] := by
  rw [kinds, h]
  rfl

theorem argumentKinds_cons {t : Term} {args : List Term} (h : args ≠ []) :
    argumentKinds (t :: args) = t.kinds needed ++ .comma :: argumentKinds args := by
  obtain ⟨u, args, rfl⟩ := List.exists_cons_of_ne_nil h
  simp [argumentKinds, List.intercalate_cons_cons]

theorem Arguments.terms_ne_nil {ts : List Token} {args : List Term} (h : Arguments ts args) :
    args ≠ [] := by
  cases h with
  | one => exact List.cons_ne_nil _ _
  | more => exact List.cons_ne_nil _ _

/-- The sign of a negative constant, or one in front of a zero. -/
theorem Covers.negative {sign numeral : Token} {a : Number} (kind : sign.kind = .operator .sub)
    (digits : numeral.kind = .number) :
    Covers (grouped ((Term.const a).isGrouped 3 none [sign, numeral]) ((Term.const a).kinds needed))
      ([sign, numeral].map Token.kind) := by
  cases hsign : a.isNegative with
  | true =>
    simp [Term.isGrouped, Term.precedence, Term.kinds, hsign, kind, digits, Covers.refl]
  | false =>
    apply of_lt
    simp [Term.kinds_const hsign, kind, digits, Token.Kind.weight]

theorem Covers.call {word opening closing : Token} {ts : List Token} {args : List Term}
    (callable : word.isCallable = true) (opens : opening.kind = .opening)
    (closes : closing.kind = .closing)
    (arguments : Covers (argumentKinds args) (ts.map Token.kind)) :
    Covers
      (grouped
        ((Term.app word.text args).isGrouped 5 none (word :: opening :: (ts ++ [closing])))
        ((Term.app word.text args).kinds needed))
      ((word :: opening :: (ts ++ [closing])).map Token.kind) := by
  have hword := Token.weight_kind_of_isCallable callable
  rw [List.map_cons, List.map_cons, List.map_append, List.map_singleton, opens, closes]
  cases hshape : infixShape? word.text args.length with
  | none =>
    have hatom : (Term.app word.text args).precedence = 5 := by
      rw [Term.precedence_app, hshape]
    have hgrouped : (Term.app word.text args).isGrouped 5 none
        (word :: opening :: (ts ++ [closing])) = false := by
      simp [Term.isGrouped, hatom, Term.isConstant]
    rw [hgrouped, grouped_false, Term.kinds_call_needed hshape]
    exact arguments.group.cons (by rw [Token.weight_wordKind, hword]) Token.isSolid_wordKind
      (Token.isSolid_kind_of_isCallable callable)
  | some shape =>
    -- the word weighs more than what it stands for
    have hle := Term.weigh_kinds_le hshape
    have harguments := arguments.weight
    apply of_lt
    simp only [weigh_grouped, weigh_cons, weigh_append, hword]
    omega

mutual

/-- Induction on the derivation. What does not hold together well enough for the level is in
parentheses: only the group puts it there, and the tighter levels keep it. -/
theorem Phrase.covers {n : Nat} {ts : List Token} {t : Term} {last : Option Operator} :
    Phrase n ts t last →
      Covers (grouped (t.isGrouped n last ts) (t.kinds needed)) (ts.map Token.kind)
  | .looser h _ => h.covers.of_imp Term.isGrouped_succ
  | .extended left flat kind right => by
    have hlast := left.lastOperator_of_some
    have hlen := Term.two_le_of_lastOperator hlast
    have hleft := left.covers
    rw [Term.isGrouped_of_last (Term.precedence_of_lastOperator hlast) rfl, grouped_false] at hleft
    rw [Term.isGrouped_of_last
      (Term.precedence_of_lastOperator (Term.lastOperator_snoc flat hlen)) rfl, grouped_false,
      Term.kinds_snoc flat hlen, List.map_append, List.map_cons, kind]
    exact hleft.join (right.covers.of_imp Term.isGrouped_of_needed_later) rfl
      (Term.closed_kinds _ _) left.closed
  | .nested left chain fresh kind right => by
    rw [Term.isGrouped_of_last (Term.precedence_of_lastOperator (Term.lastOperator_pair chain)) rfl,
      grouped_false, Term.kinds_pair chain, List.map_append, List.map_cons, kind]
    exact (left.covers.of_imp (Term.isGrouped_of_needed_first left fresh)).join
      (right.covers.of_imp Term.isGrouped_of_needed_later) rfl (Term.closed_kinds _ _).grouped
      left.closed
  | .negative kind digits value inRange => Covers.negative kind digits
  | .negation kind operand h => by
    rw [List.map_cons, kind]
    change Covers (Term.kinds needed (.app negationFunctor [_])) _
    rw [Term.kinds_negation]
    exact Covers.cons (h.covers.of_imp (Term.isGrouped_of_needed_negation h operand)) rfl rfl rfl
  | .power base kind exponent => by
    rw [List.map_append, List.map_cons, kind]
    change Covers (Term.kinds needed (.app Operator.pow.functor [_, _])) _
    rw [Term.kinds_power]
    exact (base.covers.of_imp Term.isGrouped_of_needed_base).join
      (exponent.covers.of_imp Term.isGrouped_of_needed_exponent) rfl
      (Term.closed_kinds _ _).grouped base.closed
  | .number kind value inRange => by
    have hsign := Number.isNegative_of_ofNumeral? value
    simp [Term.isGrouped, Term.precedence, hsign, Token.hasKind_cons, kind, Term.kinds_const hsign,
      Covers.refl]
  | .name kind => by
    simp [Term.isGrouped, Term.precedence, Term.isConstant, kind, Term.kinds, Covers.refl]
  | .nullary callable opens closes => by
    have harguments : Covers (argumentKinds []) ([].map Token.kind) := .refl
    exact Covers.call callable opens closes harguments
  | .call callable opens arguments closes => Covers.call callable opens closes arguments.covers
  | .group opens h closes => by
    have hinner := (h.covers.ungrouped).group
    rw [List.map_cons, List.map_append, List.map_singleton, opens, closes]
    exact hinner.of_imp fun _ => rfl

theorem Arguments.covers {ts : List Token} {args : List Term} :
    Arguments ts args → Covers (argumentKinds args) (ts.map Token.kind)
  | .one h => by
    have hfirst := h.covers.ungrouped
    simpa [argumentKinds] using hfirst
  | .more h kind rest => by
    have hfirst := h.covers.ungrouped
    rw [argumentKinds_cons rest.terms_ne_nil, List.map_append, List.map_cons, kind]
    exact hfirst.join rest.covers rfl (Term.closed_kinds _ _) h.closed

end

end Stepwise
