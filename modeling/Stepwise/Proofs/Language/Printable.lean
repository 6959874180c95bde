import Stepwise.Proofs.Number.Digits
import Stepwise.Proofs.Language.Parentheses
import Stepwise.Proofs.Language.FunctorRoundTrip

namespace Stepwise

namespace Token

/-- The word of a name or a keyword is an identifier, and a name is no keyword. -/
def IsRegular (t : Token) : Prop :=
  (t.kind = .name → isIdentifier t.text = true ∧ Keyword.ofWord? t.text = none) ∧
    ∀ k, t.kind = .keyword k → isIdentifier t.text = true

theorem isRegular_of_kind {t : Token} {kind : Kind} (h : t.kind = kind) (hname : kind ≠ .name)
    (hkeyword : ∀ k, kind ≠ .keyword k) : t.IsRegular := by
  subst h
  exact ⟨fun h => absurd h hname, fun k h => absurd h (hkeyword k)⟩

theorem IsRegular.isIdentifier_of_callable {t : Token} (h : t.IsRegular)
    (callable : t.isCallable = true) : isIdentifier t.text = true := by
  rcases kind_of_isCallable callable with kind | ⟨k, kind⟩
  · exact (h.1 kind).1
  · exact h.2 k kind

theorem isIdentifier_word {c : Char} {ds : List Char} (starts : startsName c = true)
    (continues : ∀ d ∈ ds, continuesName d = true) :
    isIdentifier (String.ofList (c :: ds)) = true := by
  simp only [isIdentifier, String.toList_ofList, starts, Bool.true_and, List.all_eq_true]
  exact continues

theorem isRegular_word {p : Nat} {word : List Char}
    (h : isIdentifier (String.ofList word) = true) :
    IsRegular ⟨wordKind word, String.ofList word, p⟩ := by
  refine ⟨fun kind => ⟨h, ?_⟩, fun _ _ => h⟩
  simp only [wordKind] at kind
  split at kind
  · cases kind
  · assumption

/-- A symbol makes no word. -/
theorem isRegular_symbol {p : Nat} {c : Char} {kind : Kind} {text : String}
    (h : symbolKind? c = some kind) : IsRegular ⟨kind, text, p⟩ := by
  apply isRegular_of_kind rfl
  · rintro rfl
    unfold symbolKind? at h
    split at h <;> simp at h
  · rintro k rfl
    unfold symbolKind? at h
    split at h <;> simp at h

theorem Lexeme.isRegular {p : Nat} {c : Char} {rest ds : List Char} {kind : Kind}
    (h : Lexeme rest (some kind) c ds) : IsRegular ⟨kind, String.ofList (c :: ds), p⟩ := by
  cases h with
  | numeral | string | arrow => exact isRegular_of_kind rfl (by simp) (by simp)
  | word starts continues => exact isRegular_word (isIdentifier_word starts continues)
  | symbol symbol => exact isRegular_symbol symbol

theorem Scanned.isRegular {p : Nat} {cs : List Char} {tokens : List Token}
    (h : Scanned p tokens cs) : ∀ t ∈ tokens, t.IsRegular := by
  induction h with
  | nil => simp
  | dropped lexeme behind ih => exact ih
  | token lexeme behind ih =>
    rw [List.forall_mem_cons]
    exact ⟨lexeme.isRegular, ih⟩

end Token

theorem isRegular_of_tokensOf {text : String} {tokens : List Token}
    (h : tokensOf text = .ok tokens) : ∀ t ∈ tokens, t.IsRegular :=
  (Token.scanned_of_scan (ok_of_mapError h)).isRegular

theorem Term.allPrintable_append (ts us : List Term) :
    allPrintable (ts ++ us) = (allPrintable ts && allPrintable us) := by
  induction ts with
  | nil => rfl
  | cons t ts ih => rw [List.cons_append, allPrintable, allPrintable, ih, Bool.and_assoc]

theorem Operator.isIdentifier_functor (o : Operator) : Token.isIdentifier o.functor = true := by
  cases o <;> decide

mutual

/-- An expression of regular tokens is printable. -/
theorem Phrase.isPrintable {n : Nat} {ts : List Token} {t : Term} {last : Option Operator} :
    Phrase n ts t last → (∀ w ∈ ts, w.IsRegular) → t.isPrintable = true
  | .looser h _, hts => h.isPrintable hts
  | .extended left _ _ right, hts => by
    rw [List.forall_mem_append, List.forall_mem_cons] at hts
    have hleft := left.isPrintable hts.1
    have hright := right.isPrintable hts.2.2
    rw [Term.isPrintable, Bool.and_eq_true] at hleft
    rw [Term.isPrintable, Term.allPrintable_append, hleft.1, hleft.2]
    simp [Term.allPrintable, hright]
  | .nested (o := o) left _ _ _ right, hts => by
    rw [List.forall_mem_append, List.forall_mem_cons] at hts
    simp [Term.isPrintable, Term.allPrintable, o.isIdentifier_functor, left.isPrintable hts.1,
      right.isPrintable hts.2.2]
  | .negative _ _ _ inRange, _ => by rw [Term.isPrintable, Number.inRange_neg, inRange]
  | .negation _ _ h, hts => by
    rw [List.forall_mem_cons] at hts
    have hfunctor : Token.isIdentifier negationFunctor = true := by decide
    simp [Term.isPrintable, Term.allPrintable, hfunctor, h.isPrintable hts.2]
  | .power base _ exponent, hts => by
    rw [List.forall_mem_append, List.forall_mem_cons] at hts
    simp [Term.isPrintable, Term.allPrintable, Operator.isIdentifier_functor,
      base.isPrintable hts.1, exponent.isPrintable hts.2.2]
  | .number _ _ inRange, _ => inRange
  | .name kind, hts => by
    rw [List.forall_mem_singleton] at hts
    obtain ⟨hword, hfree⟩ := hts.1 kind
    simp [Term.isPrintable, hword, hfree]
  | .nullary callable _ _, hts => by
    rw [List.forall_mem_cons] at hts
    simp [Term.isPrintable, Term.allPrintable, hts.1.isIdentifier_of_callable callable]
  | .call callable _ arguments _, hts => by
    simp only [List.forall_mem_cons, List.forall_mem_append] at hts
    simp [Term.isPrintable, hts.1.isIdentifier_of_callable callable,
      arguments.allPrintable hts.2.2.1]
  | .group _ h _, hts => by
    simp only [List.forall_mem_cons, List.forall_mem_append] at hts
    exact h.isPrintable hts.2.1

theorem Arguments.allPrintable {ts : List Token} {args : List Term} :
    Arguments ts args → (∀ w ∈ ts, w.IsRegular) → Term.allPrintable args = true
  | .one h, hts => by simp [Term.allPrintable, h.isPrintable hts]
  | .more h _ rest, hts => by
    rw [List.forall_mem_append, List.forall_mem_cons] at hts
    simp [Term.allPrintable, h.isPrintable hts.1, rest.allPrintable hts.2.2]

end

theorem Leaves.subset {ts us : List Token} (h : Leaves ts us) : us ⊆ ts := by
  cases h with
  | behind => exact List.subset_append_right _ _

section Readers

variable {stop : Nat} {tokens rest : List Token} {w : Token} {t p q : Term} {rule : Rule}

theorem isPrintable_of_readExpression (regular : ∀ w ∈ tokens, w.IsRegular)
    (h : readExpression stop tokens = .ok (t, rest)) :
    t.isPrintable = true ∧ ∀ w ∈ rest, w.IsRegular := by
  have hreading := readExpression_reading stop tokens
  rw [h] at hreading
  cases hreading with
  | expression us after split phrase =>
    subst split
    rw [List.forall_mem_append] at regular
    exact ⟨phrase.isPrintable regular.1, regular.2⟩

theorem isPrintable_of_readTerm {text : String} (h : readTerm text = .ok t) :
    t.isPrintable = true := by
  obtain ⟨tokens, htokens, h⟩ := ok_of_bind h
  obtain ⟨⟨t', rest⟩, hread, h⟩ := ok_of_bind h
  obtain ⟨_, -, h⟩ := ok_of_bind h
  cases h
  exact (isPrintable_of_readExpression (isRegular_of_tokensOf htokens) hread).1

/-- What can be made a rule is its sides and its name. -/
theorem eq_of_makeRule {name : Option String} (h : makeRule p q name = .ok rule) :
    rule.pattern = p ∧ rule.replacement = q ∧ rule.name = name := by
  unfold makeRule Rule.make? at h
  split at h
  · cases h
    exact ⟨rfl, rfl, rfl⟩
  · cases h

theorem isPrintable_of_makeRule {name : Option String} (hp : p.isPrintable = true)
    (hq : q.isPrintable = true) (h : makeRule p q name = .ok rule) : rule.IsPrintable := by
  obtain ⟨hpattern, hreplacement, -⟩ := eq_of_makeRule h
  exact ⟨hpattern ▸ hp, hreplacement ▸ hq⟩

theorem Token.mem_of_expectKind {kind : Kind} {what : Expected}
    (h : expectKind kind what stop tokens = .ok (w, rest)) : w ∈ tokens ∧ w.kind = kind := by
  unfold expectKind at h
  split at h
  · split at h
    · rename_i hkind
      cases h
      exact ⟨List.mem_cons_self, hkind⟩
    · cases h
  · cases h

theorem isPrintable_of_readSides (regular : ∀ w ∈ tokens, w.IsRegular)
    (h : readSides stop tokens = .ok (p, q, rest)) :
    p.isPrintable = true ∧ q.isPrintable = true := by
  obtain ⟨⟨pattern, behind⟩, hpattern, h⟩ := ok_of_bind h
  obtain ⟨⟨arrow, after⟩, harrow, h⟩ := ok_of_bind h
  obtain ⟨⟨replacement, last⟩, hreplacement, h⟩ := ok_of_bind h
  cases h
  obtain ⟨hp, hbehind⟩ := isPrintable_of_readExpression regular hpattern
  have hafter : ∀ w ∈ after, w.IsRegular :=
    fun w hw => hbehind w ((leaves_of_expectKind harrow rfl).subset hw)
  exact ⟨hp, (isPrintable_of_readExpression hafter hreplacement).1⟩

theorem hasFewDigits_of_readDepth {depth : Nat}
    (h : readDepth stop tokens = .ok (depth, rest)) : Number.HasFewDigits depth := by
  obtain ⟨⟨t, rest'⟩, -, h⟩ := ok_of_bind h
  obtain ⟨a, ha, h⟩ := ok_of_bind h
  cases a with
  | float x => cases h
  | int n =>
    cases h
    unfold Token.number at ha
    split at ha
    · rename_i hvalue
      cases ha
      exact Number.hasFewDigits_of_ofNumeral? hvalue
    · cases ha

end Readers

/-- What a statement holds has a text: the statement could be typed in again. -/
def Statement.IsReadable : Statement → Prop
  | .define name rule => Token.isIdentifier name = true ∧ Keyword.ofWord? name = none ∧
      rule.name = some name ∧ rule.IsPrintable
  | .inline rule depth => rule.name = none ∧ rule.IsPrintable ∧ Number.HasFewDigits depth
  | .apply name depth => Token.isIdentifier name = true ∧ Keyword.ofWord? name = none ∧
      Number.HasFewDigits depth
  | .start t => t.isPrintable = true
  | .finish _ | .undo | .quit => True

section Statements

variable {stop : Nat} {tokens rest : List Token} {statement : Statement}

theorem isReadable_of_readDefinition (regular : ∀ w ∈ tokens, w.IsRegular)
    (h : readDefinition stop tokens = .ok (statement, rest)) : statement.IsReadable := by
  obtain ⟨⟨name, behind⟩, hname, h⟩ := ok_of_bind h
  obtain ⟨⟨naming, after⟩, hnaming, h⟩ := ok_of_bind h
  obtain ⟨⟨p, q, last⟩, hsides, h⟩ := ok_of_bind h
  obtain ⟨rule, hrule, h⟩ := ok_of_bind h
  cases h
  have hafter : ∀ w ∈ after, w.IsRegular := fun w hw => regular w
    ((leaves_of_expectKind hname rfl).subset ((leaves_of_expectKind hnaming rfl).subset hw))
  obtain ⟨hp, hq⟩ := isPrintable_of_readSides hafter hsides
  have hword := (Token.mem_of_expectKind hname).2
  obtain ⟨hidentifier, hfree⟩ := (regular name (Token.mem_of_expectKind hname).1).1 hword
  exact ⟨hidentifier, hfree, (eq_of_makeRule hrule).2.2, isPrintable_of_makeRule hp hq hrule⟩

theorem isReadable_of_readInline {pattern : Term} (hpattern : pattern.isPrintable = true)
    (regular : ∀ w ∈ tokens, w.IsRegular)
    (h : readInline stop pattern tokens = .ok (statement, rest)) : statement.IsReadable := by
  obtain ⟨⟨replacement, after⟩, hreplacement, h⟩ := ok_of_bind h
  obtain ⟨rule, hrule, h⟩ := ok_of_bind h
  have hq := (isPrintable_of_readExpression regular hreplacement).1
  have hprintable := isPrintable_of_makeRule hpattern hq hrule
  have hname := (eq_of_makeRule hrule).2.2
  dsimp only at h
  split at h
  · obtain ⟨⟨depth, last⟩, hdepth, h⟩ := ok_of_bind h
    cases h
    exact ⟨hname, hprintable, hasFewDigits_of_readDepth hdepth⟩
  · cases h
    exact ⟨hname, hprintable, Number.hasFewDigits_zero⟩

theorem isReadable_of_readApply {position : Nat} {left : Term} (hleft : left.isPrintable = true)
    (h : readApply stop position left tokens = .ok (statement, rest)) : statement.IsReadable := by
  unfold readApply at h
  split at h
  · obtain ⟨⟨depth, last⟩, hdepth, h⟩ := ok_of_bind h
    cases h
    rw [Term.isPrintable, Bool.and_eq_true, Option.isNone_iff_eq_none] at hleft
    exact ⟨hleft.1, hleft.2, hasFewDigits_of_readDepth hdepth⟩
  · cases h

theorem isReadable_of_readFromExpression (regular : ∀ w ∈ tokens, w.IsRegular)
    (h : readFromExpression stop tokens = .ok (statement, rest)) : statement.IsReadable := by
  obtain ⟨⟨left, behind⟩, hleft, h⟩ := ok_of_bind h
  obtain ⟨hprintable, hbehind⟩ := isPrintable_of_readExpression regular hleft
  dsimp only at h
  split at h
  · rw [List.forall_mem_cons] at hbehind
    split at h
    · exact isReadable_of_readInline hprintable hbehind.2 h
    · split at h
      · exact isReadable_of_readApply hprintable h
      · cases h
        exact hprintable
  · cases h
    exact hprintable

theorem isReadable_readFinish : (readFinish tokens).1.IsReadable := by
  unfold readFinish
  split
  · split <;> trivial
  · trivial

theorem isReadable_of_readStatement (regular : ∀ w ∈ tokens, w.IsRegular)
    (h : readStatement stop tokens = .ok (statement, rest)) : statement.IsReadable := by
  unfold readStatement at h
  split at h
  · exact isReadable_of_readDefinition (fun w hw => regular w (List.mem_of_mem_tail hw)) h
  split at h
  · have hfinish : (readFinish tokens.tail).1 = statement := congrArg Prod.fst (Except.ok.inj h)
    rw [← hfinish]
    exact isReadable_readFinish
  split at h
  · cases h
    trivial
  split at h
  · cases h
    trivial
  · exact isReadable_of_readFromExpression regular h

theorem isReadable_of_readStatements {skip : Nat} {statements : List Statement}
    (regular : ∀ w ∈ tokens, w.IsRegular)
    (h : readStatements stop skip tokens = .ok statements) :
    ∀ statement ∈ statements, statement.IsReadable := by
  induction tokens generalizing skip statements with
  | nil =>
    cases h
    simp
  | cons t ts ih =>
    have hlater := (List.forall_mem_cons.mp regular).2
    unfold readStatements at h
    split at h
    · exact ih hlater h
    split at h
    · exact ih hlater h
    · obtain ⟨⟨statement, rest⟩, hstatement, h⟩ := ok_of_bind h
      obtain ⟨later, hstatements, hk⟩ := ok_of_bind h
      cases hk
      exact List.forall_mem_cons.mpr
        ⟨isReadable_of_readStatement regular hstatement, ih hlater hstatements⟩

end Statements

/-- Every statement of a text could be typed in again. -/
theorem isReadable_of_readProgram {text : String} {statements : List Statement}
    (h : readProgram text = .ok statements) : ∀ statement ∈ statements, statement.IsReadable := by
  obtain ⟨tokens, htokens, hstatements⟩ := ok_of_bind h
  exact isReadable_of_readStatements (isRegular_of_tokensOf htokens) hstatements

end Stepwise
