import Stepwise.Proofs.Failure
import Stepwise.Proofs.Language.Acceptance

namespace Stepwise

/-- The token wherever it stands. -/
def Token.bare (t : Token) : Token := { t with position := 0 }

@[simp] theorem Token.kind_bare (t : Token) : t.bare.kind = t.kind := rfl

@[simp] theorem Token.text_bare (t : Token) : t.bare.text = t.text := rfl

/-- Whether no statement goes on there: the text ends, or a semicolon follows. -/
def Token.endsStatement : List Token → Bool
  | t :: _ => t.kind == .semicolon
  | [] => true

section Tail

variable {tail : List Token} (closed : Token.endsStatement tail = true)
include closed

theorem Token.endsExpression_of_endsStatement : Token.endsExpression tail = true := by
  cases tail with
  | nil => rfl
  | cons s us =>
    rw [Token.endsStatement, beq_iff_eq] at closed
    rw [Token.endsExpression, closed]

theorem Token.hasKind_bare_append (kind : Token.Kind) (ts : List Token)
    (hkind : kind ≠ .semicolon) :
    Token.hasKind kind (ts.map Token.bare ++ tail) = Token.hasKind kind ts := by
  cases ts with
  | cons t ts => rfl
  | nil =>
    cases tail with
    | nil => rfl
    | cons s us =>
      rw [Token.endsStatement, beq_iff_eq] at closed
      rw [List.map_nil, List.nil_append, Token.hasKind_cons, closed]
      simpa [Token.hasKind] using Ne.symm hkind

theorem Token.hasKeyword_bare_append {keyword : Keyword} (ts : List Token) :
    Token.hasKeyword keyword (ts.map Token.bare ++ tail) = Token.hasKeyword keyword ts := by
  cases ts with
  | cons t ts =>
    have hopening := Token.hasKind_bare_append closed .opening ts nofun
    simp [Token.hasKeyword, hopening]
  | nil =>
    cases tail with
    | nil => rfl
    | cons s us =>
      rw [Token.endsStatement, beq_iff_eq] at closed
      simp [Token.hasKeyword, closed]

end Tail

/-- Both readings come to related values, or each finds its text malformed, or they fail for one
other reason. -/
inductive Agree {α β : Type} (R : α → β → Prop) : Except ReadError α → Except ReadError β → Prop
  | ok {a : α} {b : β} (h : R a b) : Agree R (.ok a) (.ok b)
  | malformed (e e' : SyntaxError) : Agree R (.error (.malformed e)) (.error (.malformed e'))
  | unbound (e : UnboundVariables) : Agree R (.error (.unbound e)) (.error (.unbound e))
  | overflow : Agree R (.error .integerTooLarge) (.error .integerTooLarge)

namespace Agree

variable {α β γ δ : Type} {R : α → β → Prop} {S : γ → δ → Prop} {x : Except ReadError α}
  {y : Except ReadError β} {k : α → Except ReadError γ} {l : β → Except ReadError δ}

theorem bind (h : Agree R x y) (hk : ∀ a b, R a b → Agree S (k a) (l b)) :
    Agree S (x >>= k) (y >>= l) := by
  cases h with
  | ok h => exact hk _ _ h
  | malformed e e' => exact .malformed e e'
  | unbound e => exact .unbound e
  | overflow => exact .overflow

theorem refl (x : Except ReadError α) : Agree Eq x x := by
  cases x with
  | ok a => exact .ok rfl
  | error e =>
    cases e with
    | malformed e => exact .malformed e e
    | unbound e => exact .unbound e
    | integerTooLarge => exact .overflow

theorem bind_same {y : Except ReadError α} (h : Agree Eq x y) (k : α → Except ReadError γ) :
    Agree Eq (x >>= k) (y >>= k) := by
  refine h.bind fun a b hab => ?_
  rw [hab]
  exact refl (k b)

theorem symm {y : Except ReadError α} (h : Agree Eq x y) : Agree Eq y x := by
  cases h with
  | ok h => exact .ok h.symm
  | malformed e e' => exact .malformed e' e
  | unbound e => exact .unbound e
  | overflow => exact .overflow

theorem trans {y z : Except ReadError α} (h : Agree Eq x y) (h' : Agree Eq y z) : Agree Eq x z := by
  cases h with
  | ok h =>
    cases h
    exact h'
  | malformed e e' =>
    cases h' with
    | malformed e' e'' => exact .malformed e e''
  | unbound e =>
    cases h' with
    | unbound e => exact .unbound e
  | overflow =>
    cases h' with
    | overflow => exact .overflow

theorem ok_iff {y : Except ReadError α} (h : Agree Eq x y) (a : α) : x = .ok a ↔ y = .ok a := by
  cases h with
  | ok h =>
    subst h
    exact Iff.rfl
  | malformed | unbound | overflow => exact ⟨nofun, nofun⟩

theorem exists_of_ok {a : α} (h : Agree R (.ok a) y) : ∃ b, y = .ok b ∧ R a b := by
  cases h with
  | ok h => exact ⟨_, rfl, h⟩

theorem exists_of_eq_ok {b : β} (h : Agree R x (.ok b)) : ∃ a, x = .ok a ∧ R a b := by
  cases h with
  | ok h => exact ⟨_, rfl, h⟩

/-- What is not malformed is read as it is. -/
theorem eq {y : Except ReadError α} (h : Agree Eq x y) (hy : ∀ e, y ≠ .error (.malformed e)) :
    x = y := by
  cases h with
  | ok h => rw [h]
  | malformed e e' => exact absurd rfl (hy e')
  | unbound e => rfl
  | overflow => rfl

end Agree

/-- The same value, and in front of the tail the same rest of the tokens. -/
def Before {α : Type} (tail : List Token) (a b : α × List Token) : Prop :=
  b = (a.1, a.2.map Token.bare ++ tail)

variable {stop stop' : Nat} {level : Level} {outer : List Enclosing} {tail : List Token}

theorem expectedError_agrees {α β : Type} {R : α → β → Prop} (what : Expected)
    (ts us : List Token) :
    Agree R (.error (expectedError what stop ts)) (.error (expectedError what stop' us)) := by
  obtain ⟨e, he⟩ := expectedError_eq what stop ts
  obtain ⟨e', he'⟩ := expectedError_eq what stop' us
  rw [he, he']
  exact .malformed e e'

theorem number_agrees (t : Token) : Agree Eq t.number t.bare.number := by
  rw [Token.number, Token.number, Token.text_bare]
  cases Number.ofNumeral? t.text.toList with
  | none => exact .malformed _ _
  | some a => exact .ok rfl

/-- Where an operand has to come, reading agrees as long as fewer than `n` tokens are left. -/
def OperandsAgree (stop stop' : Nat) (tail : List Token) (n : Nat) : Prop :=
  ∀ (level : Level) (outer : List Enclosing) (ts : List Token), ts.length < n →
    Agree (Before tail) (readOperand stop level outer ts)
      (readOperand stop' level outer (ts.map Token.bare ++ tail))

section Closed

variable (closed : Token.endsStatement tail = true)
include closed

/-- Behind an operand the tail closes no parenthesis and goes on with no operator. -/
theorem readOperator_agrees_tail {u : Term} :
    Agree (Before tail) (readOperator stop level outer u [])
      (readOperator stop' level outer u tail) := by
  cases outer with
  | nil =>
    rw [readOperator_of_endsExpression (Token.endsExpression_of_endsStatement closed)]
    exact .ok rfl
  | cons e outer =>
    cases tail with
    | nil => exact expectedError_agrees .closing [] []
    | cons s us =>
      rw [Token.endsStatement, beq_iff_eq] at closed
      simp only [readOperator_cons, closed]
      exact expectedError_agrees .closing [] (s :: us)

/-- The tail is no operand. -/
theorem readOperand_agrees_tail :
    Agree (Before tail) (readOperand stop level outer []) (readOperand stop' level outer tail) := by
  cases tail with
  | nil =>
    rw [readOperand.eq_def, readOperand.eq_def]
    exact expectedError_agrees .operand [] []
  | cons s us =>
    rw [Token.endsStatement, beq_iff_eq] at closed
    rw [readOperand.eq_def, readOperand_refuses (by simp [closed]) (by simp [closed])
      (by simp [closed]) (by simp [closed]) (by simp [Token.isCallable, closed])]
    exact expectedError_agrees .operand [] (s :: us)

theorem readOperator_agrees {n : Nat} {u : Term} {ts : List Token}
    (operands : OperandsAgree stop stop' tail n) (hn : ts.length ≤ n) :
    Agree (Before tail) (readOperator stop level outer u ts)
      (readOperator stop' level outer u (ts.map Token.bare ++ tail)) := by
  induction ts generalizing level outer u with
  | nil => exact readOperator_agrees_tail closed
  | cons t ts ih =>
    rw [List.length_cons] at hn
    rw [List.map_cons, List.cons_append, readOperator_cons, readOperator_cons, Token.kind_bare]
    split
    · exact operands _ _ ts (by omega)
    · exact .ok rfl
    · exact ih (by omega)
    · exact ih (by omega)
    · exact operands _ _ ts (by omega)
    · exact expectedError_agrees .closing (t :: ts) (t.bare :: (ts.map Token.bare ++ tail))

theorem constant_number_agrees {n : Nat} {t : Token} {g : Number → Number} {ts : List Token}
    (operands : OperandsAgree stop stop' tail n) (hn : ts.length ≤ n) :
    Agree (Before tail) (do readOperator stop level outer (← constant (g (← t.number))) ts)
      (do
        let u ← constant (g (← t.bare.number))
        readOperator stop' level outer u (ts.map Token.bare ++ tail)) := by
  refine (number_agrees t).bind fun a _ ha => ?_
  subst ha
  refine (Agree.refl (constant (g a))).bind fun u _ hu => ?_
  subst hu
  exact readOperator_agrees closed operands hn

section Operand

variable {n : Nat} {t : Token} {ts : List Token}

theorem readOperand_agrees_minus (operands : OperandsAgree stop stop' tail n)
    (hn : ts.length < n) (kind : t.kind = .operator .sub) :
    Agree (Before tail) (readOperand stop level outer (t :: ts))
      (readOperand stop' level outer (t.bare :: (ts.map Token.bare ++ tail))) := by
  have hnumber := Token.hasKind_bare_append closed .number ts nofun
  by_cases hoperand : Token.hasKind .number ts = true →
      Token.hasKind (.operator .pow) ts.tail = true
  · have hoperand' : Token.hasKind .number (ts.map Token.bare ++ tail) = true →
        Token.hasKind (.operator .pow) (ts.map Token.bare ++ tail).tail = true := by
      cases ts with
      | nil =>
        rw [hnumber]
        nofun
      | cons m rest =>
        have hpow := Token.hasKind_bare_append closed (.operator .pow) rest nofun
        rw [hnumber, List.map_cons, List.cons_append, List.tail_cons, hpow]
        exact hoperand
    rw [readOperand_negation kind hoperand, readOperand_negation (s := t.bare) kind hoperand']
    exact operands _ _ ts hn
  · -- a numeral that is not the base of a power
    rw [Classical.not_imp, Bool.not_eq_true] at hoperand
    obtain ⟨hfirst, hpow⟩ := hoperand
    cases ts with
    | nil => cases hfirst
    | cons m rest =>
      rw [Token.hasKind_cons, beq_iff_eq] at hfirst
      rw [List.tail_cons] at hpow
      have hpow' : Token.hasKind (.operator .pow) (rest.map Token.bare ++ tail) = false := by
        rw [Token.hasKind_bare_append closed (.operator .pow) rest nofun, hpow]
      rw [List.length_cons] at hn
      rw [List.map_cons, List.cons_append, readOperand_cons, readOperand_cons]
      simp only [Token.kind_bare, kind, hfirst, hpow, hpow', Bool.false_eq_true,
        not_false_eq_true, and_self, if_true]
      exact constant_number_agrees closed operands (by omega)

theorem readOperand_agrees_callable {p : Token} (operands : OperandsAgree stop stop' tail n)
    (hn : ts.length < n) (callable : t.isCallable = true) (opens : p.kind = .opening) :
    Agree (Before tail) (readOperand stop level outer (t :: p :: ts))
      (readOperand stop' level outer (t.bare :: p.bare :: (ts.map Token.bare ++ tail))) := by
  cases hc : Token.hasKind .closing ts with
  | false =>
    have hc' : Token.hasKind .closing (ts.map Token.bare ++ tail) = false := by
      rw [Token.hasKind_bare_append closed .closing ts nofun, hc]
    rw [readOperand_call callable opens hc,
      readOperand_call (t := t.bare) (p := p.bare) callable opens hc']
    exact operands _ _ ts hn
  | true =>
    cases ts with
    | nil => cases hc
    | cons c rest =>
      rw [Token.hasKind_cons, beq_iff_eq] at hc
      rw [List.length_cons] at hn
      rw [List.map_cons, List.cons_append, readOperand_nullary callable opens hc,
        readOperand_nullary (t := t.bare) (p := p.bare) (c := c.bare) callable opens hc]
      exact readOperator_agrees closed operands (by omega)

theorem readOperand_agrees_cons (operands : OperandsAgree stop stop' tail n)
    (hn : ts.length < n) : Agree (Before tail) (readOperand stop level outer (t :: ts))
      (readOperand stop' level outer (t.bare :: (ts.map Token.bare ++ tail))) := by
  have hopening := Token.hasKind_bare_append closed .opening ts nofun
  by_cases number : t.kind = .number
  · rw [readOperand_cons, readOperand_cons]
    simp only [Token.kind_bare, number]
    exact constant_number_agrees closed (g := id) operands (by omega)
  by_cases opening : t.kind = .opening
  · rw [readOperand_group opening, readOperand_group (t := t.bare) opening]
    exact operands _ _ ts hn
  by_cases minus : t.kind = .operator .sub
  · exact readOperand_agrees_minus closed operands hn minus
  by_cases call : t.isCallable = true → Token.hasKind .opening ts = false
  · have call' : t.bare.isCallable = true →
        Token.hasKind .opening (ts.map Token.bare ++ tail) = false := by
      rwa [hopening]
    by_cases name : t.kind = .name
    · have hopen := call (by rw [Token.isCallable, name])
      have hopen' := call' (by rw [Token.isCallable, Token.kind_bare, name])
      rw [readOperand_name name hopen, readOperand_name (t := t.bare) name hopen']
      exact readOperator_agrees closed operands (by omega)
    · rw [readOperand_refuses number name opening minus call,
        readOperand_refuses (t := t.bare) number name opening minus call']
      exact expectedError_agrees .operand (t :: ts) (t.bare :: (ts.map Token.bare ++ tail))
  · -- a name or a keyword in front of a parenthesis
    rw [Classical.not_imp, Bool.not_eq_false] at call
    obtain ⟨callable, hopen⟩ := call
    cases ts with
    | nil => cases hopen
    | cons p rest =>
      rw [Token.hasKind_cons, beq_iff_eq] at hopen
      rw [List.length_cons] at hn
      exact readOperand_agrees_callable closed operands (by omega) callable hopen

end Operand

theorem operandsAgree (stop stop' n : Nat) : OperandsAgree stop stop' tail n := by
  induction n with
  | zero => exact fun _ _ _ hn => absurd hn (Nat.not_lt_zero _)
  | succ n ih =>
    intro level outer ts hn
    cases ts with
    | nil => exact readOperand_agrees_tail closed
    | cons t ts => exact readOperand_agrees_cons closed ih (by simpa using hn)

section Readers

variable {ts : List Token}

theorem readExpression_agrees : Agree (Before tail) (readExpression stop ts)
    (readExpression stop' (ts.map Token.bare ++ tail)) :=
  operandsAgree closed stop stop' (ts.length + 1) _ _ ts (Nat.lt_succ_self _)

theorem expectKind_agrees {kind : Token.Kind} {what : Expected} (hkind : kind ≠ .semicolon) :
    Agree (fun a b => b = (a.1.bare, a.2.map Token.bare ++ tail)) (expectKind kind what stop ts)
      (expectKind kind what stop' (ts.map Token.bare ++ tail)) := by
  cases ts with
  | nil =>
    cases tail with
    | nil => exact expectedError_agrees what [] []
    | cons s us =>
      rw [Token.endsStatement, beq_iff_eq] at closed
      simp only [expectKind, List.map_nil, List.nil_append, closed, Ne.symm hkind, if_false]
      exact expectedError_agrees what [] (s :: us)
  | cons t ts =>
    by_cases h : t.kind = kind
    · simp only [expectKind, List.map_cons, List.cons_append, Token.kind_bare, h, if_true]
      exact .ok rfl
    · simp only [expectKind, List.map_cons, List.cons_append, Token.kind_bare, h, if_false]
      exact expectedError_agrees what (t :: ts) (t.bare :: (ts.map Token.bare ++ tail))

theorem readDepth_agrees : Agree (Before tail) (readDepth stop ts)
    (readDepth stop' (ts.map Token.bare ++ tail)) := by
  refine (expectKind_agrees closed (by simp)).bind fun (t, rest) _ h => ?_
  subst h
  refine (number_agrees t).bind fun a _ ha => ?_
  subst ha
  cases a with
  | int n => exact .ok rfl
  | float x => exact .malformed _ _

theorem readSides_agrees : Agree (fun a b => b = (a.1, a.2.1, a.2.2.map Token.bare ++ tail))
    (readSides stop ts) (readSides stop' (ts.map Token.bare ++ tail)) := by
  refine (readExpression_agrees closed).bind fun (pattern, rest) _ h => ?_
  subst h
  refine (expectKind_agrees closed (by simp)).bind fun (arrow, rest) _ h => ?_
  subst h
  refine (readExpression_agrees closed).bind fun (replacement, rest) _ h => ?_
  subst h
  exact .ok rfl

theorem readDefinition_agrees : Agree (Before tail) (readDefinition stop ts)
    (readDefinition stop' (ts.map Token.bare ++ tail)) := by
  refine (expectKind_agrees closed (by simp)).bind fun (name, rest) _ h => ?_
  subst h
  refine (expectKind_agrees closed (by simp)).bind fun (naming, rest) _ h => ?_
  subst h
  refine (readSides_agrees closed).bind fun (pattern, replacement, rest) _ h => ?_
  subst h
  refine (Agree.refl (makeRule pattern replacement name.text)).bind fun rule _ h => ?_
  subst h
  exact .ok rfl

omit closed in
/-- A keyword is a token of the text in front of the tail. -/
theorem tail_of_hasKeyword {keyword : Keyword} (h : Token.hasKeyword keyword ts = true) :
    (ts.map Token.bare ++ tail).tail = ts.tail.map Token.bare ++ tail := by
  cases ts with
  | nil => cases h
  | cons t ts => rfl

theorem readInline_agrees {pattern : Term} : Agree (Before tail) (readInline stop pattern ts)
    (readInline stop' pattern (ts.map Token.bare ++ tail)) := by
  refine (readExpression_agrees closed).bind fun (replacement, rest) _ h => ?_
  subst h
  refine (Agree.refl (makeRule pattern replacement none)).bind fun rule _ h => ?_
  subst h
  simp only [Token.hasKeyword_bare_append closed]
  split
  · rename_i hat
    rw [tail_of_hasKeyword hat]
    refine (readDepth_agrees closed).bind fun (depth, rest) _ h => ?_
    subst h
    exact .ok rfl
  · exact .ok rfl

theorem readApply_agrees {p p' : Nat} {left : Term} : Agree (Before tail)
    (readApply stop p left ts) (readApply stop' p' left (ts.map Token.bare ++ tail)) := by
  unfold readApply
  split
  · refine (readDepth_agrees closed).bind fun (depth, rest) _ h => ?_
    subst h
    exact .ok rfl
  · exact .malformed _ _

theorem readFromExpression_agrees : Agree (Before tail) (readFromExpression stop ts)
    (readFromExpression stop' (ts.map Token.bare ++ tail)) := by
  refine (readExpression_agrees closed).bind fun (left, rest) _ h => ?_
  subst h
  cases rest with
  | nil =>
    cases tail with
    | nil => exact .ok rfl
    | cons s us =>
      rw [Token.endsStatement, beq_iff_eq] at closed
      simp only [List.map_nil, List.nil_append, Token.hasKeyword, closed]
      exact .ok rfl
  | cons t after =>
    have hat : Token.hasKeyword .depth (t.bare :: (after.map Token.bare ++ tail)) =
        Token.hasKeyword .depth (t :: after) := Token.hasKeyword_bare_append closed (t :: after)
    simp only [List.map_cons, List.cons_append]
    simp only [Token.kind_bare, hat]
    split
    · exact readInline_agrees closed
    · split
      · exact readApply_agrees closed
      · exact .ok rfl

theorem readFinish_bare_append : readFinish (ts.map Token.bare ++ tail) =
    ((readFinish ts).1, (readFinish ts).2.map Token.bare ++ tail) := by
  cases ts with
  | nil =>
    cases tail with
    | nil => rfl
    | cons s us =>
      rw [Token.endsStatement, beq_iff_eq] at closed
      simp [readFinish, closed]
  | cons t ts =>
    by_cases h : t.kind = .string <;> simp [readFinish, h]

theorem readStatement_agrees : Agree (Before tail) (readStatement stop ts)
    (readStatement stop' (ts.map Token.bare ++ tail)) := by
  unfold readStatement
  simp only [Token.hasKeyword_bare_append closed]
  split
  · rename_i hkeyword
    rw [tail_of_hasKeyword hkeyword]
    exact readDefinition_agrees closed
  split
  · rename_i hkeyword
    rw [tail_of_hasKeyword hkeyword, readFinish_bare_append closed]
    exact .ok rfl
  split
  · rename_i hkeyword
    rw [tail_of_hasKeyword hkeyword]
    exact .ok rfl
  split
  · rename_i hkeyword
    rw [tail_of_hasKeyword hkeyword]
    exact .ok rfl
  · exact readFromExpression_agrees closed

/-- Induction on the tokens in front of the tail; the statements of the tail come behind theirs. -/
theorem readStatements_agrees_append {skip : Nat} (hskip : skip ≤ ts.length) :
    Agree Eq (do return (← readStatements stop skip ts) ++ (← readStatements stop' 0 tail))
      (readStatements stop' skip (ts.map Token.bare ++ tail)) := by
  induction ts generalizing skip with
  | nil =>
    rw [List.length_nil, Nat.le_zero] at hskip
    subst hskip
    simp only [readStatements, List.map_nil, List.nil_append]
    cases readStatements stop' 0 tail <;> exact .refl _
  | cons t ts ih =>
    cases skip with
    | succ skip => exact ih (Nat.le_of_succ_le_succ hskip)
    | zero =>
      rw [List.map_cons, List.cons_append, readStatements, readStatements, Token.kind_bare]
      split
      · exact ih (Nat.zero_le _)
      · have hstatement : Agree (Before tail) (readStatement stop (t :: ts))
            (readStatement stop' (t.bare :: (ts.map Token.bare ++ tail))) :=
          readStatement_agrees closed
        rw [bind_assoc]
        refine hstatement.bind fun (statement, rest) _ h => ?_
        subst h
        have hlength : (ts.map Token.bare ++ tail).length - (rest.map Token.bare ++ tail).length =
            ts.length - rest.length := by
          simp only [List.length_append, List.length_map]
          omega
        have hskip : ts.length - rest.length ≤ ts.length := Nat.sub_le _ _
        have hrest := (ih hskip).bind_same fun statements => return statement :: statements
        simpa only [bind_assoc, pure_bind, List.cons_append, hlength] using hrest

end Readers

end Closed

theorem readStatements_agrees {ts : List Token} :
    Agree Eq (readStatements stop 0 ts) (readStatements stop' 0 (ts.map Token.bare)) := by
  have hend : readStatements stop' 0 [] = pure [] := rfl
  have h : Agree Eq (do return (← readStatements stop 0 ts) ++ (← readStatements stop' 0 []))
      (readStatements stop' 0 (ts.map Token.bare ++ [])) :=
    readStatements_agrees_append rfl (Nat.zero_le _)
  simpa only [hend, List.append_nil, pure_bind, bind_pure] using h

end Stepwise
