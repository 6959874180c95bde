import Stepwise.Proofs.Language.Acceptance
import Stepwise.Proofs.Language.Truncation

namespace Stepwise

/-- What has to follow so that an expression is complete: perhaps an operand, and then a number of
closing parentheses. -/
def completion (operand : Bool) (closings : Nat) : List Token.Kind :=
  (if operand then [.name] else []) ++ List.replicate closings .closing

/-- The tokens begin like the others or like a completion. Apart from the tokens it takes, reading
looks no further than at the next one. -/
def BeginsLike (operand : Bool) (rest ws : List Token) : Prop :=
  ∀ kind, kind ≠ (if operand then .name else .closing) →
    Token.hasKind kind ws = true → Token.hasKind kind rest = true

namespace BeginsLike

variable {operand : Bool} {closings : Nat} {rest seen after ws ts : List Token}

theorem refl : BeginsLike operand rest rest := fun _ _ h => h

theorem of_completion (h : ts.map Token.kind = completion operand closings) :
    BeginsLike operand rest ts := by
  intro kind hne hkind
  cases ts with
  | nil => cases hkind
  | cons t ts =>
    rw [Token.hasKind_cons, beq_iff_eq] at hkind
    cases operand with
    | true =>
      rw [List.map_cons, completion, if_pos rfl, List.singleton_append, List.cons.injEq] at h
      exact absurd (hkind.symm.trans h.1) hne
    | false =>
      cases closings with
      | zero => cases h
      | succ n =>
        rw [List.map_cons, completion, if_neg Bool.false_ne_true, List.nil_append,
          List.replicate_succ, List.cons.injEq] at h
        exact absurd (hkind.symm.trans h.1) hne

theorem of_seen (h : seen ≠ []) : BeginsLike operand (seen ++ after) (seen ++ ws) := by
  intro kind _ hkind
  rwa [Token.hasKind_append h] at hkind ⊢

theorem hasKind_eq_false (h : BeginsLike operand rest ws) {kind : Token.Kind}
    (hne : kind ≠ (if operand then .name else .closing))
    (hrest : Token.hasKind kind rest = false) : Token.hasKind kind ws = false := by
  rw [Bool.eq_false_iff] at hrest ⊢
  exact fun hws => hrest (h kind hne hws)

end BeginsLike

/-- What reads tokens of a text that ends at a position. -/
abbrev Reader := Nat → List Token → Except ReadError (Term × List Token)

/-- The error points at the token behind those that were seen, or at the end of the text, and what
was seen is read as a whole with a completion behind it. -/
inductive FirstMistake (stop : Nat) (read : Reader) (operand : Bool) :
    List Token → SyntaxError → Prop
  | behind (seen after : List Token) (missing : Bool) (closings : Nat) {e : SyntaxError}
      (points : e.position? = some (Token.startOf stop after))
      (start : seen = [] → missing = operand)
      (completes : ∀ stop' ts, ts.map Token.kind = completion missing closings →
        ∃ t, read stop' (seen ++ ts) = .ok (t, [])) :
      FirstMistake stop read operand (seen ++ after) e

variable {stop : Nat} {level : Level} {outer : List Enclosing}

/-- What was taken in front of the tokens belongs to what was seen. -/
theorem FirstMistake.prepend {read read' : Reader} {operand operand' : Bool}
    {rest : List Token} {e : SyntaxError} (h : FirstMistake stop read' operand rest e)
    (us : List Token) (nonempty : us ≠ [])
    (reads : ∀ stop' ws, BeginsLike operand rest ws → read stop' (us ++ ws) = read' stop' ws) :
    FirstMistake stop read operand' (us ++ rest) e := by
  cases h with
  | behind seen after missing closings points start completes =>
    rw [← List.append_assoc]
    refine .behind (us ++ seen) after missing closings points (fun hnil => ?_) ?_
    · exact absurd (List.append_eq_nil_iff.mp hnil).1 nonempty
    · intro stop' ts hts
      rw [List.append_assoc, reads stop']
      · exact completes stop' ts hts
      · by_cases hseen : seen = []
        · rw [hseen, List.nil_append]
          exact .of_completion (start hseen ▸ hts)
        · exact .of_seen hseen

/-- Behind an operand the closing parentheses end the expression. -/
theorem readOperator_closings {u : Term} {ts : List Token}
    (h : ts.map Token.kind = completion false outer.length) :
    ∃ t, readOperator stop level outer u ts = .ok (t, []) := by
  rw [completion, if_neg Bool.false_ne_true, List.nil_append] at h
  induction outer generalizing level u ts with
  | nil =>
    obtain rfl : ts = [] := by simpa using h
    exact ⟨_, rfl⟩
  | cons enclosing outer ih =>
    cases ts with
    | nil => cases h
    | cons t ts =>
      rw [List.map_cons, List.length_cons, List.replicate_succ, List.cons.injEq] at h
      obtain ⟨⟨⟩ | ⟨f, args⟩, below⟩ := enclosing
      · rw [readOperator_group h.1]
        exact ih h.2
      · rw [readOperator_call h.1]
        exact ih h.2

/-- A name and the closing parentheses end the expression where an operand has to come. -/
theorem readOperand_completion {ts : List Token}
    (h : ts.map Token.kind = completion true outer.length) :
    ∃ t, readOperand stop level outer ts = .ok (t, []) := by
  cases ts with
  | nil => cases h
  | cons t ts =>
    rw [List.map_cons, completion, if_pos rfl, List.singleton_append, List.cons.injEq] at h
    have hclosings : ts.map Token.kind = completion false outer.length := h.2
    have hlike : BeginsLike false [] ts := .of_completion hclosings
    rw [readOperand_name h.1 (hlike.hasKind_eq_false (by decide) rfl)]
    exact readOperator_closings hclosings

theorem position_expectedError {what : Expected} {ts : List Token} {e : SyntaxError}
    (h : expectedError what stop ts = .malformed e) :
    e.position? = some (Token.startOf stop ts) := by
  cases ts with
  | nil =>
    cases h
    rfl
  | cons t ts =>
    cases h
    rfl

/-- What the reader does where an operand has to come, whatever follows the tokens it takes: it
takes an operand, or something in front of one, or it gives up. -/
inductive OperandTurn (stop : Nat) (level : Level) (outer : List Enclosing) : List Token → Prop
  | operand (us rest : List Token) (u : Term) (nonempty : us ≠ [])
      (reads : ∀ stop' ws, BeginsLike false rest ws →
        readOperand stop' level outer (us ++ ws) = readOperator stop' level outer u ws) :
      OperandTurn stop level outer (us ++ rest)
  | deeper (us rest : List Token) (level' : Level) (outer' : List Enclosing) (nonempty : us ≠ [])
      (reads : ∀ stop' ws, BeginsLike true rest ws →
        readOperand stop' level outer (us ++ ws) = readOperand stop' level' outer' ws) :
      OperandTurn stop level outer (us ++ rest)
  | refused {ts : List Token} (e : SyntaxError)
      (error : readOperand stop level outer ts = .error (.malformed e))
      (mistake : FirstMistake stop (fun stop' => readOperand stop' level outer) true ts e) :
      OperandTurn stop level outer ts
  | overflow {ts : List Token} (error : readOperand stop level outer ts = .error .integerTooLarge) :
      OperandTurn stop level outer ts

/-- Right here an operand is missing. -/
theorem FirstMistake.here {ts : List Token} {e : SyntaxError}
    (points : e.position? = some (Token.startOf stop ts)) :
    FirstMistake stop (fun stop' => readOperand stop' level outer) true ts e :=
  .behind [] ts true outer.length points (fun _ => rfl) fun _ _ hts => readOperand_completion hts

/-- Right here a closing parenthesis is missing. -/
theorem FirstMistake.unclosed {u : Term} {ts : List Token} {e : SyntaxError}
    (points : e.position? = some (Token.startOf stop ts)) :
    FirstMistake stop (fun stop' => readOperator stop' level outer u) false ts e :=
  .behind [] ts false outer.length points (fun _ => rfl) fun _ _ hts => readOperator_closings hts

section Turns

variable {t : Token} {ts : List Token}

theorem operandTurn_number (kind : t.kind = .number) : OperandTurn stop level outer (t :: ts) := by
  have hread : readOperand stop level outer (t :: ts) = _ := readOperand_numeral kind ts
  rcases constant_number_cases kind (g := id) (fun _ => rfl)
    (fun u => readOperator stop level outer u ts) with ⟨a, hv, hr, -⟩ | ⟨e, he, h⟩ | ⟨-, h⟩
  · exact .operand [t] ts (.const a) (by simp) fun _ _ _ => readOperand_number kind hv hr
  · exact .refused e (hread.trans h) (.here he)
  · exact .overflow (hread.trans h)

/-- A sign in front of what is no numeral negates the operand. -/
theorem readOperand_negation_of_beginsLike (kind : t.kind = .operator .sub)
    (number : Token.hasKind .number ts = false) {stop' : Nat} {ws : List Token}
    (h : BeginsLike true ts ws) :
    readOperand stop' level outer (t :: ws) = readOperand stop' level.negate outer ws := by
  refine readOperand_negation kind fun hnumber => ?_
  rw [h.hasKind_eq_false (by decide) number] at hnumber
  cases hnumber

/-- Behind a sign the numeral is refused, and a name can take its place. -/
theorem FirstMistake.behindSign {e : SyntaxError} (kind : t.kind = .operator .sub)
    (points : e.position? = some (Token.startOf stop ts)) :
    FirstMistake stop (fun stop' => readOperand stop' level outer) true (t :: ts) e := by
  refine .behind [t] ts true outer.length points (by simp) fun stop' ws hws => ?_
  have hlike : BeginsLike true [] ws := .of_completion hws
  rw [List.singleton_append, readOperand_negation_of_beginsLike kind rfl hlike]
  exact readOperand_completion hws

theorem operandTurn_negative {n : Token} {rest : List Token} (kind : t.kind = .operator .sub)
    (number : n.kind = .number) (behind : Token.hasKind (.operator .pow) rest = false) :
    OperandTurn stop level outer (t :: n :: rest) := by
  have hread : readOperand stop level outer (t :: n :: rest) = _ :=
    readOperand_signed kind number behind
  rcases constant_number_cases number (fun _ => Number.inRange_neg)
    (fun u => readOperator stop level outer u rest) with ⟨a, hv, hr, -⟩ | ⟨e, he, h⟩ | ⟨-, h⟩
  · exact .operand [t, n] rest (.const a.neg) (by simp) fun _ ws hws =>
      readOperand_negative kind number hv hr (hws.hasKind_eq_false (by decide) behind)
  · exact .refused e (hread.trans h) (.behindSign kind he)
  · exact .overflow (hread.trans h)

/-- A sign in front of a numeral that is the base of a power negates the power. -/
theorem operandTurn_negativeBase {n caret : Token} {rest : List Token}
    (kind : t.kind = .operator .sub) (number : n.kind = .number)
    (pow : caret.kind = .operator .pow) :
    OperandTurn stop level outer (t :: n :: caret :: rest) := by
  have hnegation (stop' : Nat) (ws : List Token) :
      readOperand stop' level outer (t :: n :: caret :: ws) =
        readOperand stop' level.negate outer (n :: caret :: ws) :=
    readOperand_negation kind fun _ => by rw [List.tail_cons, Token.hasKind_cons, pow]; rfl
  have hread : readOperand stop level outer (t :: n :: caret :: rest) = _ :=
    (hnegation stop rest).trans (readOperand_numeral number (caret :: rest))
  rcases constant_number_cases number (g := id) (fun _ => rfl)
    (fun u => readOperator stop level.negate outer u (caret :: rest)) with
    ⟨a, hv, hr, -⟩ | ⟨e, he, h⟩ | ⟨-, h⟩
  · refine .deeper [t, n, caret] rest (level.negate.push (.const a) .pow) outer (by simp)
      fun stop' ws _ => ?_
    rw [List.cons_append, List.cons_append, List.singleton_append, hnegation,
      readOperand_number number hv hr, readOperator_operator pow]
  · exact .refused e (hread.trans h) (.behindSign kind he)
  · exact .overflow (hread.trans h)

theorem operandTurn_negation (kind : t.kind = .operator .sub)
    (operand : Token.hasKind .number ts = true → Token.hasKind (.operator .pow) ts.tail = true) :
    OperandTurn stop level outer (t :: ts) := by
  cases hnumber : Token.hasKind .number ts with
  | false =>
    exact .deeper [t] ts level.negate outer (by simp) fun _ _ hws =>
      readOperand_negation_of_beginsLike kind hnumber hws
  | true =>
    have hpow := operand hnumber
    obtain _ | ⟨n, _ | ⟨caret, rest⟩⟩ := ts
    · cases hnumber
    · cases hpow
    rw [Token.hasKind_cons, beq_iff_eq] at hnumber
    rw [List.tail_cons, Token.hasKind_cons, beq_iff_eq] at hpow
    exact operandTurn_negativeBase kind hnumber hpow

theorem operandTurn_callable {opening : Token} {rest : List Token} (callable : t.isCallable = true)
    (opens : opening.kind = .opening) : OperandTurn stop level outer (t :: opening :: rest) := by
  cases hclosing : Token.hasKind .closing rest with
  | false =>
    exact .deeper [t, opening] rest {} (⟨.call t.text [], level⟩ :: outer) (by simp)
      fun _ _ hws => readOperand_call callable opens (hws.hasKind_eq_false (by decide) hclosing)
  | true =>
    obtain _ | ⟨closing, rest⟩ := rest
    · cases hclosing
    rw [Token.hasKind_cons, beq_iff_eq] at hclosing
    exact .operand [t, opening, closing] rest (.app t.text []) (by simp)
      fun _ _ _ => readOperand_nullary callable opens hclosing

theorem operandTurn_refused
    (h : readOperand stop level outer ts = .error (expectedError .operand stop ts)) :
    OperandTurn stop level outer ts := by
  obtain ⟨e, he⟩ := expectedError_eq .operand stop ts
  exact .refused e (h.trans (congrArg _ he)) (.here (position_expectedError he))

theorem operandTurn (stop : Nat) (level : Level) (outer : List Enclosing) (ts : List Token) :
    OperandTurn stop level outer ts := by
  cases operandStart ts with
  | nothing => exact operandTurn_refused (by rw [readOperand.eq_def])
  | number kind => exact operandTurn_number kind
  | @name t ts kind behind =>
    exact .operand [t] ts (.var t.text) (by simp) fun _ _ hws =>
      readOperand_name kind (hws.hasKind_eq_false (by decide) behind)
  | callable callable opens => exact operandTurn_callable callable opens
  | @opening t ts kind =>
    exact .deeper [t] ts {} (⟨.group, level⟩ :: outer) (by simp) fun _ _ _ => readOperand_group kind
  | negation kind operand => exact operandTurn_negation kind operand
  | negative kind number behind => exact operandTurn_negative kind number behind
  | other refused => exact operandTurn_refused (refused _ _ _)

end Turns

/-- Where an operand has to come, an error is the first mistake, as long as fewer than `n` tokens
are left. -/
def OperandMistakes (stop n : Nat) : Prop :=
  ∀ (level : Level) (outer : List Enclosing) (ts : List Token) (e : SyntaxError), ts.length < n →
    readOperand stop level outer ts = .error (.malformed e) →
    FirstMistake stop (fun stop' => readOperand stop' level outer) true ts e

/-- Induction on the tokens behind the operand: a closing parenthesis makes an operand of what
stands before it, and behind everything else an operand has to come. -/
theorem readOperator_firstMistake {n : Nat} {u : Term} {ts : List Token} {e : SyntaxError}
    (operands : OperandMistakes stop n) (hn : ts.length ≤ n)
    (h : readOperator stop level outer u ts = .error (.malformed e)) :
    FirstMistake stop (fun stop' => readOperator stop' level outer u) false ts e := by
  induction ts generalizing level outer u with
  | nil =>
    cases outer with
    | nil => cases h
    | cons enclosing outer => exact .unclosed (position_expectedError (Except.error.inj h))
  | cons t ts ih =>
    rw [List.length_cons] at hn
    rw [readOperator_cons] at h
    split at h
    · rename_i o kind
      exact (operands _ _ ts e (by omega) h).prepend [t] (by simp)
        fun _ _ _ => readOperator_operator kind
    · cases h
    · rename_i kind
      exact (ih (by omega) h).prepend [t] (by simp) fun _ _ _ => readOperator_group kind
    · rename_i kind
      exact (ih (by omega) h).prepend [t] (by simp) fun _ _ _ => readOperator_call kind
    · rename_i kind
      exact (operands _ _ ts e (by omega) h).prepend [t] (by simp)
        fun _ _ _ => readOperator_comma kind
    · exact .unclosed (position_expectedError (Except.error.inj h))

theorem readOperand_firstMistake {ts : List Token} {e : SyntaxError}
    (h : readOperand stop level outer ts = .error (.malformed e)) :
    FirstMistake stop (fun stop' => readOperand stop' level outer) true ts e := by
  induction hn : ts.length using Nat.strongRecOn generalizing level outer ts e with
  | _ n ih =>
    have operands : OperandMistakes stop n := fun _ _ _ _ hlt h => ih _ hlt h rfl
    have turn := operandTurn stop level outer ts
    cases turn with
    | operand us rest u nonempty reads =>
      rw [reads stop rest .refl] at h
      have hrest : rest.length ≤ n := by
        rw [← hn, List.length_append]
        omega
      exact (readOperator_firstMistake operands hrest h).prepend us nonempty reads
    | deeper us rest level' outer' nonempty reads =>
      rw [reads stop rest .refl] at h
      have hpos : 0 < us.length := List.length_pos_iff.mpr nonempty
      have hrest : rest.length < n := by
        rw [← hn, List.length_append]
        omega
      exact (operands level' outer' rest e hrest h).prepend us nonempty reads
    | refused e' error mistake =>
      rw [error] at h
      cases h
      exact mistake
    | overflow error =>
      rw [error] at h
      cases h

theorem readTerm_firstMistake {text : String} {tokens : List Token} {e : SyntaxError}
    (htokens : tokenize text = .ok tokens) (h : readTerm text = .error (.malformed e)) :
    FirstMistake text.length readExpression true tokens e := by
  rw [readTerm_of_tokens htokens] at h
  have hreading := readExpression_reading text.length tokens
  cases hresult : readExpression text.length tokens with
  | error error =>
    rw [hresult] at h
    cases h
    exact readOperand_firstMistake hresult
  | ok result =>
    rw [hresult] at h hreading
    cases hreading with
    | expression us after split phrase =>
      subst split
      cases after with
      | nil => cases h
      | cons a after =>
        -- the expression is complete, and something is left
        cases h
        refine .behind us (a :: after) false 0 rfl (fun hnil => absurd hnil phrase.ne_nil) ?_
        intro stop' ts hts
        obtain rfl : ts = [] := List.map_eq_nil_iff.mp hts
        rw [List.append_nil]
        exact ⟨_, readExpression_of_phrase_all phrase⟩

/-- The completion as it is typed. -/
def completionText (operand : Bool) (closings : Nat) : List Char :=
  (if operand then ['x'] else []) ++ List.replicate closings ')'

theorem Token.scans_closings (p closings : Nat) : ∃ ts : List Token,
    Scans p (List.replicate closings ')') ts ∧
      ts.map Token.kind = List.replicate closings .closing := by
  induction closings generalizing p with
  | zero => exact ⟨[], .nil, rfl⟩
  | succ n ih =>
    obtain ⟨ts, hscans, hkinds⟩ := ih (p + 1)
    exact ⟨⟨.closing, ")", p⟩ :: ts, .symbol (by decide) rfl hscans, congrArg (_ :: ·) hkinds⟩

theorem Token.scans_completionText (p : Nat) (operand : Bool) (closings : Nat) :
    ∃ ts : List Token, Scans p (completionText operand closings) ts ∧
      ts.map Token.kind = completion operand closings := by
  cases operand with
  | false => exact scans_closings p closings
  | true =>
    obtain ⟨ts, hscans, hkinds⟩ := scans_closings (p + 1) closings
    have hends : endsWord (List.replicate closings ')') = true := by
      cases closings <;> rfl
    exact ⟨_, (scans_word (s := "x") (by decide)).append hscans hends, congrArg (_ :: ·) hkinds⟩

/-- The completion begins on a line of its own, for the text may end in a comment. -/
theorem tokenize_completed {text : String} {seen : List Token} (h : tokenize text = .ok seen)
    (operand : Bool) (closings : Nat) : ∃ ts : List Token,
      tokenize (text ++ String.ofList ('\n' :: completionText operand closings)) =
        .ok (seen ++ ts) ∧
      ts.map Token.kind = completion operand closings := by
  obtain ⟨ts, hscans, hkinds⟩ :=
    Token.scans_completionText (0 + text.toList.length + 1) operand closings
  refine ⟨ts, ?_, hkinds⟩
  have hcompletion := hscans [] rfl
  rw [List.append_nil, Token.scan, Except.map, List.append_nil] at hcompletion
  rw [tokenize] at h
  rw [tokenize, String.toList_append, String.toList_ofList, Token.scan_append_newline, h,
    hcompletion]
  rfl

/-- In front of the first mistake a text can be completed. -/
theorem FirstMistake.exists_continuation {text : String} {tokens : List Token} {e : SyntaxError}
    (htokens : tokenize text = .ok tokens)
    (h : FirstMistake text.length readExpression true tokens e) :
    ∃ p, e.position? = some p ∧ ((∃ t ∈ tokens, t.position = p) ∨ p = text.length) ∧
      ∃ continuation t,
        readTerm (String.ofList (text.toList.take p) ++ continuation) = .ok t := by
  cases h with
  | behind seen after missing closings points start completes =>
    obtain ⟨p, hp, hseen⟩ := Token.scan_take htokens
    rw [Nat.zero_add, String.length_toList, Nat.zero_add] at hp
    rw [hp] at points
    refine ⟨p, points, ?_, ?_⟩
    · cases after with
      | nil => exact Or.inr hp.symm
      | cons t after => exact Or.inl ⟨t, by simp, hp⟩
    · have hfront : tokenize (String.ofList (text.toList.take p)) = .ok seen := by
        rw [tokenize, String.toList_ofList, hseen]
      obtain ⟨ts, htokens', hkinds⟩ := tokenize_completed hfront missing closings
      obtain ⟨t, ht⟩ := completes _ ts hkinds
      refine ⟨String.ofList ('\n' :: completionText missing closings), t, ?_⟩
      rw [readTerm_of_tokens htokens', ht]
      rfl

/-- Where an expression is refused, what stands in front of the error can be completed. Where a
text does not split into tokens, what stands in front of the error does, and nothing can start
there. -/
theorem readTerm_error_points_at_first_mistake (text : String) :
    (∀ tokens e, tokenize text = .ok tokens → readTerm text = .error (.malformed e) →
      ∃ p, e.position? = some p ∧ ((∃ t ∈ tokens, t.position = p) ∨ p = text.length) ∧
        ∃ continuation t,
          readTerm (String.ofList (text.toList.take p) ++ continuation) = .ok t) ∧
    (∀ e, tokenize text = .error e →
      ∃ p, e.position? = some p ∧ p < text.length ∧
        (∃ tokens, tokenize (String.ofList (text.toList.take p)) = .ok tokens) ∧
        ∀ kind c ds rest, text.toList.drop p = c :: ds ++ rest →
          ¬ Token.Lexeme rest kind c ds) := by
  refine ⟨fun tokens e htokens h =>
    (readTerm_firstMistake htokens h).exists_continuation htokens, fun e h => ?_⟩
  obtain ⟨p, c, cs, hposition, hdrop, hstuck, tokens, htokens⟩ := Token.scan_take_of_error h
  rw [Nat.zero_add] at hposition
  refine ⟨p, hposition, ?_, ⟨tokens, by rwa [tokenize, String.toList_ofList]⟩, ?_⟩
  · have hlength := congrArg List.length hdrop
    rw [List.length_drop, List.length_cons, String.length_toList] at hlength
    omega
  · intro kind d ds rest hsplit
    rw [hdrop, List.cons_append, List.cons.injEq] at hsplit
    obtain ⟨rfl, hcs⟩ := hsplit
    exact Token.not_lexeme_of_stuck hstuck kind ds rest hcs

/-- Behind an operand in a group a name is left over, and the group can be closed in front of it.
A lone equals sign begins nothing. -/
theorem readTerm_error_points_at_first_mistake_nested :
    (∃ e, readTerm "f(a + (x^-b c), d" = .error (.malformed e) ∧ e.position? = some 12 ∧
      ∃ continuation t, readTerm ("f(a + (x^-b " ++ continuation) = .ok t) ∧
    (∃ e, tokenize "f(a) = 2" = .error e ∧ e.position? = some 5 ∧
      ∃ tokens, tokenize "f(a) " = .ok tokens) := by
  let tokens : List Token :=
    [⟨.name, "f", 0⟩, ⟨.opening, "(", 1⟩, ⟨.name, "a", 2⟩, ⟨.operator .add, "+", 4⟩,
      ⟨.opening, "(", 6⟩, ⟨.name, "x", 7⟩, ⟨.operator .pow, "^", 8⟩, ⟨.operator .sub, "-", 9⟩,
      ⟨.name, "b", 10⟩, ⟨.name, "c", 12⟩, ⟨.closing, ")", 13⟩, ⟨.comma, ",", 14⟩,
      ⟨.name, "d", 16⟩]
  have htokens : tokenize "f(a + (x^-b c), d" = .ok tokens := ok_of_toOption (by decide +kernel)
  have herror : readTerm "f(a + (x^-b c), d" =
      .error (.malformed (.expected .closing (some "c") 12)) := by
    rw [readTerm_of_tokens htokens]
    rfl
  have hlone : tokenize "f(a) = 2" = .error (.loneEquals 5) := by rfl
  obtain ⟨p, hp, -, hcontinuation⟩ :=
    (readTerm_error_points_at_first_mistake _).1 _ _ htokens herror
  obtain ⟨q, hq, -, hfront, -⟩ := (readTerm_error_points_at_first_mistake _).2 _ hlone
  cases hp
  cases hq
  exact ⟨⟨_, herror, rfl, hcontinuation⟩, _, hlone, rfl, hfront⟩

end Stepwise
