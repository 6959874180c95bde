import Stepwise.Term.Infix
import Stepwise.Language.Statement
import Stepwise.Proofs.Number.Reading
import Stepwise.Proofs.Language.Grammar
import Stepwise.Proofs.Language.Scanning

namespace Stepwise

namespace Term

mutual

/-- Whether the surface language has a text for the term: its names are identifiers, no variable
is a keyword, and its constants are within the binary64 range. -/
def isPrintable : Term → Bool
  | .const a => a.inRange
  | .var x => Token.isIdentifier x && (Keyword.ofWord? x).isNone
  | .app f args => Token.isIdentifier f && allPrintable args

def allPrintable : List Term → Bool
  | [] => true
  | t :: ts => t.isPrintable && allPrintable ts

end

mutual

/-- The term with each constant as its text is read. -/
def asRead : Term → Term
  | .const a => .const a.asRead
  | .var x => .var x
  | .app f args => .app f (asReadAll args)

def asReadAll : List Term → List Term
  | [] => []
  | t :: ts => t.asRead :: asReadAll ts

end

mutual

theorem same_asRead : (t : Term) → t.asRead.same t = true
  | .const a => by simp only [asRead, same, Number.same_iff, Number.value_asRead]
  | .var x => by simp only [asRead, same, beq_self_eq_true]
  | .app f args => by
    simp only [asRead, same, beq_self_eq_true, Bool.true_and, sameAll_asReadAll args]

theorem sameAll_asReadAll : (ts : List Term) → sameAll (asReadAll ts) ts = true
  | [] => rfl
  | t :: ts => by simp only [asReadAll, sameAll, same_asRead t, sameAll_asReadAll ts, Bool.and_self]

end

theorem asReadAll_eq_map (ts : List Term) : asReadAll ts = ts.map asRead := by
  induction ts with
  | nil => rfl
  | cons t ts ih => simp [asReadAll, ih]

theorem isConstant_asRead (t : Term) : t.asRead.isConstant = t.isConstant := by
  cases t <;> rfl

mutual

theorem vars_asRead : (t : Term) → t.asRead.vars = t.vars
  | .const _ | .var _ => rfl
  | .app _ args => varsAll_asReadAll args

theorem varsAll_asReadAll : (ts : List Term) → varsAll (asReadAll ts) = varsAll ts
  | [] => rfl
  | t :: ts => by rw [asReadAll, varsAll, varsAll, vars_asRead t, varsAll_asReadAll ts]

end

theorem precedence_bounds (t : Term) : 1 ≤ t.precedence ∧ t.precedence ≤ 5 := by
  unfold precedence
  split
  · split <;> decide
  · decide
  · split
    · rename_i shape _
      cases shape with
      | negation | power => decide
      | chain o => cases o <;> decide
    · decide

end Term

theorem Operator.level_of_ne_pow {o : Operator} (h : o ≠ .pow) : 1 ≤ o.level ∧ o.level ≤ 2 := by
  cases o with
  | pow => exact absurd rfl h
  | add | sub | mul | div => decide

theorem Operator.level_of_isFlat {o : Operator} (h : o.isFlat = true) :
    1 ≤ o.level ∧ o.level ≤ 2 :=
  level_of_ne_pow (by rintro rfl; cases h)

namespace Phrase

/-- A primary phrase that begins with a numeral is that numeral. -/
theorem numeral_alone {n : Nat} {ts : List Token} {t : Term} {last : Option Operator} :
    Phrase n ts t last → 5 ≤ n → Token.hasKind .number ts = true → ts.tail = []
  | .looser h _, hn, hk => h.numeral_alone (by omega) hk
  | .extended _ flat _ _, hn, _ => by
    have := Operator.level_of_isFlat flat
    omega
  | .nested _ chain _ _ _, hn, _ => by
    have := Operator.level_of_ne_pow chain
    omega
  | .negative .., hn, _ | .negation .., hn, _ | .power .., hn, _ => absurd hn (by decide)
  | .number .., _, _ | .name .., _, _ => rfl
  | .nullary callable .., _, hk | .call callable .., _, hk => by
    rw [Token.hasKind_of_isCallable callable (by simp) (by simp)] at hk
    cases hk
  | .group opens .., _, hk => by simp [Token.hasKind_cons, opens] at hk

/-- A power or a primary phrase that begins with a numeral, but is none, is a power. -/
theorem power_of_numeral {n : Nat} {ts : List Token} {t : Term} {last : Option Operator} :
    Phrase n ts t last → 4 ≤ n → t.isConstant = false → Token.hasKind .number ts = true →
      Token.hasKind (.operator .pow) ts.tail = true
  | .looser h _, hn, ht, hk => h.power_of_numeral (by omega) ht hk
  | .power base kind _, _, _, hk => by
    rw [Token.hasKind_append base.ne_nil] at hk
    rw [List.tail_append_of_ne_nil base.ne_nil, base.numeral_alone (Nat.le_refl 5) hk,
      List.nil_append, Token.hasKind_cons, kind, beq_self_eq_true]
  | .extended _ flat _ _, hn, _, _ => by
    have := Operator.level_of_isFlat flat
    omega
  | .nested _ chain _ _ _, hn, _, _ => by
    have := Operator.level_of_ne_pow chain
    omega
  | .negative .., hn, _, _ | .negation .., hn, _, _ => absurd hn (by decide)
  | .number .., _, ht, _ => by cases ht
  | .name kind .., _, _, hk => by simp [Token.hasKind_cons, kind] at hk
  | .nullary callable .., _, _, hk | .call callable .., _, _, hk => by
    rw [Token.hasKind_of_isCallable callable (by simp) (by simp)] at hk
    cases hk
  | .group opens .., _, _, hk => by simp [Token.hasKind_cons, opens] at hk

end Phrase

/-- The text consists, wherever it stands, of tokens that form the term at the level. -/
def Written (n : Nat) (cs : List Char) (t : Term) (last : Option Operator) : Prop :=
  ∀ p, ∃ ts, Token.Scans p cs ts ∧ Phrase n ts t last

namespace Written

variable {m n : Nat} {cs ds : List Char} {t u : Term} {last last' : Option Operator}

theorem loosen (h : Written m cs t last) (hn : 1 ≤ n) (hm : n < m) : Written n cs t none := by
  intro p
  obtain ⟨ts, hscan, hphrase⟩ := h p
  refine ⟨ts, hscan, ?_⟩
  obtain ⟨k, rfl⟩ := Nat.exists_eq_add_of_lt hm
  exact hphrase.weaken hn

theorem exists_of_le (h : Written m cs t last) (hn : 1 ≤ n) (hm : n ≤ m) :
    ∃ last', Written n cs t last' := by
  rcases Nat.lt_or_eq_of_le hm with hlt | rfl
  · exact ⟨none, h.loosen hn hlt⟩
  · exact ⟨last, h⟩

theorem scans_group {p : Nat} {ts : List Token} (h : Token.Scans (p + 1) cs ts) :
    ∃ opening closing, opening.kind = .opening ∧ closing.kind = .closing ∧
      Token.Scans p ('(' :: cs ++ [')']) (opening :: (ts ++ [closing])) :=
  ⟨_, _, rfl, rfl, .symbol (by decide) rfl (h.append (.symbol (by decide) rfl .nil) rfl)⟩

theorem group (h : Written 1 cs t last) : Written 5 ('(' :: cs ++ [')']) t none := by
  intro p
  obtain ⟨ts, hscan, hphrase⟩ := h (p + 1)
  obtain ⟨opening, closing, ho, hc, hscan'⟩ := scans_group hscan
  exact ⟨_, hscan', .group ho hphrase hc⟩

/-- An operand in parentheses if need be. In parentheses it is no chain that could go on. -/
theorem operand {b : Bool} (h : Written m cs t last) (hm : 1 ≤ m) (hn : 1 ≤ n) (hn' : n ≤ 5)
    (hb : b = false → n ≤ m) :
    ∃ last', Written n (wrapped b cs) t last' ∧
      (last' = none ∨ b = false ∧ m = n ∧ last' = last) := by
  cases b with
  | true =>
    obtain ⟨last₁, h₁⟩ := h.exists_of_le (Nat.le_refl 1) hm
    rcases Nat.lt_or_eq_of_le hn' with hlt | rfl
    · exact ⟨none, h₁.group.loosen hn hlt, Or.inl rfl⟩
    · exact ⟨none, h₁.group, Or.inl rfl⟩
  | false =>
    rcases Nat.lt_or_eq_of_le (hb rfl) with hlt | rfl
    · exact ⟨none, h.loosen hn hlt, Or.inl rfl⟩
    · exact ⟨last, h, Or.inr ⟨rfl, rfl, rfl⟩⟩

theorem const {a : Number} (h : a.inRange = true) :
    Written (Term.const a).precedence a.text.toList (.const a.asRead) none := by
  intro p
  obtain ⟨n, b, htext, hread, has⟩ := Number.exists_numeral_text h
  have hread' : Number.ofNumeral? (String.ofList n.text).toList = some b := by
    rwa [String.toList_ofList]
  have hrange := Number.inRange_asRead h
  rw [htext, Term.precedence]
  cases hneg : a.isNegative with
  | true =>
    simp only [hneg, if_true] at has ⊢
    rw [has, Number.inRange_neg] at hrange
    rw [has]
    exact ⟨_, .symbol (by decide) rfl (Token.scans_numeral n), .negative rfl rfl hread' hrange⟩
  | false =>
    simp only [hneg, Bool.false_eq_true, if_false] at has ⊢
    rw [has] at hrange
    rw [has]
    exact ⟨_, Token.scans_numeral n, .number rfl hread' hrange⟩

theorem var {x : String} (h : Token.isIdentifier x = true) (hk : Keyword.ofWord? x = none) :
    Written 5 x.toList (.var x) none := by
  intro p
  refine ⟨_, Token.scans_word h, .name ?_⟩
  rw [Token.wordKind, String.ofList_toList, hk]

theorem arguments {parts : List (List Char)} {args : List Term} (hne : parts ≠ [])
    (h : List.Forall₂ (fun cs t => ∃ last, Written 1 cs t last) parts args) :
    ∀ p, ∃ ts, Token.Scans p (commaSeparated parts) ts ∧ Arguments ts args := by
  induction h with
  | nil => exact absurd rfl hne
  | cons hfirst hrest ih =>
    intro p
    obtain ⟨last, hwritten⟩ := hfirst
    obtain ⟨ts, hscan, hphrase⟩ := hwritten p
    cases hrest with
    | nil =>
      rw [commaSeparated, List.intercalate_singleton]
      exact ⟨ts, hscan, .one hphrase⟩
    | cons hsecond hrest =>
      obtain ⟨us, hscan', hargs⟩ := ih (by simp) (p + _ + 2)
      exact ⟨_, hscan.append (.symbol (by decide) rfl (.blank hscan')) rfl,
        .more hphrase rfl hargs⟩

theorem isCallable_word {f : String} {p : Nat} :
    (⟨Token.wordKind f.toList, f, p⟩ : Token).isCallable = true := by
  unfold Token.wordKind
  split <;> rfl

theorem call {f : String} {parts : List (List Char)} {args : List Term}
    (hf : Token.isIdentifier f = true)
    (h : List.Forall₂ (fun cs t => ∃ last, Written 1 cs t last) parts args) :
    Written 5 (writtenCall f parts) (.app f args) none := by
  intro p
  have hword : Token.Scans p f.toList _ := Token.scans_word hf
  rw [writtenCall, List.append_assoc, List.cons_append]
  cases h with
  | nil =>
    exact ⟨_, hword.append (.symbol (by decide) rfl (.symbol (by decide) rfl .nil)) rfl,
      .nullary isCallable_word rfl rfl⟩
  | cons hfirst hrest =>
    obtain ⟨ts, hscan, hargs⟩ := arguments (by simp) (.cons hfirst hrest) (p + f.toList.length + 1)
    exact ⟨_, hword.append (.symbol (by decide) rfl
      (hscan.append (.symbol (by decide) rfl .nil) rfl)) rfl, .call isCallable_word rfl hargs rfl⟩

end Written

/-- A text that stands for a term is read as it. -/
theorem readTerm_of_written {n : Nat} {s : String} {t : Term} {last : Option Operator}
    (hn : 1 ≤ n) (h : Written n s.toList t last) : readTerm s = .ok t := by
  obtain ⟨last', h'⟩ := h.exists_of_le (Nat.le_refl 1) hn
  obtain ⟨ts, hscan, hphrase⟩ := h' 0
  have htokens : tokensOf s = .ok ts := by rw [tokensOf, tokenize_of_scans hscan]; rfl
  simp only [readTerm, htokens, bind, Except.bind, readExpression_of_phrase_all hphrase]
  rfl

end Stepwise
