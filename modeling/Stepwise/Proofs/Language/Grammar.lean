import Stepwise.Language.Expression

namespace Stepwise

def Operator.level : Operator → Nat
  | .add | .sub => 1
  | .mul | .div => 2
  | .pow => 4

mutual

/-- The tokens form the term at the level: 1 for sums, 2 for products, 3 for negations, 4 for
powers, and 5 for numerals, names, calls and groups. A chain remembers its last operator. -/
inductive Phrase : Nat → List Token → Term → Option Operator → Prop
  | looser {n : Nat} {ts : List Token} {t : Term} {last : Option Operator}
      (phrase : Phrase (n + 1) ts t last) (positive : 1 ≤ n) : Phrase n ts t none
  /-- The run goes on with its own operator. -/
  | extended {o : Operator} {ts us : List Token} {sign : Token} {args : List Term} {u : Term}
      {last : Option Operator} (left : Phrase o.level ts (.app o.functor args) (some o))
      (flat : o.isFlat = true) (kind : sign.kind = .operator o)
      (right : Phrase (o.level + 1) us u last) :
      Phrase o.level (ts ++ sign :: us) (.app o.functor (args ++ [u])) (some o)
  | nested {o : Operator} {ts us : List Token} {sign : Token} {t u : Term}
      {before last : Option Operator} (left : Phrase o.level ts t before) (chain : o ≠ .pow)
      (fresh : ¬ (o.isFlat = true ∧ before = some o)) (kind : sign.kind = .operator o)
      (right : Phrase (o.level + 1) us u last) :
      Phrase o.level (ts ++ sign :: us) (.app o.functor [t, u]) (some o)
  /-- A negative constant. No power goes on behind it, for only what has level 5 can be a base. -/
  | negative {sign numeral : Token} {a : Number} (kind : sign.kind = .operator .sub)
      (number : numeral.kind = .number) (value : Number.ofNumeral? numeral.text.toList = some a)
      (inRange : a.inRange = true) : Phrase 3 [sign, numeral] (.const a.neg) none
  /-- A minus sign negates what is more than a numeral. -/
  | negation {sign : Token} {ts : List Token} {t : Term} {last : Option Operator}
      (kind : sign.kind = .operator .sub)
      (operand : Token.hasKind .number ts = true → Token.hasKind (.operator .pow) ts.tail = true)
      (phrase : Phrase 3 ts t last) : Phrase 3 (sign :: ts) (.app negationFunctor [t]) none
  | power {ts us : List Token} {sign : Token} {t u : Term} {first last : Option Operator}
      (base : Phrase 5 ts t first) (kind : sign.kind = .operator .pow)
      (exponent : Phrase 3 us u last) :
      Phrase 4 (ts ++ sign :: us) (.app Operator.pow.functor [t, u]) none
  | number {numeral : Token} {a : Number} (kind : numeral.kind = .number)
      (value : Number.ofNumeral? numeral.text.toList = some a) (inRange : a.inRange = true) :
      Phrase 5 [numeral] (.const a) none
  | name {word : Token} (kind : word.kind = .name) : Phrase 5 [word] (.var word.text) none
  | nullary {word opening closing : Token} (callable : word.isCallable = true)
      (opens : opening.kind = .opening) (closes : closing.kind = .closing) :
      Phrase 5 [word, opening, closing] (.app word.text []) none
  | call {word opening closing : Token} {ts : List Token} {args : List Term}
      (callable : word.isCallable = true) (opens : opening.kind = .opening)
      (arguments : Arguments ts args) (closes : closing.kind = .closing) :
      Phrase 5 (word :: opening :: (ts ++ [closing])) (.app word.text args) none
  | group {opening closing : Token} {ts : List Token} {t : Term} {last : Option Operator}
      (opens : opening.kind = .opening) (phrase : Phrase 1 ts t last)
      (closes : closing.kind = .closing) : Phrase 5 (opening :: (ts ++ [closing])) t none

/-- Arguments between commas, at least one. -/
inductive Arguments : List Token → List Term → Prop
  | one {ts : List Token} {t : Term} {last : Option Operator} (phrase : Phrase 1 ts t last) :
      Arguments ts [t]
  | more {ts us : List Token} {comma : Token} {t : Term} {args : List Term}
      {last : Option Operator} (phrase : Phrase 1 ts t last) (kind : comma.kind = .comma)
      (rest : Arguments us args) : Arguments (ts ++ comma :: us) (t :: args)

end

namespace Token

/-- Whether a phrase can end before the tokens: no call and no power goes on there. -/
def endsPhrase (ts : List Token) : Bool :=
  !hasKind .opening ts && !hasKind (.operator .pow) ts

/-- Whether an expression can end before the tokens: no call and no operator goes on there. -/
def endsExpression : List Token → Bool
  | t :: _ => match t.kind with
    | .opening | .operator _ => false
    | _ => true
  | [] => true

theorem hasKind_append {kind : Kind} {ts us : List Token} (h : ts ≠ []) :
    hasKind kind (ts ++ us) = hasKind kind ts := by
  obtain ⟨t, ts, rfl⟩ := List.exists_cons_of_ne_nil h
  rfl

theorem hasKind_cons {kind : Kind} {t : Token} {ts : List Token} :
    hasKind kind (t :: ts) = (t.kind == kind) := rfl

theorem kind_of_isCallable {t : Token} (h : t.isCallable = true) :
    t.kind = .name ∨ ∃ k, t.kind = .keyword k := by
  unfold isCallable at h
  split at h
  · rename_i hk
    exact Or.inl hk
  · rename_i k hk
    exact Or.inr ⟨k, hk⟩
  · cases h

/-- A word that can name a functor is a name or a keyword, and no other token. -/
theorem hasKind_of_isCallable {t : Token} {ts : List Token} {kind : Kind}
    (h : t.isCallable = true) (hn : kind ≠ .name) (hk : ∀ k, kind ≠ .keyword k) :
    hasKind kind (t :: ts) = false := by
  rw [hasKind_cons, beq_eq_false_iff_ne]
  rcases kind_of_isCallable h with ht | ⟨k, ht⟩
  · rw [ht]
    exact hn.symm
  · rw [ht]
    exact (hk k).symm

theorem endsPhrase_of_kind {t : Token} {ts : List Token} (h : t.kind ≠ .opening)
    (h' : t.kind ≠ .operator .pow) : endsPhrase (t :: ts) = true := by
  simp [endsPhrase, hasKind_cons, h, h']

theorem endsPhrase_of_endsExpression {ts : List Token} (h : endsExpression ts = true) :
    endsPhrase ts = true := by
  cases ts with
  | nil => rfl
  | cons t ts => apply endsPhrase_of_kind <;> intro hk <;> simp [endsExpression, hk] at h

end Token

namespace Phrase

theorem ne_nil {n : Nat} {ts : List Token} {t : Term} {last : Option Operator} :
    Phrase n ts t last → ts ≠ []
  | .looser h _ => h.ne_nil
  | .extended .. | .nested .. | .power .. => by simp
  | .negative .. | .negation .. | .number .. | .name .. | .nullary .. | .call .. | .group .. => by
    simp

/-- No phrase starts with a closing parenthesis. -/
theorem not_closing {n : Nat} {ts : List Token} {t : Term} {last : Option Operator} :
    Phrase n ts t last → Token.hasKind .closing ts = false
  | .looser h _ => h.not_closing
  | .extended left _ _ _ | .nested left _ _ _ _ | .power left _ _ => by
    rw [Token.hasKind_append left.ne_nil]
    exact left.not_closing
  | .negative kind .. | .negation kind .. | .number kind .. | .name kind | .group kind .. => by
    simp [Token.hasKind_cons, kind]
  | .nullary callable .. | .call callable .. =>
    Token.hasKind_of_isCallable callable (by simp) (by simp)

theorem weaken {n k : Nat} {ts : List Token} {t : Term} {last : Option Operator}
    (h : Phrase (n + k + 1) ts t last) (hn : 1 ≤ n) : Phrase n ts t none := by
  induction k generalizing n with
  | zero => exact .looser h hn
  | succ k ih =>
    refine .looser (ih ?_ (by omega)) hn
    rwa [show n + 1 + k + 1 = n + (k + 1) + 1 by omega]

theorem exists_of_le {n m : Nat} {ts : List Token} {t : Term} {last : Option Operator}
    (h : Phrase m ts t last) (hn : 1 ≤ n) (hm : n ≤ m) : ∃ last', Phrase n ts t last' := by
  rcases Nat.lt_or_eq_of_le hm with hlt | rfl
  · obtain ⟨k, rfl⟩ := Nat.exists_eq_add_of_lt hlt
    exact ⟨none, h.weaken hn⟩
  · exact ⟨last, h⟩

/-- What ends in an operator is written with its functor. -/
theorem exists_app_of_last {n : Nat} {ts : List Token} {t : Term} {o : Operator}
    (h : Phrase n ts t (some o)) : ∃ args, t = .app o.functor args := by
  cases h with
  | extended => exact ⟨_, rfl⟩
  | nested => exact ⟨_, rfl⟩

end Phrase

namespace Arguments

theorem ne_nil {ts : List Token} {args : List Term} : Arguments ts args → ts ≠ []
  | .one h => h.ne_nil
  | .more .. => by simp

theorem not_closing {ts : List Token} {args : List Term} :
    Arguments ts args → Token.hasKind .closing ts = false
  | .one h => h.not_closing
  | .more h _ _ => by
    rw [Token.hasKind_append h.ne_nil]
    exact h.not_closing

end Arguments

/-- The chain that a phrase leaves for the operator behind it. -/
def Chain.ofTerm (last : Option Operator) (t : Term) : Chain :=
  match last, t with
  | some o, .app f args => if o.isFlat ∧ f = o.functor then .run o args else .single (.app f args)
  | _, t => .single t

namespace Chain

theorem term_ofTerm (last : Option Operator) (t : Term) : (ofTerm last t).term = t := by
  unfold ofTerm
  split
  · split
    · rename_i h
      rw [term, h.2]
    · rfl
  · rfl

theorem extend_run {o : Operator} {args : List Term} {u : Term} (h : o.isFlat = true) :
    (ofTerm (some o) (.app o.functor args)).extend o u =
      ofTerm (some o) (.app o.functor (args ++ [u])) := by
  simp [ofTerm, h, extend]

theorem extend_fresh {o : Operator} {before : Option Operator} {t u : Term}
    (h : ¬ (o.isFlat = true ∧ before = some o)) :
    (ofTerm before t).extend o u = ofTerm (some o) (.app o.functor [t, u]) := by
  have hterm := term_ofTerm before t
  cases hc : ofTerm before t with
  | single v =>
    rw [hc, term] at hterm
    subst hterm
    simp [extend, ofTerm]
  | run o' args =>
    have hne : o' ≠ o := by
      rintro rfl
      unfold ofTerm at hc
      split at hc
      · split at hc
        · rename_i hflat
          cases hc
          exact h ⟨hflat.1, rfl⟩
        · cases hc
      · cases hc
    rw [hc] at hterm
    simp [extend, ofTerm, hne, hterm]

end Chain

theorem Token.number_eq {t : Token} {a : Number}
    (value : Number.ofNumeral? t.text.toList = some a) : t.number = .ok a := by
  rw [Token.number, value]

theorem Number.inRange_neg {a : Number} : a.neg.inRange = a.inRange := by
  cases a with
  | int n => simp only [Number.neg, Number.inRange, Int.natAbs_neg]
  | float x => rfl

theorem constant_eq {a : Number} (h : a.inRange = true) : constant a = .ok (.const a) := if_pos h

theorem constant_overflow {a : Number} (h : a.inRange = false) :
    constant a = .error .integerTooLarge := by
  rw [constant, h]
  rfl

variable {stop : Nat} {level : Level} {outer : List Enclosing}

/-- The first token decides how an operand is read, together with the two behind it. -/
theorem readOperand_cons (t : Token) (ts : List Token) :
    readOperand stop level outer (t :: ts) = match t.kind, ts with
      | .number, ts => do
        let operand ← constant (← t.number)
        readOperator stop level outer operand ts
      | .operator .sub, n :: rest =>
        if n.kind = .number ∧ ¬ Token.hasKind (.operator .pow) rest then do
          let operand ← constant (← n.number).neg
          readOperator stop level outer operand rest
        else readOperand stop level.negate outer (n :: rest)
      | .operator .sub, [] => readOperand stop level.negate outer []
      | .opening, ts => readOperand stop {} (⟨.group, level⟩ :: outer) ts
      | kind, p :: rest =>
        if t.isCallable ∧ p.kind = .opening then
          if Token.hasKind .closing rest then
            readOperator stop level outer (.app t.text []) rest.tail
          else readOperand stop {} (⟨.call t.text [], level⟩ :: outer) rest
        else if kind = .name then readOperator stop level outer (.var t.text) (p :: rest)
        else .error (expectedError .operand stop (t :: p :: rest))
      | kind, [] =>
        if kind = .name then readOperator stop level outer (.var t.text) []
        else .error (expectedError .operand stop [t]) := by
  rw [readOperand.eq_def]
  obtain ⟨kind, text, position⟩ := t
  cases ts with
  | nil =>
    cases kind with
    | operator o => cases o <;> rfl
    | _ => rfl
  | cons p rest =>
    cases kind with
    | operator o => cases o <;> rfl
    | name | keyword k =>
      cases rest with
      | nil => rfl
      | cons c rest => simp only [Token.hasKind_cons, beq_iff_eq, List.tail_cons]
    | _ => rfl

theorem readOperand_number {t : Token} {a : Number} {rest : List Token} (kind : t.kind = .number)
    (value : Number.ofNumeral? t.text.toList = some a) (inRange : a.inRange = true) :
    readOperand stop level outer (t :: rest) = readOperator stop level outer (.const a) rest := by
  rw [readOperand_cons]
  simp only [kind, Token.number_eq value]
  exact congrArg (· >>= fun u => readOperator stop level outer u rest) (constant_eq inRange)

theorem readOperand_name {t : Token} {rest : List Token} (kind : t.kind = .name)
    (hr : Token.hasKind .opening rest = false) :
    readOperand stop level outer (t :: rest) =
      readOperator stop level outer (.var t.text) rest := by
  rw [readOperand_cons]
  cases rest with
  | nil => simp [kind]
  | cons r rest =>
    rw [Token.hasKind_cons, beq_eq_false_iff_ne] at hr
    simp [kind, hr]

theorem readOperand_group {t : Token} {rest : List Token} (kind : t.kind = .opening) :
    readOperand stop level outer (t :: rest) =
      readOperand stop {} (⟨.group, level⟩ :: outer) rest := by
  rw [readOperand_cons]
  simp [kind]

theorem readOperand_nullary {t p c : Token} {rest : List Token} (callable : t.isCallable = true)
    (opens : p.kind = .opening) (closes : c.kind = .closing) :
    readOperand stop level outer (t :: p :: c :: rest) =
      readOperator stop level outer (.app t.text []) rest := by
  rcases Token.kind_of_isCallable callable with h | ⟨k, h⟩
  · simp [readOperand_cons, h, callable, opens, Token.hasKind_cons, closes]
  · simp [readOperand_cons, h, callable, opens, Token.hasKind_cons, closes]

theorem readOperand_call {t p : Token} {rest : List Token} (callable : t.isCallable = true)
    (opens : p.kind = .opening) (hr : Token.hasKind .closing rest = false) :
    readOperand stop level outer (t :: p :: rest) =
      readOperand stop {} (⟨.call t.text [], level⟩ :: outer) rest := by
  rcases Token.kind_of_isCallable callable with h | ⟨k, h⟩
  · simp [readOperand_cons, h, callable, opens, hr]
  · simp [readOperand_cons, h, callable, opens, hr]

theorem readOperand_negative {s n : Token} {a : Number} {rest : List Token}
    (kind : s.kind = .operator .sub) (number : n.kind = .number)
    (value : Number.ofNumeral? n.text.toList = some a) (inRange : a.inRange = true)
    (hr : Token.hasKind (.operator .pow) rest = false) :
    readOperand stop level outer (s :: n :: rest) =
      readOperator stop level outer (.const a.neg) rest := by
  have hneg : a.neg.inRange = true := Number.inRange_neg.trans inRange
  rw [readOperand_cons]
  simp only [kind, number, hr, Token.number_eq value, Bool.false_eq_true, not_false_eq_true,
    and_self, if_true]
  exact congrArg (· >>= fun u => readOperator stop level outer u rest) (constant_eq hneg)

theorem readOperand_negation {s : Token} {rest : List Token} (kind : s.kind = .operator .sub)
    (operand : Token.hasKind .number rest = true →
      Token.hasKind (.operator .pow) rest.tail = true) :
    readOperand stop level outer (s :: rest) = readOperand stop level.negate outer rest := by
  rw [readOperand_cons]
  cases rest with
  | nil => simp [kind]
  | cons n rest =>
    rw [Token.hasKind_cons, beq_iff_eq, List.tail_cons] at operand
    by_cases hn : n.kind = .number
    · simp [kind, hn, operand hn]
    · simp [kind, hn]

theorem readOperator_nil {operand : Term} :
    readOperator stop level [] operand [] = .ok (level.close operand, []) := rfl

/-- Behind an operand the token goes on with the expression, or with what is open around it. -/
theorem readOperator_cons (t : Token) (ts : List Token) (operand : Term) :
    readOperator stop level outer operand (t :: ts) = match t.kind, outer with
      | .operator o, outer => readOperand stop (level.push operand o) outer ts
      | _, [] => .ok (level.close operand, t :: ts)
      | .closing, ⟨.group, below⟩ :: outer =>
        readOperator stop below outer (level.close operand) ts
      | .closing, ⟨.call f args, below⟩ :: outer =>
        readOperator stop below outer (.app f (args ++ [level.close operand])) ts
      | .comma, ⟨.call f args, below⟩ :: outer =>
        readOperand stop {} (⟨.call f (args ++ [level.close operand]), below⟩ :: outer) ts
      | _, _ :: _ => .error (expectedError .closing stop (t :: ts)) := by
  rw [readOperator.eq_def]
  obtain ⟨kind, text, position⟩ := t
  cases outer with
  | nil => cases kind <;> rfl
  | cons e outer =>
    obtain ⟨opening, below⟩ := e
    cases opening <;> cases kind <;> rfl

theorem readOperator_operator {t : Token} {o : Operator} {operand : Term} {rest : List Token}
    (kind : t.kind = .operator o) :
    readOperator stop level outer operand (t :: rest) =
      readOperand stop (level.push operand o) outer rest := by
  simp only [readOperator_cons, kind]

theorem readOperator_group {t : Token} {below : Level} {operand : Term} {rest : List Token}
    (kind : t.kind = .closing) :
    readOperator stop level (⟨.group, below⟩ :: outer) operand (t :: rest) =
      readOperator stop below outer (level.close operand) rest := by
  simp only [readOperator_cons, kind]

theorem readOperator_call {t : Token} {f : String} {args : List Term} {below : Level}
    {operand : Term} {rest : List Token} (kind : t.kind = .closing) :
    readOperator stop level (⟨.call f args, below⟩ :: outer) operand (t :: rest) =
      readOperator stop below outer (.app f (args ++ [level.close operand])) rest := by
  simp only [readOperator_cons, kind]

theorem readOperator_comma {t : Token} {f : String} {args : List Term} {below : Level}
    {operand : Term} {rest : List Token} (kind : t.kind = .comma) :
    readOperator stop level (⟨.call f args, below⟩ :: outer) operand (t :: rest) =
      readOperand stop {} (⟨.call f (args ++ [level.close operand]), below⟩ :: outer) rest := by
  simp only [readOperator_cons, kind]

/-- What is pending tighter than chains matters only through its result, unless a power goes on. -/
theorem readOperator_congr {level' : Level} {operand operand' : Term} {rest : List Token}
    (sum : level'.sum = level.sum) (product : level'.product = level.product)
    (factor : level'.factor operand' = level.factor operand)
    (hr : Token.hasKind (.operator .pow) rest = false) :
    readOperator stop level' outer operand' rest = readOperator stop level outer operand rest := by
  have hproduct : level'.productChain operand' = level.productChain operand := by
    simp only [Level.productChain, product, factor]
  have hsum : level'.sumChain operand' = level.sumChain operand := by
    simp only [Level.sumChain, sum, hproduct]
  cases rest with
  | nil =>
    cases outer with
    | nil => rw [readOperator_nil, readOperator_nil, Level.close, Level.close, hsum]
    | cons e outer => rfl
  | cons r rest =>
    rw [Token.hasKind_cons, beq_eq_false_iff_ne] at hr
    have hpush {o : Operator} (ho : r.kind = .operator o) :
        level'.push operand' o = level.push operand o := by
      cases o with
      | pow => exact absurd ho hr
      | mul | div => simp only [Level.push, sum, hproduct]
      | add | sub => simp only [Level.push, hsum]
    simp only [readOperator_cons, Level.close, hsum]
    split
    · rename_i ho
      rw [hpush ho]
    all_goals rfl

/-- A phrase above the level of chains is read as an operand, whatever is pending. -/
def ReadsOperand (stop n : Nat) (ts : List Token) (t : Term) : Prop :=
  ∀ (level : Level) (outer : List Enclosing) (rest : List Token),
    Token.hasKind .opening rest = false →
    (n ≤ 4 → Token.hasKind (.operator .pow) rest = false) →
    readOperand stop level outer (ts ++ rest) = readOperator stop level outer t rest

/-- A product is read as one where none is pending, and leaves its chain to the next operator. -/
def ReadsProduct (stop : Nat) (ts : List Token) (chain : Chain) : Prop :=
  ∀ (level : Level) (outer : List Enclosing) (rest : List Token),
    level.product = none → level.tight = [] → Token.endsPhrase rest = true →
    ∃ (level' : Level) (operand : Term), level'.sum = level.sum ∧
      level'.productChain operand = chain ∧
      readOperand stop level outer (ts ++ rest) = readOperator stop level' outer operand rest

/-- A sum is read where nothing is pending. -/
def ReadsSum (stop : Nat) (ts : List Token) (chain : Chain) : Prop :=
  ∀ (outer : List Enclosing) (rest : List Token), Token.endsPhrase rest = true →
    ∃ (level : Level) (operand : Term), level.sumChain operand = chain ∧
      readOperand stop {} outer (ts ++ rest) = readOperator stop level outer operand rest

/-- What the reader does with a phrase, by its level. -/
def Reads (stop n : Nat) (ts : List Token) (t : Term) (last : Option Operator) : Prop :=
  match n with
  | 1 => ReadsSum stop ts (Chain.ofTerm last t)
  | 2 => ReadsProduct stop ts (Chain.ofTerm last t)
  | n => ReadsOperand stop n ts t

/-- Arguments up to the closing parenthesis are read as those of the call. -/
def ReadsArguments (stop : Nat) (ts : List Token) (args : List Term) : Prop :=
  ∀ (f : String) (before : List Term) (level : Level) (outer : List Enclosing) (closing : Token)
    (rest : List Token), closing.kind = .closing →
    readOperand stop {} (⟨.call f before, level⟩ :: outer) (ts ++ closing :: rest) =
      readOperator stop level outer (.app f (before ++ args)) rest

section Cases

variable {ts us : List Token} {t u : Term} {args : List Term} {last : Option Operator}

theorem ReadsOperand.product {n : Nat} (h : ReadsOperand stop n ts t) :
    ReadsProduct stop ts (.single t) := by
  intro level outer rest hproduct htight hrest
  simp only [Token.endsPhrase, Bool.and_eq_true, Bool.not_eq_true'] at hrest
  refine ⟨level, t, rfl, ?_, h level outer rest hrest.1 fun _ => hrest.2⟩
  simp only [Level.productChain, Level.factor, hproduct, htight, Pending.join, List.foldl_nil]

theorem ReadsProduct.sum {chain : Chain} (h : ReadsProduct stop ts chain) :
    ReadsSum stop ts (.single chain.term) := by
  intro outer rest hrest
  obtain ⟨level, operand, hsum, hchain, hread⟩ := h {} outer rest rfl rfl hrest
  refine ⟨level, operand, ?_, hread⟩
  rw [Level.sumChain, hsum, hchain, Pending.join]

theorem ReadsProduct.extend {left : Chain} {sign : Token} {o : Operator}
    (ho : o = .mul ∨ o = .div) (hs : sign.kind = .operator o) (h : ReadsProduct stop ts left)
    (h' : ReadsOperand stop 3 us u) :
    ReadsProduct stop (ts ++ sign :: us) (left.extend o u) := by
  intro level outer rest hproduct htight hrest
  simp only [Token.endsPhrase, Bool.and_eq_true, Bool.not_eq_true'] at hrest
  have hsign : Token.endsPhrase (sign :: (us ++ rest)) = true := by
    apply Token.endsPhrase_of_kind
    · simp [hs]
    · rcases ho with rfl | rfl <;> simp [hs]
  obtain ⟨level', operand, hsum, hchain, hread⟩ := h level outer _ hproduct htight hsign
  have hpush : level'.push operand o = { sum := level.sum, product := some ⟨left, o⟩ } := by
    rcases ho with rfl | rfl <;> simp only [Level.push, hsum, hchain]
  refine ⟨level'.push operand o, u, by rw [hpush], ?_, ?_⟩
  · rw [hpush]
    rfl
  · rw [List.append_assoc, List.cons_append, hread, readOperator_operator hs,
      h' _ outer rest hrest.1 fun _ => hrest.2]

theorem ReadsSum.extend {left right : Chain} {sign : Token} {o : Operator}
    (ho : o = .add ∨ o = .sub) (hs : sign.kind = .operator o) (h : ReadsSum stop ts left)
    (h' : ReadsProduct stop us right) :
    ReadsSum stop (ts ++ sign :: us) (left.extend o right.term) := by
  intro outer rest hrest
  have hsign : Token.endsPhrase (sign :: (us ++ rest)) = true := by
    apply Token.endsPhrase_of_kind
    · simp [hs]
    · rcases ho with rfl | rfl <;> simp [hs]
  obtain ⟨level, operand, hchain, hread⟩ := h outer _ hsign
  have hpush : level.push operand o = { sum := some ⟨left, o⟩ } := by
    rcases ho with rfl | rfl <;> simp only [Level.push, hchain]
  obtain ⟨level', operand', hsum, hchain', hread'⟩ :=
    h' { sum := some ⟨left, o⟩ } outer rest rfl rfl hrest
  refine ⟨level', operand', ?_, ?_⟩
  · rw [Level.sumChain, hsum, hchain']
    rfl
  · rw [List.append_assoc, List.cons_append, hread, readOperator_operator hs, hpush, hread']

/-- The operators between products stand on the level of sums, those between factors on that of
products. -/
theorem Reads.extend {left right : Option Operator} {sign : Token} {o : Operator}
    (ho : o ≠ .pow) (hs : sign.kind = .operator o) (h : Reads stop o.level ts t left)
    (h' : Reads stop (o.level + 1) us u right) (htu : (Chain.ofTerm left t).extend o u =
      Chain.ofTerm last (.app o.functor args)) :
    Reads stop o.level (ts ++ sign :: us) (.app o.functor args) last := by
  cases o with
  | add =>
    have hsum := ReadsSum.extend (Or.inl rfl) hs h h'
    rwa [Chain.term_ofTerm, htu] at hsum
  | sub =>
    have hsum := ReadsSum.extend (Or.inr rfl) hs h h'
    rwa [Chain.term_ofTerm, htu] at hsum
  | mul =>
    have hproduct := ReadsProduct.extend (Or.inl rfl) hs h h'
    rwa [htu] at hproduct
  | div =>
    have hproduct := ReadsProduct.extend (Or.inr rfl) hs h h'
    rwa [htu] at hproduct
  | pow => exact absurd rfl ho

theorem Reads.looser {n : Nat} (hn : 1 ≤ n) (h : Reads stop (n + 1) ts t last) :
    Reads stop n ts t none := by
  match n, hn with
  | 1, _ =>
    have hsum := ReadsProduct.sum h
    rwa [Chain.term_ofTerm] at hsum
  | 2, _ => exact ReadsOperand.product h
  | n + 3, _ =>
    intro level outer rest hopen hpow
    exact h level outer rest hopen fun hle => hpow (by omega)

theorem ReadsOperand.negation {sign : Token} (hs : sign.kind = .operator .sub)
    (operand : Token.hasKind .number ts = true → Token.hasKind (.operator .pow) ts.tail = true)
    (hne : ts ≠ []) (h : ReadsOperand stop 3 ts t) :
    ReadsOperand stop 3 (sign :: ts) (.app negationFunctor [t]) := by
  intro level outer rest hopen hpow
  have hpow' := hpow (by decide)
  have hoperand : Token.hasKind .number (ts ++ rest) = true →
      Token.hasKind (.operator .pow) (ts ++ rest).tail = true := by
    rw [Token.hasKind_append hne, List.tail_append_of_ne_nil hne]
    intro hnumber
    have htail := operand hnumber
    rwa [Token.hasKind_append]
    intro hnil
    simp [hnil, Token.hasKind] at htail
  rw [List.cons_append, readOperand_negation hs hoperand, h _ outer rest hopen hpow]
  exact readOperator_congr rfl rfl rfl hpow'

theorem ReadsOperand.power {sign : Token} (hs : sign.kind = .operator .pow)
    (h : ReadsOperand stop 5 ts t) (h' : ReadsOperand stop 3 us u) :
    ReadsOperand stop 4 (ts ++ sign :: us) (.app Operator.pow.functor [t, u]) := by
  intro level outer rest hopen hpow
  have hpow' := hpow (Nat.le_refl 4)
  have hsign : Token.hasKind .opening (sign :: (us ++ rest)) = false := by
    simp [Token.hasKind_cons, hs]
  rw [List.append_assoc, List.cons_append, h level outer _ hsign fun hle => absurd hle (by decide),
    readOperator_operator hs, h' _ outer rest hopen fun _ => hpow']
  exact readOperator_congr rfl rfl rfl hpow'

theorem ReadsSum.group {opening closing : Token} {n : Nat} (ho : opening.kind = .opening)
    (hc : closing.kind = .closing) (h : ReadsSum stop ts (Chain.ofTerm last t)) :
    ReadsOperand stop n (opening :: (ts ++ [closing])) t := by
  intro level outer rest _ _
  have hclosing : Token.endsPhrase (closing :: rest) = true :=
    Token.endsPhrase_of_kind (by simp [hc]) (by simp [hc])
  obtain ⟨level', operand, hchain, hread⟩ := h (⟨.group, level⟩ :: outer) _ hclosing
  rw [List.cons_append, List.append_assoc, List.singleton_append, readOperand_group ho, hread,
    readOperator_group hc, Level.close, hchain, Chain.term_ofTerm]

theorem ReadsSum.argument (h : ReadsSum stop ts (Chain.ofTerm last t)) :
    ReadsArguments stop ts [t] := by
  intro f before level outer closing rest hc
  have hclosing : Token.endsPhrase (closing :: rest) = true :=
    Token.endsPhrase_of_kind (by simp [hc]) (by simp [hc])
  obtain ⟨level', operand, hchain, hread⟩ := h (⟨.call f before, level⟩ :: outer) _ hclosing
  rw [hread, readOperator_call hc, Level.close, hchain, Chain.term_ofTerm]

theorem ReadsArguments.cons {comma : Token} (hk : comma.kind = .comma)
    (h : ReadsSum stop ts (Chain.ofTerm last t)) (h' : ReadsArguments stop us args) :
    ReadsArguments stop (ts ++ comma :: us) (t :: args) := by
  intro f before level outer closing rest hc
  have hcomma : Token.endsPhrase (comma :: (us ++ closing :: rest)) = true :=
    Token.endsPhrase_of_kind (by simp [hk]) (by simp [hk])
  obtain ⟨level', operand, hchain, hread⟩ := h (⟨.call f before, level⟩ :: outer) _ hcomma
  rw [List.append_assoc, List.cons_append, hread, readOperator_comma hk, Level.close, hchain,
    Chain.term_ofTerm, h' f _ level outer closing rest hc, List.append_assoc,
    List.singleton_append]

theorem ReadsArguments.call {word opening closing : Token} {n : Nat}
    (callable : word.isCallable = true) (ho : opening.kind = .opening)
    (hc : closing.kind = .closing) (hts : Token.hasKind .closing ts = false) (hne : ts ≠ [])
    (h : ReadsArguments stop ts args) :
    ReadsOperand stop n (word :: opening :: (ts ++ [closing])) (.app word.text args) := by
  intro level outer rest _ _
  have hfirst : Token.hasKind .closing (ts ++ closing :: rest) = false := by
    rwa [Token.hasKind_append hne]
  rw [List.cons_append, List.cons_append, List.append_assoc, List.singleton_append,
    readOperand_call callable ho hfirst, h word.text [] level outer closing rest hc,
    List.nil_append]

end Cases

mutual

/-- Induction on the derivation. What is pending in front of a phrase stays as it is, so each
case needs only the cases of its parts. -/
theorem Phrase.reads {n : Nat} {ts : List Token} {t : Term} {last : Option Operator} :
    Phrase n ts t last → Reads stop n ts t last
  | .looser h positive => Reads.looser positive h.reads
  | .extended left flat kind right =>
    Reads.extend (by rintro rfl; cases flat) kind left.reads right.reads (Chain.extend_run flat)
  | .nested left chain fresh kind right =>
    Reads.extend chain kind left.reads right.reads (Chain.extend_fresh fresh)
  | .negative kind number value inRange => fun level outer rest _ hpow =>
    readOperand_negative kind number value inRange (hpow (by decide))
  | .negation kind operand h => ReadsOperand.negation kind operand h.ne_nil h.reads
  | .power base kind exponent => ReadsOperand.power kind base.reads exponent.reads
  | .number kind value inRange => fun level outer rest _ _ =>
    readOperand_number kind value inRange
  | .name kind => fun level outer rest hopen _ => readOperand_name kind hopen
  | .nullary callable opens closes => fun level outer rest _ _ =>
    readOperand_nullary callable opens closes
  | .call callable opens arguments closes =>
    ReadsArguments.call callable opens closes arguments.not_closing arguments.ne_nil arguments.reads
  | .group opens h closes => ReadsSum.group opens closes h.reads

theorem Arguments.reads {ts : List Token} {args : List Term} :
    Arguments ts args → ReadsArguments stop ts args
  | .one h => ReadsSum.argument h.reads
  | .more h kind rest => ReadsArguments.cons kind h.reads rest.reads

end

theorem readOperator_of_endsExpression {operand : Term} {rest : List Token}
    (h : Token.endsExpression rest = true) :
    readOperator stop level [] operand rest = .ok (level.close operand, rest) := by
  cases rest with
  | nil => rfl
  | cons t rest =>
    rw [readOperator_cons]
    obtain ⟨kind, text, position⟩ := t
    cases kind with
    | operator o => cases h
    | _ => rfl

/-- Whatever the grammar derives is read, up to where an expression can end. -/
theorem readExpression_of_phrase {ts rest : List Token} {t : Term} {last : Option Operator}
    (h : Phrase 1 ts t last) (hr : Token.endsExpression rest = true) :
    readExpression stop (ts ++ rest) = .ok (t, rest) := by
  have hreads : Reads stop 1 ts t last := h.reads
  obtain ⟨level, operand, hchain, hread⟩ :=
    hreads [] rest (Token.endsPhrase_of_endsExpression hr)
  rw [readExpression, hread, readOperator_of_endsExpression hr, Level.close, hchain,
    Chain.term_ofTerm]

theorem readExpression_of_phrase_all {ts : List Token} {t : Term} {last : Option Operator}
    (h : Phrase 1 ts t last) : readExpression stop ts = .ok (t, []) := by
  have hread : readExpression stop (ts ++ []) = .ok (t, []) := readExpression_of_phrase h rfl
  rwa [List.append_nil] at hread

end Stepwise
