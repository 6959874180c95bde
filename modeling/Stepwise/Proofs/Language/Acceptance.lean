import Stepwise.Language.Statement
import Stepwise.Proofs.Language.Grammar

namespace Stepwise

/-- The tokens form the chain. -/
def Chain.Formed (n : Nat) (ts : List Token) (chain : Chain) : Prop :=
  ∃ t last, Phrase n ts t last ∧ chain = Chain.ofTerm last t

/-- An operator behind a phrase and a tighter phrase behind it continue the chain of the first. -/
theorem Phrase.extend {o : Operator} {ts us : List Token} {sign : Token} {t u : Term}
    {last last' : Option Operator} (left : Phrase o.level ts t last) (chain : o ≠ .pow)
    (kind : sign.kind = .operator o) (right : Phrase (o.level + 1) us u last') :
    Chain.Formed o.level (ts ++ sign :: us) ((Chain.ofTerm last t).extend o u) := by
  by_cases hrun : o.isFlat = true ∧ last = some o
  · obtain ⟨hflat, rfl⟩ := hrun
    obtain ⟨args, rfl⟩ := left.exists_app_of_last
    exact ⟨_, _, .extended left hflat kind right, Chain.extend_run hflat⟩
  · exact ⟨_, _, .nested left chain hrun kind right, Chain.extend_fresh hrun⟩

/-- The tokens are those of a chain and of the operator behind it, if one is pending. -/
inductive Pending.Holds (n : Nat) : Option Pending → List Token → Prop
  | nothing : Holds n none []
  | chain {o : Operator} {ts : List Token} {sign : Token} {t : Term} {last : Option Operator}
      (left : Phrase n ts t last) (kind : sign.kind = .operator o) (level : o.level = n) :
      Holds n (some ⟨Chain.ofTerm last t, o⟩) (ts ++ [sign])

namespace Pending.Holds

variable {n : Nat} {ts us : List Token}

theorem of_formed {chain : Chain} {o : Operator} {sign : Token} (h : Chain.Formed n ts chain)
    (kind : sign.kind = .operator o) (level : o.level = n) :
    Holds n (some ⟨chain, o⟩) (ts ++ [sign]) := by
  obtain ⟨t, last, left, rfl⟩ := h
  exact .chain left kind level

theorem join {pending : Option Pending} {u : Term} {last : Option Operator}
    (h : Holds n pending ts) (hn : 1 ≤ n ∧ n ≤ 2) (hu : Phrase (n + 1) us u last) :
    Chain.Formed n (ts ++ us) (Pending.join pending u) := by
  cases h with
  | nothing => exact ⟨u, none, .looser hu hn.1, rfl⟩
  | @chain o ts sign t last left kind level =>
    subst level
    have ho : o ≠ .pow := by
      rintro rfl
      exact absurd hn.2 (by decide)
    rw [List.append_assoc]
    exact left.extend ho kind hu

end Pending.Holds

/-- Behind the tokens of what is pending, an operand at the start of the rest makes a negation or
a power of it, unless a further power goes on there. -/
def Tight.Holds (tight : List Tight) (before rest : List Token) : Prop :=
  ∀ (us after : List Token) (u : Term) (last : Option Operator), rest = us ++ after →
    Token.hasKind (.operator .pow) after = false → Phrase 3 us u last →
    ∃ last', Phrase 3 (before ++ us) (tight.foldl Tight.apply u) last'

namespace Tight.Holds

variable {tight : List Tight} {before us rest : List Token} {sign : Token} {u : Term}

theorem nil : Holds [] [] rest := fun _ _ _ last _ _ hu => ⟨last, hu⟩

theorem negation (h : Holds tight before (sign :: rest)) (kind : sign.kind = .operator .sub)
    (operand : Token.hasKind .number rest = true →
      Token.hasKind (.operator .pow) rest.tail = true) :
    Holds (.negation :: tight) (before ++ [sign]) rest := by
  rintro vs after v last rfl hafter hv
  have hoperand : Token.hasKind .number vs = true →
      Token.hasKind (.operator .pow) vs.tail = true := by
    rw [Token.hasKind_append hv.ne_nil, List.tail_append_of_ne_nil hv.ne_nil] at operand
    intro hnumber
    have hpow := operand hnumber
    -- the power sign is not the one behind the operand, for none is there
    cases htail : vs.tail with
    | nil => simp [htail, hafter] at hpow
    | cons w ws => simpa [htail, Token.hasKind_cons] using hpow
  rw [List.append_assoc, List.singleton_append]
  exact h (sign :: vs) after _ none rfl hafter (.negation kind hoperand hv)

theorem base {last : Option Operator} (h : Holds tight before (us ++ sign :: rest))
    (hu : Phrase 5 us u last) (kind : sign.kind = .operator .pow) :
    Holds (.base u :: tight) (before ++ (us ++ [sign])) rest := by
  rintro vs after v last' rfl hafter hv
  have hpower : Phrase 3 (us ++ sign :: vs) _ none := .looser (.power hu kind hv) (by decide)
  have hsplit : before ++ (us ++ [sign]) ++ vs = before ++ (us ++ sign :: vs) := by simp
  rw [hsplit]
  exact h (us ++ sign :: vs) after _ none (by simp) hafter hpower

end Tight.Holds

/-- The tokens form an operand, and if a power goes on behind it they form a base. -/
def FormsOperand (us rest : List Token) (u : Term) : Prop :=
  ∃ n last, Phrase n us u last ∧ 3 ≤ n ∧ (Token.hasKind (.operator .pow) rest = true → n = 5)

theorem FormsOperand.of_primary {us rest : List Token} {u : Term} {last : Option Operator}
    (h : Phrase 5 us u last) : FormsOperand us rest u :=
  ⟨5, last, h, by decide, fun _ => rfl⟩

/-- What is pending stands for the tokens read since the last open parenthesis. -/
inductive Level.Holds (level : Level) : List Token → List Token → Prop
  | pending {ss ps qs rest : List Token} (sum : Pending.Holds 1 level.sum ss)
      (product : Pending.Holds 2 level.product ps) (tight : Tight.Holds level.tight qs rest) :
      Holds level (ss ++ (ps ++ qs)) rest

namespace Level.Holds

variable {level : Level} {before us rest : List Token} {sign : Token} {u : Term} {o : Operator}

theorem start : Holds {} [] rest :=
  show Holds {} ([] ++ ([] ++ [])) rest from .pending .nothing .nothing .nil

theorem negate (h : Holds level before (sign :: rest)) (kind : sign.kind = .operator .sub)
    (operand : Token.hasKind .number rest = true →
      Token.hasKind (.operator .pow) rest.tail = true) :
    Holds level.negate (before ++ [sign]) rest := by
  cases h with
  | pending sum product tight =>
    rw [List.append_assoc, List.append_assoc]
    exact .pending sum product (tight.negation kind operand)

/-- Where no power goes on, the operand ends a factor, a product and a sum. -/
theorem chains {ss ps qs : List Token} (sum : Pending.Holds 1 level.sum ss)
    (product : Pending.Holds 2 level.product ps) (tight : Tight.Holds level.tight qs (us ++ rest))
    (hu : FormsOperand us rest u) (hrest : Token.hasKind (.operator .pow) rest = false) :
    Chain.Formed 2 (ps ++ (qs ++ us)) (level.productChain u) ∧
      Chain.Formed 1 (ss ++ (ps ++ (qs ++ us))) (level.sumChain u) := by
  obtain ⟨n, last, hphrase, hn, -⟩ := hu
  obtain ⟨last₃, h₃⟩ := hphrase.exists_of_le (by decide) hn
  obtain ⟨last', hfactor⟩ := tight us rest u last₃ rfl hrest h₃
  have hproduct : Chain.Formed 2 (ps ++ (qs ++ us)) (level.productChain u) :=
    product.join (by decide) hfactor
  refine ⟨hproduct, ?_⟩
  obtain ⟨t, last₂, ht, hchain⟩ := hproduct
  rw [sumChain, hchain, Chain.term_ofTerm]
  exact sum.join (by decide) ht

theorem push (h : Holds level before (us ++ sign :: rest)) (hu : FormsOperand us (sign :: rest) u)
    (kind : sign.kind = .operator o) :
    Holds (level.push u o) (before ++ (us ++ [sign])) rest := by
  cases h with
  | @pending ss ps qs _ sum product tight =>
    have hformed (ho : o ≠ .pow) :=
      chains sum product tight hu (by simp [Token.hasKind_cons, kind, ho])
    have hproduct : ss ++ (ps ++ qs) ++ (us ++ [sign]) =
        ss ++ (ps ++ (qs ++ us) ++ [sign] ++ []) := by simp
    have hsum : ss ++ (ps ++ qs) ++ (us ++ [sign]) =
        ss ++ (ps ++ (qs ++ us)) ++ [sign] ++ ([] ++ []) := by simp
    cases o with
    | pow =>
      obtain ⟨n, last, hphrase, -, hbase⟩ := hu
      have hn : n = 5 := hbase (by rw [Token.hasKind_cons, kind, beq_self_eq_true])
      subst hn
      rw [List.append_assoc, List.append_assoc]
      exact .pending sum product (tight.base hphrase kind)
    | mul | div =>
      rw [hproduct]
      exact .pending sum (.of_formed (hformed (by decide)).1 kind rfl) .nil
    | add | sub =>
      rw [hsum]
      exact .pending (.of_formed (hformed (by decide)).2 kind rfl) .nothing .nil

theorem close (h : Holds level before (us ++ rest)) (hu : FormsOperand us rest u)
    (hrest : Token.hasKind (.operator .pow) rest = false) :
    ∃ last, Phrase 1 (before ++ us) (level.close u) last := by
  cases h with
  | pending sum product tight =>
    obtain ⟨-, t, last, ht, hchain⟩ := chains sum product tight hu hrest
    rw [Level.close, hchain, Chain.term_ofTerm]
    simp only [List.append_assoc]
    exact ⟨last, ht⟩

end Level.Holds

/-- Whether the numeral denotes an integer beyond the binary64 range. -/
def Token.Overflows (t : Token) : Prop :=
  t.kind = .number ∧ ∃ a, Number.ofNumeral? t.text.toList = some a ∧ a.inRange = false

/-- A numeral is read as its constant, or it is beyond a range, with an error that points at it if
it is beyond that of binary64. -/
theorem constant_number_cases {β : Type} {t : Token} (kind : t.kind = .number) {g : Number → Number}
    (hg : ∀ a, (g a).inRange = a.inRange) (k : Term → Except ReadError β) :
    (∃ a, Number.ofNumeral? t.text.toList = some a ∧ a.inRange = true ∧
      (t.number >>= fun a => constant (g a) >>= k) = k (.const (g a))) ∨
    (∃ e : SyntaxError, e.position? = some t.position ∧
      (t.number >>= fun a => constant (g a) >>= k) = .error (.malformed e)) ∨
    (t.Overflows ∧ (t.number >>= fun a => constant (g a) >>= k) = .error .integerTooLarge) := by
  cases hv : Number.ofNumeral? t.text.toList with
  | none =>
    refine Or.inr (Or.inl ⟨.numberOutOfRange t.text (some t.position), rfl, ?_⟩)
    rw [Token.number, hv]
    rfl
  | some a =>
    rw [Token.number_eq hv]
    cases hr : a.inRange with
    | true =>
      have hconstant : constant (g a) = .ok (.const (g a)) := constant_eq ((hg a).trans hr)
      exact Or.inl ⟨a, rfl, hr, congrArg (· >>= k) hconstant⟩
    | false =>
      have hconstant : constant (g a) = .error .integerTooLarge :=
        constant_overflow ((hg a).trans hr)
      exact Or.inr (Or.inr ⟨⟨kind, a, hv, hr⟩, congrArg (· >>= k) hconstant⟩)

variable {stop : Nat} {level : Level} {outer : List Enclosing}

/-- What the tokens are where an operand has to come. -/
inductive OperandStart : List Token → Prop
  | nothing : OperandStart []
  | number {t : Token} {ts : List Token} (kind : t.kind = .number) : OperandStart (t :: ts)
  | name {t : Token} {ts : List Token} (kind : t.kind = .name)
      (behind : Token.hasKind .opening ts = false) : OperandStart (t :: ts)
  | callable {word opening : Token} {ts : List Token} (callable : word.isCallable = true)
      (opens : opening.kind = .opening) : OperandStart (word :: opening :: ts)
  | opening {t : Token} {ts : List Token} (kind : t.kind = .opening) : OperandStart (t :: ts)
  | negation {sign : Token} {ts : List Token} (kind : sign.kind = .operator .sub)
      (operand : Token.hasKind .number ts = true →
        Token.hasKind (.operator .pow) ts.tail = true) : OperandStart (sign :: ts)
  /-- A sign in front of a numeral that is not the base of a power. -/
  | negative {sign numeral : Token} {ts : List Token} (kind : sign.kind = .operator .sub)
      (number : numeral.kind = .number) (behind : Token.hasKind (.operator .pow) ts = false) :
      OperandStart (sign :: numeral :: ts)
  | other {t : Token} {ts : List Token}
      (refused : ∀ stop level outer, readOperand stop level outer (t :: ts) =
        .error (expectedError .operand stop (t :: ts))) : OperandStart (t :: ts)

/-- What begins no operand is refused, unless it is a keyword that names a functor. -/
theorem readOperand_refuses {t : Token} {ts : List Token} (number : t.kind ≠ .number)
    (name : t.kind ≠ .name) (opening : t.kind ≠ .opening) (minus : t.kind ≠ .operator .sub)
    (call : t.isCallable = true → Token.hasKind .opening ts = false) :
    readOperand stop level outer (t :: ts) = .error (expectedError .operand stop (t :: ts)) := by
  rw [readOperand_cons]
  obtain ⟨kind, text, position⟩ := t
  cases ts with
  | nil => cases kind <;> simp_all [Token.isCallable]
  | cons p rest =>
    rw [Token.hasKind_cons, beq_eq_false_iff_ne] at call
    cases kind with
    | operator o => cases o <;> simp_all [Token.isCallable]
    | _ => simp_all [Token.isCallable]

theorem operandStart_minus {t : Token} {ts : List Token} (kind : t.kind = .operator .sub) :
    OperandStart (t :: ts) := by
  by_cases hoperand : Token.hasKind .number ts = true →
      Token.hasKind (.operator .pow) ts.tail = true
  · exact .negation kind hoperand
  · rw [Classical.not_imp, Bool.not_eq_true] at hoperand
    obtain ⟨hnumber, hpow⟩ := hoperand
    cases ts with
    | nil => cases hnumber
    | cons n rest =>
      rw [Token.hasKind_cons, beq_iff_eq] at hnumber
      exact .negative kind hnumber hpow

theorem operandStart (ts : List Token) : OperandStart ts := by
  cases ts with
  | nil => exact .nothing
  | cons t ts =>
    by_cases hcall : t.isCallable = true → Token.hasKind .opening ts = false
    · by_cases number : t.kind = .number
      · exact .number number
      by_cases name : t.kind = .name
      · exact .name name (hcall (by simp [Token.isCallable, name]))
      by_cases opening : t.kind = .opening
      · exact .opening opening
      by_cases minus : t.kind = .operator .sub
      · exact operandStart_minus minus
      · exact .other fun _ _ _ => readOperand_refuses number name opening minus hcall
    · -- a name or a keyword in front of a parenthesis
      rw [Classical.not_imp, Bool.not_eq_false] at hcall
      obtain ⟨callable, hopening⟩ := hcall
      cases ts with
      | nil => cases hopening
      | cons p rest =>
        rw [Token.hasKind_cons, beq_iff_eq] at hopening
        exact .callable callable hopening

/-- What the reader does where an operand has to come: it takes one, or a sign in front of one, or
what opens a group or a call, or it gives up. -/
inductive OperandStep (stop : Nat) (level : Level) (outer : List Enclosing) :
    List Token → Except ReadError (Term × List Token) → Prop
  | operand (us rest : List Token) {u : Term} (nonempty : us ≠ [])
      (forms : FormsOperand us rest u) :
      OperandStep stop level outer (us ++ rest) (readOperator stop level outer u rest)
  | negation {sign : Token} {rest : List Token} (kind : sign.kind = .operator .sub)
      (operand : Token.hasKind .number rest = true →
        Token.hasKind (.operator .pow) rest.tail = true) :
      OperandStep stop level outer (sign :: rest) (readOperand stop level.negate outer rest)
  | group {opening : Token} {rest : List Token} (opens : opening.kind = .opening) :
      OperandStep stop level outer (opening :: rest)
        (readOperand stop {} (⟨.group, level⟩ :: outer) rest)
  | call {word opening : Token} {rest : List Token} (callable : word.isCallable = true)
      (opens : opening.kind = .opening) :
      OperandStep stop level outer (word :: opening :: rest)
        (readOperand stop {} (⟨.call word.text [], level⟩ :: outer) rest)
  | malformed {ts : List Token} (e : SyntaxError) :
      OperandStep stop level outer ts (.error (.malformed e))
  | overflow {numeral : Token} {ts : List Token} (mem : numeral ∈ ts)
      (overflows : numeral.Overflows) : OperandStep stop level outer ts (.error .integerTooLarge)

theorem expectedError_eq (what : Expected) (stop : Nat) (ts : List Token) :
    ∃ e, expectedError what stop ts = .malformed e := by
  cases ts <;> exact ⟨_, rfl⟩

/-- A numeral that is read, whatever is done with its constant. -/
theorem readOperand_numeral {t : Token} (kind : t.kind = .number) (ts : List Token) :
    readOperand stop level outer (t :: ts) = t.number >>= fun a => constant (id a) >>= fun u =>
      readOperator stop level outer u ts := by
  rw [readOperand_cons]
  simp only [kind]
  rfl

/-- A sign takes the numeral behind it, whatever is done with its constant. -/
theorem readOperand_signed {sign numeral : Token} {ts : List Token}
    (kind : sign.kind = .operator .sub) (number : numeral.kind = .number)
    (behind : Token.hasKind (.operator .pow) ts = false) :
    readOperand stop level outer (sign :: numeral :: ts) = numeral.number >>= fun a =>
      constant a.neg >>= fun u => readOperator stop level outer u ts := by
  rw [readOperand_cons]
  simp only [kind, number, behind, Bool.false_eq_true, not_false_eq_true, and_self, if_true]

theorem operandStep_number {t : Token} {ts : List Token} (kind : t.kind = .number) :
    OperandStep stop level outer (t :: ts) (readOperand stop level outer (t :: ts)) := by
  rw [readOperand_numeral kind]
  rcases constant_number_cases kind (g := id) (fun _ => rfl)
    (fun operand => readOperator stop level outer operand ts) with
    ⟨a, hv, hr, h⟩ | ⟨e, -, h⟩ | ⟨hlarge, h⟩
  · exact h ▸ .operand [t] ts (by simp) (.of_primary (.number kind hv hr))
  · exact h ▸ .malformed e
  · exact h ▸ .overflow (by simp) hlarge

theorem operandStep_negative {sign numeral : Token} {ts : List Token}
    (kind : sign.kind = .operator .sub) (number : numeral.kind = .number)
    (behind : Token.hasKind (.operator .pow) ts = false) :
    OperandStep stop level outer (sign :: numeral :: ts)
      (readOperand stop level outer (sign :: numeral :: ts)) := by
  rw [readOperand_signed kind number behind]
  rcases constant_number_cases number (fun _ => Number.inRange_neg)
    (fun operand => readOperator stop level outer operand ts) with
    ⟨a, hv, hr, h⟩ | ⟨e, -, h⟩ | ⟨hlarge, h⟩
  · have hforms : FormsOperand [sign, numeral] ts (.const a.neg) :=
      ⟨3, none, .negative kind number hv hr, by decide, by simp [behind]⟩
    exact h ▸ .operand [sign, numeral] ts (by simp) hforms
  · exact h ▸ .malformed e
  · exact h ▸ .overflow (by simp) hlarge

/-- A name or a keyword in front of a parenthesis begins a call. -/
theorem operandStep_callable {word opening : Token} {rest : List Token}
    (callable : word.isCallable = true) (opens : opening.kind = .opening) :
    OperandStep stop level outer (word :: opening :: rest)
      (readOperand stop level outer (word :: opening :: rest)) := by
  cases hc : Token.hasKind .closing rest with
  | false =>
    rw [readOperand_call callable opens hc]
    exact .call callable opens
  | true =>
    cases rest with
    | nil => cases hc
    | cons closing after =>
      rw [Token.hasKind_cons, beq_iff_eq] at hc
      rw [readOperand_nullary callable opens hc]
      exact .operand [word, opening, closing] after (by simp)
        (.of_primary (.nullary callable opens hc))

theorem operandStep (stop : Nat) (level : Level) (outer : List Enclosing) (ts : List Token) :
    OperandStep stop level outer ts (readOperand stop level outer ts) := by
  cases operandStart ts with
  | nothing =>
    rw [readOperand.eq_def]
    exact .malformed _
  | number kind => exact operandStep_number kind
  | @name t ts kind behind =>
    rw [readOperand_name kind behind]
    exact .operand [t] ts (by simp) (.of_primary (.name kind))
  | callable callable opens => exact operandStep_callable callable opens
  | opening kind =>
    rw [readOperand_group kind]
    exact .group kind
  | negation kind operand =>
    rw [readOperand_negation kind operand]
    exact .negation kind operand
  | negative kind number behind => exact operandStep_negative kind number behind
  | other refused =>
    rw [refused]
    exact .malformed _

/-- Whatever arguments follow the tokens, they follow those of the call. -/
def Arguments.Precede (ts : List Token) (args : List Term) : Prop :=
  ∀ (us : List Token) (more : List Term), Arguments us more → Arguments (ts ++ us) (args ++ more)

theorem Arguments.precede_nil : Precede [] [] := fun _ _ h => h

theorem Arguments.Precede.snoc {ts us : List Token} {args : List Term} {comma : Token} {t : Term}
    {last : Option Operator} (h : Precede ts args) (ht : Phrase 1 us t last)
    (kind : comma.kind = .comma) : Precede (ts ++ (us ++ [comma])) (args ++ [t]) := by
  intro vs more hmore
  have hall := h _ _ (.more ht kind hmore)
  simpa using hall

/-- The tokens behind the last open parenthesis. What every open one has in front of it is what was
pending there. -/
inductive Inside (tokens : List Token) : List Enclosing → List Token → Prop
  | top : Inside tokens [] tokens
  | group {outer : List Enclosing} {level : Level} {before rest : List Token} {opening : Token}
      (around : Inside tokens outer (before ++ opening :: rest))
      (holds : level.Holds before (opening :: rest)) (opens : opening.kind = .opening) :
      Inside tokens (⟨.group, level⟩ :: outer) rest
  | call {outer : List Enclosing} {level : Level} {before ts rest : List Token}
      {word opening : Token} {args : List Term}
      (around : Inside tokens outer (before ++ word :: opening :: (ts ++ rest)))
      (holds : level.Holds before (word :: opening :: (ts ++ rest)))
      (callable : word.isCallable = true) (opens : opening.kind = .opening)
      (arguments : Arguments.Precede ts args) :
      Inside tokens (⟨.call word.text args, level⟩ :: outer) rest

theorem Inside.mem {tokens rest : List Token} {t : Token} (h : Inside tokens outer rest)
    (ht : t ∈ rest) : t ∈ tokens := by
  induction h with
  | top => exact ht
  | group _ _ _ ih => exact ih (by simp [ht])
  | call _ _ _ _ _ ih => exact ih (by simp [ht])

/-- What reading an expression at the start of the tokens may come to. -/
inductive Reading (tokens : List Token) : Except ReadError (Term × List Token) → Prop
  | expression (us after : List Token) {t : Term} {last : Option Operator}
      (split : tokens = us ++ after) (phrase : Phrase 1 us t last) : Reading tokens (.ok (t, after))
  | malformed (e : SyntaxError) : Reading tokens (.error (.malformed e))
  | overflow {numeral : Token} (mem : numeral ∈ tokens) (overflows : numeral.Overflows) :
      Reading tokens (.error .integerTooLarge)

/-- Where an operand has to come, reading comes to one of these as long as fewer than `n` tokens are
left. -/
def OperandsRead (stop : Nat) (tokens : List Token) (n : Nat) : Prop :=
  ∀ (level : Level) (outer : List Enclosing) (before rest : List Token), rest.length < n →
    Inside tokens outer (before ++ rest) → level.Holds before rest →
    Reading tokens (readOperand stop level outer rest)

/-- Induction on the tokens behind the operand: a closing parenthesis makes an operand of all that
stands before it. -/
theorem readOperator_reading {tokens before us rest : List Token} {u : Term} {n : Nat}
    (operands : OperandsRead stop tokens n) (hn : rest.length ≤ n)
    (inside : Inside tokens outer (before ++ (us ++ rest)))
    (holds : level.Holds before (us ++ rest)) (forms : FormsOperand us rest u) :
    Reading tokens (readOperator stop level outer u rest) := by
  induction rest generalizing level outer before us u with
  | nil =>
    obtain ⟨last, hphrase⟩ := holds.close forms rfl
    cases inside with
    | top => exact .expression (before ++ us) [] (by simp) hphrase
    | group => exact .malformed _
    | call => exact .malformed _
  | cons t ts ih =>
    rw [List.length_cons] at hn
    by_cases hoperator : ∃ o, t.kind = .operator o
    · obtain ⟨o, kind⟩ := hoperator
      rw [readOperator_operator kind]
      exact operands _ _ (before ++ (us ++ [t])) ts (by omega) (by simpa using inside)
        (holds.push forms kind)
    · have hpow : Token.hasKind (.operator .pow) (t :: ts) = false := by
        rw [Token.hasKind_cons, beq_eq_false_iff_ne]
        exact fun kind => hoperator ⟨_, kind⟩
      obtain ⟨last, hphrase⟩ := holds.close forms hpow
      rw [readOperator_cons]
      split
      · exact absurd ⟨_, ‹t.kind = _›⟩ hoperator
      · cases inside with
        | top => exact .expression (before ++ us) (t :: ts) (by simp) hphrase
      · cases inside with
        | @group _ _ before' _ opening around holds' opens =>
          have hforms : FormsOperand (opening :: (before ++ us ++ [t])) ts (level.close u) :=
            .of_primary (.group opens hphrase ‹_›)
          exact ih (by omega) (by simpa using around) (by simpa using holds') hforms
      · cases inside with
        | @call _ _ before' vs _ word opening _ around holds' callable opens arguments =>
          have hforms : FormsOperand (word :: opening :: (vs ++ (before ++ us) ++ [t])) ts _ :=
            .of_primary (.call callable opens (arguments _ _ (.one hphrase)) ‹_›)
          exact ih (by omega) (by simpa using around) (by simpa using holds') hforms
      · cases inside with
        | @call _ _ before' vs _ word opening _ around holds' callable opens arguments =>
          have hsplit : vs ++ (before ++ (us ++ t :: ts)) = vs ++ (before ++ us ++ [t]) ++ ts := by
            simp
          rw [hsplit] at around holds'
          exact operands _ _ [] ts (by omega)
            (.call around holds' callable opens (arguments.snoc hphrase ‹_›)) .start
      · exact .malformed _

theorem readOperand_reading {tokens before rest : List Token}
    (inside : Inside tokens outer (before ++ rest)) (holds : level.Holds before rest) :
    Reading tokens (readOperand stop level outer rest) := by
  induction hn : rest.length using Nat.strongRecOn
    generalizing level outer before rest with
  | _ n ih =>
    have operands : OperandsRead stop tokens n := fun _ _ _ _ hlt hi hh => ih _ hlt hi hh rfl
    have step := operandStep stop level outer rest
    generalize readOperand stop level outer rest = result at step ⊢
    cases step with
    | operand us rest nonempty forms =>
      have hpos : 0 < us.length := List.length_pos_iff.mpr nonempty
      rw [List.length_append] at hn
      exact readOperator_reading operands (by omega) inside holds forms
    | @negation sign rest kind operand =>
      exact operands _ _ (before ++ [sign]) rest (by simp [← hn]) (by simpa using inside)
        (holds.negate kind operand)
    | group opens =>
      exact operands _ _ [] _ (by simp [← hn]) (.group inside holds opens) .start
    | @call word opening rest callable opens =>
      have hinside : Inside tokens outer (before ++ word :: opening :: ([] ++ rest)) := inside
      have hholds : level.Holds before (word :: opening :: ([] ++ rest)) := holds
      have hlt : rest.length < n := by
        rw [← hn, List.length_cons, List.length_cons]
        omega
      exact operands _ _ [] _ hlt
        (.call hinside hholds callable opens Arguments.precede_nil) .start
    | malformed e => exact .malformed e
    | overflow mem overflows => exact .overflow (inside.mem (by simp [mem])) overflows

theorem readExpression_reading (stop : Nat) (tokens : List Token) :
    Reading tokens (readExpression stop tokens) :=
  readOperand_reading (show Inside tokens [] ([] ++ tokens) from .top) .start

/-- The tokens, all of them, derive the term. -/
def Derives (tokens : List Token) (t : Term) : Prop := ∃ last, Phrase 1 tokens t last

/-- A number token denotes a constant: an integer within the binary64 range, or a binary64
number. -/
def Token.Accepted (t : Token) : Prop :=
  t.kind = .number → ∃ a, Number.ofNumeral? t.text.toList = some a ∧ a.inRange = true

theorem Token.Accepted.not_overflows {t : Token} (h : t.Accepted) : ¬ t.Overflows := by
  rintro ⟨kind, a, hv, hr⟩
  obtain ⟨b, hv', hr'⟩ := h kind
  rw [hv, Option.some_inj] at hv'
  subst hv'
  rw [hr] at hr'
  cases hr'

theorem Derives.unique {tokens : List Token} {t u : Term} (ht : Derives tokens t)
    (hu : Derives tokens u) : t = u := by
  obtain ⟨_, ht⟩ := ht
  obtain ⟨_, hu⟩ := hu
  have ht' : readExpression 0 tokens = .ok (t, []) := readExpression_of_phrase_all ht
  have hu' : readExpression 0 tokens = .ok (u, []) := readExpression_of_phrase_all hu
  rw [ht', Except.ok.injEq, Prod.mk.injEq] at hu'
  exact hu'.1

theorem readTerm_of_tokens {text : String} {tokens : List Token} (h : tokenize text = .ok tokens) :
    readTerm text = do
      let (t, rest) ← readExpression text.length tokens
      checkFinished rest
      return t := by
  rw [readTerm, tokensOf, h]
  rfl

theorem readTerm_of_derives {text : String} {tokens : List Token} {t : Term}
    (h : tokenize text = .ok tokens) (ht : Derives tokens t) : readTerm text = .ok t := by
  obtain ⟨last, hphrase⟩ := ht
  rw [readTerm_of_tokens h, readExpression_of_phrase_all hphrase]
  rfl

/-- A text with accepted numerals is read as the term that it derives, or it is malformed. -/
theorem readTerm_cases {text : String} {tokens : List Token} (h : tokenize text = .ok tokens)
    (accepted : ∀ t ∈ tokens, t.Accepted) :
    (∃ t, readTerm text = .ok t ∧ Derives tokens t) ∨
      ∃ e, readTerm text = .error (.malformed e) := by
  rw [readTerm_of_tokens h]
  have hreading := readExpression_reading text.length tokens
  generalize readExpression text.length tokens = result at hreading ⊢
  cases hreading with
  | @expression us after t last split phrase =>
    cases after with
    | nil =>
      rw [List.append_nil] at split
      subst split
      exact Or.inl ⟨t, rfl, last, phrase⟩
    | cons a after => exact Or.inr ⟨.unexpected a.text a.position, rfl⟩
  | malformed e => exact Or.inr ⟨e, rfl⟩
  | overflow mem overflows => exact absurd overflows (accepted _ mem).not_overflows

/-- Of the texts whose numerals all denote constants, exactly those that the grammar derives are
read, each as the one term it derives; the others are malformed. -/
theorem readTerm_eq_ok_iff_derives {text : String} {tokens : List Token}
    (h : tokenize text = .ok tokens) (accepted : ∀ t ∈ tokens, t.Accepted) :
    (∀ t, readTerm text = .ok t ↔ Derives tokens t) ∧
      (∀ t u, Derives tokens t → Derives tokens u → t = u) ∧
      ((¬ ∃ t, Derives tokens t) → ∃ e, readTerm text = .error (.malformed e)) := by
  have hcases := readTerm_cases h accepted
  refine ⟨fun t => ⟨fun hread => ?_, readTerm_of_derives h⟩, fun t u => Derives.unique,
    fun hnone => ?_⟩
  · rcases hcases with ⟨u, hread', hu⟩ | ⟨e, hread'⟩
    · rw [hread, Except.ok.injEq] at hread'
      exact hread' ▸ hu
    · rw [hread] at hread'
      cases hread'
  · rcases hcases with ⟨u, -, hu⟩ | hmalformed
    · exact absurd ⟨u, hu⟩ hnone
    · exact hmalformed

/-- A difference breaks off a run of sums, and a numeral is the base of a power. -/
theorem readTerm_eq_ok_iff_derives_run :
    readTerm "a + b - -2^x + d" = .ok (.app "add" [.app "sub" [.app "add" [.var "a", .var "b"],
      .app "neg" [.app "pow" [.const (.int 2), .var "x"]]], .var "d"]) := by
  let a : Token := ⟨.name, "a", 0⟩
  let plus : Token := ⟨.operator .add, "+", 2⟩
  let b : Token := ⟨.name, "b", 4⟩
  let minus : Token := ⟨.operator .sub, "-", 6⟩
  let sign : Token := ⟨.operator .sub, "-", 8⟩
  let two : Token := ⟨.number, "2", 9⟩
  let caret : Token := ⟨.operator .pow, "^", 10⟩
  let x : Token := ⟨.name, "x", 11⟩
  let more : Token := ⟨.operator .add, "+", 13⟩
  let d : Token := ⟨.name, "d", 15⟩
  let tokens : List Token := [a, plus, b, minus, sign, two, caret, x, more, d]
  have htokens : tokenize "a + b - -2^x + d" = .ok tokens := by
    have h : (tokenize "a + b - -2^x + d").toOption = some tokens := by decide +kernel
    revert h
    cases tokenize "a + b - -2^x + d" with
    | error e => simp [Except.toOption]
    | ok ts => simp [Except.toOption]
  have hvalue : Number.ofNumeral? two.text.toList = some (.int 2) := by decide +kernel
  have haccepted : ∀ t ∈ tokens, t.Accepted := by
    have hnumbers : ∀ t ∈ tokens, t.kind = .number → t = two := by decide
    intro t ht kind
    rw [hnumbers t ht kind]
    exact ⟨.int 2, hvalue, by decide +kernel⟩
  have hname (w : Token) (kind : w.kind = .name) : Phrase 5 [w] (.var w.text) none := .name kind
  have hnumber : Phrase 5 [two] (.const (.int 2)) none := .number rfl hvalue (by decide +kernel)
  have hpower : Phrase 4 [two, caret, x] _ none :=
    .power hnumber rfl (.weaken (k := 1) (hname x rfl) (by decide))
  have hnegation : Phrase 3 [sign, two, caret, x] _ none :=
    .negation rfl (fun _ => rfl) (.looser hpower (by decide))
  have hsum : Phrase 1 [a, plus, b] _ (some .add) :=
    .nested (o := .add) (.weaken (k := 3) (hname a rfl) (by decide)) (by decide) (by decide) rfl
      (.weaken (k := 2) (hname b rfl) (by decide))
  have hdifference : Phrase 1 [a, plus, b, minus, sign, two, caret, x] _ (some .sub) :=
    .nested (o := .sub) hsum (by decide) (by decide) rfl (.looser hnegation (by decide))
  have hphrase : Phrase 1 tokens _ (some .add) :=
    .nested (o := .add) hdifference (by decide) (by decide) rfl
      (.weaken (k := 2) (hname d rfl) (by decide))
  exact ((readTerm_eq_ok_iff_derives htokens haccepted).1 _).mpr ⟨_, hphrase⟩

end Stepwise
