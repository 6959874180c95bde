import Stepwise.Language.Parentheses
import Stepwise.Proofs.Language.Acceptance
import Stepwise.Proofs.Language.Lexemes

namespace Stepwise

namespace Token

/-- What a token adds to the number of open parentheses. -/
def weight (t : Token) : Int :=
  match t.kind with
  | .opening => 1
  | .closing => -1
  | _ => 0

/-- How many parentheses the tokens leave open. -/
def balance (tokens : List Token) : Int := (tokens.map weight).sum

@[simp] theorem balance_nil : balance [] = 0 := rfl

@[simp] theorem balance_cons (t : Token) (ts : List Token) :
    balance (t :: ts) = t.weight + balance ts := rfl

@[simp] theorem balance_append (ts us : List Token) :
    balance (ts ++ us) = balance ts + balance us := by
  simp [balance]

theorem weight_opening {t : Token} (h : t.kind = .opening) : t.weight = 1 := by
  rw [weight, h]

theorem weight_closing {t : Token} (h : t.kind = .closing) : t.weight = -1 := by
  rw [weight, h]

def Kind.isParenthesis (kind : Kind) : Bool := kind == .opening || kind == .closing

theorem weight_of_kind {t : Token} {kind : Kind} (h : t.kind = kind)
    (free : kind.isParenthesis = false) : t.weight = 0 := by
  rw [weight, h]
  split
  · cases free
  · cases free
  · rfl

theorem weight_of_isCallable {t : Token} (h : t.isCallable = true) : t.weight = 0 := by
  rcases kind_of_isCallable h with hk | ⟨_, hk⟩
  · exact weight_of_kind hk rfl
  · exact weight_of_kind hk rfl

end Token

/-- A character that counts for nothing among tokens, and begins no string and no comment. -/
def Surrounding.isPlain (c : Char) : Bool := c != '"' && c != '#' && c != '(' && c != ')'

section Counting

open Token

variable {c : Char} {cs rest : List Char}

theorem openParenthesesFrom_plain (h : ∀ c ∈ cs, Surrounding.isPlain c = true) :
    openParenthesesFrom .code (cs ++ rest) = openParenthesesFrom .code rest := by
  induction cs with
  | nil => rfl
  | cons c cs ih =>
    rw [List.forall_mem_cons] at h
    obtain ⟨hc, hcs⟩ := h
    simp only [Surrounding.isPlain, Bool.and_eq_true, bne_iff_ne] at hc
    simp [openParenthesesFrom, Surrounding.count, hc, ih hcs]

/-- A comment counts for nothing up to the end of its line. -/
theorem openParenthesesFrom_comment (h : '\n' ∉ cs) (ends : ∀ c ∈ rest.head?, c = '\n') :
    openParenthesesFrom .comment (cs ++ rest) = openParenthesesFrom .code rest := by
  induction cs with
  | nil =>
    cases rest with
    | nil => rfl
    | cons c rest =>
      have hc : c = '\n' := ends c rfl
      subst hc
      simp [openParenthesesFrom, Surrounding.count]
  | cons c cs ih =>
    rw [List.mem_cons, not_or] at h
    have hc : c ≠ '\n' := fun hc => h.1 hc.symm
    simp [openParenthesesFrom, Surrounding.count, hc, ih h.2]

theorem openParenthesesFrom_string (h : ∀ c ∈ cs, c ≠ '"' ∧ c ≠ '\n') :
    openParenthesesFrom .string (cs ++ '"' :: rest) = openParenthesesFrom .code rest := by
  induction cs with
  | nil => simp [openParenthesesFrom, Surrounding.count]
  | cons c cs ih =>
    rw [List.forall_mem_cons] at h
    simp [openParenthesesFrom, Surrounding.count, h.1.1, ih h.2]

theorem isPlain_of {p : Char → Bool}
    (hp : p '"' = false ∧ p '#' = false ∧ p '(' = false ∧ p ')' = false) (h : p c = true) :
    Surrounding.isPlain c = true := by
  have hne {d : Char} (hd : p d = false) : c ≠ d := by
    rintro rfl
    rw [h] at hd
    cases hd
  simp [Surrounding.isPlain, hne hp.1, hne hp.2.1, hne hp.2.2.1, hne hp.2.2.2]

theorem isPlain_of_isBlank : Text.isBlank c = true → Surrounding.isPlain c = true :=
  isPlain_of (by decide)

theorem isPlain_of_continuesName : continuesName c = true → Surrounding.isPlain c = true :=
  isPlain_of (by decide)

theorem isPlain_of_mem_numeral (h : c ∈ numeral cs) : Surrounding.isPlain c = true :=
  isPlain_of (p := inNumeral) (by decide) (inNumeral_of_mem_numeral h)

theorem openParenthesesFrom_token {p : Nat} {kind : Kind} (free : kind.isParenthesis = false)
    (plain : ∀ d ∈ c :: cs, Surrounding.isPlain d = true) :
    openParenthesesFrom .code (c :: cs ++ rest) =
      balance (piece p (some kind) (c :: cs)) + openParenthesesFrom .code rest := by
  have hbalance : balance (piece p (some kind) (c :: cs)) = 0 := by
    simp [piece, weight_of_kind (t := ⟨kind, _, p⟩) rfl free]
  rw [openParenthesesFrom_plain plain, hbalance, Int.zero_add]

theorem isPlain_of_operator {o : Operator} (h : Operator.ofSymbol? c = some o) :
    Surrounding.isPlain c = true :=
  isPlain_of (p := fun d => (Operator.ofSymbol? d).isSome) (by decide) (by rw [h]; rfl)

theorem openParenthesesFrom_symbol {p : Nat} {kind : Kind} (h : symbolKind? c = some kind) :
    openParenthesesFrom .code ([c] ++ rest) =
      balance (piece p (some kind) [c]) + openParenthesesFrom .code rest := by
  unfold symbolKind? at h
  split at h
  · cases h
    simp [openParenthesesFrom, Surrounding.count, piece, weight]
  · cases h
    simp [openParenthesesFrom, Surrounding.count, piece, weight]
  · cases h
    simp [openParenthesesFrom, Surrounding.count, piece, weight]
  · cases h
    simp [openParenthesesFrom, Surrounding.count, piece, weight]
  · obtain ⟨o, ho, rfl⟩ := Option.map_eq_some_iff.mp h
    exact openParenthesesFrom_token rfl (by simpa using isPlain_of_operator ho)

/-- A lexeme is counted as the token that it makes. -/
theorem openParenthesesFrom_lexeme {p : Nat} {kind : Option Kind} (h : Lexeme rest kind c cs) :
    openParenthesesFrom .code (c :: cs ++ rest) =
      balance (piece p kind (c :: cs)) + openParenthesesFrom .code rest := by
  cases h with
  | blank blank =>
    have hplain : ∀ d ∈ [c], Surrounding.isPlain d = true := by
      simpa using isPlain_of_isBlank blank
    simpa [piece] using openParenthesesFrom_plain hplain
  | comment line ends =>
    have hcomment := openParenthesesFrom_comment line ends
    simpa [piece, openParenthesesFrom, Surrounding.count] using hcomment
  | numeral starts text =>
    refine openParenthesesFrom_token rfl fun d hd => ?_
    rw [← text] at hd
    exact isPlain_of_mem_numeral hd
  | word starts continues =>
    have hplain : ∀ d ∈ c :: cs, Surrounding.isPlain d = true := by
      rw [List.forall_mem_cons]
      exact ⟨isPlain_of_continuesName (by simp [continuesName, starts]),
        fun d hd => isPlain_of_continuesName (continues d hd)⟩
    rcases wordKind_cases (c :: cs) with hkind | ⟨_, hkind⟩
    · rw [hkind]
      exact openParenthesesFrom_token rfl hplain
    · rw [hkind]
      exact openParenthesesFrom_token rfl hplain
  | @string body inside =>
    simpa [openParenthesesFrom, Surrounding.count, piece, weight] using
      openParenthesesFrom_string inside
  | arrow => exact openParenthesesFrom_token rfl (by simp [Surrounding.isPlain])
  | symbol symbol => exact openParenthesesFrom_symbol symbol

theorem Token.Scanned.openParentheses {p : Nat} {ts : List Token} (h : Scanned p ts cs) :
    openParenthesesFrom .code cs = balance ts := by
  induction h with
  | nil => rfl
  | dropped lexeme behind ih =>
    rw [openParenthesesFrom_lexeme (p := 0) lexeme, ih, ← balance_append]
    rfl
  | @token p kind c ds rest ts lexeme behind ih =>
    rw [openParenthesesFrom_lexeme (p := p) lexeme, ih, ← balance_append]
    rfl

theorem openParenthesesFrom_of_scan {p : Nat} {ts : List Token} (h : scan p 0 cs = .ok ts) :
    openParenthesesFrom .code cs = balance ts :=
  (scanned_of_scan h).openParentheses

section Shape

variable {ds : List Char} {kind : Kind}

theorem symbolKind?_eq_opening_iff : symbolKind? c = some .opening ↔ c = '(' := by
  unfold symbolKind?
  split <;> simp_all

theorem symbolKind?_eq_closing_iff : symbolKind? c = some .closing ↔ c = ')' := by
  unfold symbolKind?
  split <;> simp_all

/-- A lexeme that is not a symbol is no parenthesis, and begins with none. -/
theorem Token.Lexeme.symbol_or_plain (h : Lexeme rest (some kind) c ds) :
    (symbolKind? c = some kind ∧ ds = []) ∨
      (kind.isParenthesis = false ∧ c ≠ '(' ∧ c ≠ ')') := by
  have hplain (hc : Surrounding.isPlain c = true) : c ≠ '(' ∧ c ≠ ')' := by
    simp only [Surrounding.isPlain, Bool.and_eq_true, bne_iff_ne] at hc
    exact ⟨hc.1.2, hc.2⟩
  cases h with
  | numeral starts text =>
    exact Or.inr ⟨rfl, hplain (isPlain_of_mem_numeral (text ▸ List.mem_cons_self))⟩
  | word starts continues =>
    have hword := hplain (isPlain_of_continuesName (by simp [continuesName, starts]))
    rcases wordKind_cases (c :: ds) with hkind | ⟨_, hkind⟩
    · exact Or.inr ⟨by rw [hkind]; rfl, hword⟩
    · exact Or.inr ⟨by rw [hkind]; rfl, hword⟩
  | string => exact Or.inr ⟨rfl, by decide, by decide⟩
  | arrow => exact Or.inr ⟨rfl, by decide, by decide⟩
  | symbol symbol => exact Or.inl ⟨symbol, rfl⟩

/-- Parentheses are told by their text. -/
theorem Token.Lexeme.parenthesis_iff (h : Lexeme rest (some kind) c ds) :
    (kind = .opening ↔ c :: ds = ['(']) ∧ (kind = .closing ↔ c :: ds = [')']) := by
  rcases h.symbol_or_plain with ⟨symbol, rfl⟩ | ⟨free, hopening, hclosing⟩
  · have hopening := symbolKind?_eq_opening_iff (c := c)
    have hclosing := symbolKind?_eq_closing_iff (c := c)
    rw [symbol, Option.some_inj] at hopening hclosing
    simpa using ⟨hopening, hclosing⟩
  · constructor
    · constructor
      · rintro rfl
        cases free
      · intro htext
        exact absurd (List.cons.inj htext).1 hopening
    · constructor
      · rintro rfl
        cases free
      · intro htext
        exact absurd (List.cons.inj htext).1 hclosing

theorem Token.Scanned.parenthesis_iff {p : Nat} {cs : List Char} {ts : List Token}
    (h : Scanned p ts cs) : ∀ t ∈ ts,
      (t.kind = .opening ↔ t.text = "(") ∧ (t.kind = .closing ↔ t.text = ")") := by
  induction h with
  | nil => simp
  | dropped lexeme behind ih => exact ih
  | @token p kind c ds rest ts lexeme behind ih =>
    have htext (d : Char) : String.ofList (c :: ds) = String.ofList [d] ↔ c :: ds = [d] :=
      String.ofList_inj
    rw [List.forall_mem_cons]
    refine ⟨?_, ih⟩
    rw [show "(" = String.ofList ['('] from rfl, show ")" = String.ofList [')'] from rfl]
    dsimp only
    rw [htext, htext]
    exact lexeme.parenthesis_iff

theorem Token.balance_eq_countP (ts : List Token) :
    balance ts = ts.countP (fun t => t.kind = .opening) - ts.countP (fun t => t.kind = .closing) := by
  induction ts with
  | nil => rfl
  | cons t ts ih =>
    rw [balance_cons, ih, List.countP_cons, List.countP_cons, weight]
    split <;> simp_all <;> omega

end Shape

end Counting

/-- The parentheses that a text leaves open are those of its tokens. -/
theorem openParentheses_of_tokenize {text : String} {tokens : List Token}
    (h : tokenize text = .ok tokens) : openParentheses text = Token.balance tokens :=
  openParenthesesFrom_of_scan h

/-- The characters are counted as the tokens are: one for each `(` among them, and one less for each
`)`, whatever strings, comments and names hold. -/
theorem openParentheses_eq_countP {text : String} {tokens : List Token}
    (h : tokenize text = .ok tokens) : openParentheses text =
      tokens.countP (fun t => t.text = "(") - tokens.countP (fun t => t.text = ")") := by
  have hkind := (Token.scanned_of_scan h).parenthesis_iff
  have hopening : tokens.countP (fun t => t.kind = .opening) =
      tokens.countP (fun t => t.text = "(") :=
    List.countP_congr fun t ht => by simpa using (hkind t ht).1
  have hclosing : tokens.countP (fun t => t.kind = .closing) =
      tokens.countP (fun t => t.text = ")") :=
    List.countP_congr fun t ht => by simpa using (hkind t ht).2
  rw [openParentheses_of_tokenize h, Token.balance_eq_countP, hopening, hclosing]

/-- An apostrophe in a name, and parentheses and a sign of a comment in a string and in a comment. -/
theorem openParentheses_eq_countP_quoted :
    let text := "f'(\"# (\" # \")(\n(x)"
    let tokens : List Token := [⟨.name, "f'", 0⟩, ⟨.opening, "(", 2⟩, ⟨.string, "\"# (\"", 3⟩,
      ⟨.opening, "(", 15⟩, ⟨.name, "x", 16⟩, ⟨.closing, ")", 17⟩]
    tokenize text = .ok tokens ∧ openParentheses text = 1 := by
  intro text tokens
  have htokens : tokenize text = .ok tokens := ok_of_toOption (by decide +kernel)
  refine ⟨htokens, ?_⟩
  rw [openParentheses_eq_countP htokens]
  decide +kernel

section Balance

open Token

mutual

/-- An expression closes every parenthesis that it opens. -/
theorem Phrase.balance {n : Nat} {ts : List Token} {t : Term} {last : Option Operator} :
    Phrase n ts t last → Token.balance ts = 0
  | .looser h _ => h.balance
  | .extended left _ kind right | .nested left _ _ kind right | .power left kind right => by
    have hsign := weight_of_kind kind rfl
    simp [left.balance, hsign, right.balance]
  | .negative kind number _ _ => by
    have hsign := weight_of_kind kind rfl
    have hnumeral := weight_of_kind number rfl
    simp [hsign, hnumeral]
  | .negation kind _ h => by
    have hsign := weight_of_kind kind rfl
    simp [hsign, h.balance]
  | .number kind _ _ | .name kind => by
    simp [weight_of_kind kind rfl]
  | .nullary callable opens closes => by
    simp [weight_of_isCallable callable, weight_opening opens, weight_closing closes]
  | .call callable opens arguments closes => by
    simp [weight_of_isCallable callable, weight_opening opens, weight_closing closes,
      arguments.balance]
  | .group opens h closes => by
    simp [weight_opening opens, weight_closing closes, h.balance]

theorem Arguments.balance {ts : List Token} {args : List Term} :
    Arguments ts args → Token.balance ts = 0
  | .one h => h.balance
  | .more h kind rest => by
    have hcomma := weight_of_kind kind rfl
    simp [h.balance, hcomma, rest.balance]

end

/-- The rest is left of the tokens, and those in front of it, one at least, close every parenthesis
that they open. -/
inductive Leaves : List Token → List Token → Prop
  | behind {used rest : List Token} (nonempty : used ≠ []) (balanced : Token.balance used = 0) :
      Leaves (used ++ rest) rest

namespace Leaves

variable {ts us vs : List Token}

theorem trans (h : Leaves ts us) (h' : Leaves us vs) :
    Leaves ts vs := by
  cases h with
  | @behind first _ nonempty balanced =>
    cases h' with
    | @behind second _ nonempty' balanced' =>
      rw [← List.append_assoc]
      exact .behind (by simp [nonempty]) (by simp [balanced, balanced'])

theorem balance (h : Leaves ts us) : Token.balance ts = Token.balance us := by
  cases h with
  | behind nonempty balanced => simp [balanced]

theorem one {t : Token} (weight : t.weight = 0) : Leaves (t :: ts) ts :=
  show Leaves ([t] ++ ts) ts from .behind (by simp) (by simp [weight])

theorem of_kind {t : Token} {kind : Kind} (h : t.kind = kind)
    (free : kind.isParenthesis = false) : Leaves (t :: ts) ts :=
  .one (weight_of_kind h free)

end Leaves

variable {stop : Nat} {tokens rest : List Token} {t : Term}

theorem leaves_of_readExpression (h : readExpression stop tokens = .ok (t, rest)) :
    Leaves tokens rest := by
  have hreading := readExpression_reading stop tokens
  rw [h] at hreading
  cases hreading with
  | expression us after split phrase =>
    subst split
    exact .behind phrase.ne_nil phrase.balance

theorem leaves_of_expectKind {kind : Kind} {what : Expected} {t : Token}
    (h : expectKind kind what stop tokens = .ok (t, rest)) (free : kind.isParenthesis = false) :
    Leaves tokens rest := by
  unfold expectKind at h
  split at h
  · split at h
    · rename_i hkind
      cases h
      exact .of_kind hkind free
    · cases h
  · cases h

theorem leaves_of_readDepth {depth : Nat} (h : readDepth stop tokens = .ok (depth, rest)) :
    Leaves tokens rest := by
  obtain ⟨⟨t, rest'⟩, hkind, h⟩ := ok_of_bind h
  obtain ⟨a, -, h⟩ := ok_of_bind h
  cases a with
  | int n =>
    cases h
    exact leaves_of_expectKind hkind rfl
  | float x => cases h

theorem leaves_of_readSides {p q : Term} (h : readSides stop tokens = .ok (p, q, rest)) :
    Leaves tokens rest := by
  obtain ⟨⟨pattern, _⟩, hpattern, h⟩ := ok_of_bind h
  obtain ⟨⟨arrow, _⟩, harrow, h⟩ := ok_of_bind h
  obtain ⟨⟨replacement, _⟩, hreplacement, h⟩ := ok_of_bind h
  cases h
  exact (leaves_of_readExpression hpattern).trans
    ((leaves_of_expectKind harrow rfl).trans
      (leaves_of_readExpression hreplacement))

theorem leaves_of_readDefinition {statement : Statement}
    (h : readDefinition stop tokens = .ok (statement, rest)) : Leaves tokens rest := by
  obtain ⟨⟨name, _⟩, hname, h⟩ := ok_of_bind h
  obtain ⟨⟨naming, _⟩, hnaming, h⟩ := ok_of_bind h
  obtain ⟨⟨pattern, replacement, _⟩, hsides, h⟩ := ok_of_bind h
  obtain ⟨rule, -, h⟩ := ok_of_bind h
  cases h
  exact (leaves_of_expectKind hname rfl).trans
    ((leaves_of_expectKind hnaming rfl).trans (leaves_of_readSides hsides))

theorem leaves_of_hasKeyword {keyword : Keyword} (h : hasKeyword keyword tokens = true) :
    Leaves tokens tokens.tail := by
  cases tokens with
  | nil => cases h
  | cons t ts =>
    have hkind : t.kind = .keyword keyword := by
      simp only [hasKeyword, Bool.and_eq_true, beq_iff_eq] at h
      exact h.1
    exact .of_kind hkind rfl

theorem leaves_of_readInline {pattern : Term} {statement : Statement}
    (h : readInline stop pattern tokens = .ok (statement, rest)) : Leaves tokens rest := by
  obtain ⟨⟨replacement, after⟩, hreplacement, h⟩ := ok_of_bind h
  obtain ⟨rule, -, h⟩ := ok_of_bind h
  dsimp only at h
  split at h
  · rename_i hat
    obtain ⟨⟨depth, _⟩, hdepth, h⟩ := ok_of_bind h
    cases h
    exact (leaves_of_readExpression hreplacement).trans
      ((leaves_of_hasKeyword hat).trans (leaves_of_readDepth hdepth))
  · cases h
    exact leaves_of_readExpression hreplacement

theorem leaves_of_readApply {position : Nat} {left : Term} {statement : Statement}
    (h : readApply stop position left tokens = .ok (statement, rest)) : Leaves tokens rest := by
  unfold readApply at h
  split at h
  · obtain ⟨⟨depth, _⟩, hdepth, h⟩ := ok_of_bind h
    cases h
    exact leaves_of_readDepth hdepth
  · cases h

theorem leaves_of_readFromExpression {statement : Statement}
    (h : readFromExpression stop tokens = .ok (statement, rest)) : Leaves tokens rest := by
  obtain ⟨⟨left, behind⟩, hleft, h⟩ := ok_of_bind h
  have hexpression := leaves_of_readExpression hleft
  dsimp only at h
  split at h
  · split at h
    · rename_i harrow
      exact hexpression.trans
        ((Leaves.of_kind harrow rfl).trans (leaves_of_readInline h))
    · split at h
      · rename_i hat
        exact hexpression.trans ((leaves_of_hasKeyword hat).trans (leaves_of_readApply h))
      · cases h
        exact hexpression
  · cases h
    exact hexpression

theorem readFinish_cases (tokens : List Token) :
    (readFinish tokens).2 = tokens ∨ Leaves tokens (readFinish tokens).2 := by
  unfold readFinish
  split
  · split
    · rename_i hstring
      exact Or.inr (.of_kind hstring rfl)
    · exact Or.inl rfl
  · exact Or.inl rfl

theorem leaves_of_readStatement {statement : Statement}
    (h : readStatement stop tokens = .ok (statement, rest)) : Leaves tokens rest := by
  unfold readStatement at h
  split at h
  · rename_i hkeyword
    exact (leaves_of_hasKeyword hkeyword).trans (leaves_of_readDefinition h)
  split at h
  · rename_i hkeyword
    rw [Except.ok.injEq] at h
    have hrest : (readFinish tokens.tail).2 = rest := by rw [h]
    rw [← hrest]
    rcases readFinish_cases tokens.tail with hsame | hleaves
    · rw [hsame]
      exact leaves_of_hasKeyword hkeyword
    · exact (leaves_of_hasKeyword hkeyword).trans hleaves
  split at h
  · cases h
    exact leaves_of_hasKeyword ‹_›
  split at h
  · cases h
    exact leaves_of_hasKeyword ‹_›
  · exact leaves_of_readFromExpression h

/-- Statements close every parenthesis that they open. -/
theorem balance_of_readStatements {statements : List Statement}
    (h : readStatements stop 0 tokens = .ok statements) : Token.balance tokens = 0 := by
  induction hn : tokens.length using Nat.strongRecOn generalizing tokens statements with
  | _ n ih =>
    cases tokens with
    | nil => rfl
    | cons t ts =>
      rw [List.length_cons] at hn
      rw [readStatements] at h
      split at h
      · rename_i hsemicolon
        rw [Token.balance_cons, weight_of_kind hsemicolon rfl,
          ih ts.length (by omega) h rfl, Int.zero_add]
      · obtain ⟨⟨statement, rest⟩, hstatement, h⟩ := ok_of_bind h
        obtain ⟨more, hmore, -⟩ := ok_of_bind h
        have hleaves := leaves_of_readStatement hstatement
        rw [hleaves.balance]
        generalize hall : t :: ts = all at hleaves
        cases hleaves with
        | @behind used _ nonempty balanced =>
          obtain ⟨u, used, rfl⟩ := List.exists_cons_of_ne_nil nonempty
          rw [List.cons_append, List.cons.injEq] at hall
          obtain ⟨-, rfl⟩ := hall
          have hskip : (used ++ rest).length - rest.length = used.length := by simp
          rw [hskip, readStatements_skip] at hmore
          exact ih rest.length (by simp at hn; omega) hmore rfl

end Balance

/-- A text that is read leaves no parenthesis open. -/
theorem openParentheses_of_readProgram {text : String} {statements : List Statement}
    (h : readProgram text = .ok statements) : openParentheses text = 0 := by
  obtain ⟨tokens, htokens, h⟩ := ok_of_bind_mapError h
  rw [openParentheses_of_tokenize htokens, balance_of_readStatements h]

end Stepwise
