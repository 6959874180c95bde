import Stepwise.Derivation
import Stepwise.Proofs.RuleFile.DefinitionRoundTrip
import Stepwise.Proofs.Language.BareTokens
import Stepwise.Proofs.Language.Printable

namespace Stepwise

/-- No keyword and no semicolon is at the start: a keyword there names a functor. -/
def Token.StartExpression (tokens : List Token) : Prop :=
  ∀ keyword, Token.hasKeyword keyword tokens = false ∧ Token.hasKind .semicolon tokens = false

theorem Token.startExpression_of_kind {t : Token} {ts : List Token} {kind : Kind}
    (h : t.kind = kind)
    (plain : ∀ keyword, (kind == .keyword keyword) = false ∧ (kind == .semicolon) = false) :
    StartExpression (t :: ts) := by
  intro keyword
  simp only [hasKeyword, hasKind_cons, h, plain keyword, Bool.false_and, and_self]

theorem Token.startExpression_of_isCallable {t opening : Token} {ts : List Token}
    (callable : t.isCallable = true) (opens : opening.kind = .opening) :
    StartExpression (t :: opening :: ts) := by
  intro keyword
  constructor
  · rw [hasKeyword, hasKind_cons, opens, beq_self_eq_true, Bool.not_true, Bool.and_false]
  · exact hasKind_of_isCallable callable (by simp) (by simp)

/-- An expression begins with an operand. -/
theorem Phrase.starts {n : Nat} {ts : List Token} {t : Term} {last : Option Operator} :
    Phrase n ts t last → ∀ rest, Token.StartExpression (ts ++ rest)
  | .looser h _, rest => h.starts rest
  | .extended left _ _ _, _ | .nested left _ _ _ _, _ | .power left _ _, _ => by
    rw [List.append_assoc]
    exact left.starts _
  | .negative kind .., _ | .negation kind .., _ | .number kind .., _ | .name kind, _
  | .group kind .., _ => Token.startExpression_of_kind kind fun _ => ⟨rfl, rfl⟩
  | .nullary callable opens _, _ | .call callable opens _ _, _ =>
    Token.startExpression_of_isCallable callable opens

namespace Token

theorem scans_digits {p : Nat} (n : Nat) :
    Scans p (Nat.toDigits 10 n) [⟨.number, String.ofList (Nat.toDigits 10 n), p⟩] := by
  let numeral : Numeral := ⟨Nat.toDigits 10 n, none, none, by simp,
    fun c hc => Text.isDigit_of_mem_toDigits (by simpa using hc)⟩
  have htext : numeral.text = Nat.toDigits 10 n := by
    simp [numeral, Numeral.text, Numeral.fractionText, Numeral.exponentText]
  have hscan := scans_numeral (p := p) numeral
  rwa [htext] at hscan

/-- The keyword and the digits of a depth. -/
def depthTokens (p depth : Nat) : List Token :=
  [⟨.keyword .depth, Keyword.depth.word, p⟩,
    ⟨.number, String.ofList (Nat.toDigits 10 depth), p + Keyword.depth.word.toList.length + 1⟩]

theorem scans_depth {p : Nat} (depth : Nat) :
    Scans p (Keyword.depth.word.toList ++ ' ' :: Nat.toDigits 10 depth) (depthTokens p depth) :=
  (scans_keyword .depth).append (.blank (scans_digits depth)) rfl

theorem endsExpression_depthTokens (p depth : Nat) :
    endsExpression (depthTokens p depth) = true := rfl

theorem readDepth_depthTokens {stop p depth : Nat} (few : Number.HasFewDigits depth) :
    readDepth stop (depthTokens p depth).tail = .ok (depth, []) := by
  have hvalue : Number.ofNumeral? (String.ofList (Nat.toDigits 10 depth)).toList =
      some (.int depth) := by
    rw [String.toList_ofList]
    exact Number.ofNumeral?_toDigits few
  simp only [depthTokens, List.tail_cons, readDepth, expectKind, if_true, bind, Except.bind, number,
    hvalue]
  rfl

end Token

section Statements

variable {stop p depth : Nat} {ts us : List Token} {t u : Term} {last last' : Option Operator}

theorem readStatement_of_phrase (h : Phrase 1 ts t last) (rest : List Token) :
    readStatement stop (ts ++ rest) = readFromExpression stop (ts ++ rest) := by
  have hkeyword (k : Keyword) : ¬ Token.hasKeyword k (ts ++ rest) = true := by
    rw [(h.starts rest k).1]
    exact Bool.false_ne_true
  rw [readStatement, if_neg (hkeyword _), if_neg (hkeyword _), if_neg (hkeyword _),
    if_neg (hkeyword _)]

theorem readStatement_start (h : Phrase 1 ts t last) :
    readStatement stop ts = .ok (.start t, []) := by
  have hread : readStatement stop (ts ++ []) = readFromExpression stop (ts ++ []) :=
    readStatement_of_phrase h []
  rw [List.append_nil] at hread
  rw [hread, readFromExpression, readExpression_of_phrase_all h]
  rfl

/-- A name in front of a depth is that of a rule. -/
theorem readStatement_apply {name : String} (h : Phrase 1 ts (.var name) last)
    (few : Number.HasFewDigits depth) :
    readStatement stop (ts ++ Token.depthTokens p depth) = .ok (.apply name depth, []) := by
  have hexpression : readExpression stop (ts ++ Token.depthTokens p depth) =
      .ok (.var name, Token.depthTokens p depth) :=
    readExpression_of_phrase h (Token.endsExpression_depthTokens p depth)
  have hdepth : readDepth stop (Token.depthTokens p depth).tail = .ok (depth, []) :=
    Token.readDepth_depthTokens few
  rw [readStatement_of_phrase h, readFromExpression, hexpression]
  simp only [Token.depthTokens, List.tail_cons, bind, Except.bind] at hdepth ⊢
  simp only [Token.hasKeyword, Token.hasKind_cons, readApply, bind, Except.bind, hdepth]
  rfl

/-- An arrow behind an expression makes it the left side of an in-line rule. -/
theorem readStatement_arrow {arrow : Token} (harrow : arrow.kind = .arrow) (h : Phrase 1 ts t last)
    (rest : List Token) :
    readStatement stop (ts ++ arrow :: rest) = readInline stop t rest := by
  have hends : Token.endsExpression (arrow :: rest) = true := by
    simp [Token.endsExpression, harrow]
  have hleft : readExpression stop (ts ++ arrow :: rest) = .ok (t, arrow :: rest) :=
    readExpression_of_phrase h hends
  rw [readStatement_of_phrase h, readFromExpression, hleft]
  simp only [bind, Except.bind, harrow, if_true]

/-- A rule in front of a depth is applied at that depth. -/
theorem readInline_depth (h : Phrase 1 us u last') (few : Number.HasFewDigits depth) :
    readInline stop t (us ++ Token.depthTokens p depth) =
      (makeRule t u none).map fun rule => (.inline rule depth, []) := by
  have hright : readExpression stop (us ++ Token.depthTokens p depth) =
      .ok (u, Token.depthTokens p depth) :=
    readExpression_of_phrase h (Token.endsExpression_depthTokens p depth)
  have hkeyword : Token.hasKeyword .depth (Token.depthTokens p depth) = true := rfl
  simp only [readInline, hright, bind, Except.bind]
  cases makeRule t u none with
  | error e => rfl
  | ok rule =>
    simp only [hkeyword, if_true, Token.readDepth_depthTokens few]
    rfl

/-- A rule at the end of the text is applied to the whole term. -/
theorem readInline_whole (h : Phrase 1 us u last') :
    readInline stop t us = (makeRule t u none).map fun rule => (.inline rule 0, []) := by
  simp only [readInline, readExpression_of_phrase_all h, bind, Except.bind]
  cases makeRule t u none <;> rfl

theorem readStatement_inline {rule : Rule} {arrow : Token} (harrow : arrow.kind = .arrow)
    (hname : rule.name = none) (hpattern : Phrase 1 ts rule.pattern.asRead last)
    (hreplacement : Phrase 1 us rule.replacement.asRead last')
    (few : Number.HasFewDigits depth) :
    readStatement stop (ts ++ arrow :: (us ++ Token.depthTokens p depth)) =
      .ok (.inline rule.asRead depth, []) := by
  have hmake := makeRule_asRead rule
  rw [hname] at hmake
  rw [readStatement_arrow harrow hpattern, readInline_depth hreplacement few, hmake]
  rfl

/-- A statement that takes all tokens is the only one. -/
theorem readStatements_single {x : Except ReadError Statement}
    (hfree : Token.hasKind .semicolon ts = false) (nonempty : ts ≠ [])
    (h : readStatement stop ts = x.map (·, [])) :
    readStatements stop 0 ts = x.map ([·]) := by
  obtain ⟨w, ws, rfl⟩ := List.exists_cons_of_ne_nil nonempty
  rw [Token.hasKind_cons, beq_eq_false_iff_ne] at hfree
  have hskip : readStatements stop ws.length (ws ++ []) = readStatements stop 0 [] :=
    readStatements_skip
  rw [List.append_nil] at hskip
  rw [readStatements, if_neg hfree, h]
  cases x with
  | error e => rfl
  | ok statement =>
    simp only [Except.map, bind, Except.bind, List.length_nil, Nat.sub_zero, hskip, readStatements]
    rfl

theorem readProgram_single {text : String} {statement : Statement}
    (hscan : Token.Scans 0 text.toList ts) (hfree : Token.hasKind .semicolon ts = false)
    (nonempty : ts ≠ []) (h : readStatement text.length ts = .ok (statement, [])) :
    readProgram text = .ok [statement] := by
  rw [readProgram, tokensOf, tokenize_of_scans hscan]
  exact readStatements_single (x := .ok statement) hfree nonempty h

/-- A text that is read as a term is, as a program, the one statement that starts with it. -/
theorem readProgram_of_readTerm {text : String} (h : readTerm text = .ok t) :
    readProgram text = .ok [.start t] := by
  obtain ⟨ts, hts, last, hphrase⟩ := derives_of_readTerm h
  have hfree := (hphrase.starts [] .define).2
  rw [List.append_nil] at hfree
  have hsingle : readStatements 0 0 ts = .ok [.start t] :=
    readStatements_single (x := .ok (.start t)) hfree hphrase.ne_nil (readStatement_start hphrase)
  exact ((readProgram_of_bareTokens? hts).ok_iff _).mpr hsingle

end Statements

namespace Token

/-- What the text of a term begins with: a name, a numeral or a minus sign. -/
def startsTerm (c : Char) : Bool := startsName c || Text.isDigit c || c == '-'

theorem exists_cons_of_isIdentifier {name : String} (h : isIdentifier name = true) :
    ∃ c cs, name.toList = c :: cs ∧ startsTerm c = true := by
  unfold isIdentifier at h
  split at h
  · cases h
  · rename_i c cs hname
    rw [Bool.and_eq_true] at h
    refine ⟨c, cs, hname, ?_⟩
    rw [startsTerm, h.1, Bool.true_or, Bool.true_or]

theorem not_of_startsTerm {c : Char} (h : startsTerm c = true) :
    Text.isBlank c = false ∧ c ≠ '#' ∧ c ≠ ':' := by
  have hmarks : startsTerm '#' = false ∧ startsTerm ':' = false := by decide
  refine ⟨?_, ?_, ?_⟩
  · simp only [startsTerm, Bool.or_eq_true, beq_iff_eq] at h
    rcases h with (hname | hdigit) | rfl
    · exact (not_of_startsName hname).1
    · exact Text.isBlank_of_isDigit hdigit
    · decide
  · rintro rfl
    rw [hmarks.1] at h
    cases h
  · rintro rfl
    rw [hmarks.2] at h
    cases h

end Token

theorem Numeral.exists_text_cons (n : Numeral) :
    ∃ c cs, n.text = c :: cs ∧ Token.startsTerm c = true := by
  obtain ⟨c, cs, hwhole⟩ := List.exists_cons_of_ne_nil n.nonempty
  have hdigit : Text.isDigit c = true := n.whole_digits c (by simp [hwhole])
  refine ⟨c, cs ++ n.fractionText ++ n.exponentText, ?_, ?_⟩
  · rw [text, hwhole]
    rfl
  · rw [Token.startsTerm, hdigit, Bool.or_true, Bool.true_or]

theorem Term.exists_written_cons {t : Term} (h : t.isPrintable = true) :
    ∃ c cs, t.written = c :: cs ∧ Token.startsTerm c = true := by
  cases t with
  | const a =>
    obtain ⟨n, -, htext, -⟩ := Number.exists_numeral_text h
    rw [written, htext]
    split
    · exact ⟨'-', n.text, rfl, rfl⟩
    · exact n.exists_text_cons
  | var x =>
    rw [isPrintable, Bool.and_eq_true] at h
    exact Token.exists_cons_of_isIdentifier h.1
  | app f args =>
    rw [isPrintable, Bool.and_eq_true] at h
    obtain ⟨c, cs, hf, hc⟩ := Token.exists_cons_of_isIdentifier h.1
    rw [written, writtenCall, hf]
    exact ⟨c, _, rfl, hc⟩

/-- A term, typed in, is the start of a session. -/
theorem readProgram_render {t : Term} (h : t.isPrintable = true) :
    readProgram t.render = .ok [.start t.asRead] :=
  readProgram_of_readTerm (readTerm_render_eq h)

/-- The text that applies the rule with the label at the depth. -/
def applySource (label : String) (depth : Nat) : String := label ++ " at " ++ toString depth

theorem toList_applySource (label : String) (depth : Nat) :
    (applySource label depth).toList = label.toList ++
      ' ' :: (Keyword.depth.word.toList ++ ' ' :: Nat.toDigits 10 depth) := by
  have hdepth : (toString depth).toList = Nat.toDigits 10 depth := by
    rw [Nat.toString_eq_repr, Nat.repr, String.toList_ofList]
  rw [applySource, String.toList_append, String.toList_append, hdepth, List.append_assoc]
  rfl

/-- A rule whose name a definition could give it is applied by that name. -/
theorem readProgram_applySource {name : String} {depth : Nat}
    (hidentifier : Token.isIdentifier name = true) (hfree : Keyword.ofWord? name = none)
    (few : Number.HasFewDigits depth) :
    readProgram (applySource name depth) = .ok [.apply name depth] := by
  have hword : Token.Scans 0 name.toList [⟨.name, name, 0⟩] := Token.scans_name hidentifier hfree
  have hphrase : Phrase 5 [⟨.name, name, 0⟩] (.var name) none := .name rfl
  have hall := hword.append (.blank (Token.scans_depth depth)) rfl
  rw [← toList_applySource] at hall
  exact readProgram_single hall rfl (by simp)
    (readStatement_apply (.weaken (k := 3) hphrase (by decide)) few)

namespace Step

variable {step : Step}

theorem label_eq_applySource (step : Step) : step.label = applySource step.rule.label step.depth :=
  rfl

theorem label_of_named {name : String} (hname : step.rule.name = some name)
    (hempty : name.isEmpty = false) : step.rule.label = name := by
  rw [Rule.label, hname]
  simp [hempty]

/-- The label of a step of a named rule applies the rule by its name. -/
theorem readProgram_label_named {name : String} (hname : step.rule.name = some name)
    (hidentifier : Token.isIdentifier name = true) (hfree : Keyword.ofWord? name = none)
    (few : Number.HasFewDigits step.depth) :
    readProgram step.label = .ok [.apply name step.depth] := by
  rw [label_eq_applySource, label_of_named hname (Token.isEmpty_of_isIdentifier hidentifier)]
  exact readProgram_applySource hidentifier hfree few

/-- The label of a step of an unnamed rule is the rule itself. -/
theorem readProgram_label_unnamed (hname : step.rule.name = none) (h : step.rule.IsPrintable)
    (few : Number.HasFewDigits step.depth) :
    readProgram step.label = .ok [.inline step.rule.asRead step.depth] := by
  obtain ⟨last, hpattern⟩ := step.rule.pattern.standsWritten h.1
  obtain ⟨last', hreplacement⟩ := step.rule.replacement.standsWritten h.2
  obtain ⟨ts, hscan, hphrase⟩ := hpattern 0
  obtain ⟨us, hscan', hphrase'⟩ := hreplacement (0 + step.rule.pattern.written.length + 1 + 2 + 1)
  have hrule : step.rule.label = step.rule.text := by rw [Rule.label, hname]
  have hall := hscan.append (.blank (.arrow (.blank (hscan'.append
    (.blank (Token.scans_depth step.depth)) rfl)))) rfl
  have hlabel := toList_applySource step.rule.label step.depth
  rw [← label_eq_applySource, hrule, Rule.text, toList_ruleText, List.append_assoc] at hlabel
  simp only [List.cons_append] at hlabel
  rw [← hlabel] at hall
  exact readProgram_single hall (hphrase.starts _ .define).2 (by simp)
    (readStatement_inline rfl hname hphrase hphrase' few)

end Step

end Stepwise
