import Stepwise.Proofs.Language.Labels
import Stepwise.Proofs.Rule.Variables
import Stepwise.Proofs.RuleFile.ObjectRoundTrip

namespace Stepwise

open Token

/-- The two texts with an arrow on a line of its own between them. -/
def ruleSource (pattern replacement : String) : String := pattern ++ "\n=>\n" ++ replacement

def definitionSource (name pattern replacement : String) : String :=
  "def " ++ name ++ " as\n" ++ ruleSource pattern replacement

/-- A rule file with the one entry. -/
def ruleObject (name pattern replacement : String) : Json :=
  .object [("rules", .list [RuleEntry.ofTexts name pattern replacement])]

/-- However the texts are put together, reading comes to the rule or to the same refusal: to the
rule with the name as an arrow between them, as a definition and as a JSON rule file, and to the one
without a name, applied to the whole term, as a program. -/
structure Spelled (name pattern replacement : String)
    (named unnamed : Except UnboundVariables Rule) : Prop where
  rule : readRule (ruleSource pattern replacement) (some name) = named.mapError .unbound
  definition : readDefinitions (definitionSource name pattern replacement) =
    (named.mapError .unbound).map ([·])
  object : ∀ text, Json.read text = .ok (ruleObject name pattern replacement) →
    readRuleObject text = (named.mapError (.unreadable ∘ .unbound)).map ([·])
  written : ∀ layout, Json.read (Json.write layout (ruleObject name pattern replacement)) =
    .ok (ruleObject name pattern replacement)
  inline : readProgram (ruleSource pattern replacement) =
    (unnamed.mapError .unbound).map fun rule => [.inline rule 0]

variable {text name pattern replacement : String} {ts us : List Token} {t u : Term}

theorem makeRule_ne_malformed {name : Option String} (e : SyntaxError) :
    makeRule t u name ≠ .error (.malformed e) := by
  unfold makeRule
  cases Rule.make? t u name <;> nofun

/-- A text is read as the rule that its tokens have the sides of, wherever they stand. -/
theorem readRule_of_bareTokens? (h : bareTokens? text.toList = some ts)
    (hsides : readSides 0 ts = .ok (t, u, [])) (name : Option String) :
    readRule text name = makeRule t u name := by
  obtain ⟨tokens, htokens, rfl⟩ := bareTokens?_eq_some.mp h
  have hagrees : Agree (fun a b => b = (a.1, a.2.1, a.2.2.map bare ++ []))
      (readSides text.length tokens) (readSides 0 (tokens.map bare ++ [])) := readSides_agrees rfl
  rw [List.append_nil, hsides] at hagrees
  obtain ⟨⟨t', u', rest⟩, hread, heq⟩ := hagrees.exists_of_eq_ok
  simp only [Prod.mk.injEq, List.append_nil, List.nil_eq, List.map_eq_nil_iff] at heq
  obtain ⟨rfl, rfl, rfl⟩ := heq
  rw [readRule, tokensOf, htokens]
  simp only [mapError_ok, bind, Except.bind, hread, checkFinished]

theorem bareTokens?_ruleSource (hpattern : bareTokens? pattern.toList = some ts)
    (hreplacement : bareTokens? replacement.toList = some us) :
    bareTokens? (ruleSource pattern replacement).toList = some (ts ++ ⟨.arrow, "=>", 0⟩ :: us) := by
  have htext : (ruleSource pattern replacement).toList =
      pattern.toList ++ '\n' :: (['=', '>'] ++ '\n' :: replacement.toList) := by
    simp [ruleSource]
  have harrow : bareTokens? ['=', '>'] = some [⟨.arrow, "=>", 0⟩] :=
    bareTokens?_alone (some .arrow) rfl
  rw [htext, bareTokens?_append_newline, bareTokens?_append_newline, hpattern, hreplacement, harrow]
  rfl

theorem bareTokens?_definitionSource (hname : isIdentifier name = true)
    (hfree : Keyword.ofWord? name = none) (hpattern : bareTokens? pattern.toList = some ts)
    (hreplacement : bareTokens? replacement.toList = some us) :
    bareTokens? (definitionSource name pattern replacement).toList =
      some (⟨.keyword .define, Keyword.define.word, 0⟩ :: ⟨.name, name, 0⟩ ::
        ⟨.keyword .naming, Keyword.naming.word, 0⟩ :: (ts ++ ⟨.arrow, "=>", 0⟩ :: us)) := by
  have htext : (definitionSource name pattern replacement).toList =
      ("def " ++ name ++ " as").toList ++ '\n' :: (ruleSource pattern replacement).toList := by
    simp [definitionSource]
  have hwords : ("def " ++ name ++ " as").toList =
      Keyword.define.word.toList ++ ' ' :: (name.toList ++ ' ' :: Keyword.naming.word.toList) := by
    simp [Keyword.word]
  have hdefine : Scans 0 Keyword.define.word.toList _ := scans_keyword .define
  have hscan := hdefine.append (.blank ((scans_name hname hfree).append
    (.blank (scans_keyword .naming)) rfl)) rfl
  rw [← hwords] at hscan
  have hfront : bareTokens? ("def " ++ name ++ " as").toList =
      some [⟨.keyword .define, Keyword.define.word, 0⟩, ⟨.name, name, 0⟩,
        ⟨.keyword .naming, Keyword.naming.word, 0⟩] :=
    bareTokens?_eq_some.mpr ⟨_, tokenize_of_scans hscan, rfl⟩
  rw [htext, bareTokens?_append_newline, hfront, bareTokens?_ruleSource hpattern hreplacement]
  rfl

/-- A text whose one statement holds a rule, or that is refused as the rule is. -/
theorem readProgram_of_makeRule {name : Option String} {f : Rule → Statement}
    (h : bareTokens? text.toList = some ts) (hfree : hasKind .semicolon ts = false)
    (nonempty : ts ≠ [])
    (hstatement : readStatement 0 ts = (makeRule t u name).map fun rule => (f rule, [])) :
    readProgram text = (makeRule t u name).map fun rule => [f rule] := by
  have hsingle : readStatements 0 0 ts = ((makeRule t u name).map f).map ([·]) := by
    refine readStatements_single hfree nonempty ?_
    rw [hstatement]
    cases makeRule t u name <;> rfl
  have hread : readStatements 0 0 ts = (makeRule t u name).map fun rule => [f rule] := by
    rw [hsingle]
    cases makeRule t u name <;> rfl
  rw [← hread]
  refine (readProgram_of_bareTokens? h).eq fun e he => ?_
  rw [hread] at he
  exact makeRule_ne_malformed e (error_of_map he)

section Spellings

variable {last last' : Option Operator} (hpattern : bareTokens? pattern.toList = some ts)
  (hreplacement : bareTokens? replacement.toList = some us) (ht : Phrase 1 ts t last)
  (hu : Phrase 1 us u last')
include hpattern hreplacement ht hu

theorem readRule_ruleSource (name : Option String) :
    readRule (ruleSource pattern replacement) name = makeRule t u name := by
  have hsides : readSides 0 (ts ++ ⟨.arrow, "=>", 0⟩ :: (us ++ [])) = .ok (t, u, []) :=
    readSides_of_phrases ht rfl hu rfl
  rw [List.append_nil] at hsides
  exact readRule_of_bareTokens? (bareTokens?_ruleSource hpattern hreplacement) hsides name

theorem readProgram_ruleSource : readProgram (ruleSource pattern replacement) =
    (makeRule t u none).map fun rule => [.inline rule 0] := by
  have hstatement : readStatement 0 (ts ++ ⟨.arrow, "=>", 0⟩ :: us) = _ :=
    (readStatement_arrow rfl ht us).trans (readInline_whole hu)
  exact readProgram_of_makeRule (bareTokens?_ruleSource hpattern hreplacement)
    (ht.starts _ .define).2 (by simp) hstatement

theorem readProgram_definitionSource (hname : isIdentifier name = true)
    (hfree : Keyword.ofWord? name = none) :
    readProgram (definitionSource name pattern replacement) =
      (makeRule t u name).map fun rule => [.define name rule] := by
  have hstatement : readStatement 0 (⟨.keyword .define, Keyword.define.word, 0⟩ ::
      ⟨.name, name, 0⟩ :: ⟨.keyword .naming, Keyword.naming.word, 0⟩ ::
        (ts ++ ⟨.arrow, "=>", 0⟩ :: (us ++ []))) = _ :=
    readStatement_define rfl rfl rfl rfl ht hu rfl
  rw [List.append_nil] at hstatement
  exact readProgram_of_makeRule
    (bareTokens?_definitionSource hname hfree hpattern hreplacement) rfl (by simp) hstatement

end Spellings

theorem readRuleObject_ruleObject (hempty : name.isEmpty = false)
    (hpattern : readTerm pattern = .ok t) (hreplacement : readTerm replacement = .ok u)
    (h : Json.read text = .ok (ruleObject name pattern replacement)) :
    readRuleObject text = ((makeRule t u name).mapError .unreadable).map ([·]) := by
  have hrule : RuleEntry.rule (RuleEntry.ofTexts name pattern replacement) =
      (makeRule t u name).mapError .unreadable :=
    RuleEntry.rule_ofTexts hempty hpattern hreplacement
  have hrules : rulesOfJson (ruleObject name pattern replacement) =
      [RuleEntry.ofTexts name pattern replacement].mapM RuleEntry.rule := rfl
  rw [readRuleObject, h, mapError_ok]
  simp only [bind, Except.bind, hrules]
  rw [List.mapM_cons, List.mapM_nil, hrule]
  cases makeRule t u name <;> rfl

theorem isPlain_ruleObject : (ruleObject name pattern replacement).isPlain = true := by
  simp [ruleObject, Json.isPlain, Json.fieldsPlain, Json.allPlain, RuleEntry.isPlain_ofTexts]

theorem spelled_of_readTerm (hname : isIdentifier name = true)
    (hfree : Keyword.ofWord? name = none) (hpattern : readTerm pattern = .ok t)
    (hreplacement : readTerm replacement = .ok u) :
    Spelled name pattern replacement (Rule.make? t u name) (Rule.make? t u none) := by
  obtain ⟨ts, hts, last, ht⟩ := derives_of_readTerm hpattern
  obtain ⟨us, hus, last', hu⟩ := derives_of_readTerm hreplacement
  refine ⟨readRule_ruleSource hts hus ht hu name, ?_, fun text htext => ?_,
    Json.read_write isPlain_ruleObject, readProgram_ruleSource hts hus ht hu⟩
  · rw [readDefinitions, readProgram_definitionSource hts hus ht hu hname hfree, makeRule]
    cases Rule.make? t u name <;> rfl
  · have hempty := isEmpty_of_isIdentifier hname
    rw [readRuleObject_ruleObject hempty hpattern hreplacement htext, makeRule]
    cases Rule.make? t u name <;> rfl

/-- Two texts that are read as terms give the same rule in every spelling, or are refused for the
same unbound variables, whatever comments they end in and whatever names their functors have. -/
theorem spellings_agree (hname : isIdentifier name = true) (hfree : Keyword.ofWord? name = none)
    (hpattern : readTerm pattern = .ok t) (hreplacement : readTerm replacement = .ok u) :
    readProgram pattern = .ok [.start t] ∧
      ((∃ closed, Spelled name pattern replacement (.ok ⟨t, u, some name, closed⟩)
          (.ok ⟨t, u, none, closed⟩)) ∨
        ∃ e : UnboundVariables, (∃ x, x ∈ e.names) ∧
          (∀ x, x ∈ e.names ↔ x ∈ u.vars ∧ x ∉ t.vars) ∧
          Spelled name pattern replacement (.error e) (.error e)) := by
  have hspelled := spelled_of_readTerm hname hfree hpattern hreplacement
  refine ⟨readProgram_of_readTerm hpattern, ?_⟩
  rcases Rule.make?_cases t u with ⟨closed, hmake⟩ | ⟨e, hsome, hnames, hmake⟩
  · rw [hmake, hmake] at hspelled
    exact Or.inl ⟨closed, hspelled⟩
  · rw [hmake, hmake] at hspelled
    exact Or.inr ⟨e, hsome, hnames, hspelled⟩

/-- Keywords as functors, and comments behind both sides, one of them with an arrow in it. -/
theorem spellings_agree_keywords :
    let t := Term.app "at" [.var "x", .var "y"]
    let u := Term.app "def" [.var "y"]
    isIdentifier "f'" = true ∧ Keyword.ofWord? "f'" = none ∧
      readTerm "at(x, y) # => z" = .ok t ∧ readTerm "def(y)\n# both" = .ok u ∧
      readProgram "at(x, y) # => z" = .ok [.start t] ∧
      ∃ closed, Spelled "f'" "at(x, y) # => z" "def(y)\n# both"
        (.ok ⟨t, u, some "f'", closed⟩) (.ok ⟨t, u, none, closed⟩) := by
  intro t u
  have hname : isIdentifier "f'" = true := by decide
  have hfree : Keyword.ofWord? "f'" = none := by decide
  let call : Token := ⟨.keyword .depth, "at", 0⟩
  let opening : Token := ⟨.opening, "(", 2⟩
  let x : Token := ⟨.name, "x", 3⟩
  let comma : Token := ⟨.comma, ",", 4⟩
  let y : Token := ⟨.name, "y", 6⟩
  let closing : Token := ⟨.closing, ")", 7⟩
  have htokens : tokenize "at(x, y) # => z" = .ok [call, opening, x, comma, y, closing] :=
    ok_of_toOption (by decide +kernel)
  let call' : Token := ⟨.keyword .define, "def", 0⟩
  let opening' : Token := ⟨.opening, "(", 3⟩
  let y' : Token := ⟨.name, "y", 4⟩
  let closing' : Token := ⟨.closing, ")", 5⟩
  have htokens' : tokenize "def(y)\n# both" = .ok [call', opening', y', closing'] :=
    ok_of_toOption (by decide +kernel)
  have hword (w : Token) (kind : w.kind = .name) : Phrase 1 [w] (.var w.text) none :=
    .weaken (k := 3) (.name kind) (by decide)
  have ht : Phrase 5 (call :: opening :: ([x] ++ comma :: [y] ++ [closing]))
      (.app call.text [.var x.text, .var y.text]) none :=
    .call rfl rfl (.more (hword x rfl) rfl (.one (hword y rfl))) rfl
  have hu : Phrase 5 (call' :: opening' :: ([y'] ++ [closing'])) (.app call'.text [.var y'.text])
      none := .call rfl rfl (.one (hword y' rfl)) rfl
  have hpattern : readTerm "at(x, y) # => z" = .ok t :=
    readTerm_of_derives htokens ⟨_, .weaken (k := 3) ht (by decide)⟩
  have hreplacement : readTerm "def(y)\n# both" = .ok u :=
    readTerm_of_derives htokens' ⟨_, .weaken (k := 3) hu (by decide)⟩
  obtain ⟨hstart, ⟨closed, hspelled⟩ | ⟨e, ⟨z, hz⟩, hnames, -⟩⟩ :=
    spellings_agree hname hfree hpattern hreplacement
  · exact ⟨hname, hfree, hpattern, hreplacement, hstart, closed, hspelled⟩
  · have hclosed : ∀ x ∈ u.vars, x ∈ t.vars := by simp [t, u, Term.vars, Term.varsAll]
    obtain ⟨hzu, hzt⟩ := (hnames z).mp hz
    exact absurd (hclosed z hzu) hzt

end Stepwise
