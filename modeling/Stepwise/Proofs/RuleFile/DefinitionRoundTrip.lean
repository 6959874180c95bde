import Stepwise.Proofs.Registry.Rebuilding
import Stepwise.Proofs.Language.InfixRoundTrip

namespace Stepwise

/-- Every rule can be defined by a text: its name is an identifier and no keyword, and both of its
sides have a text. -/
def Registry.IsDefinable (registry : Registry) : Prop :=
  ∀ entry ∈ registry.entries, Token.isIdentifier entry.1 = true ∧
    Keyword.ofWord? entry.1 = none ∧ entry.2.IsPrintable

theorem Term.written_renderInfix {t : Term} (h : t.isPrintable = true) :
    ∃ last, Written 1 t.renderInfix.toList t.asRead last := by
  rw [renderInfix, String.toList_ofList]
  exact (t.standsInfix h).exists_of_le (Nat.le_refl 1) t.precedence_bounds.1

/-- The text consists, wherever it stands, of tokens from the keyword `def` on that are read as the
definition, up to where an expression can end. Nothing but a line end stands between two of these,
so each has to end where the next begins. -/
def Defines (cs : List Char) (name : String) (rule : Rule) : Prop :=
  ∀ p, ∃ ts, Token.Scans p cs ts ∧ Token.hasKind (.keyword .define) ts = true ∧
    ∀ stop rest, Token.endsExpression rest = true →
      readStatement stop (ts ++ rest) = .ok (.define name rule, rest)

theorem readStatement_define {stop : Nat} {keyword name naming arrow : Token}
    {ts us rest : List Token} {t u : Term} {last last' : Option Operator}
    (hkeyword : keyword.kind = .keyword .define) (hname : name.kind = .name)
    (hnaming : naming.kind = .keyword .naming) (harrow : arrow.kind = .arrow)
    (hpattern : Phrase 1 ts t last) (hreplacement : Phrase 1 us u last')
    (hrest : Token.endsExpression rest = true) :
    readStatement stop (keyword :: name :: naming :: (ts ++ arrow :: (us ++ rest))) =
      (makeRule t u name.text).map fun rule => (.define name.text rule, rest) := by
  have hdefine : Token.hasKeyword .define
      (keyword :: name :: naming :: (ts ++ arrow :: (us ++ rest))) = true := by
    simp [Token.hasKeyword, hkeyword, Token.hasKind_cons, hname]
  have hsides : readSides stop (ts ++ arrow :: (us ++ rest)) = .ok (t, u, rest) :=
    readSides_of_phrases hpattern harrow hreplacement hrest
  rw [readStatement, if_pos hdefine]
  simp only [readDefinition, List.tail_cons, expectKind, hname, hnaming, if_true, bind, Except.bind,
    hsides]
  cases makeRule t u name.text <;> rfl

theorem Token.scans_keyword {p : Nat} (k : Keyword) :
    Scans p k.word.toList [⟨.keyword k, k.word, p⟩] := by
  have hkind : wordKind k.word.toList = .keyword k := by cases k <;> decide
  have hword : isIdentifier k.word = true := by cases k <;> decide
  rw [← hkind]
  exact scans_word hword

theorem Token.scans_name {p : Nat} {name : String} (hname : isIdentifier name = true)
    (hfree : Keyword.ofWord? name = none) : Scans p name.toList [⟨.name, name, p⟩] := by
  have hkind : wordKind name.toList = .name := by
    rw [wordKind, String.ofList_toList, hfree]
  rw [← hkind]
  exact scans_word hname

namespace Registry

theorem toList_definition (name : String) (rule : Rule) : (definition name rule).toList =
    Keyword.define.word.toList ++ ' ' :: (name.toList ++ ' ' ::
      (Keyword.naming.word.toList ++ ' ' :: (rule.pattern.renderInfix.toList ++
        ' ' :: '=' :: '>' :: ' ' :: rule.replacement.renderInfix.toList))) := by
  have htext : definition name rule = "def " ++ name ++ " as " ++ rule.pattern.renderInfix ++
      " => " ++ rule.replacement.renderInfix := rfl
  simp [htext, String.toList_append, Keyword.word]

theorem defines_definition {name : String} {rule : Rule} (hname : Token.isIdentifier name = true)
    (hfree : Keyword.ofWord? name = none) (h : rule.IsPrintable) (hrule : rule.name = some name) :
    Defines (definition name rule).toList name rule.asRead := by
  intro p
  obtain ⟨last, hpattern⟩ := Term.written_renderInfix h.1
  obtain ⟨last', hreplacement⟩ := Term.written_renderInfix h.2
  obtain ⟨ts, hscan, hphrase⟩ := hpattern (p + _ + 1 + _ + 1 + _ + 1)
  obtain ⟨us, hscan', hphrase'⟩ := hreplacement (p + _ + 1 + _ + 1 + _ + 1 + _ + 1 + 2 + 1)
  have hdefine : Token.Scans p _ _ := Token.scans_keyword .define
  have hall := hdefine.append (.blank
    ((Token.scans_name hname hfree).append (.blank ((Token.scans_keyword .naming).append
      (.blank (hscan.append (.blank (.arrow (.blank hscan'))) rfl)) rfl)) rfl)) rfl
  rw [toList_definition]
  refine ⟨_, hall, rfl, fun stop rest hrest => ?_⟩
  have hmake := makeRule_asRead rule
  rw [hrule] at hmake
  simp only [List.append_assoc, List.cons_append, List.nil_append]
  rw [readStatement_define rfl rfl rfl rfl hphrase hphrase' hrest, hmake]
  rfl

end Registry

theorem Token.endsExpression_of_keyword {keyword : Keyword} {ts us : List Token}
    (h : hasKind (.keyword keyword) ts = true) : endsExpression (ts ++ us) = true := by
  cases ts with
  | nil => cases h
  | cons t ts =>
    rw [hasKind_cons, beq_iff_eq] at h
    simp [endsExpression, h]

/-- A statement that does not begin with a semicolon is followed by the others. -/
theorem readStatements_append {stop : Nat} {ts rest : List Token} {kind : Token.Kind}
    {statement : Statement} (hkind : Token.hasKind kind ts = true) (hfree : kind ≠ .semicolon)
    (h : readStatement stop (ts ++ rest) = .ok (statement, rest)) :
    readStatements stop 0 (ts ++ rest) =
      (readStatements stop 0 rest).map (statement :: ·) := by
  cases ts with
  | nil => cases hkind
  | cons t ts =>
    rw [Token.hasKind_cons, beq_iff_eq] at hkind
    have hlength : (ts ++ rest).length - rest.length = ts.length := by simp
    rw [List.cons_append] at h ⊢
    rw [readStatements, if_neg (hkind ▸ hfree), h]
    simp only [bind, Except.bind, hlength, readStatements_skip]
    cases readStatements stop 0 rest <;> rfl

/-- The text consists, wherever it stands, of tokens that are read as the definitions. An expression
can end before them. -/
def DefinesAll (cs : List Char) (entries : List (String × Rule)) : Prop :=
  ∀ p, ∃ ts, Token.Scans p cs ts ∧ Token.endsExpression ts = true ∧
    ∀ stop, readStatements stop 0 ts = .ok (entries.map fun entry => .define entry.1 entry.2)

namespace DefinesAll

variable {cs ds : List Char} {entries : List (String × Rule)} {name : String} {rule : Rule}

theorem nil : DefinesAll [] [] := fun _ => ⟨[], .nil, rfl, fun _ => rfl⟩

theorem newline (h : DefinesAll ds entries) : DefinesAll ('\n' :: ds) entries := by
  intro p
  obtain ⟨ts, hscan, hread⟩ := h (p + 1)
  exact ⟨ts, .newline hscan, hread⟩

theorem comment {text : List Char} (htext : '\n' ∉ text) (h : DefinesAll ('\n' :: ds) entries) :
    DefinesAll ('#' :: text ++ '\n' :: ds) entries := by
  intro p
  obtain ⟨ts, hscan, hread⟩ := h (p + 1 + text.length)
  exact ⟨ts, .comment htext hscan, hread⟩

theorem cons (h : Defines cs name rule) (hd : Token.endsWord ds = true)
    (h' : DefinesAll ds entries) : DefinesAll (cs ++ ds) ((name, rule) :: entries) := by
  intro p
  obtain ⟨ts, hscan, hkind, hread⟩ := h p
  obtain ⟨us, hscan', hends, hread'⟩ := h' (p + cs.length)
  refine ⟨ts ++ us, hscan.append hscan' hd, Token.endsExpression_of_keyword hkind,
    fun stop => ?_⟩
  rw [readStatements_append hkind (by decide) (hread stop us hends), hread' stop]
  rfl

theorem endsWord_lines {lines : List (List Char)} :
    Token.endsWord (lines.flatMap ('\n' :: ·)) = true := by
  cases lines <;> rfl

/-- Each definition on a line of its own. -/
theorem lines {lines : List (List Char)}
    (h : List.Forall₂ (fun cs entry => Defines cs entry.1 entry.2) lines entries) :
    DefinesAll (lines.flatMap ('\n' :: ·)) entries := by
  induction h with
  | nil => exact nil
  | cons hfirst hrest ih => exact newline (cons hfirst endsWord_lines ih)

/-- The lines of a text, of which the first may be a definition or a comment. -/
theorem lines_of_intercalate {first : List Char} {lines : List (List Char)} :
    List.intercalate ['\n'] (first :: lines) = first ++ lines.flatMap ('\n' :: ·) := by
  induction lines generalizing first with
  | nil => simp
  | cons line lines ih => rw [List.intercalate_cons_cons, ih]; simp

theorem untitled {lines : List (List Char)}
    (h : List.Forall₂ (fun cs entry => Defines cs entry.1 entry.2) lines entries) :
    DefinesAll (List.intercalate ['\n'] lines) entries := by
  cases h with
  | nil => exact nil
  | @cons line entry lines entries hfirst hrest =>
    rw [lines_of_intercalate]
    exact cons hfirst endsWord_lines (DefinesAll.lines hrest)

theorem titled {title : List Char} {lines : List (List Char)} (htitle : '\n' ∉ title)
    (h : List.Forall₂ (fun cs entry => Defines cs entry.1 entry.2) lines entries) :
    DefinesAll (List.intercalate ['\n'] (('#' :: title) :: [] :: lines)) entries := by
  rw [lines_of_intercalate, List.flatMap_cons]
  exact comment htitle (newline (DefinesAll.lines h))

end DefinesAll

namespace Registry

variable {registry : Registry}

theorem defines_definitions (hnamed : registry.WellNamed) (h : registry.IsDefinable) :
    List.Forall₂ (fun cs (entry : String × Rule) => Defines cs entry.1 entry.2)
      (registry.definitions.map String.toList) registry.asRead.entries := by
  rw [definitions, asRead, List.map_map, List.forall₂_map_left_iff, List.forall₂_map_right_iff,
    List.forall₂_same]
  intro entry hentry
  obtain ⟨hname, hfree, hprintable⟩ := h entry hentry
  exact defines_definition hname hfree hprintable (hnamed entry hentry).1

/-- The text of a registry, under a title on one line or none, consists of its definitions. -/
theorem definesAll_toText (hnamed : registry.WellNamed) (h : registry.IsDefinable)
    {title : Option String} (htitle : ∀ t ∈ title, '\n' ∉ t.toList) :
    DefinesAll (registry.toText title).toList registry.asRead.entries := by
  have hdefines := defines_definitions hnamed h
  have huntitled : DefinesAll ("\n".intercalate registry.definitions).toList
      registry.asRead.entries := by
    rw [String.toList_intercalate]
    exact .untitled hdefines
  cases title with
  | none => exact huntitled
  | some t =>
    cases hempty : t.isEmpty with
    | true => simpa only [toText, hempty, if_true, List.nil_append] using huntitled
    | false =>
      have htext : (registry.toText (some t)).toList = List.intercalate ['\n']
          (('#' :: ' ' :: t.toList) :: [] :: registry.definitions.map String.toList) := by
        simp [toText, hempty, String.toList_intercalate, String.toList_append]
      rw [htext]
      refine .titled ?_ hdefines
      simpa using htitle t rfl

theorem readDefinitions_toText (hnamed : registry.WellNamed) (h : registry.IsDefinable)
    {title : Option String} (htitle : ∀ t ∈ title, '\n' ∉ t.toList) :
    readDefinitions (registry.toText title) = .ok registry.asRead.values := by
  obtain ⟨ts, hscan, -, hread⟩ := definesAll_toText hnamed h htitle 0
  have htokens : tokensOf (registry.toText title) = .ok ts := by
    rw [tokensOf, tokenize_of_scans hscan]
    rfl
  have hrules : ∀ entry ∈ registry.asRead.entries,
      Statement.definition (.define entry.1 entry.2) = .ok entry.2 := fun _ _ => rfl
  simp only [readDefinitions, readProgram, htokens, bind, Except.bind, hread]
  exact mapM_map_ok hrules

end Registry

/-- A registry that operations have built names its rules as it stores them; and such a registry,
written as definitions under a title on one line or none, is read back as an equal one. Constants
keep their values, though an integral binary64 number comes back as an integer. -/
theorem loadText_toText :
    (∀ ops, (Workspace.run {} ops).registry.WellNamed) ∧
    ∀ registry : Registry, registry.WellNamed → registry.IsDefinable →
      ∀ title : Option String, (∀ t ∈ title, '\n' ∉ t.toList) →
      ∃ w, Workspace.perform {} (.loadText (registry.toText title)) = .ok (.done, w) ∧
        w.registry.Same registry := by
  refine ⟨Workspace.wellNamed_run Registry.wellNamed_empty, ?_⟩
  intro registry hnamed hdefinable title htitle
  refine ⟨{ registry := registry.asRead }, ?_, Registry.same_asRead⟩
  simp only [Workspace.perform, Registry.readDefinitions_toText hnamed hdefinable htitle, bind,
    Except.bind, mapError_ok, Registry.defineAll_values hnamed.asRead]
  rfl

/-- Keywords as functors behind `as` and `=>` and at the end of a definition, and a title that looks
like a statement. -/
theorem loadText_toText_keywords :
    let swap : Rule :=
      { pattern := .app "as" [.var "x", .var "y"], replacement := .app "def" [.var "y", .var "x"]
        closed := by decide }
    let halve : Rule :=
      { pattern := .app "at" [.var "x'", .const (.float ⟨true, 4503599627370496, -53, by decide⟩)]
        replacement := .app "sub" [.const (.int (-2)), .app "end" []], closed := by decide }
    let registry := (Workspace.run {} [.define "swap" swap, .define "_h'" halve]).registry
    let title := some "quit; def # \"end"
    registry.WellNamed ∧ registry.IsDefinable ∧ (∀ t ∈ title, '\n' ∉ t.toList) ∧
      ∃ w, Workspace.perform {} (.loadText (registry.toText title)) = .ok (.done, w) ∧
        w.registry.Same registry := by
  intro swap halve registry title
  have hnamed : registry.WellNamed := loadText_toText.1 _
  have hdefinable : registry.IsDefinable := by
    unfold Registry.IsDefinable Rule.IsPrintable
    decide +kernel
  have htitle : ∀ t ∈ title, '\n' ∉ t.toList := by decide
  exact ⟨hnamed, hdefinable, htitle, loadText_toText.2 registry hnamed hdefinable title htitle⟩

end Stepwise
