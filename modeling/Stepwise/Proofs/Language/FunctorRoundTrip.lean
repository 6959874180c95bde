import Stepwise.Proofs.Language.Written

namespace Stepwise

namespace Token

theorem lexeme?_arrow {rest : List Char} :
    lexeme? '=' ('>' :: rest) = some (some .arrow, ['=', '>']) := by
  have hnumeral : startsNumeral ('=' :: '>' :: rest) = false := rfl
  have hblank : Text.isBlank '=' = false := by decide
  have hname : startsName '=' = false := by decide
  simp [lexeme?, hnumeral, hblank, hname]

/-- What follows an arrow need not end a word. -/
theorem Scans.arrow {p : Nat} {ds : List Char} {us : List Token} (h : Scans (p + 2) ds us) :
    Scans p ('=' :: '>' :: ds) (⟨.arrow, "=>", p⟩ :: us) := by
  intro rest hr
  have hscan : scan p 0 (['=', '>'] ++ (ds ++ rest)) =
      (scan (p + 2) 0 (ds ++ rest)).map (⟨.arrow, "=>", p⟩ :: ·) := scan_lexeme lexeme?_arrow
  have hlength : p + ('=' :: '>' :: ds).length = p + 2 + ds.length := by
    simp only [List.length_cons]
    omega
  rw [hlength]
  change scan p 0 (['=', '>'] ++ (ds ++ rest)) = _
  rw [hscan, h rest hr]
  cases scan (p + 2 + ds.length) 0 rest <;> rfl

end Token

namespace Term

mutual

/-- The functor form stands for the term. -/
theorem standsWritten : (t : Term) → t.isPrintable = true →
    ∃ last, Written 1 t.written t.asRead last
  | .const a, h => (Written.const h).exists_of_le (Nat.le_refl 1) (precedence_bounds _).1
  | .var x, h => by
    rw [isPrintable, Bool.and_eq_true, Option.isNone_iff_eq_none] at h
    exact (Written.var h.1 h.2).exists_of_le (Nat.le_refl 1) (by decide)
  | .app f args, h => by
    rw [isPrintable, Bool.and_eq_true] at h
    exact (Written.call h.1 (standsWrittenAll args h.2)).exists_of_le (Nat.le_refl 1) (by decide)

theorem standsWrittenAll : (ts : List Term) → allPrintable ts = true →
    List.Forall₂ (fun cs t => ∃ last, Written 1 cs t last) (writtenAll ts) (asReadAll ts)
  | [], _ => .nil
  | t :: ts, h => by
    rw [allPrintable, Bool.and_eq_true] at h
    exact .cons (standsWritten t h.1) (standsWrittenAll ts h.2)

end

end Term

theorem readTerm_render_eq {t : Term} (h : t.isPrintable = true) :
    readTerm t.render = .ok t.asRead := by
  obtain ⟨last, hwritten⟩ := t.standsWritten h
  apply readTerm_of_written (Nat.le_refl 1)
  rwa [Term.render, String.toList_ofList]

namespace Rule

/-- Both sides of the rule have a text. -/
def IsPrintable (rule : Rule) : Prop :=
  rule.pattern.isPrintable = true ∧ rule.replacement.isPrintable = true

/-- The rule with each constant as its text is read. -/
def asRead (rule : Rule) : Rule where
  pattern := rule.pattern.asRead
  replacement := rule.replacement.asRead
  name := rule.name
  closed := by
    rw [Term.vars_asRead, Term.vars_asRead]
    exact rule.closed

theorem same_asRead (rule : Rule) : (rule.asRead == rule) = true := by
  change (rule.pattern.asRead.same rule.pattern && rule.replacement.asRead.same rule.replacement &&
    (rule.name == rule.name)) = true
  rw [Term.same_asRead, Term.same_asRead, beq_self_eq_true]
  rfl

theorem make?_asRead (rule : Rule) :
    make? rule.pattern.asRead rule.replacement.asRead rule.name = .ok rule.asRead :=
  dif_pos rule.asRead.closed

end Rule

theorem makeRule_asRead (rule : Rule) :
    makeRule rule.pattern.asRead rule.replacement.asRead rule.name = .ok rule.asRead := by
  rw [makeRule, Rule.make?_asRead]
  rfl

theorem toList_ruleText (p q : Term) :
    (ruleText p q).toList = p.written ++ ' ' :: '=' :: '>' :: ' ' :: q.written := by
  simp [ruleText, Term.render, String.toList_append]

/-- The text of a rule consists of the tokens of its sides and an arrow between them. -/
theorem exists_tokens_ruleText {p q : Term} (hp : p.isPrintable = true)
    (hq : q.isPrintable = true) : ∃ ts arrow us last last', arrow.kind = .arrow ∧
      tokenize (ruleText p q) = .ok (ts ++ arrow :: us) ∧
      Phrase 1 ts p.asRead last ∧ Phrase 1 us q.asRead last' := by
  obtain ⟨last, hpattern⟩ := p.standsWritten hp
  obtain ⟨last', hreplacement⟩ := q.standsWritten hq
  obtain ⟨ts, hscan, hphrase⟩ := hpattern 0
  obtain ⟨us, hscan', hphrase'⟩ := hreplacement (0 + p.written.length + 1 + 2 + 1)
  refine ⟨ts, ⟨.arrow, "=>", 0 + p.written.length + 1⟩, us, last, last', rfl,
    tokenize_of_scans ?_, hphrase, hphrase'⟩
  rw [toList_ruleText]
  exact hscan.append (.blank (.arrow (.blank hscan'))) rfl

/-- An expression, an arrow and an expression are read as two sides, up to where an expression can
end. -/
theorem readSides_of_phrases {stop : Nat} {ts us rest : List Token} {arrow : Token} {t u : Term}
    {last last' : Option Operator} (h : Phrase 1 ts t last) (harrow : arrow.kind = .arrow)
    (h' : Phrase 1 us u last') (hrest : Token.endsExpression rest = true) :
    readSides stop (ts ++ arrow :: (us ++ rest)) = .ok (t, u, rest) := by
  have hends : Token.endsExpression (arrow :: (us ++ rest)) = true := by
    simp [Token.endsExpression, harrow]
  have hpattern : readExpression stop (ts ++ arrow :: (us ++ rest)) =
      .ok (t, arrow :: (us ++ rest)) := readExpression_of_phrase h hends
  have hreplacement : readExpression stop (us ++ rest) = .ok (u, rest) :=
    readExpression_of_phrase h' hrest
  simp only [readSides, hpattern, bind, Except.bind, expectKind, harrow, if_true, hreplacement]
  rfl

theorem readRule_text_eq {rule : Rule} (hp : rule.pattern.isPrintable = true)
    (hq : rule.replacement.isPrintable = true) :
    readRule rule.text rule.name = .ok rule.asRead := by
  obtain ⟨ts, arrow, us, last, last', harrow, htokens, hphrase, hphrase'⟩ :=
    exists_tokens_ruleText hp hq
  have htokens' : tokensOf rule.text = .ok (ts ++ arrow :: us) := by
    rw [tokensOf, Rule.text, htokens]
    rfl
  have hsides : readSides rule.text.length (ts ++ arrow :: us) =
      .ok (rule.pattern.asRead, rule.replacement.asRead, []) := by
    have hread : readSides rule.text.length (ts ++ arrow :: (us ++ [])) = _ :=
      readSides_of_phrases hphrase harrow hphrase' rfl
    rwa [List.append_nil] at hread
  simp only [readRule, htokens', bind, Except.bind, hsides, checkFinished, makeRule_asRead]

/-- The functor form of a term is read back as an equal term, and what an unnamed rule is called by
as an equal rule. Constants keep their values, though an integral binary64 number comes back as an
integer. -/
theorem readTerm_render_and_readRule_label :
    (∀ t : Term, t.isPrintable = true → ∃ u, readTerm t.render = .ok u ∧ (u == t) = true) ∧
    ∀ rule : Rule, rule.name = none → rule.pattern.isPrintable = true →
      rule.replacement.isPrintable = true →
      ∃ r, readRule rule.label none = .ok r ∧ (r == rule) = true := by
  refine ⟨fun t h => ⟨t.asRead, readTerm_render_eq h, t.same_asRead⟩, ?_⟩
  intro rule hname hp hq
  have hread := readRule_text_eq hp hq
  have hlabel : rule.label = rule.text := by rw [Rule.label, hname]
  rw [hname] at hread
  rw [hlabel]
  exact ⟨rule.asRead, hread, rule.same_asRead⟩

/-- A negative zero, a number with 23 digits and no fraction, a negative fraction and a keyword as a
functor; the rule has the first two on its sides. -/
theorem readTerm_render_and_readRule_label_zero :
    let zero := Term.const (.float (.zero true))
    let large := Term.const (.float ⟨false, 4768371582031250, 21, by decide⟩)
    let t := Term.app "end" [zero, .app "f'" [], large, .app "neg" [.var "_x"],
      .const (.float ⟨true, 6755399441055744, -52, by decide⟩)]
    let rule : Rule :=
      { pattern := .app "at" [zero, .var "x"], replacement := .app "g" [.var "x", large, .var "x"]
        closed := by decide }
    t.isPrintable = true ∧ rule.name = none ∧ rule.pattern.isPrintable = true ∧
      rule.replacement.isPrintable = true ∧
      (∃ u, readTerm t.render = .ok u ∧ (u == t) = true) ∧
      ∃ r, readRule rule.label none = .ok r ∧ (r == rule) = true := by
  intro zero large t rule
  have ht : t.isPrintable = true := by decide +kernel
  have hp : rule.pattern.isPrintable = true := by decide +kernel
  have hq : rule.replacement.isPrintable = true := by decide +kernel
  obtain ⟨hterms, hrules⟩ := readTerm_render_and_readRule_label
  exact ⟨ht, rfl, hp, hq, hterms t ht, hrules rule rfl hp hq⟩

end Stepwise
