import Stepwise.Interpreter.Load
import Stepwise.Proofs.Failure
import Stepwise.Proofs.Language.Acceptance
import Stepwise.Proofs.Language.Scanning

namespace Stepwise

/-- Whether a numeral of the text denotes an integer beyond the binary64 range. -/
def HasLargeInteger (text : String) : Prop :=
  ∃ tokens, tokenize text = .ok tokens ∧ ∃ numeral ∈ tokens, numeral.Overflows

/-- What a reader leaves is among the tokens that it was given, and so is a numeral of an integer
that is too large. -/
inductive Contained {α : Type} (left : α → List Token) (tokens : List Token) :
    Except ReadError α → Prop
  | ok {a : α} (within : left a ⊆ tokens) : Contained left tokens (.ok a)
  | malformed (e : SyntaxError) : Contained left tokens (.error (.malformed e))
  | unbound (e : UnboundVariables) : Contained left tokens (.error (.unbound e))
  | overflow {numeral : Token} (mem : numeral ∈ tokens) (overflows : numeral.Overflows) :
      Contained left tokens (.error .integerTooLarge)

namespace Contained

variable {α β : Type} {left : α → List Token} {left' : β → List Token} {tokens rest : List Token}
  {x : Except ReadError α} {k : α → Except ReadError β}

theorem weaken (h : Contained left rest x) (hr : rest ⊆ tokens) : Contained left tokens x := by
  cases h with
  | ok within => exact .ok (List.Subset.trans within hr)
  | malformed e => exact .malformed e
  | unbound e => exact .unbound e
  | overflow mem overflows => exact .overflow (hr mem) overflows

theorem bind (h : Contained left tokens x) (hk : ∀ a, Contained left' (left a) (k a)) :
    Contained left' tokens (x >>= k) := by
  cases h with
  | @ok a within => exact (hk a).weaken within
  | malformed e => exact .malformed e
  | unbound e => exact .unbound e
  | overflow mem overflows => exact .overflow mem overflows

theorem whole (h : Contained left tokens x) : Contained (fun _ => tokens) tokens x := by
  cases h with
  | ok within => exact .ok (List.Subset.refl _)
  | malformed e => exact .malformed e
  | unbound e => exact .unbound e
  | overflow mem overflows => exact .overflow mem overflows

theorem exists_overflows (h : Contained left tokens x) (hx : x = .error .integerTooLarge) :
    ∃ numeral ∈ tokens, numeral.Overflows := by
  subst hx
  cases h with
  | overflow mem overflows => exact ⟨_, mem, overflows⟩

end Contained

variable {stop : Nat} {tokens : List Token}

theorem readExpression_contained :
    Contained Prod.snd tokens (readExpression stop tokens) := by
  have hreading := readExpression_reading stop tokens
  generalize readExpression stop tokens = result at hreading ⊢
  cases hreading with
  | @expression us after t last split phrase =>
    subst split
    exact .ok (List.subset_append_right us after)
  | malformed e => exact .malformed e
  | overflow mem overflows => exact .overflow mem overflows

theorem readOperand_overflow {level : Level} {outer : List Enclosing} {t : Token} {a : Number}
    {rest : List Token} (kind : t.kind = .number)
    (value : Number.ofNumeral? t.text.toList = some a) (large : a.inRange = false) :
    readOperand stop level outer (t :: rest) = .error .integerTooLarge := by
  rw [readOperand_cons]
  simp only [kind, Token.number_eq value]
  exact congrArg (· >>= fun u => readOperator stop level outer u rest) (constant_overflow large)

theorem expectedError_contained {α : Type} {left : α → List Token} {what : Expected}
    {ts : List Token} : Contained left tokens (.error (expectedError what stop ts)) := by
  obtain ⟨e, he⟩ := expectedError_eq what stop ts
  rw [he]
  exact .malformed e

theorem expectKind_contained {kind : Token.Kind} {what : Expected} :
    Contained Prod.snd tokens (expectKind kind what stop tokens) := by
  unfold expectKind
  split
  · split
    · exact .ok (List.subset_cons_self _ _)
    · exact expectedError_contained
  · exact expectedError_contained

theorem number_contained (t : Token) : Contained (fun _ => tokens) tokens t.number := by
  unfold Token.number
  split
  · exact .ok (List.Subset.refl _)
  · exact .malformed _

theorem makeRule_contained (pattern replacement : Term) (name : Option String) :
    Contained (fun _ => tokens) tokens (makeRule pattern replacement name) := by
  unfold makeRule
  cases Rule.make? pattern replacement name with
  | ok rule => exact .ok (List.Subset.refl _)
  | error e => exact .unbound e

theorem readDepth_contained : Contained Prod.snd tokens (readDepth stop tokens) := by
  refine expectKind_contained.bind fun (t, rest) => (number_contained t).bind fun a => ?_
  cases a with
  | int n => exact .ok (List.Subset.refl _)
  | float x => exact .malformed _

theorem readSides_contained :
    Contained (fun sides => sides.2.2) tokens (readSides stop tokens) := by
  refine readExpression_contained.bind fun (pattern, rest) => ?_
  refine expectKind_contained.bind fun (_, rest) => ?_
  exact readExpression_contained.bind fun (replacement, rest) => .ok (List.Subset.refl _)

theorem readDefinition_contained : Contained Prod.snd tokens (readDefinition stop tokens) := by
  refine expectKind_contained.bind fun (name, rest) => ?_
  refine expectKind_contained.bind fun (_, rest) => ?_
  refine readSides_contained.bind fun (pattern, replacement, rest) => ?_
  exact (makeRule_contained _ _ _).bind fun rule => .ok (List.Subset.refl _)

theorem readInline_contained {pattern : Term} :
    Contained Prod.snd tokens (readInline stop pattern tokens) := by
  refine readExpression_contained.bind fun (replacement, rest) => ?_
  refine (makeRule_contained _ _ _).bind fun rule => ?_
  dsimp only
  split
  · have hdepth : Contained Prod.snd rest (readDepth stop rest.tail) :=
      readDepth_contained.weaken (List.tail_sublist rest).subset
    exact hdepth.bind fun (depth, rest) => .ok (List.Subset.refl _)
  · exact .ok (List.Subset.refl _)

theorem readApply_contained {position : Nat} {t : Term} :
    Contained Prod.snd tokens (readApply stop position t tokens) := by
  unfold readApply
  split
  · exact readDepth_contained.bind fun (depth, rest) => .ok (List.Subset.refl _)
  · exact .malformed _

theorem readFromExpression_contained :
    Contained Prod.snd tokens (readFromExpression stop tokens) := by
  refine readExpression_contained.bind fun (t, rest) => ?_
  dsimp only
  split
  · rename_i sign after
    split
    · exact readInline_contained.weaken (List.subset_cons_self _ _)
    · split
      · exact readApply_contained.weaken (List.subset_cons_self _ _)
      · exact .ok (List.Subset.refl _)
  · exact .ok (List.Subset.refl _)

theorem readFinish_subset : (readFinish tokens).2 ⊆ tokens := by
  unfold readFinish
  split
  · split
    · exact List.subset_cons_self _ _
    · exact List.Subset.refl _
  · exact List.Subset.refl _

theorem readStatement_contained : Contained Prod.snd tokens (readStatement stop tokens) := by
  unfold readStatement
  split
  · exact readDefinition_contained.weaken (List.tail_sublist _).subset
  split
  · exact .ok (List.Subset.trans readFinish_subset (List.tail_sublist _).subset)
  split
  · exact .ok (List.tail_sublist _).subset
  split
  · exact .ok (List.tail_sublist _).subset
  · exact readFromExpression_contained

theorem readStatements_contained {skip : Nat} :
    Contained (fun _ => []) tokens (readStatements stop skip tokens) := by
  induction tokens generalizing skip with
  | nil => exact .ok (List.Subset.refl _)
  | cons t ts ih =>
    have htail {skip : Nat} : Contained (fun _ => []) (t :: ts) (readStatements stop skip ts) :=
      ih.weaken (List.subset_cons_self _ _)
    unfold readStatements
    split
    · exact htail
    · split
      · exact htail
      · refine readStatement_contained.whole.bind fun (statement, rest) => ?_
        exact htail.bind fun statements => .ok (List.Subset.refl _)

/-- A reader of tokens that finds an integer too large finds it in the text. -/
theorem hasLargeInteger_of_tokensOf {α : Type} {text : String} (left : α → List Token)
    {k : List Token → Except ReadError α} (h : (tokensOf text >>= k) = .error .integerTooLarge)
    (hk : ∀ tokens, Contained left tokens (k tokens)) : HasLargeInteger text := by
  unfold tokensOf at h
  cases htokens : tokenize text with
  | error e =>
    rw [htokens] at h
    cases h
  | ok tokens =>
    rw [htokens] at h
    exact ⟨tokens, htokens, (hk tokens).exists_overflows h⟩

theorem readProgram_overflow {text : String} (h : readProgram text = .error .integerTooLarge) :
    HasLargeInteger text :=
  hasLargeInteger_of_tokensOf (fun _ => []) h fun _ => readStatements_contained

theorem readTerm_overflow {text : String} (h : readTerm text = .error .integerTooLarge) :
    HasLargeInteger text := by
  refine hasLargeInteger_of_tokensOf (fun _ => []) h fun tokens => ?_
  refine readExpression_contained.bind fun (t, rest) => ?_
  cases rest with
  | nil => exact .ok (List.Subset.refl _)
  | cons a rest => exact .malformed _

theorem readDefinitions_overflow {text : String}
    (h : readDefinitions text = .error .integerTooLarge) : HasLargeInteger text := by
  rcases error_of_bind h with hprogram | ⟨statements, -, hdefinitions⟩
  · exact readProgram_overflow hprogram
  · obtain ⟨statement, -, hstatement⟩ := exists_error_of_mapM hdefinitions
    cases statement <;> cases hstatement

/-- The texts that a rule file has its rules in: its own, or the sides of its entries. -/
inductive RuleSource (path : Files.Path) (text : String) : String → Prop
  | definitions (plain : path.extension? ≠ some "json") : RuleSource path text text
  | side {fields : List (String × Json)} {entries : List Json} {entry : Json} {field s : String}
      (json : path.extension? = some "json") (object : Json.read text = .ok (.object fields))
      (rules : fields.lookup "rules" = some (.list entries)) (mem : entry ∈ entries)
      (side : field = "pattern" ∨ field = "replacement")
      (value : entry.field? field = some (.text s)) : RuleSource path text s

namespace RuleEntry

variable {entry : Json} {name field : String}

theorem name_ne_unreadable {e : ReadError} : RuleEntry.name entry ≠ .error (.unreadable e) := by
  unfold RuleEntry.name
  split
  · split <;> simp
  · simp

theorem text_ne_unreadable {e : ReadError} :
    RuleEntry.text entry name field ≠ .error (.unreadable e) := by
  unfold RuleEntry.text
  split <;> simp

theorem field?_of_text {s : String} (h : RuleEntry.text entry name field = .ok s) :
    entry.field? field = some (.text s) := by
  unfold RuleEntry.text at h
  split at h
  · cases h
    assumption
  · cases h

theorem rule_overflow (h : RuleEntry.rule entry = .error (.unreadable .integerTooLarge)) :
    ∃ field s, (field = "pattern" ∨ field = "replacement") ∧
      entry.field? field = some (.text s) ∧ HasLargeInteger s := by
  unfold RuleEntry.rule at h
  split at h
  · rcases error_of_bind h with hname | ⟨name, -, h⟩
    · exact absurd hname name_ne_unreadable
    rcases error_of_bind h with hpattern | ⟨pattern, hpattern, h⟩
    · exact absurd hpattern text_ne_unreadable
    rcases error_of_bind h with hreplacement | ⟨replacement, hreplacement, h⟩
    · exact absurd hreplacement text_ne_unreadable
    rcases error_of_mapError_bind h with ⟨e, hread, he⟩ | ⟨p, -, h⟩
    · cases he
      exact ⟨_, _, Or.inl rfl, field?_of_text hpattern, readTerm_overflow hread⟩
    rcases error_of_mapError_bind h with ⟨e, hread, he⟩ | ⟨q, -, h⟩
    · cases he
      exact ⟨_, _, Or.inr rfl, field?_of_text hreplacement, readTerm_overflow hread⟩
    · -- making the rule can only fail for a variable
      obtain ⟨e, hmake, he⟩ := error_of_mapError h
      cases he
      obtain ⟨_, -, hunbound⟩ := error_of_mapError hmake
      cases hunbound
  · cases h

end RuleEntry

theorem rulesOfJson_overflow {value : Json}
    (h : rulesOfJson value = .error (.unreadable .integerTooLarge)) :
    ∃ fields entries entry, value = .object fields ∧ fields.lookup "rules" = some (.list entries) ∧
      entry ∈ entries ∧ RuleEntry.rule entry = .error (.unreadable .integerTooLarge) := by
  unfold rulesOfJson at h
  split at h
  · rename_i fields
    split at h
    · rename_i entries hentries
      obtain ⟨entry, hmem, hentry⟩ := exists_error_of_mapM h
      cases hlookup : fields.lookup "rules" with
      | none =>
        rw [hlookup] at hentries
        cases hentries
        cases hmem
      | some rules =>
        rw [hlookup] at hentries
        cases hentries
        exact ⟨fields, entries, entry, rfl, hlookup, hmem, hentry⟩
    · cases h
  · cases h

theorem readRules_overflow {path : Files.Path} {text : String}
    (h : readRules path text = .error (.unreadable .integerTooLarge)) :
    ∃ source, RuleSource path text source ∧ HasLargeInteger source := by
  unfold readRules at h
  split at h
  · rename_i json
    rcases error_of_mapError_bind h with ⟨e, -, he⟩ | ⟨value, hread, hrules⟩
    · cases he
    · obtain ⟨fields, entries, entry, rfl, hlookup, hmem, hentry⟩ := rulesOfJson_overflow hrules
      obtain ⟨field, s, side, hvalue, hlarge⟩ := RuleEntry.rule_overflow hentry
      exact ⟨s, .side json hread hlookup hmem side hvalue, hlarge⟩
  · rename_i plain
    obtain ⟨e, hread, he⟩ := error_of_mapError h
    cases he
    exact ⟨text, .definitions plain, readDefinitions_overflow hread⟩

section Digits

variable {ds : List Char}

theorem tokenize_digits (nonempty : ds ≠ []) (digits : ∀ c ∈ ds, Text.isDigit c = true) :
    tokenize (String.ofList ds) = .ok [⟨.number, String.ofList ds, 0⟩] := by
  apply tokenize_of_scans
  have hscans := Token.scans_numeral (p := 0) ⟨ds, none, none, nonempty, by simpa using digits⟩
  rw [String.toList_ofList]
  simpa [Numeral.text, Numeral.fractionText, Numeral.exponentText] using hscans

theorem readProgram_digits (nonempty : ds ≠ []) (digits : ∀ c ∈ ds, Text.isDigit c = true)
    (short : ds.length ≤ Number.maxIntDigits) (large : Number.intBound ≤ Text.digitsValue ds) :
    readProgram (String.ofList ds) = .error .integerTooLarge := by
  let t : Token := ⟨.number, String.ofList ds, 0⟩
  have hvalue : Number.ofNumeral? t.text.toList = some (.int (Text.digitsValue ds)) := by
    rw [String.toList_ofList]
    exact if_pos ⟨List.all_eq_true.mpr digits, short⟩
  have houtside : (Number.int (Text.digitsValue ds)).inRange = false := by
    simpa [Number.inRange] using large
  have hexpression (stop : Nat) : readExpression stop [t] = .error .integerTooLarge :=
    readOperand_overflow rfl hvalue houtside
  have hstatement (stop : Nat) : readStatement stop [t] = .error .integerTooLarge := by
    simp only [readStatement, Token.hasKeyword, readFromExpression, hexpression]
    rfl
  have htokens : tokensOf (String.ofList ds) = .ok [t] := by
    rw [tokensOf, tokenize_digits nonempty digits]
    rfl
  rw [readProgram, htokens]
  exact congrArg (· >>= fun result => do
    let statements ← readStatements (String.ofList ds).length (0 - result.2.length) []
    return result.1 :: statements) (hstatement _)

end Digits

end Stepwise
