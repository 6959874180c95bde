import Stepwise.Proofs.Language.Written

namespace Stepwise

theorem Operator.level_eq (o : Operator) : o.level = (InfixShape.chain o).precedence := by
  cases o <;> rfl

theorem infixShape?_cases {f : String} {n : Nat} {shape : InfixShape}
    (h : infixShape? f n = some shape) :
    (∃ o : Operator, o ≠ .pow ∧ shape = .chain o ∧ f = o.functor ∧ 2 ≤ n ∧
      (o.isFlat = true ∨ n = 2)) ∨
    (shape = .power ∧ f = Operator.pow.functor ∧ n = 2) ∨
    (shape = .negation ∧ f = negationFunctor ∧ n = 1) := by
  unfold infixShape? at h
  split at h
  · rename_i hf
    cases h
    exact Or.inl ⟨.add, by decide, rfl, hf.1, hf.2, Or.inl rfl⟩
  split at h
  · rename_i hf
    cases h
    exact Or.inl ⟨.mul, by decide, rfl, hf.1, hf.2, Or.inl rfl⟩
  split at h
  · rename_i hf
    cases h
    exact Or.inl ⟨.sub, by decide, rfl, hf.1, hf.2.ge, Or.inr hf.2⟩
  split at h
  · rename_i hf
    cases h
    exact Or.inl ⟨.div, by decide, rfl, hf.1, hf.2.ge, Or.inr hf.2⟩
  split at h
  · rename_i hf
    cases h
    exact Or.inr (Or.inl ⟨rfl, hf⟩)
  split at h
  · rename_i hf
    cases h
    exact Or.inr (Or.inr ⟨rfl, hf⟩)
  · cases h

namespace Term

/-- The operator of the chain that the term is written as, if it is one. -/
def lastOperator : Term → Option Operator
  | .app f args => match infixShape? f args.length with
    | some (.chain o) => some o
    | _ => none
  | _ => none

/-- The infix form stands for the term, at its own precedence. -/
def StandsInfix (t : Term) : Prop :=
  Written t.precedence t.writtenInfix t.asRead t.lastOperator

/-- The text stands for the term as its infix form does. -/
def StandsFor (text : List Char) (t : Term) : Prop :=
  Written t.precedence text t.asRead t.lastOperator

theorem precedence_app {f : String} {args : List Term} : (app f args).precedence =
    match infixShape? f args.length with
    | some shape => shape.precedence
    | none => 5 := rfl

theorem lastOperator_app {f : String} {args : List Term} : (app f args).lastOperator =
    match infixShape? f args.length with
    | some (.chain o) => some o
    | _ => none := rfl

theorem isRunOf_iff {t : Term} {o : Operator} :
    t.isRunOf o = true ↔ o.isFlat = true ∧ t.lastOperator = some o := by
  cases t with
  | const a => simp [isRunOf, lastOperator]
  | var x => simp [isRunOf, lastOperator]
  | app f args =>
    simp only [isRunOf, lastOperator, Bool.and_eq_true, beq_iff_eq]
    cases infixShape? f args.length with
    | none => simp
    | some shape => cases shape <;> simp

theorem zip_writtenInfixAll (ts : List Term) :
    ts.zip (writtenInfixAll ts) = ts.map fun t => (t, t.writtenInfix) := by
  induction ts with
  | nil => rfl
  | cons t ts ih => rw [writtenInfixAll, List.zip_cons_cons, ih, List.map_cons]

end Term

namespace Written

variable {m n : Nat} {cs ds : List Char} {t u : Term} {args : List Term}
variable {last last' : Option Operator} {texts : List (Term × List Char)}

theorem negation (h : Written m cs t last) (hm : 1 ≤ m) :
    Written 3 ('-' :: wrapped (m < 4 || t.isConstant) cs) (.app negationFunctor [t]) none := by
  intro p
  cases hb : (decide (m < 4) || t.isConstant) with
  | true =>
    obtain ⟨last₁, h₁⟩ := h.exists_of_le (Nat.le_refl 1) hm
    obtain ⟨ts, hscan, hphrase⟩ := h₁ (p + 1 + 1)
    obtain ⟨opening, closing, ho, hc, hscan'⟩ := scans_group hscan
    have hoperand : Token.hasKind .number (opening :: (ts ++ [closing])) = true →
        Token.hasKind (.operator .pow) (opening :: (ts ++ [closing])).tail = true := by
      simp [Token.hasKind_cons, ho]
    exact ⟨_, .symbol (by decide) rfl hscan',
      .negation rfl hoperand ((Phrase.group ho hphrase hc).weaken (k := 1) (by decide))⟩
  | false =>
    rw [Bool.or_eq_false_iff, decide_eq_false_iff_not, not_lt] at hb
    obtain ⟨ts, hscan, hphrase⟩ := h (p + 1)
    obtain ⟨k, rfl⟩ := Nat.exists_eq_add_of_lt hb.1
    exact ⟨_, .symbol (by decide) rfl hscan,
      .negation rfl (hphrase.power_of_numeral hb.1 hb.2) (hphrase.weaken (by decide))⟩

theorem power {b e : Bool} (h : Written m cs t last) (hm : 1 ≤ m) (hb : b = false → 5 ≤ m)
    (h' : Written n ds u last') (hn : 1 ≤ n) (he : e = false → 3 ≤ n) :
    Written 4 (wrapped b cs ++ '^' :: wrapped e ds) (.app Operator.pow.functor [t, u]) none := by
  intro p
  obtain ⟨first, hbase, -⟩ := h.operand hm (by decide) (Nat.le_refl 5) hb
  obtain ⟨second, hexponent, -⟩ := h'.operand hn (by decide) (by decide) he
  obtain ⟨ts, hscan, hphrase⟩ := hbase p
  obtain ⟨us, hscan', hphrase'⟩ := hexponent (p + (wrapped b cs).length + 1)
  exact ⟨_, hscan.append (.symbol (by decide) rfl hscan') rfl, .power hphrase rfl hphrase'⟩

/-- Two written operands with an operator between them, of which the grammar makes one phrase. -/
theorem joined {k : Nat} {v : Term} {o : Operator} {last'' : Option Operator}
    (h : Written m cs t last) (h' : Written n ds u last')
    (join : ∀ {ts us : List Token} {sign : Token}, Phrase m ts t last →
      sign.kind = .operator o → Phrase n us u last' → Phrase k (ts ++ sign :: us) v last'') :
    Written k (cs ++ (spaced o ++ ds)) v last'' := by
  intro p
  obtain ⟨ts, hscan, hphrase⟩ := h p
  obtain ⟨us, hscan', hphrase'⟩ := h' (p + cs.length + 3)
  exact ⟨_, hscan.append (.blank (.symbol (Token.isSymbol_symbol o) (Token.symbolKind?_symbol o)
    (.blank hscan'))) rfl, join hphrase rfl hphrase'⟩

variable {o : Operator}

/-- An operand behind the first of a chain is in parentheses unless it holds together better. -/
theorem later (ho : o ≠ .pow) (h : u.StandsFor ds) : ∃ last,
      Written (o.level + 1) (wrapped (u.precedence ≤ o.level) ds) u.asRead last := by
  have hlevel := Operator.level_of_ne_pow ho
  have hle : o.level + 1 ≤ 5 := by omega
  have hb : decide (u.precedence ≤ o.level) = false → o.level + 1 ≤ u.precedence := by
    intro hb
    exact not_le.mp (of_decide_eq_false hb)
  obtain ⟨last, hw, -⟩ := h.operand u.precedence_bounds.1 (Nat.le_add_left 1 _) hle hb
  exact ⟨last, hw⟩

/-- The first operand of a chain is no run that its operator would extend. -/
theorem first (ho : o ≠ .pow) (h : t.StandsFor cs) : ∃ last,
      Written o.level (wrapped (t.precedence < o.level || t.isRunOf o) cs) t.asRead last ∧
        ¬ (o.isFlat = true ∧ last = some o) := by
  have hlevel := Operator.level_of_ne_pow ho
  have hle : o.level ≤ 5 := by omega
  have hb : (decide (t.precedence < o.level) || t.isRunOf o) = false →
      o.level ≤ t.precedence := by
    intro hb
    exact not_lt.mp (of_decide_eq_false (Bool.or_eq_false_iff.mp hb).1)
  obtain ⟨last, hw, hlast⟩ := h.operand t.precedence_bounds.1 hlevel.1 hle hb
  refine ⟨last, hw, ?_⟩
  rintro ⟨hflat, rfl⟩
  rcases hlast with hnone | ⟨hb, -, hrun⟩
  · cases hnone
  · rw [Bool.or_eq_false_iff] at hb
    have := Term.isRunOf_iff.mpr ⟨hflat, hrun.symm⟩
    simp [this] at hb

theorem run (flat : o.isFlat = true) (hrest : ∀ p ∈ texts, p.1.StandsFor p.2)
    (h : Written o.level cs (.app o.functor args) (some o)) :
    Written o.level (cs ++ texts.flatMap fun (u, text) =>
        spaced o ++ wrapped (u.precedence ≤ o.level) text)
      (.app o.functor (args ++ texts.map fun p => p.1.asRead)) (some o) := by
  induction texts generalizing cs args with
  | nil => simpa using h
  | cons p texts ih =>
    have ho : o ≠ .pow := by
      rintro rfl
      cases flat
    obtain ⟨last, hu⟩ := later ho (hrest p (by simp))
    have hextended := joined h hu fun hleft hsign hright => .extended hleft flat hsign hright
    have hnext := ih (fun q hq => hrest q (by simp [hq])) hextended
    simpa using hnext

/-- A chain of the operands in turn. -/
theorem chain (ho : o ≠ .pow) (hflat : o.isFlat = true ∨ texts = []) (ht : t.StandsFor cs)
    (hu : u.StandsFor ds) (hrest : ∀ p ∈ texts, p.1.StandsFor p.2) :
    Written o.level
      (wrapped (t.precedence < o.level || t.isRunOf o) cs ++
        ((u, ds) :: texts).flatMap fun (v, text) =>
          spaced o ++ wrapped (v.precedence ≤ o.level) text)
      (.app o.functor (t.asRead :: u.asRead :: texts.map fun p => p.1.asRead)) (some o) := by
  obtain ⟨last, hfirst, hfresh⟩ := first ho ht
  obtain ⟨last', hlater⟩ := later ho hu
  have htwo := joined hfirst hlater fun hleft hsign hright =>
    .nested hleft ho hfresh hsign hright
  rcases hflat with hflat | rfl
  · have hrun := run hflat hrest htwo
    simpa using hrun
  · simpa using htwo

/-- An application whose operands are written with texts that stand for them. -/
theorem app {f : String} (hf : Token.isIdentifier f = true)
    (h : ∀ p ∈ texts, p.1.StandsFor p.2) :
    (Term.app f (texts.map Prod.fst)).StandsFor (layoutInfix f texts) := by
  rw [Term.StandsFor, Term.precedence_app, Term.lastOperator_app, Term.asRead,
    Term.asReadAll_eq_map, List.map_map, List.length_map]
  unfold layoutInfix
  cases hshape : infixShape? f texts.length with
  | none =>
    have hargs : List.Forall₂ (fun cs t => ∃ last, Written 1 cs t last)
        (texts.map Prod.snd) (texts.map fun p => p.1.asRead) := by
      rw [List.forall₂_map_left_iff, List.forall₂_map_right_iff, List.forall₂_same]
      exact fun p hp => exists_of_le (h p hp) (Nat.le_refl 1) p.1.precedence_bounds.1
    exact call hf hargs
  | some shape =>
    rcases infixShape?_cases hshape with ⟨o, ho, rfl, rfl, hlen, hflat⟩ | ⟨rfl, rfl, hlen⟩ |
      ⟨rfl, rfl, hlen⟩
    · obtain ⟨p, q, rest, rfl⟩ : ∃ p q rest, texts = p :: q :: rest := by
        match texts, hlen with
        | p :: q :: rest, _ => exact ⟨p, q, rest, rfl⟩
      have hflat' : o.isFlat = true ∨ rest = [] :=
        hflat.imp_right fun hlen => by simpa using hlen
      have hchain := chain ho hflat' (h p (by simp)) (h q (by simp))
        fun r hr => h r (by simp [hr])
      rw [Operator.level_eq] at hchain
      exact hchain
    · obtain ⟨b, e, rfl⟩ := List.length_eq_two.mp hlen
      have hb : decide (b.1.precedence ≤ 4) = false → 5 ≤ b.1.precedence := by
        intro hb
        exact not_le.mp (of_decide_eq_false hb)
      have he : decide (e.1.precedence < 3) = false → 3 ≤ e.1.precedence := by
        intro he
        exact not_lt.mp (of_decide_eq_false he)
      exact power (h b (by simp)) b.1.precedence_bounds.1 hb (h e (by simp))
        e.1.precedence_bounds.1 he
    · obtain ⟨p, rfl⟩ := List.length_eq_one_iff.mp hlen
      have hneg := negation (h p (by simp)) p.1.precedence_bounds.1
      rwa [Term.isConstant_asRead] at hneg

end Written

namespace Term

mutual

theorem standsInfix : (t : Term) → t.isPrintable = true → t.StandsInfix
  | .const a, h => Written.const h
  | .var x, h => by
    rw [isPrintable, Bool.and_eq_true, Option.isNone_iff_eq_none] at h
    exact Written.var h.1 h.2
  | .app f args, h => by
    rw [isPrintable, Bool.and_eq_true] at h
    have hargs : ∀ p ∈ args.map fun t => (t, t.writtenInfix), p.1.StandsFor p.2 := by
      rw [List.forall_mem_map]
      exact standsInfix_of_mem args h.2
    have hterms : (args.map fun t => (t, t.writtenInfix)).map Prod.fst = args := by
      rw [List.map_map]
      exact List.map_id args
    have happ := Written.app h.1 hargs
    rw [hterms] at happ
    rw [StandsInfix, writtenInfix, zip_writtenInfixAll]
    exact happ

theorem standsInfix_of_mem : (ts : List Term) → allPrintable ts = true →
    ∀ t ∈ ts, t.StandsInfix
  | [], _ => by simp
  | t :: ts, h => by
    rw [allPrintable, Bool.and_eq_true] at h
    exact List.forall_mem_cons.mpr ⟨standsInfix t h.1, standsInfix_of_mem ts h.2⟩

end

end Term

theorem readTerm_renderInfix_eq {t : Term} (h : t.isPrintable = true) :
    readTerm t.renderInfix = .ok t.asRead := by
  apply readTerm_of_written t.precedence_bounds.1
  rw [Term.renderInfix, String.toList_ofList]
  exact t.standsInfix h

/-- Constants keep their values, though an integral binary64 number comes back as an integer. -/
theorem readTerm_renderInfix {t : Term} (h : t.isPrintable = true) :
    ∃ u, readTerm t.renderInfix = .ok u ∧ (u == t) = true :=
  ⟨t.asRead, readTerm_renderInfix_eq h, t.same_asRead⟩

/-- A power of -1.5 whose exponent negates a sum that begins with a sum, with a keyword as a
functor and a negated numeral in it. -/
theorem readTerm_renderInfix_nested :
    let t := Term.app "pow" [.const (.float ⟨true, 6755399441055744, -52, by decide⟩),
      .app "neg" [.app "add" [.app "add" [.var "x'", .const (.int 1)], .app "undo" [],
        .app "neg" [.const (.int 3)]]]]
    t.isPrintable = true ∧ ∃ u, readTerm t.renderInfix = .ok u ∧ (u == t) = true :=
  ⟨by decide +kernel, readTerm_renderInfix (by decide +kernel)⟩

example : (Term.app "pow" [.const (.int (-2)), .app "neg" [.const (.int 3)]]).renderInfix =
    "(-2)^-(3)" := by decide +kernel

end Stepwise
