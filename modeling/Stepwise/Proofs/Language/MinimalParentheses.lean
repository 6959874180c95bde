import Stepwise.Proofs.Language.Openings
import Stepwise.Proofs.Language.Printable

namespace Stepwise

/-- The text splits, wherever it stands, into tokens of these kinds. -/
def SplitsInto (cs : List Char) (ks : List Token.Kind) : Prop :=
  ∀ p, ∃ ts : List Token, Token.Scans p cs ts ∧ ts.map Token.kind = ks

namespace SplitsInto

variable {c : Char} {cs ds : List Char} {k : Token.Kind} {ks ls : List Token.Kind}

theorem nil : SplitsInto [] [] := fun _ => ⟨[], .nil, rfl⟩

theorem append (h : SplitsInto cs ks) (h' : SplitsInto ds ls) (hd : Token.endsWord ds = true) :
    SplitsInto (cs ++ ds) (ks ++ ls) := by
  intro p
  obtain ⟨ts, hscans, rfl⟩ := h p
  obtain ⟨us, hscans', rfl⟩ := h' (p + cs.length)
  exact ⟨ts ++ us, hscans.append hscans' hd, List.map_append⟩

theorem symbol (hk : Token.symbolKind? c = some k) (h : SplitsInto ds ls) :
    SplitsInto (c :: ds) (k :: ls) := by
  intro p
  obtain ⟨us, hscans, rfl⟩ := h (p + 1)
  exact ⟨_, .symbol (Token.isSymbol_of_symbolKind? hk) hk hscans, rfl⟩

theorem blank (h : SplitsInto ds ls) : SplitsInto (' ' :: ds) ls := by
  intro p
  obtain ⟨us, hscans, rfl⟩ := h (p + 1)
  exact ⟨us, .blank hscans, rfl⟩

theorem word {f : String} (h : Token.isIdentifier f = true) :
    SplitsInto f.toList [Token.wordKind f.toList] := fun _ => ⟨_, Token.scans_word h, rfl⟩

theorem wrapped {b : Bool} (h : SplitsInto cs ks) : SplitsInto (wrapped b cs) (grouped b ks) := by
  cases b with
  | false => exact h
  | true => exact .symbol rfl (h.append (.symbol rfl .nil) rfl)

theorem separator (shape : Option InfixShape) (h : SplitsInto ds ls) :
    SplitsInto (separatorText shape ++ ds) (separatorKind shape :: ls) ∧
      Token.endsWord (separatorText shape ++ ds) = true := by
  cases shape with
  | none => exact ⟨.symbol rfl h.blank, rfl⟩
  | some shape =>
    cases shape with
    | negation => exact ⟨.symbol rfl h, rfl⟩
    | power => exact ⟨.symbol rfl h, rfl⟩
    | chain o => exact ⟨.blank (.symbol (Token.symbolKind?_symbol o) h.blank), rfl⟩

theorem intercalate (shape : Option InfixShape) {parts : List (List Char)}
    {kinds : List (List Token.Kind)} (h : List.Forall₂ SplitsInto parts kinds) :
    SplitsInto ((separatorText shape).intercalate parts)
      ([separatorKind shape].intercalate kinds) := by
  induction h with
  | nil => exact .nil
  | cons hfirst hrest ih =>
    cases hrest with
    | nil => simpa using hfirst
    | cons hsecond hrest =>
      obtain ⟨hsplits, hends⟩ := separator shape ih
      rw [List.intercalate_cons_cons, List.intercalate_cons_cons, List.append_assoc,
        List.append_assoc]
      exact hfirst.append hsplits hends

/-- An application splits where its operands do. -/
theorem layout {f : String} (hf : Token.isIdentifier f = true) (shape : Option InfixShape)
    {parts : List (List Char)} {kinds : List (List Token.Kind)}
    (h : List.Forall₂ SplitsInto parts kinds) :
    SplitsInto (openingText f shape ++ (separatorText shape).intercalate parts ++ closingText shape)
      (openingKinds f shape ++ [separatorKind shape].intercalate kinds ++ closingKinds shape) := by
  have hparts := intercalate shape h
  cases shape with
  | none =>
    have harguments : SplitsInto ('(' :: ((separatorText none).intercalate parts ++ [')']))
        (.opening :: ([separatorKind none].intercalate kinds ++ [.closing])) :=
      .symbol rfl (hparts.append (.symbol rfl .nil) rfl)
    simpa [openingText, openingKinds, closingText, closingKinds] using
      (word hf).append harguments rfl
  | some shape =>
    rw [closingText, closingKinds, List.append_nil, List.append_nil]
    cases shape with
    | negation => exact .symbol rfl hparts
    | power => exact hparts
    | chain o => exact hparts

end SplitsInto

namespace Term

/-- A pair of parentheses that the infix form of the term has around an operand: how the operand's
application is written, the operand, and the text in front of the pair and behind it. -/
inductive Encloses : Term → InfixShape → Term → List Char → List Char → Prop
  | operand {f : String} {l r : List Term} {a : Term} {shape : InfixShape}
      (written : infixShape? f (l ++ a :: r).length = some shape)
      (wraps : shape.wraps l.isEmpty a = true) :
      Encloses (.app f (l ++ a :: r)) shape a (frontText f (some shape) l)
        (backText (some shape) r)
  | inside {f : String} {l r : List Term} {a operand : Term} {around : Option InfixShape}
      {shape : InfixShape} {before after : List Char}
      (written : infixShape? f (l ++ a :: r).length = around)
      (inner : Encloses a shape operand before after) :
      Encloses (.app f (l ++ a :: r)) shape operand
        (frontText f around l ++ ((if printed around l.isEmpty a then ['('] else []) ++ before))
        (after ++ (if printed around l.isEmpty a then [')'] else []) ++ backText around r)

theorem wrapped_append {b : Bool} {before text after : List Char} :
    wrapped b (before ++ text ++ after) =
      (if b then ['('] else []) ++ before ++ text ++ (after ++ (if b then [')'] else [])) := by
  cases b <;> simp [wrapped]

theorem Encloses.writtenInfix_eq {t operand : Term} {shape : InfixShape} {before after : List Char}
    (h : Encloses t shape operand before after) :
    t.writtenInfix = before ++ ('(' :: operand.writtenInfix ++ [')']) ++ after := by
  induction h with
  | operand written wraps =>
    rw [writtenInfix_append written]
    simp [operandText, printed, wraps, wrapped, withInfix]
  | inside written inner ih =>
    rw [writtenInfix_append written, operandText, withInfix, ih, wrapped_append]
    simp

/-- The tokens in front of an operand, behind those that come before it. -/
def frontKinds (groups : Grouping) (functor : String) (shape : Option InfixShape)
    (before : List Term) : List Token.Kind :=
  openingKinds functor shape ++
    (operands (operandKinds groups shape) (before.map (withKinds groups))).flatMap
      (· ++ [separatorKind shape])

/-- The tokens behind an operand, in front of those that come after it. -/
def backKinds (groups : Grouping) (shape : Option InfixShape) (after : List Term) :
    List Token.Kind :=
  (after.map fun t => operandKinds groups shape false (t.withKinds groups)).flatMap
      ([separatorKind shape] ++ ·) ++ closingKinds shape

section Around

variable {groups groups' : Grouping} {f : String} {l r args : List Term} {t a : Term}
variable {shape : Option InfixShape} {n m : Nat}

theorem kinds_append (h : infixShape? f (l ++ a :: r).length = shape) :
    (app f (l ++ a :: r)).kinds groups = frontKinds groups f shape l ++
      operandKinds groups shape l.isEmpty (a.withKinds groups) ++ backKinds groups shape r := by
  rw [kinds_app h, List.map_append, List.map_cons, operands_append, intercalate_append]
  simp [frontKinds, backKinds, Function.comp_def]

theorem splitsInto_operand {first : Bool} (h : SplitsInto t.writtenInfix (t.kinds printed)) :
    SplitsInto (operandText shape first t.withInfix)
      (operandKinds printed shape first (t.withKinds printed)) := h.wrapped

theorem splitsInto_operands (h : ∀ t ∈ args, SplitsInto t.writtenInfix (t.kinds printed)) :
    List.Forall₂ SplitsInto (operands (operandText shape) (args.map withInfix))
      (operands (operandKinds printed shape) (args.map (withKinds printed))) := by
  rw [operands_map, operands_map]
  exact forall₂_operands fun _ t ht => splitsInto_operand (h t ht)

theorem splitsInto_layout (hf : Token.isIdentifier f = true)
    (h : ∀ t ∈ args, SplitsInto t.writtenInfix (t.kinds printed)) :
    SplitsInto (layoutInfix f (args.map withInfix))
      (layoutKinds printed f (args.map (withKinds printed))) := by
  rw [layoutInfix_eq, layoutKinds, List.length_map, List.length_map]
  exact .layout hf _ (splitsInto_operands h)

/-- Whatever stands for an operand, the text around it splits as it does around the operand. -/
theorem splitsInto_around {cs : List Char} {ks : List Token.Kind} (hf : Token.isIdentifier f = true)
    (hl : ∀ t ∈ l, SplitsInto t.writtenInfix (t.kinds printed))
    (hr : ∀ t ∈ r, SplitsInto t.writtenInfix (t.kinds printed)) (h : SplitsInto cs ks) :
    SplitsInto (frontText f shape l ++ cs ++ backText shape r)
      (frontKinds printed f shape l ++ ks ++ backKinds printed shape r) := by
  have hbefore : List.Forall₂ SplitsInto (operands (operandText shape) (l.map withInfix))
      (operands (operandKinds printed shape) (l.map (withKinds printed))) := splitsInto_operands hl
  have hafter : List.Forall₂ SplitsInto (r.map fun t => operandText shape false t.withInfix)
      (r.map fun t => operandKinds printed shape false (t.withKinds printed)) := by
    rw [List.forall₂_map_left_iff, List.forall₂_map_right_iff, List.forall₂_same]
    exact fun t ht => splitsInto_operand (hr t ht)
  have hparts := List.rel_append hbefore (.cons h hafter)
  have hlayout := SplitsInto.layout hf shape hparts
  rw [intercalate_append, intercalate_append] at hlayout
  simpa [frontText, backText, frontKinds, backKinds] using hlayout

mutual

/-- The infix form splits into its tokens. -/
theorem splitsInto_writtenInfix : (t : Term) → t.isPrintable = true →
    SplitsInto t.writtenInfix (t.kinds printed)
  | .const a, h => by
    obtain ⟨n, b, htext, -, -⟩ := Number.exists_numeral_text h
    have hnumeral : SplitsInto n.text [.number] := fun p => ⟨_, Token.scans_numeral n, rfl⟩
    rw [writtenInfix, htext, kinds]
    split
    · exact hnumeral.symbol rfl
    · exact hnumeral
  | .var x, h => by
    rw [isPrintable, Bool.and_eq_true, Option.isNone_iff_eq_none] at h
    have hword := SplitsInto.word h.1
    rw [Token.wordKind, String.ofList_toList, h.2] at hword
    exact hword
  | .app f args, h => by
    rw [isPrintable, Bool.and_eq_true] at h
    rw [writtenInfix, zip_writtenInfixAll, kinds, zip_kindsAll]
    exact splitsInto_layout h.1 (splitsInto_of_mem args h.2)

theorem splitsInto_of_mem : (ts : List Term) → allPrintable ts = true →
    ∀ t ∈ ts, SplitsInto t.writtenInfix (t.kinds printed)
  | [], _ => by simp
  | t :: ts, h => by
    rw [allPrintable, Bool.and_eq_true] at h
    exact List.forall_mem_cons.mpr ⟨splitsInto_writtenInfix t h.1, splitsInto_of_mem ts h.2⟩

end

end Around

end Term

/-- The words and signs. -/
def solids (ks : List Token.Kind) : List Token.Kind := ks.filter Token.Kind.isSolid

section Solids

variable {b : Bool} {k : Token.Kind} {ks ls : List Token.Kind} {n : Nat}

@[simp] theorem solids_append : solids (ks ++ ls) = solids ks ++ solids ls := List.filter_append ..

@[simp] theorem solids_grouped : solids (grouped b ks) = solids ks := by
  cases b with
  | false => rfl
  | true => simp [grouped, solids, Token.Kind.isSolid]

theorem solids_intercalate (parts : List (List Token.Kind)) :
    solids ([k].intercalate parts) = (solids [k]).intercalate (parts.map solids) := by
  induction parts with
  | nil => rfl
  | cons ks parts ih =>
    cases parts with
    | nil => simp
    | cons ls parts =>
      simp only [List.intercalate_cons_cons, List.map_cons, solids_append] at ih ⊢
      rw [ih]

theorem solids_flatMap (parts : List (List Token.Kind)) :
    solids (parts.flatMap (· ++ [k])) = (parts.map solids).flatMap (· ++ solids [k]) := by
  simp [solids, List.filter_flatMap, List.flatMap_map]

theorem weigh_solids (ks : List Token.Kind) : weigh (solids ks) = weigh ks := by
  induction ks with
  | nil => rfl
  | cons k ks ih =>
    rw [solids, List.filter_cons]
    split
    · rw [weigh_cons, weigh_cons, ← ih, solids]
    · rename_i hk
      have hweight : k.weight = 0 := by
        cases k with
        | opening | closing => rfl
        | _ => exact absurd rfl hk
      rw [weigh_cons, hweight, Nat.zero_add]
      exact ih

theorem length_openings : (openings n ks).length = (solids ks).length := by
  induction ks generalizing n with
  | nil => rfl
  | cons k ks ih =>
    cases k with
    | opening | closing => exact ih
    | _ => exact congrArg (· + 1) ih

end Solids

namespace Term

variable {groups groups' : Grouping} {f : String} {l r args : List Term} {t a : Term}
variable {shape : Option InfixShape}

theorem solids_operands (h : ∀ t ∈ args, solids (t.kinds groups) = solids (t.kinds groups')) :
    (operands (operandKinds groups shape) (args.map (withKinds groups))).map solids =
      (operands (operandKinds groups' shape) (args.map (withKinds groups'))).map solids := by
  have hforall : List.Forall₂ (fun ks ls => solids ks = solids ls)
      (operands (operandKinds groups shape) (args.map (withKinds groups)))
      (operands (operandKinds groups' shape) (args.map (withKinds groups'))) := by
    rw [operands_map, operands_map]
    refine forall₂_operands fun first t ht => ?_
    rw [operandKinds, operandKinds, solids_grouped, solids_grouped]
    exact h t ht
  exact map_eq_of_forall₂ hforall

mutual

/-- The parentheses apart, the tokens are the same. -/
theorem solids_kinds (groups groups' : Grouping) : (t : Term) →
    solids (t.kinds groups) = solids (t.kinds groups')
  | .const _ => rfl
  | .var _ => rfl
  | .app f args => by
    rw [kinds_app rfl, kinds_app rfl]
    simp only [solids_append, solids_intercalate]
    rw [solids_operands (solids_kinds_of_mem groups groups' args)]

theorem solids_kinds_of_mem (groups groups' : Grouping) : (ts : List Term) →
    ∀ t ∈ ts, solids (t.kinds groups) = solids (t.kinds groups')
  | [] => by simp
  | t :: ts =>
    List.forall_mem_cons.mpr ⟨solids_kinds groups groups' t, solids_kinds_of_mem groups groups' ts⟩

end

theorem solids_front : solids (frontKinds groups f shape l) =
    solids (frontKinds groups' f shape l) := by
  have hoperands : (operands (operandKinds groups shape) (l.map (withKinds groups))).map solids =
      (operands (operandKinds groups' shape) (l.map (withKinds groups'))).map solids :=
    solids_operands fun t _ => solids_kinds groups groups' t
  rw [frontKinds, frontKinds, solids_append, solids_append, solids_flatMap, solids_flatMap,
    hoperands]

theorem needed_eq_printed (h : shape ≠ some .negation) (first : Bool) :
    needed shape first a = printed shape first a := by
  simp [needed, h]

theorem lead_cons {k : Token.Kind} (h : k.isSolid = true) (ks ls : List Token.Kind) :
    ∃ j xs ys, ∀ n, openings n (k :: ks) = (n + j) :: xs ∧ openings n (k :: ls) = (n + j) :: ys :=
  ⟨0, openings 0 ks, openings 0 ls, fun _ => ⟨openings_solid h, openings_solid h⟩⟩

/-- A power or a chain begins with its first operand. -/
theorem kinds_first {shape : InfixShape} (h : infixShape? f (a :: r).length = some shape)
    (hnegation : shape ≠ .negation) : (app f (a :: r)).kinds groups =
      grouped (groups (some shape) true a) (a.kinds groups) ++ backKinds groups (some shape) r := by
  have hsplit : (app f ([] ++ a :: r)).kinds groups = _ := kinds_append h
  cases shape with
  | negation => exact absurd rfl hnegation
  | power => exact hsplit
  | chain o => exact hsplit

mutual

/-- In front of the first word or sign no pair is left out. -/
theorem exists_lead : (t : Term) → ∃ k xs ys, ∀ n,
    openings n (t.kinds needed) = (n + k) :: xs ∧ openings n (t.kinds printed) = (n + k) :: ys
  | .const a => by
    cases hsign : a.isNegative with
    | true => exact ⟨0, [0], [0], fun n => by simp [kinds, hsign, openings]⟩
    | false => exact ⟨0, [], [], fun n => by simp [kinds, hsign, openings]⟩
  | .var x => ⟨0, [], [], fun n => by simp [kinds, openings]⟩
  | .app f args => by
    cases hshape : infixShape? f args.length with
    | none =>
      rw [kinds_call hshape, kinds_call hshape]
      exact lead_cons Token.isSolid_wordKind _ _
    | some shape =>
      by_cases hnegation : shape = .negation
      · subst hnegation
        rw [kinds_app hshape, kinds_app hshape]
        exact lead_cons rfl _ _
      · obtain _ | ⟨a, rest⟩ := args
        · rw [List.length_nil, infixShape?_zero] at hshape
          cases hshape
        obtain ⟨k, xs, ys, hlead⟩ := exists_lead_of_mem (a :: rest) a (by simp)
        have hkinds (groups : Grouping) : (app f (a :: rest)).kinds groups =
            grouped (groups (some shape) true a) (a.kinds groups) ++
              backKinds groups (some shape) rest := kinds_first hshape hnegation
        have hgrouped : needed (some shape) true a = printed (some shape) true a :=
          needed_eq_printed (by simpa using hnegation) true
        refine ⟨(printed (some shape) true a).toNat + k,
          xs ++ openings 0 (backKinds needed (some shape) rest),
          ys ++ openings 0 (backKinds printed (some shape) rest), fun n => ?_⟩
        simp only [hkinds, hgrouped, openings_append, (closed_kinds _ a).grouped n,
          openings_grouped, hlead, List.cons_append, Nat.add_assoc, and_self]

theorem exists_lead_of_mem : (ts : List Term) → ∀ t ∈ ts, ∃ k xs ys, ∀ n,
    openings n (t.kinds needed) = (n + k) :: xs ∧ openings n (t.kinds printed) = (n + k) :: ys
  | [] => by simp
  | t :: ts => List.forall_mem_cons.mpr ⟨exists_lead t, exists_lead_of_mem ts⟩

end

theorem closed_flatMap {k : Token.Kind} (hk : k ≠ .opening) {parts : List (List Token.Kind)}
    (hne : parts ≠ []) : Closed (parts.flatMap (· ++ [k])) := by
  induction parts with
  | nil => exact absurd rfl hne
  | cons ks parts ih =>
    rw [List.flatMap_cons]
    cases parts with
    | nil => simpa using (closed_singleton hk).append
    | cons ls parts => exact (ih (by simp)).append

/-- In front of an operand as many parentheses are open as its application opens, and those in
front of it only if it is the first word or sign behind them. -/
theorem openingsLeft_front {n m : Nat} (h : n = m ∨ shape = some .negation) :
    openingsLeft n (frontKinds groups f shape l) =
      openingsLeft m (frontKinds groups' f shape l) := by
  cases l with
  | nil =>
    rcases h with rfl | rfl
    · rfl
    · rfl
  | cons t l =>
    have hclosed (groups : Grouping) : Closed (frontKinds groups f shape (t :: l)) :=
      (closed_flatMap (by cases shape <;> nofun) (by simp [operands])).append
    rw [hclosed, hclosed]

theorem shape_of_precedence (h : (app f args).precedence = 3) :
    infixShape? f args.length = some .negation := by
  rw [precedence_app] at h
  cases hshape : infixShape? f args.length with
  | none => simp [hshape] at h
  | some shape =>
    rw [hshape] at h
    cases shape with
    | negation => rfl
    | power => cases h
    | chain o => cases o <;> cases h

/-- The tokens have the words and signs of the term, but somewhere fewer parentheses open in front
of them than are needed. A redundant pair may be gone in front of a negation or a negative
constant. -/
structure Undercuts (t : Term) (ks : List Token.Kind) : Prop where
  alike : solids ks = solids (t.kinds needed)
  fewer : ∀ n m, (n = m ∨ t.precedence = 3) →
    ¬ List.Forall₂ (· ≤ ·) (openings n (t.kinds needed)) (openings m ks)

end Term

theorem forall₂_of_append {α : Type} {R : α → α → Prop} {as as' bs bs' : List α}
    (h : List.Forall₂ R (as ++ as') (bs ++ bs')) (hlength : as.length = bs.length) :
    List.Forall₂ R as bs ∧ List.Forall₂ R as' bs' := by
  have htake := List.forall₂_take_append _ _ _ h
  have hdrop := List.forall₂_drop_append _ _ _ h
  rw [← hlength, List.take_left] at htake
  rw [← hlength, List.drop_left] at hdrop
  exact ⟨htake, hdrop⟩

namespace Term

variable {f : String} {l r : List Term} {t a operand : Term} {shape : Option InfixShape}

/-- Fewer parentheses than are needed where the operand stands are too few for the application. -/
theorem Undercuts.around {ks : List Token.Kind}
    (written : infixShape? f (l ++ a :: r).length = shape)
    (hsolids : solids ks = solids (a.kinds needed))
    (hopenings : ∀ n, ¬ List.Forall₂ (· ≤ ·)
      (openings n (operandKinds needed shape l.isEmpty (a.withKinds needed)))
      (openings n ks)) :
    (app f (l ++ a :: r)).Undercuts
      (frontKinds printed f shape l ++ ks ++ backKinds printed shape r) := by
  have hoperand : solids (operandKinds needed shape l.isEmpty (a.withKinds needed)) =
      solids ks := by
    rw [operandKinds, solids_grouped, hsolids]
    rfl
  have hfront : solids (frontKinds needed f shape l) =
      solids (frontKinds printed f shape l) := solids_front
  refine ⟨?_, fun n m hnm h => ?_⟩
  · have hkinds : solids ((app f (l ++ a :: r)).kinds printed) =
        solids ((app f (l ++ a :: r)).kinds needed) := solids_kinds _ _ _
    rw [← hkinds, kinds_append written]
    simp only [solids_append, operandKinds, solids_grouped]
    rw [hsolids, solids_kinds needed printed a]
    rfl
  · rw [kinds_append written] at h
    simp only [List.append_assoc, openings_append] at h
    have hbehind := (forall₂_of_append h (by rw [length_openings, length_openings, hfront])).2
    have hleft : openingsLeft n (frontKinds needed f shape l) =
        openingsLeft m (frontKinds printed f shape l) :=
      openingsLeft_front (hnm.imp_right fun h => written.symm.trans (shape_of_precedence h))
    rw [hleft] at hbehind
    exact hopenings _
      (forall₂_of_append hbehind (by rw [length_openings, length_openings, hoperand])).1

/-- The parts of a printable application. -/
theorem isPrintable_append (h : (app f (l ++ a :: r)).isPrintable = true) :
    Token.isIdentifier f = true ∧ allPrintable l = true ∧ a.isPrintable = true ∧
      allPrintable r = true := by
  simpa [isPrintable, allPrintable_append, allPrintable] using h

namespace Encloses

variable {kind : InfixShape} {before after : List Char}

/-- Without the pair the text splits into tokens that undercut the term, if the pair is needed. -/
theorem exists_undercuts (h : Encloses t kind operand before after)
    (printable : t.isPrintable = true)
    (necessary : ¬ (kind = .negation ∧ operand.precedence = 3)) :
    ∃ ks, SplitsInto (before ++ operand.writtenInfix ++ after) ks ∧ t.Undercuts ks := by
  induction h with
  | @operand f l r a shape written wraps =>
    obtain ⟨hf, hl, ha, hr⟩ := isPrintable_append printable
    have hneeded : needed (some shape) l.isEmpty a = true := by
      simpa [needed, printed, wraps] using not_and_or.mp necessary
    refine ⟨_, splitsInto_around hf (splitsInto_of_mem l hl) (splitsInto_of_mem r hr)
      (splitsInto_writtenInfix a ha), .around written (solids_kinds _ _ a) fun n h => ?_⟩
    obtain ⟨k, xs, ys, hlead⟩ := exists_lead a
    rw [operandKinds, withKinds, hneeded, openings_grouped, (hlead _).1, (hlead _).2] at h
    cases h with
    | cons hle _ =>
      rw [Bool.toNat_true] at hle
      omega
  | @inside f l r a operand around shape before after written inner ih =>
    obtain ⟨hf, hl, ha, hr⟩ := isPrintable_append printable
    obtain ⟨ks, hsplits, hundercuts⟩ := ih ha necessary
    have hsolids : solids (grouped (printed around l.isEmpty a) ks) = solids (a.kinds needed) := by
      rw [solids_grouped, hundercuts.alike]
    have hwrapped : SplitsInto (wrapped (printed around l.isEmpty a) _)
      (grouped (printed around l.isEmpty a) ks) := hsplits.wrapped
    have haround : SplitsInto (frontText f around l ++ _ ++ backText around r) _ :=
      splitsInto_around hf (splitsInto_of_mem l hl) (splitsInto_of_mem r hr) hwrapped
    rw [wrapped_append] at haround
    refine ⟨_, by simpa using haround, .around written hsolids fun n h => ?_⟩
    rw [operandKinds, withKinds, openings_grouped, openings_grouped] at h
    refine hundercuts.fewer _ _ ?_ h
    -- a pair that is not needed stands in front of a negation or a negative constant
    by_cases hprinted : needed around l.isEmpty a = printed around l.isEmpty a
    · exact Or.inl (by rw [hprinted])
    · refine Or.inr ?_
      by_contra hprecedence
      exact hprinted (by simp [needed, hprecedence])

end Encloses

end Term

/-- A negation or a negative constant does not begin with a numeral. -/
theorem Phrase.not_numeral {n : Nat} {ts : List Token} {t : Term} {last : Option Operator} :
    Phrase n ts t last → t.precedence = 3 → Token.hasKind .number ts = false
  | .looser h _, ht => h.not_numeral ht
  | .extended left flat _ _, ht => by
    have hlen := Term.two_le_of_lastOperator left.lastOperator_of_some
    rw [Term.precedence_of_lastOperator (Term.lastOperator_snoc flat hlen)] at ht
    have hlevel := Operator.level_of_isFlat flat
    omega
  | .nested _ chain _ _ _, ht => by
    rw [Term.precedence_of_lastOperator (Term.lastOperator_pair chain)] at ht
    have hlevel := Operator.level_of_ne_pow chain
    omega
  | .negative kind .., _ | .negation kind .., _ | .name kind, _ | .group kind .., _ => by
    simp [Token.hasKind_cons, kind]
  | .power .., ht => by cases ht
  | .number _ value _, ht => by
    rw [Term.precedence, Number.isNegative_of_ofNumeral? value] at ht
    cases ht
  | .nullary callable .., _ | .call callable .., _ =>
    Token.hasKind_of_isCallable callable (by simp) (by simp)

namespace Term

variable {f : String} {l r : List Term} {t a operand : Term} {kind : InfixShape}
variable {before after : List Char}

/-- A negation or a negative constant can be negated without parentheses. -/
theorem standsFor_negation (h : a.StandsInfix) (hprecedence : a.precedence = 3) :
    (app negationFunctor [a]).StandsFor ('-' :: a.writtenInfix) := by
  intro p
  obtain ⟨ts, hscans, hphrase⟩ := h (p + 1)
  rw [hprecedence] at hphrase
  have hasRead : a.asRead.precedence = 3 :=
    (precedence_of_same a.same_asRead).trans hprecedence
  have hnumeral := hphrase.not_numeral hasRead
  exact ⟨_, .symbol (by decide) rfl hscans,
    .negation rfl (fun hnumber => absurd hnumber (by simp [hnumeral])) hphrase⟩

theorem standsFor_inside {shape : Option InfixShape} {text : List Char}
    (printable : (app f (l ++ a :: r)).isPrintable = true)
    (written : infixShape? f (l ++ a :: r).length = shape) (h : a.StandsFor text) :
    (app f (l ++ a :: r)).StandsFor
      (frontText f shape l ++ wrapped (printed shape l.isEmpty a) text ++ backText shape r) := by
  obtain ⟨hf, hl, -, hr⟩ := isPrintable_append printable
  have htexts : ∀ p ∈ l.map withInfix ++ (a, text) :: r.map withInfix, p.1.StandsFor p.2 := by
    rw [List.forall_mem_append, List.forall_mem_map, List.forall_mem_cons, List.forall_mem_map]
    exact ⟨standsInfix_of_mem l hl, h, standsInfix_of_mem r hr⟩
  have happ := Written.app hf htexts
  have hterms : (l.map withInfix ++ (a, text) :: r.map withInfix).map Prod.fst = l ++ a :: r := by
    simp [withInfix, Function.comp_def]
  rw [hterms, layoutInfix_append written] at happ
  exact happ

/-- Without a pair that is not needed the text still stands for the term. -/
theorem Encloses.standsFor (h : Encloses t kind operand before after)
    (printable : t.isPrintable = true) (redundant : kind = .negation ∧ operand.precedence = 3) :
    t.StandsFor (before ++ operand.writtenInfix ++ after) := by
  induction h with
  | @operand f l r a shape written wraps =>
    obtain ⟨rfl, hprecedence⟩ := redundant
    obtain ⟨_, _, hshape, -⟩ | ⟨hshape, -⟩ | ⟨-, rfl, hlen⟩ := infixShape?_cases written
    · cases hshape
    · cases hshape
    · obtain ⟨hl, hr⟩ : l = [] ∧ r = [] := by
        rw [List.length_append, List.length_cons] at hlen
        exact ⟨List.length_eq_zero_iff.mp (by omega), List.length_eq_zero_iff.mp (by omega)⟩
      subst hl hr
      have ha := standsInfix a (isPrintable_append printable).2.2.1
      simpa [frontText, backText, openingText, closingText, operands] using
        standsFor_negation ha hprecedence
  | @inside f l r a operand around shape before after written inner ih =>
    have hinner := ih (isPrintable_append printable).2.2.1 redundant
    have hstands := standsFor_inside printable written hinner
    rw [wrapped_append] at hstands
    simpa using hstands

end Term

/-- A text is read as what its tokens derive. -/
theorem derives_of_tokens {text : String} {tokens : List Token} {t : Term}
    (htokens : tokenize text = .ok tokens) (h : readTerm text = .ok t) : Derives tokens t := by
  rw [readTerm_of_tokens htokens] at h
  obtain ⟨⟨t', rest⟩, hread, h⟩ := ok_of_bind h
  obtain ⟨⟨⟩, hfinished, h⟩ := ok_of_bind h
  cases h
  have hreading := readExpression_reading text.length tokens
  rw [hread] at hreading
  cases hreading with
  | expression us after split phrase =>
    cases rest with
    | cons w ws => cases hfinished
    | nil =>
      rw [split, List.append_nil]
      exact ⟨_, phrase⟩

namespace Term

theorem needed_of_same {t u : Term} (h : t.same u = true) (shape : Option InfixShape)
    (first : Bool) : needed shape first t = needed shape first u := by
  have hprinted : printed shape first t = printed shape first u := by
    cases shape with
    | none => rfl
    | some shape =>
      cases shape <;> cases first <;>
        simp only [printed, Option.any_some, InfixShape.wraps, precedence_of_same h,
          isConstant_of_same h, isRunOf_of_same h]
  rw [needed, needed, hprinted, precedence_of_same h]

theorem kinds_of_same {t u : Term} (h : t.same u = true) : t.kinds needed = u.kinds needed := by
  induction h using same_induction with
  | const a b h => rw [kinds, kinds, Number.isNegative_of_same h]
  | var x h => rfl
  | app f ts us h hargs =>
    rw [kinds_app rfl, kinds_app rfl, hargs.length_eq]
    congr 3
    apply operands_congr
    rw [List.forall₂_map_left_iff, List.forall₂_map_right_iff]
    refine hargs.imp fun t u ⟨hsame, hkinds⟩ first => ?_
    rw [operandKinds, operandKinds, withKinds, withKinds, needed_of_same hsame, hkinds]

/-- No text of the term splits into tokens that undercut it. -/
theorem Undercuts.not_derives {t u : Term} {tokens : List Token}
    (h : t.Undercuts (tokens.map Token.kind)) (derives : Derives tokens u)
    (hsame : u.same t = true) : False := by
  obtain ⟨last, phrase⟩ := derives
  have hcovers := phrase.covers.ungrouped
  rw [kinds_of_same hsame] at hcovers
  have hweight : weigh (tokens.map Token.kind) ≤ weigh (t.kinds needed) := by
    rw [← weigh_solids, h.alike, weigh_solids]
  exact h.fewer 0 0 (Or.inl rfl) (hcovers.openings hweight 0)

end Term

/-- Of the pairs of parentheses that the infix form has around operands, exactly those around a
negation or a negative constant that is negated can be removed: without any other the text is not
read, or as a different term. -/
theorem readTerm_without_parentheses_iff {t operand : Term} {shape : InfixShape}
    {before after : List Char} (printable : t.isPrintable = true)
    (h : t.Encloses shape operand before after) :
    t.writtenInfix = before ++ ('(' :: operand.writtenInfix ++ [')']) ++ after ∧
      ((∃ u, readTerm (String.ofList (before ++ operand.writtenInfix ++ after)) = .ok u ∧
          (u == t) = true) ↔
        shape = .negation ∧ operand.precedence = 3) := by
  refine ⟨h.writtenInfix_eq, ?_, fun redundant => ?_⟩
  · rintro ⟨u, hread, hsame⟩
    by_contra necessary
    obtain ⟨ks, hsplits, hundercuts⟩ := h.exists_undercuts printable necessary
    obtain ⟨tokens, hscans, rfl⟩ := hsplits 0
    rw [← String.toList_ofList (l := before ++ operand.writtenInfix ++ after)] at hscans
    exact hundercuts.not_derives (derives_of_tokens (tokenize_of_scans hscans) hread) hsame
  · have hstands := h.standsFor printable redundant
    rw [Term.StandsFor, ← String.toList_ofList (l := before ++ operand.writtenInfix ++ after)]
      at hstands
    exact ⟨t.asRead, readTerm_of_written t.precedence_bounds.1 hstands, t.same_asRead⟩

/-- A sum is a factor only in parentheses, also where the product is negated in an exponent. -/
theorem readTerm_without_parentheses_iff_product :
    let sum := Term.app "add" [.var "a", .const (.int (-1))]
    let t := Term.app "pow" [.var "x", .app "neg" [.app "mul" [sum, .var "c"]]]
    t.isPrintable = true ∧
      t.Encloses (.chain .mul) sum "x^-(".toList " * c)".toList ∧
      t.renderInfix = "x^-((a + -1) * c)" ∧
      ¬ ∃ u, readTerm "x^-(a + -1 * c)" = .ok u ∧ (u == t) = true := by
  intro sum t
  have hprintable : t.isPrintable = true := by decide +kernel
  have hproduct : (Term.app "mul" [sum, .var "c"]).Encloses (.chain .mul) sum [] " * c".toList :=
    @Term.Encloses.operand "mul" [] [.var "c"] sum (.chain .mul) rfl rfl
  have hnegation : (Term.app "neg" [.app "mul" [sum, .var "c"]]).Encloses (.chain .mul) sum
      "-(".toList " * c)".toList :=
    @Term.Encloses.inside "neg" [] [] _ sum _ _ [] " * c".toList rfl hproduct
  have hpower : t.Encloses (.chain .mul) sum "x^-(".toList " * c)".toList :=
    @Term.Encloses.inside "pow" [.var "x"] [] _ sum _ _ "-(".toList " * c)".toList rfl hnegation
  obtain ⟨hwritten, hread⟩ := readTerm_without_parentheses_iff hprintable hpower
  refine ⟨hprintable, hpower, ?_, ?_⟩
  · rw [Term.renderInfix, hwritten]
    decide +kernel
  · intro h
    exact absurd (hread.mp h).1 (by decide)

/-- A negation is negated without parentheses as well, though it is printed in parentheses. -/
theorem readTerm_of_negated_negation :
    let t := Term.app "neg" [.app "neg" [.var "p"]]
    t.isPrintable = true ∧ t.renderInfix = "-(-p)" ∧
      t.Encloses .negation (.app "neg" [.var "p"]) ['-'] [] ∧ readTerm "--p" = .ok t := by
  intro t
  have htokens : tokenize "--p" =
      .ok [⟨.operator .sub, "-", 0⟩, ⟨.operator .sub, "-", 1⟩, ⟨.name, "p", 2⟩] :=
    ok_of_toOption (by decide +kernel)
  refine ⟨by decide +kernel, by decide +kernel,
    @Term.Encloses.operand "neg" [] [] _ .negation rfl rfl, ?_⟩
  rw [readTerm_of_tokens htokens]
  rfl

end Stepwise
