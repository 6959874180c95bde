import Stepwise.Proofs.Rule.Reduction
import Stepwise.Proofs.Term.Equality

namespace Stepwise

/-- The same names in the same order, bound to equal terms. -/
structure Bindings.Alike (b b' : Bindings) : Prop where
  names_eq : b.names = b'.names
  agrees : b.Agrees b'.find?

theorem Bindings.Alike.same {b b' : Bindings} (h : b.Alike b') : b.same b' = true := by
  have hsize : b.size = b'.size := by
    have hlength := congrArg List.length h.names_eq
    rwa [Table.names, Table.names, List.length_map, List.length_map] at hlength
  rw [Bindings.same, Bool.and_eq_true, beq_iff_eq, List.all_eq_true]
  refine ⟨hsize, ?_⟩
  rintro ⟨x, u⟩ hentry
  obtain ⟨v, hv, hsame⟩ := h.agrees x u (Table.find?_eq_some_iff.mpr hentry)
  simp only [hv, Option.any_some]
  exact Term.same_symm v u hsame

namespace Term

variable {p p' t t' : Term}

/-- The bindings of one match fit the other, and those that fit have equal terms for all names. -/
theorem match?_of_some (hp : p.same p' = true) (ht : t.same t' = true) {b : Bindings}
    (h : p.match? t = some b) : ∃ b', p'.match? t' = some b' ∧ b.Alike b' := by
  have hfits : Fits p' t' ∅ b.find? := (fits_of_matchWith? h).of_same hp ht
  obtain ⟨b', h', -⟩ := exists_matchWith? hfits.agrees p' t' hfits.total hfits.equal
  have hback : Fits p t ∅ b'.find? :=
    (fits_of_matchWith? h').of_same (same_symm p p' hp) (same_symm t t' ht)
  refine ⟨b', h', ?_, agrees_of_fits hback h⟩
  rw [(grow_of_matchWith? p t h).names_eq, (grow_of_matchWith? p' t' h').names_eq,
    vars_of_same hp]

theorem match?_of_same (hp : p.same p' = true) (ht : t.same t' = true) :
    Option.Rel Bindings.Alike (p.match? t) (p'.match? t') := by
  cases h : p.match? t with
  | some b =>
    obtain ⟨b', h', hb⟩ := match?_of_some hp ht h
    rw [h']
    exact .some hb
  | none =>
    cases h' : p'.match? t' with
    | none => exact .none
    | some b' =>
      obtain ⟨b, hb, -⟩ := match?_of_some (same_symm p p' hp) (same_symm t t' ht) h'
      cases h.symm.trans hb

/-- One path, and alike bindings. -/
def FoundAlike (m m' : Path × Bindings) : Prop := m.1 = m'.1 ∧ m.2.Alike m'.2

theorem matchesAt_of_same (hp : p.same p' = true) (ht : t.same t' = true) (d : Nat) :
    List.Forall₂ FoundAlike (t.matchesAt p d) (t'.matchesAt p' d) := by
  refine List.rel_filterMap ?_ (forall₂_atDepth ht d)
  rintro ⟨path, u⟩ ⟨path', u'⟩ ⟨hpath, hu⟩
  have hmatch := match?_of_same hp hu
  simp only at hmatch ⊢
  generalize p.match? u = found, p'.match? u' = found' at hmatch
  cases hmatch with
  | none => exact .none
  | some hb => exact .some ⟨hpath, hb⟩

end Term

theorem ruleText_of_same {p p' q q' : Term} (hp : p.same p' = true) (hq : q.same q' = true) :
    ruleText p q = ruleText p' q' := by
  unfold ruleText
  rw [Term.render_of_same hp, Term.render_of_same hq]

theorem UnboundVariables.message_of_same {e e' : UnboundVariables} (hnames : e.names = e'.names)
    (hp : e.pattern.same e'.pattern = true) (hq : e.replacement.same e'.replacement = true) :
    e.message = e'.message := by
  unfold message
  rw [hnames, ruleText_of_same hp hq]

namespace Rule

variable {rule rule' : Rule} {t t' : Term}

/-- Equal sides, whatever the rules are called. -/
structure Alike (rule rule' : Rule) : Prop where
  pattern : rule.pattern.same rule'.pattern = true
  replacement : rule.replacement.same rule'.replacement = true

theorem Alike.refl (rule : Rule) : rule.Alike rule := ⟨Term.same_refl _, Term.same_refl _⟩

theorem beq_iff : (rule == rule') = true ↔ rule.Alike rule' ∧ rule.name = rule'.name := by
  have hbeq : (rule == rule') = (rule.pattern.same rule'.pattern &&
    rule.replacement.same rule'.replacement && (rule.name == rule'.name)) := rfl
  rw [hbeq, Bool.and_eq_true, Bool.and_eq_true, beq_iff_eq]
  constructor
  · rintro ⟨⟨hpattern, hreplacement⟩, hname⟩
    exact ⟨⟨hpattern, hreplacement⟩, hname⟩
  · rintro ⟨halike, hname⟩
    exact ⟨⟨halike.pattern, halike.replacement⟩, hname⟩

theorem label_of_beq (h : (rule == rule') = true) : rule.label = rule'.label := by
  obtain ⟨halike, hname⟩ := beq_iff.mp h
  unfold label text
  rw [hname, ruleText_of_same halike.pattern halike.replacement]

/-- Equal sides make rules on both sides, or are refused with one message. -/
theorem make?_of_same {p p' q q' : Term} (hp : p.same p' = true) (hq : q.same q' = true)
    (name name' : Option String) :
    (∃ e e', make? p q name = .error e ∧ make? p' q' name' = .error e' ∧ e.message = e'.message) ∨
    ∃ r r', make? p q name = .ok r ∧ make? p' q' name' = .ok r' ∧ r.Alike r' := by
  have hvars := Term.vars_of_same hp
  have hvars' := Term.vars_of_same hq
  by_cases hclosed : ∀ x ∈ q.vars, x ∈ p.vars
  · have hclosed' : ∀ x ∈ q'.vars, x ∈ p'.vars := by rwa [← hvars, ← hvars']
    exact Or.inr ⟨_, _, dif_pos hclosed, dif_pos hclosed', hp, hq⟩
  · have hclosed' : ¬ ∀ x ∈ q'.vars, x ∈ p'.vars := by rwa [← hvars, ← hvars']
    refine Or.inl ⟨_, _, dif_neg hclosed, dif_neg hclosed', UnboundVariables.message_of_same ?_ hp hq⟩
    rw [hvars, hvars']

theorem contract?_of_same (hrule : rule.Alike rule') (ht : t.same t' = true) :
    Option.Rel (fun u u' => u.same u' = true) (rule.contract? t) (rule'.contract? t') := by
  have hmatch := Term.match?_of_same hrule.pattern ht
  have htotal : ∀ b, rule.pattern.match? t = some b →
      ∀ x ∈ rule.pattern.vars, (b.find? x).isSome = true :=
    fun b hb => (Term.fits_of_matchWith? hb).total
  rw [contract?, contract?]
  generalize rule.pattern.match? t = found at hmatch htotal
  generalize rule'.pattern.match? t' = found' at hmatch
  cases hmatch with
  | none => exact .none
  | @some b b' hb =>
    refine .some (Term.instantiate_of_same hrule.replacement fun x hx => ?_)
    exact hb.agrees.same (htotal b rfl x (rule.closed x hx))

theorem rewriteAt_of_same (hrule : rule.Alike rule') (ht : t.same t' = true) (d : Nat) :
    (rule.rewriteAt d t).same (rule'.rewriteAt d t') = true := by
  induction d generalizing t t' with
  | zero =>
    rw [rewriteAt, rewriteAt]
    have hcontract := contract?_of_same hrule ht
    generalize rule.contract? t = u?, rule'.contract? t' = u'? at hcontract
    cases hcontract with
    | none => exact ht
    | some hu => exact hu
  | succ d ih =>
    rcases Term.same_cases ht with ⟨a, b, rfl, rfl, -⟩ | ⟨x, rfl, rfl⟩ | ⟨f, ts, us, rfl, rfl, hargs⟩
    · exact ht
    · exact ht
    · rw [rewriteAt, rewriteAt, Term.same, beq_self_eq_true, Bool.true_and,
        Term.sameAll_iff_forall₂, List.forall₂_map_left_iff, List.forall₂_map_right_iff]
      exact hargs.imp fun _ _ h => ih h

end Rule

/-- Equal terms, reached through the same paths. -/
structure Reduct.Alike (r r' : Reduct) : Prop where
  term : r.term.same r'.term = true
  paths : r.paths = r'.paths

namespace Rule

variable {rule rule' : Rule} {t t' : Term}

theorem reduct?_of_same (hrule : rule.Alike rule') (ht : t.same t' = true) (d : Nat) :
    Option.Rel Reduct.Alike (rule.reduct? t d) (rule'.reduct? t' d) := by
  have hfound := Term.matchesAt_of_same hrule.pattern ht d
  have hpaths : (t.matchesAt rule.pattern d).map Prod.fst =
      (t'.matchesAt rule'.pattern d).map Prod.fst :=
    map_eq_of_forall₂ (hfound.imp fun _ _ hm => hm.1)
  rw [reduct?_eq_rewriteAt, reduct?_eq_rewriteAt, ← hpaths]
  generalize t.matchesAt rule.pattern d = found, t'.matchesAt rule'.pattern d = found' at hfound
  cases hfound with
  | nil => exact .none
  | cons _ _ => exact .some ⟨rewriteAt_of_same hrule ht d, rfl⟩

/-- Equal rules rewrite equal terms to equal terms, match nothing on either side, or are both refused
the depth. -/
theorem reduct_of_same (hrule : rule.Alike rule') (ht : t.same t' = true) (depth : Int) :
    (∃ r r', rule.reduct t depth = .ok r ∧ rule'.reduct t' depth = .ok r' ∧ r.Alike r') ∨
    (∃ d, rule.reduct t depth = .error (.noMatch rule d) ∧
      rule'.reduct t' depth = .error (.noMatch rule' d)) ∨
    (depth < 0 ∧ rule.reduct t depth = .error (.negativeDepth depth) ∧
      rule'.reduct t' depth = .error (.negativeDepth depth)) := by
  rcases Int.lt_or_le depth 0 with hneg | hdepth
  · exact Or.inr (Or.inr ⟨hneg, reduct_of_negative hneg, reduct_of_negative hneg⟩)
  · obtain ⟨d, rfl⟩ := Int.eq_ofNat_of_zero_le hdepth
    rw [reduct_natCast, reduct_natCast]
    have hreduct := reduct?_of_same hrule ht d
    generalize rule.reduct? t d = r?, rule'.reduct? t' d = r'? at hreduct
    cases hreduct with
    | none => exact Or.inr (Or.inl ⟨d, rfl, rfl⟩)
    | some hr => exact Or.inl ⟨_, _, rfl, rfl, hr⟩

end Rule

end Stepwise
