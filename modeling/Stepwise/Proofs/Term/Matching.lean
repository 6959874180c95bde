import Stepwise.Term.Matching

namespace Stepwise

namespace Term

mutual

theorem instantiate_congr {s s' : String → Option Term} : (p : Term) →
    (∀ x ∈ p.vars, s x = s' x) → p.instantiate s = p.instantiate s'
  | .const a, _ => rfl
  | .var x, h => by rw [instantiate, instantiate, h x (by simp [vars])]
  | .app f ps, h => by rw [instantiate, instantiate, instantiateAll_congr ps h]

theorem instantiateAll_congr {s s' : String → Option Term} : (ps : List Term) →
    (∀ x ∈ varsAll ps, s x = s' x) → instantiateAll s ps = instantiateAll s' ps
  | [], _ => rfl
  | p :: ps, h => by
    rw [varsAll, List.forall_mem_append] at h
    rw [instantiateAll, instantiateAll, instantiate_congr p h.1, instantiateAll_congr ps h.2]

end

theorem instantiateAll_eq_map (s : String → Option Term) (ts : List Term) :
    instantiateAll s ts = ts.map (instantiate s) := by
  induction ts with
  | nil => rfl
  | cons t ts ih => rw [instantiateAll, ih, List.map_cons]

theorem length_instantiateAll {s : String → Option Term} (ps : List Term) :
    (instantiateAll s ps).length = ps.length := by
  rw [instantiateAll_eq_map, List.length_map]

theorem length_of_sameAll {ts us : List Term} (h : sameAll ts us = true) :
    ts.length = us.length := by
  induction ts generalizing us with
  | nil =>
    cases us with
    | nil => rfl
    | cons u us => cases h
  | cons t ts ih =>
    cases us with
    | nil => cases h
    | cons u us =>
      rw [sameAll, Bool.and_eq_true] at h
      rw [List.length_cons, List.length_cons, ih h.2]

end Term

namespace Bindings

/-- The bindings are kept, and behind them the further names come in their first order. -/
structure Grow (names : List String) (b b' : Bindings) : Prop where
  keeps : b.entries <+: b'.entries
  names_eq : b'.names = b.names ++ (names.filter (· ∉ b.names)).eraseDups

namespace Grow

variable {b b' b'' : Bindings} {xs ys : List String}

theorem refl : Grow [] b b where
  keeps := List.prefix_refl _
  names_eq := by simp

theorem mem_names (h : Grow xs b b') {x : String} : x ∈ b'.names ↔ x ∈ b.names ∨ x ∈ xs := by
  rw [h.names_eq, List.mem_append, List.mem_eraseDups, List.mem_filter, decide_eq_true_eq]
  by_cases hx : x ∈ b.names
  · simp [hx]
  · simp [hx]

theorem trans (h : Grow xs b b') (h' : Grow ys b' b'') : Grow (xs ++ ys) b b'' where
  keeps := h.keeps.trans h'.keeps
  names_eq := by
    have hys : ys.filter (· ∉ b'.names) =
        (ys.filter (· ∉ b.names)).removeAll (xs.filter (· ∉ b.names)) := by
      rw [List.removeAll, List.filter_filter]
      apply List.filter_congr
      intro x _
      simp only [h.mem_names]
      by_cases hx : x ∈ b.names <;> simp [hx]
    rw [h'.names_eq, hys, h.names_eq, List.filter_append, List.eraseDups_append, List.append_assoc]

theorem bound {x : String} (h : x ∈ b.names) : Grow [x] b b where
  keeps := List.prefix_refl _
  names_eq := by simp [h]

theorem put {x : String} (h : x ∉ b.names) (t : Term) : Grow [x] b (b.put x t) where
  keeps := by
    rw [Table.entries_put_of_notMem h]
    exact List.prefix_append _ _
  names_eq := by
    have hfilter : [x].filter (· ∉ b.names) = [x] := by simp [h]
    rw [hfilter, Table.names, Table.entries_put_of_notMem h, List.map_append]
    rfl

theorem find? (h : Grow xs b b') {x : String} {u : Term} (hu : b.find? x = some u) :
    b'.find? x = some u :=
  h.keeps.lookup_eq_some hu

end Grow

end Bindings

namespace Term

mutual

theorem grow_of_matchWith? {b b' : Bindings} : (p t : Term) → p.matchWith? t b = some b' →
    Bindings.Grow p.vars b b'
  | .var x, t, h => by
    rw [matchWith?] at h
    cases hx : b.find? x with
    | none =>
      simp only [hx, Option.some.injEq] at h
      rw [← h]
      exact .put (by simp [Table.mem_names_iff, hx]) t
    | some u =>
      simp only [hx, Option.ite_none_right_eq_some, Option.some.injEq] at h
      rw [← h.2]
      exact .bound (by simp [Table.mem_names_iff, hx])
  | .const a, .const c, h => by
    simp only [matchWith?, Option.ite_none_right_eq_some, Option.some.injEq] at h
    rw [← h.2]
    exact .refl
  | .app f ps, .app g ts, h => by
    simp only [matchWith?, Option.ite_none_right_eq_some] at h
    exact grow_of_matchAll? ps ts h.2
  | .const _, .var _, h | .const _, .app _ _, h | .app _ _, .const _, h | .app _ _, .var _, h => by
    simp [matchWith?] at h

theorem grow_of_matchAll? {b b' : Bindings} : (ps ts : List Term) → matchAll? ps ts b = some b' →
    Bindings.Grow (varsAll ps) b b'
  | [], [], h => by
    rw [matchAll?, Option.some.injEq] at h
    rw [← h]
    exact .refl
  | p :: ps, t :: ts, h => by
    rw [matchAll?] at h
    cases hp : p.matchWith? t b with
    | none => simp [hp] at h
    | some b₁ =>
      rw [hp] at h
      exact (grow_of_matchWith? p t hp).trans (grow_of_matchAll? ps ts h)
  | [], _ :: _, h | _ :: _, [], h => by simp [matchAll?] at h

end

/-- Bindings that hold the variables of a term, and keep them, instantiate it alike. -/
theorem instantiate_of_grow {p : Term} {xs : List String} {b b' : Bindings}
    (h : Bindings.Grow xs b b') (hp : ∀ x ∈ p.vars, x ∈ b.names) :
    p.instantiate b'.find? = p.instantiate b.find? := by
  apply instantiate_congr
  intro x hx
  obtain ⟨u, hu⟩ := Option.isSome_iff_exists.mp (Table.mem_names_iff.mp (hp x hx))
  rw [hu, h.find? hu]

mutual

theorem instantiate_of_matchWith? {b b' : Bindings} : (p t : Term) →
    p.matchWith? t b = some b' → (p.instantiate b'.find?).same t = true
  | .var x, t, h => by
    rw [instantiate]
    rw [matchWith?] at h
    cases hx : b.find? x with
    | none =>
      simp only [hx, Option.some.injEq] at h
      rw [← h, Table.find?_put, if_pos rfl]
      exact same_refl t
    | some u =>
      simp only [hx, Option.ite_none_right_eq_some, Option.some.injEq] at h
      rw [← h.2, hx]
      exact h.1
  | .const a, .const c, h => by
    simp only [matchWith?, Option.ite_none_right_eq_some] at h
    exact same_symm _ _ h.1
  | .app f ps, .app g ts, h => by
    simp only [matchWith?, Option.ite_none_right_eq_some] at h
    simp only [instantiate, same, h.1.1, beq_self_eq_true, Bool.true_and]
    exact instantiateAll_of_matchAll? ps ts h.2
  | .const _, .var _, h | .const _, .app _ _, h | .app _ _, .const _, h | .app _ _, .var _, h => by
    simp [matchWith?] at h

theorem instantiateAll_of_matchAll? {b b' : Bindings} : (ps ts : List Term) →
    matchAll? ps ts b = some b' → sameAll (instantiateAll b'.find? ps) ts = true
  | [], [], _ => rfl
  | p :: ps, t :: ts, h => by
    rw [matchAll?] at h
    cases hp : p.matchWith? t b with
    | none => simp [hp] at h
    | some b₁ =>
      rw [hp] at h
      have hvars : ∀ x ∈ p.vars, x ∈ b₁.names := fun x hx =>
        (grow_of_matchWith? p t hp).mem_names.mpr (Or.inr hx)
      rw [instantiateAll, sameAll, instantiate_of_grow (grow_of_matchAll? ps ts h) hvars,
        instantiate_of_matchWith? p t hp, instantiateAll_of_matchAll? ps ts h, Bool.and_self]
  | [], _ :: _, h | _ :: _, [], h => by simp [matchAll?] at h

end

end Term

/-- A substitution agrees with the bindings if it has an equal term for every bound name. -/
def Bindings.Agrees (b : Bindings) (s : String → Option Term) : Prop :=
  ∀ x u, b.find? x = some u → ∃ v, s x = some v ∧ (v == u) = true

theorem Bindings.Agrees.same {b : Bindings} {s : String → Option Term} (h : b.Agrees s) {x : String}
    (hx : (b.find? x).isSome = true) :
    ((b.find? x).getD (.var x)).same ((s x).getD (.var x)) = true := by
  obtain ⟨u, hu⟩ := Option.isSome_iff_exists.mp hx
  obtain ⟨v, hv, hsame⟩ := h x u hu
  rw [hu, hv]
  exact Term.same_symm v u hsame

namespace Term

variable {s : String → Option Term}

mutual

/-- Where a substitution fits, matching succeeds, and leaves bindings that the substitution still
agrees with; so an early argument takes nothing away from a later one. -/
theorem exists_matchWith? {b : Bindings} (hb : b.Agrees s) : (p t : Term) →
    (∀ x ∈ p.vars, (s x).isSome = true) → (p.instantiate s).same t = true →
    ∃ b' : Bindings, p.matchWith? t b = some b' ∧ b'.Agrees s
  | .var x, t, hvars, h => by
    obtain ⟨v, hv⟩ := Option.isSome_iff_exists.mp (hvars x (by simp [vars]))
    rw [instantiate, hv, Option.getD_some] at h
    rw [matchWith?]
    cases hx : b.find? x with
    | none =>
      refine ⟨b.put x t, rfl, ?_⟩
      intro y u hu
      rw [Table.find?_put] at hu
      by_cases hy : y = x
      · rw [if_pos hy, Option.some.injEq] at hu
        subst hy hu
        exact ⟨v, hv, h⟩
      · rw [if_neg hy] at hu
        exact hb y u hu
    | some u =>
      obtain ⟨v', hv', hsame⟩ := hb x u hx
      rw [hv, Option.some.injEq] at hv'
      subst hv'
      exact ⟨b, if_pos (same_trans u v t (same_symm v u hsame) h), hb⟩
  | .const a, .const c, _, h => ⟨b, if_pos (same_symm _ _ h), hb⟩
  | .app f ps, .app g ts, hvars, h => by
    simp only [instantiate, same, Bool.and_eq_true, beq_iff_eq] at h
    have hlength := length_of_sameAll h.2
    rw [length_instantiateAll] at hlength
    rw [matchWith?, if_pos ⟨h.1, hlength⟩]
    exact exists_matchAll? hb ps ts hvars h.2
  | .const _, .var _, _, h | .const _, .app _ _, _, h | .app _ _, .const _, _, h
  | .app _ _, .var _, _, h => by simp [instantiate, same] at h

theorem exists_matchAll? {b : Bindings} (hb : b.Agrees s) : (ps ts : List Term) →
    (∀ x ∈ varsAll ps, (s x).isSome = true) → sameAll (instantiateAll s ps) ts = true →
    ∃ b' : Bindings, matchAll? ps ts b = some b' ∧ b'.Agrees s
  | [], [], _, _ => ⟨b, rfl, hb⟩
  | p :: ps, t :: ts, hvars, h => by
    rw [varsAll, List.forall_mem_append] at hvars
    rw [instantiateAll, sameAll, Bool.and_eq_true] at h
    obtain ⟨b₁, hp, hb₁⟩ := exists_matchWith? hb p t hvars.1 h.1
    obtain ⟨b₂, hps, hb₂⟩ := exists_matchAll? hb₁ ps ts hvars.2 h.2
    refine ⟨b₂, ?_, hb₂⟩
    rw [matchAll?, hp]
    exact hps
  | [], _ :: _, _, h | _ :: _, [], _, h => by simp [instantiateAll, sameAll] at h

end

/-- A substitution that agrees with the bindings, has a term for every variable of the pattern,
and makes the pattern equal to the candidate. -/
structure Fits (p t : Term) (b : Bindings) (s : String → Option Term) : Prop where
  agrees : b.Agrees s
  total : ∀ x ∈ p.vars, (s x).isSome = true
  equal : (p.instantiate s == t) = true

theorem fits_of_matchWith? {p t : Term} {b b' : Bindings} (h : p.matchWith? t b = some b') :
    Fits p t b b'.find? where
  agrees _ u hu := ⟨u, (grow_of_matchWith? p t h).find? hu, same_refl u⟩
  total _ hx :=
    Table.mem_names_iff.mp ((grow_of_matchWith? p t h).mem_names.mpr (Or.inr hx))
  equal := instantiate_of_matchWith? p t h

theorem agrees_of_fits {p t : Term} {b b' : Bindings} (h : Fits p t b s)
    (hm : p.matchWith? t b = some b') : b'.Agrees s := by
  obtain ⟨b₁, hm₁, hb₁⟩ := exists_matchWith? h.agrees p t h.total h.equal
  rw [hm, Option.some.injEq] at hm₁
  rwa [hm₁]

/-- Matching succeeds exactly if a substitution fits. Its bindings then keep the given ones, add
the other variables of the pattern in their first order, fit themselves, and are, up to equal
constants, the only ones that do. -/
theorem matchWith?_eq_some_iff_fits (p t : Term) (b : Bindings) :
    ((p.matchWith? t b).isSome = true ↔ ∃ s, Fits p t b s) ∧
    ∀ b', p.matchWith? t b = some b' →
      b.entries <+: b'.entries ∧
      b'.names = b.names ++ (p.vars.filter (· ∉ b.names)).eraseDups ∧
      Fits p t b b'.find? ∧
      ∀ s, Fits p t b s → ∀ x ∈ p.vars, ∃ u v, b'.find? x = some u ∧ s x = some v ∧
        (v == u) = true := by
  constructor
  · constructor
    · intro h
      obtain ⟨b', hb'⟩ := Option.isSome_iff_exists.mp h
      exact ⟨b'.find?, fits_of_matchWith? hb'⟩
    · rintro ⟨s, hs⟩
      obtain ⟨b', hb', -⟩ := exists_matchWith? hs.agrees p t hs.total hs.equal
      rw [hb']
      rfl
  · intro b' h
    have hgrow := grow_of_matchWith? p t h
    refine ⟨hgrow.keeps, hgrow.names_eq, fits_of_matchWith? h, ?_⟩
    intro s hs x hx
    obtain ⟨u, hu⟩ := Option.isSome_iff_exists.mp ((fits_of_matchWith? h).total x hx)
    obtain ⟨v, hv, hsame⟩ := agrees_of_fits hs h x u hu
    exact ⟨u, v, hu, hv, hsame⟩

/-- A name bound before, a repeated variable, and two constants that are the same number. -/
theorem fits_repeated :
    let p := Term.app "f" [.var "x", .var "y", .var "x"]
    let t := Term.app "f" [.const (.int 2), .var "z",
      .const (.float ⟨false, 4503599627370496, -51, by decide⟩)]
    let b : Bindings := Table.ofList [("y", .var "z")]
    ∃ b', p.matchWith? t b = some b' ∧ b'.names = ["y", "x"] ∧ Fits p t b b'.find? := by
  intro p t b
  obtain ⟨b', hb'⟩ := Option.isSome_iff_exists.mp
    (by decide +kernel : (p.matchWith? t b).isSome = true)
  obtain ⟨-, hnames, hfits, -⟩ := (matchWith?_eq_some_iff_fits p t b).2 b' hb'
  exact ⟨b', hb', hnames, hfits⟩

end Term

end Stepwise
