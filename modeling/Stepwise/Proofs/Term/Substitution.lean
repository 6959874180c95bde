import Stepwise.Proofs.Term.Equality
import Stepwise.Proofs.Term.Replacing

namespace Stepwise

section Entries

variable {α β : Type}

theorem lookup_map_value (f : α → β) (entries : List (String × α)) (name : String) :
    (entries.map fun e => (e.1, f e.2)).lookup name = (entries.lookup name).map f := by
  induction entries with
  | nil => rfl
  | cons entry entries ih =>
    rw [List.map_cons, List.lookup_cons, List.lookup_cons, ih]
    cases name == entry.1 <;> rfl

/-- Entries under other names do not matter. -/
theorem lookup_filter_name {p : String → Bool} {name : String} (h : p name = true)
    (entries : List (String × α)) :
    (entries.filter fun e => p e.1).lookup name = entries.lookup name := by
  induction entries with
  | nil => rfl
  | cons entry entries ih =>
    obtain ⟨key, value⟩ := entry
    rw [List.filter_cons, List.lookup_cons, ← ih]
    cases hp : p key with
    | true => rw [if_pos rfl, List.lookup_cons]
    | false =>
      have hne : (name == key) = false := by
        rw [beq_eq_false_iff_ne]
        rintro rfl
        exact absurd h (by simp [hp])
      rw [if_neg Bool.false_ne_true, hne]

end Entries

namespace Bindings

/-- One substitution after another, as one: what the first has for a name is instantiated by the
second, and left to the second are the names that the first does not bind. -/
def followedBy (a b : Bindings) : Bindings where
  entries := a.entries.map (fun e => (e.1, Term.instantiate b.find? e.2)) ++
    b.entries.filter fun e => e.1 ∉ a.names
  nodup := by
    rw [List.map_append, List.map_map, List.nodup_append]
    refine ⟨a.nodup, b.nodup.sublist (List.filter_sublist.map _), ?_⟩
    rintro x hx _ hy rfl
    obtain ⟨e, he, rfl⟩ := List.mem_map.mp hy
    simp only [List.mem_filter, decide_eq_true_eq] at he
    exact he.2 hx

theorem find?_followedBy (a b : Bindings) (x : String) : (a.followedBy b).find? x =
    ((a.find? x).map (Term.instantiate b.find?)).or (b.find? x) := by
  have hfirst := lookup_map_value (Term.instantiate b.find?) a.entries x
  rw [Table.find?, followedBy, List.lookup_append, hfirst, ← Table.find?]
  cases hx : a.find? x with
  | some u => rfl
  | none =>
    refine lookup_filter_name (p := fun y => y ∉ a.names) ?_ b.entries
    simp [Table.mem_names_iff, hx]

end Bindings

namespace Term

variable {p q t u : Term} {path : Path} {s : String → Option Term}

/-- One substitution after another is one substitution; a name that the first does not bind is left
to the second. -/
theorem instantiate_instantiate (s θ : String → Option Term) (t : Term) :
    (t.instantiate s).instantiate θ =
      t.instantiate fun x => ((s x).map (instantiate θ)).or (θ x) := by
  induction t using induction with
  | const a => rfl
  | var x =>
    rw [instantiate, instantiate]
    cases s x <;> rfl
  | app f args ih =>
    rw [instantiate, instantiate, instantiate, instantiateAll_eq_map, instantiateAll_eq_map,
      instantiateAll_eq_map, List.map_map]
    exact congrArg (app f) (List.map_congr_left ih)

/-- A sub-term keeps its place, and is instantiated there. -/
theorem Occurs.instantiate (h : Occurs t path u) (θ : String → Option Term) :
    Occurs (t.instantiate θ) path (u.instantiate θ) := by
  induction h with
  | root => exact .root
  | argument arg rest ih =>
    rw [Term.instantiate, instantiateAll_eq_map]
    exact .argument (by rw [List.getElem?_map, arg, Option.map_some]) ih

/-- What makes a pattern equal to a term, instantiated itself, makes it equal to the instance. -/
theorem Fits.instantiate (h : Fits p t ∅ s) (θ : String → Option Term) :
    Fits p (t.instantiate θ) ∅ fun x => ((s x).map (Term.instantiate θ)).or (θ x) where
  agrees x u hu := by cases hu
  total x hx := by
    obtain ⟨u, hu⟩ := Option.isSome_iff_exists.mp (h.total x hx)
    rw [hu]
    rfl
  equal := by
    rw [← instantiate_instantiate]
    exact instantiate_of_same h.equal fun x _ => same_refl _

/-- A term that some substitution makes a pattern equal to is matched, by terms equal to those of the
substitution. -/
theorem match?_of_fits (h : Fits p t ∅ s) : ∃ b : Bindings, p.match? t = some b ∧ b.Agrees s :=
  exists_matchWith? h.agrees p t h.total h.equal

/-- What matches a pattern matches all that the pattern matches, and binds its variables to the
instances of what they were bound to. -/
theorem match?_trans {b b' : Bindings} (h : p.match? q = some b) (h' : q.match? t = some b') :
    ∃ c, p.match? t = some c ∧ ∀ x ∈ p.vars, ∃ u v, b.find? x = some u ∧ c.find? x = some v ∧
      (v == u.instantiate b'.find?) = true := by
  have hfits : Fits p q ∅ b.find? := fits_of_matchWith? h
  have hequal : (q.instantiate b'.find?).same t = true := (fits_of_matchWith? h').equal
  obtain ⟨c, hc, hagrees⟩ := match?_of_fits ((hfits.instantiate b'.find?).of_same (same_refl p) hequal)
  refine ⟨c, hc, fun x hx => ?_⟩
  obtain ⟨u, hu⟩ := Option.isSome_iff_exists.mp (hfits.total x hx)
  obtain ⟨v, hv⟩ := Option.isSome_iff_exists.mp ((fits_of_matchWith? hc).total x hx)
  obtain ⟨w, hw, hsame⟩ := hagrees x v hv
  simp only [hu, Option.map_some, Option.some_or, Option.some.injEq] at hw
  subst hw
  exact ⟨u, v, hu, hv, same_symm _ _ hsame⟩

/-- Two substitutions, one after the other, are the one that instantiates the terms of the first and
leaves to the second what the first does not bind; what has been put for a variable stands as it is
where the variable stood. And matching is transitive, with the same composition of the bindings. -/
theorem instantiate_followedBy_and_match?_trans :
    (∀ (t : Term) (a b : Bindings), (t.instantiate a.find?).instantiate b.find? =
      t.instantiate (a.followedBy b).find?) ∧
    (∀ (a b : Bindings) (x : String), (a.followedBy b).find? x =
      ((a.find? x).map (Term.instantiate b.find?)).or (b.find? x)) ∧
    (∀ (t u : Term) (a : Bindings) (path : Path) (x : String), Occurs t path (.var x) →
      a.find? x = some u → Occurs (t.instantiate a.find?) path u) ∧
    ∀ (p q t : Term) (b b' : Bindings), p.match? q = some b → q.match? t = some b' →
      ∃ c, p.match? t = some c ∧ ∀ x ∈ p.vars, ∃ u v, b.find? x = some u ∧ c.find? x = some v ∧
        (v == u.instantiate b'.find?) = true := by
  refine ⟨fun t a b => ?_, Bindings.find?_followedBy, fun t u a path x hx hu => ?_,
    fun p q t b b' => match?_trans⟩
  · have hfind : (a.followedBy b).find? = fun x =>
        ((a.find? x).map (Term.instantiate b.find?)).or (b.find? x) :=
      funext (Bindings.find?_followedBy a b)
    rw [hfind, instantiate_instantiate]
  · have hoccurs := hx.instantiate a.find?
    rwa [Term.instantiate, hu] at hoccurs

/-- The inserted terms have the names that are bound, and a repeated variable meets `2` and `2.0`. -/
theorem instantiate_followedBy_and_match?_trans_exchanged :
    let a : Bindings := Table.ofList [("x", .app "g" [.var "y", .var "x"]), ("y", .var "x")]
    let b : Bindings := Table.ofList [("y", .const (.int 1)), ("x", .var "z"), ("z", .var "x")]
    let t := Term.app "f" [.var "x", .var "y", .var "z"]
    let p := Term.app "f" [.var "x", .var "x"]
    let q := Term.app "f" [.app "g" [.var "y"], .app "g" [.var "y"]]
    let r := Term.app "f" [.app "g" [.const (.int 2)],
      .app "g" [.const (.float ⟨false, 4503599627370496, -51, by decide⟩)]]
    (t.instantiate a.find?).instantiate b.find? = t.instantiate (a.followedBy b).find? ∧
      Occurs (t.instantiate a.find?) [0] (.app "g" [.var "y", .var "x"]) ∧
      ∃ m m' c, p.match? q = some m ∧ q.match? r = some m' ∧ p.match? r = some c ∧
        ∃ u v, m.find? "x" = some u ∧ c.find? "x" = some v ∧
          (v == u.instantiate m'.find?) = true := by
  intro a b t p q r
  obtain ⟨hcompose, -, hplace, htrans⟩ := instantiate_followedBy_and_match?_trans
  obtain ⟨m, hm⟩ := Option.isSome_iff_exists.mp (by decide +kernel : (p.match? q).isSome = true)
  obtain ⟨m', hm'⟩ := Option.isSome_iff_exists.mp (by decide +kernel : (q.match? r).isSome = true)
  obtain ⟨c, hc, hvars⟩ := htrans p q r m m' hm hm'
  exact ⟨hcompose t a b, hplace t _ a [0] "x" (.argument rfl .root) rfl, m, m', c, hm, hm', hc,
    hvars "x" (by decide)⟩

end Term

end Stepwise
