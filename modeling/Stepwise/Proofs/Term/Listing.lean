import Stepwise.Proofs.Term.Position

namespace Stepwise

namespace Term

variable {t u : Term} {path : Path} {d : Nat}

/-- The listed sub-terms whose paths have a length. -/
def ofLength (d : Nat) (ps : List (Path × Term)) : List (Path × Term) :=
  ps.filter fun p => p.1.length = d

theorem ofLength_belowArgument {i : Int} {ps : List (Path × Term)} :
    ofLength (d + 1) (belowArgument i ps) = belowArgument i (ofLength d ps) := by
  rw [ofLength, ofLength, belowArgument, belowArgument, List.filter_map]
  congr 2
  funext p
  simp

theorem head_of_mem_subtermsFrom {i : Int} {args : List Term}
    (h : (path, u) ∈ subtermsFrom i args) : ∃ j rest, path = j :: rest ∧ i ≤ j := by
  induction args generalizing i with
  | nil => cases h
  | cons a args ih =>
    rw [subtermsFrom, List.mem_append, mem_belowArgument] at h
    rcases h with ⟨rest, rfl, -⟩ | h
    · exact ⟨i, rest, rfl, Int.le_refl i⟩
    · obtain ⟨j, rest, rfl, hj⟩ := ih h
      exact ⟨j, rest, rfl, by omega⟩

/-- No argument is at the root. -/
theorem ofLength_zero_subtermsFrom {i : Int} {args : List Term} :
    ofLength 0 (subtermsFrom i args) = [] := by
  rw [ofLength, List.filter_eq_nil_iff]
  rintro ⟨path, u⟩ h
  obtain ⟨j, rest, rfl, -⟩ := head_of_mem_subtermsFrom h
  simp

mutual

theorem ofLength_subterms (d : Nat) : (t : Term) → ofLength d t.subterms = t.atDepth d
  | .const _ | .var _ => by cases d <;> rfl
  | .app f args => by
    cases d with
    | zero =>
      have hroot : ofLength 0 (app f args).subterms =
          ([], .app f args) :: ofLength 0 (subtermsFrom 0 args) := by simp [subterms, ofLength]
      rw [hroot, ofLength_zero_subtermsFrom, atDepth_zero]
    | succ d =>
      have hargs : ofLength (d + 1) (app f args).subterms =
          ofLength (d + 1) (subtermsFrom 0 args) := by simp [subterms, ofLength]
      rw [hargs, ofLength_subtermsFrom d 0 args, atDepth_app_succ]

theorem ofLength_subtermsFrom (d : Nat) (i : Int) :
    (args : List Term) → ofLength (d + 1) (subtermsFrom i args) = atDepthFrom i args d
  | [] => rfl
  | a :: args => by
    have hsplit : ofLength (d + 1) (subtermsFrom i (a :: args)) =
        ofLength (d + 1) (belowArgument i a.subterms) ++
          ofLength (d + 1) (subtermsFrom (i + 1) args) := List.filter_append _ _
    rw [hsplit, ofLength_belowArgument, ofLength_subterms d a,
      ofLength_subtermsFrom d (i + 1) args, atDepthFrom]

end

theorem mem_subterms : (path, u) ∈ t.subterms ↔ Occurs t path u := by
  have hdepth : (path, u) ∈ t.atDepth path.length ↔ _ := mem_atDepth
  rw [← ofLength_subterms, ofLength, List.mem_filter] at hdepth
  simpa using hdepth

mutual

theorem pairwise_subterms : (t : Term) → (t.subterms.map Prod.fst).Pairwise (· < ·)
  | .const _ | .var _ => List.pairwise_singleton _ _
  | .app f args => by
    rw [subterms, List.map_cons, List.pairwise_cons]
    refine ⟨?_, pairwise_subtermsFrom 0 args⟩
    intro path hpath
    obtain ⟨⟨path, u⟩, hmem, rfl⟩ := List.mem_map.mp hpath
    obtain ⟨j, rest, rfl, -⟩ := head_of_mem_subtermsFrom hmem
    exact List.nil_lt_cons j rest

theorem pairwise_subtermsFrom (i : Int) :
    (args : List Term) → ((subtermsFrom i args).map Prod.fst).Pairwise (· < ·)
  | [] => List.Pairwise.nil
  | a :: args => by
    rw [subtermsFrom, List.map_append, List.pairwise_append]
    refine ⟨pairwise_belowArgument (pairwise_subterms a), pairwise_subtermsFrom (i + 1) args, ?_⟩
    intro path hpath path' hpath'
    obtain ⟨⟨path, u⟩, hmem, rfl⟩ := List.mem_map.mp hpath
    obtain ⟨⟨path', u'⟩, hmem', rfl⟩ := List.mem_map.mp hpath'
    obtain ⟨rest, rfl, -⟩ := mem_belowArgument.mp hmem
    obtain ⟨j, rest', rfl, hj⟩ := head_of_mem_subtermsFrom hmem'
    exact List.Lex.rel (by omega)

end

theorem Occurs.nonnegative (h : Occurs t path u) : ∀ i ∈ path, 0 ≤ i := by
  induction h with
  | root => simp
  | argument arg rest ih =>
    rw [List.forall_mem_cons]
    exact ⟨Int.natCast_nonneg _, ih⟩

/-- Without negative indices a path is followed from argument to argument. -/
theorem follow_eq_ok_iff {whole : Term} {full : Path} (h : ∀ i ∈ path, 0 ≤ i) :
    follow whole full t path = .ok u ↔ Occurs t path u := by
  induction path generalizing t with
  | nil =>
    rw [follow.eq_def]
    constructor
    · rintro ⟨⟩
      exact .root
    · rintro ⟨⟩
      rfl
  | cons i path ih =>
    rw [List.forall_mem_cons] at h
    obtain ⟨k, rfl⟩ := Int.eq_ofNat_of_zero_le h.1
    cases t with
    | const a => exact ⟨nofun, nofun⟩
    | var x => exact ⟨nofun, nofun⟩
    | app f args =>
      have hnegative : ¬ (k : Int) < 0 := by omega
      have hbefore : ¬ (k : Int) < -args.length := by omega
      rw [follow, if_neg hbefore, if_neg hnegative, Int.toNat_natCast]
      cases harg : args[k]? with
      | none =>
        refine ⟨nofun, fun hoccurs => ?_⟩
        cases hoccurs with
        | argument arg rest =>
          rw [harg] at arg
          cases arg
      | some a =>
        refine (ih h.2).trans ⟨.argument harg, fun hoccurs => ?_⟩
        cases hoccurs with
        | argument arg rest =>
          rw [harg, Option.some_inj] at arg
          exact arg ▸ rest

theorem occurs_iff_subtermAt :
    Occurs t path u ↔ (∀ i ∈ path, 0 ≤ i) ∧ t.subtermAt path = .ok u := by
  constructor
  · intro h
    exact ⟨h.nonnegative, (follow_eq_ok_iff h.nonnegative).mpr h⟩
  · rintro ⟨hpath, h⟩
    exact (follow_eq_ok_iff hpath).mp h

/-- Some argument is as high as the arguments are together. -/
theorem exists_height_eq {args : List Term} (h : args ≠ []) :
    ∃ (k : Nat) (a : Term), args[k]? = some a ∧ a.height = heightAll args := by
  induction args with
  | nil => exact absurd rfl h
  | cons a args ih =>
    rw [heightAll]
    rcases Nat.le_total (heightAll args) a.height with hfirst | hlater
    · exact ⟨0, a, rfl, (Nat.max_eq_left hfirst).symm⟩
    · cases args with
      | nil => exact ⟨0, a, rfl, (Nat.max_eq_left (Nat.zero_le _)).symm⟩
      | cons b args =>
        obtain ⟨k, c, hk, hc⟩ := ih (List.cons_ne_nil b args)
        exact ⟨k + 1, c, hk, by rw [hc, Nat.max_eq_right hlater]⟩

theorem exists_occurs_of_le_height (h : d ≤ t.height) :
    ∃ path u, Occurs t path u ∧ path.length = d := by
  induction d generalizing t with
  | zero => exact ⟨[], t, .root, rfl⟩
  | succ d ih =>
    cases t with
    | const a => cases h
    | var x => cases h
    | app f args =>
      cases args with
      | nil => cases h
      | cons a args =>
        obtain ⟨k, b, hk, hb⟩ := exists_height_eq (List.cons_ne_nil a args)
        rw [height, ← hb] at h
        obtain ⟨path, u, hoccurs, hlength⟩ := ih (show d ≤ b.height by omega)
        exact ⟨k :: path, u, .argument hk hoccurs, by rw [List.length_cons, hlength]⟩

theorem atDepth_ne_nil_iff : t.atDepth d ≠ [] ↔ d ≤ t.height := by
  constructor
  · intro h
    obtain ⟨⟨path, u⟩, hmem⟩ := List.exists_mem_of_ne_nil _ h
    obtain ⟨hoccurs, rfl⟩ := mem_atDepth.mp hmem
    exact hoccurs.length_le_height
  · intro h
    obtain ⟨path, u, hoccurs, hlength⟩ := exists_occurs_of_le_height h
    exact List.ne_nil_of_mem (mem_atDepth.mpr ⟨hoccurs, hlength⟩)

/-- The listing of all sub-terms holds each path without negative indices that leads somewhere, with
the sub-term it leads to, and its paths ascend, a path in front of those that go on from it. The
listing at a depth is the part of it with paths of that length, which is empty only below the
deepest sub-term. -/
theorem subterms_enumerate (t : Term) :
    (∀ path u, (path, u) ∈ t.subterms ↔ (∀ i ∈ path, 0 ≤ i) ∧ t.subtermAt path = .ok u) ∧
    (t.subterms.map Prod.fst).Pairwise (· < ·) ∧
    ∀ d : Nat, t.atDepth d = t.subterms.filter (fun p => p.1.length = d) ∧
      (t.atDepth d ≠ [] ↔ d ≤ t.height) := by
  refine ⟨?_, pairwise_subterms t, ?_⟩
  · intro path u
    exact mem_subterms.trans occurs_iff_subtermAt
  · intro d
    exact ⟨(ofLength_subterms d t).symm, atDepth_ne_nil_iff⟩

end Term

end Stepwise
