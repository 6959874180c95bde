import Stepwise.Term.Position

namespace Stepwise

namespace Term

/-- The path leads from the term to the sub-term. -/
inductive Occurs : Term → Path → Term → Prop
  | root {t : Term} : Occurs t [] t
  | argument {f : String} {args : List Term} {k : Nat} {a u : Term} {path : Path}
      (arg : args[k]? = some a) (rest : Occurs a path u) : Occurs (.app f args) (k :: path) u

theorem occurs_app_cons_iff {f : String} {args : List Term} {i : Int} {path : Path} {u : Term} :
    Occurs (.app f args) (i :: path) u ↔
      ∃ (k : Nat) (a : Term), i = k ∧ args[k]? = some a ∧ Occurs a path u := by
  constructor
  · intro h
    cases h with
    | argument arg rest => exact ⟨_, _, rfl, arg, rest⟩
  · rintro ⟨k, a, rfl, arg, rest⟩
    exact .argument arg rest

theorem occurs_argument_iff {f : String} {args : List Term} {k : Nat} {a u : Term} {path : Path}
    (h : args[k]? = some a) : Occurs (.app f args) (k :: path) u ↔ Occurs a path u := by
  constructor
  · intro hoccurs
    cases hoccurs with
    | argument arg rest =>
      rw [h, Option.some_inj] at arg
      exact arg ▸ rest
  · exact .argument h

theorem Occurs.unique {t u v : Term} {path : Path} (hu : Occurs t path u) (hv : Occurs t path v) :
    u = v := by
  induction hu with
  | root =>
    cases hv
    rfl
  | argument arg rest ih => exact ih ((occurs_argument_iff arg).mp hv)

theorem atDepth_zero (t : Term) : t.atDepth 0 = [([], t)] := by
  cases t <;> rfl

theorem atDepth_app_succ (f : String) (args : List Term) (d : Nat) :
    (app f args).atDepth (d + 1) = atDepthFrom 0 args d := rfl

theorem mem_belowArgument {i : Int} {ps : List (Path × Term)} {path : Path} {u : Term} :
    (path, u) ∈ belowArgument i ps ↔ ∃ rest, path = i :: rest ∧ (rest, u) ∈ ps := by
  simp only [belowArgument, List.mem_map, Prod.mk.injEq, Prod.exists]
  constructor
  · rintro ⟨rest, v, h, rfl, rfl⟩
    exact ⟨rest, rfl, h⟩
  · rintro ⟨rest, rfl, h⟩
    exact ⟨rest, u, h, rfl, rfl⟩

theorem mem_atDepthFrom {i : Int} {args : List Term} {d : Nat} {path : Path} {u : Term} :
    (path, u) ∈ atDepthFrom i args d ↔ ∃ (k : Nat) (a : Term) (rest : Path),
      args[k]? = some a ∧ path = (i + k) :: rest ∧ (rest, u) ∈ a.atDepth d := by
  induction args generalizing i with
  | nil => simp [atDepthFrom]
  | cons a as ih =>
    rw [atDepthFrom, List.mem_append, mem_belowArgument, ih]
    constructor
    · rintro (⟨rest, rfl, h⟩ | ⟨k, b, rest, hk, rfl, h⟩)
      · exact ⟨0, a, rest, rfl, by simp, h⟩
      · exact ⟨k + 1, b, rest, by simpa using hk, by simp; omega, h⟩
    · rintro ⟨k, b, rest, hk, rfl, h⟩
      cases k with
      | zero =>
        rw [List.getElem?_cons_zero, Option.some.injEq] at hk
        subst hk
        exact Or.inl ⟨rest, by simp, h⟩
      | succ k => exact Or.inr ⟨k, b, rest, by simpa using hk, by simp; omega, h⟩

/-- The listing at a depth holds the sub-terms whose paths have that length. -/
theorem mem_atDepth {t u : Term} {d : Nat} {path : Path} :
    (path, u) ∈ t.atDepth d ↔ Occurs t path u ∧ path.length = d := by
  induction d generalizing t path with
  | zero =>
    rw [atDepth_zero, List.mem_singleton, Prod.mk.injEq, List.length_eq_zero_iff]
    constructor
    · rintro ⟨rfl, rfl⟩
      exact ⟨.root, rfl⟩
    · rintro ⟨h, rfl⟩
      cases h
      exact ⟨rfl, rfl⟩
  | succ d ih =>
    cases t with
    | app f args =>
      rw [atDepth_app_succ, mem_atDepthFrom]
      constructor
      · rintro ⟨k, a, rest, hk, rfl, h⟩
        obtain ⟨hrest, hlength⟩ := ih.mp h
        rw [Int.zero_add]
        exact ⟨.argument hk hrest, by rw [List.length_cons, hlength]⟩
      · rintro ⟨h, hlength⟩
        cases h with
        | root => cases hlength
        | argument hk hrest =>
          exact ⟨_, _, _, hk, by rw [Int.zero_add], ih.mpr ⟨hrest, Nat.succ.inj hlength⟩⟩
    | const a =>
      constructor
      · intro h
        simp [atDepth] at h
      · rintro ⟨h, hlength⟩
        cases h
        cases hlength
    | var x =>
      constructor
      · intro h
        simp [atDepth] at h
      · rintro ⟨h, hlength⟩
        cases h
        cases hlength

theorem height_le_heightAll {args : List Term} {k : Nat} {a : Term} (h : args[k]? = some a) :
    a.height ≤ heightAll args := by
  induction args generalizing k with
  | nil => simp at h
  | cons b args ih =>
    rw [heightAll]
    cases k with
    | zero =>
      rw [List.getElem?_cons_zero, Option.some.injEq] at h
      rw [h]
      exact Nat.le_max_left _ _
    | succ k =>
      rw [List.getElem?_cons_succ] at h
      exact Nat.le_trans (ih h) (Nat.le_max_right _ _)

theorem Occurs.length_le_height {t u : Term} {path : Path} (h : Occurs t path u) :
    path.length ≤ t.height := by
  induction h with
  | root => exact Nat.zero_le _
  | @argument f args k a u path hk rest ih =>
    have ha := height_le_heightAll hk
    cases args with
    | nil => simp at hk
    | cons b args =>
      rw [height, List.length_cons]
      omega

theorem pairwise_belowArgument {i : Int} {ps : List (Path × Term)}
    (h : (ps.map Prod.fst).Pairwise (· < ·)) :
    ((belowArgument i ps).map Prod.fst).Pairwise (· < ·) := by
  rw [belowArgument, List.map_map]
  rw [List.pairwise_map] at h ⊢
  exact h.imp fun hlt => List.cons_lt_cons_self.mpr hlt

theorem head_of_mem_atDepthFrom {i : Int} {args : List Term} {d : Nat} {path : Path}
    (h : path ∈ (atDepthFrom i args d).map Prod.fst) : ∃ j rest, path = j :: rest ∧ i ≤ j := by
  obtain ⟨⟨path, u⟩, hmem, rfl⟩ := List.mem_map.mp h
  obtain ⟨k, a, rest, -, rfl, -⟩ := mem_atDepthFrom.mp hmem
  exact ⟨i + k, rest, rfl, by omega⟩

theorem pairwise_atDepthFrom {i : Int} {args : List Term} {d : Nat}
    (h : ∀ a ∈ args, ((a.atDepth d).map Prod.fst).Pairwise (· < ·)) :
    ((atDepthFrom i args d).map Prod.fst).Pairwise (· < ·) := by
  induction args generalizing i with
  | nil => exact List.Pairwise.nil
  | cons a as ih =>
    rw [List.forall_mem_cons] at h
    rw [atDepthFrom, List.map_append, List.pairwise_append]
    refine ⟨pairwise_belowArgument h.1, ih h.2, ?_⟩
    intro path hpath path' hpath'
    obtain ⟨⟨path, u⟩, hmem, rfl⟩ := List.mem_map.mp hpath
    obtain ⟨rest, rfl, -⟩ := mem_belowArgument.mp hmem
    obtain ⟨j, rest', rfl, hj⟩ := head_of_mem_atDepthFrom hpath'
    exact List.Lex.rel (by omega)

/-- The paths are listed in lexicographic order. -/
theorem pairwise_atDepth (t : Term) (d : Nat) :
    ((t.atDepth d).map Prod.fst).Pairwise (· < ·) := by
  induction d generalizing t with
  | zero =>
    rw [atDepth_zero]
    exact List.pairwise_singleton _ _
  | succ d ih =>
    cases t with
    | app f args => exact pairwise_atDepthFrom fun a _ => ih a
    | const a => exact List.Pairwise.nil
    | var x => exact List.Pairwise.nil

/-- The images of the listed terms that have one, at the same paths. -/
def imagesOf (g : Term → Option Term) (ps : List (Path × Term)) : List (Path × Term) :=
  ps.filterMap fun p => (g p.2).map fun v => (p.1, v)

variable {g : Term → Option Term} {i : Int} {ps qs : List (Path × Term)}

theorem imagesOf_append : imagesOf g (ps ++ qs) = imagesOf g ps ++ imagesOf g qs :=
  List.filterMap_append

theorem imagesOf_belowArgument :
    imagesOf g (belowArgument i ps) = belowArgument i (imagesOf g ps) := by
  rw [imagesOf, imagesOf, belowArgument, belowArgument, List.filterMap_map, List.map_filterMap]
  congr 1
  funext p
  simp only [Function.comp_apply]
  cases g p.2 <;> rfl

theorem replacementsBelow_append : replacementsBelow i (ps ++ qs) =
    replacementsBelow i ps ++ replacementsBelow i qs := List.filterMap_append

theorem replacementsBelow_belowArgument_self :
    replacementsBelow i (belowArgument i ps) = ps := by
  rw [replacementsBelow, belowArgument, List.filterMap_map]
  refine Eq.trans (congrArg (fun f => List.filterMap f ps) ?_) List.filterMap_some
  funext p
  exact if_pos rfl

theorem replacementsBelow_eq_nil (h : ∀ p ∈ ps, ∃ j rest, p.1 = j :: rest ∧ j ≠ i) :
    replacementsBelow i ps = [] := by
  rw [replacementsBelow, List.filterMap_eq_nil_iff]
  rintro ⟨path, u⟩ hp
  obtain ⟨j, rest, rfl, hj⟩ := h _ hp
  exact if_neg hj

theorem rootReplacement?_eq_none (h : ∀ p ∈ ps, ∃ j rest, p.1 = j :: rest) :
    rootReplacement? ps = none := by
  rw [rootReplacement?, Option.map_eq_none_iff, List.find?_eq_none]
  rintro ⟨path, u⟩ hp
  obtain ⟨j, rest, rfl⟩ := h _ (List.mem_reverse.mp hp)
  simp

mutual

theorem replace_nil : (t : Term) → t.replace [] = t
  | .const _ | .var _ => rfl
  | .app f args => by
    rw [replace, replaceFrom_nil 0 args]
    rfl

theorem replaceFrom_nil (i : Int) : (args : List Term) → replaceFrom i args [] = args
  | [] => rfl
  | a :: args => by
    rw [replaceFrom, replaceFrom_nil (i + 1) args]
    exact congrArg (· :: args) (replace_nil a)

end

theorem replace_root (t u : Term) : t.replace [([], u)] = u := by
  cases t <;> rfl

theorem head_of_mem_imagesOf {args : List Term} {d : Nat} {p : Path × Term}
    (h : p ∈ imagesOf g (atDepthFrom i args d)) : ∃ j rest, p.1 = j :: rest ∧ i ≤ j := by
  obtain ⟨q, hq, hp⟩ := List.mem_filterMap.mp h
  obtain ⟨v, -, rfl⟩ := Option.map_eq_some_iff.mp hp
  have hpath : q.1 ∈ (atDepthFrom i args d).map Prod.fst := List.mem_map_of_mem hq
  exact head_of_mem_atDepthFrom hpath

/-- Going on to the next argument, what was listed for the earlier ones is out of reach. -/
theorem replaceFrom_atDepthFrom {d : Nat} {r : Term → Term} {args : List Term}
    {earlier : List (Path × Term)} (ih : ∀ a ∈ args, a.replace (imagesOf g (a.atDepth d)) = r a)
    (he : ∀ p ∈ earlier, ∃ j rest, p.1 = j :: rest ∧ j < i) :
    replaceFrom i args (earlier ++ imagesOf g (atDepthFrom i args d)) = args.map r := by
  induction args generalizing i earlier with
  | nil => rfl
  | cons a as iha =>
    rw [List.forall_mem_cons] at ih
    rw [atDepthFrom, imagesOf_append, imagesOf_belowArgument, ← List.append_assoc, replaceFrom,
      List.map_cons]
    congr 1
    · have hearlier : replacementsBelow i earlier = [] :=
        replacementsBelow_eq_nil fun p hp => by
          obtain ⟨j, rest, hpath, hj⟩ := he p hp
          exact ⟨j, rest, hpath, by omega⟩
      have hlater : replacementsBelow i (imagesOf g (atDepthFrom (i + 1) as d)) = [] :=
        replacementsBelow_eq_nil fun p hp => by
          obtain ⟨j, rest, hpath, hj⟩ := head_of_mem_imagesOf hp
          exact ⟨j, rest, hpath, by omega⟩
      rw [replacementsBelow_append, replacementsBelow_append, hearlier, hlater,
        replacementsBelow_belowArgument_self, List.nil_append, List.append_nil]
      exact ih.1
    · apply iha ih.2
      intro p hp
      rcases List.mem_append.mp hp with hp | hp
      · obtain ⟨j, rest, hpath, hj⟩ := he p hp
        exact ⟨j, rest, hpath, by omega⟩
      · obtain ⟨rest, hpath, -⟩ := mem_belowArgument.mp hp
        exact ⟨i, rest, hpath, by omega⟩

end Term

end Stepwise
