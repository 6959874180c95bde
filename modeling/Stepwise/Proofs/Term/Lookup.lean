import Stepwise.Proofs.Term.Replacing

namespace Stepwise

namespace Term

/-- The path leads to the sub-term at the position: an index counts from the first argument on, or
back from behind the last one. -/
inductive Reaches : Term → Path → Path → Term → Prop
  | root {t : Term} : Reaches t [] [] t
  | argument {f : String} {args : List Term} {i : Int} {k : Nat} {a u : Term} {path position : Path}
      (arg : args[k]? = some a) (index : i = k ∨ i = (k : Int) - args.length)
      (rest : Reaches a path position u) : Reaches (.app f args) (i :: path) (k :: position) u

/-- Why a node has no argument for an index, while a path is looked up in a term. -/
inductive Stops (whole : Term) (full : Path) : Term → Int → PathError → Prop
  | atom {v : Term} {i : Int} (atom : v.isAtom = true) :
      Stops whole full v i (.noSubterm full whole)
  | behindLast {f : String} {args : List Term} {i : Int} (behind : args.length ≤ i) :
      Stops whole full (.app f args) i (.noSubterm full whole)
  | beforeFirst {f : String} {args : List Term} {i : Int} (before : i < -args.length) :
      Stops whole full (.app f args) i .beforeFirst

variable {whole t u v : Term} {full path position rest : Path} {i : Int} {e : PathError}

theorem Reaches.occurs (h : Reaches t path position u) : Occurs t position u := by
  induction h with
  | root => exact .root
  | argument arg index rest ih => exact .argument arg ih

theorem follow_argument {f : String} {args : List Term} {k : Nat} {a : Term}
    (arg : args[k]? = some a) (index : i = k ∨ i = (k : Int) - args.length) :
    follow whole full (.app f args) (i :: path) = follow whole full a path := by
  obtain ⟨hk, -⟩ := List.getElem?_eq_some_iff.mp arg
  have hbefore : ¬ i < -args.length := by omega
  have hindex : (if i < 0 then i + args.length else i).toNat = k := by
    split <;> omega
  rw [follow, if_neg hbefore, hindex, arg]

theorem Reaches.follow_append (h : Reaches t path position u) (whole : Term) (full rest : Path) :
    follow whole full t (path ++ rest) = follow whole full u rest := by
  induction h with
  | root => rfl
  | argument arg index _ ih => rw [List.cons_append, follow_argument arg index, ih]

theorem follow_of_stops (h : Stops whole full v i e) :
    follow whole full v (i :: rest) = .error e := by
  cases h with
  | atom hatom => cases v <;> first | rfl | cases hatom
  | @behindLast f args i hbehind =>
    have hbefore : ¬ i < -args.length := by omega
    have hnegative : ¬ i < 0 := by omega
    have hnone : args[i.toNat]? = none := List.getElem?_eq_none (by omega)
    rw [follow, if_neg hbefore, if_neg hnegative, hnone]
  | beforeFirst hbefore => rw [follow, if_pos hbefore]

/-- The path is followed to its end, or some index of it stops at a node. -/
theorem reaches_or_stops (whole : Term) (full : Path) (t : Term) (path : Path) :
    (∃ position u, Reaches t path position u) ∨
      ∃ front i rest position v e, path = front ++ i :: rest ∧ Reaches t front position v ∧
        Stops whole full v i e := by
  induction path generalizing t with
  | nil => exact Or.inl ⟨[], t, .root⟩
  | cons i path ih =>
    cases t with
    | const a => exact Or.inr ⟨[], i, path, [], _, _, rfl, .root, .atom rfl⟩
    | var x => exact Or.inr ⟨[], i, path, [], _, _, rfl, .root, .atom rfl⟩
    | app f args =>
      by_cases hbehind : args.length ≤ i
      · exact Or.inr ⟨[], i, path, [], _, _, rfl, .root, .behindLast hbehind⟩
      by_cases hbefore : i < -args.length
      · exact Or.inr ⟨[], i, path, [], _, _, rfl, .root, .beforeFirst hbefore⟩
      obtain ⟨k, hk, index⟩ :
          ∃ k, k < args.length ∧ (i = (k : Int) ∨ i = (k : Int) - args.length) := by
        rcases Int.lt_or_le i 0 with hnegative | hnonnegative
        · exact ⟨(i + args.length).toNat, by omega, by omega⟩
        · exact ⟨i.toNat, by omega, by omega⟩
      have arg : args[k]? = some args[k] := List.getElem?_eq_getElem hk
      rcases ih args[k] with ⟨position, u, hreaches⟩ |
        ⟨front, j, rest, position, v, e, rfl, hreaches, hstops⟩
      · exact Or.inl ⟨k :: position, u, .argument arg index hreaches⟩
      · exact Or.inr ⟨i :: front, j, rest, k :: position, v, e, rfl,
          .argument arg index hreaches, hstops⟩

theorem follow_of_reaches (h : Reaches t path position u) :
    follow whole full t path = .ok u := by
  have happend := h.follow_append whole full []
  rw [List.append_nil, follow.eq_1] at happend
  exact happend

theorem follow_eq_ok_iff_reaches :
    follow whole full t path = .ok u ↔ ∃ position, Reaches t path position u := by
  constructor
  · intro h
    rcases reaches_or_stops whole full t path with ⟨position, v, hreaches⟩ |
      ⟨front, i, rest, position, v, e, rfl, hreaches, hstops⟩
    · rw [follow_of_reaches hreaches, Except.ok.injEq] at h
      exact ⟨position, h ▸ hreaches⟩
    · rw [hreaches.follow_append, follow_of_stops hstops] at h
      cases h
  · rintro ⟨position, h⟩
    exact follow_of_reaches h

theorem follow_eq_error_iff :
    follow whole full t path = .error e ↔ ∃ front i rest position v,
      path = front ++ i :: rest ∧ Reaches t front position v ∧ Stops whole full v i e := by
  constructor
  · intro h
    rcases reaches_or_stops whole full t path with ⟨position, v, hreaches⟩ |
      ⟨front, i, rest, position, v, e', rfl, hreaches, hstops⟩
    · rw [follow_of_reaches hreaches] at h
      cases h
    · rw [hreaches.follow_append, follow_of_stops hstops, Except.error.injEq] at h
      exact ⟨front, i, rest, position, v, rfl, hreaches, h ▸ hstops⟩
  · rintro ⟨front, i, rest, position, v, rfl, hreaches, hstops⟩
    rw [hreaches.follow_append, follow_of_stops hstops]

/-- What is put at a listed path is there afterwards, and nothing is put anywhere else. -/
theorem mem_paths_iff_replaced :
    path ∈ t.subterms.map Prod.fst ↔ ∀ u, (path, u) ∈ (t.replace [(path, u)]).subterms := by
  have hnodup (u : Term) : ([(path, u)].map Prod.fst).Nodup := List.nodup_singleton path
  constructor
  · intro h u
    obtain ⟨⟨path, v⟩, hmem, rfl⟩ := List.mem_map.mp h
    refine mem_subterms.mpr (occurs_replace_of_effective (hnodup u) (mem_effective_iff.mpr ?_))
    refine ⟨List.mem_singleton_self _, ⟨v, mem_subterms.mp hmem⟩, ?_⟩
    intro o ho _ _
    rw [List.mem_singleton.mp ho]
  · intro h
    by_contra hpath
    have hnone : t.effective [(path, t)] = [] := by
      apply List.eq_nil_iff_forall_not_mem.mpr
      intro e he
      obtain ⟨hmem, ⟨v, hv⟩, -⟩ := mem_effective_iff.mp he
      rw [List.mem_singleton.mp hmem] at hv
      exact hpath (List.mem_map_of_mem (mem_subterms.mpr hv))
    have hput := h t
    rw [replace_eq_self (hnodup t) hnone] at hput
    exact hpath (List.mem_map_of_mem hput)

/-- A path is looked up from argument to argument, a negative index counting back from the last one.
The look-up is refused at the first index that means no argument, with an error of its own where the
index counts back beyond the first one. Look-up, listing and replacing agree on the paths without
negative indices, and what is not listed of these is refused with one error. A path with a negative
index is never listed, and nothing is put there. -/
theorem subtermAt_counts_back (t : Term) (path : Path) :
    (∀ u, t.subtermAt path = .ok u ↔
      ∃ position, Reaches t path position u ∧ (position, u) ∈ t.subterms) ∧
    (∀ e, t.subtermAt path = .error e ↔ ∃ front i rest position v,
      path = front ++ i :: rest ∧ Reaches t front position v ∧ Stops t path v i e) ∧
    (path ∈ t.subterms.map Prod.fst ↔ (∀ i ∈ path, 0 ≤ i) ∧ ∃ u, t.subtermAt path = .ok u) ∧
    (path ∈ t.subterms.map Prod.fst ↔ ∀ u, (path, u) ∈ (t.replace [(path, u)]).subterms) ∧
    ((∀ i ∈ path, 0 ≤ i) → path ∉ t.subterms.map Prod.fst →
      t.subtermAt path = .error (.noSubterm path t)) := by
  have hlisted : path ∈ t.subterms.map Prod.fst ↔
      (∀ i ∈ path, 0 ≤ i) ∧ ∃ u, t.subtermAt path = .ok u := by
    rw [← exists_and_left]
    simp only [← occurs_iff_subtermAt, ← mem_subterms]
    simp
  refine ⟨?_, fun e => follow_eq_error_iff, hlisted, mem_paths_iff_replaced, ?_⟩
  · intro u
    refine follow_eq_ok_iff_reaches.trans (exists_congr fun position => ?_)
    exact ⟨fun h => ⟨h, mem_subterms.mpr h.occurs⟩, And.left⟩
  · intro hpath hnotlisted
    cases hlookup : t.subtermAt path with
    | ok u => exact absurd (hlisted.mpr ⟨hpath, u, hlookup⟩) hnotlisted
    | error e =>
      obtain ⟨front, i, rest, position, v, hsplit, -, hstops⟩ := follow_eq_error_iff.mp hlookup
      cases hstops with
      | atom hatom => rfl
      | behindLast hbehind => rfl
      | beforeFirst hbefore =>
        have hi := hpath i (by simp [hsplit])
        omega

/-- The last argument is found under `-1`, which no listed path has and where nothing is put; and
`-3`, of two arguments, is refused with the error of the row of arguments. -/
theorem subtermAt_negative :
    let t := Term.app "f" [.var "a", .var "b"]
    t.subtermAt [-1] = .ok (.var "b") ∧ [-1] ∉ t.subterms.map Prod.fst ∧
      t.replace [([-1], .var "c")] = t ∧ t.subtermAt [-3] = .error .beforeFirst := by
  intro t
  exact ⟨rfl, by decide, rfl, rfl⟩

end Term

end Stepwise
