import Mathlib.Data.List.Nodup
import Stepwise.Proofs.Term.Listing

namespace Stepwise

/-- Neither path goes on from the other. -/
def Path.Apart (p q : Path) : Prop := ¬ p <+: q ∧ ¬ q <+: p

theorem Path.Apart.symm {p q : Path} (h : p.Apart q) : q.Apart p := ⟨h.2, h.1⟩

theorem Path.apart_cons {i j : Int} {p q : Path} :
    Apart (i :: p) (j :: q) ↔ i = j → Apart p q := by
  simp only [Apart, List.cons_prefix_cons]
  constructor
  · rintro ⟨hpq, hqp⟩ rfl
    exact ⟨fun h => hpq ⟨rfl, h⟩, fun h => hqp ⟨rfl, h⟩⟩
  · intro h
    exact ⟨fun hpq => (h hpq.1).1 hpq.2, fun hqp => (h hqp.1.symm).2 hqp.2⟩

theorem Path.ne_nil_of_apart {p q : Path} (h : p.Apart q) : p ≠ [] := by
  rintro rfl
  exact h.1 List.nil_prefix

namespace Term

/-- Induction on a term with all of its arguments at once. -/
theorem induction {motive : Term → Prop} (const : ∀ a, motive (.const a))
    (var : ∀ x, motive (.var x))
    (app : ∀ f args, (∀ a ∈ args, motive a) → motive (.app f args)) (t : Term) : motive t := by
  refine @Term.rec motive (fun args => ∀ a ∈ args, motive a) const var app ?_ ?_ t
  · exact List.forall_mem_nil motive
  · intro a args ha hargs
    exact List.forall_mem_cons.mpr ⟨ha, hargs⟩

/-- Puts a term at one path. A path that leads to no sub-term changes nothing. -/
def put : Term → Path → Term → Term
  | _, [], u => u
  | .app f args, .ofNat k :: path, u => .app f (args.modify k fun a => a.put path u)
  | t, _ :: _, _ => t

/-- The sub-term at a path whose indices all count from the first argument on. -/
def subterm? (t : Term) (path : Path) : Option Term :=
  if ∀ i ∈ path, 0 ≤ i then (t.subtermAt path).toOption else none

/-- The entries that take effect: their paths lead to sub-terms, and no entry whose path does is met
on the way. -/
def effective (t : Term) (entries : List (Path × Term)) : List (Path × Term) :=
  entries.filter fun e => (t.subterm? e.1).isSome ∧
    ∀ o ∈ entries, (t.subterm? o.1).isSome → o.1 <+: e.1 → o.1 = e.1

variable {t u v : Term} {path : Path} {entries : List (Path × Term)}

theorem subterm?_eq_some_iff : t.subterm? path = some u ↔ Occurs t path u := by
  rw [occurs_iff_subtermAt, subterm?]
  by_cases hpath : ∀ i ∈ path, 0 ≤ i
  · rw [if_pos hpath, and_iff_right hpath]
    cases t.subtermAt path <;> simp [Except.toOption]
  · rw [if_neg hpath]
    exact ⟨nofun, fun h => absurd h.1 hpath⟩

theorem isSome_subterm?_iff : (t.subterm? path).isSome = true ↔ ∃ u, Occurs t path u := by
  rw [Option.isSome_iff_exists]
  exact exists_congr fun u => subterm?_eq_some_iff

theorem mem_effective_iff {e : Path × Term} : e ∈ t.effective entries ↔
    e ∈ entries ∧ (∃ u, Occurs t e.1 u) ∧
      ∀ o ∈ entries, (∃ u, Occurs t o.1 u) → o.1 <+: e.1 → o.1 = e.1 := by
  rw [effective, List.mem_filter, decide_eq_true_eq, isSome_subterm?_iff]
  simp only [isSome_subterm?_iff]

theorem put_root (t u : Term) : t.put [] u = u := by cases t <;> rfl

theorem put_const (a : Number) (i : Int) (path : Path) (u : Term) :
    (const a).put (i :: path) u = .const a := by cases i <;> rfl

theorem put_var (x : String) (i : Int) (path : Path) (u : Term) :
    (var x).put (i :: path) u = .var x := by cases i <;> rfl

/-- One argument at most is changed, and none by a negative index. -/
theorem exists_put_app (f : String) (args : List Term) (i : Int) (path : Path) (u : Term) :
    ∃ args', (app f args).put (i :: path) u = .app f args' ∧
      ∀ k : Nat, args'[k]? = args[k]?.map fun a => if i = k then a.put path u else a := by
  cases i with
  | ofNat j =>
    refine ⟨args.modify j fun a => a.put path u, rfl, fun k => ?_⟩
    simp only [List.getElem?_modify, Int.ofNat_eq_natCast, Int.natCast_inj]
    rfl
  | negSucc j =>
    refine ⟨args, rfl, fun k => ?_⟩
    have hne : Int.negSucc j ≠ k := by omega
    simp [hne]

theorem mem_replacementsBelow {i : Int} :
    (path, u) ∈ replacementsBelow i entries ↔ (i :: path, u) ∈ entries := by
  rw [replacementsBelow, List.mem_filterMap]
  constructor
  · rintro ⟨⟨_ | ⟨j, rest⟩, v⟩, hmem, h⟩
    · cases h
    · simp only [Option.ite_none_right_eq_some, Option.some.injEq, Prod.mk.injEq] at h
      obtain ⟨rfl, rfl, rfl⟩ := h
      exact hmem
  · intro hmem
    exact ⟨_, hmem, if_pos rfl⟩

theorem nodup_replacementsBelow (h : (entries.map Prod.fst).Nodup) (i : Int) :
    ((replacementsBelow i entries).map Prod.fst).Nodup := by
  rw [List.Nodup, List.pairwise_map] at h ⊢
  rw [replacementsBelow, List.pairwise_filterMap]
  refine h.imp ?_
  rintro ⟨_ | ⟨j, rest⟩, v⟩ ⟨_ | ⟨j', rest'⟩, v'⟩ hne x hx y hy
  -- An entry at the root is below no argument.
  all_goals try contradiction
  simp only [Option.ite_none_right_eq_some, Option.some.injEq] at hx hy
  obtain ⟨rfl, rfl⟩ := hx
  obtain ⟨rfl, rfl⟩ := hy
  exact fun heq => hne (congrArg (j' :: ·) heq)

theorem mem_of_rootReplacement? (h : rootReplacement? entries = some u) : ([], u) ∈ entries := by
  obtain ⟨⟨path, v⟩, hfind, rfl⟩ := Option.map_eq_some_iff.mp h
  have hroot : path = [] := by simpa using List.find?_some hfind
  have hmem := List.mem_of_find?_eq_some hfind
  rwa [hroot, List.mem_reverse] at hmem

theorem ne_nil_of_rootReplacement? (h : rootReplacement? entries = none) :
    ∀ e ∈ entries, e.1 ≠ [] := by
  rw [rootReplacement?, Option.map_eq_none_iff, List.find?_eq_none] at h
  rintro ⟨path, u⟩ he hroot
  exact h (path, u) (List.mem_reverse.mpr he) (List.isEmpty_iff.mpr hroot)

theorem eq_of_mem_entries (h : (entries.map Prod.fst).Nodup) (hu : (path, u) ∈ entries)
    (hv : (path, v) ∈ entries) : u = v :=
  congrArg Prod.snd (List.inj_on_of_nodup_map h hu hv rfl)

theorem replace_of_root (h : rootReplacement? entries = some u) (t : Term) :
    t.replace entries = u := by
  cases t <;> simp [replace, h]

theorem replace_app_of_no_root (h : rootReplacement? entries = none) (f : String)
    (args : List Term) :
    (app f args).replace entries = .app f (replaceFrom 0 args entries) := by
  rw [replace, h, Option.getD_none]

theorem getElem?_replaceFrom (i : Int) (args : List Term) (entries : List (Path × Term)) (k : Nat) :
    (replaceFrom i args entries)[k]? =
      args[k]?.map fun a => a.replace (replacementsBelow (i + k) entries) := by
  induction args generalizing i k with
  | nil => rfl
  | cons a args ih =>
    cases k with
    | zero => simp [replaceFrom]
    | succ k =>
      have hindex : i + 1 + (k : Int) = i + ((k + 1 : Nat) : Int) := by omega
      rw [replaceFrom, List.getElem?_cons_succ, List.getElem?_cons_succ, ih, hindex]

theorem getElem?_replaceFrom_zero (args : List Term) (entries : List (Path × Term)) (k : Nat) :
    (replaceFrom 0 args entries)[k]? =
      args[k]?.map fun a => a.replace (replacementsBelow k entries) := by
  rw [getElem?_replaceFrom, Int.zero_add]

/-- An entry at the root takes effect, whatever the others are. -/
theorem rootReplacement?_eq_some_iff (h : (entries.map Prod.fst).Nodup) :
    rootReplacement? entries = some u ↔ ([], u) ∈ t.effective entries := by
  rw [mem_effective_iff]
  constructor
  · intro hroot
    exact ⟨mem_of_rootReplacement? hroot, ⟨t, .root⟩, fun o _ _ => List.prefix_nil.mp⟩
  · rintro ⟨hu, -, -⟩
    cases hroot : rootReplacement? entries with
    | none => exact absurd rfl (ne_nil_of_rootReplacement? hroot _ hu)
    | some v => rw [eq_of_mem_entries h hu (mem_of_rootReplacement? hroot)]

theorem mem_effective_argument_iff {f : String} {args : List Term} {k : Nat} {a : Term}
    (hroot : ∀ e ∈ entries, e.1 ≠ []) (h : args[k]? = some a) :
    ((k : Int) :: path, u) ∈ (app f args).effective entries ↔
      (path, u) ∈ a.effective (replacementsBelow k entries) := by
  rw [mem_effective_iff, mem_effective_iff, mem_replacementsBelow]
  simp only [occurs_argument_iff h]
  refine and_congr_right fun _ => and_congr_right fun _ => ?_
  constructor
  · rintro houter ⟨other, v⟩ hmem hoccurs hprefix
    have := houter _ (mem_replacementsBelow.mp hmem) (by simpa only [occurs_argument_iff h])
      (List.cons_prefix_cons.mpr ⟨rfl, hprefix⟩)
    exact List.tail_eq_of_cons_eq this
  · rintro houter ⟨_ | ⟨j, other⟩, v⟩ hmem hoccurs hprefix
    · exact absurd rfl (hroot _ hmem)
    · obtain ⟨rfl, hrest⟩ := List.cons_prefix_cons.mp hprefix
      simp only [occurs_argument_iff h] at hoccurs
      exact congrArg _ (houter _ (mem_replacementsBelow.mpr hmem) hoccurs hrest)

section Congruence

variable {entries' : List (Path × Term)}

/-- At the root the entries that take effect decide. -/
theorem rootReplacement?_congr (h : (entries.map Prod.fst).Nodup)
    (h' : (entries'.map Prod.fst).Nodup)
    (heffective : ∀ e, e ∈ t.effective entries ↔ e ∈ t.effective entries') :
    rootReplacement? entries = rootReplacement? entries' := by
  apply Option.ext
  intro u
  rw [rootReplacement?_eq_some_iff h, heffective, rootReplacement?_eq_some_iff h']

/-- The term after replacing depends on the entries that take effect, and on nothing else. -/
theorem replace_congr (h : (entries.map Prod.fst).Nodup) (h' : (entries'.map Prod.fst).Nodup)
    (heffective : ∀ e, e ∈ t.effective entries ↔ e ∈ t.effective entries') :
    t.replace entries = t.replace entries' := by
  induction t using induction generalizing entries entries' with
  | const a => rw [replace, replace, rootReplacement?_congr h h' heffective]
  | var x => rw [replace, replace, rootReplacement?_congr h h' heffective]
  | app f args ih =>
    have hroot := rootReplacement?_congr h h' heffective
    rw [replace, replace, hroot]
    cases hnone : rootReplacement? entries' with
    | some u => rfl
    | none =>
      -- With nothing at the root, what takes effect below an argument is what does so there.
      rw [hnone] at hroot
      rw [Option.getD_none, Option.getD_none, app.injEq]
      refine ⟨rfl, List.ext_getElem? fun k => ?_⟩
      rw [getElem?_replaceFrom_zero, getElem?_replaceFrom_zero]
      cases harg : args[k]? with
      | none => rfl
      | some a =>
        refine congrArg some (ih a (List.mem_of_getElem? harg) (nodup_replacementsBelow h k)
          (nodup_replacementsBelow h' k) ?_)
        rintro ⟨path, u⟩
        rw [← mem_effective_argument_iff (ne_nil_of_rootReplacement? hroot) harg,
          ← mem_effective_argument_iff (ne_nil_of_rootReplacement? hnone) harg]
        exact heffective _

end Congruence

theorem replacementsBelow_cons_self {i : Int} :
    replacementsBelow i ((i :: path, u) :: entries) = (path, u) :: replacementsBelow i entries := by
  simp [replacementsBelow]

theorem replacementsBelow_cons_of_ne {i j : Int} (h : i ≠ j) :
    replacementsBelow j ((i :: path, u) :: entries) = replacementsBelow j entries := by
  simp [replacementsBelow, h]

theorem rootReplacement?_of_ne_nil (h : ∀ e ∈ entries, e.1 ≠ []) :
    rootReplacement? entries = none :=
  rootReplacement?_eq_none fun e he => List.exists_cons_of_ne_nil (h e he)

/-- Where no other path leads through the first one or on from it, its term may be put first. -/
theorem replace_put_of_apart (h : ∀ e ∈ entries, Path.Apart path e.1) :
    (t.put path u).replace entries = t.replace ((path, u) :: entries) := by
  induction path generalizing t entries with
  | nil =>
    cases entries with
    | nil => rw [put_root, replace_nil, replace_root]
    | cons e entries => exact absurd rfl (Path.ne_nil_of_apart (h e List.mem_cons_self))
  | cons i path ih =>
    have hnone : ∀ e ∈ (i :: path, u) :: entries, e.1 ≠ [] :=
      List.forall_mem_cons.mpr ⟨List.cons_ne_nil i path, fun e he =>
        Path.ne_nil_of_apart (h e he).symm⟩
    have hroot := rootReplacement?_of_ne_nil (List.forall_mem_cons.mp hnone).2
    have hroot' := rootReplacement?_of_ne_nil hnone
    cases t with
    | const a => rw [put_const, replace, replace, hroot, hroot']
    | var x => rw [put_var, replace, replace, hroot, hroot']
    | app f args =>
      obtain ⟨args', hput, hargs'⟩ := exists_put_app f args i path u
      rw [hput, replace_app_of_no_root hroot, replace_app_of_no_root hroot', app.injEq]
      refine ⟨rfl, List.ext_getElem? fun k => ?_⟩
      rw [getElem?_replaceFrom_zero, getElem?_replaceFrom_zero, hargs', Option.map_map]
      refine congrArg (fun g => Option.map g args[k]?) (funext fun a => ?_)
      -- The new entry is seen by the argument it leads into, and by no other.
      by_cases hk : i = k
      · subst hk
        have hbelow : ∀ e ∈ replacementsBelow k entries, Path.Apart path e.1 := by
          rintro ⟨rest, v⟩ he
          exact Path.apart_cons.mp (h _ (mem_replacementsBelow.mp he)) rfl
        rw [Function.comp_apply, if_pos rfl, replacementsBelow_cons_self, ih hbelow]
      · rw [Function.comp_apply, if_neg hk, replacementsBelow_cons_of_ne hk]

theorem replace_single (t : Term) (e : Path × Term) : t.replace [e] = t.put e.1 e.2 := by
  have h : ∀ o ∈ ([] : List (Path × Term)), Path.Apart e.1 o.1 := by simp
  rw [← replace_put_of_apart h, replace_nil]

theorem foldl_put (h : entries.Pairwise fun e o => Path.Apart e.1 o.1) (t : Term) :
    entries.foldl (fun s e => s.put e.1 e.2) t = t.replace entries := by
  induction entries generalizing t with
  | nil => exact (replace_nil t).symm
  | cons e entries ih =>
    rw [List.pairwise_cons] at h
    rw [List.foldl_cons, ih h.2, replace_put_of_apart h.1]

/-- An entry at the root would stand in the way of one that takes effect below it. -/
theorem rootReplacement?_of_effective_cons {i : Int}
    (h : (i :: path, u) ∈ t.effective entries) : rootReplacement? entries = none := by
  apply rootReplacement?_of_ne_nil
  intro e he hroot
  obtain ⟨-, -, houter⟩ := mem_effective_iff.mp h
  have := houter e he ⟨t, by rw [hroot]; exact .root⟩ (by rw [hroot]; exact List.nil_prefix)
  rw [hroot] at this
  cases this

/-- Every entry that takes effect is there afterwards. -/
theorem occurs_replace_of_effective (h : (entries.map Prod.fst).Nodup)
    (he : (path, u) ∈ t.effective entries) : Occurs (t.replace entries) path u := by
  induction path generalizing t entries with
  | nil =>
    rw [replace_of_root ((rootReplacement?_eq_some_iff h).mpr he)]
    exact .root
  | cons i path ih =>
    have hroot := rootReplacement?_of_effective_cons he
    obtain ⟨-, ⟨v, hv⟩, -⟩ := mem_effective_iff.mp he
    cases hv with
    | @argument f args k a v path arg rest =>
      rw [mem_effective_argument_iff (ne_nil_of_rootReplacement? hroot) arg] at he
      rw [replace_app_of_no_root hroot]
      refine .argument ?_ (ih (nodup_replacementsBelow h k) he)
      rw [getElem?_replaceFrom_zero, arg, Option.map_some]

theorem replace_eq_self (h : (entries.map Prod.fst).Nodup) (hnone : t.effective entries = []) :
    t.replace entries = t := by
  have heffective : ∀ e, e ∈ t.effective entries ↔ e ∈ t.effective [] := by
    intro e
    rw [hnone, effective, List.filter_nil]
  have hnil : (([] : List (Path × Term)).map Prod.fst).Nodup := List.nodup_nil
  rw [replace_congr h hnil heffective, replace_nil]

/-- Beside the entries that take effect everything is as it was. -/
theorem occurs_replace_of_apart (h : (entries.map Prod.fst).Nodup)
    (hpath : ∀ e ∈ t.effective entries, Path.Apart path e.1) :
    Occurs (t.replace entries) path u ↔ Occurs t path u := by
  induction path generalizing t entries with
  | nil =>
    have hnone : t.effective entries = [] :=
      List.eq_nil_iff_forall_not_mem.mpr fun e he => Path.ne_nil_of_apart (hpath e he) rfl
    rw [replace_eq_self h hnone]
  | cons i path ih =>
    have hroot : rootReplacement? entries = none := by
      cases hroot : rootReplacement? entries with
      | none => rfl
      | some v =>
        have happart := hpath _ ((rootReplacement?_eq_some_iff h).mp hroot)
        exact absurd rfl (Path.ne_nil_of_apart happart.symm)
    cases t with
    | const a => rw [replace, hroot, Option.getD_none]
    | var x => rw [replace, hroot, Option.getD_none]
    | app f args =>
      rw [replace_app_of_no_root hroot, occurs_app_cons_iff, occurs_app_cons_iff]
      refine exists_congr fun k => ?_
      rw [getElem?_replaceFrom_zero]
      cases harg : args[k]? with
      | none => simp
      | some a =>
        simp only [Option.map_some, Option.some_inj, exists_and_left, exists_eq_left']
        refine and_congr_right ?_
        rintro rfl
        apply ih (nodup_replacementsBelow h k)
        rintro ⟨rest, v⟩ he
        rw [← mem_effective_argument_iff (ne_nil_of_rootReplacement? hroot) harg] at he
        exact Path.apart_cons.mp (hpath _ he) rfl

/-- Different entries that take effect do not lead through each other. -/
theorem apart_of_effective (h : (entries.map Prod.fst).Nodup) {e o : Path × Term}
    (he : e ∈ t.effective entries) (ho : o ∈ t.effective entries) (hne : e ≠ o) :
    Path.Apart e.1 o.1 := by
  obtain ⟨hmem, hoccurs, houter⟩ := mem_effective_iff.mp he
  obtain ⟨hmem', hoccurs', houter'⟩ := mem_effective_iff.mp ho
  constructor
  · intro hprefix
    exact hne (List.inj_on_of_nodup_map h hmem hmem' (houter' e hmem hoccurs hprefix))
  · intro hprefix
    exact hne (List.inj_on_of_nodup_map h hmem hmem' (houter o hmem' hoccurs' hprefix).symm)

/-- A row of the entries that take effect: each of them does so in it as well. -/
theorem mem_effective_of_perm {row : List (Path × Term)}
    (hrow : row.Perm (t.effective entries)) (e : Path × Term) :
    e ∈ t.effective row ↔ e ∈ t.effective entries := by
  rw [mem_effective_iff, hrow.mem_iff]
  constructor
  · exact And.left
  · intro he
    refine ⟨he, (mem_effective_iff.mp he).2.1, fun o ho hoccurs hprefix => ?_⟩
    have hmem := (mem_effective_iff.mp (hrow.mem_iff.mp ho)).1
    exact (mem_effective_iff.mp he).2.2 o hmem hoccurs hprefix

/-- Putting terms at paths all at once is putting those that take effect one after another, in any
order. Their terms are there afterwards, and whatever is neither on the way to one of them nor
inside of it is as it was. -/
theorem replace_eq_foldl_put (t : Term) {entries : List (Path × Term)}
    (h : (entries.map Prod.fst).Nodup) :
    (∀ row : List (Path × Term), row.Perm (t.effective entries) →
      t.replace entries = row.foldl (fun s e => s.put e.1 e.2) t ∧
      t.replace entries = row.foldl (fun s e => s.replace [e]) t) ∧
    (∀ e ∈ t.effective entries, (t.replace entries).subterm? e.1 = some e.2) ∧
    ∀ path, (∀ e ∈ t.effective entries, ¬ path <+: e.1 ∧ ¬ e.1 <+: path) →
      (t.replace entries).subterm? path = t.subterm? path := by
  refine ⟨?_, ?_, ?_⟩
  · intro row hrow
    have hnodup : (t.effective entries).Nodup := (List.Nodup.of_map _ h).filter _
    have hpaths : (row.map Prod.fst).Nodup :=
      (hrow.map Prod.fst).nodup_iff.mpr (h.sublist (List.filter_sublist.map Prod.fst))
    have hapart : row.Pairwise fun e o => Path.Apart e.1 o.1 := by
      refine (hrow.nodup_iff.mpr hnodup).imp_of_mem ?_
      intro e o he ho hne
      exact apart_of_effective h (hrow.mem_iff.mp he) (hrow.mem_iff.mp ho) hne
    have hput : t.replace entries = row.foldl (fun s e => s.put e.1 e.2) t := by
      rw [foldl_put hapart, replace_congr hpaths h (mem_effective_of_perm hrow)]
    refine ⟨hput, ?_⟩
    simp only [replace_single]
    exact hput
  · rintro ⟨path, u⟩ he
    exact subterm?_eq_some_iff.mpr (occurs_replace_of_effective h he)
  · intro path hpath
    apply Option.ext
    intro u
    rw [subterm?_eq_some_iff, subterm?_eq_some_iff, occurs_replace_of_apart h hpath]

/-- An entry inside of another one, a path behind the last argument and one that counts back. -/
theorem replace_eq_foldl_put_nested :
    let t := Term.app "f" [.app "g" [.var "a"], .var "b", .var "c"]
    let entries : List (Path × Term) :=
      [([0, 0], .var "x"), ([0], .app "h" [.var "y"]), ([7], .var "z"), ([-1], .var "w"),
        ([1], .const (.int 2))]
    (entries.map Prod.fst).Nodup ∧
      t.replace entries =
        [([1], .const (.int 2)), ([0], .app "h" [.var "y"])].foldl (fun s e => s.put e.1 e.2) t ∧
      (t.replace entries).subterm? [0] = some (.app "h" [.var "y"]) ∧
      (t.replace entries).subterm? [2] = t.subterm? [2] := by
  intro t entries
  have h : (entries.map Prod.fst).Nodup := by decide
  obtain ⟨hrows, hentries, hothers⟩ := replace_eq_foldl_put t h
  have heffective : t.effective entries =
      [([0], .app "h" [.var "y"]), ([1], .const (.int 2))] := rfl
  refine ⟨h, (hrows _ ?_).1, hentries ([0], .app "h" [.var "y"]) ?_, hothers [2] ?_⟩
  · rw [heffective]
    exact List.Perm.swap _ _ _
  · simp [heffective]
  · simp [heffective]

end Term

end Stepwise
