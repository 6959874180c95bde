namespace Stepwise

/-- A name that is put again keeps its place and takes the new value. -/
def putEntry {α : Type} : List (String × α) → String → α → List (String × α)
  | [], name, value => [(name, value)]
  | (key, old) :: rest, name, value =>
    if key = name then (name, value) :: rest else (key, old) :: putEntry rest name value

theorem mem_keys_putEntry {α : Type} {entries : List (String × α)} {name other : String} {value : α} :
    other ∈ (putEntry entries name value).map Prod.fst ↔
      other ∈ entries.map Prod.fst ∨ other = name := by
  induction entries with
  | nil => simp [putEntry]
  | cons entry rest ih =>
    obtain ⟨key, old⟩ := entry
    by_cases h : key = name
    · subst h
      simp only [putEntry, if_true, List.map_cons, List.mem_cons]
      constructor
      · rintro (h | h)
        · exact Or.inr h
        · exact Or.inl (Or.inr h)
      · rintro ((h | h) | h)
        · exact Or.inl h
        · exact Or.inr h
        · exact Or.inl h
    · simp only [putEntry, h, if_false, List.map_cons, List.mem_cons, ih, or_assoc]

theorem mem_putEntry {α : Type} {entries : List (String × α)} {name : String} {value : α}
    {entry : String × α} (h : entry ∈ putEntry entries name value) :
    entry = (name, value) ∨ entry ∈ entries := by
  induction entries with
  | nil => exact Or.inl (List.mem_singleton.mp h)
  | cons first rest ih =>
    obtain ⟨key, old⟩ := first
    simp only [putEntry] at h
    split at h
    · exact (List.mem_cons.mp h).imp_right (List.mem_cons_of_mem _)
    · rcases List.mem_cons.mp h with rfl | hrest
      · exact Or.inr List.mem_cons_self
      · exact (ih hrest).imp_right (List.mem_cons_of_mem _)

theorem nodup_keys_putEntry {α : Type} {entries : List (String × α)}
    (h : (entries.map Prod.fst).Nodup) (name : String) (value : α) :
    ((putEntry entries name value).map Prod.fst).Nodup := by
  induction entries with
  | nil => simp [putEntry]
  | cons entry rest ih =>
    obtain ⟨key, old⟩ := entry
    simp only [List.map_cons, List.nodup_cons] at h
    by_cases hk : key = name
    · subst hk
      simpa [putEntry] using h
    · simp only [putEntry, hk, if_false, List.map_cons, List.nodup_cons, mem_keys_putEntry, not_or]
      exact ⟨⟨h.1, not_false⟩, ih h.2⟩

theorem lookup_putEntry {α : Type} (entries : List (String × α)) (name other : String) (value : α) :
    (putEntry entries name value).lookup other =
      if other = name then some value else entries.lookup other := by
  have beq (key : String) : (other == key) = decide (other = key) := rfl
  induction entries with
  | nil => by_cases h : other = name <;> simp [putEntry, List.lookup_cons, beq, h]
  | cons entry rest ih =>
    obtain ⟨key, old⟩ := entry
    by_cases hk : key = name
    · by_cases h : other = name <;> simp [putEntry, List.lookup_cons, beq, hk, h]
    · by_cases ho : other = key
      · simp [putEntry, hk, ho]
      · simp [putEntry, List.lookup_cons, beq, hk, ho, ih]

theorem putEntry_of_notMem {α : Type} {entries : List (String × α)} {name : String}
    (h : name ∉ entries.map Prod.fst) (value : α) :
    putEntry entries name value = entries ++ [(name, value)] := by
  induction entries with
  | nil => rfl
  | cons entry rest ih =>
    simp only [List.map_cons, List.mem_cons, not_or] at h
    simp [putEntry, Ne.symm h.1, ih h.2]

theorem lookup_eq_some_iff {α : Type} {entries : List (String × α)}
    (h : (entries.map Prod.fst).Nodup) {name : String} {value : α} :
    entries.lookup name = some value ↔ (name, value) ∈ entries := by
  induction entries with
  | nil => simp
  | cons entry rest ih =>
    obtain ⟨key, old⟩ := entry
    rw [List.map_cons, List.nodup_cons] at h
    by_cases hk : name = key
    · subst hk
      have hrest : (name, value) ∉ rest := fun hmem => h.1 (List.mem_map.mpr ⟨_, hmem, rfl⟩)
      simp [hrest, eq_comm]
    · have beq : (name == key) = false := by simpa using hk
      simp [List.lookup_cons, beq, hk, ih h.2]

/-- Values under names that differ, in the order in which the names first came. -/
@[ext] structure Table (α : Type) where
  entries : List (String × α) := []
  nodup : (entries.map Prod.fst).Nodup := by simp

namespace Table

variable {α : Type}

instance : EmptyCollection (Table α) := ⟨⟨[], by simp⟩⟩

instance : Inhabited (Table α) := ⟨∅⟩

def names (t : Table α) : List String := t.entries.map Prod.fst

def values (t : Table α) : List α := t.entries.map Prod.snd

def size (t : Table α) : Nat := t.entries.length

def find? (t : Table α) (name : String) : Option α := t.entries.lookup name

def contains (t : Table α) (name : String) : Bool := (t.find? name).isSome

def put (t : Table α) (name : String) (value : α) : Table α :=
  ⟨putEntry t.entries name value, nodup_keys_putEntry t.nodup name value⟩

@[simp] theorem find?_empty (name : String) : (∅ : Table α).find? name = none := rfl

theorem find?_eq_some_iff {t : Table α} {name : String} {value : α} :
    t.find? name = some value ↔ (name, value) ∈ t.entries :=
  lookup_eq_some_iff t.nodup

theorem mem_names_iff {t : Table α} {name : String} :
    name ∈ t.names ↔ (t.find? name).isSome = true := by
  rw [find?, List.lookup_isSome_iff, names, List.mem_map]
  constructor
  · rintro ⟨entry, hentry, rfl⟩
    exact ⟨entry, hentry, beq_self_eq_true _⟩
  · rintro ⟨entry, hentry, hname⟩
    exact ⟨entry, hentry, (beq_iff_eq.mp hname).symm⟩

theorem find?_put (t : Table α) (name other : String) (value : α) :
    (t.put name value).find? other = if other = name then some value else t.find? other :=
  lookup_putEntry t.entries name other value

/-- A new name comes last. -/
theorem entries_put_of_notMem {t : Table α} {name : String} (h : name ∉ t.names) (value : α) :
    (t.put name value).entries = t.entries ++ [(name, value)] :=
  putEntry_of_notMem h value

def ofList (pairs : List (String × α)) : Table α :=
  pairs.foldl (fun t p => t.put p.1 p.2) ∅

end Table

end Stepwise
