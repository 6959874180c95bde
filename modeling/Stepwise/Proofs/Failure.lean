namespace Stepwise

variable {ε ε' α β : Type} {x : Except ε α} {f : ε → ε'}

theorem exists_of_isOk (h : x.isOk = true) : ∃ a, x = .ok a := by
  cases x with
  | error e => cases h
  | ok a => exact ⟨a, rfl⟩

theorem mapError_ok (a : α) : (Except.ok a : Except ε α).mapError f = .ok a := rfl

theorem ok_of_bind {k : α → Except ε β} {b : β} (h : (x >>= k) = .ok b) :
    ∃ a, x = .ok a ∧ k a = .ok b := by
  cases x with
  | error e => cases h
  | ok a => exact ⟨a, rfl, h⟩

/-- The value of a computation whose errors are renamed, and of what follows it. -/
theorem ok_of_bind_mapError {k : α → Except ε' β} {b : β} (h : (x.mapError f >>= k) = .ok b) :
    ∃ a, x = .ok a ∧ k a = .ok b := by
  cases x with
  | error e => cases h
  | ok a => exact ⟨a, rfl, h⟩

theorem error_of_bind {k : α → Except ε β} {e : ε} (h : (x >>= k) = .error e) :
    x = .error e ∨ ∃ a, x = .ok a ∧ k a = .error e := by
  cases x with
  | error e' =>
    cases h
    exact Or.inl rfl
  | ok a => exact Or.inr ⟨a, rfl, h⟩

theorem ok_of_map {g : α → β} {b : β} (h : x.map g = .ok b) : ∃ a, x = .ok a ∧ g a = b := by
  cases x with
  | error e => cases h
  | ok a =>
    cases h
    exact ⟨a, rfl, rfl⟩

theorem error_of_map {g : α → β} {e : ε} (h : x.map g = .error e) : x = .error e := by
  cases x with
  | error e' =>
    cases h
    rfl
  | ok a => cases h

theorem error_of_mapError {e : ε'} (h : x.mapError f = .error e) :
    ∃ e', x = .error e' ∧ f e' = e := by
  cases x with
  | error e' =>
    cases h
    exact ⟨e', rfl, rfl⟩
  | ok a => cases h

theorem error_of_mapError_bind {k : α → Except ε' β} {e : ε'}
    (h : (x.mapError f >>= k) = .error e) :
    (∃ e', x = .error e' ∧ f e' = e) ∨ ∃ a, x = .ok a ∧ k a = .error e := by
  cases x with
  | error e' =>
    cases h
    exact Or.inl ⟨e', rfl, rfl⟩
  | ok a => exact Or.inr ⟨a, rfl, h⟩

theorem exists_error_of_mapM {g : α → Except ε β} {e : ε} {as : List α}
    (h : as.mapM g = .error e) : ∃ a ∈ as, g a = .error e := by
  induction as with
  | nil => cases h
  | cons a as ih =>
    rw [List.mapM_cons] at h
    rcases error_of_bind h with hfirst | ⟨b, -, hrest⟩
    · exact ⟨a, List.mem_cons_self, hfirst⟩
    · rcases error_of_bind hrest with hlater | ⟨bs, -, hpure⟩
      · obtain ⟨a', hmem, ha'⟩ := ih hlater
        exact ⟨a', List.mem_cons_of_mem a hmem, ha'⟩
      · cases hpure

theorem exists_ok_of_mapM {g : α → Except ε β} {as : List α} {bs : List β}
    (h : as.mapM g = .ok bs) : ∀ b ∈ bs, ∃ a ∈ as, g a = .ok b := by
  induction as generalizing bs with
  | nil =>
    cases h
    simp
  | cons a as ih =>
    rw [List.mapM_cons] at h
    obtain ⟨b, hb, h⟩ := ok_of_bind h
    obtain ⟨later, hlater, hk⟩ := ok_of_bind h
    cases hk
    rw [List.forall_mem_cons]
    refine ⟨⟨a, List.mem_cons_self, hb⟩, fun b' hb' => ?_⟩
    obtain ⟨a', hmem, ha'⟩ := ih hlater b' hb'
    exact ⟨a', List.mem_cons_of_mem a hmem, ha'⟩

/-- What is made of each of the values comes back for each of them. -/
theorem mapM_map_ok {γ : Type} {f : γ → α} {g : α → Except ε β} {k : γ → β} {cs : List γ}
    (h : ∀ c ∈ cs, g (f c) = .ok (k c)) : (cs.map f).mapM g = .ok (cs.map k) := by
  induction cs with
  | nil => rfl
  | cons c cs ih =>
    rw [List.forall_mem_cons] at h
    rw [List.map_cons, List.mapM_cons, h.1, ih h.2]
    rfl

theorem ok_of_mapError {b : α} (h : x.mapError f = .ok b) : x = .ok b := by
  cases x with
  | error e => cases h
  | ok a =>
    cases h
    rfl

theorem ok_of_toOption {a : α} (h : x.toOption = some a) : x = .ok a := by
  cases x with
  | error e => cases h
  | ok a' =>
    cases h
    rfl

/-- Both computations succeed, with related values, or both fail for one reason. -/
inductive SameOutcome (R : α → α → Prop) : Except ε α → Except ε α → Prop
  | ok {a a' : α} (h : R a a') : SameOutcome R (.ok a) (.ok a')
  | error (e : ε) : SameOutcome R (.error e) (.error e)

theorem SameOutcome.bind_mapError {x' : Except ε α} {R : α → α → Prop} {S : β → β → Prop}
    {k k' : α → Except ε' β} (h : SameOutcome R x x')
    (hk : ∀ a a', R a a' → SameOutcome S (k a) (k' a')) :
    SameOutcome S (x.mapError f >>= k) (x'.mapError f >>= k') := by
  cases h with
  | ok h => exact hk _ _ h
  | error e => exact .error (f e)

end Stepwise
