import Stepwise.Text.Blank
import Stepwise.Text.Lines

namespace Stepwise.Text

variable {b : Char} {cs rest : List Char}

/-- Characters that stand on one line. -/
def IsLine (cs : List Char) : Prop := ∀ c ∈ cs, isLineBreak c = false

theorem IsLine.newline_notMem (h : IsLine cs) : '\n' ∉ cs := by
  intro hmem
  exact absurd (h '\n' hmem) (by decide)

/-- A character that ends a line and is no carriage return ends it alone. -/
theorem splitLines_break (hb : isLineBreak b = true) (hreturn : b ≠ '\r') :
    splitLines (b :: rest) = [] :: splitLines rest := by
  rw [splitLines]
  · rw [if_pos hb]
  · rintro _ rfl _
    exact hreturn rfl

theorem splitLines_cons {c : Char} (hc : isLineBreak c = false) :
    splitLines (c :: cs) = consFirst c (splitLines cs) := by
  rw [splitLines]
  · rw [hc]
    rfl
  · rintro _ rfl _
    exact absurd hc (by decide)

theorem splitLines_append {later : List (List Char)} (h : IsLine cs)
    (hrest : splitLines rest = [] :: later) : splitLines (cs ++ rest) = cs :: later := by
  induction cs with
  | nil => exact hrest
  | cons c cs ih =>
    rw [IsLine, List.forall_mem_cons] at h
    rw [List.cons_append, splitLines_cons h.1, ih h.2, consFirst]

theorem splitLines_newline (h : IsLine cs) :
    splitLines (cs ++ '\n' :: rest) = cs :: splitLines rest := by
  refine splitLines_append h (splitLines_break ?_ ?_)
  · decide
  · decide

theorem splitLines_line (h : IsLine cs) (hne : cs ≠ []) : splitLines cs = [cs] := by
  induction cs with
  | nil => exact absurd rfl hne
  | cons c cs ih =>
    rw [IsLine, List.forall_mem_cons] at h
    rw [splitLines_cons h.1]
    cases cs with
    | nil => rfl
    | cons d ds => rw [ih h.2 (by simp), consFirst]

/-- The text behind the line break, or nothing at the end of the text. -/
inductive LineEnd : List Char → List Char → Prop
  | text : LineEnd [] []
  | newline (rest : List Char) : LineEnd ('\n' :: rest) rest

theorem splitLines_lineEnd {after : List Char} (h : IsLine cs) (hend : LineEnd after rest) :
    splitLines (cs ++ after) = cs :: splitLines rest ∨ cs = [] ∧ after = [] ∧ rest = [] := by
  cases hend with
  | newline => exact Or.inl (splitLines_newline h)
  | text =>
    cases cs with
    | nil => exact Or.inr ⟨rfl, rfl, rfl⟩
    | cons c cs =>
      rw [List.append_nil]
      exact Or.inl (splitLines_line h (by simp))

theorem isBlank_of_isLineBreak (h : isLineBreak b = true) : isBlank b = true := by
  simp only [isLineBreak, lineBreakRanges, inRanges, List.any_cons, List.any_nil, Bool.or_false,
    Bool.or_eq_true, Bool.and_eq_true, decide_eq_true_eq] at h
  simp only [isBlank, blankRanges, inRanges, List.any_cons, List.any_nil, Bool.or_false,
    Bool.or_eq_true, Bool.and_eq_true, decide_eq_true_eq]
  omega

/-- The characters in front of the first that ends a line. -/
def firstLine (cs : List Char) : List Char := cs.takeWhile fun c => !isLineBreak c

/-- What stands behind the first line and its end. -/
def behindFirst : List Char → List Char
  | [] => []
  | '\r' :: '\n' :: cs => cs
  | c :: cs => if isLineBreak c then cs else behindFirst cs

theorem firstLine_break (hb : isLineBreak b = true) : firstLine (b :: rest) = [] := by
  simp [firstLine, hb]

theorem behindFirst_break (hb : isLineBreak b = true) (hreturn : b = '\r' → '\n' ∉ rest.head?) :
    behindFirst (b :: rest) = rest := by
  rw [behindFirst]
  · rw [if_pos hb]
  · rintro cs rfl rfl
    exact hreturn rfl rfl

theorem behindFirst_newline : behindFirst ('\n' :: rest) = rest :=
  behindFirst_break (by decide) (by simp)

theorem isLine_firstLine (cs : List Char) : IsLine (firstLine cs) := by
  intro c hc
  have h := List.all_eq_true.mp List.all_takeWhile c hc
  simpa using h

theorem firstLine_append (h : IsLine cs) : firstLine (cs ++ rest) = cs ++ firstLine rest := by
  refine List.takeWhile_append_of_pos fun c hc => ?_
  rw [h c hc]
  rfl

/-- Where a line ends within a text, what follows the text is not on its first line. -/
theorem firstLine_append_of_break (h : ¬IsLine cs) : firstLine (cs ++ rest) = firstLine cs := by
  induction cs with
  | nil => exact absurd (by simp [IsLine]) h
  | cons c cs ih =>
    cases hc : isLineBreak c with
    | true => rw [List.cons_append, firstLine_break hc, firstLine_break hc]
    | false =>
      have hcs : ¬IsLine cs := by simpa [IsLine, hc] using h
      have hfirst (ds : List Char) : firstLine (c :: ds) = c :: firstLine ds := by
        simp [firstLine, hc]
      rw [List.cons_append, hfirst, hfirst, ih hcs]

theorem behindFirst_cons {c : Char} (hc : isLineBreak c = false) :
    behindFirst (c :: cs) = behindFirst cs := by
  rw [behindFirst]
  · rw [hc]
    rfl
  · rintro _ rfl _
    exact absurd hc (by decide)

theorem behindFirst_append (h : IsLine cs) : behindFirst (cs ++ rest) = behindFirst rest := by
  induction cs with
  | nil => rfl
  | cons c cs ih =>
    rw [IsLine, List.forall_mem_cons] at h
    rw [List.cons_append, behindFirst_cons h.1, ih h.2]

theorem splitLines_nonempty (h : cs ≠ []) :
    splitLines cs = firstLine cs :: splitLines (behindFirst cs) := by
  induction cs with
  | nil => exact absurd rfl h
  | cons c cs ih =>
    cases hc : isLineBreak c with
    | true =>
      rw [firstLine_break hc]
      by_cases hreturn : c = '\r' ∧ cs.head? = some '\n'
      · obtain ⟨rfl, hhead⟩ := hreturn
        obtain ⟨cs, rfl⟩ := List.head?_eq_some_iff.mp hhead
        rfl
      · have hnewline : c = '\r' → '\n' ∉ cs.head? := by
          intro hr hhead
          exact hreturn ⟨hr, hhead⟩
        rw [behindFirst_break hc hnewline, splitLines]
        · rw [if_pos hc]
        · rintro _ rfl rfl
          exact hnewline rfl rfl
    | false =>
      have hfirst : firstLine (c :: cs) = c :: firstLine cs := by simp [firstLine, hc]
      rw [splitLines_cons hc, hfirst, behindFirst_cons hc]
      cases cs with
      | nil => rfl
      | cons d ds => rw [ih (by simp), consFirst]

theorem isLine_of_mem_splitLines {line : List Char} (h : line ∈ splitLines cs) : IsLine line := by
  have hempty : IsLine [] := by simp [IsLine]
  induction cs using splitLines.induct generalizing line with
  | case1 => cases h
  | case2 cs ih =>
    rw [splitLines] at h
    rcases List.mem_cons.mp h with rfl | h
    · exact hempty
    · exact ih h
  | case3 c cs hreturn hc ih =>
    rw [splitLines.eq_3 c cs hreturn, if_pos hc] at h
    rcases List.mem_cons.mp h with rfl | h
    · exact hempty
    · exact ih h
  | case4 c cs hreturn hc ih =>
    rw [splitLines_cons (Bool.eq_false_iff.mpr hc)] at h
    cases hlines : splitLines cs with
    | nil =>
      rw [hlines, consFirst, List.mem_singleton] at h
      rw [h, IsLine, List.forall_mem_singleton]
      exact Bool.eq_false_iff.mpr hc
    | cons first later =>
      rw [hlines] at h ih
      rcases List.mem_cons.mp h with rfl | h
      · rw [IsLine, List.forall_mem_cons]
        exact ⟨Bool.eq_false_iff.mpr hc, ih List.mem_cons_self⟩
      · exact ih (List.mem_cons_of_mem _ h)

/-- A newline ends the last line in front of it, or an empty line of its own. -/
theorem splitLines_append_newline (cs rest : List Char) : ∃ last, (last = [] ∨ last = [[]]) ∧
    splitLines (cs ++ '\n' :: rest) = splitLines cs ++ last ++ splitLines rest := by
  induction cs using splitLines.induct with
  | case1 => exact ⟨[[]], Or.inr rfl, splitLines_break (by decide) (by decide)⟩
  | case2 cs ih =>
    obtain ⟨last, hlast, hsplit⟩ := ih
    refine ⟨last, hlast, ?_⟩
    simp only [List.cons_append, splitLines, hsplit]
  | case3 c cs hreturn hc ih =>
    by_cases hend : c = '\r' ∧ cs = []
    · obtain ⟨rfl, rfl⟩ := hend
      exact ⟨[], Or.inl rfl, rfl⟩
    · obtain ⟨last, hlast, hsplit⟩ := ih
      refine ⟨last, hlast, ?_⟩
      have hreturn' : ∀ ds, c = '\r' → cs ++ '\n' :: rest = '\n' :: ds → False := by
        rintro ds rfl hds
        cases cs with
        | nil => exact hend ⟨rfl, rfl⟩
        | cons d cs =>
          rw [List.cons_append, List.cons.injEq] at hds
          exact hreturn cs rfl (by rw [hds.1])
      rw [List.cons_append, splitLines.eq_3 c cs hreturn, splitLines.eq_3 c _ hreturn', if_pos hc,
        if_pos hc, hsplit]
      rfl
  | case4 c cs hreturn hc ih =>
    rw [Bool.not_eq_true] at hc
    cases cs with
    | nil =>
      have hline : IsLine [c] := by simpa [IsLine] using hc
      refine ⟨[], Or.inl rfl, ?_⟩
      rw [splitLines_newline hline, splitLines_line hline (by simp)]
      rfl
    | cons d ds =>
      obtain ⟨last, hlast, hsplit⟩ := ih
      refine ⟨last, hlast, ?_⟩
      rw [List.cons_append, splitLines_cons hc, splitLines_cons hc, hsplit,
        splitLines_nonempty (by simp)]
      rfl

end Stepwise.Text
