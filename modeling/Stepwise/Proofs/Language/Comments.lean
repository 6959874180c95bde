import Mathlib.Data.List.TakeWhile
import Stepwise.Proofs.Language.BareTokens
import Stepwise.Proofs.Text.Lines

namespace Stepwise

/-- A text without its comments: the characters from a sign outside of strings to the end of its
line. -/
def withoutCommentsFrom (place : Surrounding) : List Char → List Char
  | [] => []
  | c :: cs =>
    let next := (place.count c).2
    if next = .comment then withoutCommentsFrom next cs else c :: withoutCommentsFrom next cs

def withoutComments (s : String) : String := String.ofList (withoutCommentsFrom .code s.toList)

/-- The comments of a text, in order. -/
def commentsFrom (place : Surrounding) : List Char → List (List Char)
  | [] => []
  | c :: cs =>
    let next := (place.count c).2
    let later := commentsFrom next cs
    if place = .code ∧ next = .comment then (c :: cs.takeWhile (· != '\n')) :: later else later

def comments (s : String) : List (List Char) := commentsFrom .code s.toList

theorem Surrounding.count_code (c : Char) : (count c .code).2 =
    if c = '"' then .string else if c = '#' then .comment else .code := by
  simp only [count]
  split
  · rfl
  split
  · rfl
  split
  · rfl
  split <;> rfl

open Token

section Pieces

variable {c : Char} {cs ds rest text : List Char} {kind : Option Kind}

theorem withoutCommentsFrom_plain (h : ∀ d ∈ cs, d ≠ '"' ∧ d ≠ '#') (rest : List Char) :
    withoutCommentsFrom .code (cs ++ rest) = cs ++ withoutCommentsFrom .code rest ∧
      commentsFrom .code (cs ++ rest) = commentsFrom .code rest := by
  induction cs with
  | nil => exact ⟨rfl, rfl⟩
  | cons c cs ih =>
    rw [List.forall_mem_cons] at h
    have hcount : (Surrounding.count c .code).2 = .code := by
      simp [Surrounding.count_code, h.1]
    simp [withoutCommentsFrom, commentsFrom, hcount, ih h.2]

theorem withoutCommentsFrom_string (h : ∀ d ∈ cs, d ≠ '"' ∧ d ≠ '\n') (rest : List Char) :
    withoutCommentsFrom .string (cs ++ '"' :: rest) =
        cs ++ '"' :: withoutCommentsFrom .code rest ∧
      commentsFrom .string (cs ++ '"' :: rest) = commentsFrom .code rest := by
  induction cs with
  | nil => simp [withoutCommentsFrom, commentsFrom, Surrounding.count]
  | cons c cs ih =>
    rw [List.forall_mem_cons] at h
    have hcount : (Surrounding.count c .string).2 = .string := by simp [Surrounding.count, h.1.1]
    simp [withoutCommentsFrom, commentsFrom, hcount, ih h.2]

theorem withoutCommentsFrom_comment (line : '\n' ∉ text) (ends : ∀ c ∈ rest.head?, c = '\n') :
    withoutCommentsFrom .comment (text ++ rest) = withoutCommentsFrom .code rest ∧
      commentsFrom .comment (text ++ rest) = commentsFrom .code rest := by
  induction text with
  | nil =>
    cases rest with
    | nil => exact ⟨rfl, rfl⟩
    | cons c rest =>
      have hc : c = '\n' := ends c rfl
      subst hc
      simp [withoutCommentsFrom, commentsFrom, Surrounding.count]
  | cons c text ih =>
    rw [List.mem_cons, not_or] at line
    have hcount : (Surrounding.count c .comment).2 = .comment := by
      simp [Surrounding.count, Ne.symm line.1]
    simp [withoutCommentsFrom, commentsFrom, hcount, ih line.2]

/-- A text without its comments is its other parts, each as it is. -/
theorem withoutCommentsFrom_part (h : Part rest kind c ds) :
    withoutCommentsFrom .code (c :: ds ++ rest) =
        (if c = '#' then [] else c :: ds) ++ withoutCommentsFrom .code rest ∧
      commentsFrom .code (c :: ds ++ rest) =
        (if c = '#' then [c :: ds] else []) ++ commentsFrom .code rest := by
  cases h with
  | blank blank =>
    have hplain : c ≠ '"' ∧ c ≠ '#' := by
      constructor
      · rintro rfl
        exact absurd blank (by decide)
      · rintro rfl
        exact absurd blank (by decide)
    have hsingle : ∀ d ∈ [c], d ≠ '"' ∧ d ≠ '#' := by simpa using hplain
    simpa [hplain.2] using withoutCommentsFrom_plain hsingle rest
  | comment line ends =>
    obtain ⟨hwithout, hcomments⟩ := withoutCommentsFrom_comment line ends
    have htext : (ds ++ rest).takeWhile (· != '\n') = ds := takeWhile_line line ends
    simp [withoutCommentsFrom, commentsFrom, Surrounding.count, hwithout, hcomments, htext]
  | @string body inside =>
    obtain ⟨hwithout, hcomments⟩ := withoutCommentsFrom_string inside rest
    simp [withoutCommentsFrom, commentsFrom, Surrounding.count, hwithout, hcomments]
  | solid solid =>
    have hplain : ∀ d ∈ c :: ds, d ≠ '"' ∧ d ≠ '#' := by
      intro d hd
      constructor
      · rintro rfl
        exact absurd (solid _ hd) (by decide)
      · rintro rfl
        exact absurd (solid _ hd) (by decide)
    have hsign : c ≠ '#' := (hplain c List.mem_cons_self).2
    simpa [hsign] using withoutCommentsFrom_plain hplain rest

example : withoutComments "f(a, # (\n\"#\")" = "f(a, \n\"#\")" := by decide +kernel

end Pieces

namespace Token

variable {c : Char} {cs ds rest rest' : List Char} {kind : Option Kind} {ts : List Token}

/-- The characters in front of the first separator. -/
def unbroken (cs : List Char) : List Char := cs.takeWhile fun c => !separates c

theorem lexeme?_unbroken (comment : c ≠ '#') (quote : c ≠ '"') :
    lexeme? c (cs ++ unbroken rest) = lexeme? c (cs ++ rest) := by
  have hsplit := List.takeWhile_append_dropWhile (p := fun c => !separates c) (l := rest)
  have hhead := List.head?_dropWhile_not (fun c => !separates c) rest
  rw [unbroken]
  generalize rest.takeWhile (fun c => !separates c) = front at hsplit ⊢
  generalize rest.dropWhile (fun c => !separates c) = back at hsplit hhead
  subst hsplit
  cases back with
  | nil => rw [List.append_nil]
  | cons b back =>
    have hseparates : separates b = true := by simpa using hhead
    rw [← List.append_assoc, lexeme?_append_stop hseparates comment quote]

theorem quotation?_closed {body : List Char} (h : ∀ c ∈ body, c ≠ '"' ∧ c ≠ '\n') :
    quotation? (body ++ '"' :: rest) = some ('"' :: body ++ ['"']) := by
  have hbody : (body ++ '"' :: rest).takeWhile (fun c => c != '"' && c != '\n') = body := by
    rw [takeWhile_append_stop (by decide), List.takeWhile_eq_self_iff]
    simpa using h
  rw [quotation?, hbody]
  simp

theorem quotation?_eq_none (h : '"' ∉ cs) : quotation? cs = none := by
  cases hquotation : quotation? cs with
  | none => rfl
  | some text =>
    obtain ⟨body, rest, -, rfl, -⟩ := quotation?_eq_some hquotation
    exact absurd (by simp) h

/-- What stands in front of a text stays as it is in front of one that begins as that does. -/
theorem lexeme?_of_unbroken (comment : c ≠ '#') (part : Part rest kind c ds)
    (h : lexeme? c (ds ++ rest) = some (kind, c :: ds)) (same : unbroken rest' = unbroken rest) :
    lexeme? c (ds ++ rest') = some (kind, c :: ds) := by
  by_cases hquote : c = '"'
  · cases part with
    | blank blank =>
      subst hquote
      exact absurd blank (by decide)
    | comment => exact absurd rfl comment
    | string inside =>
      rw [List.append_assoc, List.singleton_append, lexeme?_quote, quotation?_closed inside]
      rfl
    | solid solid =>
      subst hquote
      exact absurd (solid _ List.mem_cons_self) (by decide)
  · rw [← lexeme?_unbroken comment hquote, same, lexeme?_unbroken comment hquote, h]

theorem unbroken_comment : unbroken (withoutCommentsFrom .comment cs) = [] := by
  induction cs with
  | nil => rfl
  | cons c cs ih =>
    by_cases hc : c = '\n'
    · subst hc
      rfl
    · simpa [withoutCommentsFrom, Surrounding.count, hc] using ih

theorem unbroken_withoutComments : unbroken (withoutCommentsFrom .code cs) = unbroken cs := by
  induction cs with
  | nil => rfl
  | cons c cs ih =>
    by_cases hcomment : c = '#'
    · subst hcomment
      exact unbroken_comment
    have hnext : (Surrounding.count c .code).2 ≠ .comment := by
      rw [Surrounding.count_code, if_neg hcomment]
      split <;> simp
    cases hseparates : separates c with
    | true => simp [withoutCommentsFrom, hnext, unbroken, hseparates]
    | false =>
      have hquote : c ≠ '"' := by
        rintro rfl
        exact absurd hseparates (by decide)
      have hplain : ∀ d ∈ [c], d ≠ '"' ∧ d ≠ '#' := by simp [hquote, hcomment]
      have hwithout : withoutCommentsFrom .code (c :: cs) = c :: withoutCommentsFrom .code cs :=
        (withoutCommentsFrom_plain hplain cs).1
      rw [hwithout]
      simpa [unbroken, hseparates] using ih

theorem unbroken_firstLine : unbroken (Text.firstLine cs) = unbroken cs := by
  rw [unbroken, Text.firstLine, List.takeWhile_takeWhile, unbroken]
  congr 1
  funext c
  cases hbreak : Text.isLineBreak c with
  | false => simp
  | true => simp [separates_of_isBlank (Text.isBlank_of_isLineBreak hbreak)]

/-- A text splits into the same tokens without its comments. -/
theorem bareTokens?_withoutComments (h : bareTokens? cs = some ts) :
    bareTokens? (withoutCommentsFrom .code cs) = some ts := by
  induction cs using lexeme_induction generalizing ts with
  | nil => exact h
  | stuck c cs hstuck =>
    rw [bareTokens?_stuck hstuck] at h
    cases h
  | lexeme kind c ds rest hlexeme shape ih =>
    rw [bareTokens?_lexeme hlexeme] at h
    obtain ⟨us, hus, rfl⟩ := Option.map_eq_some_iff.mp h
    rw [(withoutCommentsFrom_part shape.part).1]
    by_cases hcomment : c = '#'
    · subst hcomment
      rw [lexeme?_comment, Option.some.injEq, Prod.mk.injEq] at hlexeme
      rw [← hlexeme.1]
      exact ih hus
    · have hlexeme' := lexeme?_of_unbroken hcomment shape.part hlexeme unbroken_withoutComments
      rw [if_neg hcomment, bareTokens?_lexeme hlexeme', ih hus]
      rfl

end Token

end Stepwise
