import Mathlib.Data.List.Forall2
import Stepwise.Json.Reader
import Stepwise.Json.Writer
import Stepwise.Proofs.Failure
import Stepwise.Proofs.Json.Quotation

namespace Stepwise.Json

mutual

/-- Texts, and lists and objects of them. The names in an object differ. -/
def isPlain : Json → Bool
  | .text _ => true
  | .list items => allPlain items
  | .object fields => decide (fields.map Prod.fst).Nodup && fieldsPlain fields
  | _ => false

def allPlain : List Json → Bool
  | [] => true
  | v :: vs => v.isPlain && allPlain vs

def fieldsPlain : List (String × Json) → Bool
  | [] => true
  | (_, v) :: fields => v.isPlain && fieldsPlain fields

end

theorem allPlain_iff {vs : List Json} : allPlain vs = true ↔ ∀ v ∈ vs, v.isPlain = true := by
  induction vs with
  | nil => simp [allPlain]
  | cons v vs ih => simp [allPlain, ih]

/-- The text from a position on splits into the tokens. -/
def Scans (p : Nat) (cs : List Char) (ts : List Token) : Prop :=
  ∀ rest, scan p 0 (cs ++ rest) = ts ++ scan (p + cs.length) 0 rest

theorem scan_skip {p : Nat} {cs rest : List Char} :
    scan p cs.length (cs ++ rest) = scan (p + cs.length) 0 rest := by
  induction cs generalizing p with
  | nil => rfl
  | cons c cs ih =>
    rw [List.length_cons, List.cons_append, scan, ih]
    congr 1
    omega

namespace Scans

variable {p : Nat} {cs ds : List Char} {ts us : List Token}

theorem nil : Scans p [] [] := fun _ => rfl

theorem append (h : Scans p cs ts) (h' : Scans (p + cs.length) ds us) :
    Scans p (cs ++ ds) (ts ++ us) := by
  intro rest
  rw [List.append_assoc, h, h', List.append_assoc, List.length_append, Nat.add_assoc]

theorem blank {c : Char} (hc : isBlank c = true) : Scans p [c] [] := by
  intro rest
  rw [List.singleton_append, scan, if_pos hc]
  rfl

theorem blanks {n : Nat} : Scans p (List.replicate n ' ') [] := by
  induction n generalizing p with
  | zero => exact nil
  | succ n ih => exact (blank (by decide)).append ih

theorem lineStart {indent level : Nat} : Scans p (lineStart indent level) [] :=
  (blank (by decide)).append blanks

/-- A token that can be read takes up the characters it says. -/
theorem of_piece {c : Char} {found : Piece} (hc : isBlank c = false)
    (hfound : found.isFaulty = false)
    (h : ∀ rest, piece p c (cs ++ rest) = (found, cs.length + 1)) :
    Scans p (c :: cs) [⟨found, p⟩] := by
  intro rest
  rw [List.cons_append, scan, if_neg (by simp [hc])]
  simp only [h, hfound, Nat.add_sub_cancel, scan_skip, List.length_cons]
  rw [Nat.add_right_comm, Nat.add_assoc]
  rfl

theorem mark {c : Char} {found : Piece} (hc : isBlank c = false) (hfound : found.isFaulty = false)
    (h : mark? c = some found) : Scans p [c] [⟨found, p⟩] :=
  of_piece hc hfound fun rest => by rw [piece, h]; rfl

theorem comma : Scans p [','] [⟨.comma, p⟩] := mark (by decide) rfl rfl

theorem text {s : String} : Scans p (writtenText s) [⟨.text s, p⟩] := by
  refine of_piece (by decide) rfl fun rest => ?_
  have hmark : mark? '"' = none := rfl
  change piece p '"' (s.toList.flatMap escapeChar ++ ['"'] ++ rest) = _
  rw [List.append_assoc, List.singleton_append]
  simp only [piece, hmark, readText_escaped, if_true]
  simp

theorem separator {layout : Layout} {level : Nat} :
    Scans p (separator layout level) [⟨.comma, p⟩] := by
  cases layout with
  | none => exact comma.append (blank (by decide))
  | some indent => exact comma.append lineStart

end Scans

variable {α : Type}

/-- The tokens form the values, one after another, with commas between them. -/
inductive Separated (Forms : List Token → α → Prop) : List Token → List α → Prop
  | one {ts : List Token} {a : α} (first : Forms ts a) : Separated Forms ts [a]
  | more {ts us : List Token} {comma : Token} {a : α} {as : List α} (first : Forms ts a)
      (kind : comma.piece = .comma) (rest : Separated Forms us as) :
      Separated Forms (ts ++ comma :: us) (a :: as)

/-- The tokens form the values between two marks. Lists and objects are both of this form. -/
inductive Enclosed (opening closing : Piece) (Forms : List Token → α → Prop) :
    List Token → List α → Prop
  | empty {first last : Token} (opens : first.piece = opening) (closes : last.piece = closing) :
      Enclosed opening closing Forms [first, last] []
  | parts {first last : Token} {ts : List Token} {as : List α} (opens : first.piece = opening)
      (separated : Separated Forms ts as) (closes : last.piece = closing) :
      Enclosed opening closing Forms (first :: (ts ++ [last])) as

/-- Wherever the text stands, it consists of tokens that form the value. -/
def Stands (Forms : List Token → α → Prop) (cs : List Char) (a : α) : Prop :=
  ∀ p, ∃ ts, Scans p cs ts ∧ Forms ts a

namespace Stands

variable {Forms : List Token → α → Prop}

theorem separated {layout : Layout} {level : Nat} {part : List Char} {parts : List (List Char)}
    {a : α} {as : List α} (h : Stands Forms part a) (hrest : List.Forall₂ (Stands Forms) parts as) :
    Stands (Separated Forms) (List.intercalate (separator layout level) (part :: parts))
      (a :: as) := by
  induction hrest generalizing part a with
  | nil =>
    intro p
    obtain ⟨ts, hscan, hforms⟩ := h p
    exact ⟨ts, by simpa using hscan, .one hforms⟩
  | cons hfirst _ ih =>
    intro p
    obtain ⟨ts, hscan, hforms⟩ := h p
    obtain ⟨us, hscan', hforms'⟩ := ih hfirst (p + part.length + (separator layout level).length)
    rw [List.intercalate_cons_cons, List.append_assoc]
    exact ⟨_, hscan.append (Scans.separator.append hscan'), .more hforms rfl hforms'⟩

/-- Parts between two marks, with whatever blanks the layout puts there. -/
theorem enclose {layout : Layout} {level : Nat} {opening closing : Char} {first last : Piece}
    {parts : List (List Char)} {as : List α} (hopening : ∀ p, Scans p [opening] [⟨first, p⟩])
    (hclosing : ∀ p, Scans p [closing] [⟨last, p⟩]) (h : List.Forall₂ (Stands Forms) parts as) :
    Stands (Enclosed first last Forms) (enclose layout level opening closing parts) as := by
  intro p
  cases h with
  | nil => exact ⟨_, (hopening p).append (hclosing _), .empty rfl rfl⟩
  | @cons part a parts as hfirst hrest =>
    cases layout with
    | none =>
      obtain ⟨ts, hscan, hforms⟩ := separated hfirst hrest (p + 1)
      exact ⟨_, (hopening p).append (hscan.append (hclosing _)), .parts rfl hforms rfl⟩
    | some indent =>
      obtain ⟨ts, hscan, hforms⟩ := separated hfirst hrest (p + 1 + (lineStart indent level).length)
      have hline (q : Nat) : Scans q (lineStart indent (level - 1)) [] := Scans.lineStart
      have hall := (hopening p).append
        (Scans.lineStart.append (hscan.append ((hline _).append (hclosing _))))
      have henclose : Json.enclose (some indent) level opening closing (part :: parts) =
          [opening] ++ (lineStart indent level ++ (List.intercalate (separator (some indent) level)
            (part :: parts) ++ (lineStart indent (level - 1) ++ [closing]))) := by
        simp [Json.enclose]
      rw [henclose]
      exact ⟨_, hall, .parts rfl hforms rfl⟩

end Stands

/-- The tokens begin with another mark than the closing one, so something is enclosed. -/
def Begins (closing : Piece) (ts : List Token) : Prop :=
  ∃ t us, ts = t :: us ∧ t.piece ≠ closing

theorem Begins.append {closing : Piece} {ts us : List Token} (h : Begins closing ts) :
    Begins closing (ts ++ us) := by
  obtain ⟨t, ts, rfl, ht⟩ := h
  exact ⟨t, ts ++ us, rfl, ht⟩

theorem Begins.of_separated {closing : Piece} {Forms : List Token → α → Prop} {ts : List Token}
    {as : List α} (h : Separated Forms ts as)
    (hforms : ∀ us a, Forms us a → Begins closing us) : Begins closing ts := by
  cases h with
  | one first => exact hforms _ _ first
  | more first _ _ => exact (hforms _ _ first).append

/-- The tokens are read as the value, whatever is open and whatever follows. -/
structure Holds (ts : List Token) (v : Json) : Prop where
  begins : Begins .closeList ts
  reads : ∀ stop outer rest, readValue stop outer (ts ++ rest) = readAfter stop outer v rest

/-- A name, a colon and tokens that are read as the value. -/
inductive HoldsField : List Token → String × Json → Prop
  | mk {name colon : Token} {ts : List Token} {s : String} {v : Json}
      (names : name.piece = .text s) (kind : colon.piece = .colon) (value : Holds ts v) :
      HoldsField (name :: colon :: ts) (s, v)

theorem HoldsField.begins {ts : List Token} {field : String × Json} (h : HoldsField ts field) :
    Begins .closeObject ts := by
  obtain ⟨names, -, -⟩ := h
  exact ⟨_, _, rfl, by simp [names]⟩

section Reading

variable {stop : Nat} {outer : List Enclosing} {ts rest : List Token} {last : Token}

theorem readValue_openList {t : Token} (h : t.piece = .openList) (hts : Begins .closeList ts) :
    readValue stop outer (t :: ts) = readValue stop (.list [] :: outer) ts := by
  obtain ⟨c, ts, rfl, hc⟩ := hts
  rw [readValue.eq_def]
  simp only [h]

theorem readValue_openObject {t : Token} (h : t.piece = .openObject)
    (hts : Begins .closeObject ts) :
    readValue stop outer (t :: ts) = readName stop outer [] ts := by
  obtain ⟨c, ts, rfl, hc⟩ := hts
  rw [readValue.eq_def]
  simp only [h]

theorem readValue_items {vs : List Json} (h : Separated Holds ts vs)
    (hlast : last.piece = .closeList) (done : List Json) :
    readValue stop (.list done :: outer) (ts ++ last :: rest) =
      readAfter stop outer (.list (done ++ vs)) rest := by
  induction h generalizing done with
  | one first =>
    rw [first.reads, readAfter]
    simp only [hlast]
  | more first kind _ ih =>
    rw [List.append_assoc, List.cons_append, first.reads, readAfter]
    simp only [kind]
    rw [ih, List.append_assoc, List.singleton_append]

theorem putEntry_of_nodup {done fields : List (String × Json)} {s : String} {v : Json}
    (h : ((done ++ (s, v) :: fields).map Prod.fst).Nodup) :
    putEntry done s v = done ++ [(s, v)] := by
  apply putEntry_of_notMem
  rw [List.map_append, List.map_cons] at h
  exact fun hmem => (List.nodup_append.mp h).2.2 s hmem s List.mem_cons_self rfl

theorem readName_field {s : String} {v : Json} (h : HoldsField ts (s, v))
    (done : List (String × Json)) :
    readName stop outer done (ts ++ rest) = readAfter stop (.object done s :: outer) v rest := by
  obtain ⟨names, kind, value⟩ := h
  rw [List.cons_append, List.cons_append, readName.eq_def]
  simp only [names, kind, value.reads]

theorem readName_fields {fields : List (String × Json)} (h : Separated HoldsField ts fields)
    (hlast : last.piece = .closeObject) (done : List (String × Json))
    (hnodup : ((done ++ fields).map Prod.fst).Nodup) :
    readName stop outer done (ts ++ last :: rest) =
      readAfter stop outer (.object (done ++ fields)) rest := by
  induction h generalizing done with
  | one first =>
    rw [readName_field first, readAfter]
    simp only [hlast, putEntry_of_nodup hnodup]
  | @more _ _ _ field _ first kind _ ih =>
    obtain ⟨s, v⟩ := field
    rw [List.append_assoc, List.cons_append, readName_field first, readAfter]
    simp only [kind, putEntry_of_nodup hnodup]
    rw [List.append_cons] at hnodup
    rw [ih _ hnodup, List.append_assoc, List.singleton_append]

end Reading

namespace Holds

variable {ts : List Token}

theorem text {t : Token} {s : String} (h : t.piece = .text s) : Holds [t] (.text s) := by
  refine ⟨⟨t, [], rfl, by simp [h]⟩, fun stop outer rest => ?_⟩
  rw [List.singleton_append, readValue.eq_def]
  simp only [h]

theorem list {vs : List Json} (h : Enclosed .openList .closeList Holds ts vs) :
    Holds ts (.list vs) := by
  cases h with
  | empty opens closes =>
    refine ⟨⟨_, _, rfl, by simp [opens]⟩, fun stop outer rest => ?_⟩
    rw [List.cons_append, readValue.eq_def]
    simp only [List.cons_append, List.nil_append, opens, closes]
  | parts opens separated closes =>
    refine ⟨⟨_, _, rfl, by simp [opens]⟩, fun stop outer rest => ?_⟩
    rw [List.cons_append, List.append_assoc, List.singleton_append,
      readValue_openList opens (Begins.of_separated separated fun _ _ h => h.begins).append,
      readValue_items separated closes, List.nil_append]

theorem object {fields : List (String × Json)} (hnodup : (fields.map Prod.fst).Nodup)
    (h : Enclosed .openObject .closeObject HoldsField ts fields) : Holds ts (.object fields) := by
  cases h with
  | empty opens closes =>
    refine ⟨⟨_, _, rfl, by simp [opens]⟩, fun stop outer rest => ?_⟩
    rw [List.cons_append, readValue.eq_def]
    simp only [List.cons_append, List.nil_append, opens, closes]
  | parts opens separated closes =>
    refine ⟨⟨_, _, rfl, by simp [opens]⟩, fun stop outer rest => ?_⟩
    rw [List.cons_append, List.append_assoc, List.singleton_append,
      readValue_openObject opens (Begins.of_separated separated fun _ _ h => h.begins).append,
      readName_fields separated closes [] hnodup, List.nil_append]

end Holds

namespace Stands

variable {layout : Layout} {level : Nat} {parts : List (List Char)}

theorem list {vs : List Json} (h : List.Forall₂ (Stands Holds) parts vs) :
    Stands Holds (Json.enclose layout level '[' ']' parts) (.list vs) := by
  have henclosed : Stands (Enclosed .openList .closeList Holds)
      (Json.enclose layout level '[' ']' parts) vs :=
    enclose (fun _ => .mark (by decide) rfl rfl) (fun _ => .mark (by decide) rfl rfl) h
  exact fun p => (henclosed p).imp fun _ ⟨hscan, hforms⟩ => ⟨hscan, .list hforms⟩

theorem object {fields : List (String × Json)} (hnodup : (fields.map Prod.fst).Nodup)
    (h : List.Forall₂ (Stands HoldsField) parts fields) :
    Stands Holds (Json.enclose layout level '\x7b' '\x7d' parts) (.object fields) := by
  have henclosed : Stands (Enclosed .openObject .closeObject HoldsField)
      (Json.enclose layout level '\x7b' '\x7d' parts) fields :=
    enclose (fun _ => .mark (by decide) rfl rfl) (fun _ => .mark (by decide) rfl rfl) h
  exact fun p => (henclosed p).imp fun _ ⟨hscan, hforms⟩ => ⟨hscan, .object hnodup hforms⟩

theorem field {name : String} {cs : List Char} {v : Json} (h : Stands Holds cs v) :
    Stands HoldsField (writtenText name ++ ':' :: ' ' :: cs) (name, v) := by
  intro p
  obtain ⟨ts, hscan, hvalue⟩ := h (p + (writtenText name).length + 1 + 1)
  have hcolon (q : Nat) : Scans q [':'] [⟨.colon, q⟩] := .mark (by decide) rfl rfl
  have hblank (q : Nat) : Scans q [' '] [] := .blank (by decide)
  exact ⟨_, Scans.text.append ((hcolon _).append ((hblank _).append hscan)), .mk rfl rfl hvalue⟩

end Stands

mutual

theorem stands_written {layout : Layout} : (level : Nat) → (v : Json) → v.isPlain = true →
    Stands Holds (written layout level v) v
  | _, .text _, _ => by
    rw [written]
    exact fun _ => ⟨_, Scans.text, .text rfl⟩
  | level, .list items, h => by
    rw [written]
    exact .list (stands_items (level + 1) items h)
  | level, .object fields, h => by
    rw [isPlain, Bool.and_eq_true, decide_eq_true_eq] at h
    rw [written]
    exact .object h.1 (stands_fields (level + 1) fields h.2)
  | _, .null, h | _, .bool _, h | _, .int _, h | _, .real _, h => by cases h

theorem stands_items {layout : Layout} : (level : Nat) → (vs : List Json) → allPlain vs = true →
    List.Forall₂ (Stands Holds) (writtenItems layout level vs) vs
  | _, [], _ => .nil
  | level, v :: vs, h => by
    rw [allPlain, Bool.and_eq_true] at h
    exact .cons (stands_written level v h.1) (stands_items level vs h.2)

theorem stands_fields {layout : Layout} : (level : Nat) → (fields : List (String × Json)) →
    fieldsPlain fields = true →
    List.Forall₂ (Stands HoldsField) (writtenFields layout level fields) fields
  | _, [], _ => .nil
  | level, (_, v) :: fields, h => by
    rw [fieldsPlain, Bool.and_eq_true] at h
    exact .cons (.field (stands_written level v h.1)) (stands_fields level fields h.2)

end

theorem head?_enclose {layout : Layout} {level : Nat} {opening closing : Char}
    {parts : List (List Char)} :
    (enclose layout level opening closing parts).head? = some opening := by
  unfold enclose
  split
  · rfl
  · cases layout <;> rfl

theorem head?_written {layout : Layout} {level : Nat} {v : Json} (h : v.isPlain = true) :
    (written layout level v).head? ≠ some '\uFEFF' := by
  cases v with
  | text s => simp [written, writtenText]
  | list | object =>
    rw [written, head?_enclose]
    decide
  | null | bool | int | real => cases h

/-- Texts, lists and objects are read back from any layout. -/
theorem read_write {v : Json} (h : v.isPlain = true) (layout : Layout) :
    read (write layout v) = .ok v := by
  have hstands : Stands Holds (written layout 0 v) v := stands_written 0 v h
  obtain ⟨ts, hscan, hvalue⟩ := hstands 0
  have htokens : scan 0 0 (written layout 0 v) = ts := by simpa [scan] using hscan []
  have hread : readValue (written layout 0 v).length [] ts = .ok v := by
    simpa [readAfter] using hvalue.reads (written layout 0 v).length [] []
  rw [read, write, String.toList_ofList]
  simp only [htokens, hread, head?_written h, if_false]
  rfl

end Stepwise.Json
