import Stepwise.Proofs.Language.BareTokens

namespace Stepwise

open Token

variable {stop stop' : Nat}

/-- In front of a semicolon the statements are those of the text that ends there. -/
theorem readStatements_separated {semicolon : Token} (h : semicolon.kind = .semicolon)
    (ts us : List Token) :
    Agree Eq (do return (← readStatements stop 0 ts) ++ (← readStatements stop' 0 us))
      (readStatements stop' 0 (ts.map bare ++ semicolon :: us)) := by
  have closed : endsStatement (semicolon :: us) = true := by
    rw [endsStatement, h]
    rfl
  have htail : readStatements stop' 0 (semicolon :: us) = readStatements stop' 0 us := if_pos h
  rw [← htail]
  exact readStatements_agrees_append closed (Nat.zero_le _)

/-- The two texts, a semicolon on a line of its own between them. -/
def separated (before after : String) : String := before ++ "\n;\n" ++ after

theorem toList_separated (before after : String) : (separated before after).toList =
    before.toList ++ '\n' :: ([';'] ++ '\n' :: after.toList) := by
  simp [separated]

variable {before after : String}

theorem Token.bareTokens?_separated : bareTokens? (separated before after).toList = do
    let ts ← bareTokens? before.toList
    let us ← bareTokens? after.toList
    return ts ++ ⟨.semicolon, ";", 0⟩ :: us := by
  have hsemicolon : bareTokens? [';'] = some [⟨.semicolon, ";", 0⟩] :=
    bareTokens?_alone (some .semicolon) rfl
  rw [toList_separated, bareTokens?_append_newline, bareTokens?_append_newline, hsemicolon]
  cases bareTokens? before.toList with
  | none => rfl
  | some ts => cases bareTokens? after.toList <;> rfl

theorem readProgram_agrees_separated {ts us : List Token}
    (hbefore : bareTokens? before.toList = some ts) (hafter : bareTokens? after.toList = some us) :
    Agree Eq (do return (← readProgram before) ++ (← readProgram after))
      (readProgram (separated before after)) := by
  obtain ⟨tokens, htokens, rfl⟩ := bareTokens?_eq_some.mp hbefore
  have hread : readProgram before = readStatements before.length 0 tokens := by
    rw [readProgram, tokensOf, htokens]
    rfl
  have hparts : Agree Eq (do return (← readProgram before) ++ (← readProgram after))
      (do return (← readStatements before.length 0 tokens) ++ (← readStatements 0 0 us)) := by
    rw [hread]
    refine (Agree.refl _).bind fun ss _ h => ?_
    subst h
    exact (readProgram_of_bareTokens? hafter).bind_same _
  have htogether : Agree Eq
      (do return (← readStatements before.length 0 tokens) ++ (← readStatements 0 0 us))
      (readStatements 0 0 (tokens.map bare ++ ⟨.semicolon, ";", 0⟩ :: us)) :=
    readStatements_separated rfl tokens us
  have hwhole : bareTokens? (separated before after).toList =
      some (tokens.map bare ++ ⟨.semicolon, ";", 0⟩ :: us) := by
    rw [bareTokens?_separated, hbefore, hafter]
    rfl
  exact (hparts.trans htogether).trans (readProgram_of_bareTokens? hwhole).symm

/-- The whole is read if and only if both texts are, and then as the statements of the one followed
by those of the other. -/
theorem readProgram_separated (before after : String) (statements : List Statement) :
    readProgram (separated before after) = .ok statements ↔
      ∃ ss ts, readProgram before = .ok ss ∧ readProgram after = .ok ts ∧
        statements = ss ++ ts := by
  constructor
  · intro h
    obtain ⟨tokens, htokens⟩ := exists_bareTokens? h
    rw [bareTokens?_separated] at htokens
    obtain ⟨ts, hbefore, hrest⟩ := Option.bind_eq_some_iff.mp htokens
    obtain ⟨us, hafter, -⟩ := Option.bind_eq_some_iff.mp hrest
    have hparts := ((readProgram_agrees_separated hbefore hafter).ok_iff statements).mpr h
    obtain ⟨ss, hss, hrest⟩ := ok_of_bind hparts
    obtain ⟨ts, hts, hstatements⟩ := ok_of_bind hrest
    cases hstatements
    exact ⟨ss, ts, hss, hts, rfl⟩
  · rintro ⟨ss, ts, hbefore, hafter, rfl⟩
    obtain ⟨tokens, htokens⟩ := exists_bareTokens? hbefore
    obtain ⟨tokens', htokens'⟩ := exists_bareTokens? hafter
    refine ((readProgram_agrees_separated htokens htokens').ok_iff _).mp ?_
    rw [hbefore, hafter]
    rfl

end Stepwise
