import StyleLang.Proofs.Source.Progress
import StyleLang.Proofs.Source.Soundness

/-!
# Literals that are too long

A text that is read to its end may still fail, because a number in it has too many digits. Where that
happens the number stands in the text as it is reported, with its unit. That of several such numbers
the first is reported does not come in.
-/

namespace StyleLang.Source

/-- The text is read to its end, but in it stands a literal of the terminal `t` with `n` digits, more
than a number can be read from. -/
structure HasOverlong (source : String) (t : Terminal) (n : Nat) : Prop where
  read : ∃ members, readAll .start source.toList source.toList = .ok (members, some ⟨t, n⟩)
  written : ∃ before digits unit after, source.toList = before ++ (digits ++ unit) ++ after ∧
    (t, unit) ∈ units ∧ isDigitsText digits = true ∧ digits.length = n
  many : Text.maxDigits < n

namespace Reading

theorem mem_units_of_overlong? {t : Token} {o : Overlong} (h : overlong? t = some o) :
    o.terminal = t.terminal ∧ ∃ unit, (o.terminal, unit) ∈ units := by
  have hmem : t.terminal ∈ units.map Prod.fst := by
    by_contra hmem
    cases h.symm.trans (overlong?_word hmem)
  have hterminal : o.terminal = t.terminal := by
    simp only [overlong?] at h
    split at h
    · cases h
    · split at h <;> rename_i ht <;> cases h <;> exact ht.symm
  obtain ⟨⟨_, unit⟩, hunit, rfl⟩ := List.mem_map.mp hmem
  exact ⟨hterminal, unit, hterminal ▸ hunit⟩

/-- The text of the token is a run of digits and a unit, and the digits are those that are counted. -/
theorem digits_of_overlong? {t : Token} {o : Overlong} (hlex : Lexeme t.terminal t.text)
    (h : overlong? t = some o) :
    Text.maxDigits < o.digits ∧ ∃ digits unit, t.text = digits ++ unit ∧
      (o.terminal, unit) ∈ units ∧ isDigitsText digits = true ∧ digits.length = o.digits := by
  obtain ⟨hterminal, unit, hunit⟩ := mem_units_of_overlong? h
  obtain ⟨digits, hdigits, htext⟩ := hlex.digits (hterminal ▸ hunit)
  have htake : t.text.takeWhile Text.isDigit = digits := by
    rw [htext]
    exact takeWhile_unit hdigits hunit
  have hcount : Text.maxDigits < digits.length ∧ o.digits = digits.length := by
    simp only [overlong?, htake] at h
    split at h
    · cases h
    · rename_i hlong
      refine ⟨by omega, ?_⟩
      split at h <;> cases h <;> rfl
  exact ⟨by omega, digits, unit, htext, hunit, hdigits, hcount.2.symm⟩

/-- A reading that ends with a report of an overlong literal began with it, or came to it. -/
theorem exists_of_readAll {r : Reading} {last cs : List Char} {members : List Node} {o : Overlong}
    (hr : readAll r last cs = .ok (members, some o)) :
    r.overlong = some o ∨ ∃ before t after, cs = before ++ t.text ++ after ∧
      Lexeme t.terminal t.text ∧ overlong? t = some o := by
  fun_induction readAll r last cs with
  | case1 r last cs hskip members' hf =>
    simp only [Except.ok.injEq, Prod.mk.injEq] at hr
    exact Or.inl hr.2
  | case4 r last cs c rest hskip t rest' hscan r' hadv ih =>
    obtain ⟨gap, -, hcs⟩ := gap_skip cs
    have htext : cs = gap ++ (t.text ++ rest') := by rw [hcs, hskip, (scan?_append hscan).1]
    rcases ih hr with hnow | ⟨before, t', after, rfl, hlex, hlong⟩
    · rcases overlong_advance hadv with hsame | ⟨-, hhere⟩
      · exact Or.inl (hsame.symm.trans hnow)
      · exact Or.inr ⟨gap, t, rest', by rw [htext, List.append_assoc],
          (scanned_of_scan? hscan).lexeme, hhere.symm.trans hnow⟩
    · exact Or.inr ⟨gap ++ t.text ++ before, t', after, by simp [htext], hlex, hlong⟩
  | case2 | case3 | case5 => cases hr

end Reading

theorem hasOverlong_of_parse {source : String} {t : Terminal} {n : Nat}
    (h : parse source = .error (.overlong t n)) : HasOverlong source t n := by
  simp only [parse] at h
  split at h
  · cases h
  · rename_i members o hread
    cases h
    rcases Reading.exists_of_readAll hread with hstart | ⟨before, token, after, htext, hlex, hlong⟩
    · cases hstart
    · obtain ⟨hmany, digits, unit, hdigits, hunit, hall, hlen⟩ := Reading.digits_of_overlong? hlex hlong
      exact ⟨⟨members, hread⟩, ⟨before, digits, unit, after, by rw [← hdigits, htext], hunit, hall, hlen⟩,
        hmany⟩
  · cases h

theorem HasOverlong.parse_eq {source : String} {t : Terminal} {n : Nat} (h : HasOverlong source t n) :
    parse source = .error (.overlong t n) := by
  obtain ⟨members, hread⟩ := h.read
  simp only [parse, hread]

end StyleLang.Source
