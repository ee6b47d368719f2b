import StyleLang.Proofs.Source.Lexeme

/-!
# Scanning a lexeme

A lexeme at the front of a text is scanned as a token if the character after it is not of its class and
no other terminal that is tried can begin with its first character. First characters fall into groups,
so the second condition is a question about lists of terminals alone. Pixels, percentages and scalars
begin alike; what follows the digits tells them apart.
-/

namespace StyleLang.Source

/-- Terminals that begin with the same characters are of one group. -/
def Terminal.group : Terminal → Nat
  | pixel | percentage | scalar => 0
  | color | idName => 1
  | className => 2
  | variableName => 3
  | tagName => 4
  | assign | colon => 5
  | comma => 6
  | openBrace => 7
  | closeBrace => 8
  | openBracket => 9
  | closeBracket => 10
  | plus => 11
  | minus => 12
  | star => 13
  | semicolon => 14
  | ifWord | elseWord | trueWord | falseWord | ending => 15

/-- The group of the terminals that begin with a character. -/
def group (c : Char) : Nat :=
  if Text.isDigit c then 0
  else if c = '#' then 1
  else if c = '.' then 2
  else if isUpper c then 3
  else if isLower c then 4
  else if c = ':' then 5
  else if c = ',' then 6
  else if c = '\x7b' then 7
  else if c = '\x7d' then 8
  else if c = '[' then 9
  else if c = ']' then 10
  else if c = '+' then 11
  else if c = '-' then 12
  else if c = '*' then 13
  else if c = ';' then 14
  else 15

theorem isDigit_of_letter {c : Char} (h : 65 ≤ c.toNat ∧ c.toNat ≤ 122) :
    Text.isDigit c = false := by
  rw [Bool.eq_false_iff]
  intro hd
  have := Text.toNat_of_isDigit hd
  omega

theorem group_of_isUpper {c : Char} (h : isUpper c = true) : group c = 3 := by
  have hrange := isUpper_iff.mp h
  have hdigit := isDigit_of_letter (c := c) (by omega)
  have hhash : c ≠ '#' := by
    intro hc
    rw [hc] at h
    exact absurd h (by decide)
  have hdot : c ≠ '.' := by
    intro hc
    rw [hc] at h
    exact absurd h (by decide)
  simp [group, hdigit, hhash, hdot, h]

theorem group_of_isLower {c : Char} (h : isLower c = true) : group c = 4 := by
  have hrange := isLower_iff.mp h
  have hdigit := isDigit_of_letter (c := c) (by omega)
  have hhash : c ≠ '#' := by
    intro hc
    rw [hc] at h
    exact absurd h (by decide)
  have hdot : c ≠ '.' := by
    intro hc
    rw [hc] at h
    exact absurd h (by decide)
  have hupper : isUpper c = false := by
    rw [Bool.eq_false_iff]
    intro hu
    have := isUpper_iff.mp hu
    omega
  simp [group, hdigit, hhash, hdot, hupper, h]

theorem first_of_run? {first next : Char → Bool} {c : Char} {cs w rest : List Char}
    (h : run? first next (c :: cs) = some (w, rest)) : first c = true := by
  rw [run?] at h
  split at h
  · assumption
  · cases h

theorem first_of_char? {x c : Char} {cs w rest : List Char}
    (h : char? x (c :: cs) = some (w, rest)) : c = x := by
  obtain ⟨-, h⟩ := char?_iff.mp h
  exact (List.cons.inj h).1

/-- What a lexeme begins with says the group of its terminal. -/
theorem group_of_spelled? {t : Terminal} {c : Char} {cs w rest : List Char}
    (h : t.spelled? (c :: cs) = some (w, rest)) : group c = t.group := by
  cases t with
  | pixel | percentage =>
    obtain ⟨ds, mid, b, hds, -⟩ := followedBy?_iff.mp h
    exact if_pos (first_of_run? hds)
  | scalar => exact if_pos (first_of_run? h)
  | color | className | idName | assign =>
    obtain ⟨a, mid, b, ha, -⟩ := followedBy?_iff.mp h
    rw [first_of_char? ha]
    decide
  | variableName => exact group_of_isUpper (first_of_run? h)
  | tagName => exact group_of_isLower (first_of_run? h)
  | colon | comma | openBrace | closeBrace | openBracket | closeBracket | plus | minus | star
  | semicolon =>
    rw [first_of_char? h]
    decide
  | ifWord | elseWord | trueWord | falseWord | ending => cases h

theorem mem_spelled {t : Terminal} {cs : List Char} {m : Match} (h : t.spelled? cs = some m) :
    t ∈ Terminal.spelled := by
  cases t <;> first | decide | cases h

theorem scan?_of_first {tried : List Terminal} (as bs : List Terminal) {t : Terminal}
    {cs w rest : List Char} (hsplit : Terminal.spelled = as ++ t :: bs) (ht : t ∈ tried)
    (has : ∀ u ∈ as, u ∈ tried → u.spelled? cs = none) (h : t.spelled? cs = some (w, rest)) :
    scan? tried cs = some (⟨classify tried t w, w⟩, rest) := by
  rw [scan?, hsplit, List.findSome?_append, List.findSome?_cons]
  have hnone : (as.findSome? fun u =>
      if u ∈ tried then (u.spelled? cs).map fun m => ((⟨classify tried u m.1, m.1⟩ : Token), m.2)
      else none) = none := by
    rw [List.findSome?_eq_none_iff]
    intro u hu
    by_cases hmem : u ∈ tried
    · rw [if_pos hmem, has u hu hmem]
      rfl
    · exact if_neg hmem
  rw [hnone, if_pos ht, h]
  rfl

/-- No other terminal that is tried is of the group. -/
def Alone (tried : List Terminal) (t : Terminal) : Prop :=
  t ∈ tried ∧ ∀ u ∈ tried, u ≠ t → u.group ≠ t.group

instance (tried : List Terminal) (t : Terminal) : Decidable (Alone tried t) :=
  inferInstanceAs (Decidable (_ ∧ _))

theorem scan?_of_alone {tried : List Terminal} {t : Terminal} {cs w rest : List Char}
    (ht : Alone tried t) (h : t.spelled? cs = some (w, rest)) :
    scan? tried cs = some (⟨classify tried t w, w⟩, rest) := by
  obtain ⟨as, bs, hsplit, hnot⟩ := List.eq_append_cons_of_mem (mem_spelled h)
  refine scan?_of_first as bs hsplit ht.1 ?_ h
  intro u hu hmem
  have hne : u ≠ t := by
    intro h
    obtain rfl := h
    exact hnot hu
  cases cs with
  | nil =>
    obtain ⟨happ, hw⟩ := Terminal.spelled?_append h
    simp_all
  | cons c cs =>
    cases hs : u.spelled? (c :: cs) with
    | none => rfl
    | some m =>
      have hgroup := (group_of_spelled? hs).symm.trans (group_of_spelled? h)
      exact absurd hgroup (ht.2 u hmem hne)

/-- A token begins where skipping stops. -/
theorem skip_of_scan? {tried : List Terminal} {cs rest : List Char} {t : Token}
    (h : scan? tried cs = some (t, rest)) : skip cs = cs := by
  cases cs with
  | nil => rw [skip]
  | cons c cs =>
    obtain ⟨u, hu, hscan⟩ := List.exists_of_findSome?_eq_some h
    have hne : u.group ≠ 15 := by
      have hall : ∀ u ∈ Terminal.spelled, u.group ≠ 15 := by decide
      exact hall u hu
    have hgroup : group c = u.group := by
      split at hscan
      · obtain ⟨⟨w, rest'⟩, hw, -⟩ := Option.map_eq_some_iff.mp hscan
        exact group_of_spelled? hw
      · cases hscan
    refine skip_of_solid ?_ ?_ cs
    · rw [Bool.eq_false_iff]
      intro hb
      have hblank : group c = 15 := by
        simp only [isBlank, Bool.or_eq_true, decide_eq_true_eq, or_assoc] at hb
        rcases hb with rfl | rfl | rfl | rfl | rfl <;> decide
      exact hne (hgroup.symm.trans hblank)
    · intro h
      obtain rfl := h
      exact hne (hgroup.symm.trans (by decide))

theorem classify_name {tried : List Terminal} {t : Terminal} {w : List Char}
    (h : ∀ k, keyword? t w = some k → k ∉ tried) : classify tried t w = t := by
  rw [classify]
  split
  · rename_i k hk
    exact if_neg (h k hk)
  · rfl

theorem classify_keyword {tried : List Terminal} {t k : Terminal} {w : List Char}
    (h : keyword? t w = some k) (hk : k ∈ tried) : classify tried t w = k := by
  simp only [classify, h, if_pos hk]

/-- The next character, if there is one, is a blank, begins a comment, or is one of these. -/
def Breaks (marks rest : List Char) : Prop :=
  ∀ c ∈ rest.head?, c ∈ [' ', '\t', '\n', '\x0c', '\r', '/'] ++ marks

theorem Breaks.stops {marks rest : List Char} (h : Breaks marks rest) {next : Char → Bool}
    (hnext : ([' ', '\t', '\n', '\x0c', '\r', '/'] ++ marks).all (!next ·) = true) :
    Stops next rest := by
  intro c hc
  have hall := List.all_eq_true.mp hnext c (h c hc)
  rwa [Bool.not_eq_true'] at hall

theorem breaks_gap {gap : List Char} (h : Gap gap) {marks rest : List Char}
    (hrest : Breaks marks rest) : Breaks marks (gap ++ rest) := by
  cases h with
  | nil => exact hrest
  | @blank c cs hb _ =>
    intro d hd
    cases hd
    simp only [isBlank, Bool.or_eq_true, decide_eq_true_eq, or_assoc] at hb
    rcases hb with rfl | rfl | rfl | rfl | rfl <;> simp
  | comment h rest =>
    intro d hd
    cases hd
    simp

theorem Spells.breaks {x : Char} {xs : List Char} {ps : List Piece} {cs marks : List Char}
    (h : Spells (.exact (x :: xs) :: ps) cs) (hx : x ∈ marks) : Breaks marks cs := by
  cases h with
  | piece hg hp rest =>
    cases hp
    rw [List.append_assoc]
    apply breaks_gap hg
    intro c hc
    cases hc
    exact List.mem_append_right _ hx

end StyleLang.Source
