import StyleLang.Proofs.Source.Grammar

/-!
# Lexemes

What the text of a token is like, terminal by terminal. A token found is a lexeme of its terminal, and
no name that stands for a keyword on the list.
-/

namespace StyleLang

namespace Text

/-- ASCII digits apart, digits are far above the ASCII characters. -/
theorem toNat_of_isDigit {c : Char} (h : isDigit c = true) :
    (48 ≤ c.toNat ∧ c.toNat ≤ 57) ∨ 1632 ≤ c.toNat := by
  rw [isDigit, digitValue?, Option.isSome_map] at h
  obtain ⟨base, hbase⟩ := Option.isSome_iff_exists.mp h
  have hrange := List.find?_some hbase
  have hzero : base = 48 ∨ 1632 ≤ base := by
    have hall : ∀ b ∈ zeros, b = 48 ∨ 1632 ≤ b := by decide
    exact hall base (List.mem_of_find?_eq_some hbase)
  simp only [Bool.and_eq_true, decide_eq_true_eq] at hrange
  omega

end Text

namespace Source

theorem isUpper_iff {c : Char} : isUpper c = true ↔ 65 ≤ c.toNat ∧ c.toNat ≤ 90 := by
  rw [isUpper, Bool.and_eq_true, decide_eq_true_iff, decide_eq_true_iff]
  rfl

theorem isLower_iff {c : Char} : isLower c = true ↔ 97 ≤ c.toNat ∧ c.toNat ≤ 122 := by
  rw [isLower, Bool.and_eq_true, decide_eq_true_iff, decide_eq_true_iff]
  rfl

theorem isArabic_iff {c : Char} : isArabic c = true ↔ 48 ≤ c.toNat ∧ c.toNat ≤ 57 := by
  rw [isArabic, Bool.and_eq_true, decide_eq_true_iff, decide_eq_true_iff]
  rfl

theorem isHex_iff {c : Char} : isHex c = true ↔ (48 ≤ c.toNat ∧ c.toNat ≤ 57) ∨
    (97 ≤ c.toNat ∧ c.toNat ≤ 102) ∨ (65 ≤ c.toNat ∧ c.toNat ≤ 70) := by
  rw [isHex, Bool.or_eq_true, Bool.or_eq_true, isArabic_iff, Bool.and_eq_true, Bool.and_eq_true,
    decide_eq_true_iff, decide_eq_true_iff, decide_eq_true_iff, decide_eq_true_iff, or_assoc]
  rfl

theorem isWordChar_of_isHex {c : Char} (h : isHex c = true) : Text.isWordChar c = true := by
  have htable : Text.lettersAndNumbers =
      (0x30, 0x39) :: (0x41, 0x5a) :: (0x61, 0x7a) :: Text.lettersAndNumbers.drop 3 := rfl
  rw [isHex_iff] at h
  rw [Text.isWordChar, htable, Bool.or_eq_true]
  apply Or.inr
  simp only [Text.inIntervals, Bool.if_false_left, Bool.and_eq_true, Bool.or_eq_true,
    Bool.not_eq_true', decide_eq_true_eq, decide_eq_false_iff_not]
  omega

/-- The next character, if there is one, is not of the class. -/
def Stops (next : Char → Bool) (rest : List Char) : Prop :=
  ∀ c ∈ rest.head?, next c = false

theorem stops_nil (next : Char → Bool) : Stops next [] := by
  intro c hc
  cases hc

theorem stops_cons {next : Char → Bool} {c : Char} (h : next c = false) (rest : List Char) :
    Stops next (c :: rest) := by
  intro d hd
  cases hd
  exact h

theorem takeWhile_of_stops {p : Char → Bool} {rest : List Char} (h : Stops p rest) :
    rest.takeWhile p = [] ∧ rest.dropWhile p = rest := by
  cases rest with
  | nil => exact ⟨rfl, rfl⟩
  | cons c rest =>
    have hc : p c = false := h c rfl
    simp [hc]

theorem stops_dropWhile (p : Char → Bool) (cs : List Char) : Stops p (cs.dropWhile p) := by
  intro c hc
  have := List.head?_dropWhile_not p cs
  rw [Option.mem_def.mp hc] at this
  simpa using this

theorem run?_iff {first next : Char → Bool} {cs w rest : List Char} :
    run? first next cs = some (w, rest) ↔
      isWord first next w = true ∧ cs = w ++ rest ∧ Stops next rest := by
  constructor
  · intro h
    cases cs with
    | nil => cases h
    | cons c cs =>
      rw [run?] at h
      split at h
      · rename_i hc
        cases h
        refine ⟨?_, ?_, stops_dropWhile next cs⟩
        · rw [isWord, hc, Bool.true_and]
          exact List.all_takeWhile
        · rw [List.cons_append, List.takeWhile_append_dropWhile]
      · cases h
  · intro h
    obtain ⟨hw, rfl, hrest⟩ := h
    cases w with
    | nil => cases hw
    | cons c w =>
      rw [isWord, Bool.and_eq_true] at hw
      obtain ⟨htake, hdrop⟩ := takeWhile_of_stops hrest
      have hall : ∀ a ∈ w, next a = true := List.all_eq_true.mp hw.2
      rw [List.cons_append, run?, if_pos hw.1, List.takeWhile_append_of_pos hall,
        List.dropWhile_append_of_pos hall, htake, hdrop, List.append_nil]

theorem char?_iff {x : Char} {cs w rest : List Char} :
    char? x cs = some (w, rest) ↔ w = [x] ∧ cs = x :: rest := by
  cases cs with
  | nil => simp [char?]
  | cons c cs =>
    rw [char?]
    by_cases hc : c = x
    · subst hc
      simp [eq_comm]
    · simp [hc]

theorem followedBy?_iff {f g : List Char → Option Match} {cs w rest : List Char} :
    followedBy? f g cs = some (w, rest) ↔
      ∃ a mid b, f cs = some (a, mid) ∧ g mid = some (b, rest) ∧ w = a ++ b := by
  constructor
  · intro h
    rw [followedBy?] at h
    split at h
    · cases h
    · rename_i a mid hf
      split at h
      · cases h
      · rename_i b rest' hg
        cases h
        exact ⟨a, mid, b, hf, hg, rfl⟩
  · intro h
    obtain ⟨a, mid, b, hf, hg, rfl⟩ := h
    simp only [followedBy?, hf, hg]

theorem colorDigits?_iff {cs w rest : List Char} :
    colorDigits? cs = some (w, rest) ↔
      ((w.length = 3 ∨ w.length = 6) ∧ w.all isHex = true) ∧ cs = w ++ rest ∧
        Stops Text.isWordChar rest := by
  simp only [colorDigits?]
  constructor
  · intro h
    split at h
    · rename_i hw
      cases h
      exact ⟨hw, List.takeWhile_append_dropWhile.symm, stops_dropWhile _ cs⟩
    · cases h
  · intro h
    obtain ⟨hw, rfl, hrest⟩ := h
    obtain ⟨htake, hdrop⟩ := takeWhile_of_stops hrest
    have hall : ∀ a ∈ w, Text.isWordChar a = true :=
      fun a ha => isWordChar_of_isHex (List.all_eq_true.mp hw.2 a ha)
    rw [List.takeWhile_append_of_pos hall, List.dropWhile_append_of_pos hall, htake, hdrop,
      List.append_nil, if_pos hw]

/-- The only text of a terminal, if it has only one. -/
def Terminal.text? : Terminal → Option (List Char)
  | assign => some [':', '=']
  | colon => some [':']
  | comma => some [',']
  | openBrace => some ['\x7b']
  | closeBrace => some ['\x7d']
  | openBracket => some ['[']
  | closeBracket => some [']']
  | plus => some ['+']
  | minus => some ['-']
  | star => some ['*']
  | semicolon => some [';']
  | ifWord => some ['i', 'f']
  | elseWord => some ['e', 'l', 's', 'e']
  | trueWord => some ['T', 'R', 'U', 'E']
  | falseWord => some ['F', 'A', 'L', 'S', 'E']
  | _ => none

def isDigitsText : List Char → Bool := isWord Text.isDigit Text.isDigit

theorem isDigit_of_text {ds : List Char} (h : isDigitsText ds = true) :
    ds ≠ [] ∧ ∀ c ∈ ds, Text.isDigit c = true := by
  cases ds with
  | nil => cases h
  | cons d ds =>
    rw [isDigitsText, isWord, Bool.and_eq_true] at h
    refine ⟨List.cons_ne_nil d ds, fun c hc => ?_⟩
    rcases List.mem_cons.mp hc with rfl | hc
    · exact h.1
    · exact List.all_eq_true.mp h.2 c hc

theorem takeWhile_digits {ds rest : List Char} (h : isDigitsText ds = true)
    (hrest : Stops Text.isDigit rest) : (ds ++ rest).takeWhile Text.isDigit = ds := by
  obtain ⟨htake, -⟩ := takeWhile_of_stops hrest
  rw [List.takeWhile_append_of_pos (isDigit_of_text h).2, htake, List.append_nil]

/-- The terminals that numbers are scanned as, with their units. -/
def units : List (Terminal × List Char) :=
  [(.pixel, ['p', 'x']), (.percentage, ['%']), (.scalar, [])]

/-- A unit is no part of the number in front of it. -/
theorem takeWhile_unit {t : Terminal} {ds unit : List Char} (hds : isDigitsText ds = true)
    (ht : (t, unit) ∈ units) : (ds ++ unit).takeWhile Text.isDigit = ds := by
  simp only [units, List.mem_cons, List.not_mem_nil, or_false, Prod.mk.injEq] at ht
  have hunit : Stops Text.isDigit unit := by
    rcases ht with ht | ht | ht
    · rw [ht.2]
      exact stops_cons (by decide) _
    · rw [ht.2]
      exact stops_cons (by decide) _
    · rw [ht.2]
      exact stops_nil _
  exact takeWhile_digits hds hunit

theorem Digits.text {ds : List Char} (h : Digits ds) : isDigitsText ds = true := by
  obtain ⟨hne, hall, -⟩ := h
  cases ds with
  | nil => exact absurd rfl hne
  | cons d ds =>
    rw [isDigitsText, isWord, Bool.and_eq_true, List.all_eq_true]
    exact ⟨hall d List.mem_cons_self, fun c hc => hall c (List.mem_cons_of_mem d hc)⟩

inductive Lexeme : Terminal → List Char → Prop
  | pixel {ds} (h : isDigitsText ds = true) : Lexeme .pixel (ds ++ ['p', 'x'])
  | percentage {ds} (h : isDigitsText ds = true) : Lexeme .percentage (ds ++ ['%'])
  | scalar {ds} (h : isDigitsText ds = true) : Lexeme .scalar ds
  | color {cs} (h : isColorText cs = true) : Lexeme .color cs
  | className {cs} (h : isNameText cs = true) : Lexeme .className ('.' :: cs)
  | idName {cs} (h : isNameText cs = true) : Lexeme .idName ('#' :: cs)
  | variableName {cs} (h : isVariableText cs = true) : Lexeme .variableName cs
  | tagName {cs} (h : isTagText cs = true) : Lexeme .tagName cs
  | fixed {t cs} (h : t.text? = some cs) : Lexeme t cs

theorem Lexeme.digits {t : Terminal} {text unit : List Char} (h : Lexeme t text)
    (ht : (t, unit) ∈ units) : ∃ ds, isDigitsText ds = true ∧ text = ds ++ unit := by
  simp only [units, List.mem_cons, List.not_mem_nil, or_false, Prod.mk.injEq] at ht
  rcases ht with ⟨rfl, rfl⟩ | ⟨rfl, rfl⟩ | ⟨rfl, rfl⟩
  · cases h with
    | pixel h => exact ⟨_, h, rfl⟩
    | fixed h => cases h
  · cases h with
    | percentage h => exact ⟨_, h, rfl⟩
    | fixed h => cases h
  · cases h with
    | scalar h => exact ⟨text, h, (List.append_nil text).symm⟩
    | fixed h => cases h

theorem Lexeme.eq_text {t : Terminal} {text cs : List Char} (h : Lexeme t text)
    (ht : t.text? = some cs) : text = cs := by
  cases h with
  | fixed h => exact Option.some.inj (h.symm.trans ht)
  | pixel | percentage | scalar | color | className | idName | variableName | tagName => cases ht

theorem lexeme_of_spelled? {t : Terminal} {cs w rest : List Char}
    (h : t.spelled? cs = some (w, rest)) : Lexeme t w := by
  cases t with
  | pixel =>
    obtain ⟨ds, mid, b, hds, hb, rfl⟩ := followedBy?_iff.mp h
    obtain ⟨b₁, mid₁, b₂, h₁, h₂, rfl⟩ := followedBy?_iff.mp hb
    obtain ⟨rfl, -⟩ := char?_iff.mp h₁
    obtain ⟨rfl, -⟩ := char?_iff.mp h₂
    exact .pixel (run?_iff.mp hds).1
  | percentage =>
    obtain ⟨ds, mid, b, hds, hb, rfl⟩ := followedBy?_iff.mp h
    obtain ⟨rfl, -⟩ := char?_iff.mp hb
    exact .percentage (run?_iff.mp hds).1
  | color =>
    obtain ⟨a, mid, ds, ha, hds, rfl⟩ := followedBy?_iff.mp h
    obtain ⟨rfl, -⟩ := char?_iff.mp ha
    obtain ⟨hw, -⟩ := colorDigits?_iff.mp hds
    apply Lexeme.color
    simp [isColorText, hw]
  | className =>
    obtain ⟨a, mid, n, ha, hn, rfl⟩ := followedBy?_iff.mp h
    obtain ⟨rfl, -⟩ := char?_iff.mp ha
    exact .className (run?_iff.mp hn).1
  | idName =>
    obtain ⟨a, mid, n, ha, hn, rfl⟩ := followedBy?_iff.mp h
    obtain ⟨rfl, -⟩ := char?_iff.mp ha
    exact .idName (run?_iff.mp hn).1
  | variableName => exact .variableName (run?_iff.mp h).1
  | tagName => exact .tagName (run?_iff.mp h).1
  | scalar => exact .scalar (run?_iff.mp h).1
  | assign =>
    obtain ⟨a, mid, b, ha, hb, rfl⟩ := followedBy?_iff.mp h
    obtain ⟨rfl, -⟩ := char?_iff.mp ha
    obtain ⟨rfl, -⟩ := char?_iff.mp hb
    exact .fixed rfl
  | colon | comma | openBrace | closeBrace | openBracket | closeBracket | plus | minus | star
  | semicolon =>
    obtain ⟨rfl, -⟩ := char?_iff.mp h
    exact .fixed rfl
  | ifWord | elseWord | trueWord | falseWord | ending => cases h

theorem text?_of_keyword? {t k : Terminal} {cs : List Char} (h : keyword? t cs = some k) :
    k.text? = some cs ∧ ∀ ds, keyword? k ds = none := by
  unfold keyword? at h
  split at h <;> cases h <;> exact ⟨rfl, fun _ => rfl⟩

/-- The names that stand for keywords. -/
theorem keyword?_cases {t k : Terminal} {cs : List Char} (h : keyword? t cs = some k) :
    (t = .tagName ∧ k = .ifWord ∧ cs = ['i', 'f']) ∨
      (t = .tagName ∧ k = .elseWord ∧ cs = ['e', 'l', 's', 'e']) ∨
      (t = .variableName ∧ k = .trueWord ∧ cs = ['T', 'R', 'U', 'E']) ∨
      (t = .variableName ∧ k = .falseWord ∧ cs = ['F', 'A', 'L', 'S', 'E']) := by
  unfold keyword? at h
  split at h <;> cases h <;> simp

/-- What a token scanned with a list of terminals in mind is like. -/
structure Scanned (tried : List Terminal) (t : Token) : Prop where
  lexeme : Lexeme t.terminal t.text
  mem : t.terminal ∈ tried
  /-- It is no keyword on the list. -/
  plain : ∀ k, keyword? t.terminal t.text = some k → k ∉ tried

theorem Scanned.text_eq {tried : List Terminal} {t : Token} (h : Scanned tried t) {u : Terminal}
    {cs : List Char} (hu : t.terminal = u) (hcs : u.text? = some cs) : t.text = cs := by
  subst hu
  exact h.lexeme.eq_text hcs

theorem scanned_of_scan? {tried : List Terminal} {cs rest : List Char} {t : Token}
    (h : scan? tried cs = some (t, rest)) : Scanned tried t := by
  obtain ⟨u, -, hu⟩ := List.exists_of_findSome?_eq_some h
  split at hu
  · rename_i hmem
    obtain ⟨⟨w, rest'⟩, hw, heq⟩ := Option.map_eq_some_iff.mp hu
    cases heq
    have hlex := lexeme_of_spelled? hw
    cases hk : keyword? u w with
    | none =>
      have hclass : classify tried u w = u := by rw [classify, hk]
      rw [hclass]
      refine ⟨hlex, hmem, fun k hk' => ?_⟩
      rw [hk] at hk'
      cases hk'
    | some k =>
      obtain ⟨htext, hnone⟩ := text?_of_keyword? hk
      by_cases hkm : k ∈ tried
      · have hclass : classify tried u w = k := by simp only [classify, hk, if_pos hkm]
        rw [hclass]
        refine ⟨.fixed htext, hkm, fun k' hk' => ?_⟩
        rw [hnone w] at hk'
        cases hk'
      · have hclass : classify tried u w = u := by simp only [classify, hk, if_neg hkm]
        rw [hclass]
        refine ⟨hlex, hmem, fun k' hk' => ?_⟩
        obtain rfl := Option.some.inj (hk.symm.trans hk')
        exact hkm
  · cases hu

end Source

end StyleLang
