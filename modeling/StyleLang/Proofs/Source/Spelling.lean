import StyleLang.Source.Scan
import StyleLang.Text.Decimal

/-!
# Spellings

A tree is spelled piece by piece, with blanks and comments before, between and after the pieces. All
pieces but numbers are written in one way; a number is written with decimal digits of any script, and
with a sign if it is negative. Nothing here depends on how a text is read, except that skipping is
shown to pass over just what may stand between pieces.
-/

namespace StyleLang.Source

/-- What a token of a spelling has to be. -/
inductive Piece where
  | exact (text : List Char)
  | number (value : Int) (unit : List Char)
  deriving DecidableEq

/-- Decimal digits that can be read as an integer. -/
structure Digits (ds : List Char) : Prop where
  ne_nil : ds ≠ []
  all : ∀ c ∈ ds, Text.isDigit c = true
  length : ds.length ≤ Text.maxDigits

theorem digits_of_all {ds : List Char} (hne : ds ≠ []) (hall : ds.all Text.isDigit = true)
    (hlen : ds.length ≤ Text.maxDigits) : Digits ds :=
  ⟨hne, List.all_eq_true.mp hall, hlen⟩

/-- The texts that a piece may be written as. -/
inductive Piece.Spelled : Piece → List Char → Prop
  | exact (text : List Char) : Spelled (.exact text) text
  | number {ds : List Char} (h : Digits ds) (unit : List Char) :
      Spelled (.number (Text.numberOf ds) unit) (ds ++ unit)
  | negative {ds : List Char} (h : Digits ds) (hpos : 0 < Text.numberOf ds) (unit : List Char) :
      Spelled (.number (-(Text.numberOf ds : Int)) unit) ('-' :: ds ++ unit)

/-- What may stand between pieces: blanks, and comments that end at their first `*/`. -/
inductive Gap : List Char → Prop
  | nil : Gap []
  | blank {c cs} (h : isBlank c = true) (rest : Gap cs) : Gap (c :: cs)
  | comment {inner cs} (h : ¬ ['*', '/'] <:+: inner) (rest : Gap cs) :
      Gap ('/' :: '*' :: (inner ++ '*' :: '/' :: cs))

inductive Spells : List Piece → List Char → Prop
  | done {gap} (h : Gap gap) : Spells [] gap
  | piece {gap text p ps cs} (h : Gap gap) (hp : p.Spelled text) (rest : Spells ps cs) :
      Spells (p :: ps) (gap ++ text ++ cs)

theorem Gap.append {as bs : List Char} (ha : Gap as) (hb : Gap bs) : Gap (as ++ bs) := by
  induction ha with
  | nil => exact hb
  | blank h rest ih => exact .blank h ih
  | comment h rest ih =>
    simp only [List.cons_append, List.append_assoc]
    exact .comment h ih

theorem Gap.of_blanks {cs : List Char} (h : ∀ c ∈ cs, isBlank c = true) : Gap cs := by
  induction cs with
  | nil => exact .nil
  | cons c cs ih =>
    exact .blank (h c List.mem_cons_self) (ih fun d hd => h d (List.mem_cons_of_mem c hd))

theorem afterCommentEnd?_inner {inner : List Char} (h : ¬ ['*', '/'] <:+: inner)
    (cs : List Char) : afterCommentEnd? (inner ++ '*' :: '/' :: cs) = some cs := by
  induction inner with
  | nil => rfl
  | cons c inner ih =>
    have htail : ¬ ['*', '/'] <:+: inner := fun hin =>
      h (hin.trans (List.infix_cons (List.infix_refl _)))
    rw [List.cons_append]
    -- The text begins with `*/` only if the comment's text does.
    have hhead : ∀ rest, c = '*' → inner ++ '*' :: '/' :: cs = '/' :: rest → False := by
      intro rest hc heq
      subst hc
      cases inner with
      | nil => simp at heq
      | cons d inner =>
        rw [List.cons_append, List.cons.injEq] at heq
        obtain ⟨rfl, -⟩ := heq
        exact h ⟨[], inner, rfl⟩
    rw [afterCommentEnd?]
    · exact ih htail
    · exact hhead

theorem inner_of_afterCommentEnd? {cs rest : List Char} (h : afterCommentEnd? cs = some rest) :
    ∃ inner, cs = inner ++ '*' :: '/' :: rest ∧ ¬ ['*', '/'] <:+: inner := by
  fun_induction afterCommentEnd? cs with
  | case1 tail =>
    cases h
    exact ⟨[], rfl, by simp⟩
  | case2 c cs hne ih =>
    obtain ⟨inner, rfl, hin⟩ := ih h
    refine ⟨c :: inner, rfl, ?_⟩
    intro hinfix
    rcases List.infix_cons_iff.mp hinfix with hprefix | hinfix
    · obtain ⟨t, ht⟩ := hprefix
      cases inner with
      | nil => simp at ht
      | cons d inner =>
        simp only [List.cons_append, List.nil_append, List.cons.injEq] at ht
        obtain ⟨rfl, rfl, -⟩ := ht
        exact hne _ rfl rfl
    · exact hin hinfix
  | case3 => cases h

theorem comment_of_afterComment? {cs rest : List Char} (h : afterComment? cs = some rest) :
    ∃ inner, cs = '/' :: '*' :: (inner ++ '*' :: '/' :: rest) ∧ ¬ ['*', '/'] <:+: inner := by
  unfold afterComment? at h
  split at h
  · rename_i tail
    obtain ⟨inner, rfl, hin⟩ := inner_of_afterCommentEnd? h
    exact ⟨inner, rfl, hin⟩
  · cases h

theorem skip_gap {gap : List Char} (h : Gap gap) (cs : List Char) : skip (gap ++ cs) = skip cs := by
  induction h with
  | nil => rfl
  | blank h rest ih => rw [List.cons_append, skip, if_pos h, ih]
  | @comment inner gap h rest ih =>
    have hblank : isBlank '/' = false := by decide
    have hafter : afterComment? ('/' :: '*' :: (inner ++ '*' :: '/' :: (gap ++ cs))) =
        some (gap ++ cs) := afterCommentEnd?_inner h (gap ++ cs)
    simp only [List.cons_append, List.append_assoc]
    rw [skip]
    simp only [hblank, Bool.false_eq_true, if_false]
    split
    · rename_i rest' heq
      rw [hafter] at heq
      cases heq
      exact ih
    · rename_i heq
      rw [hafter] at heq
      cases heq

/-- Skipping passes over a gap. -/
theorem gap_skip (cs : List Char) : ∃ gap, Gap gap ∧ cs = gap ++ skip cs := by
  fun_induction skip cs with
  | case1 => exact ⟨[], .nil, rfl⟩
  | case2 c rest hc ih =>
    obtain ⟨gap, hgap, heq⟩ := ih
    exact ⟨c :: gap, .blank hc hgap, by rw [List.cons_append, ← heq]⟩
  | case3 c rest hc rest' h ih =>
    obtain ⟨gap, hgap, heq⟩ := ih
    obtain ⟨inner, hcomment, hin⟩ := comment_of_afterComment? h
    refine ⟨_, .comment hin hgap, ?_⟩
    rw [hcomment, List.cons_append, List.cons_append, List.append_assoc, List.cons_append,
      List.cons_append, ← heq]
  | case4 c rest hc h => exact ⟨[], .nil, rfl⟩

/-- Nothing is skipped in front of a piece. -/
theorem skip_of_solid {c : Char} (hb : isBlank c = false) (hc : c ≠ '/') (cs : List Char) :
    skip (c :: cs) = c :: cs := by
  have hafter : afterComment? (c :: cs) = none := by
    unfold afterComment?
    split
    · rename_i heq
      cases heq
      exact absurd rfl hc
    · rfl
  rw [skip]
  simp only [hb, Bool.false_eq_true, if_false]
  split
  · rename_i heq
    rw [hafter] at heq
    cases heq
  · rfl

theorem Spells.of_gap {gap cs : List Char} {ps : List Piece} (hg : Gap gap) (h : Spells ps cs) :
    Spells ps (gap ++ cs) := by
  cases h with
  | done h => exact .done (hg.append h)
  | piece h hp rest =>
    rw [← List.append_assoc, ← List.append_assoc]
    exact .piece (hg.append h) hp rest

theorem Spells.append {ps qs : List Piece} {as bs : List Char} (ha : Spells ps as)
    (hb : Spells qs bs) : Spells (ps ++ qs) (as ++ bs) := by
  induction ha with
  | done h => exact hb.of_gap h
  | piece h hp rest ih =>
    rw [List.cons_append, List.append_assoc]
    exact .piece h hp ih

/-- A spelling of pieces of which the first is written in one way. -/
theorem Spells.cons_exact {text cs : List Char} {ps : List Piece} (h : Spells ps cs) :
    Spells (.exact text :: ps) (text ++ cs) := by
  have := Spells.piece .nil (.exact text) h
  rwa [List.nil_append] at this

/-- A spelling of pieces of which the first is a number. -/
theorem Spells.cons_number {ds cs : List Char} {v : Int} {ps : List Piece} (hds : Digits ds)
    (hv : Text.numberOf ds = v) (unit : List Char) (h : Spells ps cs) :
    Spells (.number v unit :: ps) (ds ++ unit ++ cs) := by
  subst hv
  have := Spells.piece .nil (.number hds unit) h
  rwa [List.nil_append] at this

end StyleLang.Source
