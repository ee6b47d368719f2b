import StyleLang.Proofs.Css.Spelling
import StyleLang.Proofs.Source.Lexeme
import StyleLang.Proofs.Tree.Rows

/-!
# Expressions on one line

An expression can be recovered from its text on one line, and from a longer text that starts with it. A
literal has the name of its kind and its value in parentheses, an operation stands in parentheses of its
own, and a reference is a name that no parenthesis follows.
-/

namespace StyleLang

open Source

namespace Source

theorem append_inj_of_stops {p : Char → Bool} {a b rest rest' : List Char} (ha : a.all p = true)
    (hb : b.all p = true) (hr : Stops p rest) (hr' : Stops p rest') (h : a ++ rest = b ++ rest') :
    a = b ∧ rest = rest' := by
  have htake : ∀ {c rest : List Char}, c.all p = true → Stops p rest → (c ++ rest).takeWhile p = c := by
    intro c rest hc hrest
    rw [List.takeWhile_append_of_pos (List.all_eq_true.mp hc), (takeWhile_of_stops hrest).1,
      List.append_nil]
  have hab : a = b := by rw [← htake ha hr, h, htake hb hr']
  exact ⟨hab, List.append_cancel_left (hab ▸ h)⟩

theorem all_of_isWord {first next p : Char → Bool} {cs : List Char} (h : isWord first next cs = true)
    (hfirst : ∀ c, first c = true → p c = true) (hnext : ∀ c, next c = true → p c = true) :
    cs.all p = true := by
  cases cs with
  | nil => rfl
  | cons c cs =>
    rw [isWord, Bool.and_eq_true] at h
    rw [List.all_cons, hfirst c h.1, Bool.true_and, List.all_eq_true]
    exact fun d hd => hnext d (List.all_eq_true.mp h.2 d hd)

theorem isVariableText_all {cs : List Char} (h : isVariableText cs = true) :
    cs.all isNameChar = true :=
  all_of_isWord h (fun c hc => by simp [isNameChar, isVariableChar, hc])
    fun c hc => by simp [isNameChar, hc]

theorem isTagText_all {cs : List Char} (h : isTagText cs = true) : cs.all isNameChar = true := by
  refine all_of_isWord h (fun c hc => by simp [isNameChar, isVariableChar, hc]) fun c hc => ?_
  simp only [isTagChar, Bool.or_eq_true] at hc
  rcases hc with (hc | hc) | hc <;> simp [isNameChar, isVariableChar, hc]

theorem ne_nil_of_isWord {first next : Char → Bool} {cs : List Char} (h : isWord first next cs = true) :
    cs ≠ [] := by
  rintro rfl
  cases h

theorem isColorText_all {cs : List Char} (h : isColorText cs = true) : cs.all (· ≠ ')') = true := by
  unfold isColorText at h
  split at h
  · rename_i ds
    rw [Bool.and_eq_true, List.all_eq_true] at h
    refine List.all_eq_true.mpr fun c hc => decide_eq_true ?_
    rintro rfl
    rcases List.mem_cons.mp hc with hc | hc
    · cases hc
    · exact absurd (h.2 _ hc) (by decide)
  · cases h

end Source

/-- The text of an integer: a sign if it is negative, and then digits. -/
theorem toList_of_decimal {n : Int} {text : String} (h : Text.decimal? n = some text) :
    text.toList = (if n < 0 then ['-'] else []) ++ Nat.toDigits 10 n.natAbs := by
  unfold Text.decimal? at h
  split at h
  · cases h
    cases n with
    | ofNat k => exact Nat.toList_repr
    | negSucc k =>
      show ("-" ++ Nat.repr (k + 1)).toList = _
      rw [String.toList_append, Nat.toList_repr, if_pos (Int.negSucc_lt_zero k)]
      rfl
  · cases h

theorem decimal_inj {n m : Int} {text : String} (h : Text.decimal? n = some text)
    (h' : Text.decimal? m = some text) : n = m := by
  have hsign : ∀ {k : Nat} {cs : List Char}, Nat.toDigits 10 k ≠ '-' :: cs := by
    intro k cs hcs
    exact absurd (isDigit_of_mem_toDigits (hcs ▸ List.mem_cons_self)) (by decide)
  have hnat : ∀ {j k : Nat}, Nat.toDigits 10 j = Nat.toDigits 10 k → j = k := by
    intro j k hjk
    rw [← numberOf_toDigits j, hjk, numberOf_toDigits]
  have heq := (toList_of_decimal h).symm.trans (toList_of_decimal h')
  by_cases hn : n < 0 <;> by_cases hm : m < 0
  · rw [if_pos hn, if_pos hm] at heq
    have := hnat (List.append_cancel_left heq)
    omega
  · rw [if_pos hn, if_neg hm, List.nil_append] at heq
    exact absurd heq.symm hsign
  · rw [if_neg hn, if_pos hm, List.nil_append] at heq
    exact absurd heq hsign
  · rw [if_neg hn, if_neg hm] at heq
    have := hnat heq
    omega

namespace Literal

/-- A color is spelled as in a source. -/
def IsSpelled : Literal → Prop
  | color s => isColorText s.toList = true
  | _ => True

/-- The text of a literal ends before the parenthesis that closes it. -/
theorem css_all {v : Literal} {text : String} (hv : v.IsSpelled) (h : v.css? = some text) :
    text.toList.all (· ≠ ')') = true := by
  have hdecimal : ∀ {n : Int} {d : String}, Text.decimal? n = some d →
      d.toList.all (· ≠ ')') = true := by
    intro n d hd
    rw [toList_of_decimal hd, List.all_append, Bool.and_eq_true]
    refine ⟨by split <;> rfl, List.all_eq_true.mpr fun c hc => ?_⟩
    have hdigit := isDigit_of_mem_toDigits hc
    rw [decide_eq_true_iff]
    rintro rfl
    cases hdigit
  cases v with
  | pixel n | percentage n =>
    obtain ⟨d, hd, rfl⟩ := Option.map_eq_some_iff.mp h
    rw [String.toList_append, List.all_append, hdecimal hd]
    rfl
  | scalar n => exact hdecimal h
  | color s =>
    cases h
    exact isColorText_all hv
  | bool b => cases b <;> cases h <;> rfl

/-- The kind of a literal and its text determine it. -/
theorem eq_of_css {v w : Literal} {text : String} (hname : v.nodeName = w.nodeName)
    (h : v.css? = some text) (h' : w.css? = some text) : v = w := by
  have hunit : ∀ {n m : Int} {unit : String}, (Text.decimal? n).map (· ++ unit) = some text →
      (Text.decimal? m).map (· ++ unit) = some text → n = m := by
    intro n m unit hn hm
    obtain ⟨d, hd, rfl⟩ := Option.map_eq_some_iff.mp hn
    obtain ⟨d', hd', heq⟩ := Option.map_eq_some_iff.mp hm
    obtain rfl : d' = d := by
      have hlist := congrArg String.toList heq
      rw [String.toList_append, String.toList_append] at hlist
      exact String.toList_inj.mp (List.append_cancel_right hlist)
    exact decimal_inj hd hd'
  cases v with
  | pixel n =>
    cases w with
    | pixel m => rw [hunit h h']
    | percentage | color | scalar | bool => simp [nodeName] at hname
  | percentage n =>
    cases w with
    | percentage m => rw [hunit h h']
    | pixel | color | scalar | bool => simp [nodeName] at hname
  | color s =>
    cases w with
    | color t => rw [Option.some.inj (h.trans h'.symm)]
    | pixel | percentage | scalar | bool => simp [nodeName] at hname
  | scalar n =>
    cases w with
    | scalar m => rw [decimal_inj h h']
    | pixel | percentage | color | bool => simp [nodeName] at hname
  | bool b =>
    cases w with
    | bool c => cases b <;> cases c <;> first | rfl | exact absurd (h.trans h'.symm) (by decide)
    | pixel | percentage | color | scalar => simp [nodeName] at hname

/-- The name of a kind could also be a variable's. -/
theorem nodeName_isVariableText (v : Literal) : isVariableText v.nodeName.toList = true := by
  have hnames : ∀ name ∈ ["PixelLiteral", "PercentageLiteral", "ColorLiteral", "ScalarLiteral",
      "BoolLiteral"], isVariableText name.toList = true := by decide
  exact hnames _ (by cases v <;> simp [nodeName])

end Literal

theorem Operator.symbol_append_inj {op op' : Operator} {rest rest' : List Char}
    (h : op.symbol.toList ++ rest = op'.symbol.toList ++ rest') : op = op' ∧ rest = rest' := by
  cases op <;> cases op' <;> simp_all [symbol]

namespace Node

/-- The names in the node itself are spelled as in a source, and so is its color. A rule has a selector. -/
def IsSpelled : Node → Prop
  | literal _ v => v.IsSpelled
  | reference _ x => isVariableText x.toList = true
  | declaration _ p _ => isTagText p.toList = true
  | assignment _ x _ => isVariableText x.toList = true
  | rule _ ss _ => ss ≠ [] ∧ ∀ s ∈ ss, SelectorForm s
  | _ => True

/-- A tree that an outline shows in full: the slots in it are empty, the names spelled as in a source,
and the numbers short enough to be written. -/
structure IsLegible (root : Node) : Prop where
  empty : ∀ n ∈ root.walk, n.mark = none
  spelled : ∀ n ∈ root.walk, n.IsSpelled
  writable : root.IsWritable

theorem IsLegible.child {n c : Node} (h : n.IsLegible) (hc : c ∈ n.children) : c.IsLegible where
  empty d hd := h.empty d (mem_walk_iff.mpr (Or.inr ⟨c, hc, hd⟩))
  spelled d hd := h.spelled d (mem_walk_iff.mpr (Or.inr ⟨c, hc, hd⟩))
  writable := h.writable.child hc

theorem IsLegible.mark_eq {n : Node} (h : n.IsLegible) : n.mark = none :=
  h.empty n (mem_walk_iff.mpr (Or.inl rfl))

theorem IsLegible.isSpelled {n : Node} (h : n.IsLegible) : n.IsSpelled :=
  h.spelled n (mem_walk_iff.mpr (Or.inl rfl))

/-- The text of an expression on one line: a word, which may be empty, and the rest of it. -/
inductive Reads : Node → List Char → List Char → Prop
  | literal {m : Mark} {v : Literal} {text : String} (h : v.css? = some text) :
      Reads (.literal m v) v.nodeName.toList ('(' :: (text.toList ++ [')']))
  | reference (m : Mark) (x : String) : Reads (.reference m x) x.toList []
  | operation {m : Mark} {op : Operator} {l r : Node} {w t w' t' : List Char} (hl : Reads l w t)
      (hr : Reads r w' t') : Reads (.operation m op l r) []
        ('(' :: (w ++ (t ++ ' ' :: (op.symbol.toList ++ ' ' :: (w' ++ (t' ++ [')']))))))

theorem reads_of_inline {e : Node} {text : String} (h : e.inline = .ok text) :
    ∃ w t, e.Reads w t ∧ text.toList = w ++ t := by
  cases e with
  | literal m v =>
    cases hv : v.css? with
    | none => simp [inline, Css.value, hv, Except.map] at h
    | some value =>
      obtain rfl : v.nodeName ++ "(" ++ value ++ ")" = text := by
        simpa [inline, Css.value, hv, Except.map] using h
      exact ⟨_, _, .literal hv, by simp⟩
  | reference m x =>
    obtain rfl := Except.ok.inj h
    exact ⟨_, _, .reference m x, by simp⟩
  | operation m op l r =>
    obtain ⟨left, right, hl, hr, rfl⟩ := inline_operation.mp h
    obtain ⟨w, t, hleft, hl⟩ := reads_of_inline hl
    obtain ⟨w', t', hright, hr⟩ := reads_of_inline hr
    exact ⟨_, _, .operation hleft hright, by simp [hl, hr]⟩
  | declaration | assignment | ifClause | ifElse | elseClause | rule | sheet | foreign => cases h

/-- Characters that an expression could go on with. -/
def continues (c : Char) : Bool := isNameChar c || c = '('

theorem stops_isNameChar {rest : List Char} (h : Stops continues rest) : Stops isNameChar rest := by
  intro c hc
  have := h c hc
  rw [continues, Bool.or_eq_false_iff] at this
  exact this.1

theorem ne_of_stops {more rest : List Char} (h : Stops continues rest) : '(' :: more ≠ rest := by
  rintro rfl
  exact absurd (h '(' rfl) (by decide)

section

variable {e e' : Node} {w t w' t' rest rest' : List Char}

theorem Reads.split (h : e.Reads w t) (he : e.IsLegible) (hr : Stops continues rest) :
    w.all isNameChar = true ∧ Stops isNameChar (t ++ rest) := by
  cases h with
  | @literal m v text hv =>
    exact ⟨isVariableText_all v.nodeName_isVariableText, stops_cons (by decide) _⟩
  | reference m x => exact ⟨isVariableText_all he.isSpelled, stops_isNameChar hr⟩
  | operation hl hr => exact ⟨rfl, stops_cons (by decide) _⟩

theorem Reads.split_inj (h : e.Reads w t) (h' : e'.Reads w' t') (he : e.IsLegible) (he' : e'.IsLegible)
    (hr : Stops continues rest) (hr' : Stops continues rest')
    (heq : w ++ (t ++ rest) = w' ++ (t' ++ rest')) : w = w' ∧ t ++ rest = t' ++ rest' := by
  obtain ⟨hw, ht⟩ := h.split he hr
  obtain ⟨hw', ht'⟩ := h'.split he' hr'
  exact append_inj_of_stops hw hw' ht ht' heq

/-- Two texts that start with expressions, neither of which goes on, start with the same expression if
they are the same. -/
theorem Reads.append_inj (h : e.Reads w t) (h' : e'.Reads w' t') (he : e.IsLegible) (he' : e'.IsLegible)
    (hr : Stops continues rest) (hr' : Stops continues rest')
    (heq : w ++ (t ++ rest) = w' ++ (t' ++ rest')) : e = e' ∧ rest = rest' := by
  induction h generalizing e' w' t' rest rest' with
  | @literal m v text hv =>
    obtain ⟨hname, htail⟩ := (Reads.literal hv).split_inj h' he he' hr hr' heq
    cases h' with
    | @literal m' v' text' hv' =>
      rw [List.cons_append, List.cons_append, List.append_assoc, List.append_assoc] at htail
      obtain ⟨hcss, hrest⟩ := append_inj_of_stops (Literal.css_all he.isSpelled hv)
        (Literal.css_all he'.isSpelled hv') (stops_cons (by decide) _) (stops_cons (by decide) _)
        (List.cons.inj htail).2
      obtain rfl := String.toList_inj.mp hcss
      obtain rfl : m = none := he.mark_eq
      obtain rfl : m' = none := he'.mark_eq
      rw [Literal.eq_of_css (String.toList_inj.mp hname) hv hv']
      exact ⟨rfl, (List.cons.inj hrest).2⟩
    | reference m' x => exact absurd htail (ne_of_stops hr')
    | operation hl hr => exact absurd hname (ne_nil_of_isWord v.nodeName_isVariableText)
  | reference m x =>
    obtain ⟨hname, htail⟩ := (Reads.reference m x).split_inj h' he he' hr hr' heq
    cases h' with
    | literal hv => exact absurd htail.symm (ne_of_stops hr)
    | reference m' x' =>
      obtain rfl : m = none := he.mark_eq
      obtain rfl : m' = none := he'.mark_eq
      rw [String.toList_inj.mp hname]
      exact ⟨rfl, htail⟩
    | operation hl hr => exact absurd hname (ne_nil_of_isWord he.isSpelled)
  | @operation m op l r lw lt rw' rt hl hr₁ ihl ihr =>
    obtain ⟨hname, htail⟩ := (Reads.operation (m := m) hl hr₁).split_inj h' he he' hr hr' heq
    cases h' with
    | @literal m' v' text' hv' => exact absurd hname.symm (ne_nil_of_isWord v'.nodeName_isVariableText)
    | reference m' x' => exact absurd hname.symm (ne_nil_of_isWord he'.isSpelled)
    | @operation m' op' l' r' lw' lt' rw'' rt' hl' hr₁' =>
      have hblank : ∀ {more : List Char}, Stops continues (' ' :: more) := stops_cons (by decide) _
      have hclose : ∀ {more : List Char}, Stops continues (')' :: more) := stops_cons (by decide) _
      simp only [List.append_assoc, List.cons_append, List.nil_append] at htail
      obtain ⟨rfl, hop⟩ := ihl hl' (he.child (by simp [children])) (he'.child (by simp [children]))
        hblank hblank (List.cons.inj htail).2
      obtain ⟨rfl, hright⟩ := Operator.symbol_append_inj (List.cons.inj hop).2
      obtain ⟨rfl, hrest⟩ := ihr hr₁' (he.child (by simp [children])) (he'.child (by simp [children]))
        hclose hclose (List.cons.inj hright).2
      obtain rfl : m = none := he.mark_eq
      obtain rfl : m' = none := he'.mark_eq
      exact ⟨rfl, (List.cons.inj hrest).2⟩

end

theorem inline_append_inj {e e' : Node} (he : e.IsLegible) (he' : e'.IsLegible) {text text' : String}
    (h : e.inline = .ok text) (h' : e'.inline = .ok text') {rest rest' : List Char}
    (hr : Stops continues rest) (hr' : Stops continues rest')
    (heq : text.toList ++ rest = text'.toList ++ rest') : e = e' ∧ rest = rest' := by
  obtain ⟨w, t, hread, htext⟩ := reads_of_inline h
  obtain ⟨w', t', hread', htext'⟩ := reads_of_inline h'
  rw [htext, htext', List.append_assoc, List.append_assoc] at heq
  exact hread.append_inj hread' he he' hr hr' heq

/-- Different expressions have different texts. -/
theorem inline_inj {e e' : Node} (he : e.IsLegible) (he' : e'.IsLegible) {text : String}
    (h : e.inline = .ok text) (h' : e'.inline = .ok text) : e = e' :=
  (inline_append_inj he he' h h' (stops_nil _) (stops_nil _) rfl).1

end Node

end StyleLang
