import StyleLang.Proofs.Css.Plain
import StyleLang.Proofs.Source.Grammar

/-!
# CSS text is a spelling

The text that is written of a plain sheet spells the sheet, if the indentation and the separator consist
of blanks. Nothing is asked of the names in it, and its numbers may be negative: whether the spelling
can be read is another question.
-/

namespace StyleLang

open Source

theorem digitValue?_of_isDigit {c : Char} (h : c.isDigit = true) :
    Text.digitValue? c = some (c.toNat - 48) := by
  have hrange : 48 ≤ c.toNat ∧ c.toNat ≤ 57 := by
    simp only [Char.isDigit, Bool.and_eq_true, decide_eq_true_eq] at h
    exact h
  have hzeros : Text.zeros = 48 :: Text.zeros.tail := rfl
  have hfirst : (decide (48 ≤ c.toNat) && decide (c.toNat < 48 + 10)) = true := by
    rw [Bool.and_eq_true, decide_eq_true_iff, decide_eq_true_iff]
    omega
  rw [Text.digitValue?, hzeros]
  simp only [List.find?, hfirst, Option.map_some]

theorem numberOf_of_isDigit {cs : List Char} (h : ∀ c ∈ cs, c.isDigit = true) :
    Text.numberOf cs = Nat.ofDigitChars 10 cs 0 := by
  have hfold : ∀ n, cs.foldl (fun n c => 10 * n + (Text.digitValue? c).getD 0) n =
      Nat.ofDigitChars 10 cs n := by
    induction cs with
    | nil => simp
    | cons c cs ih =>
      intro n
      have hc := digitValue?_of_isDigit (h c List.mem_cons_self)
      rw [List.foldl_cons, Nat.ofDigitChars_cons, hc, Option.getD_some]
      exact ih (fun d hd => h d (List.mem_cons_of_mem c hd)) _
  exact hfold 0

theorem isDigit_of_mem_toDigits {n : Nat} {c : Char} (h : c ∈ Nat.toDigits 10 n) :
    c.isDigit = true :=
  Nat.isDigit_of_mem_toDigits (by decide) (by decide) h

theorem digits_toDigits {n : Nat} (h : (Nat.repr n).length ≤ Text.maxDigits) :
    Digits (Nat.toDigits 10 n) := by
  refine ⟨Nat.toDigits_ne_nil, fun c hc => ?_, ?_⟩
  · rw [Text.isDigit, digitValue?_of_isDigit (isDigit_of_mem_toDigits hc)]
    rfl
  · rwa [← String.length_toList, Nat.toList_repr] at h

theorem numberOf_toDigits (n : Nat) : Text.numberOf (Nat.toDigits 10 n) = n := by
  rw [numberOf_of_isDigit fun c hc => isDigit_of_mem_toDigits hc]
  exact Nat.ofDigitChars_ten_toDigits

theorem spelled_decimal {n : Int} {text : String} (h : Text.decimal? n = some text)
    (unit : List Char) : Piece.Spelled (.number n unit) (text.toList ++ unit) := by
  unfold Text.decimal? at h
  split at h
  · rename_i hlen
    cases h
    have hdigits := digits_toDigits hlen
    have hvalue := numberOf_toDigits n.natAbs
    cases n with
    | ofNat k =>
      have htext : (toString (Int.ofNat k)).toList = Nat.toDigits 10 k := Nat.toList_repr
      have hspelled := Piece.Spelled.number hdigits unit
      rw [hvalue] at hspelled
      rw [htext]
      exact hspelled
    | negSucc k =>
      have htext : (toString (Int.negSucc k)).toList = '-' :: Nat.toDigits 10 (k + 1) := by
        show ("-" ++ Nat.repr (k + 1)).toList = _
        rw [String.toList_append, Nat.toList_repr]
        rfl
      have hspelled := Piece.Spelled.negative hdigits (by rw [hvalue]; simp) unit
      rw [hvalue] at hspelled
      rw [htext]
      exact hspelled
  · cases h

theorem spelled_css {v : Literal} {text : String} (h : v.css? = some text) :
    (literalPiece v).Spelled text.toList := by
  cases v with
  | pixel n =>
    obtain ⟨d, hd, rfl⟩ := Option.map_eq_some_iff.mp h
    rw [String.toList_append]
    exact spelled_decimal hd _
  | percentage n =>
    obtain ⟨d, hd, rfl⟩ := Option.map_eq_some_iff.mp h
    rw [String.toList_append]
    exact spelled_decimal hd _
  | color s =>
    cases h
    exact .exact _
  | scalar n =>
    have := spelled_decimal h []
    rwa [List.append_nil] at this
  | bool b =>
    cases b <;> cases h <;> exact .exact _

theorem spells_line {indent : Indent} (hindent : Gap indent.text.toList) {selectors : String}
    {n : Node} (hn : PlainMember n) {text : String}
    (h : Css.line indent selectors n = .ok text) : Spells (pieces n) text.toList := by
  cases hn with
  | declaration m p m' v =>
    obtain ⟨t, hv, rfl⟩ : ∃ t, v.css? = some t ∧
        indent.text ++ p ++ ": " ++ t ++ ";\n" = text := by
      simp only [Css.line, Css.value] at h
      split at h
      · rename_i t hv
        cases h
        exact ⟨t, hv, rfl⟩
      · cases h
    have hline : (indent.text ++ p ++ ": " ++ t ++ ";\n").toList =
        indent.text.toList ++ (p.toList ++ ([':'] ++ ([' '] ++ t.toList ++ ([';'] ++ ['\n'])))) := by
      simp
    have hend : Gap ['\n'] := .blank (by decide) .nil
    have hspace : Gap [' '] := .blank (by decide) .nil
    rw [hline]
    exact .of_gap hindent (.cons_exact (.cons_exact
      (.piece hspace (spelled_css hv) (.cons_exact (.done hend)))))

theorem spells_lines {indent : Indent} (hindent : Gap indent.text.toList) {selectors : String}
    {ns : List Node} (hns : ∀ n ∈ ns, PlainMember n) {text : String}
    (h : Css.lines indent selectors ns = .ok text) : Spells (piecesAll ns) text.toList := by
  induction ns generalizing text with
  | nil =>
    cases h
    exact .done .nil
  | cons n ns ih =>
    obtain ⟨first, others, hfirst, hothers, rfl⟩ := Css.lines_cons.mp h
    rw [String.toList_append]
    exact (spells_line hindent (hns n List.mem_cons_self) hfirst).append
      (ih (fun m hm => hns m (List.mem_cons_of_mem n hm)) hothers)

theorem spells_textAll {ss : List Selector} (h : ss ≠ []) :
    Spells (selectorPieces ss) (Selector.textAll ss).toList := by
  induction ss with
  | nil => exact absurd rfl h
  | cons s ss ih =>
    cases ss with
    | nil =>
      have htext : Selector.textAll [s] = s.text := String.intercalate_singleton
      have hone : Spells [.exact s.text.toList] (s.text.toList ++ []) := .cons_exact (.done .nil)
      rw [List.append_nil] at hone
      rw [htext]
      exact hone
    | cons s' ss =>
      have htext : (Selector.textAll (s :: s' :: ss)).toList =
          s.text.toList ++ ([','] ++ ([' '] ++ (Selector.textAll (s' :: ss)).toList)) := by
        simp [Selector.textAll, String.intercalate_cons_cons]
      rw [htext]
      have hspace : Gap [' '] := .blank (by decide) .nil
      exact .cons_exact (.cons_exact (.of_gap hspace (ih (List.cons_ne_nil s' ss))))

theorem spells_block {indent : Indent} (hindent : Gap indent.text.toList) {m : Mark}
    {ss : List Selector} (hss : ss ≠ []) {body : List Node} (hbody : ∀ n ∈ body, PlainMember n)
    {text : String} (h : Css.block indent (.rule m ss body) = .ok text) :
    Spells (pieces (.rule m ss body)) text.toList := by
  simp only [Css.block] at h
  cases hinner : Css.lines indent (Selector.textAll ss) body with
  | error f =>
    rw [hinner] at h
    cases h
  | ok inner =>
    rw [hinner] at h
    cases h
    have hblock : (Selector.textAll ss ++ " \x7b\n" ++ inner ++ "\x7d\n").toList =
        (Selector.textAll ss).toList ++
          ([' '] ++ (['\x7b'] ++ (['\n'] ++ (inner.toList ++ (['\x7d'] ++ ['\n']))))) := by
      simp
    have hend : Gap ['\n'] := .blank (by decide) .nil
    have hspace : Gap [' '] := .blank (by decide) .nil
    have hlines := spells_lines hindent hbody hinner
    rw [hblock]
    exact (spells_textAll hss).append (.of_gap hspace (.cons_exact
      (.of_gap hend (hlines.append (.cons_exact (.done hend))))))

/-- Blocks with a separator between them. -/
theorem spells_blocks {layout : Layout} (hindent : Gap layout.indent.text.toList)
    (hsep : Gap layout.separator.toList) {ns : List Node}
    (hns : ∀ n ∈ ns, PlainRule n ∧ n.selectors ≠ []) {texts : List String}
    (h : Css.blocks layout.indent ns = .ok texts) :
    Spells (piecesAll ns) (String.intercalate layout.separator texts).toList := by
  induction ns generalizing texts with
  | nil =>
    cases h
    exact .done .nil
  | cons n ns ih =>
    obtain ⟨first, others, hfirst, hothers, rfl⟩ := Css.blocks_cons.mp h
    have hrest := ih (fun m hm => hns m (List.mem_cons_of_mem n hm)) hothers
    obtain ⟨hplain, hne⟩ := hns n List.mem_cons_self
    have hn : Spells (pieces n) first.toList := by
      cases hplain with
      | rule m ss hbody => exact spells_block hindent hne hbody hfirst
    cases others with
    | nil =>
      rw [String.intercalate_singleton]
      have hall := hn.append hrest
      rwa [String.intercalate_nil, String.toList_empty, List.append_nil] at hall
    | cons second others =>
      rw [String.intercalate_cons_cons, String.toList_append, String.toList_append,
        List.append_assoc]
      exact hn.append (.of_gap hsep hrest)

/-- The text of a plain sheet is a spelling of it. -/
theorem spells_css {layout : Layout} (hindent : Gap layout.indent.text.toList)
    (hsep : Gap layout.separator.toList) {s : Sheet} (hs : s.IsPlain)
    (hss : ∀ n ∈ s.members, n.selectors ≠ []) {text : String} (h : s.css layout = .ok text) :
    Spells (pieces s.node) text.toList := by
  simp only [Sheet.css] at h
  cases htexts : Css.blocks layout.indent s.members with
  | error f =>
    rw [htexts] at h
    cases h
  | ok texts =>
    rw [htexts] at h
    cases h
    exact spells_blocks hindent hsep (fun n hn => ⟨hs n hn, hss n hn⟩) htexts

end StyleLang
