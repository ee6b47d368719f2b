import Mathlib.Data.Set.Function
import StyleLang.Proofs.Tree.Inline

/-!
# Outlines determine their trees

Two sheets whose outlines have the same lines are the same, if every name in them is spelled as in a
source. The spaces in front of a line give its level, and its first word the kind of the statement. The
statements directly under another one are those whose rows come next and stand one level below its row;
a row that does not stand below ends them. An else-clause stands among the members of its if-clause, none
of which is one.
-/

namespace StyleLang

open Source

namespace Selector

theorem textAll_toList (s : Selector) (ss : List Selector) : (textAll (s :: ss)).toList =
    s.text.toList ++ (if ss = [] then [] else ',' :: ' ' :: (textAll ss).toList) := by
  cases ss with
  | nil => simp [textAll]
  | cons t ss => simp [textAll, String.intercalate_cons_cons]

theorem tag_toList (v : String) : (tag v).text.toList = v.toList := by
  simp [text, tag, sign]

theorem ofClass_toList (v : String) : (ofClass v).text.toList = '.' :: v.toList := by
  simp [text, ofClass, sign]

theorem ofId_toList (v : String) : (ofId v).text.toList = '#' :: v.toList := by
  simp [text, ofId, sign]

theorem text_all {s : Selector} (h : SelectorForm s) : s.text.toList.all (· ≠ ',') = true := by
  have hword : ∀ {first next : Char → Bool} {cs : List Char}, first ',' = false → next ',' = false →
      isWord first next cs = true → cs.all (· ≠ ',') = true := by
    intro first next cs hfirst hnext hcs
    refine all_of_isWord hcs (fun c hc => decide_eq_true ?_) fun c hc => decide_eq_true ?_
    · rintro rfl
      rw [hfirst] at hc
      cases hc
    · rintro rfl
      rw [hnext] at hc
      cases hc
  cases h with
  | tag hv =>
    rw [tag_toList]
    exact hword (by decide) (by decide) hv
  | ofClass hv =>
    rw [ofClass_toList, List.all_cons, hword (by decide) (by decide) hv]
    rfl
  | ofId hv =>
    rw [ofId_toList, List.all_cons, hword (by decide) (by decide) hv]
    rfl

theorem text_inj {s t : Selector} (hs : SelectorForm s) (ht : SelectorForm t) (h : s.text = t.text) :
    s = t := by
  have htag : ∀ {v : String} {c : Char} {cs : List Char}, isTagText v.toList = true → isLower c = false →
      v.toList ≠ c :: cs := by
    intro v c cs hv hc heq
    rw [heq, isTagText, isWord, hc] at hv
    cases hv
  have heq := congrArg String.toList h
  cases hs with
  | tag hv =>
    rw [tag_toList] at heq
    cases ht with
    | tag hw =>
      rw [tag_toList] at heq
      rw [String.toList_inj.mp heq]
    | ofClass hw => exact absurd (heq.trans (ofClass_toList _)) (htag hv (by decide))
    | ofId hw => exact absurd (heq.trans (ofId_toList _)) (htag hv (by decide))
  | ofClass hv =>
    rw [ofClass_toList] at heq
    cases ht with
    | tag hw => exact absurd (heq.trans (tag_toList _)).symm (htag hw (by decide))
    | ofClass hw =>
      rw [ofClass_toList] at heq
      rw [String.toList_inj.mp (List.cons.inj heq).2]
    | ofId hw => exact absurd (List.cons.inj (heq.trans (ofId_toList _))).1 (by decide)
  | ofId hv =>
    rw [ofId_toList] at heq
    cases ht with
    | tag hw => exact absurd (heq.trans (tag_toList _)).symm (htag hw (by decide))
    | ofClass hw => exact absurd (List.cons.inj (heq.trans (ofClass_toList _))).1 (by decide)
    | ofId hw =>
      rw [ofId_toList] at heq
      rw [String.toList_inj.mp (List.cons.inj heq).2]

/-- The selectors of a rule are determined by their text. -/
theorem textAll_inj {ss ts : List Selector} (hss : ∀ s ∈ ss, SelectorForm s)
    (hts : ∀ t ∈ ts, SelectorForm t) (hne : ss ≠ []) (hne' : ts ≠ []) (h : textAll ss = textAll ts) :
    ss = ts := by
  induction ss generalizing ts with
  | nil => exact absurd rfl hne
  | cons s ss ih =>
    cases ts with
    | nil => exact absurd rfl hne'
    | cons t ts =>
      obtain ⟨hs, hss'⟩ := List.forall_mem_cons.mp hss
      obtain ⟨ht, hts'⟩ := List.forall_mem_cons.mp hts
      have hstops : ∀ {us : List Selector},
          Stops (· ≠ ',') (if us = [] then [] else ',' :: ' ' :: (textAll us).toList) := by
        intro us
        split
        · exact stops_nil _
        · exact stops_cons (by decide) _
      have heq := congrArg String.toList h
      rw [textAll_toList, textAll_toList] at heq
      obtain ⟨hst, hrest⟩ := append_inj_of_stops (text_all hs) (text_all ht) hstops hstops heq
      obtain rfl := text_inj hs ht (String.toList_inj.mp hst)
      by_cases hnil : ss = [] <;> by_cases hnil' : ts = []
      · rw [hnil, hnil']
      · simp [hnil, hnil'] at hrest
      · simp [hnil, hnil'] at hrest
      · rw [if_neg hnil, if_neg hnil'] at hrest
        have htext := String.toList_inj.mp (List.cons.inj (List.cons.inj hrest).2).2
        rw [ih hss' hts' hnil hnil' htext]

end Selector

namespace Node

/-- The first word of a title. -/
def keyword : Node → String
  | sheet _ _ => "Stylesheet"
  | rule _ _ _ => "Stylerule"
  | declaration _ _ _ => "Declaration"
  | assignment _ _ _ => "Assignment"
  | ifClause _ _ _ => "If"
  | ifElse _ _ _ _ _ => "If"
  | elseClause _ _ => "Else"
  | _ => ""

/-- An outline shows the statement and all below it in full. -/
structure IsOutlined (n : Node) : Prop where
  statement : n.isStatement = true
  clean : n.Clean none
  legible : n.IsLegible

theorem IsOutlined.under {n c : Node} (h : n.IsOutlined) (hc : c ∈ n.under) : c.IsOutlined where
  statement := (statement_of_under h.clean hc).1
  clean := (statement_of_under h.clean hc).2
  legible := h.legible.child (under_subset hc)

theorem isVariableText_keyword {n : Node} (hn : n.isStatement = true) :
    isVariableText n.keyword.toList = true := by
  have hwords : ∀ word ∈ ["Stylesheet", "Stylerule", "Declaration", "Assignment", "If", "Else"],
      isVariableText word.toList = true := by decide
  refine hwords _ ?_
  cases n with
  | literal | reference | operation | foreign => cases hn
  | sheet | rule | declaration | assignment | ifClause | ifElse | elseClause => simp [keyword]

theorem title_inline {e : Node} {wrap : String → String} {text : String}
    (h : e.inline.map wrap = .ok text) : ∃ value, e.inline = .ok value ∧ text = wrap value := by
  cases he : e.inline with
  | error f => simp [he, Except.map] at h
  | ok value =>
    rw [he] at h
    exact ⟨value, rfl, (Except.ok.inj h).symm⟩

/-- A title is its keyword or goes on with a blank after it. -/
theorem title_keyword {n : Node} {text : String} (h : n.title = .ok text) :
    ∃ tail, text.toList = n.keyword.toList ++ tail ∧ Stops isNameChar tail := by
  have hblank : ∀ {more : List Char}, Stops isNameChar (' ' :: more) := stops_cons (by decide) _
  cases n with
  | sheet | elseClause =>
    obtain rfl := Except.ok.inj h
    exact ⟨[], (List.append_nil _).symm, stops_nil _⟩
  | rule m ss body =>
    obtain rfl := Except.ok.inj h
    exact ⟨_, by simp [keyword]; rfl, hblank⟩
  | declaration m p e | assignment m x e | ifClause m e body | ifElse m e body em ebody =>
    obtain ⟨value, -, rfl⟩ := title_inline h
    exact ⟨_, by simp [keyword]; rfl, hblank⟩
  | literal | reference | operation | foreign => cases h

theorem keyword_eq {n n' : Node} (hn : n.isStatement = true) (hn' : n'.isStatement = true)
    {text : String} (h : n.title = .ok text) (h' : n'.title = .ok text) : n.keyword = n'.keyword := by
  obtain ⟨tail, htail, hstops⟩ := title_keyword h
  obtain ⟨tail', htail', hstops'⟩ := title_keyword h'
  exact String.toList_inj.mp (append_inj_of_stops (isVariableText_all (isVariableText_keyword hn))
    (isVariableText_all (isVariableText_keyword hn')) hstops hstops' (htail.symm.trans htail')).1

section

variable {e e' : Node} {text : String}

/-- A name and an expression, with a separator between them that is part of no name. -/
theorem name_inline_inj {lead separator x x' : String} (hx : x.toList.all isNameChar = true)
    (hx' : x'.toList.all isNameChar = true)
    (hsep : ∀ {more}, Stops isNameChar (separator.toList ++ more)) (he : e.IsLegible) (he' : e'.IsLegible)
    (h : e.inline.map (fun value => lead ++ x ++ separator ++ value) = .ok text)
    (h' : e'.inline.map (fun value => lead ++ x' ++ separator ++ value) = .ok text) :
    x = x' ∧ e = e' := by
  obtain ⟨value, hvalue, rfl⟩ := title_inline h
  obtain ⟨value', hvalue', heq⟩ := title_inline h'
  have heq := congrArg String.toList heq
  simp only [String.toList_append, List.append_assoc] at heq
  obtain ⟨hname, hrest⟩ := append_inj_of_stops hx hx' hsep hsep (List.append_cancel_left heq)
  obtain rfl := String.toList_inj.mp (List.append_cancel_left hrest)
  exact ⟨String.toList_inj.mp hname, inline_inj he he' hvalue hvalue'⟩

theorem bracketed_inline_inj {lead close : String} (he : e.IsLegible) (he' : e'.IsLegible)
    (h : e.inline.map (fun value => lead ++ value ++ close) = .ok text)
    (h' : e'.inline.map (fun value => lead ++ value ++ close) = .ok text) : e = e' := by
  obtain ⟨value, hvalue, rfl⟩ := title_inline h
  obtain ⟨value', hvalue', heq⟩ := title_inline h'
  have heq := congrArg String.toList heq
  simp only [String.toList_append, List.append_assoc] at heq
  have hvalues := List.append_cancel_right (List.append_cancel_left heq)
  obtain rfl := String.toList_inj.mp hvalues
  exact inline_inj he he' hvalue hvalue'

end

/-- No member of a body under an if-clause is an else-clause, so the clause's own stands out. -/
theorem under_ifClause_ne {m m' : Mark} {e e' : Node} {body body' : List Node} {em : Mark}
    {ebody : List Node} (h : (ifClause m e body).IsOutlined) :
    (ifClause m e body).under ≠ (ifElse m' e' body' em ebody).under := by
  intro hunder
  have hmem : elseClause em ebody ∈ (ifClause m e body).under := by
    rw [hunder]
    exact List.mem_append_right _ (List.mem_singleton_self _)
  rcases fits_of_under h.clean hmem with ⟨r, hr, hfits⟩ | ⟨_, _, _, _, _, heq, _⟩
  · cases r with
    | expression => exact hr rfl
    | bodyMember | sheetMember => cases hfits
  · cases heq

/-- A statement is determined by its title and the statements directly under it. -/
theorem eq_of_title {n n' : Node} (hn : n.IsOutlined) (hn' : n'.IsOutlined) {text : String}
    (h : n.title = .ok text) (h' : n'.title = .ok text) (hunder : n.under = n'.under) : n = n' := by
  have hkey := keyword_eq hn.statement hn'.statement h h'
  have hmark := hn.legible.mark_eq.trans hn'.legible.mark_eq.symm
  have hspelled := hn.legible.isSpelled
  have hspelled' := hn'.legible.isSpelled
  have hfirst : ∀ {e e' : Node}, e ∈ n.children → e' ∈ n'.children → e.IsLegible ∧ e'.IsLegible :=
    fun he he' => ⟨hn.legible.child he, hn'.legible.child he'⟩
  cases n with
  | sheet m members =>
    cases n' with
    | sheet m' members' => exact congrArg₂ sheet hmark hunder
    | literal | reference | operation | declaration | assignment | ifClause | ifElse | elseClause | rule
    | foreign => simp [keyword] at hkey
  | rule m ss body =>
    cases n' with
    | rule m' ss' body' =>
      have htext := Except.ok.inj (h.trans h'.symm)
      have hselectors := String.toList_inj.mp (List.append_cancel_left
        ((String.toList_append.symm.trans (congrArg String.toList htext)).trans String.toList_append))
      rw [Selector.textAll_inj hspelled.2 hspelled'.2 hspelled.1 hspelled'.1 hselectors]
      exact congrArg₂ (rule · ss') hmark hunder
    | literal | reference | operation | declaration | assignment | ifClause | ifElse | elseClause | sheet
    | foreign => simp [keyword] at hkey
  | declaration m p e =>
    cases n' with
    | declaration m' p' e' =>
      obtain ⟨he, he'⟩ := hfirst (List.mem_singleton_self e) (List.mem_singleton_self e')
      obtain ⟨rfl, rfl⟩ := name_inline_inj (isTagText_all hspelled) (isTagText_all hspelled')
        (stops_cons (by decide) _) he he' h h'
      exact congrArg (declaration · p e) hmark
    | literal | reference | operation | assignment | ifClause | ifElse | elseClause | rule | sheet
    | foreign => simp [keyword] at hkey
  | assignment m x e =>
    cases n' with
    | assignment m' x' e' =>
      obtain ⟨he, he'⟩ := hfirst (List.mem_singleton_self e) (List.mem_singleton_self e')
      obtain ⟨rfl, rfl⟩ := name_inline_inj (isVariableText_all hspelled) (isVariableText_all hspelled')
        (stops_cons (by decide) _) he he' h h'
      exact congrArg (assignment · x e) hmark
    | literal | reference | operation | declaration | ifClause | ifElse | elseClause | rule | sheet
    | foreign => simp [keyword] at hkey
  | ifClause m e body =>
    cases n' with
    | ifClause m' e' body' =>
      obtain ⟨he, he'⟩ := hfirst List.mem_cons_self List.mem_cons_self
      obtain rfl := bracketed_inline_inj he he' h h'
      exact congrArg₂ (ifClause · e) hmark hunder
    | ifElse m' e' body' em ebody => exact absurd hunder (under_ifClause_ne hn)
    | literal | reference | operation | declaration | assignment | elseClause | rule | sheet | foreign =>
      simp [keyword] at hkey
  | ifElse m e body em ebody =>
    cases n' with
    | ifElse m' e' body' em' ebody' =>
      obtain ⟨he, he'⟩ := hfirst List.mem_cons_self List.mem_cons_self
      obtain rfl := bracketed_inline_inj he he' h h'
      obtain rfl : m = m' := hmark
      obtain ⟨rfl, helse⟩ := List.append_inj' hunder rfl
      cases helse
      rfl
    | ifClause m' e' body' => exact absurd hunder.symm (under_ifClause_ne hn')
    | literal | reference | operation | declaration | assignment | elseClause | rule | sheet | foreign =>
      simp [keyword] at hkey
  | elseClause m body =>
    cases n' with
    | elseClause m' body' => exact congrArg₂ elseClause hmark hunder
    | literal | reference | operation | declaration | assignment | ifClause | ifElse | rule | sheet
    | foreign => simp [keyword] at hkey
  | literal | reference | operation | foreign => cases h

/-- The first row, if there is one, stands above the level. -/
def StartsAbove (level : Nat) (rs : List Row) : Prop := ∀ r ∈ rs.head?, r.level < level

theorem startsAbove_nil (level : Nat) : StartsAbove level [] := by
  rintro r ⟨⟩

section

variable {level : Nat} {rs more : List Row} {ns : List Node}

theorem startsAbove_append (hns : ∀ c ∈ ns, c.isStatement = true) (h : rowsAll level ns = .ok rs)
    (hmore : StartsAbove level more) : StartsAbove (level + 1) (rs ++ more) := by
  cases ns with
  | nil =>
    cases h
    exact fun r hr => (hmore r hr).trans (Nat.lt_succ_self level)
  | cons c ns =>
    have hc := isExpression_of_isStatement (hns c List.mem_cons_self)
    obtain ⟨first, others, hfirst, -, rfl⟩ := (rowsAll_statement_iff hc).mp h
    obtain ⟨text, below, -, -, rfl⟩ := rows_ok_iff.mp hfirst
    rintro r ⟨⟩
    exact Nat.lt_succ_self level

/-- The row of a statement does not stand above the level of the statement. -/
theorem not_startsAbove {c : Node} (hc : c.isStatement = true) (h : rowsAll level (c :: ns) = .ok rs) :
    ¬ StartsAbove level (rs ++ more) := by
  obtain ⟨first, others, hfirst, -, rfl⟩ :=
    (rowsAll_statement_iff (isExpression_of_isStatement hc)).mp h
  obtain ⟨text, below, -, -, rfl⟩ := rows_ok_iff.mp hfirst
  exact fun hmore => Nat.lt_irrefl level (hmore _ rfl)

end

/-- The rows of the node are those of no other statement, whatever comes after them at its level or above. -/
def IsRecovered (n : Node) : Prop :=
  ∀ {n' : Node} {level : Nat} {rs rs' more more' : List Row}, n'.IsOutlined → n.rows level = .ok rs →
    n'.rows level = .ok rs' → StartsAbove (level + 1) more → StartsAbove (level + 1) more' →
    rs ++ more = rs' ++ more' → n = n' ∧ more = more'

theorem rowsAll_append_inj {ns ns' : List Node} (hns : ∀ c ∈ ns, c.IsOutlined ∧ c.IsRecovered)
    (hns' : ∀ c ∈ ns', c.IsOutlined) {level : Nat} {rs rs' more more' : List Row}
    (h : rowsAll level ns = .ok rs) (h' : rowsAll level ns' = .ok rs') (hmore : StartsAbove level more)
    (hmore' : StartsAbove level more') (heq : rs ++ more = rs' ++ more') : ns = ns' ∧ more = more' := by
  induction ns generalizing ns' rs rs' with
  | nil =>
    cases h
    rw [List.nil_append] at heq
    cases ns' with
    | nil =>
      cases h'
      exact ⟨rfl, heq⟩
    | cons c' ns' =>
      rw [heq] at hmore
      exact absurd hmore (not_startsAbove (hns' c' List.mem_cons_self).statement h')
  | cons c ns ih =>
    obtain ⟨⟨hc, hrecovered⟩, hns⟩ := List.forall_mem_cons.mp hns
    cases ns' with
    | nil =>
      cases h'
      rw [List.nil_append] at heq
      rw [← heq] at hmore'
      exact absurd hmore' (not_startsAbove hc.statement h)
    | cons c' ns' =>
      obtain ⟨hc', htail'⟩ := List.forall_mem_cons.mp hns'
      obtain ⟨first, others, hfirst, hothers, rfl⟩ :=
        (rowsAll_statement_iff (isExpression_of_isStatement hc.statement)).mp h
      obtain ⟨first', others', hfirst', hothers', rfl⟩ :=
        (rowsAll_statement_iff (isExpression_of_isStatement hc'.statement)).mp h'
      rw [List.append_assoc, List.append_assoc] at heq
      have habove := startsAbove_append (fun d hd => (hns d hd).1.statement) hothers hmore
      have habove' := startsAbove_append (fun d hd => (htail' d hd).statement) hothers' hmore'
      obtain ⟨hhead, hrest⟩ := hrecovered hc' hfirst hfirst' habove habove' heq
      obtain ⟨htail, hmore⟩ := ih hns htail' hothers hothers' hrest
      exact ⟨congrArg₂ List.cons hhead htail, hmore⟩

theorem isRecovered {n : Node} (hn : n.IsOutlined) : n.IsRecovered := by
  induction n using children_induction with
  | h n ih =>
    intro n' level rs rs' more more' hn' h h' hmore hmore' heq
    obtain ⟨text, others, htext, hothers, rfl⟩ := rows_ok_iff.mp h
    obtain ⟨text', others', htext', hothers', rfl⟩ := rows_ok_iff.mp h'
    obtain ⟨hrow, hrest⟩ := List.cons.inj heq
    have hbelow : ∀ c ∈ n.under, c.IsOutlined ∧ c.IsRecovered :=
      fun c hc => ⟨hn.under hc, ih c (under_subset hc) (hn.under hc)⟩
    obtain ⟨hunder, hmore⟩ :=
      rowsAll_append_inj hbelow (fun c hc => hn'.under hc) hothers hothers' hmore hmore' hrest
    rw [hn.legible.mark_eq, hn'.legible.mark_eq, Row.mk.injEq] at hrow
    have htexts : text = text' := by simpa [remark] using hrow.2
    exact ⟨eq_of_title hn hn' htext (htexts ▸ htext') hunder, hmore⟩

theorem toList_spaces (k : Nat) :
    (String.join (List.replicate k "  ")).toList = List.replicate (2 * k) ' ' := by
  rw [String.toList_join]
  induction k with
  | zero => rfl
  | succ k ih => simp [List.replicate_succ, ih, Nat.mul_add]

/-- A row is determined by its line, for no text of a row starts with a blank. -/
theorem line_inj {r r' : Row} (hr : Stops (· = ' ') r.text.toList)
    (hr' : Stops (· = ' ') r'.text.toList) (h : r.line 0 = r'.line 0) : r = r' := by
  have hspaces : ∀ {k : Nat}, (List.replicate k ' ').all (· = ' ') = true := by
    simp
  have heq := congrArg String.toList h
  simp only [Row.line, String.toList_append, toList_spaces] at heq
  obtain ⟨hlevel, htext⟩ := append_inj_of_stops hspaces hspaces hr hr' heq
  have hlevel := congrArg List.length hlevel
  rw [List.length_replicate, List.length_replicate] at hlevel
  cases r
  cases r'
  simp only [Row.mk.injEq] at *
  exact ⟨by omega, String.toList_inj.mp htext⟩

theorem lines_inj {rs rs' : List Row} (hrs : ∀ r ∈ rs, Stops (· = ' ') r.text.toList)
    (hrs' : ∀ r ∈ rs', Stops (· = ' ') r.text.toList) (h : rs.map (Row.line 0) = rs'.map (Row.line 0)) :
    rs = rs' := by
  induction rs generalizing rs' with
  | nil => exact (List.map_eq_nil_iff.mp h.symm).symm
  | cons r rs ih =>
    cases rs' with
    | nil => cases h
    | cons r' rs' =>
      obtain ⟨hr, hrs⟩ := List.forall_mem_cons.mp hrs
      obtain ⟨hr', hrs'⟩ := List.forall_mem_cons.mp hrs'
      obtain ⟨hline, hlines⟩ := List.cons.inj h
      rw [line_inj hr hr' hline, ih hrs hrs' hlines]

theorem stops_blank {n : Node} {r : Row} (hn : n.isStatement = true) (h : n.IsRowOf r) :
    Stops (· = ' ') r.text.toList := by
  obtain ⟨text, htext, hr⟩ := h
  obtain ⟨tail, htail, -⟩ := title_keyword htext
  have hword := isVariableText_keyword hn
  cases hkey : n.keyword.toList with
  | nil =>
    rw [hkey] at hword
    cases hword
  | cons c cs =>
    rw [hkey, isVariableText, isWord, Bool.and_eq_true] at hword
    rw [hr, String.toList_append, htail, hkey]
    refine stops_cons (decide_eq_false ?_) _
    rintro rfl
    cases hword.1

end Node

namespace Sheet

/-- An outline shows the sheet in full. -/
structure IsLegible (s : Sheet) : Prop where
  placed : s.isWellPlaced = true
  legible : s.node.IsLegible

theorem IsLegible.isOutlined {s : Sheet} (h : s.IsLegible) : s.node.IsOutlined :=
  ⟨rfl, clean_iff.mpr h.placed, h.legible⟩

theorem IsLegible.outline_ok {s : Sheet} (h : s.IsLegible) : ∃ lines, s.outline = .ok lines := by
  cases houtline : s.outline with
  | ok lines => exact ⟨lines, rfl⟩
  | error f => exact absurd h.legible.writable (outline_error h.placed houtline).2

theorem eq_of_outline_eq {s t : Sheet} (hs : s.IsLegible) (ht : t.IsLegible)
    (h : s.outline = t.outline) : s = t := by
  have hblank : ∀ {u : Sheet} {rs : List Row}, u.IsLegible → u.node.rows 0 = .ok rs →
      ∀ r ∈ rs, Source.Stops (· = ' ') r.text.toList := by
    intro u rs hu hrs r hr
    have hall := Node.rows_statements rfl hu.isOutlined.clean hrs
    obtain ⟨n, hn, hrow⟩ := Node.exists_related hall.flip hr
    exact Node.stops_blank (List.mem_filter.mp hn).2 hrow
  obtain ⟨lines, hlines⟩ := hs.outline_ok
  obtain ⟨rs, hrs, hmap⟩ := outline_ok_iff.mp hlines
  obtain ⟨rs', hrs', hmap'⟩ := outline_ok_iff.mp (h ▸ hlines)
  obtain rfl := Node.lines_inj (hblank hs hrs) (hblank ht hrs') (hmap.trans hmap'.symm)
  obtain ⟨hnode, -⟩ := Node.isRecovered hs.isOutlined ht.isOutlined hrs hrs' (Node.startsAbove_nil _)
    (Node.startsAbove_nil _) rfl
  cases s
  cases t
  cases hnode
  rfl

end Sheet

/-- Outlines of different sheets differ, and so do the texts of different expressions. -/
theorem outline_injective :
    (∀ s : Sheet, s.IsLegible → ∃ lines, s.outline = .ok lines) ∧
    (∀ e : Node, e.isValue = true → e.IsLegible → ∃ text, e.inline = .ok text) ∧
    Set.InjOn Sheet.outline {s | s.IsLegible} ∧
    Set.InjOn Node.inline {e | e.isValue = true ∧ e.IsLegible} := by
  have hinline : ∀ e : Node, e.isValue = true → e.IsLegible → ∃ text, e.inline = .ok text := by
    intro e he hlegible
    cases hr : e.inline with
    | ok text => exact ⟨text, rfl⟩
    | error f => exact absurd hlegible.writable (Node.inline_error he hr).2
  refine ⟨fun s hs => hs.outline_ok, hinline, fun s hs t ht h => Sheet.eq_of_outline_eq hs ht h, ?_⟩
  intro e he e' he' h
  obtain ⟨text, htext⟩ := hinline e he.1 he.2
  exact Node.inline_inj he.2 he'.2 htext (h ▸ htext)

/-- The clause that an else-clause belongs to shows in the outline. -/
theorem outline_injective_elseClause :
    let rule := fun body : List Node => (⟨none, [.rule none [.tag "p"] body]⟩ : Sheet)
    let s := rule [.ifElse none (.reference none "X") [.ifClause none (.reference none "Y") []] none []]
    let t := rule [.ifClause none (.reference none "X") [.ifElse none (.reference none "Y") [] none []]]
    s.IsLegible ∧ t.IsLegible ∧ s.outline ≠ t.outline := by
  intro rule s t
  have hlegible : ∀ root : Node,
      (∀ n ∈ root.walk, n.mark = none ∧ n.IsSpelled ∧ ∀ m v, n ≠ .literal m v) → root.IsLegible :=
    fun root h => ⟨fun n hn => (h n hn).1, fun n hn => (h n hn).2.1,
      fun n hn m v hv => absurd hv ((h n hn).2.2 m v)⟩
  have hp : Source.SelectorForm (.tag "p") := .tag (by decide)
  have hX : Source.isVariableText ['X'] = true := by decide
  have hY : Source.isVariableText ['Y'] = true := by decide
  have hs : s.IsLegible := by
    refine ⟨by decide +kernel, hlegible _ ?_⟩
    simp [s, rule, Sheet.node, Node.walk_eq, Node.children, Node.mark, Node.IsSpelled, hp, hX, hY]
  have ht : t.IsLegible := by
    refine ⟨by decide +kernel, hlegible _ ?_⟩
    simp [t, rule, Sheet.node, Node.walk_eq, Node.children, Node.mark, Node.IsSpelled, hp, hX, hY]
  have hne : s ≠ t := by
    intro h
    simp [s, t, rule] at h
  exact ⟨hs, ht, fun h => hne (outline_injective.2.2.1 hs ht h)⟩

end StyleLang
