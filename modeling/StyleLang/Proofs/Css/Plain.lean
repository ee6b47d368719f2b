import StyleLang.Css

/-!
# Writing plain sheets

A sheet is plain when it holds only rules, whose bodies hold only declarations of literals. Writing a
plain sheet has one way to fail: a number in it has too many digits. Of other sheets nothing is said.
-/

namespace StyleLang

inductive PlainMember : Node → Prop
  | declaration (m : Mark) (p : String) (m' : Mark) (v : Literal) :
      PlainMember (.declaration m p (.literal m' v))

inductive PlainRule : Node → Prop
  | rule (m : Mark) (ss : List Selector) {body : List Node} (h : ∀ n ∈ body, PlainMember n) :
      PlainRule (.rule m ss body)

def Sheet.IsPlain (s : Sheet) : Prop := ∀ n ∈ s.members, PlainRule n

/-- The number of a literal, if it has one. -/
def Literal.number? : Literal → Option Int
  | pixel n => some n
  | percentage n => some n
  | scalar n => some n
  | color _ => none
  | bool _ => none

/-- A number with more digits than can be written. -/
def Literal.IsTooLong (v : Literal) : Prop :=
  ∃ n, v.number? = some n ∧ Text.maxDigits < (Nat.repr n.natAbs).length

/-- A member of a rule of the sheet declares the literal. -/
def Sheet.Declares (s : Sheet) (v : Literal) : Prop :=
  ∃ m ss body m' p m'', Node.rule m ss body ∈ s.members ∧
    Node.declaration m' p (.literal m'' v) ∈ body

theorem decimal?_eq_none_iff {n : Int} :
    Text.decimal? n = none ↔ Text.maxDigits < (Nat.repr n.natAbs).length := by
  unfold Text.decimal?
  split
  · simp only [reduceCtorEq, false_iff]
    omega
  · simp only [true_iff]
    omega

theorem Literal.css?_eq_none_iff {v : Literal} : v.css? = none ↔ v.IsTooLong := by
  unfold IsTooLong
  cases v with
  | pixel n | percentage n | scalar n =>
    simp [css?, number?, decimal?_eq_none_iff]
  | color s => simp [css?, number?]
  | bool b => cases b <;> simp [css?, number?]

section

variable {α β ε : Type} {w : α → Except ε β} {ns : List α}

theorem exists_of_mapM_eq_ok {bs : List β} (h : ns.mapM w = .ok bs) {n : α} (hn : n ∈ ns) :
    ∃ b, w n = .ok b := by
  induction ns generalizing bs with
  | nil => cases hn
  | cons m ns ih =>
    rw [List.mapM_cons] at h
    cases hm : w m with
    | error f => simp [hm, bind, Except.bind] at h
    | ok b =>
      cases hns : ns.mapM w with
      | error f => simp [hm, hns, bind, Except.bind] at h
      | ok others =>
        rcases List.mem_cons.mp hn with rfl | hn
        · exact ⟨b, hm⟩
        · exact ih hns hn

/-- A list of outcomes fails as the first of them that does. -/
theorem mapM_eq_error {f : ε} (h : ns.mapM w = .error f) :
    ∃ (k : Nat) (n : α), ns[k]? = some n ∧ w n = .error f ∧
      ∀ i < k, ∀ c, ns[i]? = some c → ∃ b, w c = .ok b := by
  induction ns with
  | nil => cases h
  | cons n ns ih =>
    rw [List.mapM_cons] at h
    cases hn : w n with
    | error g =>
      rw [hn] at h
      cases h
      exact ⟨0, n, rfl, hn, fun i hi => absurd hi (Nat.not_lt_zero i)⟩
    | ok b =>
      cases hns : ns.mapM w with
      | ok others => simp [hn, hns, bind, Except.bind, pure, Except.pure] at h
      | error g =>
        rw [hn, hns] at h
        cases h
        obtain ⟨k, c, hc, hfault, hbefore⟩ := ih hns
        refine ⟨k + 1, c, hc, hfault, fun i hi d hd => ?_⟩
        cases i with
        | zero =>
          obtain rfl := Option.some.inj hd
          exact ⟨b, hn⟩
        | succ i => exact hbefore i (by omega) d hd

end

namespace Css

variable {indent : Indent} {selectors : String}

theorem bind_eq_ok {α β : Type} {x : Except Fault α} {f : α → Except Fault β} {b : β} :
    (x >>= f) = .ok b ↔ ∃ a, x = .ok a ∧ f a = .ok b := by
  cases x <;> simp [bind, Except.bind]

/-- Two outcomes, of which something is made if neither fails. -/
theorem both_eq_ok {α β γ : Type} {x : Except Fault α} {y : Except Fault β} {make : α → β → γ} {c : γ} :
    (do
      let a ← x
      let b ← y
      return make a b) = Except.ok c ↔ ∃ a b, x = .ok a ∧ y = .ok b ∧ c = make a b := by
  simp only [bind_eq_ok, pure, Except.pure, Except.ok.injEq]
  constructor
  · intro h
    obtain ⟨a, ha, b, hb, hc⟩ := h
    exact ⟨a, b, ha, hb, hc.symm⟩
  · intro h
    obtain ⟨a, b, ha, hb, hc⟩ := h
    exact ⟨a, ha, b, hb, hc.symm⟩

theorem lines_cons {n : Node} {ns : List Node} {text : String} :
    lines indent selectors (n :: ns) = .ok text ↔
      ∃ first others, line indent selectors n = .ok first ∧
        lines indent selectors ns = .ok others ∧ text = first ++ others :=
  both_eq_ok

theorem blocks_cons {n : Node} {ns : List Node} {texts : List String} :
    blocks indent (n :: ns) = .ok texts ↔
      ∃ first others, block indent n = .ok first ∧ blocks indent ns = .ok others ∧
        texts = first :: others :=
  both_eq_ok

theorem lines_eq_mapM (indent : Indent) (selectors : String) (ns : List Node) :
    lines indent selectors ns = (ns.mapM (line indent selectors)).map String.join := by
  induction ns with
  | nil => rfl
  | cons n ns ih =>
    rw [lines, ih, List.mapM_cons]
    cases line indent selectors n with
    | error f => rfl
    | ok first =>
      cases ns.mapM (line indent selectors) with
      | error f => rfl
      | ok others =>
        show Except.ok (first ++ String.join others) = .ok (String.join (first :: others))
        rw [String.join_cons]

theorem blocks_eq_mapM (indent : Indent) (ns : List Node) : blocks indent ns = ns.mapM (block indent) := by
  induction ns with
  | nil => rfl
  | cons n ns ih => rw [blocks, ih, List.mapM_cons]

theorem line_plain (indent : Indent) (selectors : String) {n : Node} (h : PlainMember n) :
    (∃ text, line indent selectors n = .ok text) ∨
      (line indent selectors n = .error .tooLong ∧
        ∃ m p m' v, n = .declaration m p (.literal m' v) ∧ v.IsTooLong) := by
  cases h with
  | declaration m p m' v =>
    cases hv : v.css? with
    | some text =>
      refine Or.inl ⟨indent.text ++ p ++ ": " ++ text ++ ";\n", ?_⟩
      simp only [line, value, hv]
      rfl
    | none =>
      refine Or.inr ⟨?_, m, p, m', v, rfl, Literal.css?_eq_none_iff.mp hv⟩
      simp only [line, value, hv]
      rfl

theorem lines_plain (indent : Indent) (selectors : String) {ns : List Node}
    (h : ∀ n ∈ ns, PlainMember n) :
    (∃ text, lines indent selectors ns = .ok text) ∨
      (lines indent selectors ns = .error .tooLong ∧
        ∃ m p m' v, Node.declaration m p (.literal m' v) ∈ ns ∧ v.IsTooLong) := by
  rw [lines_eq_mapM]
  cases hlines : ns.mapM (line indent selectors) with
  | ok texts => exact Or.inl ⟨String.join texts, rfl⟩
  | error f =>
    obtain ⟨k, n, hn, hfault, -⟩ := mapM_eq_error hlines
    have hmem := List.mem_of_getElem? hn
    rcases line_plain indent selectors (h n hmem) with ⟨text, htext⟩ | ⟨hlong, m, p, m', v, rfl, hv⟩
    · cases htext.symm.trans hfault
    · obtain rfl := Except.error.inj (hfault.symm.trans hlong)
      exact Or.inr ⟨rfl, m, p, m', v, hmem, hv⟩

theorem blocks_plain (indent : Indent) {ns : List Node} (h : ∀ n ∈ ns, PlainRule n) :
    (∃ texts, blocks indent ns = .ok texts) ∨
      (blocks indent ns = .error .tooLong ∧ ∃ m ss body m' p m'' v, Node.rule m ss body ∈ ns ∧
        Node.declaration m' p (.literal m'' v) ∈ body ∧ v.IsTooLong) := by
  rw [blocks_eq_mapM]
  cases hblocks : ns.mapM (block indent) with
  | ok texts => exact Or.inl ⟨texts, rfl⟩
  | error f =>
    obtain ⟨k, n, hn, hfault, -⟩ := mapM_eq_error hblocks
    have hmem := List.mem_of_getElem? hn
    obtain ⟨m, ss, hbody⟩ := h n hmem
    rcases lines_plain indent (Selector.textAll ss) hbody with
      ⟨inner, hinner⟩ | ⟨hlong, m', p, m'', v, hmember, hv⟩
    · simp [block, hinner, Except.map] at hfault
    · simp only [block, hlong, Except.map, Except.error.injEq] at hfault
      exact Or.inr ⟨by rw [← hfault], m, ss, _, m', p, m'', v, hmem, hmember, hv⟩

theorem lines_ok {ns : List Node} {text : String} (h : lines indent selectors ns = .ok text) :
    ∀ n ∈ ns, ∃ first, line indent selectors n = .ok first := by
  intro n hn
  cases hlines : ns.mapM (line indent selectors) with
  | ok texts => exact exists_of_mapM_eq_ok hlines hn
  | error f => simp [lines_eq_mapM, hlines, Except.map] at h

theorem blocks_ok {ns : List Node} {texts : List String} (h : blocks indent ns = .ok texts) :
    ∀ n ∈ ns, ∃ first, block indent n = .ok first :=
  fun _ hn => exists_of_mapM_eq_ok ((blocks_eq_mapM indent ns).symm.trans h) hn

theorem not_tooLong_of_line {m m' : Mark} {p text : String} {v : Literal}
    (h : line indent selectors (.declaration m p (.literal m' v)) = .ok text) : ¬ v.IsTooLong := by
  intro hlong
  simp [line, value, Literal.css?_eq_none_iff.mpr hlong, Except.map] at h

end Css

/-- In a sheet that is written no number is too long. -/
theorem Sheet.not_tooLong_of_css {s : Sheet} {layout : Layout} {text : String}
    (h : s.css layout = .ok text) {v : Literal} (hv : s.Declares v) : ¬ v.IsTooLong := by
  obtain ⟨m, ss, body, m', p, m'', hrule, hmember⟩ := hv
  cases hblocks : Css.blocks layout.indent s.members with
  | error f => simp [css, hblocks, Except.map] at h
  | ok texts =>
    obtain ⟨block, hblock⟩ := Css.blocks_ok hblocks _ hrule
    cases hlines : Css.lines layout.indent (Selector.textAll ss) body with
    | error f => simp [Css.block, hlines, Except.map] at hblock
    | ok inner =>
      obtain ⟨line, hline⟩ := Css.lines_ok hlines _ hmember
      exact Css.not_tooLong_of_line hline

/-- A plain sheet is written, or one of its numbers is too long. -/
theorem Sheet.css_plain {s : Sheet} (h : s.IsPlain) (layout : Layout) :
    (∃ text, s.css layout = .ok text) ∨
      (s.css layout = .error .tooLong ∧ ∃ v, s.Declares v ∧ v.IsTooLong) := by
  rcases Css.blocks_plain layout.indent h with htexts | hfault
  · obtain ⟨texts, htexts⟩ := htexts
    refine Or.inl ⟨String.intercalate layout.separator texts, ?_⟩
    simp only [css, htexts]
    rfl
  · obtain ⟨hfault, m, ss, body, m', p, m'', v, hrule, hmem, hv⟩ := hfault
    refine Or.inr ⟨?_, v, ⟨m, ss, body, m', p, m'', hrule, hmem⟩, hv⟩
    simp only [css, hfault]
    rfl

/-- A plain sheet is written exactly if none of its numbers is too long. -/
theorem Sheet.css_iff {s : Sheet} (h : s.IsPlain) (layout : Layout) :
    (∃ text, s.css layout = .ok text) ↔ ∀ v, s.Declares v → ¬ v.IsTooLong := by
  constructor
  · rintro ⟨text, htext⟩ v hv
    exact Sheet.not_tooLong_of_css htext hv
  · intro hshort
    rcases Sheet.css_plain h layout with htext | ⟨-, v, hv, hlong⟩
    · exact htext
    · exact absurd hlong (hshort v hv)

end StyleLang
