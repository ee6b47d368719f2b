import StyleLang.Proofs.Compile.Gate

/-!
# What generation writes, and where it stops

A sheet is written exactly if it is plain, as long as no number in it is too long. Its text is the texts
of its rules in turn with the separator between them; the text of a rule is a line with its selectors, a
line for each of its declarations and a closing line. Writing any other sheet stops at the first node, in
document order, that may not remain after evaluation.
-/

namespace StyleLang

open Position

/-- The text of a literal, of however many digits. -/
def Literal.text : Literal → String
  | .pixel n => toString n ++ "px"
  | .percentage n => toString n ++ "%"
  | .color s => s
  | .scalar n => toString n
  | .bool true => "TRUE"
  | .bool false => "FALSE"

theorem Literal.css?_eq_text {v : Literal} (h : ¬ v.IsTooLong) : v.css? = some v.text := by
  have hdecimal : ∀ n, v.number? = some n → Text.decimal? n = some (toString n) := by
    intro n hn
    have hshort : ¬ Text.maxDigits < (Nat.repr n.natAbs).length := fun hlong => h ⟨n, hn, hlong⟩
    exact if_pos (by omega)
  cases v with
  | pixel n | percentage n | scalar n => simp [css?, text, hdecimal n rfl]
  | color s => rfl
  | bool b => cases b <;> rfl

section

variable {α β ε : Type} {w : α → Except ε β} {ns : List α}

theorem mapM_eq_ok_iff {R : α → β → Prop} (h : ∀ n ∈ ns, ∀ b, w n = .ok b ↔ R n b) {bs : List β} :
    ns.mapM w = .ok bs ↔ List.Forall₂ R ns bs := by
  induction ns generalizing bs with
  | nil => simp [pure, Except.pure, eq_comm]
  | cons n ns ih =>
    obtain ⟨hn, hns⟩ := List.forall_mem_cons.mp h
    rw [List.mapM_cons, List.forall₂_cons_left_iff]
    simp only [← hn, ← ih hns]
    cases w n with
    | error f => simp [bind, Except.bind]
    | ok b => cases ns.mapM w <;> simp [bind, Except.bind, pure, Except.pure, eq_comm]

end

namespace Css

/-- The line of a declaration. -/
inductive LineOf (indent : String) : Node → String → Prop
  | declaration (m : Mark) (p : String) (m' : Mark) (v : Literal) :
      LineOf indent (.declaration m p (.literal m' v)) (indent ++ p ++ ": " ++ v.text ++ ";")

/-- The block of a rule: its lines, each of them ended. -/
inductive BlockOf (indent : String) : Node → String → Prop
  | rule (m : Mark) (ss : List Selector) {body : List Node} {lines : List String}
      (h : List.Forall₂ (LineOf indent) body lines) : BlockOf indent (.rule m ss body)
        (String.join (((Selector.textAll ss ++ " \x7b") :: lines ++ ["\x7d"]).map (· ++ "\n")))

section

variable {indent : Indent} {selectors : String} {n : Node} {ns : List Node}

theorem line_text (t : String) : t ++ ";" ++ "\n" = t ++ ";\n" := String.append_assoc

theorem line_eq_ok_iff (hn : n.IsWritable) {text : String} :
    line indent selectors n = .ok text ↔ ∃ t, LineOf indent.text n t ∧ text = t ++ "\n" := by
  constructor
  · intro h
    cases n with
    | declaration m p e =>
      cases e with
      | literal m' v =>
        have hv : ¬ v.IsTooLong := not_tooLong_of_line h
        simp only [line, value, Literal.css?_eq_text hv] at h
        obtain rfl := Except.ok.inj h
        exact ⟨_, .declaration m p m' v, (line_text _).symm⟩
      | _ => cases h
    | _ => cases h
  · intro h
    obtain ⟨t, ht, rfl⟩ := h
    cases ht with
    | declaration m p m' v =>
      have hv : ¬ v.IsTooLong := hn.at? (p := [0]) rfl _ (Node.mem_walk_iff.mpr (Or.inl rfl)) m' v rfl
      simp only [line, value, Literal.css?_eq_text hv, line_text]
      rfl

theorem lines_eq_ok_iff (h : ∀ n ∈ ns, n.IsWritable) {text : String} :
    lines indent selectors ns = .ok text ↔
      ∃ ts, List.Forall₂ (LineOf indent.text) ns ts ∧ text = String.join (ts.map (· ++ "\n")) := by
  induction ns generalizing text with
  | nil => simp [lines, eq_comm]
  | cons n ns ih =>
    obtain ⟨hn, hns⟩ := List.forall_mem_cons.mp h
    rw [lines_cons]
    constructor
    · intro h
      obtain ⟨first, others, hfirst, hothers, rfl⟩ := h
      obtain ⟨t, ht, rfl⟩ := (line_eq_ok_iff hn).mp hfirst
      obtain ⟨ts, hts, rfl⟩ := (ih hns).mp hothers
      exact ⟨t :: ts, .cons ht hts, by rw [List.map_cons, String.join_cons]⟩
    · intro h
      obtain ⟨ts, hts, rfl⟩ := h
      cases hts with
      | @cons _ t _ ts ht hts =>
        refine ⟨t ++ "\n", String.join (ts.map (· ++ "\n")), (line_eq_ok_iff hn).mpr ⟨t, ht, rfl⟩,
          (ih hns).mpr ⟨ts, hts, rfl⟩, ?_⟩
        rw [List.map_cons, String.join_cons]

theorem block_text (selectors : String) (ts : List String) :
    selectors ++ " \x7b\n" ++ String.join (ts.map (· ++ "\n")) ++ "\x7d\n" =
      String.join (((selectors ++ " \x7b") :: ts ++ ["\x7d"]).map (· ++ "\n")) := by
  have hopen : selectors ++ " \x7b" ++ "\n" = selectors ++ " \x7b\n" := String.append_assoc
  have hclose : String.join (["\x7d"].map (· ++ "\n")) = "\x7d\n" := rfl
  rw [List.cons_append, List.map_cons, List.map_append, String.join_cons, String.join_append, hopen,
    hclose, String.append_assoc]

theorem block_eq_ok_iff (hn : n.IsWritable) {text : String} :
    block indent n = .ok text ↔ BlockOf indent.text n text := by
  constructor
  · intro h
    cases n with
    | rule m ss body =>
      have hbody : ∀ c ∈ body, c.IsWritable := fun c hc => hn.child hc
      cases hlines : lines indent (Selector.textAll ss) body with
      | error f => simp [block, hlines, Except.map] at h
      | ok inner =>
        obtain ⟨ts, hts, rfl⟩ := (lines_eq_ok_iff hbody).mp hlines
        simp only [block, hlines] at h
        obtain rfl := Except.ok.inj h
        show BlockOf _ _ (_ ++ " \x7b\n" ++ _ ++ "\x7d\n")
        rw [block_text]
        exact .rule m ss hts
    | _ => cases h
  · intro h
    cases h with
    | @rule m ss body ts hts =>
      have hbody : ∀ c ∈ body, c.IsWritable := fun c hc => hn.child hc
      have hlines : lines indent (Selector.textAll ss) body = .ok (String.join (ts.map (· ++ "\n"))) :=
        (lines_eq_ok_iff hbody).mpr ⟨ts, hts, rfl⟩
      simp only [block, hlines, ← block_text]
      rfl

end

end Css

/-- The flaw that comes first in document order. -/
structure FirstFlaw (flaw : Position → Fault → Prop) (p : Position) (f : Fault) : Prop where
  found : flaw p f
  first : ∀ q g, flaw q g → q = p ∨ Precedes p q

/-- An outcome is a text if there is no flaw, and otherwise the fault of the first one. -/
inductive Meets {α : Type} (flaw : Position → Fault → Prop) : Except Fault α → Prop
  | text (a : α) (h : ∀ p f, ¬ flaw p f) : Meets flaw (.ok a)
  | fault {p : Position} {f : Fault} (h : FirstFlaw flaw p f) : Meets flaw (.error f)

/-- The flaws of the nodes of a list, each with the number of its node. -/
inductive FlawAmong (flaw : Node → Position → Fault → Prop) (ns : List Node) : Position → Fault → Prop
  | node {k : Nat} {n : Node} {p : Position} {f : Fault} (hn : ns[k]? = some n) (h : flaw n p f) :
      FlawAmong flaw ns (k :: p) f

section

variable {α β : Type} {flaw : Position → Fault → Prop}

theorem Meets.map {x : Except Fault α} (h : Meets flaw x) (g : α → β) : Meets flaw (x.map g) := by
  cases h with
  | text a h => exact .text (g a) h
  | fault h => exact .fault h

theorem Meets.of_iff {flaw' : Position → Fault → Prop} {x : Except Fault α} (h : Meets flaw x)
    (hiff : ∀ p f, flaw' p f ↔ flaw p f) : Meets flaw' x := by
  obtain rfl : flaw' = flaw := funext fun p => funext fun f => propext (hiff p f)
  exact h

/-- A node with only one flaw. -/
theorem Meets.single {p : Position} {f : Fault} (h : flaw p f) (honly : ∀ q g, flaw q g → q = p) :
    Meets flaw (.error f : Except Fault α) :=
  .fault ⟨h, fun q g hq => Or.inl (honly q g hq)⟩

/-- Outcomes that stop at the first flaw of their nodes, one after another, stop at the first of all. -/
theorem meets_mapM {flaw : Node → Position → Fault → Prop} {w : Node → Except Fault α} {ns : List Node}
    (h : ∀ n ∈ ns, Meets (flaw n) (w n)) : Meets (FlawAmong flaw ns) (ns.mapM w) := by
  have hnone : ∀ n ∈ ns, ∀ a, w n = .ok a → ∀ p f, ¬ flaw n p f := by
    intro n hn a ha p f hflaw
    have hn := h n hn
    rw [ha] at hn
    cases hn with
    | text _ hnone => exact hnone p f hflaw
  cases hw : ns.mapM w with
  | ok texts =>
    refine .text texts fun p f hflaw => ?_
    cases hflaw with
    | @node k n p f hn hflaw =>
      have hmem := List.mem_of_getElem? hn
      obtain ⟨a, ha⟩ := exists_of_mapM_eq_ok hw hmem
      exact hnone n hmem a ha p f hflaw
  | error f =>
    obtain ⟨k, n, hn, hfault, hbefore⟩ := mapM_eq_error hw
    have hmeets := h n (List.mem_of_getElem? hn)
    rw [hfault] at hmeets
    cases hmeets with
    | @fault p f hp =>
      refine .fault ⟨.node hn hp.found, fun q g hq => ?_⟩
      cases hq with
      | @node i c q g hc hq =>
        -- Nothing is wrong with the nodes before `n`, and what is wrong after it does not come first.
        rcases Nat.lt_trichotomy i k with hlt | rfl | hgt
        · obtain ⟨a, ha⟩ := hbefore i hlt c hc
          exact absurd hq (hnone c (List.mem_of_getElem? hc) a ha q g)
        · obtain rfl := Option.some.inj (hc.symm.trans hn)
          rcases hp.first q g hq with rfl | hprecedes
          · exact Or.inl rfl
          · exact Or.inr (hprecedes.cons i)
        · exact Or.inr (precedes_siblings hgt p q)

end

namespace Css

/-- A member of a rule has to be a declaration, and its value a literal. -/
inductive LineFlaw (selectors : String) : Node → Position → Fault → Prop
  | kind {n : Node} (h : ∀ m p e, n ≠ .declaration m p e) :
      LineFlaw selectors n [] (.notDeclaration selectors n)
  | value {m : Mark} {p : String} {e : Node} (h : ∀ m' v, e ≠ .literal m' v) :
      LineFlaw selectors (.declaration m p e) [0] (.unevaluated e)

/-- A member of a sheet has to be a rule. -/
inductive BlockFlaw : Node → Position → Fault → Prop
  | kind {n : Node} (h : ∀ m ss body, n ≠ .rule m ss body) : BlockFlaw n [] (.notRule n)
  | body {m : Mark} {ss : List Selector} {body : List Node} {p : Position} {f : Fault}
      (h : FlawAmong (LineFlaw (Selector.textAll ss)) body p f) : BlockFlaw (.rule m ss body) p f

section

variable {indent : Indent} {selectors : String} {n : Node}

theorem value_eq_error {e : Node} (h : ∀ m v, e ≠ .literal m v) : value e = .error (.unevaluated e) := by
  cases e with
  | literal m v => exact absurd rfl (h m v)
  | _ => rfl

theorem line_eq_error (h : ∀ m p e, n ≠ .declaration m p e) :
    line indent selectors n = .error (.notDeclaration selectors n) := by
  cases n with
  | declaration m p e => exact absurd rfl (h m p e)
  | _ => rfl

theorem block_eq_error (h : ∀ m ss body, n ≠ .rule m ss body) : block indent n = .error (.notRule n) := by
  cases n with
  | rule m ss body => exact absurd rfl (h m ss body)
  | _ => rfl

theorem line_meets (hn : n.IsWritable) : Meets (LineFlaw selectors n) (line indent selectors n) := by
  by_cases hkind : ∃ m p e, n = .declaration m p e
  · obtain ⟨m, p, e, rfl⟩ := hkind
    by_cases hvalue : ∃ m' v, e = .literal m' v
    · obtain ⟨m', v, rfl⟩ := hvalue
      have hline : ∃ text, line indent selectors (.declaration m p (.literal m' v)) = .ok text :=
        ⟨_, (line_eq_ok_iff hn).mpr ⟨_, .declaration m p m' v, rfl⟩⟩
      obtain ⟨text, hline⟩ := hline
      rw [hline]
      refine .text _ fun q f hq => ?_
      cases hq with
      | kind h => exact h m p _ rfl
      | value h => exact h m' v rfl
    · have hvalue : ∀ m' v, e ≠ .literal m' v := fun m' v h => hvalue ⟨m', v, h⟩
      simp only [line, value_eq_error hvalue]
      refine .single (.value hvalue) fun q f hq => ?_
      cases hq with
      | kind h => exact absurd rfl (h m p e)
      | value h => rfl
  · have hkind : ∀ m p e, n ≠ .declaration m p e := fun m p e h => hkind ⟨m, p, e, h⟩
    rw [line_eq_error hkind]
    refine .single (.kind hkind) fun q f hq => ?_
    cases hq with
    | kind h => rfl
    | value h => exact absurd rfl (hkind _ _ _)

theorem block_meets (hn : n.IsWritable) : Meets (BlockFlaw n) (block indent n) := by
  by_cases hkind : ∃ m ss body, n = .rule m ss body
  · obtain ⟨m, ss, body, rfl⟩ := hkind
    have hlines : Meets (FlawAmong (LineFlaw (Selector.textAll ss)) body)
        (lines indent (Selector.textAll ss) body) := by
      rw [lines_eq_mapM]
      exact (meets_mapM fun c hc => line_meets (hn.child hc)).map String.join
    refine (hlines.map _).of_iff fun q f => ⟨fun hq => ?_, .body⟩
    cases hq with
    | kind h => exact absurd rfl (h m ss body)
    | body h => exact h
  · have hkind : ∀ m ss body, n ≠ .rule m ss body := fun m ss body h => hkind ⟨m, ss, body, h⟩
    rw [block_eq_error hkind]
    refine .single (.kind hkind) fun q f hq => ?_
    cases hq with
    | kind h => rfl
    | body h => exact absurd rfl (hkind _ _ _)

end

end Css

namespace Sheet

/-- What may not remain in a sheet that is written, the fault that it is and its place. -/
inductive Flaw (s : Sheet) : Position → Fault → Prop
  | member {k : Nat} {n : Node} (hn : s.node.at? [k] = some n) (h : ∀ m ss body, n ≠ .rule m ss body) :
      Flaw s [k] (.notRule n)
  | bodyMember {k j : Nat} {m : Mark} {ss : List Selector} {body : List Node} {n : Node}
      (hrule : s.node.at? [k] = some (.rule m ss body)) (hn : s.node.at? [k, j] = some n)
      (h : ∀ m p e, n ≠ .declaration m p e) : Flaw s [k, j] (.notDeclaration (Selector.textAll ss) n)
  | value {k j : Nat} {m m' : Mark} {ss : List Selector} {body : List Node} {p : String} {e : Node}
      (hrule : s.node.at? [k] = some (.rule m ss body))
      (hmember : s.node.at? [k, j] = some (.declaration m' p e)) (h : ∀ m v, e ≠ .literal m v) :
      Flaw s [k, j, 0] (.unevaluated e)

theorem flaw_iff {s : Sheet} {p : Position} {f : Fault} :
    s.Flaw p f ↔ FlawAmong Css.BlockFlaw s.members p f := by
  have hmember : ∀ k, s.node.at? [k] = s.members[k]? := Node.at?_child (Node.at?_nil s.node)
  have hbelow : ∀ {k : Nat} {n : Node}, s.node.at? [k] = some n →
      ∀ j, s.node.at? [k, j] = n.children[j]? := Node.at?_child
  constructor
  · intro h
    cases h with
    | member hn h => exact .node (hmember _ ▸ hn) (.kind h)
    | bodyMember hrule hn h =>
      exact .node (hmember _ ▸ hrule) (.body (.node (hbelow hrule _ ▸ hn) (.kind h)))
    | value hrule hn h =>
      exact .node (hmember _ ▸ hrule) (.body (.node (hbelow hrule _ ▸ hn) (.value h)))
  · intro h
    cases h with
    | node hn h =>
      have hn := (hmember _).trans hn
      cases h with
      | kind h => exact .member hn h
      | body h =>
        cases h with
        | node hj h =>
          have hj := (hbelow hn _).trans hj
          cases h with
          | kind h => exact .bodyMember hn hj h
          | value h => exact .value hn hj h

variable {s : Sheet} {layout : Layout}

theorem Flaw.report {p : Position} {f : Fault} (h : s.Flaw p f) (hs : s.node.IsWritable) :
    ∃ message, f.message? = some message ∧ f.report = ⟨.generation, message⟩ := by
  have hmessage : f.kind = .generation ∧ ∃ message, f.message? = some message := by
    cases h with
    | member hn h =>
      obtain ⟨text, htext⟩ := Option.isSome_iff_exists.mp (Node.describe?_isSome (hs.at? hn))
      exact ⟨rfl, _, congrArg (Option.map _) htext⟩
    | bodyMember hrule hn h => exact ⟨rfl, _, rfl⟩
    | value hrule hn h =>
      obtain ⟨text, htext⟩ := Option.isSome_iff_exists.mp
        (Node.describe?_isSome ((hs.at? hn).child List.mem_cons_self))
      exact ⟨rfl, _, congrArg (Option.map _) htext⟩
  obtain ⟨hkind, message, hmessage⟩ := hmessage
  exact ⟨message, hmessage, by rw [Fault.report, hmessage, hkind]⟩

theorem css_meets (hs : s.node.IsWritable) : Meets s.Flaw (s.css layout) := by
  have hblocks : Meets (FlawAmong Css.BlockFlaw s.members) (Css.blocks layout.indent s.members) := by
    rw [Css.blocks_eq_mapM]
    exact meets_mapM fun n hn => Css.block_meets (hs.child hn)
  exact (hblocks.map _).of_iff fun p f => flaw_iff

theorem css_eq_ok_iff_blocks {text : String} : s.css layout = .ok text ↔
    ∃ blocks, s.members.mapM (Css.block layout.indent) = .ok blocks ∧
      text = layout.separator.intercalate blocks := by
  rw [css, Css.blocks_eq_mapM]
  cases s.members.mapM (Css.block layout.indent) with
  | error f => simp [Except.map]
  | ok blocks => simp [Except.map, eq_comm]

/-- The text of a sheet is the blocks of its rules with the separator between them. -/
theorem css_eq_ok_iff (hs : s.node.IsWritable) {text : String} : s.css layout = .ok text ↔
    ∃ blocks, List.Forall₂ (Css.BlockOf layout.indent.text) s.members blocks ∧
      text = layout.separator.intercalate blocks := by
  have hblocks : ∀ {blocks : List String}, s.members.mapM (Css.block layout.indent) = .ok blocks ↔
      List.Forall₂ (Css.BlockOf layout.indent.text) s.members blocks :=
    mapM_eq_ok_iff fun n hn text => Css.block_eq_ok_iff (hs.child hn)
  simp only [css_eq_ok_iff_blocks, hblocks]

/-- The texts of two sheets that are not empty are joined by the separator. -/
theorem css_append {t : Sheet} {a b : String} (hs : s.members ≠ []) (ht : t.members ≠ [])
    (ha : s.css layout = .ok a) (hb : t.css layout = .ok b) (m : Mark) :
    (Sheet.mk m (s.members ++ t.members)).css layout = .ok (a ++ layout.separator ++ b) := by
  obtain ⟨as, has, rfl⟩ := css_eq_ok_iff_blocks.mp ha
  obtain ⟨bs, hbs, rfl⟩ := css_eq_ok_iff_blocks.mp hb
  have hne : ∀ {ns : List Node} {ts : List String}, ns ≠ [] →
      ns.mapM (Css.block layout.indent) = .ok ts → ts ≠ [] := by
    intro ns ts hns hts
    rw [← List.length_pos_iff, ← ((mapM_eq_ok_iff fun _ _ _ => Iff.rfl).mp hts).length_eq]
    exact List.length_pos_iff.mpr hns
  refine css_eq_ok_iff_blocks.mpr ⟨as ++ bs, ?_, ?_⟩
  · simp only [List.mapM_append, has, hbs]
    rfl
  · rw [String.intercalate_append_of_ne_nil (hne hs has) (hne ht hbs)]

theorem css_ok_iff_isPlain (hs : s.node.IsWritable) : (∃ text, s.css layout = .ok text) ↔ s.IsPlain := by
  constructor
  · intro h n hn
    obtain ⟨text, htext⟩ := h
    obtain ⟨blocks, hblocks, -⟩ := (css_eq_ok_iff hs).mp htext
    obtain ⟨block, hblock⟩ := exists_of_forall₂ hblocks.flip hn
    cases hblock with
    | rule m ss hlines =>
      refine .rule m ss fun d hd => ?_
      obtain ⟨line, hline⟩ := exists_of_forall₂ hlines.flip hd
      cases hline with
      | declaration m p m' v => exact .declaration m p m' v
  · intro h
    refine (css_iff h layout).mpr fun v hv => ?_
    obtain ⟨m, ss, body, m', p, m'', hrule, hmember⟩ := hv
    have hvalue : (Node.literal m'' v).IsWritable :=
      (Node.IsWritable.child (n := .rule m ss body) (hs.child hrule) hmember).child List.mem_cons_self
    exact hvalue _ (Node.mem_walk_iff.mpr (Or.inl rfl)) m'' v rfl

end Sheet

/-- Generation writes exactly the plain sheets, as their blocks with the separator between them, and stops
in any other at the first node that may not remain. -/
theorem css_generates (layout : Layout) (s : Sheet) (hs : s.node.IsWritable) :
    ((∃ text, s.css layout = .ok text) ↔ s.IsPlain) ∧
    (¬ s.IsPlain → ∃ p f message, s.css layout = .error f ∧ FirstFlaw s.Flaw p f ∧
      f.message? = some message ∧ f.report = ⟨.generation, message⟩) ∧
    (∀ text, s.css layout = .ok text ↔ ∃ blocks,
      List.Forall₂ (Css.BlockOf layout.indent.text) s.members blocks ∧
        text = layout.separator.intercalate blocks) ∧
    ∀ (t : Sheet) (m : Mark) (a b : String), s.members ≠ [] → t.members ≠ [] →
      s.css layout = .ok a → t.css layout = .ok b →
      (Sheet.mk m (s.members ++ t.members)).css layout = .ok (a ++ layout.separator ++ b) := by
  refine ⟨Sheet.css_ok_iff_isPlain hs, fun hplain => ?_, fun text => Sheet.css_eq_ok_iff hs,
    fun t m a b hne hne' ha hb => Sheet.css_append hne hne' ha hb m⟩
  cases hcss : s.css layout with
  | ok text => exact absurd ((Sheet.css_ok_iff_isPlain hs).mp ⟨text, hcss⟩) hplain
  | error f =>
    have hmeets : Meets s.Flaw (s.css layout) := Sheet.css_meets hs
    rw [hcss] at hmeets
    cases hmeets with
    | @fault p f hfirst =>
      obtain ⟨message, hmessage, hreport⟩ := hfirst.found.report hs
      exact ⟨p, f, message, rfl, hfirst, hmessage, hreport⟩

/-- An assignment that is left in the second rule, before a reference that is left there too. -/
theorem css_generates_leftover :
    let x : Node := .assignment none "X" (.literal none (.bool true))
    let s : Sheet := ⟨none, [
      .rule none [.tag "p"] [.declaration none "width" (.literal none (.pixel 2))],
      .rule none [.tag "a"] [x, .declaration none "width" (.reference none "X")]]⟩
    s.node.IsWritable ∧ ¬ s.IsPlain ∧ ∃ p, FirstFlaw s.Flaw p (.notDeclaration "a" x) := by
  intro x s
  have hwritable : s.node.IsWritable := by
    intro n hn m v hv hlong
    subst hv
    have hcss : v.css? ≠ none := by
      obtain ⟨-, rfl⟩ | ⟨-, rfl⟩ : m = none ∧ v = .pixel 2 ∨ m = none ∧ v = .bool true := by
        simpa [s, x, Sheet.node, Node.walk_eq, Node.children] using hn
      · decide
      · decide
    exact hcss (Literal.css?_eq_none_iff.mpr hlong)
  obtain ⟨hplain, hstops, -⟩ := css_generates .standard s hwritable
  have hcss : s.css .standard = .error (.notDeclaration "a" x) := by decide +kernel
  have hnot : ¬ s.IsPlain := by
    intro h
    obtain ⟨text, htext⟩ := hplain.mpr h
    cases hcss.symm.trans htext
  obtain ⟨p, f, -, hf, hfirst, -⟩ := hstops hnot
  obtain rfl := Except.error.inj (hcss.symm.trans hf)
  exact ⟨hwritable, hnot, p, hfirst⟩

end StyleLang
