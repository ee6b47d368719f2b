import StyleLang.Proofs.Evaluation.Faithful

/-!
# What flattening changes in place

A body is changed in one way while it is flattened: the declarations that evaluation has come past hold
what their expressions denote. It comes past every selected member, or up to the first that it is stuck at;
then the declarations in front of that member are changed and no others.
-/

namespace StyleLang

namespace Position

/-- Below one of `count` children of `b`, those from number `first` on. -/
def BelowRun (b : Position) (first count : Nat) (q : Position) : Prop :=
  ∃ i < count, b ++ [first + i] <+: q

variable {b q : Position} {first count : Nat}

theorem BelowRun.isPrefix (h : BelowRun b first count q) : b <+: q := by
  obtain ⟨i, -, hi⟩ := h
  exact (List.prefix_append b _).trans hi

theorem not_belowRun_zero : ¬ BelowRun b first 0 q := nofun

theorem belowRun_succ :
    BelowRun b first (count + 1) q ↔ b ++ [first] <+: q ∨ BelowRun b (first + 1) count q := by
  constructor
  · rintro ⟨i, hlt, hi⟩
    cases i with
    | zero => exact Or.inl hi
    | succ i => exact Or.inr ⟨i, by omega, by rwa [Nat.add_right_comm]⟩
  · rintro (h | ⟨i, hlt, hi⟩)
    · exact ⟨0, by omega, h⟩
    · exact ⟨i + 1, by omega, by rwa [Nat.add_right_comm] at hi⟩

/-- What is below a child ends before what is below those after it. -/
theorem BelowRun.endsBefore {p : Position} (h : BelowRun b (first + 1) count q) (hp : b ++ [first] <+: p) :
    EndsBefore p q := by
  obtain ⟨i, -, hi⟩ := h
  exact endsBefore_of_siblings hp hi (by omega)

theorem BelowRun.not_isPrefix {k : Nat} (h : BelowRun b first count q) (hk : first + count ≤ k) :
    ¬ b ++ [k] <+: q := by
  obtain ⟨i, hlt, hi⟩ := h
  intro hkq
  have hsame := List.prefix_of_prefix_length_le hi hkq (by simp)
  have heq := (List.append_singleton_inj.mp (hsame.eq_of_length (by simp))).2
  omega

end Position

open Position

namespace Node

mutual

/-- The node at `p`, where the declarations for which there is a value hold that value. Only what stands in
the blocks of rules and if-clauses is looked at. -/
def refold (values : Position → Option Constant) (p : Position) : Node → Node
  | declaration m x e => declaration m x ((values p).elim e Constant.node)
  | ifClause m c body => ifClause m c (refoldAll values p 1 body)
  | ifElse m c body em ebody =>
    ifElse m c (refoldAll values p 1 body) em (refoldAll values (p ++ [body.length + 1]) 0 ebody)
  | rule m ss body => rule m ss (refoldAll values p 0 body)
  | other => other

/-- The same for the children of the node at `p` from number `first` on. -/
def refoldAll (values : Position → Option Constant) (p : Position) (first : Nat) :
    List Node → List Node
  | [] => []
  | n :: ns => refold values (p ++ [first]) n :: refoldAll values p (first + 1) ns

end

variable {values : Position → Option Constant}

mutual

theorem refold_of_none (n : Node) {p : Position} (h : ∀ q, p <+: q → values q = none) :
    n.refold values p = n := by
  cases n with
  | declaration m x e => rw [refold, h p (List.prefix_refl p)]; rfl
  | ifClause m c body => rw [refold, refoldAll_of_none body fun q hq => h q hq.isPrefix]
  | ifElse m c body em ebody =>
    rw [refold, refoldAll_of_none body fun q hq => h q hq.isPrefix,
      refoldAll_of_none ebody fun q hq => h q ((List.prefix_append p _).trans hq.isPrefix)]
  | rule m ss body => rw [refold, refoldAll_of_none body fun q hq => h q hq.isPrefix]
  | literal | reference | operation | assignment | elseClause | sheet | foreign => rfl

theorem refoldAll_of_none (ns : List Node) {p : Position} {first : Nat}
    (h : ∀ q, BelowRun p first ns.length q → values q = none) : refoldAll values p first ns = ns := by
  cases ns with
  | nil => rfl
  | cons n ns =>
    rw [refoldAll, refold_of_none n fun q hq => h q (belowRun_succ.mpr (Or.inl hq)),
      refoldAll_of_none ns fun q hq => h q (belowRun_succ.mpr (Or.inr hq))]

end

end Node

namespace Evaluation

/-- What is denoted at a position is folded with a chain that agrees with it. -/
theorem fold_of_denotes {root : Node} {p : Position} {values : Values}
    (ha : values.AgreesAt (Denotes root) root p) {e : Node} (he : root.at? p = some e) {c : Constant}
    (hc : Denotes root p c) : fold values e = .ok c := by
  cases e with
  | literal m v =>
    obtain rfl := hc.of_literal he
    rfl
  | reference m x =>
    obtain ⟨q, hq, hd⟩ := hc.of_reference he
    cases hx : values.resolve x with
    | none => exact absurd hq.visible (ha.unbound hx q)
    | some c' =>
      obtain ⟨q', hq', hd'⟩ := ha.bound hx
      obtain rfl := hq.unique hq'
      obtain rfl := hd.unique hd'
      simp only [fold, hx]
  | operation m op l r =>
    obtain ⟨a, b, v, hl, hr, hv, rfl⟩ := hc.of_operation he
    refine fold_operation_ok.mpr ⟨a, b, v, ?_, ?_, combine?_iff.mpr hv, rfl⟩
    · exact fold_of_denotes (ha.child (Node.not_directMember_expression he rfl)) (Node.at?_child he 0) hl
    · exact fold_of_denotes (ha.child (Node.not_directMember_expression he rfl)) (Node.at?_child he 1) hr
  | declaration | assignment | ifClause | ifElse | elseClause | rule | sheet | foreign =>
    cases hc <;> simp_all

/-- Evaluation does not get past the member at the position: it is none that holds just one expression, or
its expression denotes nothing. -/
def StuckAt (root : Node) (p : Position) : Prop :=
  ∃ n, root.at? p = some n ∧ ¬ ∃ e c, n.expressions = [e] ∧ Denotes root (p ++ [0]) c

/-- At the position stands a selected declaration with an expression that denotes the constant. -/
structure Folds (root : Node) (p : Position) (c : Constant) : Prop where
  selected : Selected root p
  declaration : ∃ m x e, root.at? p = some (.declaration m x e)
  denotes : Denotes root (p ++ [0]) c

/-- An evaluation that stopped at `stop`, or at no member, came past the position before. -/
def Passed (stop : Option Position) (p : Position) : Prop := ∀ w ∈ stop, EndsBefore p w

/-- What a run leaves of a part of a tree, the positions of which are those in `among`: the declarations
that it came past hold what they denote, and if it stopped, it was at the first stuck member. -/
structure Left {τ : Type} (root : Node) (among : Position → Prop) (stop : Option Position)
    (refolded : (Position → Option Constant) → τ) (tree : τ) : Prop where
  passed : ∀ q, among q → Selected root q → Passed stop q → ¬ StuckAt root q
  stopped : ∀ w ∈ stop, among w ∧ Selected root w ∧ StuckAt root w
  tree_eq : ∀ values, (∀ q c, among q → (values q = some c ↔ Folds root q c ∧ Passed stop q)) →
    tree = refolded values

/-- A run leaves that, and stopped exactly if it did not end normally. -/
def Leaves {τ β : Type} (root : Node) (among : Position → Prop)
    (refolded : (Position → Option Constant) → τ) (r : Passage Constant τ β) : Prop :=
  ∃ stop, (stop = none ↔ ∃ out, r.result = .ok out) ∧ Left root among stop refolded r.tree

section

variable {root n : Node} {p : Position} {values : Values}

theorem stuckAt_of_fold {e : Node} {f : Fault} (ha : values.AgreesAt (Denotes root) root p)
    (hn : root.at? p = some n) (he : n.expressions = [e]) (hf : fold values e = .error f) :
    StuckAt root p := by
  refine ⟨n, hn, ?_⟩
  rintro ⟨e', c, he', hc⟩
  have hget : n.expressions[0]? = some e := by rw [he]; rfl
  have hat : root.at? (p ++ [0]) = some e := by
    rw [Node.at?_child hn, Node.children_of_expressions hget]
  have hok := fold_of_denotes (ha.child (Node.not_directMember_expression hn hget)) hat hc
  rw [hf] at hok
  cases hok

theorem not_stuckAt_of_fold {e : Node} {c : Constant} (ha : values.AgreesAt (Denotes root) root p)
    (hn : root.at? p = some n) (he : n.expressions = [e]) (hc : fold values e = .ok c) :
    ¬ StuckAt root p := by
  rintro ⟨n', hn', hstuck⟩
  cases hn.symm.trans hn'
  exact hstuck ⟨e, c, he, denotes_expression ha hn (by rw [he]; rfl) hc⟩

theorem Folds.unique {c c' : Constant} (h : Folds root p c) (h' : Folds root p c') : c = c' :=
  h.denotes.unique h'.denotes

theorem passed_none (q : Position) : Passed none q := fun _ hw => nomatch hw

/-- A run that is stuck at a member has changed nothing in it. -/
theorem Left.stuckAt (hp : Selected root p) (hs : StuckAt root p) :
    Left root (p <+: ·) (some p) (fun values => n.refold values p) n where
  passed q hq _ hpassed := absurd hq (hpassed p rfl).not_isPrefix.2
  stopped w hw := by
    obtain rfl := Option.some.inj hw
    exact ⟨List.prefix_refl p, hp, hs⟩
  tree_eq values hvalues := by
    refine (Node.refold_of_none n fun q hq => ?_).symm
    cases hv : values q with
    | none => rfl
    | some c => exact absurd hq (((hvalues q c hq).mp hv).2 p rfl).not_isPrefix.2

/-- What is left of a member is what is left of a part of it, if nothing else below it is selected. -/
theorem Left.lift {σ : Type} {among : Position → Prop} {stop : Option Position}
    {refolded : (Position → Option Constant) → σ} {part : σ} (wrap : σ → Node)
    (h : Left root among stop refolded part) (hn : root.at? p = some n)
    (hdeclaration : ∀ m x e, n ≠ .declaration m x e) (hp : ¬ StuckAt root p)
    (hdown : ∀ q, among q → p <+: q)
    (hcover : ∀ q, Selected root q → p <+: q → q ≠ p → among q)
    (hwrap : ∀ values, (∀ q, p <+: q → ¬ among q → values q = none) →
      n.refold values p = wrap (refolded values)) :
    Left root (p <+: ·) stop (fun values => n.refold values p) (wrap part) where
  passed q hq hsel hpassed := by
    by_cases hqp : q = p
    · exact hqp ▸ hp
    · exact h.passed q (hcover q hsel hq hqp) hsel hpassed
  stopped w hw := by
    obtain ⟨hamong, hrest⟩ := h.stopped w hw
    exact ⟨hdown w hamong, hrest⟩
  tree_eq values hvalues := by
    rw [hwrap values fun q hq hnot => ?_, h.tree_eq values fun q c hq => hvalues q c (hdown q hq)]
    cases hv : values q with
    | none => rfl
    | some c =>
      obtain ⟨⟨hsel, ⟨m, x, e, hq'⟩, -⟩, -⟩ := (hvalues q c hq).mp hv
      by_cases hqp : q = p
      · subst hqp
        exact absurd (Option.some.inj (hn.symm.trans hq')) (hdeclaration m x e)
      · exact absurd (hcover q hsel hq hqp) hnot

/-- Below a member that selects no branch nothing is selected. -/
theorem Selected.eq_of_no_branch {q : Position} (h : Selected root q) (hp : Selected root p)
    (hn : root.at? p = some n) (hpq : p <+: q) (hbranch : ∀ r, ¬ InBranch root p n r)
    (helse : ∀ m body, n ≠ .elseClause m body) : q = p := by
  by_contra hne
  obtain ⟨r, hr, -⟩ := h.exists_inBranch hp hpq (Ne.symm hne) hn helse
  exact hbranch r hr

theorem Selected.inBody {q : Position} (h : Selected root q) (hp : Selected root p)
    (hn : root.at? p = some n) (hc : n.condition?.isSome) {m : Mark}
    (hv : Denotes root (p ++ [0]) ⟨m, .bool true⟩) {first : Nat} {body : List Node}
    (hb : n.block? = some (first, body)) (hpq : p <+: q) (hne : q ≠ p) :
    BelowRun p first body.length q := by
  obtain ⟨r, hr, hrq⟩ := h.exists_inBranch hp hpq (Ne.symm hne) hn (by rintro m' body' rfl; cases hc)
  cases hr with
  | body _ _ hb' hi =>
    cases hb.symm.trans hb'
    exact ⟨_, hi, hrq⟩
  | elseBody hfalse => cases hv.unique hfalse

theorem Selected.inElseBody {q : Position} (h : Selected root q) (hp : Selected root p) {m em : Mark}
    {c : Node} {body ebody : List Node} (hn : root.at? p = some (.ifElse m c body em ebody)) {m' : Mark}
    (hv : Denotes root (p ++ [0]) ⟨m', .bool false⟩) (hpq : p <+: q) (hne : q ≠ p) :
    BelowRun (p ++ [body.length + 1]) 0 ebody.length q := by
  obtain ⟨r, hr, hrq⟩ := h.exists_inBranch hp hpq (Ne.symm hne) hn nofun
  cases hr with
  | body _ htrue => cases hv.unique htrue
  | elseBody _ hi => exact ⟨_, hi, by rwa [Nat.zero_add]⟩

/-- A condition that is no boolean selects no branch. -/
theorem not_inBranch_of_undecided {k : Constant} (hv : Denotes root (p ++ [0]) k)
    (hb : ∀ b, k.value ≠ .bool b) (r : Position) : ¬ InBranch root p n r := by
  intro hr
  cases hr with
  | body _ htrue => exact hb true (congrArg Constant.value (hv.unique htrue))
  | elseBody hfalse => exact hb false (congrArg Constant.value (hv.unique hfalse))

/-- A member that selects no branch and is not stuck stays as it is, unless it is a declaration. -/
theorem Left.whole (hp : Selected root p) (hn : root.at? p = some n)
    (hdeclaration : ∀ m x e, n ≠ .declaration m x e) (helse : ∀ m body, n ≠ .elseClause m body)
    (hs : ¬ StuckAt root p) (hbranch : ∀ r, ¬ InBranch root p n r) :
    Left root (p <+: ·) none (fun values => n.refold values p) n := by
  have hempty : Left root (fun _ => False) none (fun _ => ()) () := ⟨nofun, nofun, fun _ _ => rfl⟩
  refine hempty.lift (fun _ => n) hn hdeclaration hs nofun (fun q hq hpq hne => ?_) fun _ h => ?_
  · exact hne (hq.eq_of_no_branch hp hn hpq hbranch helse)
  · exact Node.refold_of_none n fun q hq => h q hq id

theorem Left.declaration {m : Mark} {x : String} {e : Node} (hp : Selected root p)
    (hn : root.at? p = some (.declaration m x e)) (hs : ¬ StuckAt root p) {c : Constant}
    (hc : Denotes root (p ++ [0]) c) :
    Left root (p <+: ·) none (fun values => Node.refold values p (.declaration m x e))
      (.declaration m x c.node) where
  passed q hq hsel _ := by
    rw [hsel.eq_of_no_branch hp hn hq (not_inBranch_of_condition rfl) nofun]
    exact hs
  stopped w hw := nomatch hw
  tree_eq values hvalues := by
    have hv : values p = some c :=
      (hvalues p c (List.prefix_refl p)).mpr ⟨⟨hp, ⟨m, x, e, hn⟩, hc⟩, passed_none p⟩
    simp only [Node.refold, hv, Option.elim]

end

section

variable {root n : Node} {ns : List Node} {b : Position} {first : Nat} {stop : Option Position}

/-- A run that stopped in the first of some members leaves the others as they are. -/
theorem Left.first_stopped {w : Position} {n' : Node}
    (h : Left root (b ++ [first] <+: ·) (some w) (fun values => n.refold values (b ++ [first])) n') :
    Left root (BelowRun b first (n :: ns).length) (some w)
      (fun values => Node.refoldAll values b first (n :: ns)) (n' :: ns) := by
  obtain ⟨hw, hsel, hstuck⟩ := h.stopped w rfl
  -- what stands below the others is not passed, because it stands behind `w`
  have hbehind : ∀ q, BelowRun b (first + 1) ns.length q → ¬ Passed (some w) q := fun q hq hpassed =>
    (hpassed w rfl).asymm (hq.endsBefore hw)
  refine ⟨fun q hq hq' hpassed => ?_, fun w' hw' => ?_, fun values hvalues => ?_⟩
  · rcases belowRun_succ.mp hq with hq | hq
    · exact h.passed q hq hq' hpassed
    · exact absurd hpassed (hbehind q hq)
  · obtain rfl := Option.some.inj hw'
    exact ⟨belowRun_succ.mpr (Or.inl hw), hsel, hstuck⟩
  · rw [Node.refoldAll, Node.refoldAll_of_none ns fun q hq => ?_,
      h.tree_eq values fun q c hq => hvalues q c (belowRun_succ.mpr (Or.inl hq))]
    cases hv : values q with
    | none => rfl
    | some c => exact absurd ((hvalues q c (belowRun_succ.mpr (Or.inr hq))).mp hv).2 (hbehind q hq)

/-- A run that came past the first of some members leaves of them what it leaves of that one and of the
others. -/
theorem Left.first_passed {n' : Node} {ns' : List Node}
    (h : Left root (b ++ [first] <+: ·) none (fun values => n.refold values (b ++ [first])) n')
    (hs : Left root (BelowRun b (first + 1) ns.length) stop
      (fun values => Node.refoldAll values b (first + 1) ns) ns') :
    Left root (BelowRun b first (n :: ns).length) stop
      (fun values => Node.refoldAll values b first (n :: ns)) (n' :: ns') := by
  have hfront : ∀ q, b ++ [first] <+: q → Passed stop q := fun q hq w hw =>
    (hs.stopped w hw).1.endsBefore hq
  refine ⟨fun q hq hsel hpassed => ?_, fun w hw => ?_, fun values hvalues => ?_⟩
  · rcases belowRun_succ.mp hq with hq | hq
    · exact h.passed q hq hsel (passed_none q)
    · exact hs.passed q hq hsel hpassed
  · obtain ⟨hbelow, hrest⟩ := hs.stopped w hw
    exact ⟨belowRun_succ.mpr (Or.inr hbelow), hrest⟩
  · rw [Node.refoldAll, h.tree_eq values fun q c hq => ?_,
      hs.tree_eq values fun q c hq => hvalues q c (belowRun_succ.mpr (Or.inr hq))]
    rw [hvalues q c (belowRun_succ.mpr (Or.inl hq)), and_iff_left (hfront q hq),
      and_iff_left (passed_none q)]

end

/-- The nodes are selected members of the block that the node at `b` opens, from child number `first` on, and
the chain agrees with the place of the first of them. -/
structure InRow (root : Node) (b : Position) (first : Nat) (values : Values) (ns : List Node) : Prop where
  placed : ∀ i n, ns[i]? = some n → root.at? (b ++ [first + i]) = some n ∧
    Selected root (b ++ [first + i]) ∧ root.DirectMember b (first + i)
  agrees : ns ≠ [] → values.AgreesAt (Denotes root) root (b ++ [first])

namespace InRow

variable {root n : Node} {ns : List Node} {b : Position} {first : Nat} {values : Values}

theorem head (h : InRow root b first values (n :: ns)) :
    root.at? (b ++ [first]) = some n ∧ Selected root (b ++ [first]) ∧
      values.AgreesAt (Denotes root) root (b ++ [first]) := by
  obtain ⟨hat, hsel, -⟩ := h.placed 0 n rfl
  exact ⟨hat, hsel, h.agrees (by simp)⟩

theorem tail (h : InRow root b first values (n :: ns)) {out : List Node}
    (hok : (flattenMember values n).result = .ok out) :
    InRow root b (first + 1) (flattenMember values n).chain ns where
  placed i m hm := by
    rw [Nat.add_right_comm]
    exact h.placed (i + 1) m hm
  agrees hns := by
    obtain ⟨m, ms, rfl⟩ := List.exists_cons_of_ne_nil hns
    obtain ⟨hat, -, hdirect⟩ := h.placed 0 n rfl
    exact (memberRun_of_ok hok).agreesAt_next h.head.2.2 hat hdirect (h.placed 1 m rfl).2.2

/-- All members of a block that is entered, if they are selected. -/
theorem block (hn : root.at? b = some n) (hb : n.block? = some (first, ns))
    (hselected : ∀ i < ns.length, Selected root (b ++ [first + i]))
    (ha : values.AgreesAt (Denotes root) root b) : InRow root b first values.enter ns where
  placed i m hm := by
    have hi := (List.getElem?_eq_some_iff.mp hm).1
    exact ⟨by rw [Node.at?_child hn, Node.block?_children hb hi, hm], hselected i hi,
      directMember_of_lt hn hb hi⟩
  agrees _ := ha.first hn hb

/-- The branch of an if-clause with a condition that is true. -/
theorem body {m : Mark} (hn : root.at? b = some n) (hb : n.block? = some (first, ns)) (hp : Selected root b)
    (hc : n.condition?.isSome) (hv : Denotes root (b ++ [0]) ⟨m, .bool true⟩)
    (ha : values.AgreesAt (Denotes root) root b) : InRow root b first values.enter ns :=
  block hn hb (fun _ hi => .branchMember hp hn (.body hc hv hb hi)) ha

/-- The branch of an if-clause with a condition that is false. -/
theorem elseBody {m em m' : Mark} {c : Node} {body ebody : List Node}
    (hn : root.at? b = some (.ifElse m c body em ebody)) (hp : Selected root b)
    (hv : Denotes root (b ++ [0]) ⟨m', .bool false⟩) (ha : values.AgreesAt (Denotes root) root b) :
    InRow root (b ++ [body.length + 1]) 0 values.enter ebody :=
  block (Node.at?_elseClause hn) rfl
    (fun _ hi => by rw [Nat.zero_add]; exact .branchMember hp hn (.elseBody hv hi))
    (ha.child (Node.not_directMember_elseClause hn))

/-- The body of a rule. -/
theorem rule {k : Nat} {m : Mark} {ss : List Selector} {body : List Node}
    (hn : root.at? [k] = some (.rule m ss body)) (ha : values.AgreesAt (Denotes root) root [k]) :
    InRow root [k] 0 values.enter body :=
  block hn rfl (fun _ hi => by rw [Nat.zero_add]; exact .ruleMember hn hi) ha

end InRow

/-- Flattening a selected member leaves what it came past with the values denoted there. -/
def MemberLeaves (root n : Node) : Prop :=
  ∀ p values, root.at? p = some n → Selected root p → values.AgreesAt (Denotes root) root p →
    values.scopes ≠ [] → Leaves root (p <+: ·) (fun given => n.refold given p) (flattenMember values n)

/-- The same of members of a block that stand next to each other. -/
def MembersLeave (root : Node) (ns : List Node) : Prop :=
  ∀ b first values, InRow root b first values ns → values.scopes ≠ [] →
    Leaves root (BelowRun b first ns.length) (fun given => Node.refoldAll given b first ns)
      (flatten values ns)

theorem membersLeave_cons {root n : Node} {ns : List Node} (hn : MemberLeaves root n)
    (hns : MembersLeave root ns) : MembersLeave root (n :: ns) := by
  intro b first values hrow hne
  obtain ⟨hat, hsel, ha⟩ := hrow.head
  obtain ⟨stop, hstop, hleft⟩ := hn (b ++ [first]) values hat hsel ha hne
  cases stop with
  | some w =>
    cases hr : (flattenMember values n).result with
    | ok out => exact absurd (hstop.mpr ⟨out, hr⟩) (by simp)
    | error f =>
      rw [flatten, Passage.andThen_of_error hr]
      exact ⟨some w, by simp, hleft.first_stopped⟩
  | none =>
    obtain ⟨here, hr⟩ := hstop.mp rfl
    obtain ⟨stop, hstop, hrest⟩ := hns b (first + 1) _ (hrow.tail hr)
      ((flattenMember_sameBelow values n).ne_nil hne)
    rw [flatten, Passage.andThen_of_ok hr]
    refine ⟨stop, hstop.trans ?_, hleft.first_passed hrest⟩
    simp only [Passage.mapResult]
    cases (flatten (flattenMember values n).chain ns).result <;> simp [Except.map]

/-- A member that is stuck is a fault and stays as it is. -/
theorem leaves_of_stuckAt {root n : Node} {p : Position} {f : Fault} {r : Passage Constant Node (List Node)}
    (hp : Selected root p) (hs : StuckAt root p) (hr : r.result = .error f) (htree : r.tree = n) :
    Leaves root (p <+: ·) (fun given => n.refold given p) r := by
  rw [Leaves, htree, hr]
  exact ⟨some p, by simp, .stuckAt hp hs⟩

mutual

theorem memberLeaves (root n : Node) : MemberLeaves root n := by
  intro p values hn hp ha hne
  cases n with
  | literal | reference | operation | elseClause | rule | sheet | foreign =>
    refine leaves_of_stuckAt hp ⟨_, hn, ?_⟩ rfl rfl
    rintro ⟨e, c, he, -⟩
    cases he
  | declaration m x e =>
    simp only [flattenMember]
    cases hc : fold values e with
    | error f => exact leaves_of_stuckAt hp (stuckAt_of_fold ha hn rfl hc) rfl rfl
    | ok c =>
      exact ⟨none, by simp [Passage.done], .declaration hp hn (not_stuckAt_of_fold ha hn rfl hc)
        (denotes_expression ha hn (k := 0) rfl hc)⟩
  | assignment m x e =>
    simp only [flattenMember, bindValue]
    cases hc : fold values e with
    | error f => exact leaves_of_stuckAt hp (stuckAt_of_fold ha hn rfl hc) rfl rfl
    | ok c =>
      obtain ⟨values', hb⟩ := Chain.bind_ok hne x c
      simp only [Passage.chain_bind hb, Passage.mapResult, Except.map]
      exact ⟨none, by simp, .whole hp hn nofun nofun (not_stuckAt_of_fold ha hn rfl hc)
        (not_inBranch_of_condition rfl)⟩
  | ifClause m c body =>
    simp only [flattenMember, inScope_flatten]
    cases hc : fold values c with
    | error f => exact leaves_of_stuckAt hp (stuckAt_of_fold ha hn rfl hc) rfl rfl
    | ok k =>
      have hs := not_stuckAt_of_fold ha hn rfl hc
      have hv := denotes_condition ha hn rfl hc
      obtain ⟨m', v⟩ := k
      cases v with
      | bool b =>
        cases b with
        | true =>
          obtain ⟨stop, hstop, hleft⟩ := membersLeave root body p 1 _ (.body hn rfl hp rfl hv ha)
            values.enter_ne_nil
          exact ⟨stop, hstop, hleft.lift (.ifClause m c) hn nofun hs (fun q hq => hq.isPrefix)
            (fun q hq hpq hne => hq.inBody hp hn rfl hv rfl hpq hne) fun given _ => rfl⟩
        | false =>
          dsimp only
          rw [Passage.inScope_eq (.refl values.enter)]
          refine ⟨none, by simp [Passage.done], .whole hp hn nofun nofun hs fun r hr => ?_⟩
          cases hr with
          | body _ htrue => cases hv.unique htrue
      | pixel | percentage | scalar | color =>
        exact ⟨none, by simp [Passage.done],
          .whole hp hn nofun nofun hs (not_inBranch_of_undecided hv nofun)⟩
  | ifElse m c body em ebody =>
    simp only [flattenMember, inScope_flatten]
    cases hc : fold values c with
    | error f => exact leaves_of_stuckAt hp (stuckAt_of_fold ha hn rfl hc) rfl rfl
    | ok k =>
      have hs := not_stuckAt_of_fold ha hn rfl hc
      have hv := denotes_condition ha hn rfl hc
      obtain ⟨m', v⟩ := k
      cases v with
      | bool b =>
        cases b with
        | true =>
          obtain ⟨stop, hstop, hleft⟩ := membersLeave root body p 1 _ (.body hn rfl hp rfl hv ha)
            values.enter_ne_nil
          refine ⟨stop, hstop, hleft.lift (fun body' => .ifElse m c body' em ebody) hn nofun hs
            (fun q hq => hq.isPrefix) (fun q hq hpq hne => hq.inBody hp hn rfl hv rfl hpq hne)
            fun given hgiven => ?_⟩
          rw [Node.refold, Node.refoldAll_of_none ebody fun q hq => ?_]
          exact hgiven q ((List.prefix_append p _).trans hq.isPrefix) fun hbody =>
            hbody.not_isPrefix (by omega) hq.isPrefix
        | false =>
          obtain ⟨stop, hstop, hleft⟩ := membersLeave root ebody _ 0 _ (.elseBody hn hp hv ha)
            values.enter_ne_nil
          refine ⟨stop, hstop, hleft.lift (fun ebody' => .ifElse m c body em ebody') hn nofun hs
            (fun q hq => (List.prefix_append p _).trans hq.isPrefix)
            (fun q hq hpq hne => hq.inElseBody hp hn hv hpq hne) fun given hgiven => ?_⟩
          rw [Node.refold, Node.refoldAll_of_none body fun q hq => ?_]
          exact hgiven q hq.isPrefix fun hebody => hq.not_isPrefix (by omega) hebody.isPrefix
      | pixel | percentage | scalar | color =>
        exact ⟨none, by simp [Passage.done],
          .whole hp hn nofun nofun hs (not_inBranch_of_undecided hv nofun)⟩

theorem membersLeave (root : Node) (ns : List Node) : MembersLeave root ns := by
  cases ns with
  | nil =>
    intro b first values _ _
    exact ⟨none, by simp [flatten, Passage.done], fun q hq => absurd hq not_belowRun_zero, nofun,
      fun _ _ => rfl⟩
  | cons n ns => exact membersLeave_cons (memberLeaves root n) (membersLeave root ns)

end

end Evaluation

end StyleLang
