import StyleLang.Fault
import StyleLang.Proofs.Tree.Placement
import StyleLang.Proofs.Tree.Report

/-!
# Misplaced objects

What may stand at a place depends on the node above it: a sheet asks for assignments and rules, a block
for declarations, assignments and if-clauses, and what holds an expression for an expression. A pass over
a tree that stops at the first object that is misplaced, in document order, leaves that object and all
that comes after it as it was. A tree is well placed if nothing in it is misplaced.
-/

namespace StyleLang

open Position

/-- What is asked of a node at its place. -/
inductive Role where
  | sheetMember
  | bodyMember
  | expression

namespace Role

/-- Whether the node may stand there, whatever is below it. -/
def fits : Role → Node → Bool
  | sheetMember, .assignment _ _ _ => true
  | sheetMember, .rule _ _ _ => true
  | bodyMember, .declaration _ _ _ => true
  | bodyMember, .assignment _ _ _ => true
  | bodyMember, .ifClause _ _ _ => true
  | bodyMember, .ifElse _ _ _ _ _ => true
  | expression, n => n.isExpression
  | _, _ => false

def fault : Role → Node → Fault
  | sheetMember, n => .sheetMember n
  | bodyMember, n => .bodyMember n
  | expression, n => .expression n

end Role

namespace Node

/-- What a node asks of its child with the given number; nothing is asked of an else-clause. -/
def asks : Node → Nat → Option Role
  | sheet _ _, _ => some .sheetMember
  | rule _ _ _, _ => some .bodyMember
  | elseClause _ _, _ => some .bodyMember
  | ifClause _ _ _, k => if k = 0 then some .expression else some .bodyMember
  | ifElse _ _ body _ _, k =>
    if k = 0 then some .expression else if k ≤ body.length then some .bodyMember else none
  | _, _ => some .expression

/-- What is asked of the node at a position, if `role` is asked of the root. -/
def asked (role : Option Role) : Node → Position → Option Role
  | _, [] => role
  | n, k :: p => n.children[k]?.bind fun c => c.asked (n.asks k) p

/-- The node at the position does not fit the role that is asked of it. -/
structure Misplaced (role : Option Role) (root : Node) (p : Position) (r : Role) (n : Node) : Prop where
  asked : root.asked role p = some r
  found : root.at? p = some n
  unfit : r.fits n = false

/-- Nothing is misplaced, if `role` is asked of the root. -/
def Clean (role : Option Role) (root : Node) : Prop := ∀ p r n, ¬ root.Misplaced role p r n

section

variable {root n c : Node} {role : Option Role} {r : Role} {p : Position} {k : Nat}

theorem misplaced_nil : root.Misplaced role [] r n ↔ role = some r ∧ root = n ∧ r.fits n = false := by
  constructor
  · rintro ⟨hasked, hfound, hunfit⟩
    exact ⟨hasked, Option.some.inj hfound, hunfit⟩
  · rintro ⟨hrole, rfl, hunfit⟩
    exact ⟨hrole, rfl, hunfit⟩

theorem misplaced_cons : root.Misplaced role (k :: p) r n ↔
    ∃ c, root.children[k]? = some c ∧ c.Misplaced (root.asks k) p r n := by
  constructor
  · rintro ⟨hasked, hfound, hunfit⟩
    obtain ⟨c, hc, hasked⟩ := Option.bind_eq_some_iff.mp hasked
    rw [at?, hc] at hfound
    exact ⟨c, hc, hasked, hfound, hunfit⟩
  · rintro ⟨c, hc, hasked, hfound, hunfit⟩
    refine ⟨Option.bind_eq_some_iff.mpr ⟨c, hc, hasked⟩, ?_, hunfit⟩
    rw [at?, hc]
    exact hfound

/-- Nothing is misplaced exactly if the root fits and nothing is misplaced below it. -/
theorem clean_iff : root.Clean role ↔ (∀ r, role = some r → r.fits root = true) ∧
    ∀ (k : Nat) (c : Node), root.children[k]? = some c → c.Clean (root.asks k) := by
  constructor
  · intro h
    refine ⟨fun r hr => ?_, fun k c hc p r n hn => h (k :: p) r n (misplaced_cons.mpr ⟨c, hc, hn⟩)⟩
    rw [← Bool.not_eq_false]
    exact fun hunfit => h [] r root (misplaced_nil.mpr ⟨hr, rfl, hunfit⟩)
  · rintro ⟨hfits, hbelow⟩ p r n hn
    cases p with
    | nil =>
      obtain ⟨hr, rfl, hunfit⟩ := misplaced_nil.mp hn
      rw [hfits r hr] at hunfit
      cases hunfit
    | cons k p =>
      obtain ⟨c, hc, hn⟩ := misplaced_cons.mp hn
      exact hbelow k c hc p r n hn

theorem clean_some_iff : root.Clean (some r) ↔ r.fits root = true ∧
    ∀ (k : Nat) (c : Node), root.children[k]? = some c → c.Clean (root.asks k) := by
  rw [clean_iff]
  simp

end

section

variable {m em : Mark} {c : Node} {body ebody : List Node}

theorem asks_body {k : Nat} (h : k < body.length) :
    (ifElse m c body em ebody).asks (k + 1) = some .bodyMember := by
  rw [asks, if_neg (Nat.succ_ne_zero k), if_pos (Nat.succ_le_of_lt h)]

theorem asks_elseClause : (ifElse m c body em ebody).asks (body.length + 1) = none := by
  rw [asks, if_neg (Nat.succ_ne_zero _), if_neg (Nat.not_succ_le_self _)]

end

section

variable {P : Nat → Node → Prop} {c : Node} {ns : List Node}

theorem forall_child_cons : (∀ k d, (c :: ns)[k]? = some d → P k d) ↔
    P 0 c ∧ ∀ k d, ns[k]? = some d → P (k + 1) d := by
  constructor
  · exact fun h => ⟨h 0 c rfl, fun k d hd => h (k + 1) d hd⟩
  · rintro ⟨hc, hns⟩ (_ | k) d hd
    · obtain rfl := Option.some.inj hd
      exact hc
    · exact hns k d hd

theorem forall_child_snoc : (∀ k d, (ns ++ [c])[k]? = some d → P k d) ↔
    (∀ k d, ns[k]? = some d → P k d) ∧ P ns.length c := by
  induction ns generalizing P with
  | nil => simp [forall_child_cons]
  | cons n ns ih =>
    rw [List.cons_append, forall_child_cons, forall_child_cons, ih (P := fun k => P (k + 1)), and_assoc]
    rfl

theorem forall_mem_iff {P : Node → Prop} : (∀ (k : Nat) d, ns[k]? = some d → P d) ↔ ∀ d ∈ ns, P d := by
  simp only [List.mem_iff_getElem?, forall_exists_index]
  exact forall_comm

end

theorem clean_expression_iff (e : Node) : e.Clean (some .expression) ↔ e.isValue = true := by
  rw [clean_some_iff]
  cases e with
  | operation m op l r =>
    simp only [children, forall_child_cons, asks, clean_expression_iff l, clean_expression_iff r]
    simp [Role.fits, isExpression, isValue]
  | literal | reference => simp [Role.fits, isExpression, isValue, children]
  | declaration | assignment | ifClause | ifElse | elseClause | rule | sheet | foreign =>
    simp [Role.fits, isExpression, isValue]

mutual

theorem clean_bodyMember_iff (n : Node) : n.Clean (some .bodyMember) ↔ n.isBodyMember = true := by
  rw [clean_some_iff]
  cases n with
  | declaration m p e | assignment m x e =>
    simp only [children, forall_child_cons, asks, clean_expression_iff e]
    simp [Role.fits, isBodyMember]
  | ifClause m c body =>
    have hbody := clean_body_iff body
    simp only [children, forall_child_cons, asks, if_pos, Nat.succ_ne_zero, if_false,
      clean_expression_iff c, hbody]
    simp [Role.fits, isBodyMember]
  | ifElse m c body em ebody =>
    have hbody := clean_body_iff body
    have hebody := clean_body_iff ebody
    have hmembers : (∀ (k : Nat) (d : Node), body[k]? = some d →
          d.Clean ((ifElse m c body em ebody).asks (k + 1))) ↔
        ∀ (k : Nat) (d : Node), body[k]? = some d → d.Clean (some .bodyMember) := by
      refine forall_congr' fun k => forall_congr' fun d => imp_congr_right fun hd => ?_
      rw [asks_body (List.getElem?_eq_some_iff.mp hd).1]
    have helse : (elseClause em ebody).Clean none ↔ areBodyMembers ebody = true := by
      rw [clean_iff, ← hebody]
      simp [children, asks]
    rw [children, List.cons_append, forall_child_cons, forall_child_snoc, hmembers, hbody,
      asks_elseClause, helse]
    simp [Role.fits, isBodyMember, asks, clean_expression_iff c, and_assoc]
  | literal | reference | operation | elseClause | rule | sheet | foreign =>
    simp [Role.fits, isBodyMember]

theorem clean_body_iff (ns : List Node) :
    (∀ (k : Nat) (d : Node), ns[k]? = some d → d.Clean (some .bodyMember)) ↔
      areBodyMembers ns = true := by
  cases ns with
  | nil => simp [areBodyMembers]
  | cons n ns =>
    rw [forall_child_cons, clean_bodyMember_iff n, clean_body_iff ns]
    simp [areBodyMembers]

end

theorem clean_sheetMember_iff (n : Node) : n.Clean (some .sheetMember) ↔ n.isSheetMember = true := by
  rw [clean_some_iff]
  cases n with
  | assignment m x e =>
    simp only [children, forall_child_cons, asks, clean_expression_iff e]
    simp [Role.fits, isSheetMember]
  | rule m ss body =>
    simp only [children, asks, clean_body_iff]
    simp [Role.fits, isSheetMember]
  | literal | reference | operation | declaration | ifClause | ifElse | elseClause | sheet | foreign =>
    simp [Role.fits, isSheetMember]

end Node

/-- A sheet is well placed exactly if nothing in it is misplaced. -/
theorem Sheet.clean_iff {s : Sheet} : s.node.Clean none ↔ s.isWellPlaced = true := by
  have hmembers : (∀ (k : Nat) (d : Node), s.members[k]? = some d → d.Clean (some .sheetMember)) ↔
      ∀ d ∈ s.members, d.isSheetMember = true := by
    simp only [Node.forall_mem_iff, Node.clean_sheetMember_iff]
  rw [Node.clean_iff, Sheet.isWellPlaced, List.all_eq_true, ← hmembers]
  simp [Sheet.node, Node.children, Node.asks]

namespace Node

/-- The node is misplaced, and everything else that is misplaced comes after it. -/
structure FirstMisplaced (role : Option Role) (root : Node) (p : Position) (r : Role) (n : Node) :
    Prop where
  misplaced : root.Misplaced role p r n
  first : ∀ q r' n', root.Misplaced role q r' n' → q = p ∨ Precedes p q

/-- A pass stopped at the first misplaced node with the fault that names it. That node and everything
after it is as it was. -/
def Stopped (role : Option Role) (before after : Node) (f : Fault) : Prop :=
  ∃ p r n, before.FirstMisplaced role p r n ∧ f = r.fault n ∧
    ∀ q, ¬ Precedes q p → after.at? q = before.at? q

/-- The same of a list of nodes that one role is asked of. -/
def StoppedAmong (r : Role) (before after : List Node) (f : Fault) : Prop :=
  ∃ ns ns' n n' rest, before = ns ++ n :: rest ∧ after = ns' ++ n' :: rest ∧ ns'.length = ns.length ∧
    (∀ d ∈ ns, d.Clean (some r)) ∧ Stopped (some r) n n' f

section

variable {role : Option Role} {r : Role} {n n' c c' : Node} {f : Fault}

theorem stopped_self (h : r.fits n = false) : Stopped (some r) n n (r.fault n) := by
  refine ⟨[], r, n, ⟨misplaced_nil.mpr ⟨rfl, rfl, h⟩, fun q r' n' _ => ?_⟩, rfl, fun q _ => rfl⟩
  cases q with
  | nil => exact Or.inl rfl
  | cons k q => exact Or.inr (precedes_nil k q)

/-- A pass over a node that fits stops in the first child in which something is misplaced. -/
theorem stopped_child (before before' after : List Node) (hfits : ∀ r, role = some r → r.fits n = true)
    (hn : n.children = before ++ c :: after) (hn' : n'.children = before' ++ c' :: after)
    (hlength : before'.length = before.length)
    (hclean : ∀ (k : Nat) (d : Node), before[k]? = some d → d.Clean (n.asks k))
    (h : Stopped (n.asks before.length) c c' f) : Stopped role n n' f := by
  have hc : n.children[before.length]? = some c := by simp [hn]
  have hc' : n'.children[before.length]? = some c' := by simp [hn', ← hlength]
  have hsame : ∀ j, before.length < j → n'.children[j]? = n.children[j]? := by
    intro j hj
    obtain ⟨j, rfl⟩ := Nat.exists_eq_add_of_lt hj
    rw [hn, hn', Nat.add_assoc, List.getElem?_append_right (by omega),
      List.getElem?_append_right (by omega), hlength]
    simp
  obtain ⟨p, r, m, ⟨hm, hfirst⟩, hf, hkept⟩ := h
  refine ⟨before.length :: p, r, m, ⟨misplaced_cons.mpr ⟨c, hc, hm⟩, fun q r' m' hm' => ?_⟩, hf,
    fun q hq => ?_⟩
  · cases q with
    | nil =>
      obtain ⟨hr, rfl, hunfit⟩ := misplaced_nil.mp hm'
      rw [hfits r' hr] at hunfit
      cases hunfit
    | cons j q =>
      obtain ⟨d, hd, hm'⟩ := misplaced_cons.mp hm'
      rcases Nat.lt_trichotomy j before.length with hlt | rfl | hlt
      · rw [hn, List.getElem?_append_left hlt] at hd
        exact absurd hm' (hclean j d hd q r' m')
      · obtain rfl := Option.some.inj (hc.symm.trans hd)
        rcases hfirst q r' m' hm' with rfl | hpq
        · exact Or.inl rfl
        · exact Or.inr (hpq.cons _)
      · exact Or.inr (precedes_siblings hlt p q)
  · cases q with
    | nil => exact absurd (precedes_nil _ p) hq
    | cons j q =>
      rcases Nat.lt_trichotomy j before.length with hlt | rfl | hlt
      · exact absurd (precedes_siblings hlt q p) hq
      · rw [at?, at?, hc, hc']
        exact hkept q fun hqp => hq (hqp.cons _)
      · rw [at?, at?, hsame j hlt]

end

section

variable {role : Option Role} {r : Role} {n n' c c' : Node} {f : Fault} {ns ns' : List Node}

theorem StoppedAmong.head (h : Stopped (some r) c c' f) (ns : List Node) :
    StoppedAmong r (c :: ns) (c' :: ns) f :=
  ⟨[], [], c, c', ns, rfl, rfl, rfl, nofun, h⟩

theorem StoppedAmong.tail (hc : c.Clean (some r)) (h : StoppedAmong r ns ns' f) :
    StoppedAmong r (c :: ns) (c' :: ns') f := by
  obtain ⟨before, before', m, m', rest, rfl, rfl, hlength, hclean, hm⟩ := h
  exact ⟨c :: before, c' :: before', m, m', rest, rfl, rfl, congrArg Nat.succ hlength,
    List.forall_mem_cons.mpr ⟨hc, hclean⟩, hm⟩

/-- A pass over a node that fits stops among children of one role, those before which are clean. -/
theorem StoppedAmong.stopped (h : StoppedAmong r ns ns' f) (first first' last : List Node)
    (hfits : ∀ r, role = some r → r.fits n = true)
    (hn : n.children = first ++ ns ++ last) (hn' : n'.children = first' ++ ns' ++ last)
    (hlength : first'.length = first.length)
    (hclean : ∀ (k : Nat) (d : Node), first[k]? = some d → d.Clean (n.asks k))
    (hasks : ∀ k < ns.length, n.asks (first.length + k) = some r) : Stopped role n n' f := by
  obtain ⟨before, before', m, m', rest, rfl, rfl, hlength', hclean', hm⟩ := h
  have hbefore : ∀ (k : Nat) (d : Node), (first ++ before)[k]? = some d → d.Clean (n.asks k) := by
    intro k d hd
    rcases Nat.lt_or_ge k first.length with hlt | hge
    · rw [List.getElem?_append_left hlt] at hd
      exact hclean k d hd
    · obtain ⟨j, rfl⟩ := Nat.exists_eq_add_of_le hge
      rw [List.getElem?_append_right hge, Nat.add_sub_cancel_left] at hd
      have hj := (List.getElem?_eq_some_iff.mp hd).1
      rw [hasks j (by simp; omega)]
      exact hclean' d (List.mem_of_getElem? hd)
  have hstopped : Stopped (n.asks (first ++ before).length) m m' f := by
    rw [List.length_append, hasks before.length (by simp)]
    exact hm
  exact stopped_child (first ++ before) (first' ++ before') (rest ++ last) hfits (by simp [hn])
    (by simp [hn']) (by simp [hlength, hlength']) hbefore hstopped

/-- The same where all the children have one role. -/
theorem StoppedAmong.stopped_of_children (h : StoppedAmong r ns ns' f)
    (hfits : ∀ r, role = some r → r.fits n = true) (hn : n.children = ns) (hn' : n'.children = ns')
    (hasks : ∀ k, n.asks k = some r) : Stopped role n n' f :=
  h.stopped [] [] [] hfits (by simp [hn]) (by simp [hn']) rfl nofun
    fun k _ => by simpa using hasks k

end

end Node

end StyleLang
