import StyleLang.Proofs.Scope.Calls
import StyleLang.Proofs.Tree.Nesting
import StyleLang.Proofs.Typing.Pass

/-!
# The scopes of a check

Wherever a check ends, its scopes are entered and left in nested pairs. If it ends normally it has entered
one scope for each block of the sheet, and has gone as deep as blocks are nested.
-/

namespace StyleLang

namespace Typing

theorem infer_noScope {types : Types} {sel : Option String} {e : Node} {f : Fault}
    (h : (infer types sel e).result = .error f) (cause : ScopeFault) : f ≠ .scope cause := by
  cases e with
  | literal m v => cases h
  | reference m x =>
    simp only [infer] at h
    split at h <;> cases h
  | operation m op l r =>
    simp only [infer] at h
    cases hl : (infer types sel l).result with
    | error f' =>
      simp only [hl] at h
      cases h
      exact infer_noScope hl cause
    | ok s =>
      simp only [hl] at h
      cases hr : (infer types sel r).result with
      | error f' =>
        simp only [hr] at h
        cases h
        exact infer_noScope hr cause
      | ok t => cases s <;> cases t <;> simp only [hr] at h <;> first | cases h | (split at h <;> cases h)
  | declaration | assignment | ifClause | ifElse | elseClause | rule | sheet | foreign =>
    cases h
    simp

variable {types : Types}

theorem checkAssignment_tidy (hc : types.scopes ≠ []) (sel : Option String) (m : Mark) (x : String)
    (e : Node) : Passage.Tidy types (checkAssignment types sel m x e) := by
  simp only [checkAssignment]
  split
  · rename_i f hf
    exact .stop _ _ (infer_noScope hf)
  · exact .bind _ hc x _

mutual

theorem checkMember_tidy (table : PropertyTable) (sel : String) {types : Types} (hc : types.scopes ≠ [])
    (n : Node) : Passage.Tidy types (checkMember table sel types n) := by
  cases n with
  | declaration m p e =>
    simp only [checkMember]
    split
    · rename_i f hf
      exact .stop _ _ (infer_noScope hf)
    · exact .done _ _ ()
  | assignment m x e => exact checkAssignment_tidy hc (some sel) m x e
  | ifClause m c body =>
    simp only [checkMember]
    split
    · rename_i f hf
      exact .stop _ _ (infer_noScope hf)
    · exact (checkBody_scope table sel types body).mapTree _
  | ifElse m c body em ebody =>
    simp only [checkMember]
    split
    · rename_i f hf
      exact .stop _ _ (infer_noScope hf)
    · exact (checkBody_scope table sel types body).andThen fun _ _ => checkBody_scope table sel _ ebody
  | literal | reference | operation | elseClause | rule | sheet | foreign => exact .stop _ _ (by simp)

theorem checkBody_tidy (table : PropertyTable) (sel : String) {types : Types} (hc : types.scopes ≠ [])
    (ns : List Node) : Passage.Tidy types (checkBody table sel types ns) := by
  cases ns with
  | nil => exact .done _ _ ()
  | cons n ns =>
    exact (checkMember_tidy table sel hc n).andThen fun _ _ =>
      checkBody_tidy table sel ((checkMember_sameBelow table sel types n).ne_nil hc) ns

/-- A body in a scope of its own, whatever is around it. -/
theorem checkBody_scope (table : PropertyTable) (sel : String) (types : Types) (ns : List Node) :
    Passage.Tidy types (Passage.inScope types fun opened => checkBody table sel opened ns) :=
  (checkBody_tidy table sel types.enter_ne_nil ns).inScope (checkBody_sameBelow table sel types.enter ns)

end

theorem checkSheetMember_tidy (table : PropertyTable) (hc : types.scopes ≠ []) (n : Node) :
    Passage.Tidy types (checkSheetMember table types n) := by
  cases n with
  | assignment m x e => exact checkAssignment_tidy hc none m x e
  | rule m ss body => exact (checkBody_scope table (Selector.textAll ss) types body).mapTree _
  | literal | reference | operation | declaration | ifClause | ifElse | elseClause | sheet
  | foreign => exact .stop _ _ (by simp)

theorem checkMembers_tidy (table : PropertyTable) (hc : types.scopes ≠ []) (ns : List Node) :
    Passage.Tidy types (checkMembers table types ns) := by
  induction ns generalizing types with
  | nil => exact .done _ _ ()
  | cons n ns ih =>
    exact (checkSheetMember_tidy table hc n).andThen fun _ _ =>
      ih ((checkSheetMember_sameBelow table types n).ne_nil hc)

end Typing

theorem Sheet.check_balanced (table : PropertyTable) (s : Sheet) :
    (s.check table).Balanced .lexical :=
  (Passage.balanced_inScope .lexical (fun types => Typing.checkMembers table types s.members)
    (Typing.checkMembers_tidy table (Chain.enter_ne_nil _) s.members)
    (Typing.checkMembers_sameBelow table _ s.members)).mapTree _

namespace Typing

/-- Calls that enter as many scopes as there are blocks in the nodes, and go as deep as these are nested. -/
structure Opens (ns : List Node) (calls : List (Call (Option ValueType))) : Prop where
  enters : Call.enters calls = Node.countBelow Node.isBlock ns
  maxDepth : ∀ d, Call.maxDepth calls d = d + Node.nestingAll ns

theorem Opens.nil : Opens [] [] := ⟨rfl, fun _ => rfl⟩

theorem Opens.append {ns ms : List Node} {first second : List (Call (Option ValueType))}
    (h : Opens ns first) (h' : Opens ms second) (hnested : Call.Nested first) :
    Opens (ns ++ ms) (first ++ second) := by
  refine ⟨by rw [Call.enters_append, Node.countBelow_append, h.enters, h'.enters], fun d => ?_⟩
  rw [Call.maxDepth_append, hnested.depth_eq, h.maxDepth, h'.maxDepth, Node.nestingAll_append]
  omega

/-- A node with one expression and no block opens nothing. -/
theorem Opens.quiet {n e : Node} (calls : List (Call (Option ValueType))) (hn : n.children = [e])
    (hown : n.isBlock = false) (hnesting : n.nesting = e.nesting) (he : e.isValue = true)
    (hcalls : Call.enters calls = 0) (hdepth : ∀ d, Call.maxDepth calls d = d) : Opens [n] calls where
  enters := by
    rw [Node.countBelow_singleton, hn, hown, Node.countBelow_of_value (fun _ => Node.isBlock_of_value) he,
      hcalls]
    rfl
  maxDepth d := by rw [hdepth, Node.nestingAll_singleton, hnesting, Node.nesting_of_value he]; rfl

/-- What members open, with a block around it. -/
theorem Opens.block {ns : List Node} {calls : List (Call (Option ValueType))} (h : Opens ns calls)
    (hnested : Call.Nested calls) :
    Call.enters (.enter :: (calls ++ [.leave])) = Node.countBelow Node.isBlock ns + 1 ∧
      ∀ d, Call.maxDepth (.enter :: (calls ++ [.leave])) d = d + (Node.nestingAll ns + 1) := by
  refine ⟨by rw [Call.enters_block, h.enters], fun d => ?_⟩
  rw [Call.maxDepth_block hnested, h.maxDepth]
  omega

theorem checkAssignment_opens {types : Types} (hc : types.scopes ≠ []) (sel : Option String) (m : Mark)
    (x : String) {e : Node} (he : e.isValue = true) :
    Opens [.assignment m x e] (checkAssignment types sel m x e).calls := by
  obtain ⟨t, ht⟩ := infer_ok he types sel
  obtain ⟨types', -, heq⟩ := checkAssignment_eq hc ht m x
  rw [heq]
  exact .quiet [.bind x t] rfl rfl rfl he rfl Nat.max_self

mutual

theorem checkMember_opens (table : PropertyTable) (sel : String) {types : Types} (hc : types.scopes ≠ [])
    {n : Node} (hn : n.isBodyMember = true) : Opens [n] (checkMember table sel types n).calls := by
  cases n with
  | declaration m p e =>
    obtain ⟨t, ht⟩ := infer_ok hn types (some sel)
    rw [checkMember_declaration table ht]
    exact .quiet [] rfl rfl rfl hn rfl fun _ => rfl
  | assignment m x e => exact checkAssignment_opens hc (some sel) m x hn
  | ifClause m c body =>
    obtain ⟨hvalue, hbody⟩ := Bool.and_eq_true_iff.mp hn
    obtain ⟨t, ht⟩ := infer_ok hvalue types (some sel)
    obtain ⟨henters, hdepth⟩ := (checkBody_opens table sel types.enter_ne_nil hbody).block
      (checkBody_tidy table sel types.enter_ne_nil body).nested
    rw [checkMember_ifClause table ht]
    refine ⟨henters.trans (Node.blocks_ifClause hvalue m body).symm, fun d => (hdepth d).trans ?_⟩
    rw [Node.nestingAll_singleton, Node.nesting, Node.nesting_of_value hvalue, Nat.zero_max]
  | ifElse m c body em ebody =>
    rw [Node.isBodyMember, Bool.and_eq_true, Bool.and_eq_true] at hn
    obtain ⟨⟨hvalue, hbody⟩, hebody⟩ := hn
    obtain ⟨t, ht⟩ := infer_ok hvalue types (some sel)
    have htidy := checkBody_tidy table sel types.enter_ne_nil body
    obtain ⟨henters, hdepth⟩ := (checkBody_opens table sel types.enter_ne_nil hbody).block htidy.nested
    obtain ⟨henters', hdepth'⟩ := (checkBody_opens table sel types.enter_ne_nil hebody).block
      (checkBody_tidy table sel types.enter_ne_nil ebody).nested
    rw [checkMember_ifElse table ht ((checkBody_ok_iff table sel types.enter_ne_nil body).mpr hbody)]
    refine ⟨?_, fun d => ?_⟩
    · rw [Call.enters_append, henters, henters', Node.blocks_ifElse hvalue]
    · rw [Call.maxDepth_append, hdepth, (htidy.nested.block .nil).depth_eq, hdepth',
        Node.nestingAll_singleton, Node.nesting, Node.nesting_of_value hvalue]
      omega
  | literal | reference | operation | elseClause | rule | sheet | foreign => cases hn

theorem checkBody_opens (table : PropertyTable) (sel : String) {types : Types} (hc : types.scopes ≠ [])
    {ns : List Node} (hns : Node.areBodyMembers ns = true) :
    Opens ns (checkBody table sel types ns).calls := by
  cases ns with
  | nil => exact .nil
  | cons n ns =>
    obtain ⟨hn, hns⟩ := Bool.and_eq_true_iff.mp hns
    rw [checkBody, Passage.andThen_of_ok ((checkMember_ok_iff table sel hc n).mpr hn)]
    exact (checkMember_opens table sel hc hn).append
      (checkBody_opens table sel ((checkMember_sameBelow table sel types n).ne_nil hc) hns)
      (checkMember_tidy table sel hc n).nested

end

theorem checkSheetMember_opens (table : PropertyTable) {types : Types} (hc : types.scopes ≠ []) {n : Node}
    (hn : n.isSheetMember = true) : Opens [n] (checkSheetMember table types n).calls := by
  cases n with
  | assignment m x e => exact checkAssignment_opens hc none m x hn
  | rule m ss body =>
    obtain ⟨henters, hdepth⟩ := (checkBody_opens table (Selector.textAll ss) types.enter_ne_nil hn).block
      (checkBody_tidy table _ types.enter_ne_nil body).nested
    rw [checkSheetMember_rule]
    exact ⟨henters.trans (Node.blocks_rule m ss body).symm, hdepth⟩
  | literal | reference | operation | declaration | ifClause | ifElse | elseClause | sheet
  | foreign => cases hn

theorem checkMembers_opens (table : PropertyTable) {types : Types} (hc : types.scopes ≠ []) {ns : List Node}
    (hns : ns.all Node.isSheetMember = true) : Opens ns (checkMembers table types ns).calls := by
  induction ns generalizing types with
  | nil => exact .nil
  | cons n ns ih =>
    rw [List.all_cons, Bool.and_eq_true] at hns
    rw [checkMembers, Passage.andThen_of_ok ((checkSheetMember_ok_iff table hc n).mpr hns.1)]
    exact (checkSheetMember_opens table hc hns.1).append
      (ih ((checkSheetMember_sameBelow table types n).ne_nil hc) hns.2)
      (checkSheetMember_tidy table hc n).nested

end Typing

/-- A check that ends normally enters one scope for the sheet and one for each rule, if-clause and
else-clause in it, and goes as deep as these are nested. -/
theorem Sheet.check_opens {table : PropertyTable} {s : Sheet} (h : (s.check table).result = .ok ()) :
    Call.enters (s.check table).calls = 1 + s.node.walk.countP Node.isBlock ∧
      Call.maxDepth (s.check table).calls 0 = s.node.nesting := by
  have hwell := (s.check_ok_iff table).mp h
  have hne := Chain.enter_ne_nil (Chain.empty .lexical : Typing.Types)
  obtain ⟨henters, hdepth⟩ := (Typing.checkMembers_opens table hne hwell).block
    (Typing.checkMembers_tidy table hne s.members).nested
  have hcalls : (s.check table).calls = .enter ::
      ((Typing.checkMembers table (Chain.empty .lexical).enter s.members).calls ++ [.leave]) := by
    simp only [Sheet.check, Typing.inScope_checkMembers, Passage.mapTree]
  have hblocks : s.node.walk.countP Node.isBlock = Node.countBelow Node.isBlock s.members := by
    rw [Node.countP_walk, Node.countBelow_singleton]
    exact Nat.zero_add _
  refine ⟨?_, ?_⟩
  · rw [hcalls, henters, hblocks, Nat.add_comm]
  · rw [hcalls, hdepth, Nat.zero_add]
    rfl

end StyleLang
