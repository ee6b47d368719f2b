import StyleLang.Proofs.Tree.Misplaced
import StyleLang.Proofs.Typing.Pass

/-!
# Checks that stop

A check that does not end normally stops at the first object, in document order, that is misplaced, and
says which. That object and all that comes after it is as it was. What the slots before it hold does not
matter.
-/

namespace StyleLang

namespace Typing

open Node

section

variable {types : Types} {f : Fault}

theorem infer_stopped {sel : Option String} {e : Node} (h : (infer types sel e).result = .error f) :
    Stopped (some .expression) e (infer types sel e).tree f := by
  cases e with
  | literal m v => cases h
  | reference m x =>
    simp only [infer] at h
    split at h <;> cases h
  | operation m op l r =>
    have hfits : ∀ r', some Role.expression = some r' → r'.fits (.operation m op l r) = true := by
      rintro r' ⟨⟩
      rfl
    cases hl : (infer types sel l).result with
    | error f' =>
      simp only [infer, hl] at h ⊢
      cases h
      exact (StoppedAmong.head (infer_stopped hl) [r]).stopped_of_children hfits rfl rfl fun _ => rfl
    | ok s =>
      have hclean : l.Clean (some .expression) :=
        (clean_expression_iff l).mpr ((infer_ok_iff types sel l).mp ⟨s, hl⟩)
      cases hr : (infer types sel r).result with
      | error f' =>
        simp only [infer, hl, hr] at h ⊢
        cases h
        exact ((StoppedAmong.head (infer_stopped hr) []).tail hclean).stopped_of_children hfits rfl rfl
          fun _ => rfl
      | ok t =>
        rw [infer_operation hl hr] at h
        cases h
  | declaration | assignment | ifClause | ifElse | elseClause | rule | sheet | foreign =>
    cases h
    exact stopped_self rfl

theorem checkAssignment_stopped (hs : types.scopes ≠ []) {sel : Option String} {m : Mark} {x : String}
    {e : Node} {r : Role} (hfits : r.fits (.assignment m x e) = true)
    (h : (checkAssignment types sel m x e).result = .error f) :
    Stopped (some r) (.assignment m x e) (checkAssignment types sel m x e).tree f := by
  cases he : (infer types sel e).result with
  | ok t =>
    obtain ⟨types', -, heq⟩ := checkAssignment_eq hs he m x
    rw [heq] at h
    cases h
  | error f' =>
    simp only [checkAssignment, he, Passage.stop] at h ⊢
    cases h
    exact (StoppedAmong.head (infer_stopped he) []).stopped_of_children (by simpa using hfits) rfl rfl
      fun _ => rfl

theorem clean_of_infer {sel : Option String} {e : Node} {t : Option ValueType}
    (h : (infer types sel e).result = .ok t) : e.Clean (some .expression) :=
  (clean_expression_iff e).mpr ((infer_ok_iff types sel e).mp ⟨t, h⟩)

/-- A condition that stops an if-clause. -/
theorem stopped_condition {n n' c c' : Node} {rest : List Node} (hfits : Role.bodyMember.fits n = true)
    (hn : n.children = c :: rest) (hn' : n'.children = c' :: rest) (hasks : n.asks 0 = some .expression)
    (h : Stopped (some .expression) c c' f) : Stopped (some .bodyMember) n n' f := by
  refine (StoppedAmong.head h []).stopped [] [] rest (by simpa using hfits) hn hn' rfl nofun
    fun k hk => ?_
  obtain rfl : k = 0 := by simpa using hk
  exact hasks

/-- A body that stops an if-clause behind its condition. -/
theorem stopped_body {n n' c c' : Node} {body body' last : List Node}
    (hfits : Role.bodyMember.fits n = true) (hn : n.children = c :: body ++ last)
    (hn' : n'.children = c' :: body' ++ last) (hcondition : n.asks 0 = some .expression)
    (hasks : ∀ k < body.length, n.asks (k + 1) = some .bodyMember)
    (hc : c.Clean (some .expression)) (h : StoppedAmong .bodyMember body body' f) :
    Stopped (some .bodyMember) n n' f := by
  refine h.stopped [c] [c'] last (by simpa using hfits) hn hn' rfl ?_ fun k hk => ?_
  · intro k d hd
    obtain ⟨rfl, rfl⟩ : k = 0 ∧ c = d := by
      cases k <;> simp_all
    rw [hcondition]
    exact hc
  · rw [List.length_singleton, Nat.add_comm]
    exact hasks k hk

end

mutual

theorem checkMember_stopped (table : PropertyTable) (sel : String) {types : Types}
    (hs : types.scopes ≠ []) {f : Fault} (n : Node)
    (h : (checkMember table sel types n).result = .error f) :
    Stopped (some .bodyMember) n (checkMember table sel types n).tree f := by
  cases n with
  | declaration m p e =>
    cases he : (infer types (some sel) e).result with
    | ok t =>
      rw [checkMember_declaration table he] at h
      cases h
    | error f' =>
      simp only [checkMember, he, Passage.stop] at h ⊢
      cases h
      exact (StoppedAmong.head (infer_stopped he) []).stopped_of_children (by rintro r ⟨⟩; rfl) rfl rfl
        fun _ => rfl
  | assignment m x e => exact checkAssignment_stopped hs rfl h
  | ifClause m c body =>
    cases hc : (infer types (some sel) c).result with
    | error f' =>
      simp only [checkMember, hc, Passage.stop] at h ⊢
      cases h
      exact stopped_condition rfl rfl rfl rfl (infer_stopped hc)
    | ok t =>
      rw [checkMember_ifClause table hc] at h ⊢
      have hbody := checkBody_stopped table sel types.enter_ne_nil body h
      exact stopped_body rfl (List.append_nil _).symm (List.append_nil _).symm rfl (fun _ _ => rfl)
        (clean_of_infer hc) hbody
  | ifElse m c body em ebody =>
    cases hc : (infer types (some sel) c).result with
    | error f' =>
      simp only [checkMember, hc, Passage.stop] at h ⊢
      cases h
      exact stopped_condition rfl rfl rfl rfl (infer_stopped hc)
    | ok t =>
      cases hb : (checkBody table sel types.enter body).result with
      | error f' =>
        have hbody := checkBody_stopped table sel types.enter_ne_nil body hb
        simp only [checkMember, hc, inScope_checkBody, Passage.andThen, hb] at h ⊢
        cases h
        exact stopped_body rfl rfl rfl rfl (fun _ hk => asks_body hk) (clean_of_infer hc) hbody
      | ok u =>
        rw [checkMember_ifElse table hc hb] at h ⊢
        have helse : Stopped none (.elseClause em ebody)
            (.elseClause em (checkBody table sel types.enter ebody).tree) f :=
          (checkBody_stopped table sel types.enter_ne_nil ebody h).stopped_of_children nofun rfl rfl
            fun _ => rfl
        have hbody := (checkBody_ok_iff table sel types.enter_ne_nil body).mp hb
        refine stopped_child (c :: body) (_ :: _) [] (by rintro r ⟨⟩; rfl) rfl rfl ?_ ?_ ?_
        · simp [checkBody_eq_each, Passage.each_length]
        · refine forall_child_cons.mpr ⟨clean_of_infer hc, fun k d hd => ?_⟩
          rw [asks_body (List.getElem?_eq_some_iff.mp hd).1]
          exact (clean_body_iff body).mpr hbody k d hd
        · rw [List.length_cons, asks_elseClause]
          exact helse
  | literal | reference | operation | elseClause | rule | sheet | foreign =>
    cases h
    exact stopped_self rfl

theorem checkBody_stopped (table : PropertyTable) (sel : String) {types : Types}
    (hs : types.scopes ≠ []) {f : Fault} (ns : List Node)
    (h : (checkBody table sel types ns).result = .error f) :
    StoppedAmong .bodyMember ns (checkBody table sel types ns).tree f := by
  cases ns with
  | nil => cases h
  | cons n ns =>
    cases hn : (checkMember table sel types n).result with
    | error f' =>
      have hstop := checkMember_stopped table sel hs n hn
      simp only [checkBody, Passage.andThen, hn] at h ⊢
      cases h
      exact .head hstop ns
    | ok u =>
      have hclean := (clean_bodyMember_iff n).mpr ((checkMember_ok_iff table sel hs n).mp hn)
      have hchain := (checkMember_sameBelow table sel types n).ne_nil hs
      simp only [checkBody, Passage.andThen, hn] at h ⊢
      exact (checkBody_stopped table sel hchain ns h).tail hclean

end

theorem checkSheetMember_stopped (table : PropertyTable) {types : Types} (hs : types.scopes ≠ [])
    {f : Fault} {n : Node} (h : (checkSheetMember table types n).result = .error f) :
    Stopped (some .sheetMember) n (checkSheetMember table types n).tree f := by
  cases n with
  | assignment m x e => exact checkAssignment_stopped hs rfl h
  | rule m ss body =>
    rw [checkSheetMember_rule] at h ⊢
    exact (checkBody_stopped table _ types.enter_ne_nil body h).stopped_of_children (by rintro r ⟨⟩; rfl)
      rfl rfl fun _ => rfl
  | literal | reference | operation | declaration | ifClause | ifElse | elseClause | sheet | foreign =>
    cases h
    exact stopped_self rfl

theorem checkMembers_stopped (table : PropertyTable) {types : Types} (hs : types.scopes ≠ []) {f : Fault}
    {ns : List Node} (h : (checkMembers table types ns).result = .error f) :
    StoppedAmong .sheetMember ns (checkMembers table types ns).tree f := by
  induction ns generalizing types with
  | nil => cases h
  | cons n ns ih =>
    cases hn : (checkSheetMember table types n).result with
    | error f' =>
      have hstop := checkSheetMember_stopped table hs hn
      simp only [checkMembers, Passage.andThen, hn] at h ⊢
      cases h
      exact .head hstop ns
    | ok u =>
      have hclean := (clean_sheetMember_iff n).mpr ((checkSheetMember_ok_iff table hs n).mp hn)
      have hchain := (checkSheetMember_sameBelow table types n).ne_nil hs
      simp only [checkMembers, Passage.andThen, hn] at h ⊢
      exact (ih hchain h).tail hclean

end Typing

/-- A check that does not end normally stops at the first misplaced object. -/
theorem Sheet.check_stopped {table : PropertyTable} {s : Sheet} {f : Fault}
    (h : (s.check table).result = .error f) : Node.Stopped none s.node (s.check table).tree.node f := by
  rw [Sheet.check_tree]
  simp only [Sheet.check, Typing.inScope_checkMembers, Passage.mapTree] at h
  exact (Typing.checkMembers_stopped table (Chain.enter_ne_nil _) h).stopped_of_children nofun rfl rfl
    fun _ => rfl

end StyleLang
