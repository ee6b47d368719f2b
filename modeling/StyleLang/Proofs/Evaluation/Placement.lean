import StyleLang.Proofs.Evaluation.Pass
import StyleLang.Proofs.Tree.Placement

/-!
# Evaluation of well-placed sheets

What evaluation leaves of a well-placed sheet is well placed, whether it ends normally or not, so it can
be evaluated again. If it does not end normally, that is not because of the kind of any object. Neither what
expressions denote nor which branches are selected matters.
-/

namespace StyleLang

namespace Evaluation

open Node

theorem fold_kind {values : Values} {e : Node} (he : e.isValue = true) {f : Fault}
    (h : fold values e = .error f) : f.kind ≠ .type := by
  cases e with
  | literal m v => cases h
  | reference m x =>
    simp only [fold] at h
    split at h <;> cases h
    simp [Fault.kind]
  | operation m op l r =>
    simp only [isValue, Bool.and_eq_true] at he
    cases hl : fold values l with
    | error f' =>
      simp only [fold, hl] at h
      cases h
      exact fold_kind he.1 hl
    | ok a =>
      cases hr : fold values r with
      | error f' =>
        simp only [fold, hl, hr] at h
        cases h
        exact fold_kind he.2 hr
      | ok b =>
        simp only [fold, hl, hr, combine, Constant.node] at h
        split at h <;> cases h
        simp [Fault.kind]
  | declaration | assignment | ifClause | ifElse | elseClause | rule | sheet | foreign => cases he

theorem bindValue_kind {τ : Type} {tree : τ} {values : Values} {x : String} {e : Node}
    (he : e.isValue = true) {f : Fault} (h : (bindValue tree values x e).result = .error f) :
    f.kind ≠ .type := by
  cases hv : fold values e with
  | error f' =>
    simp only [bindValue, hv, Passage.stop] at h
    cases h
    exact fold_kind he hv
  | ok c =>
    simp only [bindValue, hv, Passage.bind] at h
    split at h <;> cases h
    simp [Fault.kind]

/-- A pass over a well-placed part leaves it well placed, comes to well-placed nodes if it ends normally,
and does not stop because of the kind of an object. -/
structure KeepsPlaced {τ : Type} (tree : τ → Bool) (out : Node → Bool)
    (p : Passage Constant τ (List Node)) : Prop where
  tree : tree p.tree = true
  out : ∀ ns, p.result = .ok ns → ∀ n ∈ ns, out n = true
  kind : ∀ f, p.result = .error f → f.kind ≠ .type

section

variable {τ : Type} {tree : τ → Bool} {out : Node → Bool} {t : τ} {values : Values}

theorem KeepsPlaced.stop (ht : tree t = true) {f : Fault} (hf : f.kind ≠ .type) :
    KeepsPlaced tree out (.stop t values f) where
  tree := ht
  out := nofun
  kind g hg := by
    cases hg
    exact hf

theorem KeepsPlaced.done (ht : tree t = true) {ns : List Node} (hns : ∀ n ∈ ns, out n = true) :
    KeepsPlaced tree out (.done t values ns) where
  tree := ht
  out ms hms := by
    cases hms
    exact hns
  kind := nofun

/-- An assignment comes to nothing. -/
theorem KeepsPlaced.bindValue (ht : tree t = true) {x : String} {e : Node} (he : e.isValue = true) :
    KeepsPlaced tree out ((bindValue t values x e).mapResult fun _ => []) where
  tree := by
    show tree (Evaluation.bindValue t values x e).tree = true
    rwa [bindValue_tree]
  out ns hns := by
    obtain ⟨-, -, rfl⟩ := Passage.mapResult_ok.mp hns
    exact nofun
  kind f hf := by
    cases hb : (Evaluation.bindValue t values x e).result with
    | ok u => simp [Passage.mapResult, hb, Except.map] at hf
    | error f' =>
      simp only [Passage.mapResult, hb, Except.map] at hf
      cases hf
      exact bindValue_kind he hb

/-- A block that is flattened in the place of an if-clause. -/
theorem KeepsPlaced.branch {body : List Node} {wrap : List Node → Node}
    (h : KeepsPlaced areBodyMembers isBodyMember (flatten values.enter body))
    (hwrap : ∀ ns, areBodyMembers ns = true → (wrap ns).isBodyMember = true) :
    KeepsPlaced isBodyMember isBodyMember
      ((Passage.inScope values fun opened => flatten opened body).mapTree wrap) := by
  rw [inScope_flatten]
  exact ⟨hwrap _ h.tree, h.out, h.kind⟩

/-- The pass over a node and those over the nodes after it. -/
theorem KeepsPlaced.cons {all : List Node → Bool} {first : Passage Constant Node (List Node)}
    {second : Values → Flattened} {ns : List Node} (hcons : ∀ m ms, all (m :: ms) = (out m && all ms))
    (hns : all ns = true) (h : KeepsPlaced out out first)
    (h' : ∀ values', KeepsPlaced all out (second values')) :
    KeepsPlaced all out
      (.andThen List.cons ns first fun values' here => (second values').mapResult (here ++ ·)) := by
  cases hfirst : first.result with
  | error f =>
    rw [Passage.andThen_of_error hfirst]
    refine ⟨by rw [hcons, h.tree, hns]; rfl, nofun, fun g hg => ?_⟩
    cases hg
    exact h.kind f hfirst
  | ok here =>
    have hrest := h' first.chain
    rw [Passage.andThen_of_ok hfirst]
    refine ⟨?_, fun ms hms => ?_, fun f hf => ?_⟩
    · rw [hcons, h.tree, Bool.true_and]
      exact hrest.tree
    · obtain ⟨others, hothers, rfl⟩ := Passage.mapResult_ok.mp hms
      exact List.forall_mem_append.mpr ⟨h.out here hfirst, hrest.out others hothers⟩
    · cases hsecond : (second first.chain).result with
      | ok others => simp [Passage.mapResult, hsecond, Except.map] at hf
      | error f' =>
        simp only [Passage.mapResult, hsecond, Except.map] at hf
        cases hf
        exact hrest.kind f hsecond

end

mutual

theorem flattenMember_keeps (values : Values) (n : Node) (hn : n.isBodyMember = true) :
    KeepsPlaced isBodyMember isBodyMember (flattenMember values n) := by
  cases n with
  | declaration m p e =>
    simp only [flattenMember]
    split
    · rename_i hf
      exact .stop hn (fold_kind hn hf)
    · exact .done rfl (List.forall_mem_singleton.mpr rfl)
  | assignment m x e => exact .bindValue hn hn
  | ifClause m c body =>
    have hplaced := hn
    simp only [isBodyMember, Bool.and_eq_true] at hn
    obtain ⟨hc, hbody⟩ := hn
    simp only [flattenMember]
    split
    · rename_i hf
      exact .stop hplaced (fold_kind hc hf)
    · refine KeepsPlaced.branch (flatten_keeps values.enter body hbody) fun ns hns => ?_
      simp [isBodyMember, hc, hns]
    · rw [Passage.inScope_eq (.refl values.enter)]
      exact ⟨hplaced, by rintro ns ⟨⟩; exact nofun, nofun⟩
    · exact .done hplaced (List.forall_mem_singleton.mpr hplaced)
  | ifElse m c body em ebody =>
    have hplaced := hn
    simp only [isBodyMember, Bool.and_eq_true] at hn
    obtain ⟨⟨hc, hbody⟩, hebody⟩ := hn
    simp only [flattenMember]
    split
    · rename_i hf
      exact .stop hplaced (fold_kind hc hf)
    · refine KeepsPlaced.branch (flatten_keeps values.enter body hbody) fun ns hns => ?_
      simp [isBodyMember, hc, hns, hebody]
    · refine KeepsPlaced.branch (flatten_keeps values.enter ebody hebody) fun ns hns => ?_
      simp [isBodyMember, hc, hbody, hns]
    · exact .done hplaced (List.forall_mem_singleton.mpr hplaced)
  | literal | reference | operation | elseClause | rule | sheet | foreign => cases hn

theorem flatten_keeps (values : Values) (ns : List Node) (hns : areBodyMembers ns = true) :
    KeepsPlaced areBodyMembers isBodyMember (flatten values ns) := by
  cases ns with
  | nil => exact .done hns nofun
  | cons n ns =>
    rw [areBodyMembers, Bool.and_eq_true] at hns
    exact .cons (fun _ _ => rfl) hns.2 (flattenMember_keeps values n hns.1)
      fun values' => flatten_keeps values' ns hns.2

end

theorem evaluateMember_keeps (values : Values) {n : Node} (hn : n.isSheetMember = true) :
    KeepsPlaced isSheetMember isSheetMember (evaluateMember values n) := by
  cases n with
  | assignment m x e => exact .bindValue hn hn
  | rule m ss body =>
    have hbody := flatten_keeps values.enter body hn
    simp only [evaluateMember, inScope_flatten]
    split
    · rename_i f hf
      refine ⟨hbody.tree, by rintro ns ⟨⟩, fun g hg => ?_⟩
      cases hg
      exact hbody.kind f hf
    · rename_i body' hok
      have hplaced : areBodyMembers body' = true := areBodyMembers_iff.mpr (hbody.out body' hok)
      refine ⟨hplaced, ?_, by rintro f ⟨⟩⟩
      rintro ns ⟨⟩
      exact List.forall_mem_singleton.mpr hplaced
  | literal | reference | operation | declaration | ifClause | ifElse | elseClause | sheet | foreign =>
    cases hn

theorem evaluateMembers_keeps (values : Values) {ns : List Node} (hns : ns.all isSheetMember = true) :
    KeepsPlaced (List.all · isSheetMember) isSheetMember (evaluateMembers values ns) := by
  induction ns generalizing values with
  | nil => exact ⟨hns, by rintro ms ⟨⟩; exact nofun, nofun⟩
  | cons n ns ih =>
    rw [List.all_cons, Bool.and_eq_true] at hns
    exact .cons (fun _ _ => List.all_cons) hns.2 (evaluateMember_keeps values hns.1)
      fun values' => ih values' hns.2

end Evaluation

/-- What evaluation leaves of a well-placed sheet is well placed, however it ends. -/
theorem Sheet.evaluate_isWellPlaced {s : Sheet} (hs : s.isWellPlaced = true) :
    s.evaluate.tree.isWellPlaced = true := by
  have hkeeps := Evaluation.evaluateMembers_keeps (Chain.empty .snapshot).enter hs
  simp only [Sheet.evaluate, Evaluation.inScope_evaluateMembers]
  split
  · exact hkeeps.tree
  · rename_i out hok
    exact List.all_eq_true.mpr (hkeeps.out out hok)

/-- An evaluation of a well-placed sheet does not stop because of the kind of an object. -/
theorem Sheet.evaluate_kind {s : Sheet} (hs : s.isWellPlaced = true) {f : Fault}
    (h : s.evaluate.result = .error f) : f.kind ≠ .type := by
  have hkeeps := Evaluation.evaluateMembers_keeps (Chain.empty .snapshot).enter hs
  simp only [Sheet.evaluate, Evaluation.inScope_evaluateMembers] at h
  split at h
  · rename_i f' hf
    cases h
    exact hkeeps.kind f hf
  · cases h

end StyleLang
