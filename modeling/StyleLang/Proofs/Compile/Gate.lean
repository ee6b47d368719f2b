import StyleLang.Proofs.Evaluation.Arithmetic
import StyleLang.Proofs.Evaluation.Placement
import StyleLang.Proofs.Tree.Rows
import StyleLang.Proofs.Tree.Slots
import StyleLang.Proofs.Typing.Gate

/-!
# What a check lets through

Checking is where misplaced objects are found. Once a check has ended normally no other pass complains
about the kind of an object: neither evaluation, nor a walk, nor an outline, on the sheet that the check
leaves or on what evaluations of it leave. Numbers that are too long to be written are another matter:
the message that names the object cannot be written if it has one.
-/

namespace StyleLang

open Position

namespace Node

section

variable {n c : Node}

theorem IsWritable.at? {p : Position} (h : n.IsWritable) (hc : n.at? p = some c) : c.IsWritable := by
  induction p generalizing n with
  | nil =>
    obtain rfl := Option.some.inj hc
    exact h
  | cons k p ih =>
    obtain ⟨d, hd, hc⟩ := Option.bind_eq_some_iff.mp hc
    exact ih (h.child (List.mem_of_getElem? hd)) hc

theorem describeAll?_isSome (ns : List Node) (h : ∀ n ∈ ns, n.describe?.isSome = true) :
    (describeAll? ns).isSome = true := by
  induction ns with
  | nil => rfl
  | cons n ns ih =>
    obtain ⟨hn, hns⟩ := List.forall_mem_cons.mp h
    obtain ⟨item, hitem⟩ := Option.isSome_iff_exists.mp hn
    obtain ⟨items, hitems⟩ := Option.isSome_iff_exists.mp (ih hns)
    simp [describeAll?, hitem, hitems]

/-- A tree without such a number has a description. -/
theorem describe?_isSome (h : n.IsWritable) : n.describe?.isSome = true := by
  induction n using children_induction with
  | h n ih =>
    have ih : ∀ c ∈ n.children, c.describe?.isSome = true := fun c hc => ih c hc (h.child hc)
    cases n with
    | literal m v =>
      have hv : ¬ v.IsTooLong := h _ (mem_walk_iff.mpr (Or.inl rfl)) m v rfl
      rw [describe?, ← Option.ne_none_iff_isSome, Ne, Literal.describe?_eq_none_iff]
      exact hv
    | reference | foreign => rfl
    | operation m op l r =>
      obtain ⟨left, hl⟩ := Option.isSome_iff_exists.mp (ih l (by simp [children]))
      obtain ⟨right, hr⟩ := Option.isSome_iff_exists.mp (ih r (by simp [children]))
      simp [describe?, hl, hr]
    | declaration m p e | assignment m x e =>
      obtain ⟨value, he⟩ := Option.isSome_iff_exists.mp (ih e (by simp [children]))
      simp [describe?, he]
    | ifClause m c body =>
      obtain ⟨condition, hc⟩ := Option.isSome_iff_exists.mp (ih c (by simp [children]))
      obtain ⟨members, hbody⟩ := Option.isSome_iff_exists.mp
        (describeAll?_isSome body fun d hd => ih d (by simp [children, hd]))
      simp [describe?, hc, hbody]
    | ifElse m c body em ebody =>
      obtain ⟨condition, hc⟩ := Option.isSome_iff_exists.mp (ih c (by simp [children]))
      obtain ⟨members, hbody⟩ := Option.isSome_iff_exists.mp
        (describeAll?_isSome body fun d hd => ih d (by simp [children, hd]))
      have helse := ih (.elseClause em ebody) (by simp [children])
      cases hebody : describeAll? ebody with
      | none => simp [describe?, hebody] at helse
      | some others => simp [describe?, hc, hbody, hebody]
    | elseClause m body | rule m ss body | sheet m body =>
      obtain ⟨members, hbody⟩ := Option.isSome_iff_exists.mp (describeAll?_isSome body ih)
      simp [describe?, hbody]

/-- Nothing foreign is found where nothing is misplaced. -/
theorem ne_foreign_of_mem_walk (h : n.Clean none) (hn : n.isStatement = true ∨ n.isValue = true) :
    ∀ d ∈ n.walk, ∀ text, d ≠ .foreign text := by
  induction n using children_induction with
  | h n ih =>
    intro d hd text
    rcases mem_walk_iff.mp hd with rfl | ⟨c, hc, hd⟩
    · rintro rfl
      rcases hn with hn | hn <;> cases hn
    · rcases child_of_clean h hc with hvalue | hunder
      · exact ih c hc (clean_of_isValue hvalue) (Or.inr hvalue) d hd text
      · obtain ⟨hstatement, hclean⟩ := statement_of_under h hunder
        exact ih c hc hclean (Or.inl hstatement) d hd text

end

end Node

namespace Role

/-- What the message about a misplaced object begins with. -/
def complaint : Role → String
  | sheetMember => "Unexpected stylesheet member: "
  | bodyMember => "Unexpected rule member: "
  | expression => "Unexpected expression: "

theorem report (r : Role) {n : Node} {text : String} (h : n.describe? = some text) :
    (r.fault n).report = ⟨.type, r.complaint ++ text⟩ := by
  cases r <;> simp [fault, Fault.report, Fault.message?, h, complaint, Fault.kind]

end Role

theorem Fault.report_kind {f : Fault} (h : f.kind ≠ .type) : f.report.kind ≠ .type := by
  unfold report
  split
  · exact h
  · exact nofun

namespace Sheet

/-- What evaluations leave of a sheet, any number of them, each on what the one before it left. -/
inductive Leaves (s : Sheet) : Sheet → Prop
  | nothing : Leaves s s
  | evaluate {t : Sheet} (h : Leaves s t) : Leaves s t.evaluate.tree

theorem Leaves.isWellPlaced {s t : Sheet} (h : s.Leaves t) (hs : s.isWellPlaced = true) :
    t.isWellPlaced = true := by
  induction h with
  | nothing => exact hs
  | evaluate _ ih => exact evaluate_isWellPlaced ih

/-- No pass over the sheet complains about the kind of an object. -/
structure Admitted (s : Sheet) : Prop where
  evaluate : ∀ f, s.evaluate.result = .error f → f.report.kind ≠ .type
  walk : ∀ n ∈ s.node.walk, ∀ text, n ≠ .foreign text
  outline : ∀ depth f, s.node.outline depth = .error f → f.report.kind ≠ .type

theorem admitted {s : Sheet} (h : s.isWellPlaced = true) : s.Admitted where
  evaluate f hf := Fault.report_kind (evaluate_kind h hf)
  walk := Node.ne_foreign_of_mem_walk (clean_iff.mpr h) (Or.inl rfl)
  outline depth f hf := by
    obtain ⟨rfl, -⟩ := outline_error h hf
    exact Fault.report_kind nofun

/-- The check stops at the first misplaced object, names it, and leaves it and all that comes after it as
it was. -/
def StopsAtFirst (s : Sheet) (table : PropertyTable) (f : Fault) : Prop :=
  ∃ p r n text, s.node.FirstMisplaced none p r n ∧ n.describe? = some text ∧
    f.report = ⟨.type, r.complaint ++ text⟩ ∧
    ∀ q, ¬ Precedes q p → (s.check table).tree.node.at? q = s.node.at? q

end Sheet

/-- A check fails exactly on the sheets in which something is misplaced, and what it lets through no other
pass refuses for its kind. -/
theorem check_gate (table : PropertyTable) (s : Sheet) (hs : s.node.IsWritable) :
    ((∃ f, (s.check table).result = .error f ∧ f.report.kind = .type) ↔
      ∃ p r n, s.node.Misplaced none p r n) ∧
    (∀ f, (s.check table).result = .error f → s.StopsAtFirst table f) ∧
    ((s.check table).result = .ok () → ∀ t, (s.check table).tree.Leaves t → t.Admitted) := by
  have hstops : ∀ f, (s.check table).result = .error f → s.StopsAtFirst table f := by
    intro f hf
    obtain ⟨p, r, n, hfirst, rfl, hkept⟩ := Sheet.check_stopped hf
    obtain ⟨text, htext⟩ := Option.isSome_iff_exists.mp
      (Node.describe?_isSome (hs.at? hfirst.misplaced.found))
    exact ⟨p, r, n, text, hfirst, htext, r.report htext, hkept⟩
  refine ⟨⟨?_, ?_⟩, hstops, fun hok t ht => Sheet.admitted (ht.isWellPlaced ?_)⟩
  · rintro ⟨f, hf, -⟩
    obtain ⟨p, r, n, -, hfirst, -⟩ := hstops f hf
    exact ⟨p, r, n, hfirst.misplaced⟩
  · rintro ⟨p, r, n, hn⟩
    cases hr : (s.check table).result with
    | ok u =>
      have hplaced := (Sheet.check_ok_iff table s).mp hr
      exact absurd hn (Sheet.clean_iff.mpr hplaced p r n)
    | error f =>
      obtain ⟨p, r, n, text, -, -, hreport, -⟩ := hstops f hr
      exact ⟨f, rfl, by rw [hreport]⟩
  · exact Sheet.isWellPlaced_of_unmarked_eq (of_decide_eq_true (Sheet.check_same table s)).symm
      ((Sheet.check_ok_iff table s).mp hok)

theorem check_gate_elseClause :
    let s : Sheet := ⟨none, [.rule none [.tag "p"]
      [.ifElse none (.literal none (.bool true))
          [.declaration none "width" (.literal none (.pixel 2))] none [.foreign "note"],
        .declaration none "width" (.reference none "X")]]⟩
    s.node.IsWritable ∧ s.StopsAtFirst .builtin (.bodyMember (.foreign "note")) ∧
      ∃ p r n, s.node.Misplaced none p r n := by
  intro s
  have hwritable : s.node.IsWritable := by
    intro n hn m v hv
    subst hv
    obtain ⟨-, rfl⟩ | ⟨-, rfl⟩ : m = none ∧ v = .bool true ∨ m = none ∧ v = .pixel 2 := by
      simpa [s, Sheet.node, Node.walk_eq, Node.children] using hn
    · rintro ⟨n, hn, -⟩
      cases hn
    · rintro ⟨n, hn, hlong⟩
      obtain rfl := Option.some.inj hn
      exact absurd hlong (by decide)
  have hresult : (s.check .builtin).result = .error (.bodyMember (.foreign "note")) := by decide +kernel
  obtain ⟨hfails, hstops, -⟩ := check_gate .builtin s hwritable
  exact ⟨hwritable, hstops _ hresult, hfails.mp ⟨_, hresult, rfl⟩⟩

end StyleLang
