import StyleLang.Proofs.Scope.Alike
import StyleLang.Proofs.Typing.Slots

/-!
# What a property table decides

A check looks at its table for one thing: whether the value of a declaration has the type that the table
requires of its property. Under another table it makes the same calls, with the same types, it ends in the
same way, and no slot but that of a declaration comes out differently.
-/

namespace StyleLang

namespace PropertyTable

theorem lookup_insert (table : PropertyTable) (p : String) (t : Option ValueType) (x : String) :
    (table.insert p t).lookup x = if x = p then some t else table.lookup x := by
  induction table with
  | nil =>
    by_cases hx : x = p
    · simp [insert, hx]
    · simp [insert, List.lookup_cons, hx, beq_false_of_ne hx]
  | cons entry rest ih =>
    obtain ⟨q, u⟩ := entry
    simp only [insert]
    split
    · rename_i hq
      subst hq
      by_cases hx : x = q
      · simp [hx]
      · simp [List.lookup_cons, hx, beq_false_of_ne hx]
    · rename_i hq
      by_cases hx : x = q
      · subst hx
        simp [hq]
      · simp [List.lookup_cons, beq_false_of_ne hx, ih]

/-- Of the given entries the last one for a property decides, also one that requires nothing, and where there
is none the built-in table. -/
theorem required_withOverrides (overrides : PropertyTable) (x : String) :
    (withOverrides overrides).required x = (overrides.reverse.lookup x).getD (builtin.required x) := by
  induction overrides using List.reverseRecOn with
  | nil => rfl
  | append_singleton entries entry ih =>
    obtain ⟨p, t⟩ := entry
    have hinsert : withOverrides (entries ++ [(p, t)]) = (withOverrides entries).insert p t := by
      simp [withOverrides, List.foldl_append]
    rw [hinsert, required, lookup_insert, List.reverse_append]
    by_cases hx : x = p
    · simp [hx]
    · have hentries : ((withOverrides entries).lookup x).join =
          (entries.reverse.lookup x).getD (builtin.required x) := ih
      simpa [hx, List.lookup_cons, beq_false_of_ne hx] using hentries

end PropertyTable

namespace Typing

variable {first second : PropertyTable}

mutual

theorem checkMember_alike (first second : PropertyTable) (sel : String) (types : Types) (n : Node) :
    (checkMember first sel types n).Alike (fun _ _ => True) (checkMember second sel types n) := by
  cases n with
  | declaration m x e =>
    simp only [checkMember]
    split <;> exact ⟨trivial, rfl, rfl, rfl⟩
  | ifClause m c body =>
    simp only [checkMember]
    split
    · exact ⟨trivial, rfl, rfl, rfl⟩
    · exact (checkBlock_alike first second sel types body).mapTree fun _ _ _ => trivial
  | ifElse m c body em ebody =>
    simp only [checkMember]
    split
    · exact ⟨trivial, rfl, rfl, rfl⟩
    · exact (checkBlock_alike first second sel types body).andThen trivial
        (fun _ _ => checkBlock_alike first second sel _ ebody) fun _ _ _ _ _ _ => trivial
  | assignment | literal | reference | operation | elseClause | rule | sheet | foreign =>
    exact ⟨trivial, rfl, rfl, rfl⟩

theorem checkBody_alike (first second : PropertyTable) (sel : String) (types : Types) (ns : List Node) :
    (checkBody first sel types ns).Alike (fun _ _ => True) (checkBody second sel types ns) := by
  cases ns with
  | nil => exact ⟨trivial, rfl, rfl, rfl⟩
  | cons n ns =>
    exact (checkMember_alike first second sel types n).andThen trivial
      (fun _ _ => checkBody_alike first second sel _ ns) fun _ _ _ _ _ _ => trivial

/-- A body or branch in a scope of its own. -/
theorem checkBlock_alike (first second : PropertyTable) (sel : String) (types : Types) (ns : List Node) :
    (Passage.inScope types fun opened => checkBody first sel opened ns).Alike (fun _ _ => True)
      (Passage.inScope types fun opened => checkBody second sel opened ns) := by
  apply Passage.Alike.inScope
  exact checkBody_alike first second sel types.enter ns

end

theorem checkSheetMember_alike (first second : PropertyTable) (types : Types) (n : Node) :
    (checkSheetMember first types n).Alike (fun _ _ => True) (checkSheetMember second types n) := by
  cases n with
  | rule m ss body =>
    exact (checkBlock_alike first second (Selector.textAll ss) types body).mapTree fun _ _ _ => trivial
  | assignment | literal | reference | operation | declaration | ifClause | ifElse | elseClause | sheet
  | foreign => exact ⟨trivial, rfl, rfl, rfl⟩

theorem checkMembers_alike (first second : PropertyTable) (types : Types) (ns : List Node) :
    (checkMembers first types ns).Alike (fun _ _ => True) (checkMembers second types ns) := by
  induction ns generalizing types with
  | nil => exact ⟨trivial, rfl, rfl, rfl⟩
  | cons n ns ih =>
    exact (checkSheetMember_alike first second types n).andThen trivial (fun _ _ => ih _)
      fun _ _ _ _ _ _ => trivial

end Typing

/-- Whatever the tables and wherever a check ends, the calls and the end do not depend on the table. -/
theorem Sheet.check_alike (s : Sheet) (first second : PropertyTable) :
    (s.check first).Alike (fun _ _ => True) (s.check second) := by
  refine Passage.Alike.mapTree (R := fun _ _ => True) ?_ fun _ _ _ => trivial
  apply Passage.Alike.inScope
  exact Typing.checkMembers_alike first second _ s.members

namespace Typing

variable {first second : PropertyTable} {root : Node} {p : Position} {d : Diagnostic}

/-- Only a declaration earns by the table, and only by what it requires of the one property. -/
theorem earns_of_required_eq (h : ∀ m x e, root.at? p = some (.declaration m x e) →
    first.required x = second.required x) (hd : Earns first root p d) : Earns second root p d := by
  cases hd with
  | undefined hn hv => exact .undefined hn hv
  | operands hn hl hr hd => exact .operands hn hl hr hd
  | condition hn hc ht hb => exact .condition hn hc ht hb
  | property hn hr ht hne => exact .property hn ((h _ _ _ hn).symm.trans hr) ht hne

theorem not_earns_of_required {table : PropertyTable} {m : Mark} {x : String} {e : Node}
    (hn : root.at? p = some (.declaration m x e)) (hr : table.required x = none) :
    ¬ Earns table root p d := by
  rw [earns_declaration hn, hr]
  rintro ⟨t, required, -, h, -⟩
  cases h

end Typing

/-- What two tables of required types make of one sheet: the same, but for the slots of declarations of which
they require different types. -/
structure Sheet.CheckedAlike (first second : PropertyTable) (s : Sheet) : Prop where
  ended : (s.check first).result = .ok () ∧ (s.check second).result = .ok ()
  /-- The same names are bound to the same types, in the same scopes. -/
  calls : (s.check first).calls = (s.check second).calls
  same : (s.check first).tree.node.unmarked = (s.check second).tree.node.unmarked
  slots : ∀ p n, s.node.at? p = some n → ∃ n' n'', (s.check first).tree.node.at? p = some n' ∧
    (s.check second).tree.node.at? p = some n'' ∧
      ((∀ m x e, n = .declaration m x e → first.required x = second.required x) → n'.mark = n''.mark)
  /-- A declaration of a property of which nothing is required keeps its slot as it is, also an empty one. -/
  unrequired : ∀ p m x e, s.node.at? p = some (.declaration m x e) →
    (first.required x = none → ∃ n', (s.check first).tree.node.at? p = some n' ∧ n'.mark = m) ∧
      (second.required x = none → ∃ n', (s.check second).tree.node.at? p = some n' ∧ n'.mark = m)

theorem Sheet.mark_of_unrequired {s : Sheet} (hw : s.isWellPlaced = true) {table : PropertyTable}
    {p : Position} {m : Mark} {x : String} {e : Node} (hn : s.node.at? p = some (.declaration m x e))
    (hr : table.required x = none) : ∃ n', (s.check table).tree.node.at? p = some n' ∧ n'.mark = m := by
  obtain ⟨n', d, hn', hmark, hearns⟩ := Typing.check_mark_at table hw hn
  refine ⟨n', hn', ?_⟩
  cases d with
  | none => rw [hmark, Mark.fill_none, Node.mark]
  | some d => exact absurd ((hearns d).mp rfl) (Typing.not_earns_of_required hn hr)

theorem Sheet.checkedAlike {s : Sheet} (hw : s.isWellPlaced = true) (first second : PropertyTable) :
    s.CheckedAlike first second where
  ended := ⟨(s.check_ok_iff first).mpr hw, (s.check_ok_iff second).mpr hw⟩
  calls := (s.check_alike first second).calls.symm
  same := (s.check_unmarked first).trans (s.check_unmarked second).symm
  slots p n hn := by
    obtain ⟨n', d, hn', hd, hearns⟩ := Typing.check_mark_at first hw hn
    obtain ⟨n'', d', hn'', hd', hearns'⟩ := Typing.check_mark_at second hw hn
    refine ⟨n', n'', hn', hn'', fun h => ?_⟩
    have hrequired : ∀ m x e, s.node.at? p = some (.declaration m x e) →
        first.required x = second.required x := fun m x e hat => h m x e (Option.some.inj (hn.symm.trans hat))
    have hsame : d = d' := by
      refine Option.ext fun e => ?_
      rw [hearns, hearns']
      exact ⟨Typing.earns_of_required_eq hrequired,
        Typing.earns_of_required_eq fun m x e hat => (hrequired m x e hat).symm⟩
    rw [hd, hd', hsame]
  unrequired _ _ _ _ hn := ⟨Sheet.mark_of_unrequired hw hn, Sheet.mark_of_unrequired hw hn⟩

end StyleLang
