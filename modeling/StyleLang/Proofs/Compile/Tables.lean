import StyleLang.Proofs.Compile.Repetition
import StyleLang.Proofs.Typing.Tables

/-!
# Compiling with another property table

A property table accepts a sheet or rejects it. It has no part in what an accepted sheet is compiled to.
-/

namespace StyleLang

variable {σ τ : Type}

theorem Sheet.CompilesTo.eq_of_layout {s t t' : Sheet} {css css' : String} {config config' : Config}
    (hlayout : config.layout = config'.layout) (h : s.CompilesTo config css t)
    (h' : s.CompilesTo config' css' t') : css = css' ∧ t = t' := by
  obtain rfl : t = t' := by rw [h.left, h'.left, h.kept, h'.kept]
  have hcss := h.written
  rw [hlayout, h'.written] at hcss
  exact ⟨(Except.ok.inj hcss).symm, rfl⟩

/-- Two tables, each given by entries over the built-in one, treat a sheet alike but for the slots of
declarations of which they require different types; of several entries for a property the last one counts, and
one without a type requires nothing. Where both of them have the sheet compiled, to one layout, the texts are
the same and so is what is left of the sheet. -/
theorem compileSheet_tables (s : Sheet) (hw : s.isWellPlaced = true) (config config' : Config) :
    s.CheckedAlike config.table config'.table ∧
      (∀ x, config.table.required x =
        (config.properties.reverse.lookup x).getD (PropertyTable.builtin.required x)) ∧
      (config.layout = config'.layout →
        ∀ (l : Listener σ) (l' : Listener τ) (heard : σ) (heard' : τ) (css css' : String)
          (left : Desk σ) (left' : Desk τ),
          (Compiler.compileSheet l config).runOn ⟨heard, s⟩ = (.ok css, left) →
            (Compiler.compileSheet l' config').runOn ⟨heard', s⟩ = (.ok css', left') →
              css = css' ∧ left.sheet = left'.sheet) := by
  refine ⟨Sheet.checkedAlike hw _ _, PropertyTable.required_withOverrides config.properties, ?_⟩
  intro hlayout l l' heard heard' css css' left left' h h'
  have hfirst := Compiler.compileSheet_ok h
  have hsecond := Compiler.compileSheet_ok h'
  exact hfirst.eq_of_layout hlayout hsecond

/-- A table that switches the entry for the width off has a number compiled as a width, as one does that
requires a number; with an entry for the height besides, another declaration is rejected, and this one is
not. -/
theorem compileSheet_tables_width :
    let s : Sheet := ⟨none, [.rule none [.tag "p"] [.declaration none "width" (.literal none (.scalar 1)),
      .declaration none "height" (.literal none (.percentage 2))]]⟩
    let off : Config := ⟨.standard, [("width", none)]⟩
    let number : Config := ⟨.standard, [("width", some .scalar)]⟩
    let height : Config := ⟨.standard, [("width", none), ("height", some .pixel)]⟩
    let css := "p \x7b\n  width: 1;\n  height: 2%;\n\x7d\n"
    let ended := fun config : Config => (Compiler.compileSheet .recorder config).runOn ⟨[], s⟩
    s.isWellPlaced = true ∧ (ended off).1 = .ok css ∧ (ended number).1 = .ok css ∧
      (ended off).2.sheet = (ended number).2.sheet ∧
        (s.check height.table).tree.diagnostics.length = 1 ∧
          ∃ n', (s.check height.table).tree.node.at? [0, 0] = some n' ∧ n'.mark = none := by
  intro s off number height css ended
  have hw : s.isWellPlaced = true := rfl
  have hoff : (ended off).1 = .ok css := by decide +kernel
  have hnumber : (ended number).1 = .ok css := by decide +kernel
  have hfound : (s.check height.table).tree.diagnostics.length = 1 := by decide +kernel
  have hleft := ((compileSheet_tables s hw off number).2.2 rfl .recorder .recorder [] [] css css
    (ended off).2 (ended number).2 (Prod.ext hoff rfl) (Prod.ext hnumber rfl)).2
  obtain ⟨halike, hmerged, -⟩ := @compileSheet_tables Unit Unit s hw height off
  have hwidth : height.table.required "width" = none := hmerged "width"
  exact ⟨hw, hoff, hnumber, hleft, hfound, (halike.unrequired [0, 0] _ _ _ rfl).1 hwidth⟩

end StyleLang
