import Sstoraged.JsonRoundTrip

namespace Sstoraged.JsonText

open StyledWriter

variable {D : Doubles} {v : Value D.Double} {w : StyledWriter} {t : Text}

/-- There is no NUL in what a writer holds. -/
structure Plain (w : StyledWriter) : Prop where
  document : 0 ∉ w.document
  childValues : ∀ line ∈ w.childValues, 0 ∉ line
  indentString : 0 ∉ w.indentString

theorem not_mem_append {s t : Text} (hs : 0 ∉ s) (ht : 0 ∉ t) : 0 ∉ s ++ t := by
  simp [hs, ht]

theorem Plain.add (h : Plain w) (ht : 0 ∉ t) : Plain (w.add t) :=
  ⟨not_mem_append h.document ht, h.childValues, h.indentString⟩

theorem Plain.pushValue (h : Plain w) (ht : 0 ∉ t) : Plain (w.pushValue t) := by
  unfold StyledWriter.pushValue
  split
  · exact ⟨h.document, List.forall_mem_append.mpr ⟨h.childValues, List.forall_mem_singleton.mpr ht⟩,
      h.indentString⟩
  · exact h.add ht

theorem Plain.writeIndent (h : Plain w) : Plain w.writeIndent := by
  unfold StyledWriter.writeIndent
  split
  · exact h.add h.indentString
  · split_ifs
    · exact h
    · exact h.add h.indentString
    · have hline : Plain (w.add (text "\n")) := h.add (by decide)
      exact hline.add hline.indentString

theorem Plain.writeWithIndent (h : Plain w) (ht : 0 ∉ t) : Plain (w.writeWithIndent t) :=
  h.writeIndent.add ht

theorem Plain.indent (h : Plain w) : Plain w.indent :=
  ⟨h.document, h.childValues, not_mem_append h.indentString (by decide)⟩

theorem Plain.unindent (h : Plain w) : Plain w.unindent :=
  ⟨h.document, h.childValues, fun hmem => h.indentString (List.mem_of_mem_take hmem)⟩

section texts

end texts

section values

end values

end Sstoraged.JsonText
