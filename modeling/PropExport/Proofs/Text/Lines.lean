import PropExport.Text.Layout

/-!
# Texts as lines

Texts that are written line by line, cut apart again at the line feeds. Each text falls into its own
pieces, whatever stands around it, and it is one piece exactly if there is no line feed in it. So
there is one line too many for each line feed inside the texts, and the texts are found again
exactly if there is none.
-/

namespace PropExport.Text

/-- A text that fits on a line: no line feed is in it. -/
def IsLine (text : String) : Prop :=
  '\n' ∉ text.toList

instance (text : String) : Decidable (IsLine text) :=
  inferInstanceAs (Decidable ('\n' ∉ text.toList))

/-- The pieces of a text between its line feeds. -/
def pieces (text : String) : List String :=
  (text.toList.splitOn '\n').map String.ofList

/-- The pieces of a text between its line feeds, without an empty one at the end. -/
def cut (text : String) : List String :=
  if (pieces text).getLast? = some "" then (pieces text).dropLast else pieces text

/-- Two texts put together are a line exactly if both of them are. -/
theorem isLine_append {s t : String} : IsLine (s ++ t) ↔ IsLine s ∧ IsLine t := by
  rw [IsLine, String.toList_append, List.mem_append, not_or]
  rfl

/-- A row fits on a line exactly if each of its texts does. -/
theorem isLine_separated {separator : String} (hseparator : IsLine separator)
    {texts : List String} : IsLine (separated separator texts) ↔ ∀ t ∈ texts, IsLine t := by
  fun_induction separated separator texts with
  | case1 => simp [IsLine]
  | case2 t => simp
  | case3 t ts _ ih =>
    rw [isLine_append, isLine_append, ih, List.forall_mem_cons]
    simp [hseparator]

private theorem pieces_of_isLine {text : String} (h : IsLine text) : pieces text = [text] := by
  rw [pieces, List.splitOn_eq_singleton h, List.map_singleton, String.ofList_toList]

/-- What stands before a line feed is cut apart by itself. -/
theorem pieces_append_newline (s t : String) : pieces (s ++ "\n" ++ t) = pieces s ++ pieces t := by
  have htext : (s ++ "\n" ++ t).toList = s.toList ++ '\n' :: t.toList := by simp
  rw [pieces, htext, List.splitOn_append_cons_self, List.map_append]
  rfl

private theorem pieces_lines (texts : List String) :
    pieces (lines texts) = texts.flatMap pieces ++ [""] := by
  induction texts with
  | nil => rfl
  | cons t ts ih => rw [lines, pieces_append_newline, ih, List.flatMap_cons, List.append_assoc]

/-- Lines are cut into the pieces of the texts that were written. -/
theorem cut_lines (texts : List String) : cut (lines texts) = texts.flatMap pieces := by
  rw [cut, pieces_lines, List.getLast?_concat, if_pos rfl, List.dropLast_concat]

/-- There is one piece more than there are line feeds. -/
theorem length_pieces (text : String) : (pieces text).length = text.toList.count '\n' + 1 := by
  rw [pieces, List.length_map]
  induction text.toList with
  | nil => rfl
  | cons c cs ih =>
    rw [List.splitOn_cons_eq_if_modifyHead, List.count_cons]
    split
    · rw [List.length_cons, ih]
    · rw [List.length_modifyHead, ih, Nat.add_zero]

/-- Every line feed inside the texts makes one line more. -/
theorem length_cut_lines (texts : List String) :
    (cut (lines texts)).length = texts.length + (texts.flatMap String.toList).count '\n' := by
  rw [cut_lines]
  induction texts with
  | nil => rfl
  | cons t ts ih =>
    rw [List.flatMap_cons, List.length_append, length_pieces, ih, List.flatMap_cons,
      List.count_append, List.length_cons]
    omega

/-- The texts are found again exactly if each of them fits on a line. -/
theorem cut_lines_eq_iff {texts : List String} :
    cut (lines texts) = texts ↔ ∀ t ∈ texts, IsLine t := by
  constructor
  · intro h t ht hfeed
    have hlength := length_cut_lines texts
    have hcount : 0 < (texts.flatMap String.toList).count '\n' :=
      List.count_pos_iff.mpr (List.mem_flatMap.mpr ⟨t, ht, hfeed⟩)
    rw [h] at hlength
    omega
  · intro h
    have hpieces : texts.map pieces = texts.map fun t => [t] :=
      List.map_congr_left fun t ht => pieces_of_isLine (h t ht)
    rw [cut_lines, List.flatMap_def, hpieces, ← List.flatMap_def, List.flatMap_singleton']

end PropExport.Text
