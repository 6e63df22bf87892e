import Primer.Proofs.Input.Pieces

/-!
# Cutting a Line Is the Inverse of Joining It

Every line of input is joined from its pieces, with commas between them and blanks around them,
and cutting it finds the pieces again. The two directions are not alike. A line that was
joined can be cut because the commas and the blanks in it are where they were put. A line that
someone typed in has to be shown to be of this form first: what stands between two commas is some
text with blanks around it, even if there is nothing between them, and even if there is
nothing but blanks.

The blanks around a piece are found by looking from both ends. Between the first look and the
second one the text gets shorter, so a text of blanks alone is counted among the blanks in front.

The one line without pieces is the blank one. It could have been joined from one empty text, which
is why that list cannot be had back.

## Main definitions

* `Input.Field.ofChars`: Some characters as a text with blanks around it.

## Theorems

* `Text.trimmed_trim`: What is left of a text has no blanks at its ends.
* `Input.Field.chars_ofChars`, `Input.Field.plain_ofChars`: The characters are those of the field,
  and the field is plain if there is no comma among them.
* `Input.length_fields`, `Input.comma_notMem_of_mem_fields`: The parts between the commas.
* `Input.line_fields`: A line is joined from its parts.
* `Input.pieces_eq_nil_iff`: Only a blank line has no pieces.
* `Input.pieces_inverse`: Cutting and joining.
-/

namespace Primer

namespace Text

/-- What is left when blanks are dropped does not begin with one. -/
theorem isBlank_of_head?_dropWhile {cs : List Char} {c : Char}
    (h : (cs.dropWhile isBlank).head? = some c) : isBlank c = false := by
  simpa [h] using List.head?_dropWhile_not isBlank cs

/-- The text without blanks at its ends, and the blanks at its end. -/
theorem trim_append_blanks (cs : List Char) :
    trim cs ++ ((cs.dropWhile isBlank).reverse.takeWhile isBlank).reverse
      = cs.dropWhile isBlank := by
  rw [trim, ← List.reverse_append, List.takeWhile_append_dropWhile, List.reverse_reverse]

theorem trimmed_trim (cs : List Char) : Trimmed (trim cs) := by
  constructor
  · rw [Option.all_eq_true]
    intro c hc
    -- The first character is the one at which the blanks in front end.
    have hfront : (cs.dropWhile isBlank).head? = some c := by
      rw [← trim_append_blanks cs, List.head?_append, hc]
      rfl
    rw [isBlank_of_head?_dropWhile hfront]
    rfl
  · rw [Option.all_eq_true]
    intro c hc
    rw [trim, List.getLast?_reverse] at hc
    rw [isBlank_of_head?_dropWhile hc]
    rfl

end Text

namespace Input

namespace Field

instance (f : Field) : Decidable f.Plain :=
  decidable_of_iff (f.before.all Text.isBlank = true ∧ f.after.all Text.isBlank = true ∧
      Text.Trimmed f.text ∧ ',' ∉ f.text)
    ⟨fun h => ⟨List.all_eq_true.mp h.1, List.all_eq_true.mp h.2.1, h.2.2.1, h.2.2.2⟩,
      fun h => ⟨List.all_eq_true.mpr h.before_blank, List.all_eq_true.mpr h.after_blank,
        h.trimmed, h.comma_notMem⟩⟩

/-- Some characters as a text with blanks around it. -/
def ofChars (cs : List Char) : Field where
  before := cs.takeWhile Text.isBlank
  text := Text.trim cs
  after := ((cs.dropWhile Text.isBlank).reverse.takeWhile Text.isBlank).reverse

theorem chars_ofChars (cs : List Char) : (ofChars cs).chars = cs := by
  have hback : (ofChars cs).text ++ (ofChars cs).after = cs.dropWhile Text.isBlank :=
    Text.trim_append_blanks cs
  rw [chars, hback]
  exact List.takeWhile_append_dropWhile

theorem plain_ofChars {cs : List Char} (h : ',' ∉ cs) : (ofChars cs).Plain where
  before_blank _ hc := List.mem_takeWhile_imp hc
  after_blank _ hc := List.mem_takeWhile_imp (List.mem_reverse.mp hc)
  trimmed := Text.trimmed_trim cs
  comma_notMem hmem := by
    -- The text is a part of the characters.
    refine h ?_
    rw [← chars_ofChars cs, chars]
    exact List.mem_append_right _ (List.mem_append_left _ hmem)

end Field

theorem fields_ne_nil (cs : List Char) : fields cs ≠ [] := by
  rw [fields_eq_splitOn]
  exact List.splitOn_ne_nil _ _

/-- There is one part more than there are commas. -/
theorem length_fields (cs : List Char) : (fields cs).length = cs.count ',' + 1 := by
  induction cs with
  | nil => rfl
  | cons c cs ih =>
      rw [fields, List.count_cons]
      by_cases hc : c = ','
      · rw [if_pos hc, List.length_cons, ih, if_pos (beq_iff_eq.mpr hc)]
      · rw [if_neg hc, List.length_modifyHead, ih, if_neg (mt beq_iff_eq.mp hc)]

/-- The parts between the commas have none. -/
theorem comma_notMem_of_mem_fields {cs : List Char} : ∀ f ∈ fields cs, ',' ∉ f := by
  induction cs with
  | nil => exact List.forall_mem_singleton.mpr List.not_mem_nil
  | cons c cs ih =>
      rw [fields]
      by_cases hc : c = ','
      · rw [if_pos hc]
        exact List.forall_mem_cons.mpr ⟨List.not_mem_nil, ih⟩
      · rw [if_neg hc]
        cases hfields : fields cs with
        | nil => exact absurd hfields (fields_ne_nil cs)
        | cons first others =>
            rw [hfields] at ih
            rcases List.forall_mem_cons.mp ih with ⟨hfirst, hothers⟩
            -- The first part gets a character, which is no comma.
            refine List.forall_mem_cons.mpr ⟨?_, hothers⟩
            rw [List.mem_cons, not_or]
            exact ⟨Ne.symm hc, hfirst⟩

/-- A line is joined from its parts, taken as texts with blanks around them. -/
theorem line_fields (cs : List Char) : line ((fields cs).map Field.ofChars) = cs := by
  have hchars : ((fields cs).map Field.ofChars).map Field.chars = fields cs := by
    rw [List.map_map]
    exact List.map_id'' Field.chars_ofChars (fields cs)
  rw [line, hchars, fields_eq_splitOn, List.intercalate_splitOn]

theorem pieces_eq_nil_iff {text : String} :
    pieces text = [] ↔ ∀ c ∈ text.toList, Text.isBlank c = true := by
  rw [← Text.trim_eq_nil_iff, pieces]
  by_cases hblank : Text.trim text.toList = []
  · simp only [hblank, List.isEmpty_nil, if_true]
  · simp only [List.isEmpty_iff, hblank, if_false, iff_false, List.map_eq_nil_iff]
    exact fields_ne_nil text.toList

/-- The pieces of a line that is not blank are the texts of its parts. -/
theorem pieces_eq_map {text : String} (h : pieces text ≠ []) :
    pieces text = ((fields text.toList).map Field.ofChars).map fun f => String.ofList f.text := by
  have hblank : (Text.trim text.toList).isEmpty = false := by
    rw [List.isEmpty_eq_false_iff, ne_eq, Text.trim_eq_nil_iff, ← pieces_eq_nil_iff]
    exact h
  rw [List.map_map, pieces]
  simp only [hblank, Bool.false_eq_true, if_false]
  rfl

/-- Cutting a line and joining it are inverse to each other. A line has no pieces just if it is
    blank. Any other line has one piece more than it has commas. Its pieces have no
    commas and no blanks at their ends, and the line is joined from them, with commas between them
    and some blanks around each. Conversely, texts without commas and without blanks at their
    ends, with any blanks around them, are the pieces of the line that is joined from them,
    unless there are none or a single empty one. -/
theorem pieces_inverse (text : String) :
    (pieces text = [] ↔ ∀ c ∈ text.toList, Text.isBlank c = true) ∧
      (pieces text ≠ [] →
        (pieces text).length = text.toList.count ',' + 1 ∧
        (∀ piece ∈ pieces text, ',' ∉ piece.toList ∧ Text.Trimmed piece.toList) ∧
        ∃ fs : List Field, (∀ f ∈ fs, f.Plain) ∧
          pieces text = fs.map (fun f => String.ofList f.text) ∧
          text = String.ofList (line fs)) ∧
      ∀ fs : List Field, fs ≠ [] → (∀ f ∈ fs, f.Plain) → fs.map Field.text ≠ [[]] →
        pieces (String.ofList (line fs)) = fs.map fun f => String.ofList f.text := by
  refine ⟨pieces_eq_nil_iff, fun hne => ?_, fun _ => pieces_line⟩
  have hplain : ∀ f ∈ (fields text.toList).map Field.ofChars, f.Plain := by
    intro f hf
    rcases List.mem_map.mp hf with ⟨cs, hcs, rfl⟩
    exact Field.plain_ofChars (comma_notMem_of_mem_fields cs hcs)
  have hpieces := pieces_eq_map hne
  refine ⟨?_, ?_, _, hplain, hpieces, ?_⟩
  · rw [hpieces, List.length_map, List.length_map, length_fields]
  · rw [hpieces]
    intro piece hpiece
    rcases List.mem_map.mp hpiece with ⟨f, hf, rfl⟩
    rw [String.toList_ofList]
    exact ⟨(hplain f hf).comma_notMem, (hplain f hf).trimmed⟩
  · rw [line_fields, String.ofList_toList]

/-- Four fields, of which two have no text, with blanks of several kinds around them. -/
theorem pieces_inverse_of_four_fields :
    let fs : List Field := [⟨['\t', ' '], ['a'], []⟩, ⟨[], [], []⟩,
      ⟨[' '], ['b', ' ', 'c'], [Char.ofNat 0x3000]⟩, ⟨[], [], ['\n']⟩]
    let text := String.ofList (line fs)
    text = "\t a,, b c\u3000,\n" ∧ (∀ f ∈ fs, f.Plain) ∧
      pieces text = ["a", "", "b c", ""] ∧ (pieces text).length = text.toList.count ',' + 1 := by
  intro fs text
  have hplain : ∀ f ∈ fs, f.Plain := by decide
  have hpieces := (pieces_inverse text).2.2 fs (List.cons_ne_nil _ _) hplain (by decide)
  refine ⟨by decide, hplain, hpieces, ((pieces_inverse text).2.1 ?_).1⟩
  rw [hpieces]
  exact List.cons_ne_nil _ _

end Input

end Primer
