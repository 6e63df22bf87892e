import Primer.Session
import Primer.Value.Input

/-!
# Line Feeds in Texts

Which of the texts that a program handles can have a line feed in them. The text of a number
has none, nor has any word or sign that a diagnostic is put together from. So a diagnostic
has a line feed exactly if the one thing that it quotes has: a name, a value, a character
that was escaped or a piece of input.

A piece of input has none. A line of input is cut off behind its first line feed, so the line
feed can only be the last byte of the line. A line feed is the same byte in a text and in its
encoding, so it is the last character of the text. It then belongs to the last piece and
stands at its end, and the blanks at the ends of a piece are taken off.

## Main definitions

* `OneLine`: A text without a line feed.
* `Cause.quoted`: The text that a diagnostic quotes.
* `Closes`: What can only stand at the end of a list.

## Theorems

* `Value.oneLine_render`: The text of a value that is no text itself.
* `Fault.oneLine_message`: A diagnostic has the line feeds of what it quotes.
* `Session.closes_of_fromUTF8?`: A line feed can only end a line of input.
* `Input.oneLine_of_mem_pieces`: The pieces of a line have no line feed.
-/

namespace Primer

/-- The text has no line feed in it. -/
def OneLine (text : String) : Prop :=
  '\n' ∉ text.toList

section Words

variable {a b : String} {cs : List Char}

@[simp]
theorem oneLine_append : OneLine (a ++ b) ↔ OneLine a ∧ OneLine b := by
  simp only [OneLine, String.toList_append, List.mem_append, not_or]

@[simp]
theorem oneLine_toString : OneLine (toString a) ↔ OneLine a :=
  Iff.rfl

@[simp]
theorem oneLine_ofList : OneLine (String.ofList cs) ↔ '\n' ∉ cs := by
  rw [OneLine, String.toList_ofList]

/-- A text that is written out is given by its characters. -/
theorem oneLine_literal (h : '\n' ∉ cs) : OneLine (String.ofList cs) :=
  oneLine_ofList.mpr h

theorem oneLine_empty : OneLine "" :=
  oneLine_literal List.not_mem_nil

theorem oneLine_of_digits (h : ∀ c ∈ cs, c.isDigit = true) : OneLine (String.ofList cs) :=
  oneLine_literal fun hmem => absurd (h _ hmem) (by decide)

@[simp]
theorem oneLine_natRepr (n : Nat) : OneLine n.repr :=
  oneLine_of_digits fun _ => Nat.isDigit_of_mem_toDigits (by decide) (by decide)

@[simp]
theorem oneLine_intRepr (n : Int) : OneLine n.repr := by
  cases n with
  | ofNat n => exact oneLine_natRepr n
  | negSucc n => exact oneLine_append.mpr ⟨oneLine_literal (by decide), oneLine_natRepr _⟩

@[simp]
theorem DataType.oneLine_name (type : DataType) : OneLine type.name := by
  cases type <;> exact oneLine_literal (by decide)

@[simp]
theorem oneLine_kindName (type : Option DataType) : OneLine (kindName type) := by
  cases type with
  | none => exact oneLine_literal (by decide)
  | some type => exact type.oneLine_name

@[simp]
theorem ArithOp.oneLine_verb (op : ArithOp) : OneLine op.verb := by
  cases op <;> exact oneLine_literal (by decide)

@[simp]
theorem Comparison.oneLine_symbol (op : Comparison) : OneLine op.symbol := by
  cases op <;> exact oneLine_literal (by decide)

@[simp]
theorem Connective.oneLine_symbol (op : Connective) : OneLine op.symbol := by
  cases op <;> exact oneLine_literal (by decide)

@[simp]
theorem Sign.oneLine_symbol (sign : Sign) : OneLine sign.symbol := by
  cases sign <;> exact oneLine_literal (by decide)

@[simp]
theorem Position.oneLine_render (pos : Position) : OneLine pos.render := by
  simp only [render, Nat.toString_eq_repr, oneLine_append, oneLine_toString, oneLine_natRepr,
    true_and, and_true]
  exact oneLine_literal (by decide)

end Words

section Values

/-- All that a decimal is written with are digits and a point. -/
theorem Decimal.oneLine_positional (d : Decimal) {whole : String} (h : OneLine whole) :
    OneLine (d.positional whole) := by
  have hdigits : ∀ c ∈ d.digitChars, c.isDigit = true := fun _ =>
    Nat.isDigit_of_mem_toDigits (by decide) (by decide)
  have hzeros : ∀ n, ∀ c ∈ List.replicate n '0', c.isDigit = true := by
    intro n c hc
    rw [(List.mem_replicate.mp hc).2]
    rfl
  unfold positional
  split
  · exact oneLine_append.mpr
      ⟨oneLine_of_digits (List.forall_mem_append.mpr ⟨hdigits, hzeros _⟩), h⟩
  · split
    · simp only [oneLine_append]
      refine ⟨⟨oneLine_of_digits fun c hc => ?_, oneLine_literal (by decide)⟩,
        oneLine_of_digits fun c hc => ?_⟩
      · exact hdigits c (List.mem_of_mem_take hc)
      · exact hdigits c (List.mem_of_mem_drop hc)
    · exact oneLine_append.mpr ⟨oneLine_literal (by decide),
        oneLine_of_digits (List.forall_mem_append.mpr ⟨hzeros _, hdigits⟩)⟩

theorem Binary32.oneLine_render (x : Binary32) : OneLine x.render := by
  have hsign : ∀ negative, OneLine (signText negative) := by
    intro negative
    cases negative <;> exact oneLine_literal (by decide)
  cases x with
  | nan => exact oneLine_literal (by decide)
  | infinite s => exact oneLine_append.mpr ⟨hsign s, oneLine_literal (by decide)⟩
  | finite s i =>
      rw [render]
      split
      · exact oneLine_append.mpr ⟨hsign s, oneLine_literal (by decide)⟩
      · exact oneLine_append.mpr ⟨hsign s, Decimal.oneLine_positional _ oneLine_empty⟩

/-- Only a text and the line feed itself are displayed with a line feed. -/
theorem Value.oneLine_render {v : Value} (hchar : v ≠ .char '\n')
    (hstring : ∀ text, v ≠ .string text) : OneLine v.render := by
  cases v with
  | int n => exact oneLine_intRepr _
  | float x => exact x.oneLine_render
  | bool b => cases b <;> exact oneLine_literal (by decide)
  | char c =>
      simp only [OneLine, render, String.toList_singleton, List.mem_singleton]
      rintro rfl
      exact hchar rfl
  | string text => exact absurd rfl (hstring text)
  | empty => exact oneLine_empty

end Values

namespace Cause

/-- The text that a diagnostic quotes, if it quotes one: a name, a value, a character or a
    piece of input. -/
def quoted : Cause → String
  | .undefined name => name
  | .undeclared name => name
  | .redeclared name => name
  | .notCondition value => value.render
  | .badEscape c => String.singleton c
  | .inputFormat text _ => text
  | _ => ""

/-- The words around what is quoted have no line feed. -/
theorem oneLine_text (cause : Cause) : OneLine cause.text ↔ OneLine cause.quoted := by
  have hwords : ∀ {front text back : String}, OneLine front → OneLine back →
      (OneLine (front ++ text ++ back) ↔ OneLine text) := by
    intro front text back hfront hback
    simp only [oneLine_append, hfront, hback, true_and, and_true]
  unfold text quoted
  cases cause with
  | undefined name | undeclared name | redeclared name | notCondition v =>
      exact hwords (oneLine_literal (by decide)) (oneLine_literal (by decide))
  | badEscape c =>
      simp only [oneLine_append, oneLine_toString]
      exact and_iff_right (oneLine_literal (by decide))
  | inputFormat piece type =>
      simp only [oneLine_append, oneLine_toString, DataType.oneLine_name, and_true]
      refine ⟨fun h => h.1.1.2, fun h => ⟨⟨⟨?_, h⟩, ?_⟩, ?_⟩⟩ <;>
        exact oneLine_literal (by decide)
  | _ =>
      -- Nothing is quoted, and the names of types and operators are fixed words.
      refine iff_of_true ?_ oneLine_empty
      simp only [oneLine_append, oneLine_toString, oneLine_kindName, DataType.oneLine_name,
        ArithOp.oneLine_verb, Comparison.oneLine_symbol, Connective.oneLine_symbol,
        Sign.oneLine_symbol, Nat.toString_eq_repr, oneLine_natRepr, and_true]
      and_intros <;> exact oneLine_literal (by decide)

end Cause

namespace Fault

/-- The place in front of it has none either. -/
theorem oneLine_message (pos : Position) (cause : Cause) :
    OneLine (Fault.program pos cause).message ↔ OneLine cause.quoted := by
  have hplace : ∀ {front place text : String}, OneLine front → OneLine place →
      (OneLine (front ++ place ++ toString " -> " ++ text) ↔ OneLine text) := by
    intro front place text hfront hplace
    have harrow : OneLine (toString " -> ") := oneLine_literal (by decide)
    simp only [oneLine_append, hfront, hplace, harrow, true_and]
  refine Iff.trans ?_ cause.oneLine_text
  cases cause with
  | inputFormat piece type =>
      exact hplace (oneLine_literal (by decide)) (oneLine_natRepr pos.line)
  | _ => exact hplace (oneLine_literal (by decide)) pos.oneLine_render

theorem oneLine_message_channel (fault : ChannelFault) :
    OneLine (Fault.channel fault).message := by
  refine oneLine_append.mpr ⟨oneLine_literal (by decide), ?_⟩
  cases fault <;> exact oneLine_literal (by decide)

end Fault

/-- Nothing stands behind the element, wherever it stands in the list. -/
def Closes {α : Type} (x : α) (xs : List α) : Prop :=
  ∀ front rest, xs = front ++ x :: rest → rest = []

section Closes

variable {α : Type} {x y : α} {xs ys : List α}

theorem Closes.cons_of_ne (h : Closes x xs) (hne : y ≠ x) : Closes x (y :: xs) := by
  intro front rest heq
  cases front with
  | nil => exact absurd (List.cons.inj heq).1 hne
  | cons z front => exact h front rest (List.cons.inj heq).2

/-- What is cut out of a list has nothing new behind the element. -/
theorem Closes.of_part (h : Closes x xs) (hpart : ys <:+: xs) : Closes x ys := by
  rintro front rest rfl
  rcases hpart with ⟨before, behind, heq⟩
  have hrest : rest ++ behind = [] := h (before ++ front) (rest ++ behind) (by simp [← heq])
  exact (List.append_eq_nil_iff.mp hrest).1

end Closes

namespace Session

/-- A line is cut off behind its first line feed. -/
theorem closes_splitLine (input : List UInt8) : Closes 10 (splitLine input).1 := by
  induction input with
  | nil =>
      intro front rest heq
      cases front <;> cases heq
  | cons b bs ih =>
      by_cases hb : b = 10
      · rw [splitLine, if_pos hb]
        intro front rest heq
        cases front with
        | nil => exact (List.cons.inj heq).2.symm
        | cons c front => cases front <;> cases heq
      · rw [splitLine, if_neg hb]
        exact ih.cons_of_ne hb

/-- A line feed is encoded as one byte, and every other character behind it as at least one
    more. -/
theorem closes_of_fromUTF8? {line : List UInt8} {text : String} (hline : Closes 10 line)
    (htext : String.fromUTF8? line.toByteArray = some text) : Closes '\n' text.toList := by
  have hbytes : text.toList.flatMap String.utf8EncodeChar = line := by
    unfold String.fromUTF8? at htext
    split at htext
    · rcases Option.some.inj htext with rfl
      exact List.toByteArray_inj.mp String.utf8Encode_toList
    · cases htext
  have hfeed : String.utf8EncodeChar '\n' = [10] := by decide
  intro front rest heq
  rw [heq, List.flatMap_append, List.flatMap_cons, hfeed, List.singleton_append] at hbytes
  have hrest := hline _ _ hbytes.symm
  cases rest with
  | nil => rfl
  | cons c rest =>
      rw [List.flatMap_cons] at hrest
      exact absurd (List.append_eq_nil_iff.mp hrest).1 String.utf8EncodeChar_ne_nil

end Session

/-- A line feed at the end is a blank, and is taken off. -/
theorem Text.feed_notMem_trim {cs : List Char} (h : Closes '\n' cs) : '\n' ∉ Text.trim cs := by
  intro hmem
  rw [trim, List.mem_reverse] at hmem
  have hbody : Closes '\n' (cs.dropWhile isBlank) :=
    h.of_part (List.dropWhile_suffix isBlank).isInfix
  generalize hback : (cs.dropWhile isBlank).reverse = back at hmem
  rcases List.append_of_mem hmem with ⟨front, rest, heq⟩
  have hsplit : back.takeWhile isBlank ++ (front ++ '\n' :: rest) = back := by
    rw [← heq, List.takeWhile_append_dropWhile]
  -- What is in front of it, seen from the end, is behind it.
  have hfront : front.reverse ++ (back.takeWhile isBlank).reverse = [] := by
    refine hbody rest.reverse _ ?_
    generalize back.takeWhile isBlank = blanks at hsplit ⊢
    rw [← List.reverse_reverse (cs.dropWhile isBlank), hback, ← hsplit]
    simp
  rcases List.reverse_eq_nil_iff.mp (List.append_eq_nil_iff.mp hfront).1 with rfl
  have hhead : isBlank '\n' = false := by
    simpa [heq] using List.head?_dropWhile_not isBlank back
  exact absurd hhead (by decide)

namespace Input

/-- The parts between the commas are parts of the text, and the first of them begins it. -/
theorem exists_fields (cs : List Char) :
    ∃ first others, fields cs = first :: others ∧ first <+: cs ∧ ∀ f ∈ others, f <:+: cs := by
  induction cs with
  | nil => exact ⟨[], [], rfl, List.nil_prefix, List.forall_mem_nil _⟩
  | cons c cs ih =>
      rcases ih with ⟨first, others, heq, hfirst, hothers⟩
      by_cases hc : c = ','
      · refine ⟨[], fields cs, by rw [fields, if_pos hc], List.nil_prefix, ?_⟩
        rw [heq]
        refine List.forall_mem_cons.mpr ⟨?_, fun f hf => ?_⟩
        · exact hfirst.isInfix.trans (List.suffix_cons c cs).isInfix
        · exact (hothers f hf).trans (List.suffix_cons c cs).isInfix
      · refine ⟨c :: first, others, by rw [fields, if_neg hc, heq]; rfl, ?_, fun f hf => ?_⟩
        · exact List.cons_prefix_cons.mpr ⟨rfl, hfirst⟩
        · exact (hothers f hf).trans (List.suffix_cons c cs).isInfix

/-- The pieces of a line of input have no line feed. -/
theorem oneLine_of_mem_pieces {line piece : String} (h : Closes '\n' line.toList)
    (hpiece : piece ∈ pieces line) : OneLine piece := by
  unfold pieces at hpiece
  simp only at hpiece
  split at hpiece
  · cases hpiece
  · rcases List.mem_map.mp hpiece with ⟨f, hf, rfl⟩
    rcases exists_fields line.toList with ⟨first, others, heq, hfirst, hothers⟩
    have hpart : f <:+: line.toList := by
      rw [heq] at hf
      rcases List.mem_cons.mp hf with rfl | hf
      · exact hfirst.isInfix
      · exact hothers f hf
    exact oneLine_ofList.mpr (Text.feed_notMem_trim (h.of_part hpart))

/-- A value that is read from a piece is displayed without a line feed. -/
theorem oneLine_of_value? {type : DataType} {piece : String} {v : Value}
    (h : value? type piece = some v) (hpiece : OneLine piece) : OneLine v.render := by
  cases type with
  | string =>
      rcases Option.some.inj h with rfl
      exact hpiece
  | char =>
      rcases Option.map_eq_some_iff.mp h with ⟨c, hc, rfl⟩
      unfold char? at hc
      split at hc
      · rename_i c' hlist
        rcases Option.some.inj hc with rfl
        rw [OneLine, hlist] at hpiece
        rwa [OneLine, Value.render, String.toList_singleton]
      · cases hc
  | _ =>
      rcases Option.map_eq_some_iff.mp h with ⟨x, -, rfl⟩
      exact Value.oneLine_render nofun nofun

end Input

end Primer
