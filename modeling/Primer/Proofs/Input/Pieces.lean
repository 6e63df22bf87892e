import Mathlib.Data.List.TakeWhile
import Primer.Proofs.LineFeeds

/-!
# A Line Is Cut Where It Was Joined

Texts that are written into a line of input, with commas between them and blanks around
them, are the pieces that the line is cut into again. The texts must not have commas in them,
nor blanks at their ends, since these would be taken for what stands between the texts.
There is one line for which this fails although its text is of that kind: an empty text by
itself is a blank line, and a blank line has no pieces.

On the way to the program a line is a part of the input, which consists of bytes. The line is found
in it again, since a line feed is encoded as one byte and this byte is part of no
other character.

## Main definitions

* `Text.Trimmed`: A text without blanks at its ends.
* `Input.Field`: A text with blanks around it.
* `Input.Field.Plain`: The blanks are blanks, and the text can be told from them.
* `Input.line`: Fields with commas between them.

## Theorems

* `Text.trim_padded`: The blanks around a text are taken off, and nothing else is.
* `Input.fields_eq_splitOn`: The parts of a text between its commas.
* `Input.pieces_line`: The pieces of a line are the texts that it was joined from.
* `Session.splitLine_text`: A text is read from the input up to its line feed.
-/

namespace Primer

namespace Text

variable {before cs after : List Char}

/-- The text neither begins nor ends with a blank. -/
def Trimmed (cs : List Char) : Prop :=
  cs.head?.all (fun c => !isBlank c) = true ∧ cs.getLast?.all (fun c => !isBlank c) = true

instance (cs : List Char) : Decidable (Trimmed cs) :=
  inferInstanceAs (Decidable (_ ∧ _))

theorem Trimmed.head {c : Char} (h : Trimmed cs) (hc : cs.head? = some c) :
    isBlank c = false := by
  simpa [hc] using h.1

theorem Trimmed.last {c : Char} (h : Trimmed cs) (hc : cs.getLast? = some c) :
    isBlank c = false := by
  simpa [hc] using h.2

theorem trim_eq_nil_iff : trim cs = [] ↔ ∀ c ∈ cs, isBlank c = true := by
  unfold trim
  rw [List.reverse_eq_nil_iff, List.dropWhile_eq_nil_iff]
  constructor
  · intro h c hc
    -- What is not dropped at once would be dropped from the other end.
    rw [← List.takeWhile_append_dropWhile (p := isBlank) (l := cs), List.mem_append] at hc
    rcases hc with hc | hc
    · exact List.mem_takeWhile_imp hc
    · exact h c (List.mem_reverse.mpr hc)
  · intro h c hc
    exact h c ((List.dropWhile_suffix isBlank).subset (List.mem_reverse.mp hc))

/-- The blanks around a text are taken off, and nothing else is. -/
theorem trim_padded (hbefore : ∀ c ∈ before, isBlank c = true) (hcs : Trimmed cs)
    (hafter : ∀ c ∈ after, isBlank c = true) : trim (before ++ (cs ++ after)) = cs := by
  unfold trim
  rw [List.dropWhile_append_of_pos hbefore]
  cases cs with
  | nil =>
      have hnil : after.dropWhile isBlank = [] := List.dropWhile_eq_nil_iff.mpr hafter
      rw [List.nil_append, hnil]
      rfl
  | cons c cs =>
      have hfront : ((c :: cs) ++ after).dropWhile isBlank = (c :: cs) ++ after :=
        List.dropWhile_cons_of_neg (by rw [hcs.head rfl]; exact Bool.false_ne_true)
      have hback : (c :: cs).reverse.dropWhile isBlank = (c :: cs).reverse := by
        cases hreverse : (c :: cs).reverse with
        | nil => rfl
        | cons d ds =>
            have hlast : (c :: cs).getLast? = some d := by
              rw [← List.head?_reverse, hreverse]
              rfl
            exact List.dropWhile_cons_of_neg (by rw [hcs.last hlast]; exact Bool.false_ne_true)
      have hblanks : ∀ x ∈ after.reverse, isBlank x = true :=
        fun x hx => hafter x (List.mem_reverse.mp hx)
      rw [hfront, List.reverse_append, List.dropWhile_append_of_pos hblanks, hback,
        List.reverse_reverse]

end Text

namespace Input

/-- A text in a line of input, with the blanks around it. -/
structure Field where
  before : List Char
  text : List Char
  after : List Char

/-- The characters of a field. -/
def Field.chars (f : Field) : List Char :=
  f.before ++ (f.text ++ f.after)

/-- What stands around the text are blanks, and the text can be told from them and from the
    commas between fields. -/
structure Field.Plain (f : Field) : Prop where
  before_blank : ∀ c ∈ f.before, Text.isBlank c = true
  after_blank : ∀ c ∈ f.after, Text.isBlank c = true
  trimmed : Text.Trimmed f.text
  comma_notMem : ',' ∉ f.text

/-- Fields with commas between them. -/
def line (fs : List Field) : List Char :=
  [','].intercalate (fs.map Field.chars)

theorem line_singleton (f : Field) : line [f] = f.chars :=
  List.intercalate_singleton

theorem line_cons_cons (f g : Field) (fs : List Field) :
    line (f :: g :: fs) = f.chars ++ ',' :: line (g :: fs) := by
  simp only [line, List.map_cons, List.intercalate_cons_cons, List.append_assoc,
    List.singleton_append]

/-- The parts of a text between its commas are what it is split into at the commas. -/
theorem fields_eq_splitOn (cs : List Char) : fields cs = cs.splitOn ',' := by
  induction cs with
  | nil => rfl
  | cons c cs ih =>
      rw [fields, List.splitOn_cons_eq_if_modifyHead, ih]
      simp only [beq_iff_eq]

variable {f : Field} {fs : List Field}

theorem comma_not_blank {cs : List Char} (h : ∀ c ∈ cs, Text.isBlank c = true) : ',' ∉ cs :=
  fun hmem => absurd (h _ hmem) (by decide)

theorem Field.Plain.comma_notMem_chars (h : f.Plain) : ',' ∉ f.chars := by
  simp only [Field.chars, List.mem_append, not_or]
  exact ⟨comma_not_blank h.before_blank, h.comma_notMem, comma_not_blank h.after_blank⟩

/-- A line is blank only if it is a single field without text. -/
theorem trim_line_ne_nil (hne : fs ≠ []) (hplain : ∀ f ∈ fs, f.Plain)
    (htext : fs.map Field.text ≠ [[]]) : Text.trim (line fs) ≠ [] := by
  intro hnil
  rw [Text.trim_eq_nil_iff] at hnil
  match fs with
  | [] => exact hne rfl
  | [f] =>
      rw [line_singleton, Field.chars] at hnil
      have hplain := hplain f List.mem_cons_self
      cases hf : f.text with
      | nil => exact htext (by rw [List.map_singleton, hf])
      | cons c cs =>
          have hblank : Text.isBlank c = true := hnil c (by simp [hf])
          rw [hplain.trimmed.head (by rw [hf]; rfl)] at hblank
          exact Bool.false_ne_true hblank
  | f :: g :: fs =>
      rw [line_cons_cons] at hnil
      have hcomma := hnil ',' (List.mem_append_right _ List.mem_cons_self)
      exact absurd hcomma (by decide)

/-- A line is cut into the texts that it was joined from. -/
theorem pieces_line (hne : fs ≠ []) (hplain : ∀ f ∈ fs, f.Plain)
    (htext : fs.map Field.text ≠ [[]]) :
    pieces (String.ofList (line fs)) = fs.map fun f => String.ofList f.text := by
  have hcut : fields (line fs) = fs.map Field.chars := by
    rw [fields_eq_splitOn]
    refine List.splitOn_intercalate ',' ?_ (mt List.map_eq_nil_iff.mp hne)
    intro cs hcs
    rcases List.mem_map.mp hcs with ⟨f, hf, rfl⟩
    exact (hplain f hf).comma_notMem_chars
  have hblank : (Text.trim (line fs)).isEmpty = false :=
    List.isEmpty_eq_false_iff.mpr (trim_line_ne_nil hne hplain htext)
  unfold pieces
  simp only [String.toList_ofList, hblank, Bool.false_eq_true, if_false]
  rw [hcut, List.map_map]
  refine List.map_congr_left fun f hf => ?_
  have h := hplain f hf
  rw [Function.comp_apply, Field.chars, Text.trim_padded h.before_blank h.trimmed h.after_blank]

/-- Blanks at the end of a line belong to its last field. -/
theorem exists_line_append {blanks : List Char} (hblanks : ∀ c ∈ blanks, Text.isBlank c = true)
    (hne : fs ≠ []) (hplain : ∀ f ∈ fs, f.Plain) :
    ∃ gs : List Field, gs ≠ [] ∧ (∀ g ∈ gs, g.Plain) ∧ gs.map Field.text = fs.map Field.text ∧
      line fs ++ blanks = line gs := by
  induction fs with
  | nil => exact absurd rfl hne
  | cons f fs ih =>
      rcases List.forall_mem_cons.mp hplain with ⟨hf, hfs⟩
      cases fs with
      | nil =>
          refine ⟨[⟨f.before, f.text, f.after ++ blanks⟩], List.cons_ne_nil _ _, ?_, rfl, ?_⟩
          · exact List.forall_mem_singleton.mpr ⟨hf.before_blank,
              List.forall_mem_append.mpr ⟨hf.after_blank, hblanks⟩, hf.trimmed, hf.comma_notMem⟩
          · simp only [line_singleton, Field.chars, List.append_assoc]
      | cons g fs =>
          rcases ih (List.cons_ne_nil _ _) hfs with ⟨gs, hgs, hplain', htext, hline⟩
          cases gs with
          | nil => exact absurd rfl hgs
          | cons h gs =>
              refine ⟨f :: h :: gs, List.cons_ne_nil _ _, ?_, ?_, ?_⟩
              · exact List.forall_mem_cons.mpr ⟨hf, hplain'⟩
              · rw [List.map_cons, htext]
                rfl
              · rw [line_cons_cons, line_cons_cons, List.append_assoc, List.cons_append, hline]

/-- A line has no line feed if its fields have none. -/
theorem feed_notMem_line (h : ∀ f ∈ fs, '\n' ∉ f.chars) : '\n' ∉ line fs := by
  induction fs with
  | nil => exact List.not_mem_nil
  | cons f fs ih =>
      rcases List.forall_mem_cons.mp h with ⟨hf, hfs⟩
      cases fs with
      | nil => rw [line_singleton]; exact hf
      | cons g fs =>
          rw [line_cons_cons, List.mem_append, List.mem_cons]
          rintro (hmem | heq | hmem)
          · exact hf hmem
          · exact absurd heq (by decide)
          · exact ih hfs hmem

end Input

/-- Only the line feed is encoded with the byte of the line feed. -/
theorem feed_of_mem_utf8EncodeChar {c : Char} (h : 10 ∈ String.utf8EncodeChar c) : c = '\n' := by
  -- The bytes of the other encodings are all larger than it.
  have hbyte : ∀ {n : Nat}, (10 : UInt8) = UInt8.ofNat n → n % 256 = 10 := by
    intro n hn
    have := congrArg UInt8.toNat hn
    simpa using this.symm
  have hvalue : c.val.toNat = 10 := by
    unfold String.utf8EncodeChar at h
    simp only at h
    split at h
    · have := hbyte (List.mem_singleton.mp h)
      omega
    · exfalso
      split at h
      · simp only [List.mem_cons, List.not_mem_nil, or_false] at h
        rcases h with h | h <;> have := hbyte h <;> omega
      · split at h
        · simp only [List.mem_cons, List.not_mem_nil, or_false] at h
          rcases h with h | h | h <;> have := hbyte h <;> omega
        · simp only [List.mem_cons, List.not_mem_nil, or_false] at h
          rcases h with h | h | h | h <;> have := hbyte h <;> omega
  exact Char.ext (UInt32.toNat_inj.mp hvalue)

namespace Session

variable {bytes rest : List UInt8}

theorem splitLine_append_feed (h : 10 ∉ bytes) :
    splitLine (bytes ++ 10 :: rest) = (bytes ++ [10], rest) := by
  induction bytes with
  | nil => rw [List.nil_append, splitLine, if_pos rfl]; rfl
  | cons b bytes ih =>
      rw [List.mem_cons, not_or] at h
      rw [List.cons_append, splitLine, if_neg (Ne.symm h.1), ih h.2]
      rfl

theorem splitLine_of_notMem (h : 10 ∉ bytes) : splitLine bytes = (bytes, []) := by
  induction bytes with
  | nil => rfl
  | cons b bytes ih =>
      rw [List.mem_cons, not_or] at h
      rw [splitLine, if_neg (Ne.symm h.1), ih h.2]

/-- The bytes of a text are those of its characters. -/
theorem toList_toUTF8 (text : String) :
    text.toUTF8.data.toList = text.toList.flatMap String.utf8EncodeChar := by
  rw [String.toUTF8_eq_toByteArray, ← String.utf8Encode_toList, List.utf8Encode,
    List.toList_data_toByteArray]

theorem fromUTF8?_toUTF8 (text : String) :
    String.fromUTF8? text.toUTF8.data.toList.toByteArray = some text := by
  have hbytes : text.toUTF8.data.toList.toByteArray = text.toByteArray := by
    rw [toList_toUTF8, ← List.utf8Encode, String.utf8Encode_toList]
  rw [hbytes]
  exact dif_pos text.isValidUTF8

theorem feed_notMem_toUTF8 {text : String} (h : OneLine text) :
    10 ∉ text.toUTF8.data.toList := by
  rw [toList_toUTF8]
  intro hmem
  rcases List.mem_flatMap.mp hmem with ⟨c, hc, hbyte⟩
  rw [feed_of_mem_utf8EncodeChar hbyte] at hc
  exact h hc

/-- A text in front of the input is the next line, if it has no line feed but one at its end,
    or none at all and nothing behind it. -/
theorem splitLine_text {text ending : String} (htext : OneLine text)
    (hending : ending = "\n" ∨ ending = "" ∧ rest = []) :
    splitLine ((text ++ ending).toUTF8.data.toList ++ rest)
      = ((text ++ ending).toUTF8.data.toList, rest) := by
  have hfeed := feed_notMem_toUTF8 htext
  have happend : (text ++ ending).toUTF8.data.toList
      = text.toUTF8.data.toList ++ ending.toUTF8.data.toList := by
    simp only [toList_toUTF8, String.toList_append, List.flatMap_append]
  rw [happend]
  rcases hending with rfl | ⟨rfl, rfl⟩
  · have hten : "\n".toUTF8.data.toList = [10] := by decide
    rw [hten, List.append_assoc, List.singleton_append, splitLine_append_feed hfeed]
  · have hnone : "".toUTF8.data.toList = [] := rfl
    rw [hnone, List.append_nil, List.append_nil, splitLine_of_notMem hfeed]

end Session

end Primer
