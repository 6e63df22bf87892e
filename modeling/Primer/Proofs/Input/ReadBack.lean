import Primer.Proofs.Input.Commit
import Primer.Proofs.Input.Pieces

/-!
# What Is Displayed Can Be Read Back

A line that holds the displayed texts of some values, with commas between them, gives these
values back to a scan. Two writings have to be undone for this, and each of them is undone
by itself. Writing a value as a text is undone by reading the text as a value of the same
type (`Value.value?_render`), and joining texts to a line is undone by cutting the
line into its pieces.

The second needs texts that can be told from what stands between them. The text of a whole
number or a truth value always can, but a character or a text may be or have a comma, a line
feed or a blank at its ends, and then cannot. Real numbers are left out: reading one back is a
matter of rounding and not of how lines are written.

## Main definitions

* `Text.Plain`: A text that can be told from commas, blanks and the end of a line.
* `Value.Legible`: A value whose text can be read back.
* `Input.Reply`, `Input.replyLine`: Values typed in for variables, with blanks around them, and
  the line that they make up.

## Theorems

* `Input.int?_repr`: The text of a whole number spells that number.
* `Value.value?_render`: The text of a value spells that value.
* `Value.plain_render`: The text of a legible value is plain.
* `Input.pieces_replyLine`: A line of replies is cut into their texts.
* `Statement.exec_scan_rendered`: A scan gives the values back.
-/

namespace Primer

namespace Input

theorem isDigit_toDigits (n : Nat) : ∀ c ∈ Nat.toDigits 10 n, c.isDigit = true :=
  fun _ => Nat.isDigit_of_mem_toDigits (by decide) (by decide)

theorem natural?_toDigits (n : Nat) : Text.natural? (Nat.toDigits 10 n) = some n := by
  have hdigits : (Nat.toDigits 10 n).all Char.isDigit = true :=
    List.all_eq_true.mpr (isDigit_toDigits n)
  have hne : (Nat.toDigits 10 n).isEmpty = false :=
    List.isEmpty_eq_false_iff.mpr Nat.toDigits_ne_nil
  rw [Text.natural?, hdigits, hne, Nat.ofDigitChars_ten_toDigits]
  rfl

theorem toList_repr_ofNat (n : Nat) : (Int.ofNat n).repr.toList = Nat.toDigits 10 n := by
  rw [Int.repr, Nat.repr, String.toList_ofList]

theorem toList_repr_negSucc (n : Nat) :
    (Int.negSucc n).repr.toList = '-' :: Nat.toDigits 10 (n + 1) := by
  rw [Int.repr, String.toList_append, Nat.repr]
  simp only [String.toList_ofList]
  rfl

/-- Digits without a sign spell a number that is not negative. -/
theorem int?_of_digits {text : String} (h : ∀ c ∈ text.toList, c.isDigit = true) :
    int? text =
      ((Text.natural? text.toList).filter (· < 0x80000000)).map fun n => Int32.ofInt n := by
  unfold int?
  split
  · next heq => exact absurd (h '-' (heq ▸ List.mem_cons_self)) (by decide)
  · next heq => exact absurd (h '+' (heq ▸ List.mem_cons_self)) (by decide)
  · rfl

/-- The text of a whole number spells that number, also if it is the least one, whose
    digits alone would spell a number that is too large. -/
theorem int?_repr (n : Int32) : int? n.toInt.repr = some n := by
  have hupper : n.toInt < 2 ^ 31 := n.toInt_lt
  have hlower : -2 ^ 31 ≤ n.toInt := n.le_toInt
  cases hn : n.toInt with
  | ofNat k =>
      have hbound : k < 0x80000000 := by
        rw [hn, Int.ofNat_eq_natCast] at hupper
        omega
      have hback : Int32.ofInt (k : Int) = n := by rw [← n.ofInt_toInt, hn]; rfl
      have hdigits : ∀ c ∈ (Int.ofNat k).repr.toList, c.isDigit = true := by
        rw [toList_repr_ofNat]
        exact isDigit_toDigits k
      rw [int?_of_digits hdigits, toList_repr_ofNat, natural?_toDigits]
      simp only [Option.filter_some, hbound, decide_true, if_true]
      exact congrArg some hback
  | negSucc k =>
      -- Behind a minus sign the digits may spell one more than the greatest number.
      have hbound : k + 1 ≤ 0x80000000 := by
        rw [hn, Int.negSucc_eq] at hlower
        omega
      have hback : Int32.ofInt (-((k + 1 : Nat) : Int)) = n := by rw [← n.ofInt_toInt, hn]; rfl
      unfold int?
      rw [toList_repr_negSucc]
      simp only [natural?_toDigits, Option.filter_some, hbound, decide_true, if_true]
      exact congrArg some hback

end Input

/-- The text can be told from the commas and blanks around it, and from the end of the
    line. -/
structure Text.Plain (cs : List Char) : Prop where
  comma_notMem : ',' ∉ cs
  feed_notMem : '\n' ∉ cs
  trimmed : Text.Trimmed cs

/-- The value is of a kind whose text spells the value itself, and the text of a character or
    of a text is plain. -/
structure Value.Legible (v : Value) : Prop where
  kind : v.type? ∈ [some .int, some .bool, some .char, some .string]
  plain : v.type? = some .char ∨ v.type? = some .string → Text.Plain v.render.toList

instance (cs : List Char) : Decidable (Text.Plain cs) :=
  decidable_of_iff (',' ∉ cs ∧ '\n' ∉ cs ∧ Text.Trimmed cs)
    ⟨fun h => ⟨h.1, h.2.1, h.2.2⟩, fun h => ⟨h.comma_notMem, h.feed_notMem, h.trimmed⟩⟩

instance (v : Value) : Decidable v.Legible :=
  decidable_of_iff (v.type? ∈ [some .int, some .bool, some .char, some .string] ∧
      (v.type? = some .char ∨ v.type? = some .string → Text.Plain v.render.toList))
    ⟨fun h => ⟨h.1, h.2⟩, fun h => ⟨h.kind, h.plain⟩⟩

namespace Text

/-- A text of characters that are neither commas nor blanks is plain. -/
theorem plain_of_forall {cs : List Char} (h : ∀ c ∈ cs, c ≠ ',' ∧ isBlank c = false) :
    Plain cs where
  comma_notMem hmem := (h _ hmem).1 rfl
  feed_notMem hmem := absurd (h _ hmem).2 (by decide)
  trimmed := by
    constructor
    · cases hc : cs.head? with
      | none => rfl
      | some c => simp [(h c (List.mem_of_head? hc)).2]
    · cases hc : cs.getLast? with
      | none => rfl
      | some c => simp [(h c (List.mem_of_getLast? hc)).2]

theorem digit_plain {c : Char} (h : c.isDigit = true) : c ≠ ',' ∧ isBlank c = false := by
  have hrange : 48 ≤ c.toNat ∧ c.toNat ≤ 57 := by
    simpa [Char.isDigit, UInt32.le_iff_toNat_le] using h
  constructor
  · rintro rfl
    exact absurd h (by decide)
  · simp only [isBlank, Bool.or_eq_false_iff, Bool.and_eq_false_iff, decide_eq_false_iff_not,
      beq_eq_false_iff_ne]
    omega

/-- The text of a whole number is plain, as it has digits only and perhaps a minus sign. -/
theorem plain_repr (n : Int) : Plain n.repr.toList := by
  have hdigits : ∀ k, ∀ c ∈ Nat.toDigits 10 k, c ≠ ',' ∧ isBlank c = false :=
    fun k c hc => digit_plain (Input.isDigit_toDigits k c hc)
  cases n with
  | ofNat k =>
      rw [Input.toList_repr_ofNat]
      exact plain_of_forall (hdigits k)
  | negSucc k =>
      rw [Input.toList_repr_negSucc]
      exact plain_of_forall (List.forall_mem_cons.mpr ⟨⟨by decide, by decide⟩, hdigits _⟩)

end Text

namespace Value

variable {v : Value}

theorem plain_render (h : v.Legible) : Text.Plain v.render.toList := by
  cases v with
  | int n => exact Text.plain_repr n.toInt
  | bool b => cases b <;> exact ⟨by decide, by decide, by decide⟩
  | char c => exact h.plain (.inl rfl)
  | string text => exact h.plain (.inr rfl)
  | float x => exact absurd h.kind (by simp [type?])
  | empty => exact absurd h.kind (by decide)

/-- The text of a value spells that value. -/
theorem value?_render (h : v.Legible) :
    ∃ type, v.type? = some type ∧ Input.value? type v.render = some v := by
  cases v with
  | int n => exact ⟨.int, rfl, by rw [Input.value?, render, Input.int?_repr, Option.map_some]⟩
  | bool b => cases b <;> exact ⟨.bool, rfl, by decide⟩
  | char c =>
      refine ⟨.char, rfl, ?_⟩
      rw [Input.value?, Input.char?, render, String.toList_singleton]
      rfl
  | string text => exact ⟨.string, rfl, rfl⟩
  | float x => exact absurd h.kind (by simp [type?])
  | empty => exact absurd h.kind (by decide)

/-- Only the empty text is displayed as nothing. -/
theorem eq_of_render_eq_empty (h : v.Legible) (hempty : v.render = "") : v = .string "" := by
  rcases value?_render h with ⟨type, -, hread⟩
  rw [hempty] at hread
  -- Nothing at all spells no number, no truth value and no character.
  cases type with
  | string => exact (Option.some.inj hread).symm
  | int => cases hread
  | float => cases hread
  | bool => cases hread
  | char => cases hread

end Value

namespace Input

/-- A value typed in for a variable, with the blanks around it. -/
structure Reply where
  name : String
  value : Value
  before : List Char
  after : List Char

/-- The part of a line that a reply makes up. -/
def Reply.field (r : Reply) : Field :=
  ⟨r.before, r.value.render.toList, r.after⟩

/-- The value can be read back, and what stands around its text are blanks of one line. -/
structure Reply.Legible (r : Reply) : Prop where
  value : r.value.Legible
  before : ∀ c ∈ r.before, Text.isBlank c = true ∧ c ≠ '\n'
  after : ∀ c ∈ r.after, Text.isBlank c = true ∧ c ≠ '\n'

instance (r : Reply) : Decidable r.Legible :=
  decidable_of_iff (r.value.Legible ∧
      r.before.all (fun c => Text.isBlank c && c != '\n') = true ∧
      r.after.all (fun c => Text.isBlank c && c != '\n') = true) <| by
    simp only [List.all_eq_true, Bool.and_eq_true, bne_iff_ne]
    exact ⟨fun h => ⟨h.1, h.2.1, h.2.2⟩, fun h => ⟨h.value, h.before, h.after⟩⟩

/-- The line of text that replies make up, without its end. -/
def replyLine (replies : List Reply) : String :=
  String.ofList (line (replies.map Reply.field))

variable {r : Reply} {replies : List Reply}

theorem Reply.Legible.plain (h : r.Legible) : r.field.Plain where
  before_blank c hc := (h.before c hc).1
  after_blank c hc := (h.after c hc).1
  trimmed := (Value.plain_render h.value).trimmed
  comma_notMem := (Value.plain_render h.value).comma_notMem

theorem Reply.Legible.feed_notMem (h : r.Legible) : '\n' ∉ r.field.chars := by
  simp only [Field.chars, List.mem_append, not_or]
  exact ⟨fun hmem => (h.before _ hmem).2 rfl, (Value.plain_render h.value).feed_notMem,
    fun hmem => (h.after _ hmem).2 rfl⟩

theorem oneLine_replyLine (hlegible : ∀ r ∈ replies, r.Legible) :
    OneLine (replyLine replies) := by
  unfold OneLine replyLine
  rw [String.toList_ofList]
  refine feed_notMem_line fun f hf => ?_
  rcases List.mem_map.mp hf with ⟨r, hr, rfl⟩
  exact (hlegible r hr).feed_notMem

/-- The texts of replies are not a single empty one, which the line would not show. -/
theorem text_field_ne (hlegible : ∀ r ∈ replies, r.Legible)
    (hblank : replies.map Reply.value ≠ [.string ""]) :
    (replies.map Reply.field).map Field.text ≠ [[]] := by
  rw [List.map_map]
  intro heq
  rcases List.map_eq_singleton_iff.mp heq with ⟨r, rfl, htext⟩
  have hvalue : r.value = .string "" :=
    Value.eq_of_render_eq_empty (hlegible r List.mem_cons_self).value
      (String.toList_eq_nil_iff.mp htext)
  exact hblank (congrArg (fun v => [v]) hvalue)

/-- A line of replies is cut into their texts, whichever way it ends. -/
theorem pieces_replyLine {ending : String} (hne : replies ≠ [])
    (hlegible : ∀ r ∈ replies, r.Legible) (hblank : replies.map Reply.value ≠ [.string ""])
    (hending : ∀ c ∈ ending.toList, Text.isBlank c = true) :
    pieces (replyLine replies ++ ending) = replies.map fun r => r.value.render := by
  have hplain : ∀ f ∈ replies.map Reply.field, f.Plain := by
    intro f hf
    rcases List.mem_map.mp hf with ⟨r, hr, rfl⟩
    exact (hlegible r hr).plain
  -- The end of the line is one more blank behind the last text.
  rcases exists_line_append hending (mt List.map_eq_nil_iff.mp hne) hplain with
    ⟨gs, hgs, hgsplain, htexts, hline⟩
  have hsame : replyLine replies ++ ending = String.ofList (line gs) := by
    rw [← hline, String.ofList_append, String.ofList_toList, replyLine]
  have htext := text_field_ne hlegible hblank
  rw [← htexts] at htext
  calc pieces (replyLine replies ++ ending)
      = gs.map fun f => String.ofList f.text := by rw [hsame, pieces_line hgs hgsplain htext]
    _ = (gs.map Field.text).map String.ofList := by rw [List.map_map]; rfl
    _ = replies.map fun r => r.value.render := by
        rw [htexts, List.map_map, List.map_map]
        exact List.map_congr_left fun r _ => String.ofList_toList

end Input

namespace Store

variable {name : String} {v : Value} {changes : List (String × Value)}

/-- Of values put into different variables, each is the last one of its own. -/
theorem lastOf?_of_nodup (h : (changes.map Prod.fst).Nodup) (hmem : (name, v) ∈ changes) :
    lastOf? name changes = some v := by
  induction changes with
  | nil => cases hmem
  | cons change changes ih =>
      rw [List.map_cons, List.nodup_cons] at h
      rw [lastOf?_cons]
      rcases List.mem_cons.mp hmem with rfl | hmem
      · rw [lastOf?_of_notMem h.1, if_pos rfl]
        rfl
      · rw [ih h.2 hmem]
        rfl

end Store

namespace Statement

open Session

/-- Each reply is read as its value, since the variable has the value's type. -/
theorem run_execPieces_replies {pos : Position} {replies : List Input.Reply} {s : Session}
    (hlegible : ∀ r ∈ replies, r.Legible)
    (hdeclared : ∀ r ∈ replies,
      ∃ b, s.store.find? r.name = some b ∧ r.value.type? = some b.type) :
    (execPieces pos ((replies.map Input.Reply.name).zip
        (replies.map fun r => r.value.render))).run s
      = .ok () { s with store := s.store.setAll (replies.map fun r => (r.name, r.value)) } := by
  have hread : List.Forall₂ (fun pair v => s.store.reads? pair.1 pair.2 = some v)
      (replies.map fun r => (r.name, r.value.render)) (replies.map Input.Reply.value) := by
    rw [List.forall₂_map_left_iff, List.forall₂_map_right_iff, List.forall₂_same]
    intro r hr
    rcases hdeclared r hr with ⟨b, hfind, htype⟩
    rcases Value.value?_render (hlegible r hr).value with ⟨type, htype', hvalue⟩
    rcases Option.some.inj (htype.symm.trans htype') with rfl
    exact Store.reads?_eq_some.mpr ⟨b, hfind, hvalue⟩
  rw [List.zip_map', ← List.append_nil (replies.map _), run_execPieces_append hread, List.map_map,
    List.zip_map']
  rfl

/-- Values that are typed in as they are displayed are read back. The line holds the displayed
    texts of some values, with commas between them and blanks anywhere around them. A scan
    of it into different variables of the values' types puts into each variable its own
    value, and leaves the others as they are. The line is the next one of the input, or the last
    one without a line feed. -/
theorem exec_scan_rendered (cap : Nat) (pos : Position) {replies : List Input.Reply}
    {s : Session} {ending : String} {rest : List UInt8} (hne : replies ≠ [])
    (hlegible : ∀ r ∈ replies, r.Legible)
    (hblank : replies.map Input.Reply.value ≠ [.string ""])
    (hnames : (replies.map Input.Reply.name).Nodup)
    (hdeclared : ∀ r ∈ replies,
      ∃ b, s.store.find? r.name = some b ∧ r.value.type? = some b.type)
    (hflush : s.sink.stuck = false) (hending : ending = "\n" ∨ ending = "" ∧ rest = [])
    (hinput : s.input = (Input.replyLine replies ++ ending).toUTF8.data.toList ++ rest) :
    ∃ store : Store, (exec cap (.scan pos (replies.map Input.Reply.name))).run s
        = .ok () { s with store := store, sink := s.sink.flushed, input := rest } ∧
      (∀ r ∈ replies, ∃ type, r.value.type? = some type ∧
        store.find? r.name = some ⟨type, r.value⟩) ∧
      ∀ name, name ∉ replies.map Input.Reply.name → store.find? name = s.store.find? name := by
  -- What the scan takes from the input is the line of replies and its end.
  have hsplit := splitLine_text (Input.oneLine_replyLine hlegible) hending
  rw [← hinput] at hsplit
  have hline : String.fromUTF8? (splitLine s.input).1.toByteArray
      = some (Input.replyLine replies ++ ending) := by
    rw [hsplit]
    exact fromUTF8?_toUTF8 _
  have hpieces : Input.pieces (Input.replyLine replies ++ ending)
      = replies.map fun r => r.value.render := by
    refine Input.pieces_replyLine hne hlegible hblank ?_
    rcases hending with rfl | ⟨rfl, -⟩
    · exact List.forall_mem_singleton.mpr (by decide)
    · exact fun c hc => absurd hc List.not_mem_nil
  let changes := replies.map fun r => (r.name, r.value)
  have hfst : changes.map Prod.fst = replies.map Input.Reply.name := List.map_map
  refine ⟨s.store.setAll changes, ?_, ?_, ?_⟩
  · have hcount : ¬(Input.pieces (Input.replyLine replies ++ ending) = [] ∨
        (replies.map Input.Reply.name).length
          < (Input.pieces (Input.replyLine replies ++ ending)).length) := by
      rw [hpieces, List.map_eq_nil_iff, List.length_map, List.length_map]
      exact not_or.mpr ⟨hne, Nat.lt_irrefl _⟩
    rw [exec, run_execScan hflush hline, if_neg hcount, hpieces, hsplit]
    exact run_execPieces_replies hlegible hdeclared
  · -- No name occurs twice, so nothing is put over the value of a reply.
    intro r hr
    rcases hdeclared r hr with ⟨b, hfind, htype⟩
    have hlast : Store.lastOf? r.name changes = some r.value :=
      Store.lastOf?_of_nodup (hfst ▸ hnames) (List.mem_map_of_mem hr)
    refine ⟨b.type, htype, ?_⟩
    rw [Store.find?_setAll, hfind, hlast]
    rfl
  · intro name hname
    rw [Store.find?_setAll, Store.lastOf?_of_notMem (hfst ▸ hname)]
    exact Option.map_id'

/-- The least whole number, an empty text, a truth value, a minus sign and a text with a
    blank inside, with blanks of several sorts around them, in front of another line. -/
theorem exec_scan_rendered_five :
    let replies : List Input.Reply :=
      [⟨"n", .int (-2147483648), [' ', '\t'], []⟩, ⟨"e", .string "", [], []⟩,
        ⟨"b", .bool true, [], ['\u3000']⟩, ⟨"c", .char '-', [], []⟩,
        ⟨"t", .string "a b", [], ['\r']⟩]
    let s : Session :=
      { store := ⟨[("t", ⟨.string, .empty⟩), ("c", ⟨.char, .empty⟩), ("b", ⟨.bool, .bool false⟩),
          ("e", ⟨.string, .string "x"⟩), ("n", ⟨.int, .int 5⟩), ("m", ⟨.int, .int 6⟩)]⟩
        input := " \t-2147483648,,TRUE\u3000,-,a b\r\nrest".toUTF8.data.toList }
    (∀ r ∈ replies, r.Legible) ∧ ∃ store : Store,
      (exec 5 (.scan ⟨4, 0⟩ ["n", "e", "b", "c", "t"])).run s
          = .ok () { s with store := store, input := "rest".toUTF8.data.toList } ∧
        store.find? "n" = some ⟨.int, .int (-2147483648)⟩ ∧
        store.find? "e" = some ⟨.string, .string ""⟩ ∧
        store.find? "b" = some ⟨.bool, .bool true⟩ ∧
        store.find? "c" = some ⟨.char, .char '-'⟩ ∧
        store.find? "t" = some ⟨.string, .string "a b"⟩ ∧
        store.find? "m" = some ⟨.int, .int 6⟩ := by
  intro replies s
  have hlegible : ∀ r ∈ replies, r.Legible := by decide +kernel
  have hdeclared : ∀ r ∈ replies,
      ∃ b, s.store.find? r.name = some b ∧ r.value.type? = some b.type := by
    simp only [replies, List.forall_mem_cons]
    exact ⟨⟨_, rfl, rfl⟩, ⟨_, rfl, rfl⟩, ⟨_, rfl, rfl⟩, ⟨_, rfl, rfl⟩, ⟨_, rfl, rfl⟩,
      fun r hr => absurd hr List.not_mem_nil⟩
  have hinput : s.input = (Input.replyLine replies ++ "\n").toUTF8.data.toList
      ++ "rest".toUTF8.data.toList := by decide +kernel
  rcases exec_scan_rendered 5 ⟨4, 0⟩ (by decide) hlegible (by decide +kernel) (by decide)
    hdeclared rfl (.inl rfl) hinput with ⟨store, hrun, hread, hother⟩
  simp only [replies, List.forall_mem_cons, Value.type?, Option.some.injEq,
    exists_eq_left'] at hread
  rcases hread with ⟨hn, he, hb, hc, ht, -⟩
  exact ⟨hlegible, store, hrun, hn, he, hb, hc, ht, hother "m" (by decide)⟩

end Statement

end Primer
