import Primer.Token

/-!
# The Fixed Words and Signs

How the fixed words and signs are found by their spelling. No two of them are spelled
alike, so a spelling finds what it is the spelling of. A sign may begin with another
sign; then the longer one is found, because it is tried first.

## Theorems

* `Keyword.ofWord?_eq_some`, `DataType.ofName?_eq_some`: A word is found by its spelling.
* `Keyword.ofWord?_eq_none`, `DataType.ofName?_eq_none`: What no fixed word is spelled like.
* `Symbol.front?_eq_some`: The sign that is found at the front of a text is the longest.
-/

namespace Primer

namespace Keyword

theorem ofWord?_eq_some {word : String} {k : Keyword} :
    ofWord? word = some k ↔ k.word = word := by
  constructor
  · intro h
    have hk := List.find?_some h
    simpa using hk
  · rintro rfl
    cases k <;> rfl

theorem ofWord?_eq_none {word : String} : ofWord? word = none ↔ ∀ k : Keyword, k.word ≠ word := by
  rw [Option.eq_none_iff_forall_ne_some]
  exact forall_congr' fun k => not_congr ofWord?_eq_some

end Keyword

namespace DataType

theorem ofName?_eq_some {name : String} {t : DataType} :
    ofName? name = some t ↔ t.name = name := by
  constructor
  · intro h
    have ht := List.find?_some h
    simpa using ht
  · rintro rfl
    cases t <;> rfl

theorem ofName?_eq_none {name : String} :
    ofName? name = none ↔ ∀ t : DataType, t.name ≠ name := by
  rw [Option.eq_none_iff_forall_ne_some]
  exact forall_congr' fun t => not_congr ofName?_eq_some

/-- No type is named by a keyword. -/
theorem name_ne_word (t : DataType) (k : Keyword) : t.name ≠ k.word := by
  cases t <;> cases k <;> decide

end DataType

namespace Symbol

theorem mem_all (s : Symbol) : s ∈ all := by
  cases s <;> decide

theorem text_inj {s s' : Symbol} (h : s.text.toList = s'.text.toList) : s = s' := by
  have hinj : ∀ s ∈ all, ∀ s' ∈ all, s.text.toList = s'.text.toList → s = s' := by decide
  exact hinj s s.mem_all s' s'.mem_all h

/-- The sign that is found is the longest one, since the longer ones are tried first. -/
theorem front?_eq_some {cs : List Char} {s : Symbol} (h : front? cs = some s) :
    s.text.toList <+: cs ∧
      ∀ s' : Symbol, s'.text.toList <+: cs → s'.text.toList.length ≤ s.text.toList.length := by
  have hsorted : all.Pairwise fun a b => b.text.toList.length ≤ a.text.toList.length := by decide
  rcases List.find?_eq_some_iff_append.mp h with ⟨hs, before, after, hall, hbefore⟩
  refine ⟨List.isPrefixOf_iff_prefix.mp hs, fun s' hs' => ?_⟩
  have hmem := s'.mem_all
  rw [hall] at hmem hsorted
  rcases List.mem_append.mp hmem with hmem | hmem
  · -- It was tried before, and does not stand there.
    have hnot := hbefore s' hmem
    rw [List.isPrefixOf_iff_prefix.mpr hs'] at hnot
    exact absurd hnot (by decide)
  · rcases List.mem_cons.mp hmem with rfl | hmem
    · exact Nat.le_refl _
    · exact List.rel_of_pairwise_cons (List.pairwise_append.mp hsorted).2.1 hmem

theorem front?_eq_none {cs : List Char} (h : front? cs = none) (s : Symbol) :
    ¬ s.text.toList <+: cs := by
  intro hs
  exact List.find?_eq_none.mp h s s.mem_all (List.isPrefixOf_iff_prefix.mpr hs)

end Symbol

end Primer
