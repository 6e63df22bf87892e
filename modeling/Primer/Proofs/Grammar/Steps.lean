import Primer.Parser.Basic

/-!
# The Steps of a Parser

When a basic parser succeeds, and what it has taken then. Each statement is an
equivalence between a successful run and the form of the lexemes it started on, so a
run of a larger parser turns step by step into an equation for its input, and back.

## Theorems

* `Parser.run_bind_ok`: Two parsers in order succeed at a lexeme list in the middle.
* `Parser.run_expect_ok`, `Parser.run_identifier_ok`, `Parser.run_skipBreaks_ok`: The
  basic parsers.
* `Parser.run_takes_true`, `Parser.run_takes_false`: Taking a token if it is there.
* `Parser.run_marked_mark`, `Parser.run_marked_cons`, `Parser.run_marked_operand`: Operators
  in front.
* `Parser.run_chainFrom_join`, `Parser.run_chainFrom_cons`, `Parser.run_chainFrom_stop`:
  Operators in between.
-/

namespace Primer

namespace Parser

variable {α β : Type} {ls rest : List Lexeme}

theorem run_bind_ok {p : Parser α} {f : α → Parser β} {y : β} :
    (p >>= f).run ls = .ok y rest ↔
      ∃ x mid, p.run ls = .ok x mid ∧ (f x).run mid = .ok y rest := by
  rw [EStateM.run_bind]
  constructor
  · intro h
    cases hp : p.run ls with
    | ok x mid => rw [hp] at h; exact ⟨x, mid, rfl, h⟩
    | error e mid => rw [hp] at h; exact absurd h nofun
  · rintro ⟨x, mid, hp, hf⟩
    rw [hp]
    exact hf

theorem run_pure_ok {x y : α} : (pure x : Parser α).run ls = .ok y rest ↔ y = x ∧ rest = ls := by
  rw [EStateM.run_pure]
  constructor
  · intro h
    cases h
    exact ⟨rfl, rfl⟩
  · rintro ⟨rfl, rfl⟩
    rfl

theorem run_get_bind {f : List Lexeme → Parser α} : (get >>= f).run ls = (f ls).run ls := rfl

theorem run_set_bind {ls' : List Lexeme} {f : PUnit → Parser α} :
    (set ls' >>= f).run ls = (f ⟨⟩).run ls' := rfl

theorem run_throw_ne_ok {e : SourceError} {x : α} : (throw e : Parser α).run ls ≠ .ok x rest :=
  nofun

theorem run_reject_ne_ok {found : Lexeme} {expected : Expectation} {x : α} :
    (reject found expected : Parser α).run ls ≠ .ok x rest :=
  nofun

theorem run_next_ok {expected : Expectation} {l : Lexeme} :
    (next expected).run ls = .ok l rest ↔ ls = l :: rest := by
  unfold next
  rw [run_get_bind]
  cases ls with
  | nil => exact ⟨fun h => absurd h nofun, fun h => absurd h nofun⟩
  | cons a tail =>
      constructor
      · intro h
        cases h
        rfl
      · intro h
        cases h
        rfl

theorem run_expect_ok {token : Token} {expected : Expectation} {pos : Position} :
    (expect token expected).run ls = .ok pos rest ↔ ls = ⟨token, pos⟩ :: rest := by
  unfold expect
  rw [run_bind_ok]
  constructor
  · rintro ⟨l, mid, hnext, h⟩
    rw [run_next_ok] at hnext
    split at h
    · rename_i htoken
      rcases run_pure_ok.mp h with ⟨rfl, rfl⟩
      rw [hnext, ← htoken]
    · exact absurd h run_reject_ne_ok
  · intro h
    refine ⟨⟨token, pos⟩, rest, run_next_ok.mpr h, ?_⟩
    rw [if_pos rfl]
    rfl

theorem run_identifier_ok {name : String} {pos : Position} :
    identifier.run ls = .ok (name, pos) rest ↔ ls = ⟨.identifier name, pos⟩ :: rest := by
  unfold identifier
  rw [run_bind_ok]
  constructor
  · rintro ⟨⟨token, pos'⟩, mid, hnext, h⟩
    rw [run_next_ok] at hnext
    cases token with
    | identifier name' =>
        cases h
        exact hnext
    | _ => exact absurd h run_reject_ne_ok
  · intro h
    exact ⟨⟨.identifier name, pos⟩, rest, run_next_ok.mpr h, rfl⟩

theorem run_skipBreaks_ok {u : Unit} : skipBreaks.run ls = .ok u rest ↔ rest = afterBreaks ls := by
  constructor
  · intro h
    cases h
    rfl
  · rintro rfl
    rfl

theorem run_takes_true {token : Token} :
    (takes token).run ls = .ok true rest ↔ ∃ pos, ls = ⟨token, pos⟩ :: rest := by
  unfold takes
  rw [run_get_bind]
  cases ls with
  | nil => exact ⟨fun h => absurd h nofun, fun ⟨_, h⟩ => absurd h nofun⟩
  | cons l tail =>
      constructor
      · intro h
        dsimp only at h
        split at h
        · rename_i htoken
          cases h
          exact ⟨l.pos, by rw [← htoken]⟩
        · exact absurd h nofun
      · rintro ⟨pos, h⟩
        cases h
        dsimp only
        rw [if_pos rfl]
        rfl

theorem run_takes_false {token : Token} :
    (takes token).run ls = .ok false rest ↔ front? ls ≠ some token ∧ rest = ls := by
  unfold takes
  rw [run_get_bind]
  cases ls with
  | nil =>
      constructor
      · intro h
        cases h
        exact ⟨nofun, rfl⟩
      · rintro ⟨-, rfl⟩
        rfl
  | cons l tail =>
      dsimp only
      have hfront : front? (l :: tail) = some l.token := rfl
      by_cases htoken : l.token = token
      · rw [if_pos htoken]
        refine ⟨fun h => absurd h nofun, fun h => ?_⟩
        rw [hfront, htoken] at h
        exact absurd rfl h.1
      · rw [if_neg htoken, run_pure_ok, hfront, Ne, Option.some.injEq]
        exact ⟨fun h => ⟨htoken, h.2⟩, fun h => ⟨rfl, h.2⟩⟩

section Marked

variable {operand : Parser α} {mark? : Lexeme → Option (α → α)}

/-- An operator in front is applied to what is read after it. -/
theorem run_marked_mark {l : Lexeme} {mark : α → α} (hmark : mark? l = some mark) :
    (marked operand mark?).run (l :: ls) =
      (marked operand mark? >>= fun x => pure (mark x)).run ls := by
  unfold marked
  rw [bind_assoc, run_get_bind, run_get_bind]
  simp only [marks, hmark, run_set_bind, bind_assoc, pure_bind, List.foldr_cons]

theorem run_marked_cons {l : Lexeme} {mark : α → α} (hmark : mark? l = some mark) {y : α} :
    (marked operand mark?).run (l :: ls) = .ok y rest ↔
      ∃ x, (marked operand mark?).run ls = .ok x rest ∧ y = mark x := by
  simp only [run_marked_mark hmark, run_bind_ok, run_pure_ok]
  constructor
  · rintro ⟨x, mid, hx, rfl, rfl⟩
    exact ⟨x, hx, rfl⟩
  · rintro ⟨x, hx, rfl⟩
    exact ⟨x, rest, hx, rfl, rfl⟩

/-- Without an operator in front there is only the operand. -/
theorem run_marked_operand (hmark : ∀ l ∈ ls.head?, mark? l = none) :
    (marked operand mark?).run ls = operand.run ls := by
  have hmarks : marks mark? ls = ([], ls) := by
    cases ls with
    | nil => rfl
    | cons l tail => rw [marks, hmark l rfl]
  unfold marked
  rw [run_get_bind, hmarks]
  change (operand >>= fun x => pure x).run ls = operand.run ls
  rw [bind_pure]

end Marked

section Chain

variable {operand : Parser α} {join? : Lexeme → Option (α → α → α)} {left : α}

/-- A chain ends in front of what is no operator of it. -/
theorem run_chainFrom_stop (hjoin : ∀ l ∈ ls.head?, join? l = none) (n : Nat) :
    (chainFrom operand join? n left).run ls = .ok left ls := by
  cases n with
  | zero => rfl
  | succ n =>
      rw [chainFrom, run_get_bind]
      cases ls with
      | nil => rfl
      | cons l tail =>
          dsimp only
          rw [hjoin l rfl]
          rfl

/-- A chain goes on with an operator and an operand. -/
theorem run_chainFrom_join {l : Lexeme} {join : α → α → α} (hjoin : join? l = some join)
    {n : Nat} :
    (chainFrom operand join? (n + 1) left).run (l :: ls) =
      (operand >>= fun right => chainFrom operand join? n (join left right)).run ls := by
  rw [chainFrom, run_get_bind]
  dsimp only
  rw [hjoin]
  rfl

theorem run_chainFrom_cons {l : Lexeme} {join : α → α → α} (hjoin : join? l = some join)
    {n : Nat} {y : α} :
    (chainFrom operand join? (n + 1) left).run (l :: ls) = .ok y rest ↔
      ∃ right mid, operand.run ls = .ok right mid ∧
        (chainFrom operand join? n (join left right)).run mid = .ok y rest := by
  rw [run_chainFrom_join hjoin, run_bind_ok]

end Chain

end Parser

end Primer
