import Primer.Proofs.Grammar.ReadProgram
import Primer.Proofs.Lexing.Cut
import Primer.Proofs.RoundTrip.Writer

/-!
# Programs That Have a Source Text

Which programs can be read from a source text at all. There are two kinds of conditions.
The names and constants of the program have to have a spelling: there is no literal for a
negative number, for instance, since a sign in front of a number is an operator. And the
program has to have a shape that the grammar can give: lists of names are not empty, and
no operand needs parentheses that it does not have.

Both kinds are necessary, and that is shown here. The conditions on names and constants are
conditions on tokens, and a token that is cut from a text satisfies them because of the rule
that it was cut by. For names and texts it matters that other rules are preferred to theirs:
a keyword is not cut as a name. From the tokens the conditions go over to the program along
its grammar. The same is shown for the tokens that an expressible program is written
with, so that what is said of tokens in a text can be used on both sides.

## Main definitions

* `IsName`: A text that is a name.
* `Literal.Expressible`: A constant with a spelling.
* `Expr.Expressible`, `Declarator.Expressible`, `Statement.Expressible`, `Program.Expressible`:
  A construct that a source text can have.
* `Token.Writable`: A token that can be cut from a text.

## Theorems

* `Lexing.Match.Valid.writable`: The rules give no other tokens.
* `Program.writable_of_expressible`: An expressible program is written with such tokens.
* `Program.expressible_of_ofSource`: A program that has been read is expressible.
-/

namespace Primer

/-- A text that is a name: a letter or `_`, followed by letters, digits and `_`, and no fixed
    word. -/
structure IsName (name : String) : Prop where
  shape : name.toList ∈ Lexing.Rule.language .identifier
  ne_keyword : ∀ k : Keyword, k.word ≠ name
  ne_type : ∀ t : DataType, t.name ≠ name

namespace Literal

/-- A constant that has a spelling. -/
def Expressible : Literal → Prop
  | .int n => 0 ≤ n
  | .float x => ∃ w ∈ Lexing.Rule.language .real, Binary32.ofText? (String.ofList w) = some x
  | .bool _ => True
  | .char c => c ≠ '\'' ∧ c ≠ '\n'
  | .string s => (∀ c ∈ s.toList, c ≠ '"' ∧ c ≠ '\n') ∧ s ≠ "TRUE" ∧ s ≠ "FALSE"

end Literal

namespace Token

/-- A token that can be cut from a text. -/
def Writable : Token → Prop
  | .literal v => v.Expressible
  | .escape c => c ≠ '\n'
  | .identifier name => IsName name
  | _ => True

end Token

namespace Expr

/-- Every name and constant in the expression has a spelling. -/
def Spellable : Expr → Prop
  | .literal _ v => v.Expressible
  | .var _ name => IsName name
  | .signed _ _ e => e.Spellable
  | .arith _ _ l r => l.Spellable ∧ r.Spellable
  | .compare _ _ l r => l.Spellable ∧ r.Spellable
  | .connect _ _ l r => l.Spellable ∧ r.Spellable
  | .concat _ l r => l.Spellable ∧ r.Spellable
  | .paren _ e => e.Spellable
  | .not _ e => e.Spellable
  | .escape _ c => c ≠ '\n'
  | .newline _ => True

/-- An expression that a source text can have. -/
def Expressible (e : Expr) : Prop :=
  e.Layered ∧ e.Spellable

end Expr

namespace Declarator

/-- A declared name that a source text can have. -/
def Expressible (d : Declarator) : Prop :=
  IsName d.name ∧ ∀ e ∈ d.initializer, e.Expressible

end Declarator

namespace Statement

mutual

/-- A statement that a source text can have. -/
def Expressible : Statement → Prop
  | .declare _ _ ds => ds ≠ [] ∧ ∀ d ∈ ds, d.Expressible
  | .assign _ names e => names ≠ [] ∧ (∀ name ∈ names, IsName name) ∧ e.Expressible
  | .choose _ first others otherwise =>
      BranchExpressible first ∧ OthersExpressible others ∧ OtherwiseExpressible otherwise
  | .loop _ guard body => guard.Expressible ∧ AllExpressible body
  | .loopAfter _ body guard => AllExpressible body ∧ guard.Expressible
  | .display _ e => e.Expressible
  | .scan _ names => names ≠ [] ∧ ∀ name ∈ names, IsName name

/-- A branch that a source text can have. -/
def BranchExpressible : Branch → Prop
  | ⟨_, guard, body⟩ => guard.Expressible ∧ AllExpressible body

/-- Branches that a source text can have. -/
def OthersExpressible : List Branch → Prop
  | [] => True
  | b :: bs => BranchExpressible b ∧ OthersExpressible bs

/-- A last body of a choice that a source text can have. -/
def OtherwiseExpressible : Option (List Statement) → Prop
  | none => True
  | some body => AllExpressible body

/-- Statements that a source text can have. -/
def AllExpressible : List Statement → Prop
  | [] => True
  | st :: sts => Expressible st ∧ AllExpressible sts

end

end Statement

namespace Program

/-- A program that a source text can have. -/
def Expressible (p : Program) : Prop :=
  Statement.AllExpressible p.statements

end Program

section Cutting

open Lexing

variable {m : Match} {t : Token}

/-- A token that a rule gives is writable. -/
theorem Lexing.Match.Valid.writable (h : m.Valid) (hrange : m.InRange)
    (ht : m.token? = some t) : t.Writable := by
  rcases m with ⟨rule, w⟩
  have hw := h.mem
  have hpreferred := h.preferred
  cases rule with
  | real =>
      rcases Option.map_eq_some_iff.mp ht with ⟨x, hx, rfl⟩
      exact ⟨w, hw, hx⟩
  | integer =>
      rcases Option.some.inj ht with rfl
      have hle : Nat.ofDigitChars 10 w 0 ≤ 2147483647 := hrange rfl
      have hvalue : (Int32.ofNat (Nat.ofDigitChars 10 w 0)).toInt = Nat.ofDigitChars 10 w 0 :=
        Int32.toInt_ofNat_of_lt (by omega)
      show 0 ≤ Int32.ofNat (Nat.ofDigitChars 10 w 0)
      rw [Int32.le_iff_toInt_le, hvalue]
      exact Int.natCast_nonneg _
  | character =>
      rcases Rule.mem_character.mp hw with ⟨c, hquote, hline, rfl⟩
      rcases Option.some.inj ht with rfl
      exact ⟨hquote, hline⟩
  | text =>
      rcases Rule.mem_text.mp hw with ⟨body, hbody, rfl⟩
      have hinner : (('"' :: (body ++ ['"'])).drop 1).dropLast = body := by
        rw [List.drop_one, List.tail_cons, List.dropLast_concat]
      have hs : t = .literal (.string (String.ofList body)) := by
        have hsome := Option.some.inj ht
        rw [hinner] at hsome
        exact hsome.symm
      -- For the names of the truth values another rule is preferred.
      have htruth : ∀ (value : Bool) (name : String), '"' :: (name.toList ++ ['"']) ∈
          Rule.language (.truth value) → String.ofList body ≠ name := by
        rintro value name hmem rfl
        rw [String.toList_ofList] at hmem
        rcases hpreferred _ hmem with hrule | hbeats
        · cases hrule
        · exact hbeats
      rw [hs]
      refine ⟨?_, htruth true "TRUE" rfl, htruth false "FALSE" rfl⟩
      rw [String.toList_ofList]
      exact hbody
  | escape =>
      rcases Rule.mem_escape.mp hw with ⟨c, hline, rfl⟩
      rcases Option.some.inj ht with rfl
      exact hline
  | identifier =>
      rcases Option.some.inj ht with rfl
      -- For the fixed words another rule is preferred.
      have hfixed : ∀ (rule : Rule) (word : String), rule.language = exactly word →
          ¬ Rule.identifier.Beats rule → rule ≠ .identifier → word ≠ String.ofList w := by
        rintro rule word hrule hbeats hne rfl
        have hmem : w ∈ rule.language := by
          rw [hrule, mem_exactly, String.toList_ofList]
        rcases hpreferred rule hmem with heq | hbeats'
        · exact hne heq
        · exact hbeats hbeats'
      refine ⟨?_, fun k => hfixed (.keyword k) _ rfl id nofun,
        fun t => hfixed (.type t) _ rfl id nofun⟩
      rw [String.toList_ofList]
      exact hw
  | truth value => rcases Option.some.inj ht with rfl; exact trivial
  | symbol sign => rcases Option.some.inj ht with rfl; exact trivial
  | keyword k => rcases Option.some.inj ht with rfl; exact trivial
  | type t => rcases Option.some.inj ht with rfl; exact trivial
  | lineBreak => rcases Option.some.inj ht with rfl; exact trivial
  | comment => cases ht
  | blanks => cases ht

/-- Every token that is cut from a text is writable. -/
theorem Lexeme.writable_of_ofSource {source : String} {ls : List Lexeme}
    (h : Lexeme.ofSource source = .ok ls) : ∀ l ∈ ls, l.token.Writable := by
  rcases ofSource_cases source with
    ⟨ms, rest, hcut, ⟨-, hrange, hok⟩ | ⟨us, m, vs, -, -, -, herror⟩ | ⟨-, -, shown, -, herror⟩⟩
  · rw [hok] at h
    rcases Except.ok.inj h with rfl
    intro l hl
    have htoken : l.token ∈ ms.filterMap Match.token? := by
      rw [← map_token_lexemesFrom []]
      exact List.mem_map_of_mem hl
    rcases List.mem_filterMap.mp htoken with ⟨m, hm, ht⟩
    exact (hcut.valid m hm).writable (hrange m hm) ht
  · rw [herror] at h
    cases h
  · rw [herror] at h
    cases h

end Cutting

section Reading

variable {ls : List Lexeme}

theorem Expr.Spelled.spellable {e : Expr} (h : e.Spelled ls)
    (hls : ∀ l ∈ ls, l.token.Writable) : e.Spellable := by
  have hjoin : ∀ {l r : Expr} {o : Lexeme} {ls rs : List Lexeme},
      ((∀ l ∈ ls, l.token.Writable) → l.Spellable) →
      ((∀ l ∈ rs, l.token.Writable) → r.Spellable) →
      (∀ l ∈ ls ++ o :: rs, l.token.Writable) → l.Spellable ∧ r.Spellable := by
    intro l r o ls rs ihl ihr hls
    rcases List.forall_mem_append.mp hls with ⟨hleft, hright⟩
    exact ⟨ihl hleft, ihr (List.forall_mem_cons.mp hright).2⟩
  induction h with
  | literal pos v => exact hls _ List.mem_cons_self
  | var pos name => exact hls _ List.mem_cons_self
  | newline pos => exact trivial
  | escape pos c => exact hls _ List.mem_cons_self
  | paren pos close h ih =>
      exact ih (List.forall_mem_append.mp (List.forall_mem_cons.mp hls).2).1
  | signed pos sign h ih => exact ih (List.forall_mem_cons.mp hls).2
  | not pos h ih => exact ih (List.forall_mem_cons.mp hls).2
  | arith pos op hl hr ihl ihr => exact hjoin ihl ihr hls
  | compare pos op hl hr ihl ihr => exact hjoin ihl ihr hls
  | connect pos op hl hr ihl ihr => exact hjoin ihl ihr hls
  | concat pos hl hr ihl ihr => exact hjoin ihl ihr hls

theorem Expr.Written.expressible {e : Expr} (h : e.Written ls)
    (hls : ∀ l ∈ ls, l.token.Writable) : e.Expressible :=
  ⟨h.1, h.2.spellable hls⟩

theorem Expr.Enclosed.expressible {e : Expr} (h : e.Enclosed ls)
    (hls : ∀ l ∈ ls, l.token.Writable) : e.Expressible := by
  rcases h with ⟨opening, close, h⟩
  exact h.expressible (List.forall_mem_append.mp (List.forall_mem_cons.mp hls).2).1

theorem Declarator.Written.expressible {d : Declarator} (h : d.Written ls)
    (hls : ∀ l ∈ ls, l.token.Writable) : d.Expressible := by
  cases h with
  | bare pos name => exact ⟨hls _ List.mem_cons_self, nofun⟩
  | initialized pos name sign h =>
      rcases List.forall_mem_cons.mp hls with ⟨hname, hrest⟩
      refine ⟨hname, fun e he => ?_⟩
      rcases Option.some.inj he with rfl
      exact h.expressible (List.forall_mem_cons.mp hrest).2

/-- What holds of each item because of its lexemes holds of items with commas between
    them. -/
theorem Separated.forall_of_writable {α : Type} {item : α → List Lexeme → Prop} {P : α → Prop}
    (hitem : ∀ x ls, item x ls → (∀ l ∈ ls, l.token.Writable) → P x) {xs : List α}
    (h : Separated item xs ls) (hls : ∀ l ∈ ls, l.token.Writable) : xs ≠ [] ∧ ∀ x ∈ xs, P x := by
  induction h with
  | one h => exact ⟨List.cons_ne_nil _ _, List.forall_mem_singleton.mpr (hitem _ _ h hls)⟩
  | more comma h hrest ih =>
      rcases List.forall_mem_append.mp hls with ⟨hfirst, hothers⟩
      refine ⟨List.cons_ne_nil _ _, List.forall_mem_cons.mpr ⟨hitem _ _ h hfirst, ?_⟩⟩
      exact (ih (List.forall_mem_cons.mp hothers).2).2

namespace Statement

theorem Targets.forall_isName {names : List String} (h : Targets names ls)
    (hls : ∀ l ∈ ls, l.token.Writable) : ∀ name ∈ names, IsName name := by
  induction h with
  | nil => exact nofun
  | cons pos sign h ih =>
      rcases List.forall_mem_cons.mp hls with ⟨hname, hrest⟩
      exact List.forall_mem_cons.mpr ⟨hname, ih (List.forall_mem_cons.mp hrest).2⟩

theorem NameWritten.isName {name : String} (h : NameWritten name ls)
    (hls : ∀ l ∈ ls, l.token.Writable) : IsName name := by
  rcases h with ⟨pos, rfl⟩
  exact hls _ List.mem_cons_self

mutual

theorem Written.expressible {ls : List Lexeme} :
    ∀ {st : Statement}, st.Written ls → (∀ l ∈ ls, l.token.Writable) → st.Expressible
  | _, .declare pos type h, hls =>
      h.forall_of_writable (P := Declarator.Expressible)
        (fun _ _ => Declarator.Written.expressible) (List.forall_mem_cons.mp hls).2
  | _, .assign pos sign ht he, hls => by
      rcases List.forall_mem_cons.mp hls with ⟨hname, hrest⟩
      rcases List.forall_mem_append.mp (List.forall_mem_cons.mp hrest).2 with ⟨htargets, hvalue⟩
      refine ⟨List.cons_ne_nil _ _, List.forall_mem_cons.mpr ⟨hname, ?_⟩, he.expressible hvalue⟩
      exact ht.forall_isName htargets
  | _, .display pos colon h, hls =>
      h.expressible (List.forall_mem_cons.mp (List.forall_mem_cons.mp hls).2).2
  | _, .scan pos colon h, hls =>
      h.forall_of_writable (P := IsName) (fun _ _ => NameWritten.isName)
        (List.forall_mem_cons.mp (List.forall_mem_cons.mp hls).2).2
  | _, .choose hfirst hothers helse, hls => by
      rcases List.forall_mem_append.mp hls with ⟨hf, hrest⟩
      rcases List.forall_mem_append.mp hrest with ⟨ho, he⟩
      exact ⟨hfirst.expressible hf, hothers.expressible ho, helse.expressible he⟩
  | _, .loop pos hguard hbody, hls => by
      rcases List.forall_mem_append.mp (List.forall_mem_cons.mp hls).2 with ⟨hg, hb⟩
      exact ⟨hguard.expressible hg, hbody.expressible hb⟩
  | _, .loopAfter pos word hbody hn hguard, hls => by
      rcases List.forall_mem_append.mp (List.forall_mem_cons.mp hls).2 with ⟨hb, hrest⟩
      have hg := (List.forall_mem_append.mp hrest).2
      exact ⟨hbody.expressible hb, hguard.expressible (List.forall_mem_cons.mp hg).2⟩

theorem BranchWritten.expressible {ls : List Lexeme} :
    ∀ {b : Branch}, BranchWritten b ls → (∀ l ∈ ls, l.token.Writable) → BranchExpressible b
  | _, .mk pos hguard hbody, hls => by
      rcases List.forall_mem_append.mp (List.forall_mem_cons.mp hls).2 with ⟨hg, hb⟩
      exact ⟨hguard.expressible hg, hbody.expressible hb⟩

theorem OthersWritten.expressible {ls : List Lexeme} :
    ∀ {bs : List Branch}, OthersWritten bs ls → (∀ l ∈ ls, l.token.Writable) →
      OthersExpressible bs
  | _, .nil, _ => trivial
  | _, .cons word hn hb hbs, hls => by
      have hrest := (List.forall_mem_append.mp hls).2
      rcases List.forall_mem_append.mp (List.forall_mem_cons.mp hrest).2 with ⟨hfirst, hothers⟩
      exact ⟨hb.expressible hfirst, hbs.expressible hothers⟩

theorem OtherwiseWritten.expressible {ls : List Lexeme} :
    ∀ {body : Option (List Statement)}, OtherwiseWritten body ls →
      (∀ l ∈ ls, l.token.Writable) → OtherwiseExpressible body
  | _, .none, _ => trivial
  | _, .some word hn hbody, hls => by
      have hrest := (List.forall_mem_append.mp hls).2
      exact hbody.expressible (List.forall_mem_cons.mp hrest).2

theorem Framed.expressible {frame : Keyword} {ls : List Lexeme} :
    ∀ {body : List Statement}, Framed frame body ls → (∀ l ∈ ls, l.token.Writable) →
      AllExpressible body
  | _, .mk _ opening word line closing word' hn h, hls => by
      have hrest := (List.forall_mem_append.mp hls).2
      simp only [List.forall_mem_cons, List.forall_mem_append] at hrest
      exact h.expressible hrest.2.2.2.1

theorem Listed.expressible {ls : List Lexeme} :
    ∀ {sts : List Statement}, Listed sts ls → (∀ l ∈ ls, l.token.Writable) → AllExpressible sts
  | _, .mk _ h, hls => h.expressible (List.forall_mem_append.mp hls).2

theorem Lines.expressible {ls : List Lexeme} :
    ∀ {sts : List Statement}, Lines sts ls → (∀ l ∈ ls, l.token.Writable) → AllExpressible sts
  | _, .nil, _ => trivial
  | _, .cons hst hn hne hsts, hls => by
      rcases List.forall_mem_append.mp hls with ⟨hfirst, hrest⟩
      exact ⟨hst.expressible hfirst, hsts.expressible (List.forall_mem_append.mp hrest).2⟩

end

end Statement

end Reading

section Writing

theorem Expr.writable_of_spellable {e : Expr} (h : e.Spellable) : ∀ t ∈ e.tokens, t.Writable := by
  have hjoin : ∀ {o : Token} {ts us : List Token}, (∀ t ∈ ts, t.Writable) → o.Writable →
      (∀ t ∈ us, t.Writable) → ∀ t ∈ ts ++ o :: us, t.Writable := fun hts ho hus =>
    List.forall_mem_append.mpr ⟨hts, List.forall_mem_cons.mpr ⟨ho, hus⟩⟩
  induction e with
  | literal pos v => exact List.forall_mem_singleton.mpr h
  | var pos name => exact List.forall_mem_singleton.mpr h
  | newline pos => exact List.forall_mem_singleton.mpr trivial
  | escape pos c => exact List.forall_mem_singleton.mpr h
  | paren pos e ih => exact List.forall_mem_cons.mpr ⟨trivial, hjoin (ih h) trivial nofun⟩
  | signed pos sign e ih =>
      exact List.forall_mem_cons.mpr ⟨by cases sign <;> exact trivial, ih h⟩
  | not pos e ih => exact List.forall_mem_cons.mpr ⟨trivial, ih h⟩
  | arith pos op l r ihl ihr =>
      exact hjoin (ihl h.1) (by cases op <;> exact trivial) (ihr h.2)
  | compare pos op l r ihl ihr =>
      exact hjoin (ihl h.1) (by cases op <;> exact trivial) (ihr h.2)
  | connect pos op l r ihl ihr =>
      exact hjoin (ihl h.1) (by cases op <;> exact trivial) (ihr h.2)
  | concat pos l r ihl ihr => exact hjoin (ihl h.1) trivial (ihr h.2)

theorem Expr.writable_enclosed {e : Expr} (h : e.Expressible) : ∀ t ∈ e.enclosed, t.Writable := by
  refine List.forall_mem_cons.mpr ⟨trivial, List.forall_mem_append.mpr ⟨?_, ?_⟩⟩
  · exact writable_of_spellable h.2
  · exact List.forall_mem_singleton.mpr trivial

theorem Declarator.writable_of_expressible {d : Declarator} (h : d.Expressible) :
    ∀ t ∈ d.tokens, t.Writable := by
  rcases d with ⟨pos, name, initializer⟩
  cases initializer with
  | none => exact List.forall_mem_singleton.mpr h.1
  | some e =>
      refine List.forall_mem_cons.mpr ⟨h.1, List.forall_mem_cons.mpr ⟨trivial, ?_⟩⟩
      exact Expr.writable_of_spellable (h.2 e rfl).2

theorem writable_separated {α : Type} {item : α → List Token} {xs : List α}
    (h : ∀ x ∈ xs, ∀ t ∈ item x, t.Writable) : ∀ t ∈ separated item xs, t.Writable := by
  fun_induction separated item xs with
  | case1 => exact nofun
  | case2 x => exact h x List.mem_cons_self
  | case3 x xs _ ih =>
      rcases List.forall_mem_cons.mp h with ⟨hx, hxs⟩
      exact List.forall_mem_append.mpr ⟨hx, List.forall_mem_cons.mpr ⟨trivial, ih hxs⟩⟩

theorem writable_framed {frame : Keyword} {lines : List Token}
    (h : ∀ t ∈ lines, t.Writable) : ∀ t ∈ framed frame lines, t.Writable := by
  simp only [framed, List.forall_mem_cons, List.forall_mem_append]
  exact ⟨trivial, trivial, trivial, trivial, h, trivial, trivial, nofun⟩

namespace Statement

theorem writable_targetTokens {names : List String} (h : ∀ name ∈ names, IsName name) :
    ∀ t ∈ targetTokens names, t.Writable := by
  intro t ht
  rcases List.mem_flatMap.mp ht with ⟨name, hname, ht⟩
  have htarget : ∀ t ∈ [Token.identifier name, .symbol .assign], t.Writable :=
    List.forall_mem_cons.mpr ⟨h name hname, List.forall_mem_singleton.mpr trivial⟩
  exact htarget t ht

-- The induction is on the statement; its conditions are those of its parts.
mutual

theorem writable_of_expressible :
    ∀ {st : Statement}, st.Expressible → ∀ t ∈ st.tokens, t.Writable
  | .declare _ type ds, h => by
      rw [tokens]
      refine List.forall_mem_cons.mpr ⟨trivial, writable_separated fun d hd => ?_⟩
      exact Declarator.writable_of_expressible (h.2 d hd)
  | .assign _ names e, h => by
      rw [tokens]
      refine List.forall_mem_append.mpr ⟨writable_targetTokens h.2.1, ?_⟩
      exact Expr.writable_of_spellable h.2.2.2
  | .choose _ first others otherwise, h => by
      rw [tokens]
      refine List.forall_mem_append.mpr ⟨writable_branchTokens h.1, ?_⟩
      exact List.forall_mem_append.mpr
        ⟨writable_othersTokens h.2.1, writable_otherwiseTokens h.2.2⟩
  | .loop _ guard body, h => by
      rw [tokens]
      refine List.forall_mem_cons.mpr ⟨trivial, List.forall_mem_append.mpr ⟨?_, ?_⟩⟩
      · exact Expr.writable_enclosed h.1
      · exact writable_framed (writable_linesTokens h.2)
  | .loopAfter _ body guard, h => by
      rw [tokens]
      refine List.forall_mem_cons.mpr ⟨trivial, List.forall_mem_append.mpr ⟨?_, ?_⟩⟩
      · exact writable_framed (writable_linesTokens h.1)
      · refine List.forall_mem_cons.mpr ⟨trivial, List.forall_mem_cons.mpr ⟨trivial, ?_⟩⟩
        exact Expr.writable_enclosed h.2
  | .display _ e, h => by
      rw [tokens]
      refine List.forall_mem_cons.mpr ⟨trivial, List.forall_mem_cons.mpr ⟨trivial, ?_⟩⟩
      exact Expr.writable_of_spellable h.2
  | .scan _ names, h => by
      rw [tokens]
      refine List.forall_mem_cons.mpr ⟨trivial, List.forall_mem_cons.mpr ⟨trivial, ?_⟩⟩
      refine writable_separated fun name hname => List.forall_mem_singleton.mpr ?_
      exact h.2 name hname

theorem writable_branchTokens :
    ∀ {b : Branch}, BranchExpressible b → ∀ t ∈ branchTokens b, t.Writable
  | ⟨_, guard, body⟩, h => by
      rw [branchTokens]
      refine List.forall_mem_cons.mpr ⟨trivial, List.forall_mem_append.mpr ⟨?_, ?_⟩⟩
      · exact Expr.writable_enclosed h.1
      · exact writable_framed (writable_linesTokens h.2)

theorem writable_othersTokens :
    ∀ {bs : List Branch}, OthersExpressible bs → ∀ t ∈ othersTokens bs, t.Writable
  | [], _ => nofun
  | b :: bs, h => by
      rw [othersTokens]
      refine List.forall_mem_cons.mpr ⟨trivial, List.forall_mem_cons.mpr ⟨trivial, ?_⟩⟩
      exact List.forall_mem_append.mpr ⟨writable_branchTokens h.1, writable_othersTokens h.2⟩

theorem writable_otherwiseTokens :
    ∀ {body : Option (List Statement)}, OtherwiseExpressible body →
      ∀ t ∈ otherwiseTokens body, t.Writable
  | none, _ => nofun
  | some body, h => by
      rw [otherwiseTokens]
      refine List.forall_mem_cons.mpr ⟨trivial, List.forall_mem_cons.mpr ⟨trivial, ?_⟩⟩
      exact writable_framed (writable_linesTokens h)

theorem writable_linesTokens :
    ∀ {sts : List Statement}, AllExpressible sts → ∀ t ∈ linesTokens sts, t.Writable
  | [], _ => nofun
  | st :: sts, h => by
      rw [linesTokens]
      refine List.forall_mem_append.mpr ⟨writable_of_expressible h.1, ?_⟩
      exact List.forall_mem_cons.mpr ⟨trivial, writable_linesTokens h.2⟩

end

end Statement

end Writing

namespace Program

/-- A program is written with tokens that can be cut from a text. -/
theorem writable_of_expressible {p : Program} (h : p.Expressible) :
    ∀ t ∈ p.tokens, t.Writable := by
  simp only [tokens, List.forall_mem_cons, List.forall_mem_append]
  exact ⟨trivial, trivial, trivial, Statement.writable_linesTokens h, trivial, trivial, trivial,
    nofun⟩

theorem Written.expressible {p : Program} {ls : List Lexeme} (h : p.Written ls)
    (hls : ∀ l ∈ ls, l.token.Writable) : p.Expressible := by
  rcases h with ⟨pos, word, closing, word', hn, h, hn'⟩
  have hrest := (List.forall_mem_append.mp hls).2
  simp only [List.forall_mem_cons, List.forall_mem_append] at hrest
  exact h.expressible hrest.2.2.1

/-- A program that has been read is expressible. -/
theorem expressible_of_ofSource {source : String} {p : Program} (h : ofSource source = .ok p) :
    p.Expressible := by
  unfold ofSource at h
  cases hcut : Lexeme.ofSource source with
  | error e =>
      rw [hcut] at h
      cases h
  | ok ls =>
      rw [hcut] at h
      exact (ofLexemes_eq_ok.mp h).expressible (Lexeme.writable_of_ofSource hcut)

end Program

end Primer
