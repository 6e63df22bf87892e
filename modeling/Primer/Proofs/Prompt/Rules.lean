import Mathlib.Computability.Language
import Primer.Proofs.Grammar.Steps

/-!
# Parsers That Fail at Once

A parser that meets a wrong lexeme should say so there and then: the lexemes in front of it
can still be continued to something acceptable, and the lexemes behind it are not looked
at. Both are properties of a single run, but the second one compares it with other runs,
on lists that have the same beginning. And since the parsers carry a bound on the number
of lexemes, the other run may be one of the same parser with another bound.

`Settled` says all this of one answer of a parser. There are three kinds of answers, and
what is asked of an answer depends on its kind.

* The parser took some lexemes. They are a word of a language, and the parser takes the same
  lexemes on any list that begins with them and goes on in the same way, as far as the
  parser looks ahead.
* The parser refused a lexeme. Those in front of it begin a word of the language, and the
  parser refuses the lexeme with the same words whatever stands behind it.
* The lexemes came to an end. Then all of them begin a word of the language.

A parser may be content with the end of the text where the grammar is not. So in the first
case, if nothing is left, what was taken need only begin a word of the language. This is
`Taken`.

How far a parser looks ahead is one of two things. Most look at the next lexeme only. A
choice looks for an `ELSE` behind any number of line breaks. This is the reason
for the side conditions in the rule for two parsers in order: where the second one stops or
fails, the first one must have seen enough.

## Main definitions

* `Parser.answer`: What a parser finds.
* `Parser.Viable`: Some lexemes begin a word of a language.
* `Parser.Taken`: Some lexemes are a word of a language, or could become one at the end.
* `Parser.written`, `Parser.token`: The languages that the others are made of.
* `Parser.Outlook`: How far a parser looks ahead.
* `Parser.Settled`: An answer is due to the lexemes up to where it was found.
* `Parser.Prompt`: All answers on lists up to a length are.

## Theorems

* `Parser.Settled.bind_of`, `Parser.Settled.bind`, `Parser.Prompt.bind`: Two parsers in
  order.
* `Parser.Settled.append`: A parser that takes given lexemes and goes on as another.
* `Parser.Settled.answer_eq`: Two bounds that are large enough give the same answer.
* `Parser.prompt_expect`, `Parser.settled_takes`: The parsers of a given token.
-/

namespace Primer

namespace Parser

variable {α β : Type}

/-- What a parser finds: a value and the lexemes that are left, or an error. -/
def answer (p : Parser α) (ls : List Lexeme) : Except SourceError (α × List Lexeme) :=
  match p.run ls with
  | .ok x rest => .ok (x, rest)
  | .error e _ => .error e

section Answers

variable {p q : Parser α} {f : α → Parser β} {ls ls' rest : List Lexeme} {x : α}
  {e : SourceError}

theorem answer_of_run (h : p.run ls = .ok x rest) : p.answer ls = .ok (x, rest) := by
  rw [answer, h]

theorem run_of_answer (h : p.answer ls = .ok (x, rest)) : p.run ls = .ok x rest := by
  unfold answer at h
  cases hp : p.run ls with
  | ok y rest' =>
      rw [hp] at h
      cases h
      rfl
  | error e' rest' =>
      rw [hp] at h
      cases h

theorem answer_congr (h : p.run ls = q.run ls') : p.answer ls = q.answer ls' := by
  rw [answer, answer, h]

theorem answer_bind_ok (h : p.answer ls = .ok (x, rest)) :
    (p >>= f).answer ls = (f x).answer rest := by
  unfold answer
  rw [EStateM.run_bind, run_of_answer h]

theorem answer_bind_error (h : p.answer ls = .error e) : (p >>= f).answer ls = .error e := by
  unfold answer at h ⊢
  rw [EStateM.run_bind]
  cases hp : p.run ls with
  | ok y rest' =>
      rw [hp] at h
      cases h
  | error e' rest' =>
      rw [hp] at h
      cases h
      rfl

end Answers

section Words

variable {L M : Language Lexeme} {a b : List Lexeme}

/-- Some lexemes begin a word of the language. -/
def Viable (L : Language Lexeme) (front : List Lexeme) : Prop :=
  ∃ more, front ++ more ∈ L

theorem viable_of_mem (h : a ∈ L) : Viable L a :=
  ⟨[], by rwa [List.append_nil]⟩

theorem Viable.mono (h : Viable L a) (hLM : ∀ w ∈ L, w ∈ M) : Viable M a := by
  rcases h with ⟨more, hmore⟩
  exact ⟨more, hLM _ hmore⟩

theorem Viable.append (h : Viable M b) (hL : ∀ w ∈ M, a ++ w ∈ L) : Viable L (a ++ b) := by
  rcases h with ⟨more, hmore⟩
  exact ⟨more, by rw [List.append_assoc]; exact hL _ hmore⟩

/-- What begins a word can be completed, and then a second word can follow. -/
theorem Viable.mul (ha : Viable L a) (hM : Viable M []) : Viable (L * M) a := by
  rcases ha with ⟨more, hmore⟩
  rcases hM with ⟨w, hw⟩
  exact ⟨more ++ w, Language.mem_mul.mpr ⟨a ++ more, hmore, w, hw, List.append_assoc ..⟩⟩

/-- What was taken is a word of the language. If nothing is left, it need only begin one. -/
def Taken (L : Language Lexeme) (front rest : List Lexeme) : Prop :=
  front ∈ L ∨ rest = [] ∧ Viable L front

theorem Taken.mono {rest : List Lexeme} (h : Taken L a rest) (hLM : ∀ w ∈ L, w ∈ M) :
    Taken M a rest :=
  h.imp (hLM a) fun hend => ⟨hend.1, hend.2.mono hLM⟩

theorem Taken.append {rest : List Lexeme} (h : Taken M b rest) (hL : ∀ w ∈ M, a ++ w ∈ L) :
    Taken L (a ++ b) rest :=
  h.imp (hL b) fun hend => ⟨hend.1, hend.2.append hL⟩

/-- Behind what was taken there is the beginning of a second word. -/
theorem Taken.viable_mul {rest : List Lexeme} (h : Taken L a (b ++ rest)) (hb : Viable M b)
    (hM : Viable M []) : Viable (L * M) (a ++ b) := by
  rcases h with hword | ⟨hnil, ha⟩
  · exact hb.append fun w hw => Language.mem_mul.mpr ⟨a, hword, w, hw, rfl⟩
  · -- Nothing was left, so the second word has not begun.
    rcases List.append_eq_nil_iff.mp hnil with ⟨rfl, -⟩
    rw [List.append_nil]
    exact ha.mul hM

theorem Taken.mul {rest : List Lexeme} (ha : Taken L a (b ++ rest)) (hb : Taken M b rest)
    (hM : Viable M []) : Taken (L * M) (a ++ b) rest := by
  have hviable : Viable M b := hb.elim viable_of_mem And.right
  by_cases hrest : rest = []
  · exact .inr ⟨hrest, ha.viable_mul hviable hM⟩
  · -- Something is left at the end, so both are words.
    rcases ha with hword | ⟨hnil, -⟩
    · rcases hb with hword' | ⟨hnil, -⟩
      · exact .inl (Language.mem_mul.mpr ⟨a, hword, b, hword', rfl⟩)
      · exact absurd hnil hrest
    · exact absurd (List.append_eq_nil_iff.mp hnil).2 hrest

/-- The words that are written for something. -/
def written (W : α → List Lexeme → Prop) : Language Lexeme :=
  {ls | ∃ x, W x ls}

/-- The words of one lexeme with the given token. -/
def token (t : Token) : Language Lexeme :=
  {ls | ∃ pos, ls = [⟨t, pos⟩]}

theorem viable_token (t : Token) : Viable (token t) [] :=
  ⟨[⟨t, .start⟩], .start, rfl⟩

end Words

/-- How far a parser looks ahead: to the next lexeme, or also to the next one that is no
    line break. -/
inductive Outlook where
  | next
  | pastBreaks

/-- Two lists look the same to a parser. -/
def Outlook.Same : Outlook → List Lexeme → List Lexeme → Prop
  | .next, a, b => a.head? = b.head?
  | .pastBreaks, a, b => a.head? = b.head? ∧ (afterBreaks a).head? = (afterBreaks b).head?

namespace Outlook

variable {look : Outlook} {a b : List Lexeme}

theorem Same.refl (look : Outlook) (a : List Lexeme) : look.Same a a := by
  cases look with
  | next => exact rfl
  | pastBreaks => exact ⟨rfl, rfl⟩

theorem Same.head? (h : look.Same a b) : a.head? = b.head? := by
  cases look with
  | next => exact h
  | pastBreaks => exact h.1

theorem head?_append (h : a.head? = b.head?) (front : List Lexeme) :
    (front ++ a).head? = (front ++ b).head? := by
  rw [List.head?_append, List.head?_append, h]

theorem head?_append_cons (front : List Lexeme) (l : Lexeme) (a b : List Lexeme) :
    (front ++ l :: a).head? = (front ++ l :: b).head? :=
  head?_append (a := l :: a) (b := l :: b) rfl front

theorem Same.append (h : look.Same a b) (front : List Lexeme) :
    look.Same (front ++ a) (front ++ b) := by
  cases look with
  | next => exact head?_append h front
  | pastBreaks =>
      refine ⟨head?_append h.1 front, ?_⟩
      induction front with
      | nil => exact h.2
      | cons l front ih =>
          unfold afterBreaks at ih ⊢
          rw [List.cons_append, List.cons_append, List.dropWhile_cons, List.dropWhile_cons]
          split
          · exact ih
          · rfl

end Outlook

/-- An answer on `ls` is due to the lexemes up to where it was found: the parser `q` finds
    the same on every list of at most `m` lexemes that begins in the same way. -/
inductive Settled (L : Language Lexeme) (look : Outlook) (m : Nat) (q : Parser α)
    (ls : List Lexeme) : Except SourceError (α × List Lexeme) → Prop where
  | took (front rest : List Lexeme) (x : α) (hls : ls = front ++ rest)
      (hmem : Taken L front rest)
      (hq : ∀ rest', (front ++ rest').length ≤ m → look.Same rest rest' →
        q.answer (front ++ rest') = .ok (x, rest')) :
      Settled L look m q ls (.ok (x, rest))
  | refused (front : List Lexeme) (l : Lexeme) (rest : List Lexeme) (expected : Expectation)
      (hls : ls = front ++ l :: rest) (hviable : Viable L front)
      (hq : ∀ rest', (front ++ l :: rest').length ≤ m →
        q.answer (front ++ l :: rest') = .error (.unexpected l.token expected l.pos)) :
      Settled L look m q ls (.error (.unexpected l.token expected l.pos))
  | ended (expected : Expectation) (hviable : Viable L ls)
      (hq : ls.length ≤ m → q.answer ls = .error (.endOfInput expected)) :
      Settled L look m q ls (.error (.endOfInput expected))

/-- On lists of at most `n` lexemes every answer of `p` is settled, with respect to the
    answers of `q` on lists of at most `m` lexemes. -/
def Prompt (L : Language Lexeme) (look : Outlook) (n : Nat) (p : Parser α) (m : Nat)
    (q : Parser α) : Prop :=
  ∀ ls : List Lexeme, ls.length ≤ n → Settled L look m q ls (p.answer ls)

section Rules

variable {L M : Language Lexeme} {look : Outlook} {n m m' : Nat} {p p' q q' : Parser α}
  {f g : α → Parser β} {ls : List Lexeme} {r : Except SourceError (α × List Lexeme)}

namespace Settled

theorem mono (h : Settled L look m q ls r) (hLM : ∀ w ∈ L, w ∈ M) : Settled M look m q ls r := by
  cases h with
  | took front rest x hls hmem hq =>
      exact .took front rest x hls (hmem.mono hLM) hq
  | refused front l rest expected hls hviable hq =>
      exact .refused front l rest expected hls (hviable.mono hLM) hq
  | ended expected hviable hq => exact .ended expected (hviable.mono hLM) hq

/-- A parser that looks at the next lexeme only may be taken for one that looks
    farther. -/
theorem farther (h : Settled L .next m q ls r) : Settled L look m q ls r := by
  cases h with
  | took front rest x hls hmem hq =>
      exact .took front rest x hls hmem fun rest' hm hsame => hq rest' hm hsame.head?
  | refused front l rest expected hls hviable hq =>
      exact .refused front l rest expected hls hviable hq
  | ended expected hviable hq => exact .ended expected hviable hq

/-- Only the answers on lists of at most `m` lexemes count. -/
theorem congr (h : Settled L look m q ls r) (hm : m' ≤ m)
    (hq' : ∀ ls', ls'.length ≤ m' → q'.answer ls' = q.answer ls') :
    Settled L look m' q' ls r := by
  cases h with
  | took front rest x hls hmem hq =>
      refine .took front rest x hls hmem fun rest' hrest' hsame => ?_
      rw [hq' _ hrest']
      exact hq rest' (by omega) hsame
  | refused front l rest expected hls hviable hq =>
      refine .refused front l rest expected hls hviable fun rest' hrest' => ?_
      rw [hq' _ hrest']
      exact hq rest' (by omega)
  | ended expected hviable hq =>
      refine .ended expected hviable fun hlen => ?_
      rw [hq' _ hlen]
      exact hq (by omega)

/-- The other parser gives the same answer on the same list. -/
theorem answer_eq (h : Settled L look m q ls r) (hm : ls.length ≤ m) : q.answer ls = r := by
  cases h with
  | took front rest x hls hmem hq =>
      subst hls
      exact hq rest hm (Outlook.Same.refl look rest)
  | refused front l rest expected hls hviable hq =>
      subst hls
      exact hq rest hm
  | ended expected hviable hq => exact hq hm

/-- A parser that takes some given lexemes and then goes on as another one. Which way it
    goes on may depend on the next lexeme. -/
theorem append (pre : List Lexeme) {tail : List Lexeme} {k : Nat}
    (h : Settled M look k q' tail (p'.answer tail))
    (hp : p.answer (pre ++ tail) = p'.answer tail)
    (hq : ∀ tail', (pre ++ tail').length ≤ m → tail.head? = tail'.head? →
      q.answer (pre ++ tail') = q'.answer tail')
    (hk : m ≤ pre.length + k) (hL : ∀ w ∈ M, pre ++ w ∈ L) :
    Settled L look m q (pre ++ tail) (p.answer (pre ++ tail)) := by
  rw [hp]
  -- What is left of `m` after the given lexemes.
  have hlen : ∀ us : List Lexeme, (pre ++ us).length ≤ m → us.length ≤ k := by
    intro us hus
    rw [List.length_append] at hus
    omega
  generalize p'.answer tail = r at h
  cases h with
  | took front rest x hls hmem hq' =>
      subst hls
      refine .took (pre ++ front) rest x (List.append_assoc ..).symm ?_ fun rest' hm hsame => ?_
      · exact hmem.append hL
      · rw [List.append_assoc] at hm ⊢
        rw [hq _ hm (Outlook.head?_append hsame.head? front)]
        exact hq' rest' (hlen _ hm) hsame
  | refused front l rest expected hls hviable hq' =>
      subst hls
      refine .refused (pre ++ front) l rest expected (List.append_assoc ..).symm
        (hviable.append hL) fun rest' hm => ?_
      rw [List.append_assoc] at hm ⊢
      rw [hq _ hm (Outlook.head?_append_cons front l rest rest')]
      exact hq' rest' (hlen _ hm)
  | ended expected hviable hq' =>
      refine .ended expected (hviable.append hL) fun hm => ?_
      rw [hq _ hm rfl]
      exact hq' (hlen _ hm)

/-- A parser that takes the first lexeme and then goes on as another one. -/
theorem cons {l : Lexeme} {tail : List Lexeme} {k : Nat}
    (h : Settled M look k q' tail (p'.answer tail))
    (hp : p.answer (l :: tail) = p'.answer tail)
    (hq : ∀ tail', (l :: tail').length ≤ m → q.answer (l :: tail') = q'.answer tail')
    (hk : m ≤ k + 1) (hL : ∀ w ∈ M, l :: w ∈ L) :
    Settled L look m q (l :: tail) (p.answer (l :: tail)) :=
  h.append [l] hp (fun tail' hm _ => hq tail' hm) (by rw [List.length_singleton]; omega) hL

/-- A parser that goes on as another one, depending on the first lexeme. -/
theorem same (h : Settled L look m q' ls (p'.answer ls)) (hp : p.answer ls = p'.answer ls)
    (hq : ∀ ls', ls'.length ≤ m → ls.head? = ls'.head? → q.answer ls' = q'.answer ls') :
    Settled L look m q ls (p.answer ls) :=
  h.append [] hp hq (by rw [List.length_nil]; omega) fun _ hw => hw

/-- Two parsers in order. Where the second one stops or refuses a lexeme, that has to be
    beyond what the first one looks at, so that the first one takes the same lexemes whatever
    follows. -/
theorem bind_of {sight : Outlook} (hp : Settled L sight m q ls (p.answer ls)) (hM : Viable M [])
    (hf : ∀ x front rest, ls = front ++ rest →
      Settled M look m (g x) rest ((f x).answer rest))
    (hlook : ∀ x front front' rest rest' y, ls = front ++ (front' ++ rest) →
      (f x).answer (front' ++ rest) = .ok (y, rest) → look.Same rest rest' →
      sight.Same (front' ++ rest) (front' ++ rest'))
    (hsight : ∀ x front l rest', (front ++ l :: rest').length ≤ m →
      (∀ more, (front ++ l :: more).length ≤ m →
        ∃ e, (g x).answer (front ++ l :: more) = .error e) →
      ∀ rest, sight.Same (front ++ l :: rest) (front ++ l :: rest')) :
    Settled (L * M) look m (q >>= g) ls ((p >>= f).answer ls) := by
  generalize hr : p.answer ls = r at hp
  cases hp with
  | ended expected hviable hq =>
      rw [answer_bind_error hr]
      exact .ended expected (hviable.mul hM) fun hm => answer_bind_error (hq hm)
  | refused front l rest expected hls hviable hq =>
      rw [answer_bind_error hr]
      exact .refused front l rest expected hls (hviable.mul hM) fun rest' hm =>
        answer_bind_error (hq rest' hm)
  | took front rest x hls hmem hq =>
      subst hls
      rw [answer_bind_ok hr]
      have hnext := hf x front rest rfl
      have htail : ∀ us : List Lexeme, (front ++ us).length ≤ m → us.length ≤ m := by
        intro us hus
        rw [List.length_append] at hus
        omega
      generalize hr' : (f x).answer rest = r' at hnext
      -- In each case the first parser takes the same as before, and then the second one does.
      cases hnext with
      | took front' rest' y hls' hmem' hq' =>
          subst hls'
          refine .took (front ++ front') rest' y (List.append_assoc ..).symm
            (hmem.mul hmem' hM) fun rest'' hm hsame => ?_
          rw [List.append_assoc] at hm ⊢
          rw [answer_bind_ok (hq _ hm (hlook x front front' rest' rest'' y rfl hr' hsame))]
          exact hq' rest'' (htail _ hm) hsame
      | refused front' l rest' expected hls' hviable' hq' =>
          subst hls'
          refine .refused (front ++ front') l rest' expected (List.append_assoc ..).symm
            (hmem.viable_mul hviable' hM) fun rest'' hm => ?_
          rw [List.append_assoc] at hm ⊢
          have hsame := hsight x front' l rest'' (htail _ hm)
            (fun more hmore => ⟨_, hq' more hmore⟩) rest'
          rw [answer_bind_ok (hq _ hm hsame)]
          exact hq' rest'' (htail _ hm)
      | ended expected hviable' hq' =>
          rw [← List.append_nil rest] at hmem
          refine .ended expected (hmem.viable_mul hviable' hM) fun hm => ?_
          rw [answer_bind_ok (hq _ hm (Outlook.Same.refl sight _))]
          exact hq' (htail _ hm)

/-- If the first parser looks at the next lexeme only, whatever the second one refuses is in
    its sight. -/
theorem bind (hp : Settled L .next m q ls (p.answer ls)) (hM : Viable M [])
    (hf : ∀ x front rest, ls = front ++ rest →
      Settled M look m (g x) rest ((f x).answer rest)) :
    Settled (L * M) look m (q >>= g) ls ((p >>= f).answer ls) :=
  hp.bind_of hM hf (fun _ _ front' _ _ _ _ _ hsame => Outlook.head?_append hsame.head? front')
    fun _ front l rest' _ _ rest => Outlook.head?_append_cons front l rest rest'

end Settled

namespace Prompt

theorem mono (h : Prompt L look n p m q) (hLM : ∀ w ∈ L, w ∈ M) : Prompt M look n p m q :=
  fun ls hls => (h ls hls).mono hLM

theorem farther (h : Prompt L .next n p m q) : Prompt L look n p m q :=
  fun ls hls => (h ls hls).farther

theorem within {n' : Nat} (h : Prompt L look n p m q) (hn : n' ≤ n) (hm : m' ≤ m) :
    Prompt L look n' p m' q :=
  fun ls hls => (h ls (by omega)).congr hm fun _ _ => rfl

/-- A parser leaves no more lexemes than it was given. -/
theorem length_le (h : Prompt L look n p m q) (hls : ls.length ≤ n) {x : α} {rest : List Lexeme}
    (hrun : p.run ls = .ok x rest) : rest.length ≤ ls.length := by
  have hsettled := h ls hls
  rw [answer_of_run hrun] at hsettled
  cases hsettled with
  | took front rest x hfront hmem hq =>
      rw [hfront, List.length_append]
      omega

/-- On no lexemes nothing can be refused, so there is a word to read. -/
theorem viable (h : Prompt L look n p m q) : Viable L [] := by
  have hnil := h [] (Nat.zero_le n)
  generalize p.answer [] = r at hnil
  cases hnil with
  | took front rest x hls hmem hq =>
      rcases List.append_eq_nil_iff.mp hls.symm with ⟨rfl, rfl⟩
      exact hmem.elim viable_of_mem And.right
  | refused front l rest expected hls hviable hq =>
      exact absurd (List.append_eq_nil_iff.mp hls.symm).2 (List.cons_ne_nil l rest)
  | ended expected hviable hq => exact hviable

theorem bind [hα : Nonempty α] (hp : Prompt L .next n p m q)
    (hf : ∀ x, Prompt M look n (f x) m (g x)) : Prompt (L * M) look n (p >>= f) m (q >>= g) := by
  rcases hα with ⟨x₀⟩
  intro ls hls
  refine (hp ls hls).bind (hf x₀).viable fun x front rest hrest => hf x rest ?_
  rw [hrest, List.length_append] at hls
  omega

end Prompt

theorem viable_one : Viable (1 : Language Lexeme) [] :=
  ⟨[], Language.nil_mem_one⟩

theorem prompt_pure (x : α) : Prompt 1 look n (pure x) m (pure x) := by
  intro ls _
  exact .took [] ls x rfl (.inl Language.nil_mem_one) fun _ _ _ => rfl

/-- A function of what a parser finds changes neither what it takes nor where it fails. -/
theorem Settled.map (hp : Settled L look m q ls (p.answer ls)) (h : α → β) :
    Settled L look m (q >>= fun x => pure (h x)) ls ((p >>= fun x => pure (h x)).answer ls) := by
  have hpure : ∀ x rest, Settled 1 look m (pure (h x)) rest ((pure (h x) : Parser β).answer rest) :=
    fun x rest => prompt_pure (h x) rest (Nat.le_refl _)
  rw [← mul_one L]
  refine hp.bind_of viable_one (fun x _ rest _ => hpure x rest)
    (fun _ _ front' _ _ _ _ _ hsame => hsame.append front') ?_
  intro x front l rest' hm hfail
  rcases hfail rest' hm with ⟨e, he⟩
  cases he

theorem Prompt.map (hp : Prompt L look n p m q) (h : α → β) :
    Prompt L look n (p >>= fun x => pure (h x)) m (q >>= fun x => pure (h x)) :=
  fun ls hls => (hp ls hls).map h

end Rules

section First

variable {L : Language Lexeme} {look : Outlook} {n m : Nat} {p q : Parser α}
  {f : Bool → Parser α} {l : Lexeme} {ls tail : List Lexeme} {x : α} {t : Token}
  {expected : Expectation}

theorem settled_nil (hp : p.answer [] = .error (.endOfInput expected))
    (hq : q.answer [] = .error (.endOfInput expected)) (hL : Viable L []) :
    Settled L look m q [] (p.answer []) := by
  rw [hp]
  exact .ended expected hL fun _ => hq

/-- A parser that is content with the end of the text. -/
theorem settled_end (hp : p.answer [] = .ok (x, [])) (hq : q.answer [] = .ok (x, []))
    (hL : Viable L []) : Settled L look m q [] (p.answer []) := by
  rw [hp]
  refine .took [] [] x rfl (.inr ⟨rfl, hL⟩) fun rest' _ hsame => ?_
  rw [List.head?_eq_none_iff.mp hsame.head?.symm]
  exact hq

theorem settled_reject
    (hp : p.answer (l :: tail) = .error (.unexpected l.token expected l.pos))
    (hq : ∀ tail', q.answer (l :: tail') = .error (.unexpected l.token expected l.pos))
    (hL : Viable L []) : Settled L look m q (l :: tail) (p.answer (l :: tail)) := by
  rw [hp]
  exact .refused [] l tail expected rfl hL fun tail' _ => hq tail'

theorem settled_take (hp : p.answer (l :: tail) = .ok (x, tail))
    (hq : ∀ tail', q.answer (l :: tail') = .ok (x, tail')) (hL : [l] ∈ L) :
    Settled L look m q (l :: tail) (p.answer (l :: tail)) := by
  rw [hp]
  exact .took [l] tail x rfl (.inl hL) fun tail' _ _ => hq tail'

theorem answer_expect_of_ne (h : l.token ≠ t) (tail : List Lexeme) :
    (expect t expected).answer (l :: tail) = .error (.unexpected l.token expected l.pos) := by
  have hrun : (expect t expected).run (l :: tail) = (reject l expected).run tail := by
    change (if l.token = t then pure l.pos else reject l expected : Parser Position).run tail = _
    rw [if_neg h]
  rw [answer, hrun]
  rfl

theorem prompt_expect : Prompt (token t) look n (expect t expected) m (expect t expected) := by
  intro ls _
  cases ls with
  | nil => exact settled_nil rfl rfl (viable_token t)
  | cons l tail =>
      by_cases h : l.token = t
      · subst h
        exact settled_take (answer_of_run (run_expect_ok.mpr rfl))
          (fun tail' => answer_of_run (run_expect_ok.mpr rfl)) ⟨l.pos, rfl⟩
      · exact settled_reject (answer_expect_of_ne h tail) (answer_expect_of_ne h) (viable_token t)

theorem answer_takes_of_eq (h : l.token = t) (tail : List Lexeme) :
    (takes t >>= f).answer (l :: tail) = (f true).answer tail := by
  refine answer_bind_ok (answer_of_run (run_takes_true.mpr ⟨l.pos, ?_⟩))
  rw [← h]

theorem answer_takes_of_ne (h : front? ls ≠ some t) :
    (takes t >>= f).answer ls = (f false).answer ls :=
  answer_bind_ok (answer_of_run (run_takes_false.mpr ⟨h, rfl⟩))

/-- A parser that goes one way behind a token, and another way without it. -/
theorem settled_takes {M : Language Lexeme} {f g : Bool → Parser α} {k : Nat}
    (htrue : ∀ l tail, ls = l :: tail → l.token = t →
      Settled M look k (g true) tail ((f true).answer tail) ∧ ∀ w ∈ M, l :: w ∈ L)
    (hfalse : Settled L look m (g false) ls ((f false).answer ls)) (hk : m ≤ k + 1) :
    Settled L look m (takes t >>= g) ls ((takes t >>= f).answer ls) := by
  by_cases hfront : front? ls = some t
  · rcases ls with _ | ⟨l, tail⟩
    · cases hfront
    have hl : l.token = t := Option.some.inj hfront
    rcases htrue l tail rfl hl with ⟨hsettled, hword⟩
    exact hsettled.cons (answer_takes_of_eq hl tail) (fun tail' _ => answer_takes_of_eq hl tail')
      hk hword
  · refine hfalse.same (answer_takes_of_ne hfront) fun ls' _ hhead => answer_takes_of_ne ?_
    rw [front?, ← hhead]
    exact hfront

end First

end Parser

end Primer
