import Primer.Proofs.Grammar.ReadProgram
import Primer.Proofs.Prompt.Expression

/-!
# Statements That Fail at Once

The parser of a single statement is prompt, over whatever prompt parser reads the
statements in its frames.

Most rules of the grammar are a row of parts that are read in order, and being prompt goes
from the parts to the row. Three places ask for more.

* A list with commas and the rest of a choice have no end of their own. What they read
  belongs to a language of what may be added: an item behind a comma to any list, a
  branch behind an `ELSE` to any choice.
* The targets of an assignment are found by looking two lexemes ahead, at a name and
  the sign behind it. If the expression behind the targets fails at its first lexeme,
  that lexeme is no name, because a name is an expression. So the second
  lexeme is never what the failure depends on.
* A choice looks for an `ELSE` behind line breaks, and leaves the line breaks if there is
  none. A statement therefore looks past line breaks, and it is the only thing that
  does.

## Main definitions

* `Parser.breaks`: The words of line breaks.
* `Parser.moreWords`: What can be added to an item of a list with commas.
* `Parser.afterTargets`: Reads targets and then an expression.
* `Parser.choiceWords`: What can be added to the first branch of a choice.

## Theorems

* `Parser.prompt_condition`, `Parser.prompt_framed`, `Parser.prompt_branch`: Conditions,
  frames and branches.
* `Parser.prompt_commaSeparated`: Lists with commas.
* `Parser.prompt_afterTargets`: The targets of an assignment and its expression.
* `Parser.settled_branches`: The rest of a choice.
* `Parser.prompt_single`: Statements.
-/

namespace Primer

namespace Parser

open Statement

variable {α : Type} {look : Outlook} {n m : Nat}

/-- The words of line breaks. -/
def breaks : Language Lexeme :=
  {ls | Breaks ls}

/-- What comes after all line breaks does not begin with one. -/
theorem ne_lineBreak_of_afterBreaks {ls : List Lexeme} :
    ∀ l ∈ (afterBreaks ls).head?, l.token ≠ .lineBreak := by
  intro l hl
  have hhead := List.head?_dropWhile_not (fun l : Lexeme => decide (l.token = .lineBreak)) ls
  unfold afterBreaks at hl
  rw [Option.mem_def.mp hl] at hhead
  exact of_decide_eq_false hhead

theorem prompt_skipBreaks : Prompt breaks look n skipBreaks m skipBreaks := by
  intro ls _
  rcases exists_breaks ls with ⟨nls, hnls, hls⟩
  refine .took nls (afterBreaks ls) () hls (.inl hnls) fun rest' _ hsame => ?_
  refine answer_of_run (run_skipBreaks_ok.mpr ?_)
  rw [afterBreaks_append hnls]
  -- What comes next is the same as before, and that was no line break.
  cases rest' with
  | nil => rfl
  | cons l tail =>
      exact (afterBreaks_cons (ne_lineBreak_of_afterBreaks l hsame.head?) tail).symm

theorem prompt_identifier : Prompt (written PlacedName) look n identifier m identifier := by
  have hviable : Viable (written PlacedName) [] := ⟨_, ("x", .start), rfl⟩
  rintro (_ | ⟨⟨t, pos⟩, tail⟩) _
  · exact settled_nil rfl rfl hviable
  cases t with
  | identifier name => exact settled_take rfl (fun _ => rfl) ⟨(name, pos), rfl⟩
  | _ => exact settled_reject rfl (fun _ => rfl) hviable

theorem prompt_expression (n m : Nat) :
    Prompt (written Expr.Written) .next n (expressionWithin n) m (expressionWithin m) := by
  refine (prompt_expressionWithin n m).mono ?_
  rintro w ⟨e, hlay, -, hsp⟩
  exact ⟨e, hlay, hsp⟩

theorem prompt_condition : Prompt (written Expr.Enclosed) look n (condition n) m (condition m) := by
  refine (prompt_expect.bind fun _ => (prompt_expression n m).bind fun e =>
    prompt_expect.map fun _ => e).mono fun w hw => ?_
  simp only [Language.mem_mul] at hw
  rcases hw with ⟨_, ⟨opening, rfl⟩, _, ⟨els, ⟨e, he⟩, _, ⟨close, rfl⟩, rfl⟩, rfl⟩
  exact ⟨e, .mk opening close he⟩

section Items

variable {shape : α → List Lexeme → Prop} {item item' : Parser α}

/-- What can be added to an item of a list with commas. -/
def moreWords (item : α → List Lexeme → Prop) : Language Lexeme :=
  {ls | ∀ w ∈ written item, w ++ ls ∈ written (Separated item)}

theorem nil_mem_moreWords : [] ∈ moreWords shape := by
  rintro w ⟨x, hx⟩
  rw [List.append_nil]
  exact ⟨[x], .one hx⟩

/-- A comma, another item and whatever can be added to that. -/
theorem comma_mem_moreWords {l : Lexeme} (hl : l.token = .symbol .comma) {w : List Lexeme}
    (hw : w ∈ written shape * moreWords shape) : l :: w ∈ moreWords shape := by
  rcases Language.mem_mul.mp hw with ⟨a, ha, b, hb, rfl⟩
  rcases hb a ha with ⟨xs, hxs⟩
  rintro fls ⟨x, hx⟩
  rcases l with ⟨t, comma⟩
  subst hl
  exact ⟨x :: xs, .more comma hx hxs⟩

/-- The induction is on the items that may still come, as for a chain of operands. -/
theorem settled_moreItems (hitem : Prompt (written shape) .next n item m item') :
    ∀ (c c' m' : Nat) (ls : List Lexeme), ls.length ≤ c → ls.length ≤ n → m' ≤ c' → m' ≤ m →
      Settled (moreWords shape) .next m' (moreItems item' c') ls
        ((moreItems item c).answer ls) := by
  have hstop : ∀ (ls : List Lexeme) (m' : Nat),
      Settled (moreWords shape) .next m' (pure []) ls ((pure [] : Parser (List α)).answer ls) := by
    intro ls m'
    exact .took [] ls [] rfl (.inl nil_mem_moreWords) fun _ _ _ => rfl
  intro c
  induction c with
  | zero =>
      intro c' m' ls hc _ _ _
      rw [List.eq_nil_of_length_eq_zero (Nat.le_zero.mp hc)]
      refine settled_end rfl ?_ (viable_of_mem nil_mem_moreWords)
      cases c' <;> rfl
  | succ c ih =>
      intro c' m' ls hc hn hc' hm'
      -- With at least one item to come in the second run as well.
      have hstep : ∀ c', m' ≤ c' + 1 → Settled (moreWords shape) .next m'
          (moreItems item' (c' + 1)) ls ((moreItems item (c + 1)).answer ls) := by
        intro c' hc'
        refine settled_takes (k := m' - 1) (fun l tail hls hl => ⟨?_, fun w =>
          comma_mem_moreWords hl⟩) (hstop ls m') (by omega)
        subst hls
        rw [List.length_cons] at hc hn
        refine ((hitem tail (by omega)).congr (by omega) fun _ _ => rfl).bind
          (viable_of_mem nil_mem_moreWords) fun x front rest hrest => ?_
        rw [hrest, List.length_append] at hc hn
        exact (ih c' (m' - 1) rest (by omega) (by omega) (by omega) (by omega)).map _
      cases c' with
      | zero =>
          refine (hstep 0 (by omega)).congr (Nat.le_refl m') fun ls' hls' => ?_
          rw [List.eq_nil_of_length_eq_zero (by omega : ls'.length = 0)]
          rfl
      | succ c' => exact hstep c' hc'

theorem prompt_commaSeparated [Nonempty α] (hitem : Prompt (written shape) .next n item m item') :
    Prompt (written (Separated shape)) .next n (commaSeparated n item) m
      (commaSeparated m item') := by
  have hmore : Prompt (moreWords shape) .next n (moreItems item n) m (moreItems item' m) :=
    fun ls hls => settled_moreItems hitem n m m ls hls hls (Nat.le_refl m) (Nat.le_refl m)
  refine (hitem.bind fun x => hmore.map (List.cons x)).mono fun w hw => ?_
  rcases Language.mem_mul.mp hw with ⟨a, ha, b, hb, rfl⟩
  exact hb a ha

end Items

section Declaration

instance : Nonempty Declarator :=
  ⟨⟨.start, "x", none⟩⟩

/-- What can be added to a declared name: nothing, or a sign and an expression. -/
def initialWords : Language Lexeme :=
  {ls | ∀ w ∈ written PlacedName, w ++ ls ∈ written Declarator.Written}

theorem nil_mem_initialWords : [] ∈ initialWords := by
  rintro w ⟨⟨name, pos⟩, rfl⟩
  exact ⟨_, .bare pos name⟩

theorem sign_mem_initialWords {l : Lexeme} (hl : l.token = .symbol .assign) {w : List Lexeme}
    (hw : w ∈ written Expr.Written) : l :: w ∈ initialWords := by
  rcases l with ⟨t, sign⟩
  subst hl
  rcases hw with ⟨e, he⟩
  rintro fls ⟨⟨name, pos⟩, rfl⟩
  exact ⟨_, .initialized pos name sign he⟩

theorem prompt_declarator :
    Prompt (written Declarator.Written) .next n (declarator n) m (declarator m) := by
  refine (prompt_identifier.bind (M := initialWords) fun x ls hls => ?_).mono fun w hw => ?_
  · refine settled_takes (k := m) (fun l tail hcons hl => ⟨?_, fun w =>
      sign_mem_initialWords hl⟩) ?_ (Nat.le_succ m)
    · rw [hcons, List.length_cons] at hls
      exact (prompt_expression n m tail (by omega)).map fun e =>
        (⟨x.2, x.1, some e⟩ : Declarator)
    · exact .took [] ls _ rfl (.inl nil_mem_initialWords) fun _ _ _ => rfl
  · rcases Language.mem_mul.mp hw with ⟨a, ha, b, hb, rfl⟩
    exact hb a ha

end Declaration

section Assignment

/-- Reads targets and then an expression. -/
def afterTargets (make : List String → Expr → α) (bound : Nat) : Parser α := do
  let (more, rest) := targets (← get)
  set rest
  let value ← expressionWithin bound
  return make more value

/-- The words of targets with an expression behind them. -/
def assignedWords : Language Lexeme :=
  {ls | ∃ names tls, Targets names tls ∧ ∃ els ∈ written Expr.Written, ls = tls ++ els}

variable {make : List String → Expr → α} {bound : Nat} {ls ls' : List Lexeme}

theorem answer_afterTargets_cons (name : String) (pos sign : Position) :
    (afterTargets make bound).answer
        (⟨.identifier name, pos⟩ :: ⟨.symbol .assign, sign⟩ :: ls) =
      (afterTargets (fun more value => make (name :: more) value) bound).answer ls :=
  answer_congr rfl

theorem answer_afterTargets_nil (hls : targets ls = ([], ls)) :
    (afterTargets make bound).answer ls =
      (expressionWithin bound >>= fun value => pure (make [] value)).answer ls := by
  refine answer_congr ?_
  unfold afterTargets
  rw [run_get_bind, hls]
  rfl

/-- Whether there is a target depends on two lexemes. -/
theorem targets_eq_nil_of_take (hls : targets ls = ([], ls)) (htake : ls.take 2 = ls'.take 2) :
    targets ls' = ([], ls') := by
  unfold targets
  split
  · rename_i name pos sign rest
    -- Then the other list would begin with the same target.
    rcases ls with _ | ⟨l, _ | ⟨l', tail⟩⟩
    · cases htake
    · cases htake
    · cases htake
      cases hls
  · rfl

theorem take_two_append {front a b : List Lexeme} (hfront : front ≠ []) (h : a.head? = b.head?) :
    (front ++ a).take 2 = (front ++ b).take 2 := by
  rcases front with _ | ⟨l, _ | ⟨l', front⟩⟩
  · exact absurd rfl hfront
  · cases a with
    | nil => rw [List.head?_eq_none_iff.mp h.symm]
    | cons x a =>
        cases b with
        | nil => cases h
        | cons y b =>
            cases h
            rfl
  · rfl

theorem mem_assignedWords_of_written {w : List Lexeme} (hw : w ∈ written Expr.Written) :
    w ∈ assignedWords :=
  ⟨[], [], .nil, w, hw, rfl⟩

/-- A name is an expression. So if an expression fails at its first lexeme, that lexeme is no
    target either. -/
theorem targets_of_refused {l : Lexeme} {f : Expr → Parser α} (hm : 1 ≤ m)
    (hf : ∀ e, ∃ x, (f e).answer [] = .ok (x, []))
    {err : SourceError} (hfail : (expressionWithin m >>= f).answer [l] = .error err)
    (rest : List Lexeme) : targets (l :: rest) = ([], l :: rest) := by
  unfold targets
  split
  · rename_i name pos sign after heq
    cases heq
    have hname : (expressionWithin m).run [⟨.identifier name, pos⟩] = .ok (.var pos name) [] :=
      expressionWithin_complete [_] _ [] hm ⟨trivial, .var pos name⟩ nofun
    rcases hf (.var pos name) with ⟨x, hx⟩
    have hok := (answer_bind_ok (answer_of_run hname)).trans hx
    rw [hfail] at hok
    cases hok
  · rfl

/-- Without a target in front there is only the expression, in any list that begins in the
    same way as far as the expression was read. -/
theorem settled_afterTargets_nil (hlen : ls.length ≤ n) (hls : targets ls = ([], ls)) :
    Settled assignedWords .next m (afterTargets make m) ls ((afterTargets make n).answer ls) := by
  rw [answer_afterTargets_nil hls]
  have hword : ∀ w ∈ written Expr.Written, w ∈ assignedWords :=
    fun w => mem_assignedWords_of_written
  have hvalue := (prompt_expression n m ls hlen).map (make [])
  generalize (expressionWithin n >>= fun value => pure (make [] value)).answer ls = r at hvalue
  cases hvalue with
  | took front rest x hfront hmem hq =>
      refine .took front rest x hfront (hmem.mono hword) fun rest' hm hsame => ?_
      have hnone : targets (front ++ rest') = ([], front ++ rest') := by
        rw [hfront] at hls
        rcases hmem with ⟨e, he⟩ | ⟨hnil, -⟩
        · exact targets_eq_nil_of_take hls (take_two_append he.2.ne_nil hsame)
        · rw [hnil] at hls hsame
          rw [List.head?_eq_none_iff.mp hsame.symm]
          exact hls
      rw [answer_afterTargets_nil hnone]
      exact hq rest' hm hsame
  | refused front l rest expected hfront hviable hq =>
      refine .refused front l rest expected hfront (hviable.mono hword) fun rest' hm => ?_
      have hnone : targets (front ++ l :: rest') = ([], front ++ l :: rest') := by
        rw [hfront] at hls
        by_cases hnil : front = []
        · subst hnil
          rw [List.nil_append, List.length_cons] at hm
          exact targets_of_refused (by omega) (fun e => ⟨make [] e, rfl⟩)
            (hq [] (by rw [List.nil_append, List.length_singleton]; omega)) rest'
        · refine targets_eq_nil_of_take hls (take_two_append hnil ?_)
          rfl
      rw [answer_afterTargets_nil hnone]
      exact hq rest' hm
  | ended expected hviable hq =>
      refine .ended expected (hviable.mono hword) fun hm => ?_
      rw [answer_afterTargets_nil hls]
      exact hq hm

/-- The targets one after the other, and then the expression. -/
theorem prompt_afterTargets (make : List String → Expr → α) :
    Prompt assignedWords .next n (afterTargets make n) m (afterTargets make m) := by
  intro ls
  induction ls using targets.induct generalizing make with
  | case1 name pos sign rest more after htargets ih =>
      intro hls
      simp only [List.length_cons] at hls
      refine (ih (fun more value => make (name :: more) value) (by omega)).append
        [⟨.identifier name, pos⟩, ⟨.symbol .assign, sign⟩] (answer_afterTargets_cons name pos sign)
        (fun _ _ _ => answer_afterTargets_cons name pos sign) (by omega) ?_
      rintro w ⟨names, tls, htls, els, hels, rfl⟩
      exact ⟨name :: names, _, .cons pos sign htls, els, hels, rfl⟩
  | case2 ls hno =>
      intro hls
      refine settled_afterTargets_nil hls ?_
      rw [targets]
      exact hno

theorem prompt_assignment :
    Prompt (written Statement.Written) .next n (assignment n) m (assignment m) := by
  refine (prompt_identifier.bind fun x => prompt_expect.bind fun _ =>
    prompt_afterTargets fun more value => Statement.assign x.2 (x.1 :: more) value).mono
    fun w hw => ?_
  simp only [Language.mem_mul] at hw
  rcases hw with ⟨_, ⟨⟨name, pos⟩, rfl⟩, _, ⟨_, ⟨sign, rfl⟩, _,
    ⟨names, tls, htls, els, ⟨e, he⟩, rfl⟩, rfl⟩, rfl⟩
  rw [List.singleton_append, List.singleton_append]
  exact ⟨_, .assign pos sign htls he⟩

end Assignment

section Frames

variable {body body' : Parser (List Statement)}

instance : Nonempty Branch :=
  ⟨⟨.start, .newline .start, []⟩⟩

theorem prompt_framed (hbody : Prompt (written Listed) .next n body m body') (frame : Keyword) :
    Prompt (written (Framed frame)) look n (framed body frame) m (framed body' frame) := by
  refine (prompt_skipBreaks.bind fun _ => prompt_expect.bind fun _ => prompt_expect.bind fun _ =>
    prompt_expect.bind fun _ => hbody.bind fun sts => prompt_expect.bind fun _ =>
    prompt_expect.map fun _ => sts).mono fun w hw => ?_
  simp only [Language.mem_mul] at hw
  rcases hw with ⟨nls, hnls, _, ⟨_, ⟨opening, rfl⟩, _, ⟨_, ⟨word, rfl⟩, _, ⟨_, ⟨line, rfl⟩, _,
    ⟨ls, ⟨sts, hsts⟩, _, ⟨_, ⟨closing, rfl⟩, _, ⟨word', rfl⟩, rfl⟩, rfl⟩, rfl⟩, rfl⟩, rfl⟩, rfl⟩
  exact ⟨sts, .mk frame opening word line closing word' hnls hsts⟩

/-- What can be added to an `IF` to make it a branch. -/
def branchWords : Language Lexeme :=
  {ls | ∀ pos, ⟨.keyword .ifKw, pos⟩ :: ls ∈ written BranchWritten}

theorem prompt_branch (hbody : Prompt (written Listed) .next n body m body') (pos : Position) :
    Prompt branchWords look n (branch (n + 1) body pos) m (branch (m + 1) body' pos) := by
  have hguard : Prompt (written Expr.Enclosed) .next n (condition (n + 1)) m (condition (m + 1)) :=
    prompt_condition.within (Nat.le_succ n) (Nat.le_succ m)
  refine (hguard.bind fun guard => (prompt_framed hbody .ifKw).map fun sts =>
    (⟨pos, guard, sts⟩ : Branch)).mono fun w hw => ?_
  rcases Language.mem_mul.mp hw with ⟨gls, ⟨guard, hgls⟩, bls, ⟨sts, hbls⟩, rfl⟩
  exact fun pos => ⟨⟨pos, guard, sts⟩, .mk pos hgls hbls⟩

/-- What can be added to the first branch of a choice. -/
def choiceWords : Language Lexeme :=
  {ls | ∃ bs ols, OthersWritten bs ols ∧ ∃ otherwise els, OtherwiseWritten otherwise els ∧
    ls = ols ++ els}

theorem nil_mem_choiceWords : [] ∈ choiceWords :=
  ⟨[], [], .nil, none, [], .none, rfl⟩

/-- A further branch, and what can be added to it. -/
theorem elseIf_mem_choiceWords {nls w : List Lexeme} (hnls : Breaks nls) (word pos : Position)
    (hw : w ∈ branchWords * choiceWords) :
    nls ++ [⟨.keyword .elseKw, word⟩, ⟨.keyword .ifKw, pos⟩] ++ w ∈ choiceWords := by
  rcases Language.mem_mul.mp hw with ⟨a, ha, _, ⟨bs, ols, hbs, otherwise, els, hels, rfl⟩, rfl⟩
  rcases ha pos with ⟨b, hb⟩
  refine ⟨b :: bs, _, .cons word hnls hb hbs, otherwise, els, hels, ?_⟩
  simp only [List.append_assoc, List.cons_append, List.nil_append]

theorem else_mem_choiceWords {nls w : List Lexeme} (hnls : Breaks nls) (word : Position)
    (hw : w ∈ written (Framed .ifKw)) : nls ++ [⟨.keyword .elseKw, word⟩] ++ w ∈ choiceWords := by
  rcases hw with ⟨sts, hsts⟩
  refine ⟨[], [], .nil, some sts, _, .some word hnls hsts, ?_⟩
  simp only [List.append_assoc, List.cons_append, List.nil_append]

/-- Where there is no `ELSE`, the rest of a choice is empty, and no lexeme matters but the first
    one behind the line breaks. -/
theorem settled_branches_stop {b b' : Nat} {ls : List Lexeme}
    (hls : front? (afterBreaks ls) ≠ some (.keyword .elseKw)) (c c' : Nat) :
    Settled choiceWords .pastBreaks m (branches b' body' c') ls
      ((branches b body c).answer ls) := by
  rw [answer_of_run (run_branches_stop hls c)]
  refine .took [] ls ([], none) rfl (.inl nil_mem_choiceWords) fun rest' _ hsame => ?_
  refine answer_of_run (run_branches_stop ?_ c')
  rw [front?, List.nil_append, ← hsame.2]
  exact hls

theorem answer_branches_elseIf {bound : Nat} {nls : List Lexeme} (hnls : Breaks nls)
    (word pos : Position) (k : Nat) (ls : List Lexeme) :
    (branches bound body (k + 1)).answer
        (nls ++ [⟨.keyword .elseKw, word⟩, ⟨.keyword .ifKw, pos⟩] ++ ls) =
      (branch bound body pos >>= fun b => branches bound body k >>= fun others =>
        pure (b :: others.1, others.2)).answer ls := by
  rw [List.append_assoc]
  exact answer_congr (run_branches_elseIf hnls word pos k)

theorem answer_branches_else {bound : Nat} {nls ls : List Lexeme} (hnls : Breaks nls)
    (word : Position) (hls : front? ls ≠ some (.keyword .ifKw)) (k : Nat) :
    (branches bound body (k + 1)).answer (nls ++ [⟨.keyword .elseKw, word⟩] ++ ls) =
      (framed body .ifKw >>= fun sts => pure ([], some sts)).answer ls := by
  rw [List.append_assoc]
  exact answer_congr (run_branches_else hnls word hls k)

/-- The induction is on the branches that may still come. An `ELSE` is taken together with the
    line breaks in front of it, and with the `IF` behind it. -/
theorem settled_branches (hbody : Prompt (written Listed) .next n body m body') :
    ∀ (c c' m' : Nat) (ls : List Lexeme), ls.length ≤ c → ls.length ≤ n → m' ≤ c' → m' ≤ m →
      Settled choiceWords .pastBreaks m' (branches (m + 1) body' c') ls
        ((branches (n + 1) body c).answer ls) := by
  intro c
  induction c with
  | zero =>
      intro c' m' ls hc _ _ _
      rcases List.eq_nil_of_length_eq_zero (Nat.le_zero.mp hc) with rfl
      exact settled_branches_stop (by exact nofun) 0 c'
  | succ c ih =>
      intro c' m' ls hc hn hc' hm'
      by_cases helse : front? (afterBreaks ls) = some (.keyword .elseKw)
      swap
      · exact settled_branches_stop helse (c + 1) c'
      rcases exists_breaks ls with ⟨nls, hnls, hls⟩
      rcases front?_eq_some.mp helse with ⟨word, tail, htail⟩
      rw [htail] at hls
      subst hls
      rw [List.length_append, List.length_cons] at hc hn
      by_cases hif : front? tail = some (.keyword .ifKw)
      · -- `ELSE IF`: one more branch, and then the rest.
        rcases front?_eq_some.mp hif with ⟨pos, tail', rfl⟩
        rw [List.length_cons] at hc hn
        have hbranch : Settled branchWords .next (m' - 1) (branch (m + 1) body' pos) tail'
            ((branch (n + 1) body pos).answer tail') :=
          (prompt_branch hbody pos tail' (by omega)).congr (by omega) fun _ _ => rfl
        have hrest := hbranch.bind (viable_of_mem nil_mem_choiceWords) fun b front rest hrest =>
          (ih (c' - 1) (m' - 1) rest (by rw [hrest, List.length_append] at hc; omega)
            (by rw [hrest, List.length_append] at hn; omega) (by omega) (by omega)).map
            fun others => (b :: others.1, others.2)
        have hassoc : nls ++ ⟨.keyword .elseKw, word⟩ :: ⟨.keyword .ifKw, pos⟩ :: tail' =
            nls ++ [⟨.keyword .elseKw, word⟩, ⟨.keyword .ifKw, pos⟩] ++ tail' := by
          rw [List.append_assoc, List.cons_append, List.singleton_append]
        rw [hassoc]
        refine hrest.append _ (answer_branches_elseIf hnls word pos c tail') (fun us hus _ => ?_)
          (by simp only [List.length_append, List.length_cons, List.length_nil]; omega)
          fun w => elseIf_mem_choiceWords hnls word pos
        simp only [List.length_append, List.length_cons, List.length_nil] at hus
        obtain ⟨c'', rfl⟩ : ∃ c'', c' = c'' + 1 := ⟨c' - 1, by omega⟩
        exact answer_branches_elseIf hnls word pos c'' us
      · -- `ELSE` alone: the choice ends with its frame.
        have hframe : Prompt (written (Framed .ifKw)) .pastBreaks n (framed body .ifKw) m
            (framed body' .ifKw) := prompt_framed hbody .ifKw
        have hrest := (hframe tail (by omega)).map fun sts =>
          (([], some sts) : List Branch × Option (List Statement))
        rw [List.append_cons]
        refine hrest.append _ (answer_branches_else hnls word hif c) (fun us hus hhead => ?_)
          (by omega) fun w => else_mem_choiceWords hnls word
        simp only [List.length_append, List.length_cons, List.length_nil] at hus
        obtain ⟨c'', rfl⟩ : ∃ c'', c' = c'' + 1 := ⟨c' - 1, by omega⟩
        refine answer_branches_else hnls word ?_ c''
        rw [front?, ← hhead]
        exact hif

/-- The first lexeme decides which rule of the grammar a statement is read by. -/
theorem prompt_single (hbody : Prompt (written Listed) .next n body m body') :
    Prompt (written Statement.Written) .pastBreaks (n + 1) (single (n + 1) body) (m + 1)
      (single (m + 1) body') := by
  have hviable : Viable (written Statement.Written) [] :=
    ⟨_, _, .declare .start .int (.one (.bare .start "x"))⟩
  rintro (_ | ⟨⟨t, pos⟩, tail⟩) hls
  · exact settled_nil rfl rfl hviable
  have htail : tail.length ≤ n := Nat.le_of_succ_le_succ hls
  cases t with
  | type type =>
      have hlist : Prompt (written (Separated Declarator.Written)) .next (n + 1)
          (commaSeparated (n + 1) (declarator (n + 1))) (m + 1)
          (commaSeparated (m + 1) (declarator (m + 1))) :=
        prompt_commaSeparated prompt_declarator
      refine ((hlist.map (Statement.declare pos type)).farther tail (by omega)).cons rfl
        (fun _ _ => rfl) (by omega) ?_
      rintro w ⟨ds, hds⟩
      exact ⟨_, .declare pos type hds⟩
  | identifier name =>
      refine (prompt_assignment.farther _ hls).same rfl fun ls' _ hhead => ?_
      rcases ls' with _ | ⟨l, tail'⟩
      · cases hhead
      · cases hhead
        rfl
  | keyword word =>
      cases word with
      | displayKw =>
          have hrest : Prompt (token (.symbol .colon) * written Expr.Written) .next (n + 1)
              (do
                let _ ← expect (.symbol .colon) (.colonAfter .displayKw)
                return Statement.display pos (← expressionWithin (n + 1))) (m + 1)
              (do
                let _ ← expect (.symbol .colon) (.colonAfter .displayKw)
                return Statement.display pos (← expressionWithin (m + 1))) :=
            prompt_expect.bind fun _ => (prompt_expression _ _).map (Statement.display pos)
          refine (hrest.farther tail (by omega)).cons rfl (fun _ _ => rfl) (by omega) fun w hw => ?_
          rcases Language.mem_mul.mp hw with ⟨_, ⟨colon, rfl⟩, els, ⟨e, he⟩, rfl⟩
          exact ⟨_, .display pos colon he⟩
      | scanKw =>
          have hrest : Prompt (token (.symbol .colon) * written (Separated PlacedName)) .next
              (n + 1)
              (do
                let _ ← expect (.symbol .colon) (.colonAfter .scanKw)
                let names ← commaSeparated (n + 1) identifier
                return Statement.scan pos (names.map Prod.fst)) (m + 1)
              (do
                let _ ← expect (.symbol .colon) (.colonAfter .scanKw)
                let names ← commaSeparated (m + 1) identifier
                return Statement.scan pos (names.map Prod.fst)) :=
            prompt_expect.bind fun _ => (prompt_commaSeparated prompt_identifier).map fun names =>
              Statement.scan pos (names.map Prod.fst)
          refine (hrest.farther tail (by omega)).cons rfl (fun _ _ => rfl) (by omega) fun w hw => ?_
          rcases Language.mem_mul.mp hw with ⟨_, ⟨colon, rfl⟩, ls, ⟨xs, hxs⟩, rfl⟩
          exact ⟨_, .scan pos colon ((separated_map_iff nameWritten_iff).mpr ⟨xs, rfl, hxs⟩)⟩
      | ifKw =>
          -- The rest of the choice looks past line breaks, and so does the statement.
          have hothers : Prompt choiceWords .pastBreaks n (branches (n + 1) body (n + 1)) m
              (branches (m + 1) body' (m + 1)) := fun ls hls =>
            settled_branches hbody (n + 1) (m + 1) m ls (by omega) hls (by omega) (Nat.le_refl m)
          have hrest : Prompt (branchWords * choiceWords) .pastBreaks n
              (branch (n + 1) body pos >>= fun first => branches (n + 1) body (n + 1) >>=
                fun others => pure (Statement.choose pos first others.1 others.2)) m
              (branch (m + 1) body' pos >>= fun first => branches (m + 1) body' (m + 1) >>=
                fun others => pure (Statement.choose pos first others.1 others.2)) :=
            (prompt_branch hbody pos).bind fun first => hothers.map fun others =>
              Statement.choose pos first others.1 others.2
          refine (hrest tail htail).cons rfl (fun _ _ => rfl) (Nat.le_refl _) fun w hw => ?_
          rcases Language.mem_mul.mp hw with
            ⟨fls, hfls, _, ⟨bs, ols, hols, otherwise, els, hels, rfl⟩, rfl⟩
          rcases hfls pos with ⟨first, hfirst⟩
          exact ⟨_, .choose hfirst hols hels⟩
      | whileKw =>
          have hrest : Prompt (written Expr.Enclosed * written (Framed .whileKw)) .pastBreaks n
              (do
                let guard ← condition (n + 1)
                return Statement.loop pos guard (← framed body .whileKw)) m
              (do
                let guard ← condition (m + 1)
                return Statement.loop pos guard (← framed body' .whileKw)) :=
            (prompt_condition.within (Nat.le_succ n) (Nat.le_succ m)).bind fun guard =>
              (prompt_framed hbody .whileKw).map (Statement.loop pos guard)
          refine (hrest tail htail).cons rfl (fun _ _ => rfl) (Nat.le_refl _) fun w hw => ?_
          rcases Language.mem_mul.mp hw with ⟨gls, ⟨guard, hgls⟩, bls, ⟨sts, hbls⟩, rfl⟩
          exact ⟨_, .loop pos hgls hbls⟩
      | doKw =>
          have hrest : Prompt (written (Framed .doKw) * (breaks * (token (.keyword .whileKw) *
              written Expr.Enclosed))) .pastBreaks n
              (do
                let statements ← framed body .doKw
                skipBreaks
                let _ ← expect (.keyword .whileKw) .loopCondition
                return Statement.loopAfter pos statements (← condition (n + 1))) m
              (do
                let statements ← framed body' .doKw
                skipBreaks
                let _ ← expect (.keyword .whileKw) .loopCondition
                return Statement.loopAfter pos statements (← condition (m + 1))) :=
            (prompt_framed hbody .doKw).bind fun sts => prompt_skipBreaks.bind fun _ =>
              prompt_expect.bind fun _ =>
                (prompt_condition.within (Nat.le_succ n) (Nat.le_succ m)).map
                  (Statement.loopAfter pos sts)
          refine (hrest tail htail).cons rfl (fun _ _ => rfl) (Nat.le_refl _) fun w hw => ?_
          simp only [Language.mem_mul] at hw
          rcases hw with ⟨bls, ⟨sts, hbls⟩, _, ⟨nls, hnls, _, ⟨_, ⟨word, rfl⟩, gls,
            ⟨guard, hgls⟩, rfl⟩, rfl⟩, rfl⟩
          exact ⟨_, .loopAfter pos word hbls hnls hgls⟩
      | _ => exact settled_reject rfl (fun _ => rfl) hviable
  | _ => exact settled_reject rfl (fun _ => rfl) hviable

end Frames

end Parser

end Primer
