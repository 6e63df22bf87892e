import Primer.Proofs.Grammar.ReadProgram

/-!
# The Opening Lines of Frames

What follows the words that open a frame. A frame is opened by `BEGIN` and its keyword, and
the bodies of choices and loops begin in the next line: a line break is the first thing in
every one of them, at any depth. The frame of a program is different. Its statements may begin
in the line of the opening words, so a program whose every frame has its opening words in a
line of their own is one that begins with a line break, and whether it does makes no
difference to what is read.

`OpensLines` speaks of all places in a list of lexemes at which there is a `BEGIN`. It is kept
by joining lists, since what it asks for stands within the list in which the `BEGIN` stands.
The proof then follows the grammar.

## Main definitions

* `OpensLines`: Every `BEGIN` is followed by a keyword and a line break.

## Theorems

* `Statement.Framed.opensLines`, `Statement.Written.opensLines`: Frames and statements.
* `Program.ofLexemes_openings`: Programs.
-/

namespace Primer

/-- The keywords of the frames inside a program. -/
def innerFrames : List Keyword := [.ifKw, .whileKw, .doKw]

/-- Every `BEGIN` among the lexemes is followed by one of the keywords, and then by a line
    break. -/
def OpensLines (frames : List Keyword) (ls : List Lexeme) : Prop :=
  ∀ front opening rest, ls = front ++ ⟨.keyword .beginKw, opening⟩ :: rest →
    ∃ frame ∈ frames, ∃ word line tail,
      rest = ⟨.keyword frame, word⟩ :: ⟨.lineBreak, line⟩ :: tail

section OpensLines

variable {frames frames' : List Keyword} {ls rs : List Lexeme}

theorem OpensLines.mono (h : OpensLines frames ls) (hsub : frames ⊆ frames') :
    OpensLines frames' ls := by
  intro front opening rest hls
  rcases h front opening rest hls with ⟨frame, hframe, hrest⟩
  exact ⟨frame, hsub hframe, hrest⟩

/-- Without a `BEGIN` there is nothing to ask for. -/
theorem opensLines_of_ne (h : ∀ l ∈ ls, l.token ≠ .keyword .beginKw) : OpensLines frames ls := by
  rintro front opening rest rfl
  exact absurd rfl (h _ (List.mem_append_right front List.mem_cons_self))

theorem OpensLines.append (hls : OpensLines frames ls) (hrs : OpensLines frames rs) :
    OpensLines frames (ls ++ rs) := by
  intro front opening rest h
  rcases List.append_eq_append_iff.mp h with ⟨more, rfl, hmore⟩ | ⟨more, rfl, hmore⟩
  · -- The `BEGIN` stands in the second list.
    exact hrs more opening rest hmore
  · cases more with
    | nil => exact hrs [] opening rest hmore.symm
    | cons l more =>
        rcases List.cons.inj hmore with ⟨rfl, rfl⟩
        rcases hls front opening more rfl with ⟨frame, hframe, word, line, tail, rfl⟩
        exact ⟨frame, hframe, word, line, tail ++ rs, rfl⟩

theorem OpensLines.cons {l : Lexeme} (hl : l.token ≠ .keyword .beginKw)
    (hls : OpensLines frames ls) : OpensLines frames (l :: ls) :=
  (opensLines_of_ne (List.forall_mem_singleton.mpr hl)).append hls

theorem opensLines_breaks {nls : List Lexeme} (hn : Breaks nls) : OpensLines frames nls := by
  refine opensLines_of_ne fun l hl => ?_
  rw [hn l hl]
  exact nofun

theorem OpensLines.frame {frame : Keyword} (hframe : frame ∈ frames) (hne : frame ≠ .beginKw)
    (hls : OpensLines frames ls) (opening word line : Position) :
    OpensLines frames
      (⟨.keyword .beginKw, opening⟩ :: ⟨.keyword frame, word⟩ :: ⟨.lineBreak, line⟩ :: ls) := by
  have htail : OpensLines frames (⟨.keyword frame, word⟩ :: ⟨.lineBreak, line⟩ :: ls) :=
    .cons (fun h => hne (Token.keyword.inj h)) (.cons nofun hls)
  intro front opening' rest h
  cases front with
  | nil =>
      rcases List.cons.inj h with ⟨-, rfl⟩
      exact ⟨frame, hframe, word, line, ls, rfl⟩
  | cons l front => exact htail front opening' rest (List.cons.inj h).2

theorem Separated.opensLines {α : Type} {item : α → List Lexeme → Prop} {xs : List α}
    (h : Separated item xs ls) (hitem : ∀ x ls, item x ls → OpensLines frames ls) :
    OpensLines frames ls := by
  induction h with
  | one h => exact hitem _ _ h
  | more comma h _ ih => exact (hitem _ _ h).append (ih.cons nofun)

theorem Expr.Written.opensLines {e : Expr} (h : e.Written ls) : OpensLines frames ls :=
  opensLines_of_ne (h.2.ne rfl)

theorem Expr.Enclosed.opensLines {e : Expr} (h : e.Enclosed ls) : OpensLines frames ls := by
  rcases h with ⟨opening, close, h⟩
  refine .cons nofun (h.opensLines.append (opensLines_of_ne ?_))
  exact List.forall_mem_singleton.mpr nofun

theorem Declarator.Written.opensLines {d : Declarator} (h : d.Written ls) :
    OpensLines frames ls := by
  cases h with
  | bare pos name => exact opensLines_of_ne (List.forall_mem_singleton.mpr nofun)
  | initialized pos name sign h => exact .cons nofun (.cons nofun h.opensLines)

end OpensLines

namespace Statement

theorem NameWritten.opensLines {frames : List Keyword} {name : String} {ls : List Lexeme}
    (h : NameWritten name ls) : OpensLines frames ls := by
  rcases h with ⟨pos, rfl⟩
  exact opensLines_of_ne (List.forall_mem_singleton.mpr nofun)

theorem Targets.opensLines {frames : List Keyword} {names : List String} {ls : List Lexeme}
    (h : Targets names ls) : OpensLines frames ls := by
  induction h with
  | nil => exact opensLines_of_ne nofun
  | cons pos sign _ ih => exact .cons nofun (.cons nofun ih)

-- The induction is on how the statement is written; a `BEGIN` occurs in the rule for frames
-- and in no other.
mutual

theorem Written.opensLines :
    ∀ {st : Statement} {ls : List Lexeme}, st.Written ls → OpensLines innerFrames ls
  | _, _, .declare _ _ h => .cons nofun (h.opensLines fun _ _ hd => hd.opensLines)
  | _, _, .assign _ _ ht he => .cons nofun (.cons nofun (ht.opensLines.append he.opensLines))
  | _, _, .display _ _ h => .cons nofun (.cons nofun h.opensLines)
  | _, _, .scan _ _ h => .cons nofun (.cons nofun (h.opensLines fun _ _ hn => hn.opensLines))
  | _, _, .choose hfirst hothers helse =>
      hfirst.opensLines.append (hothers.opensLines.append helse.opensLines)
  | _, _, .loop _ hguard hbody =>
      .cons nofun (hguard.opensLines.append (hbody.opensLines (by decide)))
  | _, _, .loopAfter _ _ hbody hn hguard =>
      .cons nofun ((hbody.opensLines (by decide)).append
        ((opensLines_breaks hn).append (.cons nofun hguard.opensLines)))

theorem BranchWritten.opensLines :
    ∀ {b : Branch} {ls : List Lexeme}, BranchWritten b ls → OpensLines innerFrames ls
  | _, _, .mk _ hguard hbody =>
      .cons nofun (hguard.opensLines.append (hbody.opensLines (by decide)))

theorem OthersWritten.opensLines :
    ∀ {bs : List Branch} {ls : List Lexeme}, OthersWritten bs ls → OpensLines innerFrames ls
  | _, _, .nil => opensLines_of_ne nofun
  | _, _, .cons _ hn hb hbs =>
      (opensLines_breaks hn).append (.cons nofun (hb.opensLines.append hbs.opensLines))

theorem OtherwiseWritten.opensLines :
    ∀ {body : Option (List Statement)} {ls : List Lexeme}, OtherwiseWritten body ls →
      OpensLines innerFrames ls
  | _, _, .none => opensLines_of_ne nofun
  | _, _, .some _ hn hbody =>
      (opensLines_breaks hn).append (.cons nofun (hbody.opensLines (by decide)))

theorem Framed.opensLines : ∀ {frame : Keyword} {body : List Statement} {ls : List Lexeme},
    Framed frame body ls → frame ∈ innerFrames → OpensLines innerFrames ls
  | _, _, _, .mk frame opening word line _ _ hn h, hframe => by
      have hne : frame ≠ .beginKw := by
        rintro rfl
        exact absurd hframe (by decide)
      -- The closing words hold the keyword once more.
      refine (opensLines_breaks hn).append (.frame hframe hne (h.opensLines.append ?_) _ _ _)
      exact .cons nofun (.cons (fun h => hne (Token.keyword.inj h)) (opensLines_of_ne nofun))

theorem Listed.opensLines :
    ∀ {sts : List Statement} {ls : List Lexeme}, Listed sts ls → OpensLines innerFrames ls
  | _, _, .mk hn h => (opensLines_breaks hn).append h.opensLines

theorem Lines.opensLines :
    ∀ {sts : List Statement} {ls : List Lexeme}, Lines sts ls → OpensLines innerFrames ls
  | _, _, .nil => opensLines_of_ne nofun
  | _, _, .cons hst hn _ hsts =>
      hst.opensLines.append ((opensLines_breaks hn).append hsts.opensLines)

end

end Statement

namespace Program

variable {ls : List Lexeme} {p : Program}

/-- How the lexemes of a program go on behind its opening words: with line breaks, and then
    with something else, which decides what the program is. -/
theorem Written.opening (h : p.Written ls) :
    ∃ nls word rest, Breaks nls ∧
      ls = nls ++ ⟨.keyword .beginKw, p.pos⟩ :: ⟨.keyword .codeKw, word⟩ :: rest ∧
      OpensLines innerFrames rest ∧
      ∀ nls', Breaks nls' → p.Written (nls ++ ⟨.keyword .beginKw, p.pos⟩ ::
        ⟨.keyword .codeKw, word⟩ :: (nls' ++ Parser.afterBreaks rest)) := by
  rcases h with @⟨pos, word, closing, word', sts, nls, ls, nls', hn, hlisted, hn'⟩
  have hclosing : OpensLines innerFrames
      (⟨.keyword .endKw, closing⟩ :: ⟨.keyword .codeKw, word'⟩ :: nls') :=
    .cons nofun (.cons nofun (opensLines_breaks hn'))
  refine ⟨nls, word, _, hn, rfl, hlisted.opensLines.append hclosing, fun nls'' hn'' => ?_⟩
  rcases hlisted with ⟨hm, hlines⟩
  have hend : Parser.front? (⟨.keyword .endKw, closing⟩ :: ⟨.keyword .codeKw, word'⟩ :: nls') =
      some (.keyword .endKw) := rfl
  -- Behind the line breaks there is a statement or the `END`.
  rcases Parser.exists_cons_of_lines hlines hend with ⟨o, tail, hcons, ho, -⟩
  rw [List.append_assoc, Parser.afterBreaks_append hm, hcons, Parser.afterBreaks_cons ho,
    ← hcons, ← List.append_assoc]
  exact .mk pos word closing word' hn (.mk hn'' hlines) hn'

/-- The frames inside a program have their opening words in a line of their own. The frame of
    the program does so exactly if a line break comes next, and any number of line breaks may
    come next, or none at all, without a change to the program. -/
theorem ofLexemes_openings (h : ofLexemes ls = .ok p) :
    ∃ nls word rest, Breaks nls ∧
      ls = nls ++ ⟨.keyword .beginKw, p.pos⟩ :: ⟨.keyword .codeKw, word⟩ :: rest ∧
      OpensLines innerFrames rest ∧
      (OpensLines (.codeKw :: innerFrames) ls ↔ Parser.front? rest = some .lineBreak) ∧
      ∀ nls', Breaks nls' → ofLexemes (nls ++ ⟨.keyword .beginKw, p.pos⟩ ::
        ⟨.keyword .codeKw, word⟩ :: (nls' ++ Parser.afterBreaks rest)) = .ok p := by
  rcases (ofLexemes_eq_ok.mp h).opening with ⟨nls, word, rest, hn, rfl, hrest, hsame⟩
  refine ⟨nls, word, rest, hn, rfl, hrest, ⟨fun hopens => ?_, fun hfront => ?_⟩,
    fun nls' hn' => ofLexemes_eq_ok.mpr (hsame nls' hn')⟩
  · rcases hopens nls p.pos _ rfl with ⟨frame, -, word', line, tail, heq⟩
    rcases List.cons.inj heq with ⟨-, rfl⟩
    rfl
  · rcases Parser.front?_eq_some.mp hfront with ⟨line, tail, rfl⟩
    have hall : OpensLines (.codeKw :: innerFrames) tail := by
      refine .mono (fun front opening rest' htail => ?_) (List.subset_cons_self _ innerFrames)
      exact hrest (⟨.lineBreak, line⟩ :: front) opening rest' (by rw [htail]; rfl)
    have hne : Keyword.codeKw ≠ .beginKw := nofun
    exact (opensLines_breaks hn).append (.frame List.mem_cons_self hne hall p.pos word line)

/-- A program that is a loop, in its opening line. The frame of the loop has a line break behind
    its opening words, and that of the program has none. -/
theorem ofLexemes_openings_of_loop :
    let word (k : Keyword) (line column : Nat) : Lexeme := ⟨.keyword k, ⟨line, column⟩⟩
    let eol (line column : Nat) : Lexeme := ⟨.lineBreak, ⟨line, column⟩⟩
    let rest : List Lexeme := [
      word .whileKw 1 11, ⟨.symbol .leftParen, ⟨1, 17⟩⟩, ⟨.identifier "x", ⟨1, 18⟩⟩,
      ⟨.symbol .rightParen, ⟨1, 19⟩⟩, eol 1 20,
      word .beginKw 2 0, word .whileKw 2 6, eol 2 11,
      word .endKw 3 0, word .whileKw 3 4, eol 3 9,
      word .endKw 4 0, word .codeKw 4 4]
    let p : Program := ⟨⟨1, 0⟩, [.loop ⟨1, 11⟩ (.var ⟨1, 18⟩ "x") []]⟩
    ofLexemes (word .beginKw 1 0 :: word .codeKw 1 6 :: rest) = .ok p ∧
      OpensLines innerFrames rest ∧
      ¬ OpensLines (.codeKw :: innerFrames) (word .beginKw 1 0 :: word .codeKw 1 6 :: rest) ∧
      ofLexemes (word .beginKw 1 0 :: word .codeKw 1 6 :: eol 1 10 :: rest) = .ok p := by
  intro word eol rest p
  have hread : ofLexemes (word .beginKw 1 0 :: word .codeKw 1 6 :: rest) = .ok p := by rfl
  rcases ofLexemes_openings hread with ⟨nls, word', rest', hn, hls, hrest, hiff, hsame⟩
  cases nls with
  | cons l nls =>
      -- The first lexeme is no line break.
      have hl := hn l List.mem_cons_self
      rw [← (List.cons.inj hls).1] at hl
      cases hl
  | nil =>
      rcases List.cons.inj (List.cons.inj hls).2 with ⟨hword, rfl⟩
      refine ⟨hread, hrest, fun hopens => absurd (hiff.mp hopens) nofun, ?_⟩
      have hbreak : Breaks [eol 1 10] := List.forall_mem_singleton.mpr rfl
      rw [hword]
      exact hsame [eol 1 10] hbreak

/-- A statement may stand in the opening line of a program, so its opening words need not end
    their line. -/
theorem exists_opening_line_continued :
    let ls : List Lexeme := [⟨.keyword .beginKw, ⟨1, 0⟩⟩, ⟨.keyword .codeKw, ⟨1, 6⟩⟩,
      ⟨.keyword .displayKw, ⟨1, 11⟩⟩, ⟨.symbol .colon, ⟨1, 18⟩⟩, ⟨.literal (.int 1), ⟨1, 20⟩⟩,
      ⟨.lineBreak, ⟨1, 21⟩⟩, ⟨.keyword .endKw, ⟨2, 0⟩⟩, ⟨.keyword .codeKw, ⟨2, 4⟩⟩]
    ofLexemes ls = .ok ⟨⟨1, 0⟩, [.display ⟨1, 11⟩ (.literal ⟨1, 20⟩ (.int 1))]⟩ ∧
      ¬ OpensLines (.codeKw :: innerFrames) ls := by
  intro ls
  refine ⟨by rfl, fun h => ?_⟩
  rcases h [] ⟨1, 0⟩ _ rfl with ⟨frame, -, word, line, tail, hrest⟩
  cases hrest

end Program

end Primer
