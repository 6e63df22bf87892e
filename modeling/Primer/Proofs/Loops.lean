import Primer.Proofs.Diagnostics

/-!
# When a Loop Ends

Where each of the two loops ends, and with what. A body that is run again and again leads
from one session to the next, for as long as it succeeds; `rounds` lists these sessions.
A loop follows the list and ends at the first entry that gives it a reason to.

The reasons differ. A loop that asks first looks at its guard in every session, the one it
starts from included, and meets its cap only when the guard holds once more. A loop that
asks afterwards has nothing to ask before its first round, and meets its cap before it asks,
so that the guard no longer matters then. `GuardFirstEnds` and `BodyFirstEnds` list the reasons,
each with the number of rounds at which it can occur, and do not mention the loops.

A loop is given the number of rounds that are left to it. The number of rounds behind it is
what an implementation counts, and `countedGuardFirst` and `countedBodyFirst` are the loops
with such a counter. The counter has room for so many rounds and no more, and a loop that
would need more gives up. With room for as many rounds as the cap allows, or for one if the
cap is zero, no loop ever does.

## Main definitions

* `Expr.Refuses`: A guard that gives no answer, and the fault for it.
* `Statement.rounds`: The session after some rounds of a body.
* `Statement.GuardFirstEnds`, `Statement.BodyFirstEnds`: The reasons for a loop to end.
* `Statement.Pending`, `Statement.EndsAt`: There has been no reason to end so far, and there
  is the first one.
* `Statement.countedGuardFirst`, `Statement.countedBodyFirst`: The loops with a counter.

## Theorems

* `Expr.eval_ne_endlessLoop`: An expression is never stopped at a cap.
* `Statement.EndsAt.unique`: There is one first reason to end.
* `Statement.loopGuardFirst_endsAt`, `Statement.loopBodyFirst_endsAt`: The two loops, from any
  of their rounds on.
* `Statement.exec_loops_exact`: The loops of a program.
-/

namespace Primer

open Session

namespace Expr

variable {guard : Expr} {store : Store} {pos : Position}

/-- The guard gives no answer: it has no value, or one that is no condition. -/
inductive Refuses (guard : Expr) (pos : Position) (store : Store) : Fault → Prop where
  | noValue {e : Fault} (h : guard.eval store = .error e) : Refuses guard pos store e
  | noCondition {v : Value} (h : guard.eval store = .ok v) (hv : v.type? ≠ some .bool) :
      Refuses guard pos store (.program pos (.notCondition v))

theorem guard_eq_ok {holds : Bool} :
    guard.guard store pos = .ok holds ↔ guard.eval store = .ok (.bool holds) := by
  unfold Expr.guard
  cases guard.eval store with
  | error e => simp only [bind, Except.bind, reduceCtorEq]
  | ok v => cases v <;> simp [bind, Except.bind, Value.condition]

theorem refuses_of_guard_eq_error {e : Fault} (h : guard.guard store pos = .error e) :
    guard.Refuses pos store e := by
  unfold Expr.guard at h
  cases heval : guard.eval store with
  | error e' =>
      rw [heval] at h
      exact Except.error.inj h ▸ .noValue heval
  | ok v =>
      rw [heval] at h
      cases v with
      | bool b => simp only [bind, Except.bind, Value.condition, reduceCtorEq] at h
      | _ => exact Except.error.inj h ▸ .noCondition heval nofun

theorem Refuses.guard_eq {e : Fault} (h : guard.Refuses pos store e) :
    guard.guard store pos = .error e := by
  unfold Expr.guard
  cases h with
  | noValue h => rw [h]; rfl
  | @noCondition v h hv =>
      rw [h]
      cases v with
      | bool b => exact absurd rfl hv
      | _ => rfl

theorem not_refuses {e : Fault} {holds : Bool} (h : guard.eval store = .ok (.bool holds)) :
    ¬ guard.Refuses pos store e := by
  rintro (herror | ⟨hok, hv⟩)
  · cases h.symm.trans herror
  · cases h.symm.trans hok
    exact hv rfl

/-- There is no loop in an expression: the words at which a loop is reported cannot stand in
    one. -/
theorem eval_ne_endlessLoop (e : Expr) (store : Store) (pos : Position) :
    e.eval store ≠ .error (.program pos .endlessLoop) := by
  intro h
  rcases e.exists_lexemes with ⟨ls, hspelled⟩
  rcases hspelled.eval_traced store _ h with ⟨word, hmem, hword⟩
  have hin := hspelled.inExpression _ hmem
  rcases hword with rfl | rfl
  · cases hin
  · cases hin

end Expr

namespace Statement

/-- How an action ends: with a fault or without, and the session it leaves. -/
abbrev Ending (α : Type) : Type := EStateM.Result Fault Session α

/-- The session after the given number of rounds of a body, if all of them succeed. -/
def rounds (body : Action Unit) (s : Session) : Nat → Option Session
  | 0 => some s
  | k + 1 =>
      match rounds body s k with
      | none => none
      | some t =>
          match body.run t with
          | .ok _ t' => some t'
          | .error _ _ => none

section Reasons

variable (cap : Nat) (pos : Position) (guard : Expr) (body : Action Unit)

/-- The reasons for a loop that asks first to end after `k` rounds, in the session `t`. -/
inductive GuardFirstEnds (k : Nat) (t : Session) : Ending Unit → Prop where
  | refused {e : Fault} (h : guard.Refuses pos t.store e) : GuardFirstEnds k t (.error e t)
  | done (h : guard.eval t.store = .ok (.bool false)) : GuardFirstEnds k t (.ok () t)
  /-- The next round fails. What it did before that is kept. -/
  | broken {e : Fault} {t' : Session} (hk : k < cap)
      (h : guard.eval t.store = .ok (.bool true)) (hbody : body.run t = .error e t') :
      GuardFirstEnds k t (.error e t')
  /-- There would be a next round. -/
  | capped (hk : k = cap) (h : guard.eval t.store = .ok (.bool true)) :
      GuardFirstEnds k t (.error (.program pos .endlessLoop) t)

/-- The reasons for a loop that asks afterwards to end after `k` rounds, in the
    session `t`. -/
inductive BodyFirstEnds (k : Nat) (t : Session) : Ending Unit → Prop where
  /-- The guard is not looked at. -/
  | capped (hk : 1 ≤ k) (hcap : cap ≤ k) :
      BodyFirstEnds k t (.error (.program pos .endlessLoop) t)
  | refused {e : Fault} (hk : 1 ≤ k) (hcap : k < cap) (h : guard.Refuses pos t.store e) :
      BodyFirstEnds k t (.error e t)
  | done (hk : 1 ≤ k) (hcap : k < cap) (h : guard.eval t.store = .ok (.bool false)) :
      BodyFirstEnds k t (.ok () t)
  /-- The next round fails. The first one is not asked for. -/
  | broken {e : Fault} {t' : Session}
      (h : 1 ≤ k → k < cap ∧ guard.eval t.store = .ok (.bool true))
      (hbody : body.run t = .error e t') : BodyFirstEnds k t (.error e t')

end Reasons

section EndsAt

variable {Ends : Nat → Session → Ending Unit → Prop} {body : Action Unit} {s t t' : Session}
  {k k' : Nat} {r r' : Ending Unit}

/-- After `k` rounds from `s` on the session is `t`, and there was no reason to end before. -/
structure Pending (Ends : Nat → Session → Ending Unit → Prop) (body : Action Unit) (s : Session)
    (k : Nat) (t : Session) : Prop where
  rounds_eq : rounds body s k = some t
  first : ∀ j < k, ∀ t r, rounds body s j = some t → ¬ Ends j t r

/-- After `k` rounds from `s` on there is a reason to end with `r`, and none before. -/
def EndsAt (Ends : Nat → Session → Ending Unit → Prop) (body : Action Unit) (s : Session)
    (k : Nat) (r : Ending Unit) : Prop :=
  ∃ t, Pending Ends body s k t ∧ Ends k t r

theorem pending_zero : Pending Ends body s 0 s :=
  ⟨rfl, fun _ hj => absurd hj (Nat.not_lt_zero _)⟩

/-- Without a reason to end, a round that succeeds is one of the rounds. -/
theorem Pending.next {u : Unit} (h : Pending Ends body s k t) (hbody : body.run t = .ok u t')
    (hgoes : ∀ r, ¬ Ends k t r) : Pending Ends body s (k + 1) t' := by
  refine ⟨?_, fun j hj t₁ r ht₁ => ?_⟩
  · simp only [rounds, h.rounds_eq, hbody]
  · by_cases hjk : j = k
    · subst hjk
      have ht : t = t₁ := Option.some.inj (h.rounds_eq.symm.trans ht₁)
      exact ht ▸ hgoes r
    · exact h.first j (by omega) t₁ r ht₁

/-- There is one first reason to end. -/
theorem EndsAt.unique (h : EndsAt Ends body s k r) (h' : EndsAt Ends body s k' r') : k = k' := by
  rcases h with ⟨t, hpending, hends⟩
  rcases h' with ⟨t', hpending', hends'⟩
  rcases Nat.lt_trichotomy k k' with hlt | heq | hgt
  · exact absurd hends (hpending'.first k hlt t r hpending.rounds_eq)
  · exact heq
  · exact absurd hends' (hpending.first k' hgt t' r' hpending'.rounds_eq)

end EndsAt

section Counters

variable (pos : Position) (guard : Action Bool) (body : Action Unit) (cap : Nat)

/-- A loop that asks first and counts its rounds. The count begins at the second number and
    is the result. It may grow by the first number, and there is no result if that is not
    enough. -/
def countedGuardFirst : Nat → Nat → Action (Option Nat)
  | 0, count => do
      if ← guard then
        if cap ≤ count then throw (.program pos .endlessLoop)
        body
        return none
      else return some count
  | room + 1, count => do
      if ← guard then
        if cap ≤ count then throw (.program pos .endlessLoop)
        body
        countedGuardFirst room (count + 1)
      else return some count

/-- A loop that asks afterwards and counts its rounds in the same way. -/
def countedBodyFirst : Nat → Nat → Action (Option Nat)
  | 0, _ => do
      body
      return none
  | room + 1, count => do
      body
      if cap ≤ count + 1 then throw (.program pos .endlessLoop)
      if ← guard then countedBodyFirst room (count + 1) else return some (count + 1)

/-- An ending with a count, if nothing has failed. -/
def withCount (k : Nat) : Ending Unit → Ending (Option Nat)
  | .ok _ t => .ok (some k) t
  | .error e t => .error e t

end Counters

section Loops

variable {cap : Nat} {pos : Position} {guard : Expr} {body : Action Unit} {s t t' : Session}
  {k : Nat} {u : Unit}

/-- Asks a guard. -/
abbrev asking (guard : Expr) (pos : Position) : Action Bool :=
  reading fun store => guard.guard store pos

theorem run_asking_refused {α : Type} {f : Bool → Action α} {e : Fault}
    (h : guard.guard t.store pos = .error e) : (asking guard pos >>= f).run t = .error e t := by
  simp only [EStateM.run_bind, run_reading, h]

theorem run_asking_answered {α : Type} {f : Bool → Action α} {holds : Bool}
    (h : guard.guard t.store pos = .ok holds) :
    (asking guard pos >>= f).run t = (f holds).run t := by
  simp only [EStateM.run_bind, run_reading, h]

section GuardFirst

theorem loopGuardFirst_eq (guard : Action Bool) (left : Nat) :
    loopGuardFirst pos guard body left = guard >>= fun holds =>
      if holds then
        match left with
        | 0 => throw (.program pos .endlessLoop)
        | left + 1 => do body; loopGuardFirst pos guard body left
      else pure () := by
  cases left <;> rfl

theorem countedGuardFirst_eq (guard : Action Bool) (room count : Nat) :
    countedGuardFirst pos guard body cap room count = guard >>= fun holds =>
      if holds then
        if cap ≤ count then throw (.program pos .endlessLoop)
        else do
          body
          match room with
          | 0 => return none
          | room + 1 => countedGuardFirst pos guard body cap room (count + 1)
      else return some count := by
  cases room <;> rfl

theorem not_guardFirstEnds (hk : k < cap) (hguard : guard.eval t.store = .ok (.bool true))
    (hbody : body.run t = .ok u t') (r : Ending Unit) :
    ¬ GuardFirstEnds cap pos guard body k t r := by
  rintro (hrefused | hdone | ⟨-, -, hbroken⟩ | ⟨hcap, -⟩)
  · exact Expr.not_refuses hguard hrefused
  · cases hguard.symm.trans hdone
  · cases hbody.symm.trans hbroken
  · omega

/-- A loop that asks first, with `left` rounds left to it, ends at the first reason to. It
    has counted its rounds by then, if it can count as far as its cap. -/
theorem loopGuardFirst_endsAt (left : Nat) : ∀ (k room : Nat) (t : Session), k + left = cap →
    left ≤ room → Pending (GuardFirstEnds cap pos guard body) body s k t →
    ∃ k' ≤ cap,
      EndsAt (GuardFirstEnds cap pos guard body) body s k'
        ((loopGuardFirst pos (asking guard pos) body left).run t) ∧
      (countedGuardFirst pos (asking guard pos) body cap room k).run t =
        withCount k' ((loopGuardFirst pos (asking guard pos) body left).run t) := by
  induction left using Nat.strongRecOn with
  | _ left ih =>
    intro k room t hleft hroom hpending
    rw [loopGuardFirst_eq, countedGuardFirst_eq]
    cases hguard : guard.guard t.store pos with
    | error e =>
        rw [run_asking_refused hguard, run_asking_refused hguard]
        exact ⟨k, by omega, ⟨t, hpending, .refused (Expr.refuses_of_guard_eq_error hguard)⟩, rfl⟩
    | ok holds =>
        rw [run_asking_answered hguard, run_asking_answered hguard]
        rw [Expr.guard_eq_ok] at hguard
        cases holds with
        | false => exact ⟨k, by omega, ⟨t, hpending, .done hguard⟩, rfl⟩
        | true =>
            simp only [if_true]
            cases left with
            | zero =>
                rw [if_pos (show cap ≤ k by omega)]
                exact ⟨k, by omega, ⟨t, hpending, .capped (by omega) hguard⟩, rfl⟩
            | succ left =>
                have hk : k < cap := by omega
                rcases room with _ | room
                · omega
                rw [if_neg (Nat.not_le.mpr hk)]
                cases hbody : body.run t with
                | error e t' =>
                    rw [EStateM.run_bind, EStateM.run_bind, hbody]
                    exact ⟨k, by omega, ⟨t, hpending, .broken hk hguard hbody⟩, rfl⟩
                | ok u t' =>
                    rw [EStateM.run_bind, EStateM.run_bind, hbody]
                    exact ih left (by omega) (k + 1) room t' (by omega) (by omega)
                      (hpending.next hbody (not_guardFirstEnds hk hguard hbody))

end GuardFirst

section BodyFirst

theorem loopBodyFirst_eq (guard : Action Bool) (more : Nat) :
    loopBodyFirst pos guard body more = body >>= fun _ =>
      match more with
      | 0 => throw (.program pos .endlessLoop)
      | more + 1 => guard >>= fun holds =>
          if holds then loopBodyFirst pos guard body more else pure () := by
  cases more <;> rfl

theorem countedBodyFirst_succ (guard : Action Bool) (room count : Nat) :
    countedBodyFirst pos guard body cap (room + 1) count = body >>= fun _ =>
      if cap ≤ count + 1 then throw (.program pos .endlessLoop)
      else guard >>= fun holds =>
        if holds then countedBodyFirst pos guard body cap room (count + 1)
        else return some (count + 1) :=
  rfl

theorem not_bodyFirstEnds (hgoes : 1 ≤ k → k < cap ∧ guard.eval t.store = .ok (.bool true))
    (hbody : body.run t = .ok u t') (r : Ending Unit) :
    ¬ BodyFirstEnds cap pos guard body k t r := by
  rintro (⟨hk, hcap⟩ | ⟨hk, -, hrefused⟩ | ⟨hk, -, hdone⟩ | ⟨-, hbroken⟩)
  · have hlt := (hgoes hk).1
    omega
  · exact Expr.not_refuses (hgoes hk).2 hrefused
  · cases (hgoes hk).2.symm.trans hdone
  · cases hbody.symm.trans hbroken

/-- A loop that asks afterwards, with a round and `more` further ones left to it, ends at the
    first reason to. -/
theorem loopBodyFirst_endsAt (more : Nat) : ∀ (k room : Nat) (t : Session),
    k + more + 1 = max cap 1 → more < room →
    (1 ≤ k → k < cap ∧ guard.eval t.store = .ok (.bool true)) →
    Pending (BodyFirstEnds cap pos guard body) body s k t →
    ∃ k' ≤ max cap 1,
      EndsAt (BodyFirstEnds cap pos guard body) body s k'
        ((loopBodyFirst pos (asking guard pos) body more).run t) ∧
      (countedBodyFirst pos (asking guard pos) body cap room k).run t =
        withCount k' ((loopBodyFirst pos (asking guard pos) body more).run t) := by
  induction more using Nat.strongRecOn with
  | _ more ih =>
    intro k room t hmore hroom hgoes hpending
    rcases room with _ | room
    · omega
    rw [loopBodyFirst_eq, countedBodyFirst_succ]
    cases hbody : body.run t with
    | error e t' =>
        rw [EStateM.run_bind, EStateM.run_bind, hbody]
        exact ⟨k, by omega, ⟨t, hpending, .broken hgoes hbody⟩, rfl⟩
    | ok u t' =>
        rw [EStateM.run_bind, EStateM.run_bind, hbody]
        -- The round counts before anything is asked about it.
        have hnext := hpending.next hbody (not_bodyFirstEnds hgoes hbody)
        cases more with
        | zero =>
            have hcap : cap ≤ k + 1 := by omega
            rw [if_pos hcap]
            exact ⟨k + 1, by omega, ⟨t', hnext, .capped (by omega) hcap⟩, rfl⟩
        | succ more =>
            have hcap : k + 1 < cap := by omega
            rw [if_neg (Nat.not_le.mpr hcap)]
            dsimp only
            cases hguard : guard.guard t'.store pos with
            | error e =>
                rw [run_asking_refused hguard, run_asking_refused hguard]
                have hrefuses := Expr.refuses_of_guard_eq_error hguard
                exact ⟨k + 1, by omega, ⟨t', hnext, .refused (by omega) hcap hrefuses⟩, rfl⟩
            | ok holds =>
                rw [run_asking_answered hguard, run_asking_answered hguard]
                rw [Expr.guard_eq_ok] at hguard
                cases holds with
                | false => exact ⟨k + 1, by omega, ⟨t', hnext, .done (by omega) hcap hguard⟩, rfl⟩
                | true =>
                    exact ih more (by omega) (k + 1) room t' (by omega) (by omega)
                      (fun _ => ⟨hcap, hguard⟩) hnext

end BodyFirst

end Loops

section Programs

variable (cap : Nat) (pos : Position) (guard : Expr) (body : List Statement) (s : Session)

/-- Since there is one first reason to end, the count does not depend on the room there is
    for it. -/
theorem exists_endsAt_of_rooms {Ends : Nat → Session → Ending Unit → Prop} {action : Action Unit}
    {bound needed : Nat} {plain : Ending Unit} {counted : Nat → Ending (Option Nat)}
    (h : ∀ room, needed ≤ room →
      ∃ k ≤ bound, EndsAt Ends action s k plain ∧ counted room = withCount k plain) :
    ∃ k ≤ bound, EndsAt Ends action s k plain ∧
      ∀ room, needed ≤ room → counted room = withCount k plain := by
  rcases h needed (Nat.le_refl needed) with ⟨k, hk, hends, -⟩
  refine ⟨k, hk, hends, fun room hroom => ?_⟩
  rcases h room hroom with ⟨k', -, hends', hcounted⟩
  rw [hends.unique hends']
  exact hcounted

theorem exec_loop_endsAt :
    ∃ k ≤ cap,
      EndsAt (GuardFirstEnds cap pos guard (execAll cap body)) (execAll cap body) s k
        ((exec cap (.loop pos guard body)).run s) ∧
      ∀ room, max cap 1 ≤ room →
        (countedGuardFirst pos (asking guard pos) (execAll cap body) cap room 0).run s =
          withCount k ((exec cap (.loop pos guard body)).run s) := by
  rw [exec]
  exact exists_endsAt_of_rooms s fun room hroom =>
    loopGuardFirst_endsAt cap 0 room s (by omega) (by omega) pending_zero

theorem exec_loopAfter_endsAt :
    ∃ k ≤ max cap 1,
      EndsAt (BodyFirstEnds cap pos guard (execAll cap body)) (execAll cap body) s k
        ((exec cap (.loopAfter pos body guard)).run s) ∧
      ∀ room, max cap 1 ≤ room →
        (countedBodyFirst pos (asking guard pos) (execAll cap body) cap room 0).run s =
          withCount k ((exec cap (.loopAfter pos body guard)).run s) := by
  rw [exec]
  exact exists_endsAt_of_rooms s fun room hroom =>
    loopBodyFirst_endsAt (cap - 1) 0 room s (by omega) (by omega) (by omega) pending_zero

/-- A loop of either kind, with any guard and body and under any cap, ends at the first round
    that gives it a reason to. A loop that asks first has at most as many rounds as its cap
    says. One that asks afterwards has at most as many, or one if the cap is zero; it succeeds
    only after fewer, and is stopped at the cap after just so many, unless it is its body that
    was stopped so. Neither counts any further. -/
theorem exec_loops_exact :
    (∃ k ≤ cap,
      EndsAt (GuardFirstEnds cap pos guard (execAll cap body)) (execAll cap body) s k
        ((exec cap (.loop pos guard body)).run s) ∧
      ∀ room, max cap 1 ≤ room →
        (countedGuardFirst pos (asking guard pos) (execAll cap body) cap room 0).run s =
          withCount k ((exec cap (.loop pos guard body)).run s)) ∧
    ∃ k ≤ max cap 1,
      EndsAt (BodyFirstEnds cap pos guard (execAll cap body)) (execAll cap body) s k
        ((exec cap (.loopAfter pos body guard)).run s) ∧
      (∀ u t, (exec cap (.loopAfter pos body guard)).run s = .ok u t → 1 ≤ k ∧ k < cap) ∧
      (∀ t', (exec cap (.loopAfter pos body guard)).run s = .error (.program pos .endlessLoop) t' →
        k = max cap 1 ∨ ∃ t, rounds (execAll cap body) s k = some t ∧
          (execAll cap body).run t = .error (.program pos .endlessLoop) t') ∧
      ∀ room, max cap 1 ≤ room →
        (countedBodyFirst pos (asking guard pos) (execAll cap body) cap room 0).run s =
          withCount k ((exec cap (.loopAfter pos body guard)).run s) := by
  refine ⟨exec_loop_endsAt cap pos guard body s, ?_⟩
  rcases exec_loopAfter_endsAt cap pos guard body s with ⟨k, hk, hends, hcounted⟩
  refine ⟨k, hk, hends, fun u t hrun => ?_, fun t' hrun => ?_, hcounted⟩
  · -- Success has one reason.
    rcases hends with ⟨t', -, hreason⟩
    rw [hrun] at hreason
    cases hreason with
    | done hk hcap h => exact ⟨hk, hcap⟩
  · rcases hends with ⟨t, hpending, hreason⟩
    rw [hrun] at hreason
    cases hreason with
    | capped hone hcap => exact .inl (by omega)
    | refused _ _ hrefuses =>
        cases hrefuses with
        | noValue h => exact absurd h (guard.eval_ne_endlessLoop _ pos)
    | broken _ hbody => exact .inr ⟨t, hpending.rounds_eq, hbody⟩

end Programs

/-- Two rounds are within a cap of two for a loop that asks first. A loop that asks afterwards
    is stopped there, although its guard would not hold. -/
example :
    let pos : Position := ⟨2, 0⟩
    let x : Expr := .var pos "x"
    let guard : Expr := .compare pos .lt x (.literal pos (.int 2))
    let body : List Statement := [.assign pos ["x"] (.arith pos .add x (.literal pos (.int 1)))]
    let s : Session := { store := ⟨[("x", ⟨.int, .int 0⟩)]⟩ }
    (exec 2 (.loop pos guard body)).fault? s = none ∧
      (exec 2 (.loopAfter pos body guard)).fault? s = some (.program pos .endlessLoop) ∧
      ((exec 2 (.loopAfter pos body guard)).after s).store = ⟨[("x", ⟨.int, .int 2⟩)]⟩ := by
  decide +kernel

end Statement

end Primer
