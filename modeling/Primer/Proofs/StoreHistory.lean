import Primer.Proofs.WellTyped
import Mathlib.Data.Finset.Card

/-!
# A Store Is Known by Its History

What the variables are after any number of requests, however many of them were refused. A
request declares a name, assigns to one, or asks about one. The requests that are granted and
change something make up the history, and all there is to know of the store can be read off
it: a name is bound if it was declared, its type is the one it was declared with, and its value
is the last one written. Nothing else leaves a trace. Asking has no effect, and what is
refused has none either, since a change is refused before the store is touched
(`declare_atomic`, `assign_atomic`).

Whether a request is granted, and what it is answered with, is again a matter of the history
alone. `Request.expected` says so without a store, and in this way the history is a second
description of what a store does. The two descriptions are related by `Reflects`, which one
request preserves (`Reflects.entry`), and so do all of them in turn (`Reflects.serve`).

## Main definitions

* `Store.Request`, `Store.Answer`: A request to the variables of a session and its answer.
* `Store.Request.exec`: What a request does.
* `Store.Entry`, `Store.transcript`, `Store.serve`: Requests that are made one after the other,
  whether the ones before were granted or not.
* `Store.Change`: A change that was granted.
* `Store.declarations`, `Store.writes`, `Store.declaredNames`: What a history says of a name,
  and the names it mentions.
* `Store.Request.expected`: The answer to a request, by the history.
* `Store.Reflects`: A store is what a history says.

## Theorems

* `Store.Reflects.entry`, `Store.Reflects.serve`: One request, and all of them.
* `Store.Reflects.outcome_eq`: The answers are the expected ones.
* `Store.serve_refines_history`: Whatever is requested of a fresh store.
-/

namespace Primer

open Session

namespace Action

/-- What an action yields, apart from the session it leaves. -/
def outcome {α : Type} (a : Action α) (s : Session) : Except Fault α :=
  match a.run s with
  | .ok x _ => .ok x
  | .error e _ => .error e

end Action

namespace Store

/-- A request to the variables. -/
inductive Request where
  | declare (name : String) (type : DataType) (initial : Option Value) (pos : Position)
  | assign (name : String) (value : Value) (pos : Position)
  | askValue (name : String) (pos : Position)
  | askType (name : String) (pos : Position)
  | ask (name : String)
deriving DecidableEq

/-- What a request is answered with, if it is granted. -/
inductive Answer where
  | done
  | value (v : Value)
  | type (type : DataType)
  | binding (b : Option Binding)
deriving DecidableEq

/-- A change that was granted. -/
inductive Change where
  | declared (name : String) (type : DataType) (value : Value)
  | assigned (name : String) (value : Value)
deriving DecidableEq

namespace Request

/-- What a request does. -/
def exec : Request → Action Answer
  | .declare name type initial pos => do
      updating (Store.declare name type initial pos)
      return .done
  | .assign name value pos => do
      updating (Store.assign name value pos)
      return .done
  | .askValue name pos => do return .value (← reading fun store => store.value name pos)
  | .askType name pos => do return .type (← reading fun store => store.type name pos)
  | .ask name => do return .binding ((← get).store.find? name)

/-- The change that a request asks for. -/
def change? : Request → Option Change
  | .declare name type initial _ => some (.declared name type (initial.getD .empty))
  | .assign name value _ => some (.assigned name value)
  | _ => none

end Request

/-- A request, with the session that it finds. -/
structure Entry where
  request : Request
  before : Session

namespace Entry

/-- The answer, or the fault with which the request is refused. -/
def outcome (e : Entry) : Except Fault Answer :=
  e.request.exec.outcome e.before

/-- The session that the request leaves. -/
def after (e : Entry) : Session :=
  e.request.exec.after e.before

/-- The change that the request makes. -/
def change? (e : Entry) : Option Change :=
  match e.outcome with
  | .ok _ => e.request.change?
  | .error _ => none

end Entry

/-- The requests in order, each with the session that the ones before it have left. -/
def transcript : List Request → Session → List Entry
  | [], _ => []
  | r :: rs, s => ⟨r, s⟩ :: transcript rs (r.exec.after s)

/-- The session after all requests. -/
def serve : List Request → Session → Session
  | [], s => s
  | r :: rs, s => serve rs (r.exec.after s)

/-- The changes among some requests. -/
def changes (log : List Entry) : List Change :=
  log.filterMap Entry.change?

/-- The types that a name was declared with. -/
def declarations (name : String) (history : List Change) : List DataType :=
  history.filterMap fun
    | .declared n type _ => if n = name then some type else none
    | .assigned _ _ => none

/-- The values that were written to a name. -/
def writes (name : String) (history : List Change) : List Value :=
  history.filterMap fun
    | .declared n _ v => if n = name then some v else none
    | .assigned n v => if n = name then some v else none

/-- The names that were declared. -/
def declaredNames (history : List Change) : List String :=
  history.filterMap fun
    | .declared n _ _ => some n
    | .assigned _ _ => none

/-- The answer to a request, or the fault with which it is refused, by the history. -/
def Request.expected (history : List Change) : Request → Except Fault Answer
  | .declare name type initial pos =>
      if declarations name history ≠ [] then .error (.program pos (.redeclared name))
      else
        match initial with
        | none => .ok .done
        | some v =>
            if v.type? = some type then .ok .done
            else .error (.program pos (.mismatch v.type? type))
  | .assign name v pos =>
      match declarations name history with
      | [] => .error (.program pos (.undefined name))
      | type :: _ =>
          if v.type? = some type then .ok .done
          else .error (.program pos (.mismatch v.type? type))
  | .askValue name pos =>
      match (writes name history).getLast? with
      | none => .error (.program pos (.undefined name))
      | some v => .ok (.value v)
  | .askType name pos =>
      match declarations name history with
      | [] => .error (.program pos (.undeclared name))
      | type :: _ => .ok (.type type)
  | .ask name =>
      match declarations name history, (writes name history).getLast? with
      | type :: _, some v => .ok (.binding (some ⟨type, v⟩))
      | _, _ => .ok (.binding none)

/-- A store is what a history says. -/
structure Reflects (history : List Change) (store : Store) : Prop where
  free : ∀ {name}, store.find? name = none →
    declarations name history = [] ∧ writes name history = []
  bound : ∀ {name b}, store.find? name = some b →
    declarations name history = [b.type] ∧ (writes name history).getLast? = some b.value
  size : store.size = (declaredNames history).toFinset.card

section Histories

variable {history : List Change} {name other : String} {type : DataType} {v : Value}

theorem declarations_declared :
    declarations other (history ++ [.declared name type v]) =
      declarations other history ++ if name = other then [type] else [] := by
  by_cases h : name = other <;> simp [declarations, h]

theorem writes_declared :
    writes other (history ++ [.declared name type v]) =
      writes other history ++ if name = other then [v] else [] := by
  by_cases h : name = other <;> simp [writes, h]

theorem declarations_assigned :
    declarations other (history ++ [.assigned name v]) = declarations other history := by
  simp [declarations]

theorem writes_assigned :
    writes other (history ++ [.assigned name v]) =
      writes other history ++ if name = other then [v] else [] := by
  by_cases h : name = other <;> simp [writes, h]

theorem declaredNames_declared :
    declaredNames (history ++ [.declared name type v]) = declaredNames history ++ [name] := by
  simp [declaredNames]

theorem declaredNames_assigned :
    declaredNames (history ++ [.assigned name v]) = declaredNames history := by
  simp [declaredNames]

theorem notMem_declaredNames (h : declarations name history = []) :
    name ∉ declaredNames history := by
  intro hmem
  simp only [declaredNames, List.mem_filterMap] at hmem
  rcases hmem with ⟨c, hc, hname⟩
  cases c with
  | declared n type v =>
      rcases Option.some.inj hname with rfl
      have htype : type ∈ declarations n history :=
        List.mem_filterMap.mpr ⟨_, hc, if_pos rfl⟩
      rw [h] at htype
      exact absurd htype List.not_mem_nil
  | assigned n v => cases hname

theorem changes_cons (e : Entry) (log : List Entry) :
    changes (e :: log) = e.change?.toList ++ changes log := by
  unfold changes
  cases h : e.change? <;> simp [h]

end Histories

section Requests

variable {s : Session} {α : Type}

theorem outcome_updating (u : Update) (a : Answer) :
    (do updating u; return a : Action Answer).outcome s =
      match u.run s.store with
      | .ok _ _ => .ok a
      | .error e _ => .error e := by
  simp only [Action.outcome, EStateM.run_bind, run_updating]
  cases u.run s.store <;> rfl

theorem after_updating (u : Update) (a : Answer) :
    (do updating u; return a : Action Answer).after s =
      match u.run s.store with
      | .ok _ store => { s with store }
      | .error _ store => { s with store } := by
  simp only [Action.after, EStateM.run_bind, run_updating]
  cases u.run s.store <;> rfl

theorem outcome_reading {f : Store → Except Fault α} (g : α → Answer) :
    (do return g (← reading f) : Action Answer).outcome s = (f s.store).map g := by
  simp only [Action.outcome, EStateM.run_bind, run_reading]
  cases f s.store <;> rfl

theorem after_reading {f : Store → Except Fault α} (g : α → Answer) :
    (do return g (← reading f) : Action Answer).after s = s := by
  simp only [Action.after, EStateM.run_bind, run_reading]
  cases f s.store <;> rfl

/-- What a request can leave, with the change that it makes. -/
inductive Effect (s : Session) : Option Change → Session → Prop where
  | none : Effect s none s
  | declared {name : String} {type : DataType} {initial : Option Value} {pos : Position}
      {store : Store} (h : (Store.declare name type initial pos).run s.store = .ok () store) :
      Effect s (some (.declared name type (initial.getD .empty))) { s with store }
  | assigned {name : String} {v : Value} {pos : Position} {store : Store}
      (h : (Store.assign name v pos).run s.store = .ok () store) :
      Effect s (some (.assigned name v)) { s with store }

/-- A change that is refused as a whole has no effect, and one that is made has its own. -/
theorem effect_updating {u : Update} (hu : u.Atomic) {change : Change} (a : Answer)
    (hmade : ∀ {store}, u.run s.store = .ok () store →
      Effect s (some change) { s with store }) :
    Effect s
      (match (do updating u; return a : Action Answer).outcome s with
        | .ok _ => some change
        | .error _ => none)
      ((do updating u; return a : Action Answer).after s) := by
  rw [outcome_updating, after_updating]
  cases h : u.run s.store with
  | ok _ store => exact hmade h
  | error fault store =>
      rw [hu h]
      exact .none

namespace Entry

/-- A request leaves a session as its effect says. -/
theorem effect (e : Entry) : Effect e.before e.change? e.after := by
  rcases e with ⟨r, s⟩
  unfold change? Entry.outcome Entry.after
  cases r with
  | declare name type initial pos =>
      exact effect_updating declare_atomic .done fun h => .declared h
  | assign name v pos => exact effect_updating assign_atomic .done fun h => .assigned h
  | askValue name pos =>
      simp only [Request.exec, Request.change?, after_reading]
      split <;> exact .none
  | askType name pos =>
      simp only [Request.exec, Request.change?, after_reading]
      split <;> exact .none
  | ask name => exact .none

/-- What is refused has no effect. -/
theorem after_of_refused {e : Entry} {fault : Fault} (h : e.outcome = .error fault) :
    e.after = e.before := by
  have heffect := e.effect
  rw [change?, h] at heffect
  generalize e.after = t at heffect ⊢
  cases heffect
  rfl

end Entry

end Requests

section Reflects

variable {history : List Change} {store store' : Store} {name : String} {type : DataType}
  {initial : Option Value} {v : Value} {pos : Position}

theorem size_declare (h : (Store.declare name type initial pos).run store = .ok () store') :
    store'.size = store.size + 1 := by
  rw [eq_of_declare h]
  rfl

theorem size_assign (h : (Store.assign name v pos).run store = .ok () store') :
    store'.size = store.size := by
  rw [eq_of_assign h]
  exact List.length_map _

namespace Reflects

theorem empty : Reflects [] Store.empty where
  free _ := ⟨rfl, rfl⟩
  bound h := by simp only [find?, Store.empty, List.lookup_nil, reduceCtorEq] at h
  size := rfl

theorem declare (h : Reflects history store)
    (hd : (Store.declare name type initial pos).run store = .ok () store') :
    Reflects (history ++ [.declared name type (initial.getD .empty)]) store' := by
  have hfree := h.free (declare_eq_ok hd).1
  refine ⟨fun {other} hother => ?_, fun {other b} hother => ?_, ?_⟩
  · rw [find?_declare hd other] at hother
    by_cases ho : other = name
    · rw [if_pos ho] at hother
      cases hother
    · rw [if_neg ho] at hother
      rw [declarations_declared, writes_declared, if_neg (Ne.symm ho), if_neg (Ne.symm ho),
        List.append_nil, List.append_nil]
      exact h.free hother
  · rw [find?_declare hd other] at hother
    rw [declarations_declared, writes_declared]
    by_cases ho : other = name
    · -- There is no other declaration of the name, since it was free.
      rw [if_pos ho, Option.some.injEq] at hother
      rw [if_pos ho.symm, if_pos ho.symm, ho, hfree.1, ← hother, List.nil_append,
        List.getLast?_concat]
      exact ⟨rfl, rfl⟩
    · rw [if_neg ho] at hother
      rw [if_neg (Ne.symm ho), if_neg (Ne.symm ho), List.append_nil, List.append_nil]
      exact h.bound hother
  · have hnew : name ∉ (declaredNames history).toFinset := by
      rw [List.mem_toFinset]
      exact notMem_declaredNames hfree.1
    rw [size_declare hd, h.size, declaredNames_declared, List.toFinset_append,
      List.toFinset_cons, List.toFinset_nil, insert_empty_eq, Finset.union_singleton,
      Finset.card_insert_of_notMem hnew]

theorem assign (h : Reflects history store)
    (ha : (Store.assign name v pos).run store = .ok () store') :
    Reflects (history ++ [.assigned name v]) store' := by
  rcases assign_eq_ok ha with ⟨b₀, hb₀, -⟩
  refine ⟨fun {other} hother => ?_, fun {other b} hother => ?_, ?_⟩
  · rw [find?_assign ha other, Option.map_eq_none_iff] at hother
    have ho : name ≠ other := by
      rintro rfl
      cases hb₀.symm.trans hother
    rw [declarations_assigned, writes_assigned, if_neg ho, List.append_nil]
    exact h.free hother
  · rw [find?_assign ha other, Option.map_eq_some_iff] at hother
    rcases hother with ⟨b', hb', rfl⟩
    rw [declarations_assigned, writes_assigned]
    by_cases ho : other = name
    · rw [if_pos ho, if_pos ho.symm, List.getLast?_concat]
      exact ⟨(h.bound hb').1, rfl⟩
    · rw [if_neg ho, if_neg (Ne.symm ho), List.append_nil]
      exact h.bound hb'
  · rw [size_assign ha, h.size, declaredNames_assigned]

/-- One request adds its change, if it makes one. -/
theorem entry {e : Entry} (h : Reflects history e.before.store) :
    Reflects (history ++ e.change?.toList) e.after.store := by
  have heffect := e.effect
  generalize e.change? = change, e.after = after at heffect ⊢
  cases heffect with
  | none => rw [Option.toList_none, List.append_nil]; exact h
  | declared hd => exact h.declare hd
  | assigned ha => exact h.assign ha

theorem serve {requests : List Request} {s : Session} (h : Reflects history s.store) :
    Reflects (history ++ changes (transcript requests s)) (Store.serve requests s).store := by
  induction requests generalizing history s with
  | nil => rw [transcript, changes, List.filterMap_nil, List.append_nil]; exact h
  | cons r rs ih =>
      rw [transcript, changes_cons, ← List.append_assoc]
      exact ih (entry (e := ⟨r, s⟩) h)

/-- What each request finds is what the history before it says. -/
theorem before {requests : List Request} {s : Session} (h : Reflects history s.store)
    {earlier later : List Entry} {e : Entry}
    (hlog : transcript requests s = earlier ++ e :: later) :
    Reflects (history ++ changes earlier) e.before.store := by
  induction requests generalizing history s earlier with
  | nil => cases earlier <;> cases hlog
  | cons r rs ih =>
      rw [transcript] at hlog
      cases earlier with
      | nil =>
          rcases List.cons.inj hlog with ⟨rfl, -⟩
          rw [changes, List.filterMap_nil, List.append_nil]
          exact h
      | cons first earlier =>
          rcases List.cons.inj hlog with ⟨rfl, hrest⟩
          rw [changes_cons, ← List.append_assoc]
          exact ih h.entry hrest

theorem outcome_eq {r : Request} {s : Session} (h : Reflects history s.store) :
    r.exec.outcome s = r.expected history := by
  cases r with
  | declare name type initial pos =>
      simp only [Request.exec, outcome_updating, Request.expected, run_declare]
      cases hfind : s.store.find? name with
      | some b => simp [(h.bound hfind).1]
      | none =>
          simp only [(h.free hfind).1, ne_eq, not_true_eq_false, if_false]
          cases initial with
          | none => rfl
          | some v => by_cases hv : v.type? = some type <;> simp [Value.conform, hv]
  | assign name v pos =>
      simp only [Request.exec, outcome_updating, Request.expected, run_assign]
      cases hfind : s.store.find? name with
      | none => simp only [(h.free hfind).1]
      | some b =>
          simp only [(h.bound hfind).1]
          by_cases hv : v.type? = some b.type <;> simp [Value.conform, hv]
  | askValue name pos =>
      simp only [Request.exec, outcome_reading, Request.expected, Store.value]
      cases hfind : s.store.find? name with
      | none => simp only [(h.free hfind).2, List.getLast?_nil, Except.map]
      | some b => simp only [(h.bound hfind).2, Except.map]
  | askType name pos =>
      simp only [Request.exec, outcome_reading, Request.expected, Store.type]
      cases hfind : s.store.find? name with
      | none => simp only [(h.free hfind).1, Except.map]
      | some b => simp only [(h.bound hfind).1, Except.map]
  | ask name =>
      have hask : (Request.ask name).exec.outcome s = .ok (.binding (s.store.find? name)) := rfl
      rw [hask, Request.expected]
      cases hfind : s.store.find? name with
      | none => simp only [(h.free hfind).1]
      | some b => simp only [(h.bound hfind).1, (h.bound hfind).2]

end Reflects

end Reflects

/-- Whatever is requested of a fresh store, in any order and however often: a request that is
    refused leaves everything as it was; a name is bound exactly if it was declared, which
    happens once, with the type it was declared with then and the value written last; the
    variables are as many as the names declared; and each request is answered as the
    history before it demands. -/
theorem serve_refines_history (requests : List Request) (s : Session) :
    let fresh : Session := { s with store := .empty }
    let log := transcript requests fresh
    let store := (serve requests fresh).store
    (∀ e ∈ log, ∀ fault, e.outcome = .error fault → e.after = e.before) ∧
      (∀ name, store.find? name ≠ none ↔ declarations name (changes log) ≠ []) ∧
      (∀ name b, store.find? name = some b →
        declarations name (changes log) = [b.type] ∧
        (writes name (changes log)).getLast? = some b.value) ∧
      store.size = (declaredNames (changes log)).toFinset.card ∧
      ∀ earlier e later, log = earlier ++ e :: later →
        e.outcome = e.request.expected (changes earlier) := by
  intro fresh log store
  have hstart : Reflects [] fresh.store := Reflects.empty
  have hend : Reflects (changes log) store := hstart.serve
  refine ⟨fun e _ fault he => Entry.after_of_refused he, fun name => ⟨?_, ?_⟩,
    fun name b hb => hend.bound hb, hend.size, fun earlier e later hlog => ?_⟩
  · intro hbound
    rcases Option.ne_none_iff_exists'.mp hbound with ⟨b, hb⟩
    rw [(hend.bound hb).1]
    exact List.cons_ne_nil _ _
  · intro hdeclared hfree
    exact hdeclared (hend.free hfree).1
  · exact (hstart.before hlog).outcome_eq

/-- Of two declarations and two assignments, one each is refused. An empty value is no initial
    value. -/
example :
    let pos : Position := ⟨1, 0⟩
    changes (transcript [.declare "x" .int (some .empty) pos, .declare "x" .int none pos,
        .assign "x" (.bool true) pos, .askType "x" pos, .assign "x" (.int 3) pos] {}) =
      [.declared "x" .int .empty, .assigned "x" (.int 3)] := by
  decide +kernel

end Store

end Primer
