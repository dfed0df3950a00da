import Mathlib.Logic.Function.Basic
import DocGraph.Proofs.Session

/-! # Requests that run at the same time

The calls on the requests of a session come in any order, and an engine may take its time with a
transaction that it has been handed. A call makes statements out of the request alone: it looks neither at
the store nor at another request. Only the run of a transaction touches the store, and a request has one
transaction. So two occurrences of different requests can change places unless both run a transaction
(`World.step_comm`), and all that happens to one request can be moved to the front, unless another one has
run its transaction before (`World.play_extract`). Request by request, this puts the requests one after the
other: `play_serial`. -/

namespace DocGraph

/-! ### Occurrences -/

/-- What happens to a request of a session: a field calls it at a point in time, or the engine gets to run
the transaction that it holds back for it. -/
inductive Occurrence where
  | call (number : Nat) (now : Int) (operation : Operation)
  | execute (number : Nat)

namespace Occurrence

/-- The number of the request. -/
def number : Occurrence → Nat
  | call number _ _ => number
  | execute number => number

end Occurrence

/-- The call that an operation makes on its request. -/
def Operation.call (o : Operation) (now : Int) : Call :=
  ⟨now, o.isRoot, o.selection, o.mutation⟩

namespace Session

/-- The transaction that the engine holds back for a request. -/
def heldFor? (s : Session) (number : Nat) : Option HeldTransaction :=
  s.held.find? fun h => h.field.request == number

/-- The engine runs the transaction that it holds back for a request. -/
def execute (s : Session) (number : Nat) : Session :=
  match s.heldFor? number with
  | none => s
  | some h =>
    let s := { s with held := s.held.eraseP fun h => h.field.request == number }
    (s.complete number h.transaction).fillSlot h.slot h.field

/-- The session at a point in time. -/
def atTime (s : Session) (now : Int) : Session :=
  { s with model := { s.model with now := now } }

/-- The session after something has happened. -/
def happen (s : Session) : Occurrence → Session
  | .call number now operation =>
    match s.request? number with
    | none => s
    | some r => ((s.atTime now).contribute r operation).2
  | .execute number => s.execute number

/-- The transaction that the engine runs when something happens. -/
def runs? (s : Session) : Occurrence → Option Transaction
  | .call number now operation =>
    if s.engine.holds then none
    else (s.request? number).bind fun r => submission? (r.call s.model (operation.call now)).1
  | .execute number => (s.heldFor? number).map HeldTransaction.transaction

/-- The session after several things have happened one after another. -/
def play (s : Session) (occurrences : List Occurrence) : Session :=
  occurrences.foldl happen s

/-- The transactions that the engine runs meanwhile, in order, each with the number of its request. -/
def executions (s : Session) : List Occurrence → List (Nat × Transaction)
  | [] => []
  | e :: rest => ((s.runs? e).map fun t => (e.number, t)).toList ++ (s.happen e).executions rest

end Session

/-- What happens to some requests one after the other: all that happens to the first, then all that happens
to the second, and so on. -/
def serially (order : List Nat) (occurrences : List Occurrence) : List Occurrence :=
  order.flatMap fun number => occurrences.filter fun e => e.number == number

/-! ### Threads -/

/-- A request of a session, with the transactions that the engine holds back for it. -/
structure Thread where
  request : Option Request
  held : List Transaction

namespace Thread

/-- The request has its outcome. -/
def finish (th : Thread) (o : Outcome) : Thread :=
  { th with request := th.request.map fun r => r.finish o }

/-- What an occurrence makes of its request, and the transaction that the engine then runs. -/
def step (m : Model) (holds : Bool) (th : Thread) : Occurrence → Thread × Option Transaction
  | .call _ now operation =>
    match th.request with
    | none => (th, none)
    | some r =>
      let (reply, r) := r.call m (operation.call now)
      match submission? reply with
      | none => (⟨some r, th.held⟩, none)
      | some t => if holds then (⟨some r, th.held ++ [t]⟩, none) else (⟨some r, th.held⟩, some t)
  | .execute _ => (⟨th.request, th.held.tail⟩, th.held.head?)

end Thread

/-- The requests of a session and its database. -/
structure World where
  threads : Nat → Thread
  database : Database

namespace World

variable (m : Model) (holds : Bool)

/-- The transaction that the engine runs when something happens. -/
def runs? (w : World) (e : Occurrence) : Option Transaction :=
  ((w.threads e.number).step m holds e).2

/-- The world after something has happened: one request is changed, and the database if the engine has run
a transaction. -/
def step (w : World) (e : Occurrence) : World :=
  match w.runs? m holds e with
  | none => ⟨Function.update w.threads e.number ((w.threads e.number).step m holds e).1, w.database⟩
  | some t =>
    ⟨Function.update w.threads e.number
      (((w.threads e.number).step m holds e).1.finish (w.database.execute t).1),
      (w.database.execute t).2⟩

def play (w : World) (occurrences : List Occurrence) : World :=
  occurrences.foldl (step m holds) w

/-- The transactions that the engine runs meanwhile. -/
def executions (w : World) : List Occurrence → List (Nat × Transaction)
  | [] => []
  | e :: rest =>
    ((w.runs? m holds e).map fun t => (e.number, t)).toList ++ (w.step m holds e).executions rest

end World

/-! ### Occurrences of different requests -/

namespace World

variable {m : Model} {holds : Bool} {w w' : World} {e e' : Occurrence} {n : Nat} {es : List Occurrence}

theorem step_of_none (h : w.runs? m holds e = none) :
    w.step m holds e =
      ⟨Function.update w.threads e.number ((w.threads e.number).step m holds e).1, w.database⟩ := by
  unfold step
  rw [h]

theorem step_of_some {t : Transaction} (h : w.runs? m holds e = some t) :
    w.step m holds e =
      ⟨Function.update w.threads e.number
        (((w.threads e.number).step m holds e).1.finish (w.database.execute t).1),
        (w.database.execute t).2⟩ := by
  unfold step
  rw [h]

theorem threads_step_self (h : w.runs? m holds e = none) (here : e.number = n) :
    (w.step m holds e).threads n = ((w.threads n).step m holds e).1 := by
  rw [step_of_none h, here]
  exact Function.update_self _ _ _

theorem step_of_eq_none {th : Thread} (h : (w.threads e.number).step m holds e = (th, none)) :
    w.step m holds e = ⟨Function.update w.threads e.number th, w.database⟩ := by
  rw [step_of_none (congrArg Prod.snd h), h]

theorem step_of_eq_some {th : Thread} {t : Transaction}
    (h : (w.threads e.number).step m holds e = (th, some t)) :
    w.step m holds e =
      ⟨Function.update w.threads e.number (th.finish (w.database.execute t).1),
        (w.database.execute t).2⟩ := by
  rw [step_of_some (congrArg Prod.snd h), h]

/-- Other requests stay as they are. -/
theorem threads_step_of_ne (h : e.number ≠ n) : (w.step m holds e).threads n = w.threads n := by
  rcases hr : w.runs? m holds e with _ | t
  · rw [step_of_none hr]
    exact Function.update_of_ne h.symm _ _
  · rw [step_of_some hr]
    exact Function.update_of_ne h.symm _ _

theorem runs?_step_of_ne (h : e.number ≠ e'.number) :
    (w.step m holds e).runs? m holds e' = w.runs? m holds e' := by
  unfold runs?
  rw [threads_step_of_ne h]

theorem threads_play_of_ne (h : ∀ e ∈ es, e.number ≠ n) :
    (w.play m holds es).threads n = w.threads n := by
  induction es generalizing w with
  | nil => rfl
  | cons e es ih =>
      refine (ih fun x hx => h x (List.mem_cons_of_mem e hx)).trans ?_
      exact threads_step_of_ne (h e List.mem_cons_self)

/-- Occurrences of different requests can change places if one of them runs no transaction. -/
theorem step_comm (other : e.number ≠ e'.number)
    (free : w.runs? m holds e = none ∨ w.runs? m holds e' = none) :
    (w.step m holds e).step m holds e' = (w.step m holds e').step m holds e := by
  have first : (w.step m holds e').runs? m holds e = w.runs? m holds e := runs?_step_of_ne other.symm
  have second : (w.step m holds e).runs? m holds e' = w.runs? m holds e' := runs?_step_of_ne other
  have thread : (w.step m holds e).threads e'.number = w.threads e'.number := threads_step_of_ne other
  have thread' : (w.step m holds e').threads e.number = w.threads e.number :=
    threads_step_of_ne other.symm
  rcases hr : w.runs? m holds e with _ | t
  · rcases hr' : w.runs? m holds e' with _ | t'
    · rw [step_of_none (second.trans hr'), step_of_none (first.trans hr), thread, thread',
        step_of_none hr, step_of_none hr', Function.update_comm other]
    · rw [step_of_some (second.trans hr'), step_of_none (first.trans hr), thread, thread',
        step_of_none hr, step_of_some hr', Function.update_comm other]
  · have hr' : w.runs? m holds e' = none := by
      rcases free with none | none
      · rw [hr] at none
        cases none
      · exact none
    rw [step_of_none (second.trans hr'), step_of_some (first.trans hr), thread, thread',
      step_of_some hr, step_of_none hr', Function.update_comm other]

theorem executions_cons_of_none (h : w.runs? m holds e = none) :
    w.executions m holds (e :: es) = (w.step m holds e).executions m holds es := by
  rw [executions, h]
  rfl

theorem executions_cons_of_some {t : Transaction} (h : w.runs? m holds e = some t) :
    w.executions m holds (e :: es) = (e.number, t) :: (w.step m holds e).executions m holds es := by
  rw [executions, h]
  rfl

/-- Each call says when it is made. -/
theorem executions_now (m : Model) (now : Int) (holds : Bool) (w : World)
    (es : List Occurrence) :
    w.executions { m with now := now } holds es = w.executions m holds es := by
  induction es generalizing w with
  | nil => rfl
  | cons e es ih => exact congrArg (((w.runs? m holds e).map fun t => (e.number, t)).toList ++ ·) (ih _)

/-- An occurrence can change places with all that happens to other requests, if it or they run no
transaction. -/
theorem play_comm (others : ∀ x ∈ es, e.number ≠ x.number)
    (free : w.runs? m holds e = none ∨ w.executions m holds es = []) :
    (w.step m holds e).play m holds es = (w.play m holds es).step m holds e := by
  induction es generalizing w with
  | nil => rfl
  | cons x es ih =>
      have apart := others x List.mem_cons_self
      have quiet : w.runs? m holds e = none ∨
          w.runs? m holds x = none ∧ (w.step m holds x).executions m holds es = [] := by
        refine free.imp_right fun none => ?_
        rcases hx : w.runs? m holds x with _ | t
        · rw [executions_cons_of_none hx] at none
          exact ⟨rfl, none⟩
        · rw [executions_cons_of_some hx] at none
          cases none
      calc (w.step m holds e).play m holds (x :: es)
          = ((w.step m holds x).step m holds e).play m holds es :=
            congrArg (play m holds · es) (step_comm apart (quiet.imp_right And.left))
        _ = (w.play m holds (x :: es)).step m holds e := by
            refine ih (fun y hy => others y (List.mem_cons_of_mem x hy)) ?_
            rw [runs?_step_of_ne apart.symm]
            exact quiet.imp_right And.right

/-! ### One request before all others -/

/-- What happens to one request. -/
def own (n : Nat) (es : List Occurrence) : List Occurrence :=
  es.filter fun e => e.number == n

/-- What happens to all requests but one. -/
def others (n : Nat) (es : List Occurrence) : List Occurrence :=
  es.filter fun e => e.number != n

theorem own_cons_self (h : e.number = n) : own n (e :: es) = e :: own n es :=
  List.filter_cons_of_pos (by simpa using h)

theorem own_cons_of_ne (h : e.number ≠ n) : own n (e :: es) = own n es :=
  List.filter_cons_of_neg (by simpa using h)

theorem others_cons_self (h : e.number = n) : others n (e :: es) = others n es :=
  List.filter_cons_of_neg (by simpa using h)

theorem others_cons_of_ne (h : e.number ≠ n) : others n (e :: es) = e :: others n es :=
  List.filter_cons_of_pos (by simpa using h)

theorem number_of_mem_own (h : e ∈ own n es) : e.number = n := by
  simpa using (List.mem_filter.mp h).2

/-- A request that runs no transaction among all others runs none when left alone: until it does, nothing
that it goes through depends on the database. -/
theorem executions_own_eq_nil (same : w'.threads n = w.threads n)
    (never : n ∉ (w.executions m holds es).map Prod.fst) : w'.executions m holds (own n es) = [] := by
  induction es generalizing w w' with
  | nil => rfl
  | cons e es ih =>
      by_cases here : e.number = n
      · have agree : w'.runs? m holds e = w.runs? m holds e := by
          unfold runs?
          rw [here, same]
        have idle : w.runs? m holds e = none := by
          rcases hr : w.runs? m holds e with _ | t
          · rfl
          · rw [executions_cons_of_some hr, List.map_cons, here] at never
            exact absurd List.mem_cons_self never
        rw [executions_cons_of_none idle] at never
        rw [own_cons_self here, executions_cons_of_none (agree.trans idle)]
        refine ih ?_ never
        rw [threads_step_self idle here, threads_step_self (agree.trans idle) here, same]
      · rw [own_cons_of_ne here]
        have still : (w.step m holds e).threads n = w.threads n := threads_step_of_ne here
        refine ih (same.trans still.symm) fun later => never ?_
        rw [executions, List.map_append]
        exact List.mem_append_right _ later

/-- What happens to a request can be moved to the front, unless another one has run its transaction
before. -/
theorem play_extract
    (first : n ∉ (w.executions m holds es).map Prod.fst ∨
      ∃ rest, (w.executions m holds es).map Prod.fst = n :: rest ∧ n ∉ rest) :
    w.play m holds es = (w.play m holds (own n es)).play m holds (others n es) ∧
      (w.play m holds (own n es)).executions m holds (others n es) =
        (w.executions m holds es).filter fun x => x.1 != n := by
  induction es generalizing w with
  | nil => exact ⟨rfl, rfl⟩
  | cons e es ih =>
      by_cases here : e.number = n
      · have tail : (n ∉ ((w.step m holds e).executions m holds es).map Prod.fst ∨
            ∃ rest, ((w.step m holds e).executions m holds es).map Prod.fst = n :: rest ∧ n ∉ rest) ∧
            (w.executions m holds (e :: es)).filter (fun x => x.1 != n) =
              ((w.step m holds e).executions m holds es).filter fun x => x.1 != n := by
          rcases hr : w.runs? m holds e with _ | t
          · rw [executions_cons_of_none hr] at first ⊢
            exact ⟨first, rfl⟩
          · rw [executions_cons_of_some hr, List.map_cons, here] at first
            rw [executions_cons_of_some hr, List.filter_cons_of_neg (by simpa using here)]
            refine ⟨Or.inl ?_, rfl⟩
            rcases first with never | ⟨rest, same, later⟩
            · exact absurd List.mem_cons_self never
            · rw [(List.cons.inj same).2]
              exact later
        rw [own_cons_self here, others_cons_self here, tail.2]
        exact ih tail.1
      · rw [own_cons_of_ne here, others_cons_of_ne here]
        have tail : n ∉ ((w.step m holds e).executions m holds es).map Prod.fst ∨
            w.runs? m holds e = none ∧ ∃ rest,
              ((w.step m holds e).executions m holds es).map Prod.fst = n :: rest ∧ n ∉ rest := by
          rcases hr : w.runs? m holds e with _ | t
          · rw [executions_cons_of_none hr] at first
            exact first.imp_right fun h => ⟨rfl, h⟩
          · rw [executions_cons_of_some hr, List.map_cons] at first
            refine Or.inl ?_
            rcases first with never | ⟨rest, same, _⟩
            · exact fun later => never (List.mem_cons_of_mem _ later)
            · exact absurd (List.cons.inj same).1 here
        obtain ⟨played, ran⟩ := ih (tail.imp_right And.right)
        -- The occurrence changes places with what happens to the request, one of which runs nothing.
        have moved : (w.step m holds e).play m holds (own n es) =
            (w.play m holds (own n es)).step m holds e := by
          refine play_comm (fun x hx same => here (same.trans (number_of_mem_own hx))) ?_
          rcases tail with never | ⟨idle, _⟩
          · exact Or.inr (executions_own_eq_nil (threads_step_of_ne here).symm never)
          · exact Or.inl idle
        have same : (w.play m holds (own n es)).runs? m holds e = w.runs? m holds e := by
          unfold runs?
          rw [threads_play_of_ne fun x hx => fun eq => here (eq.symm.trans (number_of_mem_own hx))]
        refine ⟨?_, ?_⟩
        · show (w.step m holds e).play m holds es =
            ((w.play m holds (own n es)).step m holds e).play m holds (others n es)
          rw [played, moved]
        · rcases hr : w.runs? m holds e with _ | t
          · rw [executions_cons_of_none (same.trans hr), executions_cons_of_none hr, ← moved, ran]
          · rw [executions_cons_of_some (same.trans hr), executions_cons_of_some hr, ← moved, ran,
              List.filter_cons_of_pos (by simpa using here)]

/-- The database has gone through the transactions that have been run, and through nothing else. -/
theorem database_play : (w.play m holds es).database =
    ((w.executions m holds es).map Prod.snd).foldl (fun db t => (db.execute t).2) w.database := by
  induction es generalizing w with
  | nil => rfl
  | cons e es ih =>
      refine ih.trans ?_
      rcases hr : w.runs? m holds e with _ | t
      · rw [executions_cons_of_none hr, step_of_none hr]
      · rw [executions_cons_of_some hr, step_of_some hr]
        rfl

theorem serially_others {order : List Nat} (absent : n ∉ order) :
    serially order (others n es) = serially order es := by
  unfold serially others
  rw [List.flatMap_def, List.flatMap_def]
  refine congrArg List.flatten (List.map_congr_left fun k hk => ?_)
  rw [List.filter_filter]
  refine List.filter_congr fun e _ => ?_
  by_cases here : e.number = k
  · have apart : e.number ≠ n := fun same => absent (same ▸ here ▸ hk)
    simp [here, here ▸ apart]
  · simp [here]

theorem number_mem_of_mem_serially {order : List Nat} (h : e ∈ serially order es) : e.number ∈ order := by
  obtain ⟨k, hk, he⟩ := List.mem_flatMap.mp h
  rw [number_of_mem_own he]
  exact hk

/-- What happens to some requests can be put one request after the other, in any order in which their
transactions are run in the order in which they have been run. -/
theorem play_serially {order : List Nat} (distinct : order.Nodup)
    (ordered : ((w.executions m holds es).map Prod.fst).Sublist order) :
    (w.play m holds (serially order es)).database = (w.play m holds es).database ∧
      ∀ k ∈ order, (w.play m holds (serially order es)).threads k = (w.play m holds es).threads k := by
  induction order generalizing w es with
  | nil =>
      have nothing : w.executions m holds es = [] :=
        List.map_eq_nil_iff.mp (List.sublist_nil.mp ordered)
      have played : (w.play m holds es).database = w.database := by
        rw [database_play, nothing]
        rfl
      exact ⟨played.symm, by simp⟩
  | cons n order ih =>
      obtain ⟨absent, distinct⟩ := List.nodup_cons.mp distinct
      have first : n ∉ (w.executions m holds es).map Prod.fst ∨
          ∃ rest, (w.executions m holds es).map Prod.fst = n :: rest ∧ n ∉ rest := by
        rcases List.sublist_cons_iff.mp ordered with later | ⟨rest, same, later⟩
        · exact Or.inl fun h => absent (later.subset h)
        · exact Or.inr ⟨rest, same, fun h => absent (later.subset h)⟩
      obtain ⟨played, ran⟩ := play_extract first
      have others_ordered : (((w.play m holds (own n es)).executions m holds (others n es)).map
          Prod.fst).Sublist order := by
        have kept : order.filter (fun k => k != n) = order := by
          refine List.filter_eq_self.mpr fun k hk => bne_iff_ne.mpr ?_
          rintro rfl
          exact absent hk
        have filtered := ordered.filter fun k => k != n
        rw [List.filter_map, List.filter_cons_of_neg (by simp), kept] at filtered
        rw [ran]
        exact filtered
      obtain ⟨database, threads⟩ := ih distinct others_ordered
      rw [serially_others absent, ← played] at database threads
      have split : w.play m holds (serially (n :: order) es) =
          (w.play m holds (own n es)).play m holds (serially order es) :=
        List.foldl_append
      rw [split]
      refine ⟨database, fun k hk => ?_⟩
      rcases List.mem_cons.mp hk with rfl | later
      · have serial : ∀ e ∈ serially order es, e.number ≠ k := by
          rintro e he rfl
          exact absent (number_mem_of_mem_serially he)
        have mixed : ∀ e ∈ others k es, e.number ≠ k := by
          intro e he
          simpa using (List.mem_filter.mp he).2
        rw [played, threads_play_of_ne serial, threads_play_of_ne mixed]
      · exact threads k later

end World

/-! ### Sessions as worlds -/

namespace Session

variable {s : Session} {n : Nat}

def thread (s : Session) (n : Nat) : Thread where
  request := s.request? n
  held := (s.held.filter fun h => h.field.request == n).map HeldTransaction.transaction

def world (s : Session) : World := ⟨s.thread, s.engine.database⟩

theorem number_of_request? {r : Request} (h : s.request? n = some r) : r.number = n := by
  simpa using List.find?_some h

theorem request?_putRequest (s : Session) (r : Request) (n : Nat) :
    (s.putRequest r).request? n =
      if n = r.number then (s.request? n).map fun _ => r else s.request? n := by
  have step : ∀ rs : List Request,
      (rs.map fun o => if o.number == r.number then r else o).find? (fun o => o.number == n) =
        if n = r.number then (rs.find? fun o => o.number == n).map fun _ => r
        else rs.find? fun o => o.number == n := by
    intro rs
    induction rs with
    | nil => simp
    | cons o rs ih => grind
  exact step s.requests

theorem thread_putRequest {r : Request} (known : s.request? r.number ≠ none) :
    (s.putRequest r).thread = Function.update s.thread r.number ⟨some r, (s.thread r.number).held⟩ := by
  funext n
  by_cases here : n = r.number
  · obtain ⟨o, ho⟩ := Option.ne_none_iff_exists'.mp known
    subst here
    rw [Function.update_self]
    simp [thread, request?_putRequest, ho]
    rfl
  · rw [Function.update_of_ne here]
    simp [thread, request?_putRequest, here]
    rfl

theorem number_finish (r : Request) (o : Outcome) : (r.finish o).number = r.number := by
  unfold Request.finish
  split <;> rfl

theorem thread_finish (s : Session) (n : Nat) (o : Outcome) :
    (match s.request? n with
      | some r => s.putRequest (r.finish o)
      | none => s).thread = Function.update s.thread n ((s.thread n).finish o) := by
  rcases hr : s.request? n with _ | r
  · have idle : (s.thread n).finish o = s.thread n := by
      simp [Thread.finish, thread, hr]
    rw [idle, Function.update_eq_self]
  · have number : (r.finish o).number = n := (number_finish r o).trans (number_of_request? hr)
    refine (thread_putRequest (by simp [number, hr])).trans ?_
    rw [number]
    simp [Thread.finish, thread, hr]

/-- A transaction that is run gives its request the outcome and changes the database. -/
theorem world_complete (s : Session) (n : Nat) (t : Transaction) :
    (s.complete n t).world =
      ⟨Function.update s.thread n ((s.thread n).finish (s.engine.database.execute t).1),
        (s.engine.database.execute t).2⟩ := by
  have threads := thread_finish { s with engine := (s.engine.execute t).2 } n (s.engine.execute t).1
  have database : (s.complete n t).engine = (s.engine.execute t).2 := by
    unfold complete
    dsimp only
    split <;> rfl
  unfold world
  rw [database]
  exact congrArg (World.mk · _) threads

theorem filter_eraseP_held (l : List HeldTransaction) (n k : Nat) :
    (l.eraseP fun h => h.field.request == n).filter (fun h => h.field.request == k) =
      if k = n then (l.filter fun h => h.field.request == k).tail
      else l.filter fun h => h.field.request == k := by
  induction l with
  | nil => simp
  | cons h l ih => grind

theorem holds_note (e : Engine) (t : Transaction) : (e.note t).holds = e.holds := by
  unfold Engine.note
  split <;> rfl

theorem database_note (e : Engine) (t : Transaction) : (e.note t).database = e.database := by
  unfold Engine.note
  split <;> rfl

/-- A transaction that is handed over is held back or run. -/
theorem world_submit (s : Session) (f : WaitingField) (slot : String) (t : Transaction) :
    (s.submit f slot t).2.world =
      if s.engine.holds then
        ⟨Function.update s.thread f.request
          { s.thread f.request with held := (s.thread f.request).held ++ [t] }, s.engine.database⟩
      else
        ⟨Function.update s.thread f.request
          ((s.thread f.request).finish (s.engine.database.execute t).1),
          (s.engine.database.execute t).2⟩ := by
  unfold submit
  dsimp only
  rw [holds_note]
  by_cases holds : s.engine.holds = true
  · rw [if_pos holds, if_pos holds]
    refine congrArg₂ World.mk ?_ (database_note s.engine t)
    funext n
    by_cases here : n = f.request
    · subst here
      rw [Function.update_self]
      simp [thread, request?]
    · rw [Function.update_of_ne here]
      simp [thread, request?, Ne.symm here]
  · rw [if_neg holds, if_neg holds]
    refine (world_complete _ f.request t).trans ?_
    rw [← database_note s.engine t]
    rfl

theorem number_of_turn {m : Model} {r r' : Request} {call : Call} {reply : Except Error Contribution}
    (turn : Turn m r call reply r') : r'.number = r.number := by
  cases turn <;> rfl

/-- What a call on a known request makes of its thread. -/
theorem thread_step_call {r r' : Request} {reply : Except Error Contribution} {now : Int} {o : Operation}
    (known : s.request? n = some r) (called : r.call s.model (o.call now) = (reply, r')) :
    (s.thread n).step s.model s.engine.holds (.call n now o) =
      match submission? reply with
      | none => (⟨some r', (s.thread n).held⟩, none)
      | some t =>
        if s.engine.holds then (⟨some r', (s.thread n).held ++ [t]⟩, none)
        else (⟨some r', (s.thread n).held⟩, some t) := by
  simp only [Thread.step, thread, known, called]

/-- What a call on a known request makes of the world: its request is put back, and a transaction that it
hands over goes to the engine. -/
theorem world_contribute {r r' : Request} {reply : Except Error Contribution} {o : Operation}
    (called : r.contribute s.model o.isRoot o.selection o.mutation = (reply, r')) :
    (submission? reply = none → (s.contribute r o).2.world = (s.putRequest r').world) ∧
    ∀ t, submission? reply = some t → ∃ name,
      (s.contribute r o).2.world = ((s.putRequest r').submit ⟨r'.number, name⟩ o.slot t).2.world := by
  unfold contribute
  rw [called]
  rcases reply with e | c
  · exact ⟨fun _ => rfl, fun t h => by cases h⟩
  · cases c with
    | waits name => exact ⟨fun _ => rfl, fun t h => by cases h⟩
    | nothing => exact ⟨fun _ => rfl, fun t h => by cases h⟩
    | submits name t =>
        constructor
        · intro none
          cases none
        · intro t' some
          cases some
          exact ⟨name, rfl⟩

theorem world_call {r : Request} (known : s.request? n = some r) (now : Int) (o : Operation) :
    (s.happen (.call n now o)).world = s.world.step s.model s.engine.holds (.call n now o) := by
  rcases called : r.call s.model (o.call now) with ⟨reply, r'⟩
  have step := thread_step_call known called
  have happened : s.happen (.call n now o) = ((s.atTime now).contribute r o).2 := by
    simp only [happen, known]
  have number : r'.number = n := by
    have turn := call_turn s.model r (o.call now)
    rw [called] at turn
    exact (number_of_turn turn).trans (number_of_request? known)
  have put : ((s.atTime now).putRequest r').thread =
      Function.update s.thread n ⟨some r', (s.thread n).held⟩ := by
    subst number
    exact thread_putRequest (known.trans_ne (Option.some_ne_none r))
  obtain ⟨idle, submitted⟩ := world_contribute (s := s.atTime now) (r := r) (o := o) called
  rw [happened]
  rcases hr : submission? reply with _ | t
  · rw [hr] at step
    rw [idle hr, World.step_of_eq_none step]
    exact congrArg (World.mk · _) put
  · rw [hr] at step
    obtain ⟨name, submitted⟩ := submitted t hr
    rw [submitted, world_submit, put, number, Function.update_self, Function.update_idem,
      Function.update_idem]
    by_cases holds : s.engine.holds = true
    · rw [World.step_of_eq_none (step.trans (if_pos holds))]
      exact if_pos holds
    · rw [World.step_of_eq_some (step.trans (if_neg holds))]
      exact if_neg holds

theorem world_execute (s : Session) (n : Nat) :
    (s.execute n).world = s.world.step s.model s.engine.holds (.execute n) := by
  have first : (s.thread n).held.head? = (s.heldFor? n).map HeldTransaction.transaction := by
    simp [thread, heldFor?]
  have step : (s.thread n).step s.model s.engine.holds (.execute n) =
      (⟨s.request? n, (s.thread n).held.tail⟩, (s.heldFor? n).map HeldTransaction.transaction) := by
    rw [← first]
    rfl
  have erased : ({ s with held := s.held.eraseP fun h => h.field.request == n } : Session).thread =
      Function.update s.thread n ⟨s.request? n, (s.thread n).held.tail⟩ := by
    funext k
    by_cases here : k = n
    · subst here
      rw [Function.update_self]
      simp [thread, filter_eraseP_held, request?]
    · rw [Function.update_of_ne here]
      simp [thread, filter_eraseP_held, request?, here]
  unfold execute
  rcases hh : s.heldFor? n with _ | h
  · have nothing : (s.thread n).held = [] := by
      rw [hh] at first
      exact List.head?_eq_none_iff.mp first
    have same : (⟨s.request? n, (s.thread n).held.tail⟩ : Thread) = s.thread n := by
      rw [nothing]
      exact congrArg (Thread.mk _) nothing.symm
    rw [hh, same] at step
    rw [World.step_of_eq_none step]
    exact congrArg (World.mk · _) (Function.update_eq_self n s.thread).symm
  · rw [hh] at step
    rw [World.step_of_eq_some step]
    refine (world_complete _ n h.transaction).trans ?_
    rw [erased, Function.update_self, Function.update_idem]
    rfl

/-- A session does what its world does. -/
theorem world_happen (s : Session) (e : Occurrence) :
    (s.happen e).world = s.world.step s.model s.engine.holds e := by
  cases e with
  | call n now o =>
      rcases known : s.request? n with _ | r
      · have idle : s.happen (.call n now o) = s := by
          simp only [happen, known]
        have step : (s.world.threads n).step s.model s.engine.holds (.call n now o) =
            (s.thread n, none) := by
          simp [Thread.step, thread, world, known]
        rw [idle, World.step_of_eq_none step]
        exact congrArg (World.mk · _) (Function.update_eq_self n s.thread).symm
      · exact world_call known now o
  | execute n => exact world_execute s n

theorem runs?_world (s : Session) (e : Occurrence) :
    s.runs? e = s.world.runs? s.model s.engine.holds e := by
  cases e with
  | call n now o =>
      show _ = ((s.thread n).step s.model s.engine.holds (.call n now o)).2
      rcases known : s.request? n with _ | r
      · simp [runs?, Thread.step, thread, known]
      · rcases called : r.call s.model (o.call now) with ⟨reply, r'⟩
        rw [thread_step_call known called]
        simp only [runs?, known, Option.bind_some, called]
        cases submission? reply with
        | none => simp
        | some t => cases s.engine.holds <;> rfl
  | execute n => simp [runs?, World.runs?, world, Thread.step, thread, heldFor?, Occurrence.number]

theorem complete_keeps (s : Session) (n : Nat) (t : Transaction) :
    (s.complete n t).model = s.model ∧ (s.complete n t).engine.holds = s.engine.holds := by
  unfold complete
  dsimp only
  split <;> exact ⟨rfl, rfl⟩

theorem contribute_keeps (s : Session) (r : Request) (o : Operation) :
    (s.contribute r o).2.model = s.model ∧ (s.contribute r o).2.engine.holds = s.engine.holds := by
  unfold contribute
  rcases r.contribute s.model o.isRoot o.selection o.mutation with ⟨e | c, r'⟩
  · exact ⟨rfl, rfl⟩
  · cases c with
    | waits name => exact ⟨rfl, rfl⟩
    | nothing => exact ⟨rfl, rfl⟩
    | submits name t =>
        dsimp only [submit]
        split
        · exact ⟨rfl, holds_note s.engine t⟩
        · obtain ⟨model, holds⟩ := complete_keeps
            { s.putRequest r' with engine := s.engine.note t } r'.number t
          exact ⟨model, holds.trans (holds_note s.engine t)⟩

/-- Whatever happens, the engine goes on to hold transactions back or to run them at once; of the model,
only the time changes. -/
theorem happen_keeps (s : Session) (e : Occurrence) :
    (∃ now, (s.happen e).model = { s.model with now := now }) ∧
      (s.happen e).engine.holds = s.engine.holds := by
  cases e with
  | call n now o =>
      dsimp only [happen]
      split
      · exact ⟨⟨s.model.now, rfl⟩, rfl⟩
      · rename_i r known
        obtain ⟨model, holds⟩ := contribute_keeps (s.atTime now) r o
        exact ⟨⟨now, model⟩, holds⟩
  | execute n =>
      dsimp only [happen, execute]
      split
      · exact ⟨⟨s.model.now, rfl⟩, rfl⟩
      · rename_i h known
        obtain ⟨model, holds⟩ := complete_keeps
          { s with held := s.held.eraseP fun h => h.field.request == n } n h.transaction
        exact ⟨⟨s.model.now, model⟩, holds⟩

/-- A whole run of a session is a run of its world. -/
theorem world_play (s : Session) (es : List Occurrence) :
    (s.play es).world = s.world.play s.model s.engine.holds es ∧
      s.executions es = s.world.executions s.model s.engine.holds es := by
  induction es generalizing s with
  | nil => exact ⟨rfl, rfl⟩
  | cons e es ih =>
      obtain ⟨⟨now, model⟩, holds⟩ := happen_keeps s e
      obtain ⟨played, ran⟩ := ih (s.happen e)
      rw [world_happen, model, holds] at played ran
      refine ⟨played, ?_⟩
      rw [executions, World.executions, runs?_world, ran, World.executions_now]

end Session

/-! ### One transaction for each request -/

namespace Thread

variable {th : Thread}

/-- The transaction has been handed over, if there is to be one. -/
def Handed (th : Thread) : Prop :=
  ∀ r, th.request = some r → r.context = none

/-- At most one transaction is held back, and then it has been handed over. -/
def Single (th : Thread) : Prop :=
  th.held = [] ∨ th.held.length = 1 ∧ th.Handed

theorem Handed.finish (h : th.Handed) (o : Outcome) : (th.finish o).Handed := by
  intro r hr
  obtain ⟨r, known, rfl⟩ := Option.map_eq_some_iff.mp hr
  unfold Request.finish
  split <;> exact h r known

end Thread

theorem Turn.context_eq_none {m : Model} {r r' : Request} {call : Call}
    {reply : Except Error Contribution} (turn : Turn m r call reply r') (gone : r.context = none) :
    submission? reply = none ∧ r'.context = none := by
  cases turn with
  | late ended =>
      refine ⟨?_, gone⟩
      cases call.isRoot <;> rfl
  | outstanding _ gone => exact ⟨rfl, gone⟩
  | refused _ context => exact ⟨rfl, gone⟩
  | failed _ context => exact ⟨rfl, rfl⟩
  | below _ context | waits _ context | submits _ context =>
      rw [gone] at context
      cases context
  | closed _ context => exact ⟨rfl, rfl⟩

theorem Turn.context_of_submission {m : Model} {r r' : Request} {call : Call}
    {reply : Except Error Contribution} {t : Transaction} (turn : Turn m r call reply r')
    (submitted : submission? reply = some t) : r'.context = none := by
  cases turn with
  | late ended =>
      cases hroot : call.isRoot <;> rw [hroot] at submitted <;> cases submitted
  | submits => rfl
  | outstanding | refused | failed | below | waits | closed => cases submitted

namespace Thread

variable {th : Thread}

/-- A request that has handed its transaction over hands over no other. -/
theorem Handed.step (h : th.Handed) (m : Model) (holds : Bool) (e : Occurrence) :
    (th.step m holds e).1.Handed ∧ (th.held = [] → (th.step m holds e).1.held = [] ∧
      (th.step m holds e).2 = none) := by
  cases e with
  | call n now o =>
      rcases hr : th.request with _ | r
      · have idle : th.step m holds (.call n now o) = (th, none) := by simp only [Thread.step, hr]
        rw [idle]
        exact ⟨h, fun nothing => ⟨nothing, rfl⟩⟩
      · obtain ⟨none, gone⟩ := (call_turn m r (o.call now)).context_eq_none (h r hr)
        simp only [Thread.step, hr, none]
        refine ⟨fun r' known => ?_, fun nothing => ⟨nothing, trivial⟩⟩
        cases known
        exact gone
  | execute n =>
      refine ⟨h, fun nothing => ?_⟩
      simp [Thread.step, nothing]

/-- A request hands its transaction over at most once, and the engine runs it at most once. -/
theorem Single.step (h : th.Single) (m : Model) (holds : Bool) (e : Occurrence) :
    (th.step m holds e).1.Single ∧ ((th.step m holds e).2 ≠ none →
      (th.step m holds e).1.held = [] ∧ (th.step m holds e).1.Handed) := by
  cases e with
  | call n now o =>
      rcases hr : th.request with _ | r
      · have idle : th.step m holds (.call n now o) = (th, none) := by simp only [Thread.step, hr]
        rw [idle]
        exact ⟨h, fun ran => absurd rfl ran⟩
      · have turn := call_turn m r (o.call now)
        rcases hs : submission? (r.call m (o.call now)).1 with _ | t
        · simp only [Thread.step, hr, hs]
          refine ⟨h.imp_right (And.imp_right fun handed r' known => ?_), fun ran => absurd rfl ran⟩
          cases known
          exact (turn.context_eq_none (handed r hr)).2
        · -- What is handed over is the first, so that none is held back yet.
          have nothing : th.held = [] := by
            refine h.resolve_right fun held => ?_
            rw [(turn.context_eq_none (held.2 r hr)).1] at hs
            cases hs
          have handed : ∀ held, (⟨some (r.call m (o.call now)).2, held⟩ : Thread).Handed := by
            intro held r' known
            cases known
            exact turn.context_of_submission hs
          simp only [Thread.step, hr, hs, nothing]
          cases holds with
          | true => exact ⟨Or.inr ⟨rfl, handed _⟩, fun ran => absurd rfl ran⟩
          | false => exact ⟨Or.inl rfl, fun _ => ⟨rfl, handed _⟩⟩
  | execute n =>
      rcases h with nothing | ⟨one, handed⟩
      · simp [Thread.step, nothing, Single]
      · obtain ⟨t, only⟩ := List.length_eq_one_iff.mp one
        simp only [Thread.step, only]
        exact ⟨Or.inl rfl, fun _ => ⟨rfl, handed⟩⟩

end Thread

namespace World

variable {m : Model} {holds : Bool} {w : World} {es : List Occurrence} {n : Nat}

/-- A request whose transaction is gone runs no other. -/
theorem not_mem_executions (handed : (w.threads n).Handed) (nothing : (w.threads n).held = []) :
    n ∉ (w.executions m holds es).map Prod.fst := by
  induction es generalizing w with
  | nil => simp [executions]
  | cons e es ih =>
      by_cases here : e.number = n
      · obtain ⟨still, idle⟩ := handed.step m holds e
        obtain ⟨none_held, idle⟩ := idle nothing
        have idle : w.runs? m holds e = none := by
          unfold runs?
          rw [here]
          exact idle
        rw [executions_cons_of_none idle]
        have thread := threads_step_self idle here
        exact ih (thread ▸ still) (thread ▸ none_held)
      · have thread : (w.step m holds e).threads n = w.threads n := threads_step_of_ne here
        have later := ih (thread ▸ handed) (thread ▸ nothing)
        rcases hr : w.runs? m holds e with _ | t
        · rw [executions_cons_of_none hr]
          exact later
        · rw [executions_cons_of_some hr, List.map_cons]
          exact List.not_mem_cons_of_ne_of_not_mem (Ne.symm here) later

theorem single_step (h : ∀ n, (w.threads n).Single) (e : Occurrence) (n : Nat) :
    ((w.step m holds e).threads n).Single ∧ (w.runs? m holds e ≠ none → e.number = n →
      ((w.step m holds e).threads n).Handed ∧ ((w.step m holds e).threads n).held = []) := by
  by_cases here : e.number = n
  · subst here
    obtain ⟨single, ran⟩ := (h e.number).step m holds e
    rcases hr : w.runs? m holds e with _ | t
    · rw [step_of_none hr]
      simp only [Function.update_self]
      exact ⟨single, fun h => absurd rfl h⟩
    · obtain ⟨nothing, handed⟩ := ran (by
        show w.runs? m holds e ≠ none
        rw [hr]
        exact Option.some_ne_none t)
      rw [step_of_some hr]
      simp only [Function.update_self]
      exact ⟨Or.inl nothing, fun _ _ => ⟨handed.finish _, nothing⟩⟩
  · rw [threads_step_of_ne here]
    exact ⟨h n, fun _ same => absurd same here⟩

/-- No request runs two transactions. -/
theorem nodup_executions (h : ∀ n, (w.threads n).Single) :
    ((w.executions m holds es).map Prod.fst).Nodup := by
  induction es generalizing w with
  | nil => exact List.nodup_nil
  | cons e es ih =>
      have single : ∀ n, ((w.step m holds e).threads n).Single := fun n => (single_step h e n).1
      have later := ih single
      rcases hr : w.runs? m holds e with _ | t
      · rw [executions_cons_of_none hr]
        exact later
      · obtain ⟨handed, nothing⟩ := (single_step h e e.number).2 (hr.trans_ne (Option.some_ne_none t)) rfl
        rw [executions_cons_of_some hr, List.map_cons]
        exact List.nodup_cons.mpr ⟨not_mem_executions handed nothing, later⟩

end World

/-! ### Requests one after the other -/

/-- Requests that run at the same time come out as if they had run one after the other: whatever happens
to the requests of a session, in whatever order, the engine runs one transaction of a request at most, and
the database and all requests of `order` end as they do when `order` is gone through request by request.
`order` can be any that has the requests in the order in which their transactions were run; the others make
no difference to the database. -/
theorem play_serial (s : Session) (occurrences : List Occurrence) (settled : s.held = []) :
    ((s.executions occurrences).map Prod.fst).Nodup ∧
      (s.play occurrences).engine.database =
        ((s.executions occurrences).map Prod.snd).foldl (fun db t => (db.execute t).2)
          s.engine.database ∧
      ∀ order : List Nat, order.Nodup → ((s.executions occurrences).map Prod.fst).Sublist order →
        (s.play (serially order occurrences)).engine.database = (s.play occurrences).engine.database ∧
          ∀ n ∈ order,
            (s.play (serially order occurrences)).request? n = (s.play occurrences).request? n := by
  have world : ∀ es, (s.play es).world = s.world.play s.model s.engine.holds es :=
    fun es => (s.world_play es).1
  have database : ∀ es, (s.play es).engine.database =
      (s.world.play s.model s.engine.holds es).database :=
    fun es => congrArg World.database (world es)
  have request : ∀ es n, (s.play es).request? n =
      ((s.world.play s.model s.engine.holds es).threads n).request :=
    fun es n => congrArg (fun w => (w.threads n).request) (world es)
  have single : ∀ n, (s.world.threads n).Single := by
    intro n
    refine Or.inl ?_
    show (s.held.filter _).map _ = []
    rw [settled]
    rfl
  rw [(s.world_play occurrences).2]
  refine ⟨World.nodup_executions single, ?_, fun order distinct ordered => ?_⟩
  · rw [database, World.database_play]
    rfl
  · obtain ⟨same, threads⟩ := World.play_serially distinct ordered
    refine ⟨?_, fun n hn => ?_⟩
    · rw [database, database, same]
    · rw [request, request, threads n hn]

/-- A person joins the members. -/
def joining (field name : String) : Operation :=
  ⟨true, ⟨field, []⟩, .create "Person" [("name", .str name)], field⟩

/-- Two requests of two fields each; the one that is called second is complete first. -/
def enrolments : List Occurrence :=
  [.call 1 0 (joining "x" "Ann"), .call 2 1 (joining "x" "Ben"), .call 2 2 (joining "y" "Cleo"),
    .call 1 3 (joining "y" "Dan")]

theorem play_serial_members :
    ∃ s : Session, s.held = [] ∧ (s.executions enrolments).map Prod.fst = [2, 1] ∧
      (s.play (serially [2, 1] enrolments)).engine.database = (s.play enrolments).engine.database ∧
      ∀ n ∈ [2, 1], (s.play (serially [2, 1] enrolments)).request? n = (s.play enrolments).request? n := by
  have opened : ((Session.start members .plain).toOption.map fun s =>
      ((s.openRequest ["x", "y"]).2.openRequest ["x", "y"]).2).any (fun s =>
        s.held.isEmpty && (s.executions enrolments).map Prod.fst == [2, 1]) = true := by
    decide +kernel
  obtain ⟨s, _, both⟩ := (Option.any_eq_true _ _).mp opened
  obtain ⟨nothing, ran⟩ := (Bool.and_eq_true _ _).mp both
  have settled : s.held = [] := List.isEmpty_iff.mp nothing
  have order : (s.executions enrolments).map Prod.fst = [2, 1] := eq_of_beq ran
  obtain ⟨_, _, serial⟩ := play_serial s enrolments settled
  exact ⟨s, settled, order, serial [2, 1] (by decide) (order ▸ List.Sublist.refl _)⟩

end DocGraph
