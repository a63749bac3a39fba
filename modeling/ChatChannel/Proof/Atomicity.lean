import ChatChannel.Model.Shared
import ChatChannel.Proof.Effect
import ChatChannel.Proof.Fields

/-!
# The shared objects are atomic

What each method does to the members when nothing disturbs it, and, by `Monitor.refines`, that nothing can: the
threads see a queue, a map and a set whose methods are single steps. The last section compares these steps with
the calls of the server's model.
-/

set_option autoImplicit false

namespace ChatChannel

open Conc

/-! ## The queue -/

namespace ProducerConsumerQueue

variable {T : Type} {d d' : Members T}

/-- What a method answers, `none` when it has to wait, and what it leaves. -/
def apply : (o : Op T) → Members T → Option (Out o) × Members T
  | .push x, d => (some (), { d with queue := d.queue ++ [x] })
  | .waitAndPop, d =>
    match d.queue with
    | x :: q => (some (some x), { d with queue := q })
    | [] => if d.stopped then (some none, d) else (none, d)
  | .tryPop, d => (some d.queue.head?, { d with queue := d.queue.tail })
  | .popAll, d => (some d.queue, { d with queue := [] })
  | .empty, d => (some d.queue.isEmpty, d)
  | .size, d => (some d.queue.length, d)
  | .stop, d => (some (), { d with stopped := true })

/-- The methods do what they should, and reach nothing undefined. -/
theorem yields_attempt {o : Op T} {out : Except Undefined (Option (Out o))} :
    Yields step (attempt o) d out d' ↔ out = .ok (apply o d).1 ∧ d' = (apply o d).2 := by
  cases o with
  | push x | stop =>
    constructor
    · rintro ⟨r, d₁, rfl, h⟩
      exact h
    · intro h
      exact ⟨(), _, rfl, h⟩
  | popAll | empty | size => exact (yields_act fun _ _ => Iff.rfl).trans Iff.rfl
  | tryPop =>
    obtain ⟨q, b⟩ := d
    cases q with
    | nil => exact (yields_act fun _ _ => Iff.rfl).trans Iff.rfl
    | cons x q =>
      -- `empty`, `front`, `pop`
      refine (yields_act fun _ _ => Iff.rfl).trans ?_
      refine (yields_act fun _ _ => Iff.rfl).trans ?_
      exact (yields_act fun _ _ => Iff.rfl).trans Iff.rfl
  | waitAndPop =>
    obtain ⟨q, b⟩ := d
    -- `stopped_`, and `empty` if it is not set
    refine (yields_act fun _ _ => Iff.rfl).trans ?_
    cases b with
    | false =>
      refine (yields_act fun _ _ => Iff.rfl).trans ?_
      cases q with
      | nil => exact Iff.rfl
      | cons x q =>
        -- `stopped_`, `front`, `pop`
        refine (yields_act fun _ _ => Iff.rfl).trans ?_
        refine (yields_act fun _ _ => Iff.rfl).trans ?_
        exact (yields_act fun _ _ => Iff.rfl).trans Iff.rfl
    | true =>
      -- `stopped_`, `empty`
      refine (yields_act fun _ _ => Iff.rfl).trans ?_
      refine (yields_act fun _ _ => Iff.rfl).trans ?_
      cases q with
      | nil => exact Iff.rfl
      | cons x q =>
        refine (yields_act fun _ _ => Iff.rfl).trans ?_
        exact (yields_act fun _ _ => Iff.rfl).trans Iff.rfl

theorem apply_waits {o : Op T} (h : (apply o d).1 = none) : (apply o d).2 = d := by
  cases o with
  | waitAndPop =>
    obtain ⟨q, b⟩ := d
    cases q with
    | nil => cases b <;> rfl
    | cons x q => cases h
  | push | tryPop | popAll | empty | size | stop => cases h

/-- The class, with its mutex and its condition variable. -/
abbrev monitor (T : Type) : Monitor where
  B := accesses T
  δ := Members T
  step := step
  Op := Op T
  Out := Out
  method o :=
    { shared := false
      attempt := attempt o
      wake := wake o
      waits := fun h => by
        obtain ⟨hout, rfl⟩ := yields_attempt.mp h
        exact apply_waits (Except.ok.inj hout).symm
      reads := nofun }

theorem effect_iff {o : Op T} {r : Except Undefined (Out o)} :
    ((monitor T).method o).Effect d r d' ↔ ∃ b, r = .ok b ∧ apply o d = (some b, d') := by
  refine yields_attempt.trans ?_
  constructor
  · rintro ⟨hr, rfl⟩
    cases r with
    | error e => cases hr
    | ok b => exact ⟨b, rfl, Prod.ext (Except.ok.inj hr).symm rfl⟩
  · rintro ⟨b, rfl, h⟩
    rw [h]
    exact ⟨rfl, rfl⟩

/-- What a method puts into the queue, and what it takes out of it. -/
def put : Op T → List T
  | .push x => [x]
  | _ => []

def got : (o : Op T) → Out o → List T
  | .waitAndPop, r => r.toList
  | .tryPop, r => r.toList
  | .popAll, r => r
  | _, _ => []

theorem apply_conserves {o : Op T} {b : Out o} (h : apply o d = (some b, d')) :
    d.queue ++ put o = got o b ++ d'.queue := by
  obtain ⟨q, st⟩ := d
  cases o with
  | push x =>
    cases h
    rfl
  | waitAndPop =>
    cases q with
    | cons x q =>
      cases h
      exact List.append_nil _
    | nil =>
      cases st with
      | true =>
        cases h
        rfl
      | false => cases h
  | tryPop =>
    cases h
    cases q with
    | nil => rfl
    | cons x q => exact List.append_nil _
  | popAll =>
    cases h
    rfl
  | empty | size | stop =>
    cases h
    exact List.append_nil _

variable {E : Sig} {Tid ε : Type} (clients : Tid → Prog ((monitor T).calls E) Unit)
  (around : Tid → (e : E.Act) → E.Res e → ε → ε → Prop)

/-- A queue whose methods are single steps. -/
def fifo : Sys ((monitor T).calls E) Tid (Members T × ε) :=
  Monitor.specified clients around fun o d r d' => ∃ b, r = .ok b ∧ apply o d = (some b, d')

variable {clients} {around} {v : ε}

/-- What a call put into the queue. -/
def putBy (e : Event ((monitor T).calls E) Tid (Members T × ε)) : List T :=
  match e.act with
  | .op o => put o
  | .env _ => []

/-- What it took out. -/
def gotBy : Event ((monitor T).calls E) Tid (Members T × ε) → List T
  | ⟨_, .op o, .ok b, _, _⟩ => got o b
  | _ => []

/-- What was put in is, in the same order, what was taken out and what is still there. -/
theorem fifo_conserves [DecidableEq Tid] {tr : List (Event ((monitor T).calls E) Tid (Members T × ε))}
    {c : Config ((monitor T).calls E) Tid (Members T × ε)} (h : (fifo clients around).Run (⟨[], false⟩, v) tr c) :
    tr.flatMap putBy = tr.flatMap gotBy ++ c.st.1.queue := by
  induction h with
  | start => rfl
  | @call tr c s' a k t r _ _ hs ih =>
    simp only [List.flatMap_append, ih, List.flatMap_singleton, List.append_assoc]
    refine congrArg _ ?_
    cases a with
    | op o =>
      obtain ⟨⟨b, rfl, happly⟩, -⟩ := hs
      exact apply_conserves happly
    | env e =>
      show c.st.1.queue ++ [] = [] ++ s'.1.queue
      rw [show s'.1 = c.st.1 from hs.1, List.append_nil, List.nil_append]
  | again _ _ _ ih => exact ih

end ProducerConsumerQueue

section

open ProducerConsumerQueue

variable {T : Type} {E : Sig} {Tid ε : Type} [DecidableEq Tid] {clients : Tid → Prog ((monitor T).calls E) Unit}
  {around : Tid → (e : E.Act) → E.Res e → ε → ε → Prop} {v : ε}

/-- **The queue is linearizable.** Whatever the threads do with it, each run of its code is matched by a run in which
every method is a single step of a first-in-first-out queue, with the same answers; `wait_and_pop` returns without
an item only when the queue is stopped and empty. What was taken out, followed by what is left, is what was put in. -/
theorem queue_linearizable {bound : Nat}
    {tr : List (Event ((monitor T).micro E) Tid ((monitor T).State Tid ε))}
    {c : Config ((monitor T).micro E) Tid ((monitor T).State Tid ε)}
    (h : (Monitor.locking clients around bound).Run (.open ⟨[], false⟩ v) tr c) :
    ∃ tr' c', (fifo clients around).Run (⟨[], false⟩, v) tr' c' ∧ Monitor.Fits c.st c'.st ∧
      (∀ t, (Monitor.refinement clients around bound).Stands t (c.st, c'.st) (c.prog t) (c'.prog t)) ∧
      tr'.flatMap putBy = tr'.flatMap gotBy ++ c'.st.1.queue := by
  obtain ⟨tr', c', hrun, hfit, hstands⟩ := Monitor.refines_spec (fun _ _ _ _ => effect_iff) h
  exact ⟨tr', c', hrun, hfit, hstands, fifo_conserves hrun⟩

/-- One thread sleeps in `wait_and_pop`, goes on by itself and takes the 7 that the other pushes, which notifies in the
middle of it; then it finds the queue empty in `try_pop`. -/
theorem queue_linearizable_push : ∃ (clients : Bool → Prog ((monitor Nat).calls Monitor.nothing) Unit)
    (tr : List (Event ((monitor Nat).micro Monitor.nothing) Bool ((monitor Nat).State Bool Unit)))
    (c : Config ((monitor Nat).micro Monitor.nothing) Bool ((monitor Nat).State Bool Unit)),
    (Monitor.locking clients Monitor.inert 2).Run (.open (⟨[], false⟩ : Members Nat) ()) tr c ∧
      (c.prog true = .ret () ∧ c.prog false = .ret ()) ∧
      ∃ tr' c', (fifo clients Monitor.inert).Run (⟨[], false⟩, ()) tr' c' ∧ c'.st.1 = ⟨[], false⟩ ∧
        tr'.flatMap putBy = tr'.flatMap gotBy := by
  let clients : Bool → Prog ((monitor Nat).calls Monitor.nothing) Unit := fun b =>
    if b then .act (.op .waitAndPop) fun _ => .act (.op .tryPop) fun _ => .ret ()
    else .act (.op (.push 7)) fun _ => .ret ()
  let code := Monitor.locking (O := monitor Nat) (ε := Unit) clients Monitor.inert 2
  let state (q : List Nat) (h : Option Bool) (l : Finset Bool) : (monitor Nat).State Bool Unit :=
    ⟨(⟨q, false⟩ : Members Nat), h, ∅, l, ()⟩
  have hlock {q : List Nat} {l : Finset Bool} (b : Bool) : code.step b .lock () (state q none l) (state q (some b) l) :=
    ⟨rfl, rfl, rfl⟩
  have hunlock {q : List Nat} {l : Finset Bool} (b : Bool) :
      code.step b .unlock () (state q (some b) l) (state q none l) := rfl
  have hstopped {q : List Nat} : code.step true (.access .loadStopped) false (state q (some true) ∅)
      (state q (some true) ∅) := ⟨_, ⟨rfl, rfl⟩, rfl⟩
  have hempty (q : List Nat) : code.step true (.access .empty) q.isEmpty (state q (some true) ∅)
      (state q (some true) ∅) := ⟨_, ⟨rfl, rfl⟩, rfl⟩
  have hsleep : code.step true .sleep () (state [] (some true) ∅) (state [] none {true}) := rfl
  have hpush : code.step false (.access (.push 7)) () (state [] (some false) {true}) (state [7] (some false) {true}) :=
    ⟨_, rfl, rfl⟩
  have hresume : code.step true .resume () (state [7] none {true}) (state [7] (some true) ∅) :=
    ⟨rfl, rfl, congrArg (state [7] (some true)) (show (∅ : Finset Bool) = ({true} : Finset Bool).erase true by decide)⟩
  have hnotify : code.step false .notifyOne () (state [7] (some true) ∅) (state [7] (some true) ∅) := .inl ⟨rfl, rfl⟩
  have hfront : code.step true (.access .front) (some 7 : Option Nat) (state [7] (some true) ∅)
      (state [7] (some true) ∅) := ⟨_, ⟨rfl, rfl⟩, rfl⟩
  have hpop : code.step true (.access .pop) true (state [7] (some true) ∅) (state [] (some true) ∅) :=
    ⟨_, ⟨rfl, rfl⟩, rfl⟩
  have hstart : code.Run (state [] none ∅) [] (code.start (state [] none ∅)) := .start
  have hwait := (((hstart.call true () rfl (hlock _)).call true _ rfl hstopped).call true _ rfl (hempty [])).call
    true () rfl hsleep
  have hgive := ((hwait.call false () rfl (hlock _)).call false () rfl hpush).call false () rfl (hunlock _)
  have hwoken := ((hgive.call true () rfl hresume).call true _ rfl hstopped).call false () rfl hnotify
  have hready := (hwoken.call true _ rfl (hempty [7])).call true _ rfl hstopped
  have htaken := ((hready.call true _ rfl hfront).call true _ rfl hpop).call true () rfl (hunlock _)
  have hrun := ((htaken.call true () rfl (hlock _)).call true _ rfl (hempty [])).call true () rfl (hunlock _)
  obtain ⟨tr', c', hfifo, hfit, -, hsame⟩ := queue_linearizable hrun
  have hdata : c'.st.1 = ⟨[], false⟩ := (hfit.data rfl).symm
  refine ⟨clients, _, _, hrun, ⟨rfl, rfl⟩, tr', c', hfifo, hdata, ?_⟩
  rw [hsame, hdata, List.append_nil]

end

/-! ## The names -/

namespace UserManager

variable {d d' : Fd → Option Bytes}

/-- What a method answers, and what it leaves. -/
def apply : (o : Op) → (Fd → Option Bytes) → Out o × (Fd → Option Bytes)
  | .getUserName n, d => (d n, d)
  | .setUserName n u, d => ((), Function.update d n (some u))
  | .removeUserName n, d => ((), Function.update d n none)

/-- No iterator is used after its element was erased. -/
theorem yields_attempt {o : Op} {out : Except Undefined (Option (Out o))} :
    Yields step (attempt o) d out d' ↔ out = .ok (some (apply o d).1) ∧ d' = (apply o d).2 := by
  cases o with
  | setUserName n u | removeUserName n =>
    constructor
    · rintro ⟨r, d₁, rfl, h⟩
      exact h
    · intro h
      exact ⟨(), _, rfl, h⟩
  | getUserName n =>
    refine (yields_act fun _ _ => Iff.rfl).trans ?_
    cases hn : d n with
    | none =>
      show out = .ok (some none) ∧ d' = d ↔ out = .ok (some (d n)) ∧ d' = d
      rw [hn]
    | some u =>
      refine (yields_act fun _ _ => Iff.rfl).trans ?_
      rw [hn]
      show out = .ok (some (some u)) ∧ d' = d ↔ out = .ok (some (d n)) ∧ d' = d
      rw [hn]

theorem attempt_reads {o : Op} (h : shared o = true) :
    (attempt o).All fun a => ∀ r d d', step a r d d' → d' = d := by
  cases o with
  | getUserName n =>
    refine ⟨fun r d d' hs => hs.2, fun r => ?_⟩
    cases r with
    | false => trivial
    | true =>
      refine ⟨fun r d d' hs => hs.2, fun r => ?_⟩
      cases r <;> trivial
  | setUserName | removeUserName => cases h

/-- `name_map` under `name_map_mtx`. -/
abbrev monitor : Monitor where
  B := accesses
  δ := Fd → Option Bytes
  step := step
  Op := Op
  Out := Out
  method o :=
    { shared := shared o
      attempt := attempt o
      wake := .nobody
      waits := fun h => by
        obtain ⟨hout, -⟩ := yields_attempt.mp h
        cases hout
      reads := attempt_reads }

theorem effect_iff {o : Op} {r : Except Undefined (Out o)} :
    (monitor.method o).Effect d r d' ↔ r = .ok (apply o d).1 ∧ d' = (apply o d).2 := by
  refine yields_attempt.trans ?_
  cases r with
  | error e =>
    constructor
    · rintro ⟨h, -⟩
      cases h
    · rintro ⟨h, -⟩
      cases h
  | ok b =>
    constructor
    · rintro ⟨h, rfl⟩
      exact ⟨congrArg Except.ok (Option.some.inj (Except.ok.inj h)), rfl⟩
    · rintro ⟨h, rfl⟩
      exact ⟨congrArg (fun b => Except.ok (some b)) (Except.ok.inj h), rfl⟩

variable {E : Sig} {Tid ε : Type} (clients : Tid → Prog (monitor.calls E) Unit)
  (around : Tid → (e : E.Act) → E.Res e → ε → ε → Prop)

/-- A map whose methods are single steps. -/
def named : Sys (monitor.calls E) Tid ((Fd → Option Bytes) × ε) :=
  Monitor.specified clients around fun o d r d' => r = .ok (apply o d).1 ∧ d' = (apply o d).2

variable {clients} {around} {v : ε}

/-- What a call makes of the name of `n`. -/
def renames (n : Fd) (u : Option Bytes) (e : Event (monitor.calls E) Tid ((Fd → Option Bytes) × ε)) :
    Option Bytes :=
  match e.act with
  | .op (.setUserName m w) => if m = n then some w else u
  | .op (.removeUserName m) => if m = n then none else u
  | _ => u

/-- The name that a history leaves to `n`. -/
def lastName (n : Fd) (tr : List (Event (monitor.calls E) Tid ((Fd → Option Bytes) × ε))) : Option Bytes :=
  tr.foldl (renames n) none

/-- `get_user_name` answers what was last set, nothing if it was never set or has been removed since. -/
def Remembers (tr : List (Event (monitor.calls E) Tid ((Fd → Option Bytes) × ε))) : Prop :=
  ∀ p q t n r s s', tr = p ++ ⟨t, .op (.getUserName n), r, s, s'⟩ :: q → r = .ok (lastName n p)

theorem named_remembers [DecidableEq Tid] {tr : List (Event (monitor.calls E) Tid ((Fd → Option Bytes) × ε))}
    {c : Config (monitor.calls E) Tid ((Fd → Option Bytes) × ε)}
    (h : (named clients around).Run (fun _ => none, v) tr c) :
    (∀ n, c.st.1 n = lastName n tr) ∧ Remembers tr := by
  induction h with
  | start =>
    refine ⟨fun n => rfl, ?_⟩
    intro p q t n r s s' h
    cases p <;> cases h
  | @call tr c s' a k t r hrun _ hs ih =>
    obtain ⟨hst, hold⟩ := ih
    constructor
    · intro n
      show s'.1 n = (tr ++ [_]).foldl (renames n) none
      rw [List.foldl_append]
      show s'.1 n = renames n (lastName n tr) _
      rw [← hst n]
      cases a with
      | env e => exact congrFun hs.1 n
      | op o =>
        rw [show s'.1 = (apply o c.st.1).2 from hs.1.2]
        cases o with
        | getUserName m => rfl
        | setUserName m w | removeUserName m =>
          show Function.update c.st.1 m _ n = if m = n then _ else c.st.1 n
          simp only [Function.update_apply, eq_comm]
    · intro p q t' n r' s₁ s₂ hsplit
      -- the call is the last one, or an earlier one
      rcases List.eq_nil_or_concat q with rfl | ⟨q, e, rfl⟩
      · obtain ⟨rfl, hlast⟩ := List.append_inj' hsplit rfl
        cases hlast
        exact hs.1.1.trans (congrArg Except.ok (hst n))
      · rw [List.concat_eq_append, ← List.cons_append, ← List.append_assoc] at hsplit
        exact hold p q t' n r' s₁ s₂ (List.append_inj' hsplit rfl).1
  | again _ _ _ ih => exact ih

end UserManager

section

open UserManager

variable {E : Sig} {Tid ε : Type} [DecidableEq Tid] {clients : Tid → Prog (monitor.calls E) Unit}
  {around : Tid → (e : E.Act) → E.Res e → ε → ε → Prop} {v : ε}

/-- **The names are linearizable.** Readers share the mutex and writers have it alone; each run of the code is
matched by a run in which every method is a single step on the map, with the same answers, and `get_user_name`
answers the name last set for the descriptor and not removed since. -/
theorem names_linearizable {bound : Nat}
    {tr : List (Event (monitor.micro E) Tid (monitor.State Tid ε))}
    {c : Config (monitor.micro E) Tid (monitor.State Tid ε)}
    (h : (Monitor.locking clients around bound).Run (.open (fun _ => none : Fd → Option Bytes) v) tr c) :
    ∃ tr' c', (named clients around).Run (fun _ => none, v) tr' c' ∧ Monitor.Fits c.st c'.st ∧
      (∀ t, (Monitor.refinement clients around bound).Stands t (c.st, c'.st) (c.prog t) (c'.prog t)) ∧
      (∀ n, c'.st.1 n = lastName n tr') ∧ Remembers tr' := by
  obtain ⟨tr', c', hrun, hfit, hstands⟩ := Monitor.refines_spec (fun _ _ _ _ => effect_iff) h
  exact ⟨tr', c', hrun, hfit, hstands, named_remembers hrun⟩

/-- Descriptor 5 gets a name, and two threads ask for it at the same time. -/
theorem names_linearizable_set : ∃ (clients : Bool → Prog (monitor.calls Monitor.nothing) Unit)
    (tr : List (Event (monitor.micro Monitor.nothing) Bool (monitor.State Bool Unit)))
    (c : Config (monitor.micro Monitor.nothing) Bool (monitor.State Bool Unit)),
    (Monitor.locking clients Monitor.inert 1).Run (.open (fun _ => none : Fd → Option Bytes) ()) tr c ∧
      (c.prog true = .ret () ∧ c.prog false = .ret ()) ∧
      ∃ tr' c', (named clients Monitor.inert).Run (fun _ => none, ()) tr' c' ∧
        c'.st.1 5 = some [97, 110] ∧ lastName 5 tr' = some [97, 110] ∧ Remembers tr' := by
  let clients : Bool → Prog (monitor.calls Monitor.nothing) Unit := fun b =>
    if b then .act (.op (.setUserName 5 [97, 110])) fun _ => .act (.op (.getUserName 5)) fun _ => .ret ()
    else .act (.op (.getUserName 5)) fun _ => .ret ()
  let code := Monitor.locking (O := monitor) (ε := Unit) clients Monitor.inert 1
  let state (d : Fd → Option Bytes) (h : Option Bool) (l : Finset Bool) : monitor.State Bool Unit := ⟨d, h, l, ∅, ()⟩
  let after : Fd → Option Bytes := Function.update (fun _ => none) 5 (some [97, 110])
  have hlock : code.step true .lock () (state (fun _ => none) none ∅) (state (fun _ => none) (some true) ∅) :=
    ⟨rfl, rfl, rfl⟩
  have hassign : code.step true (.access (.assign 5 [97, 110])) () (state (fun _ => none) (some true) ∅)
      (state after (some true) ∅) := ⟨_, rfl, rfl⟩
  have hunlock : code.step true .unlock () (state after (some true) ∅) (state after none ∅) := rfl
  have hshare {l m : Finset Bool} (b : Bool) (h : insert b l = m) :
      code.step b .lockShared () (state after none l) (state after none m) := h ▸ ⟨rfl, rfl⟩
  have hunshare {l m : Finset Bool} (b : Bool) (h : l.erase b = m) :
      code.step b .unlockShared () (state after none l) (state after none m) := h ▸ rfl
  have hfind (b : Bool) : code.step b (.access (.find 5)) true (state after none {true, false})
      (state after none {true, false}) := ⟨_, ⟨rfl, rfl⟩, rfl⟩
  have hsecond (b : Bool) : code.step b (.access (.second 5)) (some [97, 110] : Option Bytes)
      (state after none {true, false}) (state after none {true, false}) := ⟨_, ⟨rfl, rfl⟩, rfl⟩
  have hstart : code.Run (state (fun _ => none) none ∅) [] (code.start (state (fun _ => none) none ∅)) := .start
  have hset := ((hstart.call true () rfl hlock).call true () rfl hassign).call true () rfl hunlock
  have hshared := (hset.call false () rfl (hshare (m := {false}) false rfl)).call true () rfl (hshare true rfl)
  have hread := (((hshared.call false _ rfl (hfind false)).call true _ rfl (hfind true)).call true _ rfl
    (hsecond true)).call false _ rfl (hsecond false)
  have hrun := (hread.call false () rfl (hunshare (m := {true}) false (by decide))).call true () rfl
    (hunshare (m := ∅) true (by decide))
  obtain ⟨tr', c', hnamed, hfit, -, hlast, hremembers⟩ := names_linearizable hrun
  have hname : c'.st.1 5 = some [97, 110] := by
    rw [← hfit.data rfl]
    show after 5 = some [97, 110]
    rfl
  exact ⟨clients, _, _, hrun, ⟨rfl, rfl⟩, tr', c', hnamed, hname, (hlast 5).symm.trans hname, hremembers⟩

end

/-! ## The tracker -/

namespace ConnectionTracker

variable {x : Fixed} {d d' : Finset Fd}

/-- What a method may do. Whether epoll refuses, and what the listening socket is, is up to others. -/
def Allows (x : Fixed) : (o : Op) → Except Err (Out o) → Finset Fd → Finset Fd → Prop
  | .addClient n, .ok _, d, d' => n ≠ fdErr ∧ x.efd ≠ fdErr ∧ d.card < x.maxFd ∧ d' = insert n d
  | .addClient n, .error e, d, d' =>
    d' = d ∧ (e = .addFailed ∨ e = .poolFull ∧ n ≠ fdErr ∧ x.efd ≠ fdErr ∧ x.maxFd ≤ d.card)
  | .deleteClient n, .ok _, d, d' => n ≠ fdErr ∧ x.efd ≠ fdErr ∧ d' = d.erase n
  | .deleteClient _, .error e, d, d' => d' = d ∧ e = .deleteFailed
  | .getClients, r, d, d' => r = .ok d ∧ d' = d
  | .isFull, r, d, d' => r = .ok (decide (x.maxFd ≤ d.card)) ∧ d' = d
  | .getClientCount, r, d, d' => r = .ok d.card ∧ d' = d

/-- The checks may fail in any state, as far as the tracker knows. -/
theorem yields_checked {n : Fd} {e : Err} {rest : Prog accesses Unit} {r : Except Err Unit} :
    Yields (step x) (checked n e rest) d r d' ↔
      r = .error e ∧ d' = d ∨ n ≠ fdErr ∧ x.efd ≠ fdErr ∧ Yields (step x) rest d r d' := by
  unfold checked
  by_cases hn : n = fdErr
  · rw [if_pos hn]
    exact ⟨.inl, fun h => h.resolve_right fun h => h.1 hn⟩
  rw [if_neg hn]
  refine (yields_act fun _ _ => Iff.rfl).trans ?_
  rw [Prog.bind_ret]
  by_cases he : x.efd = fdErr
  · rw [if_pos he]
    exact ⟨.inl, fun h => h.resolve_right fun h => h.2.1 he⟩
  rw [if_neg he]
  refine (yields_ask fun _ _ => Iff.rfl).trans ?_
  simp only [Prog.bind_ret]
  constructor
  · rintro ⟨q, h⟩
    by_cases hq : n = q
    · rw [if_pos hq] at h
      exact .inl h
    · rw [if_neg hq] at h
      exact .inr ⟨hn, he, h⟩
  · rintro (h | ⟨-, -, h⟩)
    · refine ⟨n, ?_⟩
      rw [if_pos rfl]
      exact h
    · refine ⟨n + 1, ?_⟩
      rw [if_neg (Int.lt_succ n).ne]
      exact h

theorem yields_addClient {n : Fd} {r : Except Err Unit} :
    Yields (step x) (addClient n) d r d' ↔ Allows x (.addClient n) r d d' := by
  refine yields_checked.trans ?_
  constructor
  · rintro (⟨rfl, rfl⟩ | ⟨hn, he, _, d, ⟨rfl, rfl⟩, _, d, ⟨rfl, rfl⟩, h⟩)
    · exact ⟨rfl, .inl rfl⟩
    · simp only [Prog.bind_ret] at h
      by_cases hfull : x.maxFd ≤ d.card
      · rw [if_pos hfull] at h
        obtain ⟨rfl, rfl⟩ := h
        exact ⟨rfl, .inr ⟨rfl, hn, he, hfull⟩⟩
      · rw [if_neg hfull] at h
        obtain ⟨b, d, rfl, h⟩ := h
        cases b with
        | true =>
          obtain ⟨_, d, rfl, rfl, rfl⟩ := h
          exact ⟨hn, he, not_le.mp hfull, rfl⟩
        | false =>
          obtain ⟨rfl, rfl⟩ := h
          exact ⟨rfl, .inl rfl⟩
  · intro h
    cases r with
    | ok u =>
      obtain ⟨hn, he, hroom, rfl⟩ := h
      refine .inr ⟨hn, he, _, d, ⟨rfl, rfl⟩, _, d, ⟨rfl, rfl⟩, ?_⟩
      simp only [Prog.bind_ret]
      rw [if_neg (not_le.mpr hroom)]
      exact ⟨true, d, rfl, (), _, rfl, rfl, rfl⟩
    | error e =>
      obtain ⟨rfl, rfl | ⟨rfl, hn, he, hfull⟩⟩ := h
      · exact .inl ⟨rfl, rfl⟩
      · refine .inr ⟨hn, he, _, d', ⟨rfl, rfl⟩, _, d', ⟨rfl, rfl⟩, ?_⟩
        simp only [Prog.bind_ret]
        rw [if_pos hfull]
        exact ⟨rfl, rfl⟩

theorem yields_deleteClient {n : Fd} {r : Except Err Unit} :
    Yields (step x) (deleteClient n) d r d' ↔ Allows x (.deleteClient n) r d d' := by
  refine yields_checked.trans ?_
  constructor
  · rintro (⟨rfl, rfl⟩ | ⟨hn, he, b, d, rfl, h⟩)
    · exact ⟨rfl, rfl⟩
    · cases b with
      | false =>
        obtain ⟨rfl, rfl⟩ := h
        exact ⟨rfl, rfl⟩
      | true =>
        obtain ⟨_, d, ⟨rfl, rfl⟩, h⟩ := h
        simp only [Prog.bind_ret] at h
        by_cases hmem : n ∈ d
        · rw [if_pos (decide_eq_true hmem)] at h
          obtain ⟨_, d, rfl, rfl, rfl⟩ := h
          exact ⟨hn, he, rfl⟩
        · rw [if_neg (by simp [hmem])] at h
          obtain ⟨rfl, rfl⟩ := h
          exact ⟨hn, he, (Finset.erase_eq_of_notMem hmem).symm⟩
  · intro h
    cases r with
    | error e =>
      obtain ⟨rfl, rfl⟩ := h
      exact .inl ⟨rfl, rfl⟩
    | ok u =>
      obtain ⟨hn, he, rfl⟩ := h
      refine .inr ⟨hn, he, true, d, rfl, _, d, ⟨rfl, rfl⟩, ?_⟩
      simp only [Prog.bind_ret]
      by_cases hmem : n ∈ d
      · rw [if_pos (decide_eq_true hmem)]
        exact ⟨(), _, rfl, rfl, rfl⟩
      · rw [if_neg (by simp [hmem])]
        exact ⟨rfl, Finset.erase_eq_of_notMem hmem⟩

/-- A method answers; none of them waits. -/
theorem yields_attempt {o : Op} {out : Except Err (Option (Out o))} :
    Yields (step x) (attempt o) d out d' ↔ ∃ r : Except Err (Out o), out = r.map some ∧ Allows x o r d d' := by
  have hmap {o : Op} {p : Prog accesses (Out o)} {out : Except Err (Option (Out o))}
      (hp : ∀ r, Yields (step x) p d r d' ↔ Allows x o r d d') :
      Yields (step x) (p.bind fun b => .ret (some b)) d out d' ↔
        ∃ r : Except Err (Out o), out = r.map some ∧ Allows x o r d d' := by
    rw [yields_some]
    simp only [hp]
  cases o with
  | addClient n => exact hmap (o := .addClient n) fun r => yields_addClient
  | deleteClient n => exact hmap (o := .deleteClient n) fun r => yields_deleteClient
  | getClients => exact hmap (o := .getClients) fun r => (yields_act fun _ _ => Iff.rfl).trans Iff.rfl
  | isFull =>
    refine (yields_act fun _ _ => Iff.rfl).trans ?_
    refine (yields_act fun _ _ => Iff.rfl).trans ?_
    constructor
    · rintro ⟨rfl, rfl⟩
      exact ⟨_, rfl, rfl, rfl⟩
    · rintro ⟨r, rfl, rfl, rfl⟩
      exact ⟨rfl, rfl⟩
  | getClientCount => exact hmap (o := .getClientCount) fun r => (yields_act fun _ _ => Iff.rfl).trans Iff.rfl

/-- The tracker with its mutex. -/
abbrev monitor (x : Fixed) : Monitor where
  B := accesses
  δ := Finset Fd
  step := step x
  Op := Op
  Out := Out
  method o :=
    { shared := false
      attempt := attempt o
      wake := .nobody
      waits := fun h => by
        obtain ⟨r, hr, -⟩ := yields_attempt.mp h
        cases r <;> cases hr
      reads := nofun }

theorem effect_iff {o : Op} {r : Except Err (Out o)} :
    ((monitor x).method o).Effect d r d' ↔ Allows x o r d d' := by
  refine yields_attempt.trans ?_
  constructor
  · rintro ⟨q, hq, h⟩
    have hqr : r = q := by
      cases r with
      | ok b =>
        cases q with
        | ok c => exact congrArg Except.ok (Option.some.inj (Except.ok.inj hq))
        | error e => cases hq
      | error e =>
        cases q with
        | ok c => cases hq
        | error e' => exact congrArg Except.error (Except.error.inj hq)
    exact hqr ▸ h
  · intro h
    exact ⟨r, rfl, h⟩

end ConnectionTracker

section

open ConnectionTracker

variable {x : Fixed} {E : Sig} {Tid ε : Type} {around : Tid → (e : E.Act) → E.Res e → ε → ε → Prop} {v : ε}

/-- A set whose methods are single steps. -/
def tracked (x : Fixed) (clients : Tid → Prog ((monitor x).calls E) Unit)
    (around : Tid → (e : E.Act) → E.Res e → ε → ε → Prop) :
    Sys ((monitor x).calls E) Tid (Finset Fd × ε) :=
  Monitor.specified clients around fun o d r d' => Allows x o r d d'

variable {clients : Tid → Prog ((monitor x).calls E) Unit}

/-- No method lets the set outgrow the limit. -/
theorem allows_card {o : Op} {r : Except Err (Out o)} {d d' : Finset Fd} (h : Allows x o r d d')
    (hd : d.card ≤ x.maxFd) : d'.card ≤ x.maxFd := by
  cases o with
  | addClient n =>
    cases r with
    | ok u =>
      obtain ⟨-, -, hroom, rfl⟩ := h
      exact (Finset.card_insert_le n d).trans hroom
    | error e => exact h.1 ▸ hd
  | deleteClient n =>
    cases r with
    | ok u =>
      obtain ⟨-, -, rfl⟩ := h
      exact (Finset.card_le_card (Finset.erase_subset n d)).trans hd
    | error e => exact h.1 ▸ hd
  | getClients | isFull | getClientCount => exact h.2 ▸ hd

variable [DecidableEq Tid]

/-- **The tracker is linearizable.** Each run of its code is matched by a run in which every method is a single step
on the set of clients, with the same answers or exceptions, and the set never has more than `max_fd` members. -/
theorem tracker_linearizable {bound : Nat}
    {tr : List (Event ((monitor x).micro E) Tid ((monitor x).State Tid ε))}
    {c : Config ((monitor x).micro E) Tid ((monitor x).State Tid ε)}
    (h : (Monitor.locking clients around bound).Run (.open (∅ : Finset Fd) v) tr c) :
    ∃ tr' c', (tracked x clients around).Run (∅, v) tr' c' ∧ Monitor.Fits c.st c'.st ∧
      (∀ t, (Monitor.refinement clients around bound).Stands t (c.st, c'.st) (c.prog t) (c'.prog t)) ∧
      c'.st.1.card ≤ x.maxFd := by
  obtain ⟨tr', c', hrun, hfit, hstands⟩ := Monitor.refines_spec (fun _ _ _ _ => effect_iff) h
  refine ⟨tr', c', hrun, hfit, hstands, ?_⟩
  refine (hrun.invariant (I := fun s => s.1.card ≤ x.maxFd) (Nat.zero_le _) fun e he hi => ?_).1
  have hstep := hrun.step_of_mem e he
  obtain ⟨t, a, r, s, s'⟩ := e
  cases a with
  | op o => exact allows_card hstep.1 hi
  | env e => exact (congrArg Finset.card hstep.1).le.trans hi

/-- There is room for one: a thread adds descriptor 5, another is refused with 6, and the first deletes 5 again. -/
theorem tracker_linearizable_add :
    ∃ (clients : Bool → Prog ((monitor ⟨4, 1⟩).calls Monitor.nothing) Unit)
      (tr : List (Event ((monitor ⟨4, 1⟩).micro Monitor.nothing) Bool ((monitor ⟨4, 1⟩).State Bool Unit)))
      (c : Config ((monitor ⟨4, 1⟩).micro Monitor.nothing) Bool ((monitor ⟨4, 1⟩).State Bool Unit)),
    (Monitor.locking clients Monitor.inert 1).Run (.open (∅ : Finset Fd) ()) tr c ∧
      (c.prog true = .ret () ∧ c.prog false = .ret ()) ∧
      ∃ tr' c', (tracked ⟨4, 1⟩ clients Monitor.inert).Run (∅, ()) tr' c' ∧ c'.st.1 = ∅ ∧ c'.st.1.card ≤ 1 := by
  let clients : Bool → Prog ((monitor ⟨4, 1⟩).calls Monitor.nothing) Unit := fun b =>
    if b then .act (.op (.addClient 5)) fun _ => .act (.op (.deleteClient 5)) fun _ => .ret ()
    else .act (.op (.addClient 6)) fun _ => .ret ()
  let code := Monitor.locking (O := monitor ⟨4, 1⟩) (ε := Unit) clients Monitor.inert 1
  let state (d : Finset Fd) (h : Option Bool) : (monitor ⟨4, 1⟩).State Bool Unit := ⟨d, h, ∅, ∅, ()⟩
  have hlock {d : Finset Fd} (b : Bool) : code.step b .lock () (state d none) (state d (some b)) := ⟨rfl, rfl, rfl⟩
  have hunlock {d : Finset Fd} (b : Bool) : code.step b .unlock () (state d (some b)) (state d none) := rfl
  have hefd {d : Finset Fd} (b : Bool) :
      code.step b (.access .loadEfd) (4 : Int) (state d (some b)) (state d (some b)) := ⟨_, ⟨rfl, rfl⟩, rfl⟩
  have hlistener {d : Finset Fd} (b : Bool) :
      code.step b (.access .loadListenerFd) (3 : Int) (state d (some b)) (state d (some b)) := ⟨_, rfl, rfl⟩
  have hsize {d : Finset Fd} (b : Bool) :
      code.step b (.access .size) d.card (state d (some b)) (state d (some b)) := ⟨_, ⟨rfl, rfl⟩, rfl⟩
  have hmax {d : Finset Fd} (b : Bool) :
      code.step b (.access .loadMaxFd) (1 : Nat) (state d (some b)) (state d (some b)) := ⟨_, ⟨rfl, rfl⟩, rfl⟩
  have hadd : code.step true (.access (.epollAdd 5)) true (state ∅ (some true)) (state ∅ (some true)) := ⟨_, rfl, rfl⟩
  have hinsert : code.step true (.access (.insert 5)) () (state ∅ (some true)) (state {5} (some true)) := ⟨_, rfl, rfl⟩
  have hdelete : code.step true (.access (.epollDel 5)) true (state {5} (some true)) (state {5} (some true)) :=
    ⟨_, rfl, rfl⟩
  have hfound : code.step true (.access (.find 5)) true (state {5} (some true)) (state {5} (some true)) :=
    ⟨_, ⟨rfl, rfl⟩, rfl⟩
  have herase : code.step true (.access (.erase 5)) () (state {5} (some true)) (state ∅ (some true)) := ⟨_, rfl, rfl⟩
  have hstart : code.Run (state ∅ none) [] (code.start (state ∅ none)) := .start
  have hchecked := ((hstart.call true () rfl (hlock _)).call true _ rfl (hefd _)).call true _ rfl (hlistener _)
  have hadded := ((((hchecked.call true _ rfl (hsize _)).call true _ rfl (hmax _)).call true _ rfl hadd).call true () rfl
    hinsert).call true () rfl (hunlock _)
  have hrefused := ((((hadded.call false () rfl (hlock _)).call false _ rfl (hefd _)).call false _ rfl
    (hlistener _)).call false _ rfl (hsize _)).call false _ rfl (hmax _) |>.call false () rfl (hunlock _)
  have hagain := ((hrefused.call true () rfl (hlock _)).call true _ rfl (hefd _)).call true _ rfl (hlistener _)
  have hrun := (((hagain.call true _ rfl hdelete).call true _ rfl hfound).call true () rfl herase).call true () rfl
    (hunlock _)
  obtain ⟨tr', c', htracked, hfit, -, hcard⟩ := tracker_linearizable hrun
  exact ⟨clients, _, _, hrun, ⟨rfl, rfl⟩, tr', c', htracked, (hfit.data rfl).symm, hcard⟩

end

/-! ## The calls of the server -/

section

variable {t : Srv} {a : Act} {r : Res a} {s s' : St}

/-- The method of the tracker that a call of the server is, with what it answers or raises. -/
def trackerMethod : (a : Act) → Res a →
    Option ((o : ConnectionTracker.Op) × Except Err (ConnectionTracker.Out o))
  | .addClient n, .ok => some ⟨.addClient n, .ok ()⟩
  | .addClient n, .full => some ⟨.addClient n, .error .poolFull⟩
  | .addClient n, .failed => some ⟨.addClient n, .error .addFailed⟩
  | .deleteClient n, true => some ⟨.deleteClient n, .ok ()⟩
  | .deleteClient n, false => some ⟨.deleteClient n, .error .deleteFailed⟩
  | .getClients, l => some ⟨.getClients, .ok l.toFinset⟩
  | .getClientCount, k => some ⟨.getClientCount, .ok k⟩
  | _, _ => none

/-- The members of the tracker that its methods do not change. -/
def fixedOf (b : Base) : ConnectionTracker.Fixed := ⟨b.efd, asSize b.maxFd⟩

/-- A call of the server on its tracker is a method of it. -/
theorem exec_tracker {m : (o : ConnectionTracker.Op) × Except Err (ConnectionTracker.Out o)}
    (h : exec t a r s = some s') (hm : trackerMethod a r = some m) :
    ((ConnectionTracker.monitor (fixedOf (s.base t))).method m.1).Effect (s.base t).clients m.2
      (s'.base t).clients := by
  rw [ConnectionTracker.effect_iff, exec_clients h t]
  cases a
  case addClient n =>
    cases r with
    | ok =>
      cases hm
      obtain ⟨⟨hrefused, hfull, -⟩, -⟩ := need_eq_some.mp h
      refine ⟨fun hn => hrefused (.inl hn), fun he => hrefused (.inr (.inl he)), not_le.mp hfull, ?_⟩
      simp [After.clients]
    | full =>
      cases hm
      obtain ⟨⟨hrefused, hfull⟩, -⟩ := need_eq_some.mp h
      refine ⟨?_, .inr ⟨rfl, fun hn => hrefused (.inl hn), fun he => hrefused (.inr (.inl he)), hfull⟩⟩
      simp [After.clients]
    | failed =>
      cases hm
      refine ⟨?_, .inl rfl⟩
      simp [After.clients]
  case deleteClient n =>
    cases r with
    | true =>
      cases hm
      obtain ⟨⟨hrefused, -⟩, -⟩ := need_eq_some.mp h
      refine ⟨fun hn => hrefused (.inl hn), fun he => hrefused (.inr (.inl he)), ?_⟩
      simp [After.clients]
    | false =>
      cases hm
      refine ⟨?_, rfl⟩
      simp [After.clients]
  case getClients =>
    cases hm
    exact ⟨congrArg Except.ok (need_eq_some.mp h).1.2, rfl⟩
  case getClientCount =>
    cases hm
    exact ⟨congrArg Except.ok (need_eq_some.mp h).1, rfl⟩
  all_goals exact nomatch hm

/-- Nothing but its own methods, its construction and its destruction changes a tracker's set. -/
theorem exec_clients_eq {v : Srv} (h : exec t a r s = some s') (hm : v = t → trackerMethod a r = none)
    (hnew : ∀ c m, v = .chan c → a ≠ .newTracker c m ∧ a ≠ .dropTracker c) :
    (s'.base v).clients = (s.base v).clients := by
  rw [exec_clients h v]
  cases a
  case addClient n =>
    have hv : v ≠ t := fun hv => by cases r <;> cases hm hv
    exact if_neg hv
  case deleteClient n =>
    have hv : v ≠ t := fun hv => by cases r <;> cases hm hv
    exact if_neg hv
  case newTracker c m => exact if_neg fun hv => (hnew c m hv).1 rfl
  case dropTracker c => exact if_neg fun hv => (hnew c 0 hv).2 rfl
  all_goals rfl

/-- A call of the server on the names is a method of `UserManager`; no other call changes them. -/
theorem exec_userManager (h : exec t a r s = some s') :
    match a, r with
    | .getUserName n, r => (UserManager.monitor.method (.getUserName n)).Effect s.names (.ok r) s'.names
    | .setUserName n u, _ => (UserManager.monitor.method (.setUserName n u)).Effect s.names (.ok ()) s'.names
    | .removeUserName n, _ => (UserManager.monitor.method (.removeUserName n)).Effect s.names (.ok ()) s'.names
    | _, _ => s'.names = s.names := by
  have hnames := exec_names h
  cases a
  case getUserName n =>
    exact UserManager.effect_iff.mpr ⟨congrArg Except.ok (need_eq_some.mp h).1, hnames⟩
  case setUserName n u => exact UserManager.effect_iff.mpr ⟨rfl, hnames⟩
  case removeUserName n => exact UserManager.effect_iff.mpr ⟨rfl, hnames⟩
  all_goals exact hnames

/-- A call of the server on the reports is a method of the queue; no other call changes them. -/
theorem exec_reports (h : exec t a r s = some s') :
    match a with
    | .report n p j => ((ProducerConsumerQueue.monitor ChannelReport).method
        (.push ⟨n, p, j, (s.base t).aux.source.map Prod.snd⟩)).Effect ⟨s.lobby.reports, false⟩ (.ok ())
          ⟨s'.lobby.reports, false⟩
    | .popReports => ((ProducerConsumerQueue.monitor ChannelReport).method .popAll).Effect
        ⟨s.lobby.reports, false⟩ (.ok s'.lobby.localQ) ⟨s'.lobby.reports, false⟩
    | _ => s'.lobby.reports = s.lobby.reports := by
  have hlobby := exec_lobby h
  cases a
  case report n p j =>
    refine ProducerConsumerQueue.effect_iff.mpr ⟨(), rfl, ?_⟩
    rw [hlobby]
    rfl
  case popReports =>
    refine ProducerConsumerQueue.effect_iff.mpr ⟨s'.lobby.localQ, rfl, ?_⟩
    rw [hlobby]
    rfl
  all_goals exact (congrArg Lobby.reports hlobby).trans rfl

/-- So it is with the messages of a channel, which its own worker pushes and pops. -/
theorem exec_messages (h : exec t a r s = some s') :
    match a, r with
    | .pushMq n m, _ => ((ProducerConsumerQueue.monitor (Fd × MessageReqDto)).method (.push (n, m))).Effect
        ⟨(s.chan (own t)).mq, false⟩ (.ok ()) ⟨(s'.chan (own t)).mq, false⟩
    | .popMq, r => ((ProducerConsumerQueue.monitor (Fd × MessageReqDto)).method .popAll).Effect
        ⟨(s.chan (own t)).mq, false⟩ (.ok r) ⟨(s'.chan (own t)).mq, false⟩
    | .newTracker _ _, _ => True
    | .dropTracker _, _ => True
    | _, _ => (s'.chan (own t)).mq = (s.chan (own t)).mq := by
  have hmq := exec_mq h (own t)
  cases a
  case pushMq n m =>
    refine ProducerConsumerQueue.effect_iff.mpr ⟨(), rfl, ?_⟩
    rw [hmq]
    simp [After.mq, ProducerConsumerQueue.apply]
  case popMq =>
    refine ProducerConsumerQueue.effect_iff.mpr ⟨r, rfl, ?_⟩
    rw [hmq, (need_eq_some.mp h).1]
    simp [After.mq, ProducerConsumerQueue.apply]
  case newTracker | dropTracker => trivial
  all_goals exact hmq

end

end ChatChannel
